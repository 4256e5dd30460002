import R503.PairingLink
import R503.TidyFiles

/-! The pairing tools (pairing.rs): `--pair`, `--unpair`, `--reseal-tpm` and `--reseal-policy`
on the host files and the EEPROM of the Nano. -/
namespace R503.Host

open Text Firmware

/-! ### PCR lists -/

inductive PcrError where
  | notU8 (tok : Bytes)
  | empty
  | tooLong (count : Nat)
  | outOfRange (index : UInt8)
  | duplicates
  deriving DecidableEq

/-- The token loop of `parse_pcr_list`. -/
def pcrTokens : List Bytes → Except PcrError (List UInt8)
  | [] => .ok []
  | tok :: rest =>
    let tok := trim tok
    if tok = [] then pcrTokens rest
    else match u8FromStr tok with
      | none => .error (.notU8 tok)
      | some n =>
        match pcrTokens rest with
        | .error e => .error e
        | .ok out => .ok (n :: out)

def validatePcrs (pcrs : List UInt8) : Except PcrError Unit :=
  if pcrs = [] then .error .empty
  else if pcrs.length > 24 then .error (.tooLong pcrs.length)
  else match pcrs.find? (· > 23) with
    | some p => .error (.outOfRange p)
    | none => if pcrs.Nodup then .ok () else .error .duplicates

def parsePcrList (s : Bytes) : Except PcrError (List UInt8) :=
  match pcrTokens (splitOn 44 s []) with
  | .error e => .error e
  | .ok [] => .error .empty
  | .ok out =>
    match validatePcrs out with
    | .error e => .error e
    | .ok () => .ok out

/-! ### Flows -/

structure Site where
  files : HostFiles
  ee : Eeprom

/-- How one invocation fares: what the system does not fail, and the firmware's sensor. -/
structure CliIo where
  /-- The port is found and its exclusive lock is free. -/
  port : Bool
  /-- The result of `generate_key`. -/
  key : Option Key
  closeGate : Bool
  /-- Which of the TPM's attempts to seal this is. -/
  attempt : Nat
  keyWrite : WriteIo
  copy : CopyIo
  delete : DeleteIo
  stateReadable : Bool
  stateWrite : WriteIo
  stateRemove : Bool
  lib : Library

def CliIo.smooth (key : Key) (lib : Library) : CliIo :=
  ⟨true,some key,true,0,.done,.done,.done,true,.done,true,lib⟩

def markerFiles : HostFiles
  | .allowPair => some (.node ⟨0,0o644,.file (some [])⟩)
  | _ => none

def Site.optedIn : Site := ⟨markerFiles,fun _ => 0xFF⟩

inductive CliError where
  | optInMissing
  | noTpm
  | port
  | timeout (label : Bytes)
  | status (e : StatusError)
  | alreadyPaired
  | keygen
  | refused (reply : Bytes)
  | notCommitted
  | pcrs (e : PcrError)
  | file (e : FileError)
  | loadingKey (e : KeyError)
  | noKey
  | sealing
  | verifying
  | resealMismatch
  | loadingState (e : StateError)
  | ceiling (counter : UInt64)
  | framing (e : FramingError) (line : Bytes)
  | counterMismatch (got want : UInt64)
  | stillPaired
  deriving DecidableEq

abbrev Flow (α : Type) : Type := Fallible Site (Halt CliError) α

def getFiles : Flow HostFiles := fun w => (w,.ok w.files)

def onFiles (x : FileOp) : Flow Unit := fun w =>
  let (files,result) := x w.files
  (⟨files,w.ee⟩,result.mapError (.map .file))

def ignoring (x : FileOp) : Flow Unit := onFiles (attempt x)

open Fallible

section
variable (tpm : Tpm) (fromSlice : Bytes → Option UInt64) (io : CliIo)

def openLink : Flow Unit := require io.port (.fails .port)

def cmdLabeled (wire label : Bytes) : Flow Bytes := fun w =>
  let (ee,reply) := exchange w.ee io.lib wire
  ({ w with ee := ee },match reply with
    | some line => .ok line
    | none => .error (.fails (.timeout label)))

def queryStatus : Flow FirmwareStatus := do
  let line ← cmdLabeled io (ascii "status") (ascii "status")
  fromExcept ((parseStatus line).mapError fun e => .fails (.status e))

/-- The list a sealed pairing asks for, PCR 7 by default. -/
def requestedPcrs (sealTpmPcrs : Option Bytes) : Except PcrError (List UInt8) :=
  match sealTpmPcrs with
  | some s => parsePcrList s
  | none => .ok [7]

/-- What `run_pair` does with the key once the Nano has it. -/
def storeKey (key : Key) (sealTpm : Bool) (sealTpmPcrs : Option Bytes) : Flow Unit :=
  if sealTpm then do
    let pcrs ← fromExcept ((requestedPcrs sealTpmPcrs).mapError fun e => .fails (.pcrs e))
    onFiles (saveKeySealedWithPcrs tpm io.attempt io.keyWrite io.delete key pcrs)
  else onFiles (saveKey io.keyWrite io.copy key)

def runPair (sealTpm : Bool) (sealTpmPcrs : Option Bytes) : Flow Unit := do
  let files ← getFiles
  require (allowPairPresent files) (.fails .optInMissing)
  require (sealTpm → tpm.devicePresent) (.fails .noTpm)
  openLink io
  let pre ← queryStatus io
  require (¬ pre.paired) (.fails .alreadyPaired)
  let key ← fromExcept (match io.key with
    | some key => .ok key
    | none => .error (.fails .keygen))
  onFiles (removeAllowPair io.closeGate)
  let reply ← cmdLabeled io (ascii "pair " ++ keyHex key) (ascii "pair")
  require (reply = ascii "OK paired") (.fails (.refused reply))
  let post ← queryStatus io
  require post.paired (.fails .notCommitted)
  storeKey tpm io key sealTpm sealTpmPcrs
  onFiles (stateSave io.stateWrite freshCounter)

def runResealTpm (sealTpmPcrs : Option Bytes) : Flow Unit := do
  require tpm.devicePresent (.fails .noTpm)
  let files ← getFiles
  require (allowPairPresent files) (.fails .optInMissing)
  openLink io
  let pre ← queryStatus io
  require (¬ pre.paired) (.fails .stillPaired)
  ignoring (deleteAllKeys io.delete)
  ignoring (stateDelete io.stateRemove)
  runPair tpm io true sealTpmPcrs

def loadForCli : Flow (Key × KeySource) := do
  let files ← getFiles
  match loadKeyWithSource tpm files with
  | .error e => bail (e.map .loadingKey)
  | .ok none => bail (.fails .noKey)
  | .ok (some found) => pure found

/-- The label of the old policy is only printed. -/
def runResealPolicy (newPcrs : Option (List UInt8)) : Flow Unit := do
  let (key,source) ← loadForCli tpm
  let newBlob ← fromExcept (match tpm.sealKey io.attempt key newPcrs with
    | some blob => .ok blob
    | none => .error (.fails .sealing))
  let reunsealed ← fromExcept (match tpm.unsealKey newBlob with
    | some key => .ok key
    | none => .error (.fails .verifying))
  require (reunsealed = key) (.fails .resealMismatch)
  onFiles (persistSealedBlob io.keyWrite newBlob)
  if source = .plaintext then ignoring (deleteKey io.delete) else pure ()

/-- The framed half of `run_unpair`, for a Nano that reports itself paired. -/
def unpairFramed (key : Key) : Flow Unit := do
  let files ← getFiles
  let st ← fromExcept ((stateLoadFrom fromSlice io.stateReadable files).mapError (.map .loadingState))
  let counter := st.getD freshCounter
  require (counter < counterCeiling) (.fails (.ceiling counter))
  onFiles (stateSave io.stateWrite (counter + 1))
  let rawReply ← cmdLabeled io (encodeCommand key counter (ascii "unpair")) (ascii "unpair")
  require ((ascii "R ").isPrefixOf rawReply) (.fails (.refused rawReply))
  let (gotCtr,_,body) ← fromExcept ((verifyResponse key rawReply).mapError fun e => .fails (.framing e rawReply))
  require (gotCtr = counter) (.fails (.counterMismatch gotCtr counter))
  require (body = ascii "OK unpaired") (.fails (.refused body))
  let post ← queryStatus io
  require (¬ post.paired) (.fails .stillPaired)
  onFiles (deleteAllKeys io.delete)
  onFiles (stateDelete io.stateRemove)

def runUnpair : Flow Unit := do
  let (key,_) ← loadForCli tpm
  openLink io
  let pre ← queryStatus io
  if ¬ pre.paired then ignoring (deleteKey io.delete)
  else unpairFramed fromSlice io key

end

/-! ### Running a flow -/

theorem getFiles_bind (f : HostFiles → Flow β) (w : Site) : (getFiles >>= f) w = f w.files w := rfl

theorem onFiles_eq {x : FileOp} {w : Site} {files : HostFiles} {result : Except (Halt FileError) Unit}
    (ran : x w.files = (files,result)) : onFiles x w = (⟨files,w.ee⟩,result.mapError (.map .file)) := by
  rw [onFiles,ran]

theorem onFiles_ok {x : FileOp} {w : Site} {files : HostFiles} (done : x w.files = (files,.ok ())) :
    onFiles x w = (⟨files,w.ee⟩,.ok ()) := onFiles_eq done

theorem onFiles_error {x : FileOp} {w : Site} {files : HostFiles} {e : Halt FileError}
    (failed : x w.files = (files,.error e)) : onFiles x w = (⟨files,w.ee⟩,.error (e.map .file)) := onFiles_eq failed

theorem onFiles_done {x : FileOp} {w v : Site} (ran : onFiles x w = (v,.ok ())) :
    x w.files = (v.files,.ok ()) ∧ v.ee = w.ee := by
  unfold onFiles at ran
  dsimp only at ran
  obtain ⟨rfl,result⟩ := Prod.mk.inj ran
  refine ⟨Prod.ext rfl ?_,rfl⟩
  cases done : (x w.files).2 with
  | ok => rfl
  | error e =>
    rw [done] at result
    cases result

section
variable (tpm : Tpm) (io : CliIo) (w : Site)

theorem queryStatus_eq : queryStatus io w =
    (w,.ok ⟨eeIsPaired w.ee,eeLoadCounter w.ee,2,ascii "1.1"⟩) := by
  have asked : cmdLabeled io (ascii "status") (ascii "status") w =
      (w,.ok (statusLine (eeIsPaired w.ee) (eeLoadCounter w.ee))) := by
    simp [cmdLabeled]
  rw [queryStatus,bind_eq asked,parseStatus_statusLine]
  rfl

theorem queryStatus_bind (f : FirmwareStatus → Flow β) :
    (queryStatus io >>= f) w = f ⟨eeIsPaired w.ee,eeLoadCounter w.ee,2,ascii "1.1"⟩ w :=
  bind_eq (queryStatus_eq io w) f

/-- The key `run_pair` puts on the wire, if it gets that far. -/
def keySent (sealTpm : Bool) : Option Key :=
  if allowPairPresent w.files ∧ (sealTpm → tpm.devicePresent) ∧ io.port ∧ ¬ eeIsPaired w.ee ∧ io.closeGate ∧
      ¬ w.files.isDirectory .allowPair then io.key
  else none

def storePairing (key : Key) (sealTpm : Bool) (sealTpmPcrs : Option Bytes) : Flow Unit := do
  storeKey tpm io key sealTpm sealTpmPcrs
  onFiles (stateSave io.stateWrite freshCounter)

def Site.closed : HostFiles := w.files.remove .allowPair

def Site.nanoPaired (key : Key) : Site := ⟨w.closed,eeSavePairing w.ee key⟩

theorem tidy_markerFiles : Tidy markerFiles where
  regular p _ entry here := by
    cases p with
    | allowPair =>
      obtain rfl := Option.some.inj here
      exact ⟨_,rfl,rfl⟩
    | _ => cases here
  keyTmp _ here := by cases here

theorem allowPair_entry {files : HostFiles} (present : allowPairPresent files = true) : files .allowPair ≠ none := by
  intro missing
  rw [allowPairPresent,Disk.found_missing missing] at present
  cases present

variable (sealTpm : Bool) (sealTpmPcrs : Option Bytes)

/-- Before the key is sent nothing changes. -/
theorem runPair_stops (noKey : keySent tpm io w sealTpm = none) :
    ∃ e, runPair tpm io sealTpm sealTpmPcrs w = (w,.error (.fails e)) := by
  rw [runPair,getFiles_bind,require_bind]
  split
  next opened =>
    rw [require_bind]
    split
    next present =>
      rw [openLink,require_bind]
      split
      next port =>
        rw [queryStatus_bind,require_bind]
        split
        next unpaired =>
          cases made : io.key with
          | none => exact ⟨.keygen,rfl⟩
          | some key =>
            have stays : ¬ (io.closeGate = true ∧ ¬ w.files.isDirectory .allowPair) := by
              intro closes
              rw [keySent,if_pos ⟨opened,present,port,unpaired,closes.1,closes.2⟩,made] at noKey
              cases noKey
            have kept : removeAllowPair io.closeGate w.files = (w.files,.error (.fails .removing)) := by
              rw [removeAllowPair,removeFile,if_neg (allowPair_entry opened),if_neg stays]
            refine ⟨.file .removing,?_⟩
            rw [bind_eq (a := key) (v := w) rfl,bind_error (onFiles_error kept)]
            rfl
        · exact ⟨_,rfl⟩
      · exact ⟨_,rfl⟩
    · exact ⟨_,rfl⟩
  · exact ⟨_,rfl⟩

theorem runPair_sent (key : Key) (sent : keySent tpm io w sealTpm = some key) :
    runPair tpm io sealTpm sealTpmPcrs w =
      storePairing tpm io key sealTpm sealTpmPcrs (w.nanoPaired key) := by
  unfold keySent at sent
  split at sent
  next conditions =>
    obtain ⟨opened,present,port,unpaired,closes,noDirectory⟩ := conditions
    have gate : removeAllowPair io.closeGate w.files = (w.closed,.ok ()) := by
      rw [removeAllowPair,removeFile,if_neg (allowPair_entry opened),if_pos ⟨closes,noDirectory⟩,Site.closed]
    have notPaired : eeIsPaired w.ee = false := by simpa using unpaired
    have paired : cmdLabeled io (ascii "pair " ++ keyHex key) (ascii "pair")
        ⟨w.closed,w.ee⟩ = (w.nanoPaired key,.ok (ascii "OK paired")) := by
      simp only [cmdLabeled,keyHex,exchange_pair w.ee io.lib key notPaired,Site.nanoPaired]
    have post : eeIsPaired (w.nanoPaired key).ee = true := eeIsPaired_savePairing w.ee key
    rw [runPair,getFiles_bind,require_bind,if_pos opened,require_bind,if_pos present,openLink,require_bind,
      if_pos port,queryStatus_bind,require_bind,if_pos unpaired,sent,bind_eq (a := key) (v := w) rfl,
      bind_eq (onFiles_ok gate),bind_eq paired,require_bind,if_pos rfl,queryStatus_bind,require_bind,if_pos post]
    rfl
  · cases sent

theorem keySent_optedIn (sealTpm : Bool) :
    keySent .echo (.smooth katKey allOk) .optedIn sealTpm = some katKey := by
  refine if_pos ⟨rfl,fun _ => rfl,rfl,?_,rfl,?_⟩
  · decide
  · decide

/-! ### The host's part -/

variable (key : Key)

theorem storePairing_rejected (e : PcrError) (rejected : requestedPcrs sealTpmPcrs = .error e) :
    storePairing tpm io key true sealTpmPcrs w = (w,.error (.fails (.pcrs e))) := by
  have first : storeKey tpm io key true sealTpmPcrs w = (w,.error (.fails (.pcrs e))) := by
    rw [storeKey,if_pos rfl,rejected]
    rfl
  rw [storePairing,bind_error first]

theorem storeKey_sealed (pcrs : List UInt8) (accepted : requestedPcrs sealTpmPcrs = .ok pcrs) :
    storeKey tpm io key true sealTpmPcrs w =
      onFiles (saveKeySealedWithPcrs tpm io.attempt io.keyWrite io.delete key pcrs) w := by
  rw [storeKey,if_pos rfl,accepted]
  rfl

theorem storeKey_plain : storeKey tpm io key false sealTpmPcrs w = onFiles (saveKey io.keyWrite io.copy key) w := rfl

end

end R503.Host
