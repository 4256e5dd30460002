import R503.ToolRuns

/-! Which key the host loads and which the Nano holds, over any sequence of the pairing
tools, reflashes and opt-ins. -/
namespace R503.Host

open Text Firmware Fallible

def cliStep (tpm : Tpm) (fromSlice : Bytes → Option UInt64) (w : Site) (op : CliOp) : Option Site :=
  some (op.run tpm fromSlice w).1

structure CliIo.FilesFine (io : CliIo) : Prop where
  closeGate : io.closeGate = true
  keyWrite : io.keyWrite.Fine
  copy : io.copy.Fine
  delete : io.delete.Fine
  stateReadable : io.stateReadable = true
  stateWrite : io.stateWrite.Fine
  stateRemove : io.stateRemove = true

def CliOp.FilesFine : CliOp → Prop
  | .pair io _ _ | .unpair io | .resealTpm io _ | .resealPolicy io _ => io.FilesFine
  | .reflashToWipe | .touchAllowPair => True

/-- The host would use exactly the key in the EEPROM. -/
def KeysAgree (tpm : Tpm) (w : Site) : Prop := ∃ key, eeLoadKey w.ee = some key ∧ Loads tpm w.files key

def KeysGone (tpm : Tpm) (w : Site) : Prop :=
  loadKeyWithSource tpm w.files = .ok none ∧ eeIsPaired w.ee = false

def Agrees (tpm : Tpm) (fromSlice : Bytes → Option UInt64) (w : Site) (op : CliOp) (_ : Site) : Prop :=
  ∀ t, op.run tpm fromSlice w = (t,.ok ()) →
    match op with
    | .pair _ _ _ | .resealTpm _ _ => KeysAgree tpm t
    | .unpair _ => KeysGone tpm t
    | .resealPolicy _ _ | .reflashToWipe | .touchAllowPair => True

/-- Not a plain pairing over a `key.tpm` with another key, and no unpairing of an unpaired
Nano while there is a `key.tpm`. -/
def NoStaleBlob (tpm : Tpm) (w : Site) (op : CliOp) (_ : Site) : Prop :=
  match op with
  | .pair io false _ => ∀ key, keySent tpm io w false = some key →
      w.files.found .keyTpm = none ∨ Loads tpm w.files key
  | .unpair io => eeIsPaired w.ee = false → io.port = true → w.files.found .keyTpm = none
  | _ => True

/-! ### `key.tpm` holds what this TPM sealed -/

def SealedHere (tpm : Tpm) (files : HostFiles) : Prop :=
  ∀ n, files.found .keyTpm = some n → ∃ attempt key pcrs blob, n.body = .file (some blob) ∧
    tpm.sealKey attempt key pcrs = some blob

theorem sealedHere_loads {tpm : Tpm} {files : HostFiles} {n : Disk.Inode} (sealed : SealedHere tpm files)
    (stored : files.found .keyTpm = some n) : ∃ key, loadKeyWithSource tpm files = .ok (some (key,.tpm)) := by
  obtain ⟨attempt,key,pcrs,blob,content,made⟩ := sealed n stored
  refine ⟨key,?_⟩
  rw [loadKeyWithSource,stored]
  simp only [content,Disk.Body.read,tpm.unsealsSealed _ _ _ _ made]

theorem sealedHere_none {tpm : Tpm} {files : HostFiles} (absent : files.found .keyTpm = none) :
    SealedHere tpm files := by
  intro n stored
  rw [absent] at stored
  cases stored

section
variable {tpm : Tpm}

theorem sealedHere_same (a b : HostFiles) (same : a.Same b .keyTpm) (sealed : SealedHere tpm a) : SealedHere tpm b :=
  fun n stored => sealed n (same.found.symm.trans stored)

theorem ours_persist (write : WriteIo) {attempt : Nat} {key : Key} {pcrs : Option (List UInt8)} {blob : Bytes}
    (made : tpm.sealKey attempt key pcrs = some blob) :
    Keeps (TidyWith (SealedHere tpm)) (persistSealedBlob write blob) := by
  rintro files ⟨tidy,sealed⟩
  have plain := tidy.target (p := .keyTpmTmp) (by decide)
  refine ⟨keeps_tidy_replaceFile write blob (by decide) (by decide) (by decide) files tidy,?_⟩
  rw [persistSealedBlob]
  by_cases replaces : Replaces write files .keyTpmTmp .keyTpm
  · rw [replaceFile_done plain replaces]
    intro n stored
    obtain ⟨m,there,content⟩ := replaced_blob blob tidy.apart replaces
    obtain rfl := Option.some.inj (stored.symm.trans there)
    exact ⟨attempt,key,pcrs,blob,content,made⟩
  · have failed : (replaceFile write .keyTpmTmp .keyTpm blob files).2 ≠ .ok () := fun ok =>
      replaces (replaceFile_ok plain (Prod.ext rfl ok)).1
    exact sealedHere_same _ _
      (same_replaceFile tidy.apart plain failed (by decide) (by decide) (by decide)) sealed

theorem ours_removeFile (removed : Bool) (p : Path) (member : p ∈ [Path.keyTpm,.state,.allowPair]) :
    Keeps (TidyWith (SealedHere tpm)) (removeFile removed p) := by
  by_cases blob : p = .keyTpm
  · subst p
    rintro files ⟨tidy,sealed⟩
    refine ⟨keeps_tidy_removeFile removed .keyTpm files tidy,?_⟩
    unfold removeFile
    split
    · exact sealed
    split
    · exact sealedHere_none (Disk.found_missing (Disk.remove_self files .keyTpm))
    · exact sealed
  · have own : p ∈ ownPaths := by
      simp only [List.mem_cons,List.not_mem_nil,or_false] at member
      rcases member with rfl | rfl | rfl <;> decide
    exact keeps_spared sealedHere_same (keeps_tidy_removeFile removed p)
      (spares_removeFile removed (by decide) own (Ne.symm blob))

theorem toolsKeep_ours (tpm : Tpm) : ToolsKeep tpm (TidyWith (SealedHere tpm)) where
  saveKey write copy key := keeps_spared sealedHere_same (keeps_tidy_saveKey write copy key)
    (spares_saveKey write copy key (by decide) (by decide))
  persist write _ _ _ _ made := ours_persist write made
  deleteKey delete := keeps_spared sealedHere_same (keeps_tidy_deleteKey delete)
    (spares_deleteKey delete (by decide) (by decide) (by decide))
  removeFile := ours_removeFile
  stateSave write n := keeps_spared sealedHere_same (keeps_tidy_stateSave write n)
    (spares_stateSave write n (by decide) (by decide) (by decide))
  touch := keeps_spared sealedHere_same (toolsKeep_tidy tpm).touch (spares_touchMarker (by decide) (by decide))

end

/-! ### What each operation leaves -/

section
variable {tpm : Tpm} (io : CliIo) (fromSlice : Bytes → Option UInt64) (sealTpmPcrs : Option Bytes)

/-- A sealed pairing that succeeds leaves its blob. -/
theorem pair_sealed_agrees :
    Ends (fun w : Site => Tidy w.files) (fun _ => KeysAgree tpm) (runPair tpm io true sealTpmPcrs) := by
  intro w tidy t _ ran
  cases sent : keySent tpm io w true with
  | none =>
    obtain ⟨e,stopped⟩ := runPair_stops tpm io w true sealTpmPcrs sent
    rw [stopped] at ran
    cases (Prod.mk.inj ran).2
  | some key =>
    rw [runPair_sent tpm io w true sealTpmPcrs key sent] at ran
    cases requested : requestedPcrs sealTpmPcrs with
    | error e =>
      rw [storePairing_rejected tpm io _ sealTpmPcrs key e requested] at ran
      cases (Prod.mk.inj ran).2
    | ok pcrs =>
      obtain ⟨v,_,stored,rest⟩ := bind_ok ran
      rw [storeKey_sealed tpm io _ sealTpmPcrs key pcrs requested] at stored
      obtain ⟨saves,same⟩ := onFiles_done stored
      obtain ⟨saved,same'⟩ := onFiles_done rest
      obtain ⟨files,blob,made,persists⟩ := bind_ok saves
      obtain ⟨given,rfl⟩ := fromExcept_ok _ _ _ _ made
      obtain ⟨written,_,persisted,deletes⟩ := bind_ok persists
      have apart : Apart (w.nanoPaired key).files := tidy.apart.remove (by decide)
      obtain ⟨replaces,rfl⟩ := replaceFile_ok apart.keyTpmTmp persisted
      have after := apart_replaced blob apart (by decide) (by decide) (by decide : Path.keyTpm ≠ .keyTpmTmp)
        apart.keyTpmTmp
      have first := spares_attempt (spares_deleteKey io.delete (p := .keyTpm) (by decide) (by decide) (by decide)) _ after
      rw [deletes] at first
      have second := spares_stateSave io.stateWrite freshCounter (p := .keyTpm) (by decide) (by decide) (by decide)
        v.files first.1
      rw [saved] at second
      have sealed : tpm.sealKey io.attempt key (some pcrs) = some blob := by
        split at given
        next b sealed => exact sealed.trans (congrArg some (Except.ok.inj given))
        · cases given
      refine ⟨key,?_,loads_blob sealed apart replaces (first.2.trans second.2)⟩
      rw [same',same]
      exact eeLoadKey_savePairing w.ee key

/-- The reseal ceremony ends as the sealed pairing in it does. -/
theorem ends_runResealTpm {I : HostFiles → Prop} {Q : Unit → Site → Prop} (keep : ToolsKeep tpm I)
    (pairs : Ends (fun w : Site => I w.files) Q (runPair tpm io true sealTpmPcrs)) :
    Ends (fun w : Site => I w.files) Q (runResealTpm tpm io sealTpmPcrs) := by
  refine ends_bind (keeps_require _ _) fun _ => ?_
  refine ends_bind keeps_getFiles fun files => ?_
  refine ends_bind (keeps_require _ _) fun _ => ?_
  refine ends_bind (keeps_require _ _) fun _ => ?_
  refine ends_bind (keeps_queryStatus io) fun pre => ?_
  refine ends_bind (keeps_require _ _) fun _ => ?_
  refine ends_bind (keeps_ignoring (keeps_deleteAllKeys keep _)) fun _ => ?_
  refine ends_bind (keeps_ignoring (keep.removeFile io.stateRemove .state (by decide))) fun _ => ?_
  exact pairs

theorem resealTpm_agrees : Ends (fun w : Site => Tidy w.files) (fun _ => KeysAgree tpm) (runResealTpm tpm io sealTpmPcrs) :=
  ends_runResealTpm io sealTpmPcrs (toolsKeep_tidy tpm) (pair_sealed_agrees io sealTpmPcrs)

/-- A plain pairing that succeeds leaves its key file, which is loaded unless `key.tpm` hides it. -/
theorem pair_plain_loads {w t : Site} {key : Key} (tidy : Tidy w.files) (sent : keySent tpm io w false = some key)
    (ran : runPair tpm io false sealTpmPcrs w = (t,.ok ())) : eeLoadKey t.ee = some key ∧
      (Loads tpm t.files key ↔ w.files.found .keyTpm = none ∨ Loads tpm w.files key) := by
  rw [runPair_sent tpm io w false sealTpmPcrs key sent] at ran
  obtain ⟨v,_,stored,rest⟩ := bind_ok ran
  rw [storeKey_plain] at stored
  obtain ⟨written,same⟩ := onFiles_done stored
  obtain ⟨saved,same'⟩ := onFiles_done rest
  have tidyClosed : Tidy (w.nanoPaired key).files := tidy.remove .allowPair
  have closed : w.files.Same (w.nanoPaired key).files .keyTpm := tidy.apart.same_entry
    (fun r there => Disk.remove_other w.files there) (by decide) (by decide : Path.allowPair ∈ ownPaths) (by decide)
  obtain ⟨n,here,guarded,text,kept⟩ := saveKey_ok tidyClosed written
  have tidyWritten := keeps_tidy_saveKey io.keyWrite io.copy key _ tidyClosed
  rw [written] at tidyWritten
  have spared {p : Path} (own : p ∈ ownPaths) (notTmp : p ≠ .stateTmp) (notState : p ≠ .state) :
      v.files.Same t.files p := by
    have after := (spares_stateSave io.stateWrite freshCounter own notTmp notState v.files tidyWritten.apart).2
    rwa [saved] at after
  constructor
  · rw [same',same]
    exact eeLoadKey_savePairing w.ee key
  · exact loads_written ((spared (by decide) (by decide) (by decide)).entry.trans here) guarded text
      ((closed.trans kept).trans (spared (by decide) (by decide) (by decide))).found

theorem pair_plain_agrees_iff (w : Site) (tidy : Tidy w.files) (fine : io.FilesFine) :
    (∀ t, runPair tpm io false sealTpmPcrs w = (t,.ok ()) → KeysAgree tpm t) ↔
      ∀ key, keySent tpm io w false = some key → w.files.found .keyTpm = none ∨ Loads tpm w.files key := by
  cases sent : keySent tpm io w false with
  | none =>
    obtain ⟨e,stopped⟩ := runPair_stops tpm io w false sealTpmPcrs sent
    refine iff_of_true (fun t ran => ?_) (fun _ none => by cases none)
    rw [stopped] at ran
    cases (Prod.mk.inj ran).2
  | some key =>
    have tidyClosed : Tidy w.closed := tidy.remove .allowPair
    obtain ⟨left,saved⟩ := saveKey_fine key tidyClosed fine.keyWrite fine.copy
    have tidyLeft := keeps_tidy_saveKey io.keyWrite io.copy key w.closed tidyClosed
    rw [saved] at tidyLeft
    have stored : storeKey tpm io key false sealTpmPcrs (w.nanoPaired key) =
        (⟨left,eeSavePairing w.ee key⟩,.ok ()) := (storeKey_plain ..).trans (onFiles_ok saved)
    have ran : runPair tpm io false sealTpmPcrs w =
        (⟨replaced left .stateTmp .state (stateText freshCounter),eeSavePairing w.ee key⟩,.ok ()) := by
      rw [runPair_sent tpm io w false sealTpmPcrs key sent,storePairing,bind_eq stored]
      exact onFiles_ok (stateSave_fine freshCounter tidyLeft fine.stateWrite)
    constructor
    · intro agrees k same
      obtain rfl := Option.some.inj same
      obtain ⟨loaded,loads⟩ := pair_plain_loads io sealTpmPcrs tidy sent ran
      obtain ⟨k,held,holds⟩ := agrees _ ran
      obtain rfl := Option.some.inj (loaded.symm.trans held)
      exact loads.mp holds
    · intro safe t again
      obtain ⟨loaded,loads⟩ := pair_plain_loads io sealTpmPcrs tidy sent again
      exact ⟨key,loaded,loads.mpr (safe key rfl)⟩

/-- A successful framed unpairing leaves no key at either end. -/
theorem unpairFramed_gone (key : Key) :
    Ends (fun w : Site => Tidy w.files) (fun _ => KeysGone tpm) (unpairFramed fromSlice io key) := by
  refine ends_bind keeps_getFiles fun files => ?_
  refine ends_bind (keeps_fromExcept _) fun st => ?_
  refine ends_bind (keeps_require _ _) fun _ => ?_
  refine ends_bind (keeps_onFiles (keeps_tidy_stateSave _ _)) fun _ => ?_
  refine ends_bind (keeps_cmdLabeled io _ _) fun reply => ?_
  refine ends_bind (keeps_require _ _) fun _ => ?_
  refine ends_bind (keeps_fromExcept _) fun ⟨gotCtr,_,body⟩ => ?_
  refine ends_bind (keeps_require _ _) fun _ => ?_
  refine ends_bind (keeps_require _ _) fun _ v tidy t _ ran => ?_
  -- the Nano has answered; what is left is the second `status` and the removal of the files
  rw [queryStatus_bind,require_bind] at ran
  by_cases unpaired : ¬ eeIsPaired v.ee = true
  · rw [if_pos unpaired] at ran
    obtain ⟨s,_,removed,ran⟩ := bind_ok ran
    obtain ⟨removed,same⟩ := onFiles_done removed
    obtain ⟨deleted,same'⟩ := onFiles_done ran
    obtain ⟨noKey,noBak,noBlob⟩ := deleteAllKeys_ok tidy.apart removed
    have after := keeps_tidy_deleteAllKeys io.delete v.files tidy
    rw [removed] at after
    have kept {p : Path} (own : p ∈ ownPaths) (other : p ≠ .state) : t.files p = s.files p := by
      have spared := (spares_removeFile io.stateRemove own (by decide) other s.files after.apart).2.entry
      rwa [← stateDelete,deleted] at spared
    refine ⟨loads_nothing ?_ ?_ (Disk.found_missing ?_),?_⟩
    · exact (kept (by decide) (by decide)).trans noKey
    · exact (kept (by decide) (by decide)).trans noBak
    · exact (kept (by decide) (by decide)).trans noBlob
    · rw [same',same]
      simpa using unpaired
  · rw [if_neg unpaired] at ran
    cases (Prod.mk.inj ran).2

variable (w : Site)

theorem loadForCli_ok (v : Site) (found : Key × KeySource) (ran : loadForCli tpm w = (v,.ok found)) :
    v = w := by
  rw [loadForCli,getFiles_bind] at ran
  cases loaded : loadKeyWithSource tpm w.files with
  | error e =>
    rw [loaded] at ran
    exact (Prod.mk.inj ran).1.symm
  | ok found =>
    rw [loaded] at ran
    cases found <;> exact (Prod.mk.inj ran).1.symm

theorem loadForCli_eq (found : Key × KeySource) (loaded : loadKeyWithSource tpm w.files = .ok (some found)) :
    loadForCli tpm w = (w,.ok found) := by
  rw [loadForCli,getFiles_bind,loaded]
  rfl

/-- On an unpaired Nano only the plaintext files are removed. -/
theorem runUnpair_unpaired (found : Key × KeySource)
    (loaded : loadKeyWithSource tpm w.files = .ok (some found)) (port : io.port = true)
    (unpaired : eeIsPaired w.ee = false) :
    runUnpair tpm fromSlice io w = ignoring (deleteKey io.delete) w := by
  rw [runUnpair,bind_eq (loadForCli_eq w found loaded)]
  dsimp only
  rw [openLink,require_bind,if_pos port,queryStatus_bind,if_pos (by simp [unpaired])]

theorem unpair_gone {t : Site} (tidy : Tidy w.files) (fine : eeIsPaired w.ee = false → io.delete.Fine)
    (safe : eeIsPaired w.ee = false → io.port = true → w.files.found .keyTpm = none)
    (ran : runUnpair tpm fromSlice io w = (t,.ok ())) : KeysGone tpm t := by
  obtain ⟨v,⟨key,source⟩,found,rest⟩ := bind_ok ran
  rw [loadForCli_ok w v _ found] at rest
  dsimp only at rest
  rw [openLink,require_bind] at rest
  split at rest
  next port =>
    rw [queryStatus_bind] at rest
    split at rest
    next unpaired =>
      have notPaired : eeIsPaired w.ee = false := by simpa using unpaired
      obtain ⟨left,deleted,noKey,noBak,kept⟩ := deleteKey_fine tidy (fine notPaired)
      have deletes : attempt (deleteKey io.delete) w.files = (left,.ok ()) := by rw [attempt,deleted]
      rw [ignoring,onFiles_ok deletes] at rest
      obtain rfl := (Prod.mk.inj rest).1
      exact ⟨loads_nothing noKey noBak (kept.found.trans (safe notPaired port)),notPaired⟩
    · exact unpairFramed_gone io fromSlice key w tidy t () rest
  · cases (Prod.mk.inj rest).2

theorem unpair_gone_iff (tidy : Tidy w.files) (sealed : SealedHere tpm w.files) (fine : io.FilesFine) :
    (∀ t, runUnpair tpm fromSlice io w = (t,.ok ()) → KeysGone tpm t) ↔
      (eeIsPaired w.ee = false → io.port = true → w.files.found .keyTpm = none) := by
  refine ⟨fun gone unpaired port => ?_,fun safe t ran => unpair_gone io fromSlice w tidy (fun _ => fine.delete) safe ran⟩
  by_contra blob
  obtain ⟨left,deleted,_,_,kept⟩ := deleteKey_fine tidy fine.delete
  have deletes : ignoring (deleteKey io.delete) w = (⟨left,w.ee⟩,.ok ()) := by
    refine onFiles_ok ?_
    rw [attempt,deleted]
  obtain ⟨n,stored⟩ := Option.ne_none_iff_exists'.mp blob
  obtain ⟨key,loaded⟩ := sealedHere_loads sealed stored
  have ran := (runUnpair_unpaired io fromSlice w _ loaded port unpaired).trans deletes
  have none := (gone _ ran).1
  rw [loadKeyWithSource_sealed (kept.found.trans stored) stored,loaded] at none
  cases none

end

theorem agrees_iff (tpm : Tpm) (fromSlice : Bytes → Option UInt64) (w t : Site) (op : CliOp)
    (ours : TidyWith (SealedHere tpm) w.files) (fine : op.FilesFine) :
    Agrees tpm fromSlice w op t ↔ NoStaleBlob tpm w op t := by
  cases op with
  | pair io sealTpm sealTpmPcrs =>
    cases sealTpm with
    | true => exact iff_of_true (fun t => pair_sealed_agrees io sealTpmPcrs w ours.1 t ()) trivial
    | false => exact pair_plain_agrees_iff io sealTpmPcrs w ours.1 fine
  | unpair io => exact unpair_gone_iff io fromSlice w ours.1 ours.2 fine
  | resealTpm io sealTpmPcrs => exact iff_of_true (fun t => resealTpm_agrees io sealTpmPcrs w ours.1 t ()) trivial
  | resealPolicy | reflashToWipe | touchAllowPair => exact iff_of_true (fun _ _ => trivial) trivial

/-- From a host with regular files only and no `key.tpm` on, the two ends agree after every successful operation of a
run exactly when no operation of it meets a stale `key.tpm`. -/
theorem keys_agree_iff (tpm : Tpm) (fromSlice : Bytes → Option UInt64) (w : Site) (ops : List CliOp)
    (tidy : Tidy w.files) (noBlob : w.files .keyTpm = none) (fine : ∀ op ∈ ops, op.FilesFine) :
    Transition.Along (cliStep tpm fromSlice) (Agrees tpm fromSlice) w ops ↔
      Transition.Along (cliStep tpm fromSlice) (NoStaleBlob tpm) w ops :=
  Transition.along_congr (fun w => TidyWith (SealedHere tpm) w.files) _ _ CliOp.FilesFine w ops
    (fun w op _ ours _ moved => Option.some.inj moved ▸ keeps_run (toolsKeep_ours tpm) fromSlice op w ours)
    (fun w op t ours fine _ => agrees_iff tpm fromSlice w t op ours fine)
    ⟨tidy,sealedHere_none (Disk.found_missing noBlob)⟩ fine

def zeroKey : Key := ⟨List.replicate 16 0,by simp⟩

theorem smooth_filesFine (key : Key) (lib : Library) : (CliIo.smooth key lib).FilesFine :=
  ⟨rfl,(by decide : WriteIo.done.Fine),(by decide : CopyIo.done.Fine),(by decide : DeleteIo.done.Fine),rfl,
    (by decide : WriteIo.done.Fine),rfl⟩

def readBack (s : Bytes) : Option UInt64 := some (UInt64.ofNat (Decimal.value (s.filter Decimal.isDigit)))

/-- A sealed pairing, a reflash to wipe and the reseal ceremony. -/
theorem keys_agree_sealed_pair : Transition.Along (cliStep .echo readBack) (Agrees .echo readBack) Site.optedIn
    [.pair (.smooth katKey allOk) true none,.reflashToWipe,.touchAllowPair,
      .resealTpm (.smooth zeroKey allOk) none] := by
  refine (keys_agree_iff .echo readBack Site.optedIn _ tidy_markerFiles rfl ?_).mpr ?_
  · simp [CliOp.FilesFine,smooth_filesFine]
  · simp [Transition.Along,NoStaleBlob]

def sealedFiles : HostFiles
  | .keyTpm => some (.node ⟨0,0o600,.file (some katKey.bytes)⟩)
  | .state => some (.node ⟨0,0o600,.file (some (stateText freshCounter))⟩)
  | _ => none

/-- The host after a sealed pairing, with the Nano wiped behind its back. -/
def Site.wipedBehind : Site := ⟨sealedFiles,fun _ => 0xFF⟩

theorem runPair_optedIn : runPair .echo (.smooth katKey allOk) true none .optedIn =
    (⟨sealedFiles,eeSavePairing Site.optedIn.ee katKey⟩,.ok ()) := by
  let stored : HostFiles := fun p => if p = .keyTpm then sealedFiles .keyTpm else none
  have seals : saveKeySealedWithPcrs .echo 0 .done .done katKey [7] Site.optedIn.closed = (stored,.ok ()) :=
    Prod.ext (funext fun p => by cases p <;> rfl) rfl
  have saves : stateSave .done freshCounter stored = (sealedFiles,.ok ()) :=
    Prod.ext (funext fun p => by cases p <;> rfl) rfl
  have first : storeKey .echo (.smooth katKey allOk) katKey true none (Site.optedIn.nanoPaired katKey) =
      (⟨stored,eeSavePairing Site.optedIn.ee katKey⟩,.ok ()) :=
    (storeKey_sealed _ _ _ none katKey [7] rfl).trans (onFiles_ok seals)
  rw [runPair_sent _ _ _ _ _ _ (keySent_optedIn true),storePairing,bind_eq first]
  exact onFiles_ok saves

theorem pair_sealed_then_wipe : Transition.run (cliStep .echo readBack) Site.optedIn
    [.pair (.smooth katKey allOk) true none,.reflashToWipe] = some Site.wipedBehind := by
  simp only [Transition.run,cliStep,CliOp.run,runPair_optedIn,Option.bind_some]
  rfl

/-- Two runs that end on a stale `key.tpm`: a plain pairing after which the host still loads
the old sealed key, and an unpairing that calls the host cleared with the key still loadable. -/
theorem stale_blob_breaks_agreement :
    (∃ t, runPair .echo (.smooth zeroKey allOk) false none
        ⟨(touchMarker Site.wipedBehind.files).1,Site.wipedBehind.ee⟩ = (t,.ok ()) ∧
      eeLoadKey t.ee = some zeroKey ∧ loadKeyWithSource .echo t.files = .ok (some (katKey,.tpm))) ∧
    (∃ t, runUnpair .echo readBack (.smooth zeroKey allOk) Site.wipedBehind = (t,.ok ()) ∧
      loadKeyWithSource .echo t.files = .ok (some (katKey,.tpm))) ∧
    ¬ Transition.Along (cliStep .echo readBack) (Agrees .echo readBack) Site.optedIn
      [.pair (.smooth katKey allOk) true none,.reflashToWipe,.touchAllowPair,
        .pair (.smooth zeroKey allOk) false none] ∧
    ¬ Transition.Along (cliStep .echo readBack) (Agrees .echo readBack) Site.optedIn
      [.pair (.smooth katKey allOk) true none,.reflashToWipe,.unpair (.smooth zeroKey allOk)] := by
  let reopened : Site := ⟨(touchMarker Site.wipedBehind.files).1,Site.wipedBehind.ee⟩
  have sent : keySent .echo (.smooth zeroKey allOk) reopened false = some zeroKey := by
    refine if_pos ⟨rfl,fun _ => rfl,rfl,?_,rfl,?_⟩
    · decide
    · decide
  let saved : HostFiles := (saveKey .done .done zeroKey reopened.closed).1
  let left : HostFiles := (stateSave .done freshCounter saved).1
  have stored : storeKey .echo (.smooth zeroKey allOk) zeroKey false none (reopened.nanoPaired zeroKey) =
      (⟨saved,eeSavePairing reopened.ee zeroKey⟩,.ok ()) :=
    (storeKey_plain ..).trans (onFiles_ok (Prod.ext rfl rfl))
  have paired : runPair .echo (.smooth zeroKey allOk) false none reopened =
      (⟨left,eeSavePairing reopened.ee zeroKey⟩,.ok ()) := by
    rw [runPair_sent _ _ _ _ _ _ sent,storePairing,bind_eq stored]
    exact onFiles_ok (Prod.ext rfl rfl)
  have stale : loadKeyWithSource .echo left = .ok (some (katKey,.tpm)) := rfl
  have held := eeLoadKey_savePairing reopened.ee zeroKey
  have loaded : loadKeyWithSource .echo Site.wipedBehind.files = .ok (some (katKey,.tpm)) := rfl
  have unpaired := runUnpair_unpaired (.smooth zeroKey allOk) readBack Site.wipedBehind (katKey,.tpm) loaded rfl
    (by decide)
  have deletes : ignoring (deleteKey .done) Site.wipedBehind = (Site.wipedBehind,.ok ()) :=
    onFiles_ok (Prod.ext (funext fun p => by cases p <;> rfl) rfl)
  have unpaired := unpaired.trans deletes
  refine ⟨⟨_,paired,held,stale⟩,⟨_,unpaired,rfl⟩,fun agrees => ?_,fun agrees => ?_⟩
  · have last := Transition.along_drop (Agrees .echo readBack) _ _ [_,_] _ agrees pair_sealed_then_wipe
    obtain ⟨k,same,source,loaded⟩ := ((last _ rfl).2 _ rfl).1 _ paired
    obtain rfl := Option.some.inj (held.symm.trans same)
    have other := (Prod.mk.inj (Option.some.inj (Except.ok.inj (stale.symm.trans loaded)))).1
    exact absurd other (by decide)
  · have last := Transition.along_drop (Agrees .echo readBack) _ _ [_,_] _ agrees pair_sealed_then_wipe
    have none := ((last _ rfl).1 _ unpaired).1
    cases none

end R503.Host
