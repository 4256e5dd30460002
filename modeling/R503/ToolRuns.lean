import R503.PairingFlows

/-! The pairing tools as operations on a site, and what all of them keep if each of their file operations does. -/
namespace R503.Host

open Text Firmware Fallible

inductive CliOp where
  | pair (io : CliIo) (sealTpm : Bool) (sealTpmPcrs : Option Bytes)
  | unpair (io : CliIo)
  | resealTpm (io : CliIo) (sealTpmPcrs : Option Bytes)
  | resealPolicy (io : CliIo) (newPcrs : Option (List UInt8))
  /-- The wipe sketch is flashed, and then the firmware again. -/
  | reflashToWipe
  | touchAllowPair

def touchMarker : FileOp := fun files =>
  (if (files .allowPair).isSome then files else files.place .allowPair ⟨0,0o644,.file (some [])⟩,.ok ())

def CliOp.run (tpm : Tpm) (fromSlice : Bytes → Option UInt64) : CliOp → Flow Unit
  | .pair io sealTpm sealTpmPcrs => runPair tpm io sealTpm sealTpmPcrs
  | .unpair io => runUnpair tpm fromSlice io
  | .resealTpm io sealTpmPcrs => runResealTpm tpm io sealTpmPcrs
  | .resealPolicy io newPcrs => runResealPolicy tpm io newPcrs
  | .reflashToWipe => fun w => ({ w with ee := fun _ => 0xFF },.ok ())
  | .touchAllowPair => ignoring touchMarker

/-! ### What every tool keeps -/

structure ToolsKeep (tpm : Tpm) (I : HostFiles → Prop) : Prop where
  saveKey : ∀ io copy key, Keeps I (saveKey io copy key)
  persist : ∀ io attempt key pcrs blob, tpm.sealKey attempt key pcrs = some blob → Keeps I (persistSealedBlob io blob)
  deleteKey : ∀ io, Keeps I (deleteKey io)
  removeFile : ∀ removed, ∀ p ∈ [Path.keyTpm,.state,.allowPair], Keeps I (removeFile removed p)
  stateSave : ∀ io n, Keeps I (stateSave io n)
  touch : Keeps I touchMarker

section
variable {tpm : Tpm} {I : HostFiles → Prop}

theorem keeps_attempt {x : FileOp} (kept : Keeps I x) : Keeps I (attempt x) := by
  intro files holds
  have after := kept files holds
  unfold attempt
  split
  next ran => rwa [ran] at after
  next ran => rwa [ran] at after

theorem keeps_onFiles {x : FileOp} (kept : Keeps I x) : Keeps (fun w : Site => I w.files) (onFiles x) :=
  fun w holds => kept w.files holds

theorem keeps_ignoring {x : FileOp} (kept : Keeps I x) : Keeps (fun w : Site => I w.files) (ignoring x) :=
  keeps_onFiles (keeps_attempt kept)

theorem keeps_getFiles : Keeps (fun w : Site => I w.files) getFiles := fun _ holds => holds

theorem keeps_cmdLabeled (io : CliIo) (wire label : Bytes) : Keeps (fun w : Site => I w.files) (cmdLabeled io wire label) :=
  fun _ holds => holds

theorem keeps_queryStatus (io : CliIo) : Keeps (fun w : Site => I w.files) (queryStatus io) :=
  keeps_bind (keeps_cmdLabeled io _ _) fun _ => keeps_fromExcept _

theorem keeps_loadForCli : Keeps (fun w : Site => I w.files) (loadForCli tpm) := by
  refine keeps_bind keeps_getFiles fun files => ?_
  split
  · exact fun _ holds => holds
  · exact fun _ holds => holds
  · exact keeps_pure _

variable (keep : ToolsKeep tpm I)
include keep

theorem keeps_deleteAllKeys (delete : DeleteIo) : Keeps I (deleteAllKeys delete) :=
  keeps_bind (keep.deleteKey delete) fun _ => keep.removeFile delete.keyTpm .keyTpm (by decide)

theorem keeps_saveSealed (attempt : Nat) (write : WriteIo) (delete : DeleteIo) (key : Key) (pcrs : List UInt8) :
    Keeps I (saveKeySealedWithPcrs tpm attempt write delete key pcrs) := by
  refine keeps_bind_of (keeps_fromExcept _) fun files left blob _ ran => ?_
  have made : tpm.sealKey attempt key (some pcrs) = some blob := by
    have result := (fromExcept_ok _ _ _ _ ran).1
    split at result
    next b sealed => exact sealed.trans (congrArg some (Except.ok.inj result))
    · cases result
  exact keeps_bind (keep.persist write attempt key _ blob made) fun _ => keeps_attempt (keep.deleteKey delete)

variable (io : CliIo)

theorem keeps_storeKey (key : Key) (sealTpm : Bool) (sealTpmPcrs : Option Bytes) :
    Keeps (fun w : Site => I w.files) (storeKey tpm io key sealTpm sealTpmPcrs) := by
  cases sealTpm with
  | true =>
    exact keeps_bind (keeps_fromExcept _) fun pcrs =>
      keeps_onFiles (keeps_saveSealed keep _ _ _ key pcrs)
  | false => exact keeps_onFiles (keep.saveKey _ _ key)

theorem keeps_runPair (sealTpm : Bool) (sealTpmPcrs : Option Bytes) :
    Keeps (fun w : Site => I w.files) (runPair tpm io sealTpm sealTpmPcrs) := by
  refine keeps_bind keeps_getFiles fun files => ?_
  refine keeps_bind (keeps_require _ _) fun _ => ?_
  refine keeps_bind (keeps_require _ _) fun _ => ?_
  refine keeps_bind (keeps_require _ _) fun _ => ?_
  refine keeps_bind (keeps_queryStatus io) fun pre => ?_
  refine keeps_bind (keeps_require _ _) fun _ => ?_
  refine keeps_bind (keeps_fromExcept _) fun key => ?_
  refine keeps_bind (keeps_onFiles (keep.removeFile _ .allowPair (by decide))) fun _ => ?_
  refine keeps_bind (keeps_cmdLabeled io _ _) fun reply => ?_
  refine keeps_bind (keeps_require _ _) fun _ => ?_
  refine keeps_bind (keeps_queryStatus io) fun post => ?_
  refine keeps_bind (keeps_require _ _) fun _ => ?_
  refine keeps_bind (keeps_storeKey keep io key sealTpm sealTpmPcrs) fun _ => ?_
  exact keeps_onFiles (keep.stateSave _ _)

theorem keeps_runResealTpm (sealTpmPcrs : Option Bytes) :
    Keeps (fun w : Site => I w.files) (runResealTpm tpm io sealTpmPcrs) := by
  refine keeps_bind (keeps_require _ _) fun _ => ?_
  refine keeps_bind keeps_getFiles fun files => ?_
  refine keeps_bind (keeps_require _ _) fun _ => ?_
  refine keeps_bind (keeps_require _ _) fun _ => ?_
  refine keeps_bind (keeps_queryStatus io) fun pre => ?_
  refine keeps_bind (keeps_require _ _) fun _ => ?_
  refine keeps_bind (keeps_ignoring (keeps_deleteAllKeys keep _)) fun _ => ?_
  refine keeps_bind (keeps_ignoring (keep.removeFile _ .state (by decide))) fun _ => ?_
  exact keeps_runPair keep io true sealTpmPcrs

theorem keeps_runResealPolicy (newPcrs : Option (List UInt8)) :
    Keeps (fun w : Site => I w.files) (runResealPolicy tpm io newPcrs) := by
  refine keeps_bind keeps_loadForCli fun ⟨key,source⟩ => ?_
  refine keeps_bind_of (keeps_fromExcept _) fun w v blob _ ran => ?_
  have made : tpm.sealKey io.attempt key newPcrs = some blob := by
    have result := (fromExcept_ok _ _ _ _ ran).1
    split at result
    next b sealed => exact sealed.trans (congrArg some (Except.ok.inj result))
    · cases result
  refine keeps_bind (keeps_fromExcept _) fun reunsealed => ?_
  refine keeps_bind (keeps_require _ _) fun _ => ?_
  refine keeps_bind (keeps_onFiles (keep.persist _ _ _ _ _ made)) fun _ => ?_
  split
  · exact keeps_ignoring (keep.deleteKey _)
  · exact keeps_pure ()

variable (fromSlice : Bytes → Option UInt64)

theorem keeps_unpairFramed (key : Key) : Keeps (fun w : Site => I w.files) (unpairFramed fromSlice io key) := by
  refine keeps_bind keeps_getFiles fun files => ?_
  refine keeps_bind (keeps_fromExcept _) fun st => ?_
  refine keeps_bind (keeps_require _ _) fun _ => ?_
  refine keeps_bind (keeps_onFiles (keep.stateSave _ _)) fun _ => ?_
  refine keeps_bind (keeps_cmdLabeled io _ _) fun reply => ?_
  refine keeps_bind (keeps_require _ _) fun _ => ?_
  refine keeps_bind (keeps_fromExcept _) fun ⟨gotCtr,_,body⟩ => ?_
  refine keeps_bind (keeps_require _ _) fun _ => ?_
  refine keeps_bind (keeps_require _ _) fun _ => ?_
  refine keeps_bind (keeps_queryStatus io) fun post => ?_
  refine keeps_bind (keeps_require _ _) fun _ => ?_
  refine keeps_bind (keeps_onFiles (keeps_deleteAllKeys keep _)) fun _ => ?_
  exact keeps_onFiles (keep.removeFile _ .state (by decide))

theorem keeps_runUnpair : Keeps (fun w : Site => I w.files) (runUnpair tpm fromSlice io) := by
  refine keeps_bind keeps_loadForCli fun ⟨key,_⟩ => ?_
  refine keeps_bind (keeps_require _ _) fun _ => ?_
  refine keeps_bind (keeps_queryStatus io) fun pre => ?_
  split
  · exact keeps_ignoring (keep.deleteKey _)
  · exact keeps_unpairFramed keep io fromSlice key

omit io

/-- An operation keeps what its file operations keep, whatever comes of it. -/
theorem keeps_run (op : CliOp) : Keeps (fun w : Site => I w.files) (op.run tpm fromSlice) := by
  cases op with
  | pair io sealTpm sealTpmPcrs => exact keeps_runPair keep io sealTpm sealTpmPcrs
  | unpair io => exact keeps_runUnpair keep io fromSlice
  | resealTpm io sealTpmPcrs => exact keeps_runResealTpm keep io sealTpmPcrs
  | resealPolicy io newPcrs => exact keeps_runResealPolicy keep io newPcrs
  | reflashToWipe => exact fun _ holds => holds
  | touchAllowPair => exact keeps_ignoring keep.touch

end

/-! ### Regular files -/

section
variable {p : Path}

theorem spares_saveKey (write : WriteIo) (copy : CopyIo) (key : Key) (own : p ∈ ownPaths)
    (other : p ∉ [Path.keyTmp,.key,.keyBak]) : Spares p (saveKey write copy key) := by
  simp only [List.mem_cons,List.not_mem_nil,or_false,not_or] at other
  exact spares_bind (spares_replaceFile write _ own (by decide) (by decide) (by decide) (fun _ apart => apart.keyTmp)
    other.1 other.2.1) fun _ => spares_copyBackup copy own other.2.2

theorem spares_persist (write : WriteIo) (blob : Bytes) (own : p ∈ ownPaths) (notTmp : p ≠ .keyTpmTmp)
    (notKeyTpm : p ≠ .keyTpm) : Spares p (persistSealedBlob write blob) :=
  spares_replaceFile write _ own (by decide) (by decide) (by decide) (fun _ apart => apart.keyTpmTmp) notTmp notKeyTpm

theorem spares_touchMarker (own : p ∈ ownPaths) (other : p ≠ .allowPair) : Spares p touchMarker := by
  intro files apart
  unfold touchMarker
  dsimp only
  split
  · exact ⟨apart,.refl files _⟩
  next missing =>
    have none : files .allowPair = none := by simpa using missing
    exact ⟨apart.place _ (Disk.target_missing none),
      apart.same_place _ own (by decide) other (Disk.mem_chain files .allowPair)⟩

theorem toolsKeep_tidy (tpm : Tpm) : ToolsKeep tpm Tidy where
  saveKey := keeps_tidy_saveKey
  persist io _ _ _ blob _ := keeps_tidy_replaceFile io blob (by decide) (by decide) (by decide)
  deleteKey := keeps_tidy_deleteKey
  removeFile removed p _ := keeps_tidy_removeFile removed p
  stateSave := keeps_tidy_stateSave
  touch := by
    intro files tidy
    unfold touchMarker
    dsimp only
    split
    · exact tidy
    · exact tidy.place _ rfl fun never => by cases never

def TidyWith (Q : HostFiles → Prop) (files : HostFiles) : Prop := Tidy files ∧ Q files

theorem keeps_spared {Q : HostFiles → Prop} (only : ∀ a b : HostFiles, a.Same b p → Q a → Q b) {x : FileOp}
    (tidy : Keeps Tidy x) (spares : Spares p x) : Keeps (TidyWith Q) x := fun files holds =>
  ⟨tidy files holds.1,only _ _ (spares files holds.1.apart).2 holds.2⟩

end

end R503.Host
