import R503.KeystoreWrites

/-! Where there are only regular files, as the tools themselves leave them: every operation keeps it so, and succeeds
if the system does not fail it. -/
namespace R503.Host

open Text Fallible

/-- Regular files only, and a `key.tmp` that nobody but root can open. -/
structure Tidy (files : HostFiles) : Prop where
  regular : ∀ p ∈ ownPaths, ∀ entry, files p = some entry → ∃ n, entry = .node n ∧ n.body.isFile = true
  keyTmp : ∀ n, files .keyTmp = some (.node n) → Guarded 0o077 n

section
variable {files : HostFiles} {p : Path}

theorem Tidy.target (tidy : Tidy files) (own : p ∈ ownPaths) : files.target p = none := by
  cases here : files p with
  | none => exact Disk.target_missing here
  | some entry =>
    obtain ⟨n,rfl,_⟩ := tidy.regular p own entry here
    exact Disk.target_node here

theorem Tidy.file (tidy : Tidy files) (own : p ∈ ownPaths) (n : Disk.Inode) (here : files.nodeAt p = some n) :
    n.body.isFile = true := by
  obtain ⟨m,same,file⟩ := tidy.regular p own _ (Disk.nodeAt_entry here)
  cases same
  exact file

theorem Tidy.apart (tidy : Tidy files) : Apart files where
  keyTmp := tidy.target (by decide)
  keyTpmTmp := tidy.target (by decide)
  stateTmp := tidy.target (by decide)
  disjoint p own q own' other r here there := by
    rw [Disk.chain_self (tidy.target own),List.mem_singleton] at here
    rw [Disk.chain_self (tidy.target own'),List.mem_singleton] at there
    exact other (here.symm.trans there)

theorem Tidy.opening (tidy : Tidy files) (own : p ∈ ownPaths) : files.opening p = .done p := by
  rw [Disk.opening_plain (tidy.target own)]
  cases here : files.nodeAt p with
  | none => rfl
  | some n =>
    have file := tidy.file own n here
    obtain ⟨uid,mode,body⟩ := n
    cases body with
    | file => rfl
    | directory | socket | fifo | device => cases file

theorem Tidy.notDirectory (tidy : Tidy files) (own : p ∈ ownPaths) : files.isDirectory p = false := by
  rw [Disk.isDirectory]
  cases here : files.nodeAt p with
  | none => rfl
  | some n =>
    have file := tidy.file own n here
    obtain ⟨uid,mode,body⟩ := n
    cases body with
    | file | socket | fifo | device => rfl
    | directory => cases file

theorem Tidy.remove (tidy : Tidy files) (p : Path) : Tidy (files.remove p) where
  regular q own entry here := by
    by_cases same : q = p
    · rw [same,Disk.remove_self] at here
      cases here
    · rw [Disk.remove_other files same] at here
      exact tidy.regular q own entry here
  keyTmp n here := by
    by_cases same : Path.keyTmp = p
    · rw [same,Disk.remove_self] at here
      cases here
    · rw [Disk.remove_other files same] at here
      exact tidy.keyTmp n here

theorem Tidy.place (tidy : Tidy files) (n : Disk.Inode) (file : n.body.isFile = true)
    (guarded : p = .keyTmp → Guarded 0o077 n) : Tidy (files.place p n) where
  regular q own entry here := by
    by_cases same : q = p
    · rw [same,Disk.place_self] at here
      obtain rfl := Option.some.inj here
      exact ⟨n,rfl,file⟩
    · rw [Disk.place_other n same] at here
      exact tidy.regular q own entry here
  keyTmp m here := by
    by_cases same : Path.keyTmp = p
    · rw [same,Disk.place_self] at here
      cases here
      exact guarded same.symm
    · rw [Disk.place_other n same] at here
      exact tidy.keyTmp m here

theorem Tidy.edit (tidy : Tidy files) (change : Disk.Inode → Disk.Inode) (own : p ∈ ownPaths) (other : p ≠ .keyTmp)
    (keeps : ∀ n, (change n).body.isFile = n.body.isFile) : Tidy (files.edit p change) := by
  cases here : files.nodeAt p with
  | none => rwa [Disk.edit_missing change here]
  | some n =>
    rw [Disk.edit_eq change here]
    exact tidy.place _ ((keeps n).trans (tidy.file own n here)) fun same => absurd same other

theorem Tidy.rename {old new : Path} (tidy : Tidy files) (own : old ∈ ownPaths) (other : new ≠ .keyTmp)
    (different : new ≠ old) : Tidy (files.rename old new) where
  regular q own' entry here := by
    by_cases gone : q = old
    · rw [gone,Disk.rename_old] at here
      cases here
    by_cases taken : q = new
    · rw [taken,Disk.rename_new files different] at here
      exact tidy.regular old own entry here
    · rw [Disk.rename_other files gone taken] at here
      exact tidy.regular q own' entry here
  keyTmp n here := by
    by_cases gone : Path.keyTmp = old
    · rw [gone,Disk.rename_old] at here
      cases here
    · rw [Disk.rename_other files gone other.symm] at here
      exact tidy.keyTmp n here

/-- What a write leaves as its temporary file is as tidy as what was there. -/
theorem Tidy.written (tidy : Tidy files) (own : p ∈ ownPaths) (content : Bytes) :
    Tidy (files.place p (files.written p 0o600 content)) := by
  refine tidy.place _ ((isFile_written p 0o600 content).mpr (tidy.file own)) fun same => ?_
  subst p
  unfold Disk.written
  cases here : files.nodeAt .keyTmp with
  | none => exact ⟨rfl,(by decide : 0o600 &&& 0o777 &&& 0o077 = 0)⟩
  | some n => exact tidy.keyTmp n (Disk.nodeAt_entry here)

/-! ### Operations keep it -/

theorem keeps_tidy_attempt {x : FileOp} (keeps : Keeps Tidy x) : Keeps Tidy (attempt x) := by
  intro files tidy
  have after := keeps files tidy
  unfold attempt
  split
  next ran => rwa [ran] at after
  next ran => rwa [ran] at after

theorem keeps_tidy_setPermissions (ok : Bool) (mode : Nat) (own : p ∈ ownPaths) (other : p ≠ .keyTmp) :
    Keeps Tidy (setPermissions ok p mode) := by
  intro files tidy
  cases ok with
  | false => exact tidy
  | true =>
    rw [setPermissions,if_pos rfl,Disk.chmod,Disk.lead_self (tidy.target own)]
    exact tidy.edit _ own other fun _ => rfl

/-- A regular file is overwritten at most, and that never fails. -/
theorem shredFile_tidy (shred : Option Nat) (tidy : Tidy files) (own : p ∈ ownPaths) :
    ∃ count, shredFile shred p files = (files,.ok ()) ∨
      shredFile shred p files = (files.edit p fun n => { n with body := n.body.overlay (zap.take count) },.ok ()) := by
  unfold shredFile
  rw [Disk.lead_self (tidy.target own),Option.bind_some]
  split
  next count f n reached =>
    obtain ⟨m,here,pair⟩ := Option.map_eq_some_iff.mp reached
    obtain ⟨rfl,rfl⟩ := Prod.mk.inj pair
    have file := tidy.file own m here
    obtain ⟨uid,mode,body⟩ := m
    cases body with
    | file => exact ⟨count,.inr rfl⟩
    | directory | socket | fifo | device => cases file
  · exact ⟨0,.inl rfl⟩

theorem keeps_tidy_shredFile (shred : Option Nat) (own : p ∈ ownPaths) (other : p ≠ .keyTmp) :
    Keeps Tidy (shredFile shred p) := by
  intro files tidy
  obtain ⟨count,same | ran⟩ := shredFile_tidy shred tidy own
  · rwa [same]
  · rw [ran]
    refine tidy.edit _ own other fun n => ?_
    cases n.body <;> rfl

theorem keeps_tidy_removeFile (ok : Bool) (p : Path) : Keeps Tidy (removeFile ok p) := by
  intro files tidy
  unfold removeFile
  split
  · exact tidy
  split
  · exact tidy.remove p
  · exact tidy

theorem keeps_tidy_removeKeyFile (io : RemoveIo) (own : p ∈ ownPaths) (other : p ≠ .keyTmp) :
    Keeps Tidy (removeKeyFile io p) :=
  keeps_bind (keeps_tidy_setPermissions _ _ own other) fun _ =>
    keeps_bind (keeps_tidy_shredFile _ own other) fun _ => keeps_tidy_removeFile _ p

theorem keeps_tidy_deleteKey (io : DeleteIo) : Keeps Tidy (deleteKey io) :=
  keeps_bind (keeps_tidy_removeKeyFile _ (by decide) (by decide)) fun _ =>
    keeps_tidy_removeKeyFile _ (by decide) (by decide)

theorem keeps_tidy_deleteAllKeys (io : DeleteIo) : Keeps Tidy (deleteAllKeys io) :=
  keeps_bind (keeps_tidy_deleteKey io) fun _ => keeps_tidy_removeFile io.keyTpm .keyTpm

theorem keeps_tidy_replaceFile {tmp target : Path} (io : WriteIo) (content : Bytes) (own : tmp ∈ ownPaths)
    (other : target ≠ .keyTmp) (different : target ≠ tmp) : Keeps Tidy (replaceFile io tmp target content) := by
  intro files tidy
  have plain := tidy.target own
  by_cases replaces : Replaces io files tmp target
  · rw [replaceFile_done plain replaces]
    exact (tidy.written own content).rename own other different
  · by_cases waits : Hangs io files tmp
    · rw [replaceFile_hangs waits]
      exact tidy
    · obtain ⟨left,e,failed,unreplaced⟩ := replaceFile_fails content plain replaces waits
      rw [failed]
      rcases unreplaced with rfl | ⟨_,text,rfl⟩
      · exact tidy
      · exact tidy.written own text

theorem keeps_tidy_copyFile {copy : Path} (io : CopyIo) (original : Path) (own : copy ∈ ownPaths)
    (other : copy ≠ .keyTmp) : Keeps Tidy (copyFile io original copy) := by
  intro files tidy
  rcases copyFile_left io original copy files with same | ⟨f,m,opened,same,file⟩
  · rwa [same]
  · rw [same]
    obtain rfl : f = copy := SysCall.done.inj (opened.symm.trans (tidy.opening own))
    exact tidy.place m (file (tidy.file own)) fun same => absurd same other

theorem keeps_tidy_saveKey (io : WriteIo) (copy : CopyIo) (key : Key) : Keeps Tidy (saveKey io copy key) :=
  keeps_bind (keeps_tidy_replaceFile io _ (by decide) (by decide) (by decide)) fun _ =>
    keeps_bind (keeps_tidy_copyFile copy _ (by decide) (by decide)) fun _ =>
      keeps_tidy_setPermissions _ _ (by decide) (by decide)

theorem keeps_tidy_stateSave (io : WriteIo) (n : UInt64) : Keeps Tidy (stateSave io n) :=
  keeps_tidy_replaceFile io _ (by decide) (by decide) (by decide)

/-! ### Operations succeed -/

theorem Tidy.replaces {io : WriteIo} {tmp target : Path} (tidy : Tidy files) (fine : io.Fine) (own : tmp ∈ ownPaths)
    (own' : target ∈ ownPaths) : Replaces io files tmp target :=
  ⟨fine,tidy.notDirectory own',tmp,tidy.opening own,tidy.file own⟩

def CopyIo.Fine (io : CopyIo) : Prop := io.create ∧ io.setMode ∧ io.cut = none

instance (io : CopyIo) : Decidable io.Fine := inferInstanceAs (Decidable (_ ∧ _))

theorem saveKey_fine {io : WriteIo} {copy : CopyIo} (key : Key) (tidy : Tidy files) (fine : io.Fine)
    (copyFine : copy.Fine) : ∃ left, saveKey io copy key files = (left,.ok ()) := by
  let between := replaced files .keyTmp .key (keyFileText key)
  have moved : replaceFile io .keyTmp .key (keyFileText key) files = (between,.ok ()) :=
    replaceFile_done (tidy.target (by decide)) (tidy.replaces fine (by decide) (by decide))
  have tidyBetween : Tidy between :=
    (tidy.written (by decide) (keyFileText key)).rename (by decide) (by decide) (by decide)
  have here : between .key = some (.node (files.written .keyTmp 0o600 (keyFileText key))) :=
    replaced_target (by decide)
  have text := written_body 0o600 (keyFileText key) (tidy.file (p := .keyTmp) (by decide))
  have copies : Copies copy between :=
    ⟨copyFine.1,copyFine.2.2,.keyBak,tidyBetween.opening (by decide),fun _ => copyFine.2.1⟩
  have done := copyBackup_done tidyBetween.apart here text copies
  exact ⟨_,(bind_eq moved _).trans (Prod.ext rfl done)⟩

/-- A `save_key` that succeeds leaves its key file, and `key.tpm` as it was. -/
theorem saveKey_ok {io : WriteIo} {copy : CopyIo} {key : Key} {left : HostFiles} (tidy : Tidy files)
    (ran : saveKey io copy key files = (left,.ok ())) : ∃ n, left .key = some (.node n) ∧ Guarded 0o077 n ∧
      n.body = .file (some (keyFileText key)) ∧ files.Same left .keyTpm := by
  obtain ⟨between,_,moved,copied⟩ := bind_ok ran
  obtain ⟨replaces,rfl⟩ := replaceFile_ok (tidy.target (by decide)) moved
  have written := tidy.written (p := .keyTmp) (by decide) (keyFileText key)
  have apart : Apart (replaced files .keyTmp .key (keyFileText key)) :=
    (written.rename (by decide) (by decide) (by decide)).apart
  have sparesKey := spares_copyBackup (p := .key) copy (by decide) (by decide) _ apart
  have sparesTpm := spares_copyBackup (p := .keyTpm) copy (by decide) (by decide) _ apart
  have first : files.Same (replaced files .keyTmp .key (keyFileText key)) .keyTpm :=
    same_replaced tidy.apart (by decide) (by decide) (by decide) (by decide) (by decide)
  have here : replaced files .keyTmp .key (keyFileText key) .key =
      some (.node (files.written .keyTmp 0o600 (keyFileText key))) := replaced_target (by decide)
  rw [copied] at sparesKey sparesTpm
  exact ⟨_,sparesKey.2.entry.trans here,written.keyTmp _ (Disk.place_self ..),
    written_body 0o600 (keyFileText key) (tidy.file (by decide)),first.trans sparesTpm.2⟩

theorem stateSave_fine {io : WriteIo} (n : UInt64) (tidy : Tidy files) (fine : io.Fine) :
    stateSave io n files = (replaced files .stateTmp .state (stateText n),.ok ()) :=
  replaceFile_done (tidy.target (by decide)) (tidy.replaces fine (by decide) (by decide))

theorem removeFile_ok {ok : Bool} {left : HostFiles} (ran : removeFile ok p files = (left,.ok ())) : left p = none := by
  unfold removeFile at ran
  split at ran
  next missing =>
    rw [← (Prod.mk.inj ran).1]
    exact missing
  split at ran
  · rw [← (Prod.mk.inj ran).1]
    exact Disk.remove_self files p
  · cases (Prod.mk.inj ran).2

theorem removeFile_fine (tidy : Tidy files) (own : p ∈ ownPaths) : (removeFile true p files).2 = .ok () := by
  unfold removeFile
  split
  · rfl
  · rw [if_pos ⟨rfl,by rw [tidy.notDirectory own]; decide⟩]

theorem shredFile_fine (shred : Option Nat) (tidy : Tidy files) (own : p ∈ ownPaths) :
    (shredFile shred p files).2 = .ok () := by
  obtain ⟨_,same | ran⟩ := shredFile_tidy shred tidy own
  · rw [same]
  · rw [ran]

theorem removeKeyFile_fine {io : RemoveIo} (tidy : Tidy files) (fine : io.remove = true) (own : p ∈ ownPaths)
    (other : p ≠ .keyTmp) : ∃ left, removeKeyFile io p files = (left,.ok ()) ∧ left p = none ∧ Tidy left := by
  have first := keeps_tidy_setPermissions io.chmod 0o600 own other files tidy
  have second := keeps_tidy_shredFile io.shred own other _ first
  have shredded := shredFile_fine io.shred first own
  have removed := removeFile_fine second own
  have ran : removeKeyFile io p files = removeFile true p (shredFile io.shred p (setPermissions io.chmod p 0o600 files).1).1 := by
    rw [removeKeyFile,bind_done rfl,bind_done shredded,fine]
  refine ⟨_,ran.trans (Prod.ext rfl removed),removeFile_ok (Prod.ext rfl removed),?_⟩
  exact keeps_tidy_removeFile true p _ second

def DeleteIo.Fine (io : DeleteIo) : Prop := io.key.remove ∧ io.keyBak.remove ∧ io.keyTpm

instance (io : DeleteIo) : Decidable io.Fine := inferInstanceAs (Decidable (_ ∧ _))

/-- The plaintext files are gone, and `key.tpm` is as it was. -/
theorem deleteKey_fine {io : DeleteIo} (tidy : Tidy files) (fine : io.Fine) :
    ∃ left, deleteKey io files = (left,.ok ()) ∧ left .key = none ∧ left .keyBak = none ∧ files.Same left .keyTpm := by
  obtain ⟨between,first,noKey,tidyBetween⟩ :=
    removeKeyFile_fine (p := .key) tidy fine.1 (by decide) (by decide)
  obtain ⟨left,second,noBak,_⟩ :=
    removeKeyFile_fine (p := .keyBak) tidyBetween fine.2.1 (by decide) (by decide)
  have ran : deleteKey io files = (left,.ok ()) := by rw [deleteKey,bind_eq first,second]
  have kept := (spares_deleteKey io (p := .keyTpm) (by decide) (by decide) (by decide) files tidy.apart).2
  have gone := (spares_removeKeyFile io.keyBak (p := .key) (q := .keyBak) (by decide) (by decide) (by decide)
    between tidyBetween.apart).2.entry
  rw [ran] at kept
  rw [second,noKey] at gone
  exact ⟨left,ran,gone,noBak,kept⟩

end

/-- A removal of all keys that succeeds leaves none. -/
theorem deleteAllKeys_ok {files left : HostFiles} {io : DeleteIo} (apart : Apart files)
    (ran : deleteAllKeys io files = (left,.ok ())) : left .key = none ∧ left .keyBak = none ∧ left .keyTpm = none := by
  obtain ⟨between,_,plain,blob⟩ := bind_ok ran
  obtain ⟨first,_,removedKey,removedBak⟩ := bind_ok plain
  have removes {io : RemoveIo} {p : Path} {a b : HostFiles} (ran : removeKeyFile io p a = (b,.ok ())) : b p = none := by
    obtain ⟨_,_,_,ran⟩ := bind_ok ran
    obtain ⟨_,_,_,ran⟩ := bind_ok ran
    exact removeFile_ok ran
  have spared {x : FileOp} {p : Path} {a b : HostFiles} (spares : Spares p x) (before : Apart a)
      (ran : x a = (b,.ok ())) : Apart b ∧ b p = a p := by
    have after := spares a before
    rw [ran] at after
    exact ⟨after.1,after.2.entry⟩
  have apartFirst := (spared (spares_removeKeyFile io.key (p := .keyBak) (by decide) (by decide) (by decide))
    apart removedKey).1
  obtain ⟨apartBetween,keepsKey⟩ := spared (spares_removeKeyFile io.keyBak (p := .key) (by decide) (by decide) (by decide))
    apartFirst removedBak
  have keyStays := (spared (spares_removeFile io.keyTpm (p := .key) (q := .keyTpm) (by decide) (by decide) (by decide))
    apartBetween blob).2
  have bakStays := (spared (spares_removeFile io.keyTpm (p := .keyBak) (q := .keyTpm) (by decide) (by decide) (by decide))
    apartBetween blob).2
  exact ⟨keyStays.trans (keepsKey.trans (removes removedKey)),bakStays.trans (removes removedBak),removeFile_ok blob⟩

end R503.Host
