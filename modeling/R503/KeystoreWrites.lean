import R503.Keystore

/-! What the operations of the keystore write, and what they leave alone while no two of the tools' paths lead to
one place. -/
namespace R503.Host

open Text Fallible

def ownPaths : List Path := [.key,.keyBak,.keyTpm,.keyTmp,.keyTpmTmp,.state,.stateTmp,.allowPair]

/-- No temporary file is a symbolic link, and the links of two paths have no path in common. -/
structure Apart (files : HostFiles) : Prop where
  keyTmp : files.target .keyTmp = none
  keyTpmTmp : files.target .keyTpmTmp = none
  stateTmp : files.target .stateTmp = none
  disjoint : ∀ p ∈ ownPaths, ∀ q ∈ ownPaths, p ≠ q → ∀ r ∈ files.chain p, r ∉ files.chain q

section
variable {files : HostFiles} {p q f : Path} {n : Disk.Inode}

theorem Apart.shrink {left : HostFiles} (apart : Apart files)
    (tmp : ∀ p, files.target p = none → left.target p = none ∨ p ∉ [Path.keyTmp,.keyTpmTmp,.stateTmp])
    (shrinks : ∀ p ∈ ownPaths, ∀ r ∈ left.chain p, r ∈ files.chain p) : Apart left where
  keyTmp := (tmp _ apart.keyTmp).resolve_right (by decide)
  keyTpmTmp := (tmp _ apart.keyTpmTmp).resolve_right (by decide)
  stateTmp := (tmp _ apart.stateTmp).resolve_right (by decide)
  disjoint p own q own' other r here there :=
    apart.disjoint p own q own' other r (shrinks p own r here) (shrinks q own' r there)

theorem Apart.of_target {left : HostFiles} (apart : Apart files) (same : left.target = files.target) : Apart left := by
  refine apart.shrink (fun p plain => .inl (same ▸ plain)) fun p _ r member => ?_
  rwa [Disk.chain,same] at member

theorem Apart.place (apart : Apart files) (n : Disk.Inode) (free : files.target f = none) :
    Apart (files.place f n) := apart.of_target (Disk.target_place n free)

/-- The path of one tool is not on the way from another. -/
theorem Apart.off (apart : Apart files) (own : p ∈ ownPaths) (own' : q ∈ ownPaths) (other : p ≠ q) :
    q ∉ files.chain p := fun member => apart.disjoint p own q own' other q member (Disk.mem_chain files q)

theorem Apart.same_place (apart : Apart files) (n : Disk.Inode) (own : p ∈ ownPaths) (own' : q ∈ ownPaths)
    (other : p ≠ q) (reached : f ∈ files.chain q) : files.Same (files.place f n) p := fun r member =>
  Disk.place_other n fun same => apart.disjoint p own q own' other r member (same ▸ reached)

/-- An entry that is no link takes the place of another, or of none. -/
theorem Apart.same_entry (apart : Apart files) {left : HostFiles} (changed : ∀ r, r ≠ q → left r = files r)
    (own : p ∈ ownPaths) (own' : q ∈ ownPaths) (other : p ≠ q) : files.Same left p := fun r member =>
  changed r fun same => apart.off own own' other (same ▸ member)

theorem Apart.remove (apart : Apart files) (own : q ∈ ownPaths) : Apart (files.remove q) := by
  have plain : (files.remove q).target q = none := Disk.target_missing (Disk.remove_self files q)
  refine apart.shrink (fun p free => .inl ?_) fun p own' r member => ?_
  · by_cases here : p = q
    · rwa [here]
    · rwa [Disk.target,Disk.remove_other files here,← Disk.target]
  · by_cases here : p = q
    · subst p
      rw [Disk.chain_self plain,List.mem_singleton] at member
      exact member ▸ Disk.mem_chain files q
    · rwa [(apart.same_entry (fun r other => Disk.remove_other files other) own' own here).chain.1] at member

theorem Apart.rename {old new : Path} (apart : Apart files) (own : old ∈ ownPaths) (own' : new ∈ ownPaths)
    (different : new ≠ old) (plain : files.target old = none) : Apart (files.rename old new) := by
  have gone : (files.rename old new).target old = none := Disk.target_missing (Disk.rename_old files old new)
  have taken : (files.rename old new).target new = none := by
    rw [Disk.target,Disk.rename_new files different,← Disk.target,plain]
  refine apart.shrink (fun p free => .inl ?_) fun p ownP r member => ?_
  · by_cases first : p = old
    · rwa [first]
    · by_cases second : p = new
      · rwa [second]
      · rwa [Disk.target,Disk.rename_other files first second,← Disk.target]
  · by_cases first : p = old
    · subst p
      rw [Disk.chain_self gone,List.mem_singleton] at member
      exact member ▸ Disk.mem_chain files old
    · by_cases second : p = new
      · subst p
        rw [Disk.chain_self taken,List.mem_singleton] at member
        exact member ▸ Disk.mem_chain files new
      · have same : files.Same (files.rename old new) p := fun s on =>
          Disk.rename_other files (fun same => apart.off ownP own first (same ▸ on))
            fun same => apart.off ownP own' second (same ▸ on)
        rwa [same.chain.1] at member

end

/-! ### What an operation leaves alone -/

/-- What `p` leads to stays as it is, and no two paths come to lead to one place. -/
def Spares (p : Path) {α : Type} (x : Fallible HostFiles (Halt FileError) α) : Prop :=
  ∀ files, Apart files → Apart (x files).1 ∧ files.Same (x files).1 p

section
variable {p : Path} {α β : Type}

theorem spares_bind {x : Fallible HostFiles (Halt FileError) α} {f : α → Fallible HostFiles (Halt FileError) β}
    (first : Spares p x) (rest : ∀ a, Spares p (f a)) : Spares p (x >>= f) := by
  intro files apart
  have between := first files apart
  cases ran : x files with
  | mk left result =>
    rw [ran] at between
    cases result with
    | ok a =>
      rw [bind_eq ran]
      have after := rest a left between.1
      exact ⟨after.1,between.2.trans after.2⟩
    | error e =>
      rw [bind_error ran]
      exact between

theorem spares_attempt {x : FileOp} (spares : Spares p x) : Spares p (attempt x) := by
  intro files apart
  have after := spares files apart
  unfold attempt
  split
  next ran => rwa [ran] at after
  next ran => rwa [ran] at after

end

section
variable {p q tmp target : Path}

theorem spares_setPermissions (ok : Bool) (mode : Nat) (own : p ∈ ownPaths) (own' : q ∈ ownPaths) (other : p ≠ q) :
    Spares p (setPermissions ok q mode) := by
  intro files apart
  cases ok with
  | false => exact ⟨apart,.refl files p⟩
  | true =>
    refine ⟨apart.of_target (Disk.target_chmod files q mode),fun r member => ?_⟩
    exact Disk.chmod_other mode fun reached => apart.disjoint p own q own' other r member reached

theorem spares_shredFile (shred : Option Nat) (own : p ∈ ownPaths) (own' : q ∈ ownPaths) (other : p ≠ q) :
    Spares p (shredFile shred q) := by
  intro files apart
  unfold shredFile
  split
  next count f n reached =>
    split
    · obtain ⟨g,leads,there⟩ := Option.bind_eq_some_iff.mp reached
      obtain ⟨m,_,pair⟩ := Option.map_eq_some_iff.mp there
      obtain ⟨rfl,_⟩ := Prod.mk.inj pair
      refine ⟨apart.of_target (Disk.target_edit ..),fun r member => Disk.edit_other _ fun same => ?_⟩
      exact apart.disjoint p own q own' other r member (same ▸ Disk.lead_mem_chain leads)
    · exact ⟨apart,.refl files p⟩
    · exact ⟨apart,.refl files p⟩
  · exact ⟨apart,.refl files p⟩

theorem spares_removeFile (ok : Bool) (own : p ∈ ownPaths) (own' : q ∈ ownPaths) (other : p ≠ q) :
    Spares p (removeFile ok q) := by
  intro files apart
  unfold removeFile
  split
  · exact ⟨apart,.refl files p⟩
  split
  · exact ⟨apart.remove own',apart.same_entry (fun r there => Disk.remove_other files there) own own' other⟩
  · exact ⟨apart,.refl files p⟩

theorem spares_removeKeyFile (io : RemoveIo) (own : p ∈ ownPaths) (own' : q ∈ ownPaths) (other : p ≠ q) :
    Spares p (removeKeyFile io q) :=
  spares_bind (spares_setPermissions _ _ own own' other) fun _ =>
    spares_bind (spares_shredFile _ own own' other) fun _ => spares_removeFile _ own own' other

theorem spares_deleteKey (io : DeleteIo) (own : p ∈ ownPaths) (notKey : p ≠ .key) (notKeyBak : p ≠ .keyBak) :
    Spares p (deleteKey io) :=
  spares_bind (spares_removeKeyFile _ own (by decide) notKey) fun _ =>
    spares_removeKeyFile _ own (by decide) notKeyBak

end

/-! ### The tmp-file, fsync and rename write -/

section
variable (io : WriteIo) (files : HostFiles) (tmp target : Path) (content : Bytes)

/-- The write gets through to its rename: the temporary file is a regular one or none, and its new name is no
directory's. -/
def Replaces : Prop :=
  io.Fine ∧ files.isDirectory target = false ∧
    ∃ f, files.opening tmp = .done f ∧ ∀ n, files.nodeAt f = some n → n.body.isFile = true

/-- The temporary file leads to a FIFO that nobody reads. -/
def Hangs : Prop := io.createDir ∧ io.create ∧ files.opening tmp = .never

def replaced : HostFiles := (files.place tmp (files.written tmp 0o600 content)).rename tmp target

variable {io files tmp target content}

theorem Replaces.returns (replaces : Replaces io files tmp target) : ¬ Hangs io files tmp := by
  rintro ⟨_,_,never⟩
  obtain ⟨_,_,f,opened,_⟩ := replaces
  rw [never] at opened
  cases opened

theorem replaceFile_hangs (waits : Hangs io files tmp) :
    replaceFile io tmp target content files = (files,.error .never) := by
  obtain ⟨dir,create,never⟩ := waits
  simp [replaceFile,dir,create,never]

/-- A regular file, or a new one, has the content when it has been written. -/
theorem written_body {files : HostFiles} {f : Path} (mode : Nat) (content : Bytes)
    (file : ∀ n, files.nodeAt f = some n → n.body.isFile = true) :
    (files.written f mode content).body = .file (some content) := by
  unfold Disk.written
  cases here : files.nodeAt f with
  | none => rfl
  | some n =>
    obtain ⟨uid,mode,body⟩ := n
    cases body with
    | file => rfl
    | directory | socket | fifo | device => cases file _ here

theorem isFile_written (f : Path) (mode : Nat) (content : Bytes) :
    (files.written f mode content).body.isFile = true ↔ ∀ n, files.nodeAt f = some n → n.body.isFile = true := by
  unfold Disk.written
  cases here : files.nodeAt f with
  | none => simp [Disk.Body.isFile]
  | some n =>
    obtain ⟨uid,mode,body⟩ := n
    cases body <;> simp [Disk.Inode.fill,Disk.Body.fill,Disk.Body.isFile]

/-- A file that could be opened for writing was no directory and is none. -/
theorem isDirectory_place {f : Path} (opened : files.opening f = .done f) (mode : Nat) (content : Bytes) (p : Path) :
    (files.place f (files.written f mode content)).isDirectory p = files.isDirectory p := by
  by_cases same : p = f
  · subst p
    rw [Disk.opening_plain (Disk.free_of_opening opened)] at opened
    rw [Disk.isDirectory,Disk.isDirectory,Disk.nodeAt_place,Disk.written]
    cases here : files.nodeAt f with
    | none => rfl
    | some n =>
      obtain ⟨uid,mode,body⟩ := n
      rw [here] at opened
      cases body with
      | directory => cases opened
      | file | socket | fifo | device => rfl
  · rw [Disk.isDirectory,Disk.nodeAt_place_other _ same,← Disk.isDirectory]

/-- The result of a write whose temporary file can be opened. -/
theorem replaceFile_opened (dir : io.createDir = true) (create : io.create = true)
    (opened : files.opening tmp = .done tmp) : replaceFile io tmp target content files =
      if ¬ io.write then (files.place tmp (files.written tmp 0o600 (content.take io.upTo)),.error (.fails .writing))
      else if ¬ io.sync ∨ ¬ (files.written tmp 0o600 content).body.isFile then
        (files.place tmp (files.written tmp 0o600 content),.error (.fails .syncing))
      else if ¬ io.rename ∨ files.isDirectory target then
        (files.place tmp (files.written tmp 0o600 content),.error (.fails .renaming))
      else (replaced files tmp target content,.ok ()) := by
  simp only [replaceFile,dir,create,opened,Disk.truncate_fill,not_true_eq_false,if_false,Disk.isFile_place,
    isDirectory_place opened]
  rfl

theorem opening_tmp {f : Path} (plain : files.target tmp = none) (opened : files.opening tmp = .done f) : f = tmp :=
  Option.some.inj ((Disk.lead_of_opening opened).symm.trans (Disk.lead_self plain))

theorem replaceFile_done (plain : files.target tmp = none) (replaces : Replaces io files tmp target) :
    replaceFile io tmp target content files = (replaced files tmp target content,.ok ()) := by
  obtain ⟨⟨dir,create,write,sync,rename⟩,noDirectory,f,opened,file⟩ := replaces
  obtain rfl := opening_tmp plain opened
  have regular := (isFile_written f 0o600 content).mpr file
  rw [replaceFile_opened dir create opened]
  simp [write,sync,rename,regular,noDirectory]

def Unreplaced (files left : HostFiles) (tmp : Path) : Prop :=
  left = files ∨ files.opening tmp = .done tmp ∧ ∃ text, left = files.place tmp (files.written tmp 0o600 text)

/-- A write that fails leaves at most a temporary file. -/
theorem replaceFile_fails (content : Bytes) (plain : files.target tmp = none) (fails : ¬ Replaces io files tmp target)
    (returns : ¬ Hangs io files tmp) : ∃ left e, replaceFile io tmp target content files = (left,.error (.fails e)) ∧
      Unreplaced files left tmp := by
  by_cases dir : io.createDir = true
  · by_cases create : io.create = true
    · cases opening : files.opening tmp with
      | failed => exact ⟨files,.creating,by simp [replaceFile,dir,create,opening],.inl rfl⟩
      | never => exact absurd ⟨dir,create,opening⟩ returns
      | done f =>
        obtain rfl := opening_tmp plain opening
        rw [replaceFile_opened dir create opening]
        split
        · exact ⟨_,_,rfl,.inr ⟨opening,_,rfl⟩⟩
        split
        · exact ⟨_,_,rfl,.inr ⟨opening,_,rfl⟩⟩
        split
        · exact ⟨_,_,rfl,.inr ⟨opening,_,rfl⟩⟩
        next write synced renamed =>
          simp only [not_or,not_not] at write synced renamed
          exact absurd ⟨⟨dir,create,write,synced.1,renamed.1⟩,Bool.eq_false_iff.mpr renamed.2,f,opening,
            (isFile_written f 0o600 content).mp synced.2⟩ fails
    · exact ⟨files,.creating,by simp [replaceFile,dir,create],.inl rfl⟩
  · exact ⟨files,.creatingDir,by simp [replaceFile,dir],.inl rfl⟩

/-- A write that succeeds has renamed what it wrote, wherever its temporary file led. -/
theorem replaceFile_writes {left : HostFiles} (ran : replaceFile io tmp target content files = (left,.ok ())) :
    ∃ f, files.opening tmp = .done f ∧ (files.written f 0o600 content).body.isFile = true ∧
      left = (files.place f (files.written f 0o600 content)).rename tmp target := by
  simp only [replaceFile,Disk.truncate_fill] at ran
  split at ran
  · cases (Prod.mk.inj ran).2
  split at ran
  · cases (Prod.mk.inj ran).2
  split at ran
  · cases (Prod.mk.inj ran).2
  · cases (Prod.mk.inj ran).2
  next f opened =>
    split at ran
    · cases (Prod.mk.inj ran).2
    split at ran
    · cases (Prod.mk.inj ran).2
    next synced =>
      split at ran
      · cases (Prod.mk.inj ran).2
      · rw [not_or,not_not,not_not,Disk.isFile_place] at synced
        exact ⟨f,opened,synced.2,(Prod.mk.inj ran).1.symm⟩

/-- A write that succeeds has replaced its target. -/
theorem replaceFile_ok {left : HostFiles} (plain : files.target tmp = none)
    (ran : replaceFile io tmp target content files = (left,.ok ())) :
    Replaces io files tmp target ∧ left = replaced files tmp target content := by
  by_cases replaces : Replaces io files tmp target
  · rw [replaceFile_done plain replaces] at ran
    exact ⟨replaces,(Prod.mk.inj ran).1.symm⟩
  · by_cases waits : Hangs io files tmp
    · rw [replaceFile_hangs waits] at ran
      cases (Prod.mk.inj ran).2
    · obtain ⟨_,e,failed,_⟩ := replaceFile_fails content plain replaces waits
      rw [failed] at ran
      cases (Prod.mk.inj ran).2

theorem replaced_target (different : target ≠ tmp) :
    replaced files tmp target content target = some (.node (files.written tmp 0o600 content)) := by
  rw [replaced,Disk.rename_new _ different,Disk.place_self]

theorem replaced_other {p : Path} (notTmp : p ≠ tmp) (notTarget : p ≠ target) :
    replaced files tmp target content p = files p := by
  rw [replaced,Disk.rename_other _ notTmp notTarget,Disk.place_other _ notTmp]

theorem apart_replaced (content : Bytes) (apart : Apart files) (own : tmp ∈ ownPaths) (own' : target ∈ ownPaths)
    (different : target ≠ tmp) (plain : files.target tmp = none) : Apart (replaced files tmp target content) :=
  (apart.place _ plain).rename own own' different (by rwa [Disk.target_place _ plain])

theorem same_replaced (apart : Apart files) {p : Path} (ownP : p ∈ ownPaths) (own : tmp ∈ ownPaths)
    (own' : target ∈ ownPaths) (notTmp : p ≠ tmp) (notTarget : p ≠ target) :
    files.Same (replaced files tmp target content) p := fun _ member =>
  replaced_other (fun same => apart.off ownP own notTmp (same ▸ member))
    fun same => apart.off ownP own' notTarget (same ▸ member)

end

/-- What a write that fails leaves alone. -/
theorem same_unreplaced {files left : HostFiles} {p tmp : Path} (apart : Apart files)
    (unreplaced : Unreplaced files left tmp) (ownP : p ∈ ownPaths) (own : tmp ∈ ownPaths)
    (notTmp : p ≠ tmp) : files.Same left p := by
  rcases unreplaced with rfl | ⟨_,text,rfl⟩
  · exact .refl _ p
  · exact apart.same_place _ ownP own notTmp (Disk.mem_chain files tmp)

theorem same_replaceFile {files : HostFiles} {p tmp target : Path} {io : WriteIo} {content : Bytes} (apart : Apart files)
    (plain : files.target tmp = none) (failed : (replaceFile io tmp target content files).2 ≠ .ok ())
    (ownP : p ∈ ownPaths) (own : tmp ∈ ownPaths) (notTmp : p ≠ tmp) :
    files.Same (replaceFile io tmp target content files).1 p := by
  by_cases replaces : Replaces io files tmp target
  · exact absurd (congrArg Prod.snd (replaceFile_done plain replaces)) failed
  · by_cases waits : Hangs io files tmp
    · rw [replaceFile_hangs waits]
      exact .refl files p
    · obtain ⟨left,e,ran,unreplaced⟩ := replaceFile_fails content plain replaces waits
      rw [ran]
      exact same_unreplaced apart unreplaced ownP own notTmp

theorem spares_replaceFile {p tmp target : Path} (io : WriteIo) (content : Bytes) (ownP : p ∈ ownPaths)
    (own : tmp ∈ ownPaths) (own' : target ∈ ownPaths) (different : target ≠ tmp)
    (plain : ∀ files, Apart files → files.target tmp = none) (notTmp : p ≠ tmp) (notTarget : p ≠ target) :
    Spares p (replaceFile io tmp target content) := by
  intro files apart
  have free := plain files apart
  by_cases replaces : Replaces io files tmp target
  · rw [replaceFile_done free replaces]
    exact ⟨apart_replaced content apart own own' different free,same_replaced apart ownP own own' notTmp notTarget⟩
  · by_cases waits : Hangs io files tmp
    · rw [replaceFile_hangs waits]
      exact ⟨apart,.refl files p⟩
    · obtain ⟨left,e,failed,unreplaced⟩ := replaceFile_fails content free replaces waits
      rw [failed]
      refine ⟨?_,same_unreplaced apart unreplaced ownP own notTmp⟩
      rcases unreplaced with rfl | ⟨_,text,rfl⟩
      · exact apart
      · exact apart.place _ free

theorem spares_stateSave {p : Path} (io : WriteIo) (n : UInt64) (own : p ∈ ownPaths) (notTmp : p ≠ .stateTmp)
    (notState : p ≠ .state) : Spares p (stateSave io n) :=
  spares_replaceFile io _ own (by decide) (by decide) (by decide) (fun _ apart => apart.stateTmp) notTmp notState

/-! ### The backup -/

section
variable (io : CopyIo) (files : HostFiles)

def backup (f : Path) (mode : Nat) (content : Bytes) : Disk.Inode :=
  let m := files.written f mode content
  if m.body.isFile then { m with mode := mode } else m

def Copies : Prop :=
  io.create ∧ io.cut = none ∧
    ∃ f, files.opening .keyBak = .done f ∧ ((∀ m, files.nodeAt f = some m → m.body.isFile = true) → io.setMode)

def owner (f : Path) : Nat := ((files.nodeAt f).map (·.uid)).getD 0

/-- `key.bak` is, or becomes, a file of root's own that the guard lets pass, and has all digits of the key; `n` is
the key file. -/
structure BackedUp (n : Disk.Inode) : Prop where
  create : io.create = true
  setMode : io.setMode = true
  own : files .keyBak = none ∨ ∃ m, files .keyBak = some (.node m) ∧ m.uid = 0 ∧ m.body.isFile = true
  digits : ∀ k, io.cut = some k → 32 ≤ k
  mode : io.cut = none ∧ io.chmod = true ∨ n.mode &&& 0o777 &&& 0o177 = 0

/-- An old backup that the copy does not open has this very key. -/
def OldBackup (key : Key) : Prop :=
  (io.create = false ∨ files.opening .keyBak = .failed) ∧ loadKeyFrom (files .keyBak) 0o177 = .done key

variable {io files}

/-- The mode of a regular file is set before its content. -/
theorem copied_mode (files : HostFiles) (f : Path) (mode : Nat) :
    (if (files.written f mode []).body.isFile then
      files.place f { files.written f mode [] with mode := mode }
    else files.place f (files.written f mode [])) = files.place f (backup files f mode []) := by
  rw [backup]
  dsimp only
  split <;> rfl

theorem backup_body (files : HostFiles) (f : Path) (mode : Nat) (content : Bytes) :
    (backup files f mode content).body = (files.written f mode content).body := by
  unfold backup
  dsimp only
  split <;> rfl

theorem backup_isFile {files : HostFiles} {f : Path} (mode : Nat) (content : Bytes)
    (file : ∀ n, files.nodeAt f = some n → n.body.isFile = true) : (backup files f mode content).body.isFile = true := by
  rw [backup_body]
  exact (isFile_written f mode content).mpr file

/-- A copy changes one place at most, and a regular file stays one. -/
theorem copyFile_left (io : CopyIo) (original copy : Path) (files : HostFiles) :
    (copyFile io original copy files).1 = files ∨
      ∃ f m, files.opening copy = .done f ∧ (copyFile io original copy files).1 = files.place f m ∧
        ((∀ n, files.nodeAt f = some n → n.body.isFile = true) → m.body.isFile = true) := by
  unfold copyFile
  split
  · exact .inl rfl
  next source n _ =>
    split
    · exact .inl rfl
    · exact .inl rfl
    · exact .inl rfl
    · exact .inl rfl
    · exact .inl rfl
    · split
      · exact .inl rfl
      split
      · exact .inl rfl
      · exact .inl rfl
      next f opened =>
        refine .inr ⟨f,?_⟩
        have filled (content : Bytes) (file : ∀ n, files.nodeAt f = some n → n.body.isFile = true) :
            ((backup files f n.mode []).fill content).body.isFile = true :=
          (Disk.Inode.isFile_fill ..).trans (backup_isFile _ _ file)
        simp only [Disk.truncate,Disk.setMode,Disk.edit_place,Disk.isFile_place,copied_mode]
        split
        · exact ⟨_,opened,rfl,(isFile_written ..).mpr⟩
        split
        · exact ⟨_,opened,Disk.fill_place ..,filled _⟩
        · exact ⟨_,opened,Disk.fill_place ..,filled _⟩
        · exact ⟨_,opened,rfl,backup_isFile _ _⟩
        · exact ⟨_,opened,rfl,backup_isFile _ _⟩

/-- What a copy that succeeds has done, wherever its paths lead. -/
theorem copyFile_copies {original copy : Path} {left : HostFiles}
    (ran : copyFile io original copy files = (left,.ok ())) : ∃ source n f content, files.lead original = some source ∧
      files.nodeAt source = some n ∧ files.opening copy = .done f ∧
      (files.place f (backup files f n.mode [])).readAt source = .done content ∧
      left = files.place f ((backup files f n.mode []).fill content) := by
  unfold copyFile at ran
  split at ran
  · cases (Prod.mk.inj ran).2
  next source n reached =>
    obtain ⟨r,leads,there⟩ := Option.bind_eq_some_iff.mp reached
    obtain ⟨m,here,pair⟩ := Option.map_eq_some_iff.mp there
    obtain ⟨rfl,rfl⟩ := Prod.mk.inj pair
    split at ran
    · cases (Prod.mk.inj ran).2
    · cases (Prod.mk.inj ran).2
    · cases (Prod.mk.inj ran).2
    · cases (Prod.mk.inj ran).2
    · cases (Prod.mk.inj ran).2
    split at ran
    · cases (Prod.mk.inj ran).2
    split at ran
    · cases (Prod.mk.inj ran).2
    · cases (Prod.mk.inj ran).2
    next f opened =>
      simp only [Disk.truncate,Disk.setMode,Disk.edit_place,Disk.isFile_place,copied_mode,Disk.fill_place] at ran
      split at ran
      · cases (Prod.mk.inj ran).2
      split at ran
      · cases (Prod.mk.inj ran).2
      next content read _ => exact ⟨_,_,f,content,leads,here,opened,read,(Prod.mk.inj ran).1.symm⟩
      · cases (Prod.mk.inj ran).2
      · cases (Prod.mk.inj ran).2

section
variable {left : HostFiles} (same : files.Same left .keyBak)
include same

end

variable {n : Disk.Inode} {content : Bytes}

/-- The copy of the key file, from one that was just renamed into place. -/
theorem copyFile_eq (io : CopyIo) (apart : Apart files) (here : files .key = some (.node n))
    (text : n.body = .file (some content)) :
    copyFile io .key .keyBak files =
      if ¬ io.create then (files,.error (.fails .copying))
      else match files.opening .keyBak with
        | .failed => (files,.error (.fails .copying))
        | .never => (files,.error .never)
        | .done f =>
          if (files.written f n.mode []).body.isFile ∧ ¬ io.setMode then
            (files.place f (files.written f n.mode []),.error (.fails .copying))
          else match io.cut with
            | some k => (files.place f ((backup files f n.mode []).fill (content.take k)),.error (.fails .copying))
            | none => (files.place f ((backup files f n.mode []).fill content),.ok ()) := by
  have source : ((files.lead .key).bind fun source => (files.nodeAt source).map fun n => (source,n)) =
      some (.key,n) := by
    rw [Disk.lead_self (Disk.target_node here),Option.bind_some,Disk.nodeAt_of_entry here,Option.map_some]
  unfold copyFile
  rw [source]
  simp only [text]
  split
  · rfl
  cases opened : files.opening .keyBak with
  | failed => rfl
  | never => rfl
  | done f =>
    have other : Path.key ≠ f := fun same => apart.off (p := .keyBak) (q := .key) (by decide) (by decide) (by decide)
      (same ▸ Disk.lead_mem_chain (Disk.lead_of_opening opened))
    have kept (m : Disk.Inode) : (files.place f m).readAt .key = .done content := by
      rw [Disk.readAt,Disk.nodeAt_place_other m other,Disk.nodeAt_of_entry here]
      simp only [text,Disk.Body.read]
    simp only [Disk.truncate,Disk.setMode,Disk.edit_place,Disk.isFile_place,copied_mode,kept]
    split
    · rfl
    · cases io.cut <;> simp only [Disk.fill_place]

theorem backup_file {f : Path} (file : ∀ m, files.nodeAt f = some m → m.body.isFile = true) (mode : Nat)
    (content : Bytes) : (backup files f mode []).fill content = ⟨owner files f,mode,.file (some content)⟩ := by
  unfold backup Disk.written owner
  cases here : files.nodeAt f with
  | none => rfl
  | some m =>
    obtain ⟨uid,_,body⟩ := m
    cases body with
    | file => rfl
    | directory | socket | fifo | device => cases file _ here

theorem backup_special {f : Path} {m : Disk.Inode} (here : files.nodeAt f = some m) (special : m.body.isFile = false)
    (mode : Nat) (content : Bytes) : (backup files f mode []).fill content = m := by
  unfold backup Disk.written
  rw [here]
  obtain ⟨uid,_,body⟩ := m
  cases body with
  | file => cases special
  | directory | socket | fifo | device => rfl

theorem spares_copyFile {p original copy : Path} (io : CopyIo) (own : p ∈ ownPaths) (own' : copy ∈ ownPaths)
    (other : p ≠ copy) : Spares p (copyFile io original copy) := by
  intro files apart
  rcases copyFile_left io original copy files with same | ⟨f,m,opened,same,_⟩
  · rw [same]
    exact ⟨apart,.refl files p⟩
  · rw [same]
    have reached := Disk.lead_mem_chain (Disk.lead_of_opening opened)
    exact ⟨apart.place m (Disk.free_of_opening opened),apart.same_place m own own' other reached⟩

theorem spares_copyBackup {p : Path} (io : CopyIo) (own : p ∈ ownPaths) (other : p ≠ .keyBak) : Spares p (copyBackup io) :=
  spares_bind (spares_copyFile io own (by decide) other) fun _ => spares_setPermissions _ _ own (by decide) other

/-- What the second half of `save_key` comes to. -/
theorem copyBackup_eq (apart : Apart files) (here : files .key = some (.node n)) (text : n.body = .file (some content)) :
    copyBackup io files =
      if ¬ io.create then (files,.error (.fails .copying))
      else match files.opening .keyBak with
        | .failed => (files,.error (.fails .copying))
        | .never => (files,.error .never)
        | .done f =>
          if (files.written f n.mode []).body.isFile ∧ ¬ io.setMode then
            (files.place f (files.written f n.mode []),.error (.fails .copying))
          else match io.cut with
            | some k => (files.place f ((backup files f n.mode []).fill (content.take k)),.error (.fails .copying))
            | none => (files.place f (if io.chmod then { (backup files f n.mode []).fill content with mode := 0o400 }
                else (backup files f n.mode []).fill content),.ok ()) := by
  have copied := copyFile_eq io apart here text
  split at copied
  next uncreated => rw [copyBackup,bind_error copied,if_pos uncreated]
  next created =>
    rw [if_neg created]
    cases opened : files.opening .keyBak with
    | failed =>
      rw [opened] at copied
      rw [copyBackup,bind_error copied]
    | never =>
      rw [opened] at copied
      rw [copyBackup,bind_error copied]
    | done f =>
      rw [opened] at copied
      dsimp only at copied ⊢
      split at copied
      next unset => rw [copyBackup,bind_error copied,if_pos unset]
      next set =>
        rw [if_neg set]
        cases cut : io.cut with
        | some k =>
          rw [cut] at copied
          rw [copyBackup,bind_error copied]
        | none =>
          rw [cut] at copied
          rw [copyBackup,bind_eq copied]
          have leads := Disk.lead_of_opening opened
          have free := Disk.free_of_opening opened
          rw [setPermissions]
          cases io.chmod with
          | false => rfl
          | true => simp only [Disk.chmod,Disk.lead_place _ free,leads,Disk.setMode,Disk.edit_place,if_true]

theorem copyBackup_done (apart : Apart files) (here : files .key = some (.node n))
    (text : n.body = .file (some content)) (copies : Copies io files) : (copyBackup io files).2 = .ok () := by
  obtain ⟨create,uncut,f,opened,regular⟩ := copies
  rw [copyBackup_eq apart here text,if_neg (not_not.mpr create),opened]
  dsimp only
  rw [if_neg fun both => both.2 (regular ((isFile_written f n.mode []).mp both.1)),uncut]

/-- A link stays one. -/
theorem copyBackup_link {q : Path} (apart : Apart files) (here : files .key = some (.node n))
    (text : n.body = .file (some content)) (link : files .keyBak = some (.link q)) :
    (copyBackup io files).1 .keyBak = some (.link q) := by
  rw [copyBackup_eq apart here text]
  split
  · exact link
  cases opened : files.opening .keyBak with
  | failed => exact link
  | never => exact link
  | done f =>
    have other : Path.keyBak ≠ f := by
      rintro rfl
      have free := Disk.free_of_opening opened
      rw [Disk.target,link] at free
      cases free
    have kept (m : Disk.Inode) : files.place f m .keyBak = some (.link q) := (Disk.place_other m other).trans link
    dsimp only
    split
    · exact kept _
    · cases io.cut <;> exact kept _

/-- What is no file keeps its body. -/
theorem copyBackup_special (io : CopyIo) {m : Disk.Inode} (apart : Apart files) (here : files .key = some (.node n))
    (text : n.body = .file (some content)) (there : files .keyBak = some (.node m)) (special : m.body.isFile = false) :
    ∃ left, (copyBackup io files).1 .keyBak = some (.node left) ∧ left.body = m.body := by
  rw [copyBackup_eq apart here text]
  split
  · exact ⟨m,there,rfl⟩
  have plain := Disk.target_node there
  have same := backup_special (Disk.nodeAt_of_entry there) special n.mode
  cases opened : files.opening .keyBak with
  | failed => exact ⟨m,there,rfl⟩
  | never => exact ⟨m,there,rfl⟩
  | done f =>
    obtain rfl : Path.keyBak = f := Option.some.inj ((Disk.lead_self plain).symm.trans (Disk.lead_of_opening opened))
    dsimp only
    split
    next both =>
      have file := (isFile_written .keyBak n.mode []).mp both.1 m (Disk.nodeAt_of_entry there)
      rw [special] at file
      cases file
    · simp only [same]
      cases io.cut with
      | some k =>
        dsimp only
        exact ⟨m,Disk.place_self ..,rfl⟩
      | none =>
        dsimp only
        refine ⟨_,Disk.place_self ..,?_⟩
        split <;> rfl

/-- A file, or a new one, is overwritten. -/
theorem copyBackup_file (apart : Apart files) (here : files .key = some (.node n)) (text : n.body = .file (some content))
    (created : io.create = true) (opened : files.opening .keyBak = .done .keyBak)
    (file : ∀ m, files.nodeAt .keyBak = some m → m.body.isFile = true) :
    ∃ left, (copyBackup io files).1 .keyBak = some (.node left) ∧
      if ¬ io.setMode then left.body = .file (some [])
      else left.uid = owner files .keyBak ∧ match io.cut with
        | some k => left.mode = n.mode ∧ left.body = .file (some (content.take k))
        | none => left.mode = (if io.chmod then 0o400 else n.mode) ∧ left.body = .file (some content) := by
  have regular := (isFile_written .keyBak n.mode []).mpr file
  rw [copyBackup_eq apart here text,if_neg (by simp [created]),opened]
  dsimp only
  simp only [regular,backup_file file,true_and]
  split
  · exact ⟨_,Disk.place_self files .keyBak _,written_body n.mode [] file⟩
  · cases io.cut with
    | some k =>
      dsimp only
      exact ⟨_,Disk.place_self ..,rfl,rfl,rfl⟩
    | none =>
      dsimp only
      refine ⟨_,Disk.place_self ..,?_⟩
      split <;> exact ⟨rfl,rfl,rfl⟩

/-- Where the backup is a file or missing, the copy opens it. -/
theorem opening_file (plain : files.target .keyBak = none) (file : ∀ m, files.nodeAt .keyBak = some m → m.body.isFile = true) :
    files.opening .keyBak = .done .keyBak := by
  rw [Disk.opening_plain plain]
  cases here : files.nodeAt .keyBak with
  | none => rfl
  | some m =>
    have regular := file m here
    obtain ⟨uid,mode,body⟩ := m
    cases body with
    | file => rfl
    | directory | socket | fifo | device => cases regular

variable {key : Key}

/-- What is loaded from a backup that is a file was copied whole. -/
theorem backedUp_of_loads (apart : Apart files) (here : files .key = some (.node n))
    (text : n.body = .file (some (keyFileText key))) (created : io.create = true)
    (own : files .keyBak = none ∨ ∃ m, files .keyBak = some (.node m) ∧ m.body.isFile = true)
    (loads : loadKeyFrom ((copyBackup io files).1 .keyBak) 0o177 = .done key) : BackedUp io files n := by
  have plain : files.target .keyBak = none ∧ ∀ m, files.nodeAt .keyBak = some m → m.body.isFile = true := by
    rcases own with missing | ⟨m,entry,file⟩
    · refine ⟨Disk.target_missing missing,fun m there => ?_⟩
      rw [Disk.nodeAt_missing missing] at there
      cases there
    · refine ⟨Disk.target_node entry,fun m' there => ?_⟩
      rw [Disk.nodeAt_of_entry entry] at there
      obtain rfl := Option.some.inj there
      exact file
  obtain ⟨left,entry,wrote⟩ := copyBackup_file apart here text created (opening_file plain.1 plain.2) plain.2
  rw [entry] at loads
  obtain ⟨guarded,_⟩ := loadKeyFrom_done_iff.mp loads
  cases set : io.setMode with
  | false =>
    -- the backup is empty
    rw [if_pos (by simp [set])] at wrote
    have none := loadKeyFrom_cut key 0 guarded wrote
    rw [loads] at none
    cases none
  | true =>
    rw [if_neg (by simp [set])] at wrote
    obtain ⟨owned,wrote⟩ := wrote
    have root : owner files .keyBak = 0 := owned ▸ guarded.1
    have rootOwn : files .keyBak = none ∨
        ∃ m, files .keyBak = some (.node m) ∧ m.uid = 0 ∧ m.body.isFile = true := by
      refine own.imp_right fun ⟨m,there,file⟩ => ⟨m,there,?_,file⟩
      rwa [owner,Disk.nodeAt_of_entry there] at root
    refine ⟨created,set,rootOwn,fun k cut => ?_,?_⟩
    · rw [cut] at wrote
      rw [loadKeyFrom_cut _ _ guarded wrote.2] at loads
      by_contra short
      rw [if_neg short] at loads
      cases loads
    · cases cut : io.cut with
      | some k =>
        rw [cut] at wrote
        exact .inr (wrote.1 ▸ guarded.2)
      | none =>
        rw [cut] at wrote
        cases chmod : io.chmod with
        | true => exact .inl ⟨rfl,rfl⟩
        | false =>
          have mode : left.mode = n.mode := by simpa [chmod] using wrote.1
          exact .inr (mode ▸ guarded.2)

/-- A backup that is loaded was made, or is an old one, unless what is read there is no file. -/
theorem of_backup_loads (apart : Apart files) (here : files .key = some (.node n))
    (text : n.body = .file (some (keyFileText key)))
    (ordinary : ∀ m s, files .keyBak = some (.node m) → m.body.read = .done s → m.body.isFile = true)
    (loads : loadKeyFrom ((copyBackup io files).1 .keyBak) 0o177 = .done key) :
    BackedUp io files n ∨ OldBackup io files key := by
  cases created : io.create with
  | false =>
    rw [copyBackup_eq apart here text,if_pos (by simp [created])] at loads
    exact .inr ⟨.inl created,loads⟩
  | true =>
    cases entry : files .keyBak with
    | none => exact .inl (backedUp_of_loads apart here text created (.inl entry) loads)
    | some e =>
      cases e with
      | link q =>
        rw [copyBackup_link apart here text entry] at loads
        cases loads
      | node m =>
        cases file : m.body.isFile with
        | true => exact .inl (backedUp_of_loads apart here text created (.inr ⟨m,entry,file⟩) loads)
        | false =>
          obtain ⟨left,there,body⟩ := copyBackup_special io apart here text entry file
          rw [there] at loads
          obtain ⟨_,s,read,_⟩ := loadKeyFrom_done_iff.mp loads
          rw [body] at read
          rw [ordinary m s entry read] at file
          cases file

end

/-! ### What is loaded -/

section
variable (tpm : Tpm) {a b : HostFiles}

theorem loads_same (key : Key) (sameKey : a.Same b .key) (sameBak : a.Same b .keyBak) (sameTpm : a.Same b .keyTpm) :
    Loads tpm b key ↔ Loads tpm a key := by
  rw [Loads,Loads,loadKeyWithSource_congr sameKey.entry sameBak.entry sameTpm.found]

/-- Under the name `key.tpm` there is what was written as `key.tpm.tmp`. -/
theorem replaced_blob {io : WriteIo} {files : HostFiles} (blob : Bytes) (apart : Apart files)
    (replaces : Replaces io files .keyTpmTmp .keyTpm) :
    ∃ n, (replaced files .keyTpmTmp .keyTpm blob).found .keyTpm = some n ∧ n.body = .file (some blob) := by
  obtain ⟨_,_,f,opened,file⟩ := replaces
  obtain rfl := opening_tmp apart.keyTpmTmp opened
  have different : Path.keyTpm ≠ .keyTpmTmp := by decide
  exact ⟨_,Disk.found_node (replaced_target different),written_body 0o600 blob file⟩

variable {tpm}

/-- A blob that is written stays where it is. -/
theorem loads_blob {io : WriteIo} {attempt : Nat} {key : Key} {pcrs : Option (List UInt8)} {blob : Bytes}
    (made : tpm.sealKey attempt key pcrs = some blob) (apart : Apart a)
    (replaces : Replaces io a .keyTpmTmp .keyTpm) (same : (replaced a .keyTpmTmp .keyTpm blob).Same b .keyTpm) :
    Loads tpm b key := by
  obtain ⟨n,stored,content⟩ := replaced_blob blob apart replaces
  refine loads_sealed (same.found.trans stored) ?_ (tpm.unsealsSealed _ _ _ _ made)
  rw [content]
  rfl

end

end R503.Host
