import R503.KeystoreWrites
import R503.Transition

/-! `run_reseal_policy` file operation by file operation (pairing.rs, keystore.rs). The run may be cut after any
of them, and inside of the two writes. -/
namespace R503.Host.Reseal

open Text

/-- What the TPM answers during the run: at the load, to the seal and at the verification. -/
structure TpmRun where
  unsealOld : Bytes → Option Key
  sealKey : Key → Option (List UInt8) → Option Bytes
  unsealNew : Bytes → Option Key

def answering (answer : Bytes → Option Key) : Tpm where
  devicePresent := true
  sealKey _ _ _ := none
  unsealKey := answer
  unsealsSealed _ _ _ _ never := by cases never

def load (answer : Bytes → Option Key) (d : HostFiles) : Except (Halt KeyError) (Option (Key × KeySource)) :=
  loadKeyWithSource (answering answer) d

def storedBlob (d : HostFiles) : Option Bytes :=
  match d.found .keyTpm with
  | none => none
  | some n =>
    match n.body.read with
    | .done blob => some blob
    | .failed | .never => none

/-- The next file operation. The path of a plaintext file is that `delete_key` is at. -/
inductive Point where
  | createDir
  | create
  | write (f : Path) (written : Nat)
  | rename
  | chmod (p : Path)
  | openShred (p : Path)
  | shred (p f : Path) (zapped : Nat)
  | remove (p : Path)
  deriving DecidableEq

inductive Stage where
  | start
  | running (blob : Bytes) (source : KeySource) (point : Point)
  | ok (blob : Bytes)
  | err
  deriving DecidableEq

def Stage.blob : Stage → Option Bytes
  | .running blob _ _ | .ok blob => some blob
  | .start | .err => none

structure Run where
  disk : HostFiles
  stage : Stage

inductive Act where
  /-- Load, re-read, seal, unseal and compare: nothing is written. -/
  | prepare (readable : Bool)
  | createDir (ok : Bool)
  | create (ok : Bool)
  | write (upTo : Nat)
  /-- `write_all` and `sync_all` are through, or one has failed. -/
  | writeEnds (ok : Bool)
  | rename (ok : Bool)
  | chmod (ok : Bool)
  | openShred (ok : Bool)
  | shred (upTo : Nat)
  /-- Whether the overwrite failed or not. -/
  | shredEnds
  | remove (ok : Bool)

section

variable (tpm : TpmRun) (newPcrs : Option (List UInt8))

/-- `run_reseal_policy` up to `persist_sealed_blob`. -/
def prepare (d : HostFiles) (readable : Bool) : Stage :=
  match load tpm.unsealOld d with
  | .ok (some (key,source)) =>
    if source = .tpm ∧ ¬ readable then .err
    else match tpm.sealKey key newPcrs with
      | none => .err
      | some newBlob =>
        match tpm.unsealNew newBlob with
        | none => .err
        | some reunsealed => if reunsealed ≠ key then .err else .running newBlob source .createDir
  | .ok none | .error (.fails _) => .err
  -- it still waits for a key file
  | .error .never => .start

def afterRemoval (blob : Bytes) (source : KeySource) (p : Path) : Stage :=
  if p = .key then .running blob source (.chmod .keyBak) else .ok blob

/-- An open that waits for ever has no next state. -/
def step (s : Run) (act : Act) : Option Run :=
  match s.stage,act with
  | .start,.prepare readable => some { s with stage := prepare tpm newPcrs s.disk readable }
  | .running blob source .createDir,.createDir ok =>
    some { s with stage := if ok then .running blob source .create else .err }
  | .running blob source .create,.create ok =>
    match (if ok then s.disk.opening .keyTpmTmp else .failed) with
    | .failed => some { s with stage := .err }
    | .never => none
    | .done f => some ⟨s.disk.truncate f 0o600,.running blob source (.write f 0)⟩
  | .running blob source (.write f written),.write upTo =>
    if written ≤ upTo ∧ upTo ≤ blob.length then
      some ⟨s.disk.fill f (blob.take upTo),.running blob source (.write f upTo)⟩
    else none
  | .running blob source (.write f written),.writeEnds ok =>
    -- only regular files can be synced
    if ¬ ok ∨ ¬ s.disk.isFile f then some { s with stage := .err }
    else if written = blob.length then some { s with stage := .running blob source .rename }
    else none
  | .running blob source .rename,.rename ok =>
    if ¬ ok ∨ s.disk .keyTpmTmp = none ∨ s.disk.isDirectory .keyTpm then some { s with stage := .err }
    else some ⟨s.disk.rename .keyTpmTmp .keyTpm,
      if source = .plaintext then .running blob source (.chmod .key) else .ok blob⟩
  | .running blob source (.chmod p),.chmod ok =>
    some ⟨if ok then s.disk.chmod p 0o600 else s.disk,.running blob source (.openShred p)⟩
  | .running blob source (.openShred p),.openShred ok =>
    match (if ok then (s.disk.lead p).bind fun f => (s.disk.nodeAt f).map fun n => (f,n) else none) with
    | none => some { s with stage := .running blob source (.remove p) }
    | some (f,n) =>
      match n.body.writing with
      | .done () => some { s with stage := .running blob source (.shred p f 0) }
      | .failed => some { s with stage := .running blob source (.remove p) }
      | .never => none
  | .running blob source (.shred p f zapped),.shred upTo =>
    if zapped ≤ upTo ∧ upTo ≤ zap.length then
      some ⟨s.disk.edit f fun n => { n with body := n.body.overlay (zap.take upTo) },
        .running blob source (.shred p f upTo)⟩
    else none
  | .running blob source (.shred p _ _),.shredEnds => some { s with stage := .running blob source (.remove p) }
  | .running blob source (.remove p),.remove ok =>
    if s.disk p = none ∨ ok ∧ ¬ s.disk.isDirectory p then some ⟨s.disk.remove p,afterRemoval blob source p⟩
    else some { s with stage := .ok blob }
  | _,_ => none

end

/-! ### Before the rename -/

structure Kept (d₀ d : HostFiles) : Prop where
  key : d .key = d₀ .key
  keyBak : d .keyBak = d₀ .keyBak
  keyTpm : d .keyTpm = d₀ .keyTpm
  content : d.found .keyTpm = d₀.found .keyTpm

theorem load_kept {answer answer' : Bytes → Option Key} {d₀ d : HostFiles} (kept : Kept d₀ d)
    (agree : ∀ blob, storedBlob d₀ = some blob → answer blob = answer' blob) : load answer d = load answer' d₀ := by
  rw [load,load,loadKeyWithSource,loadKeyWithSource,kept.content,loadKey,loadKey,kept.key,kept.keyBak]
  unfold storedBlob at agree
  cases held : d₀.found .keyTpm with
  | none => rfl
  | some n =>
    rw [held] at agree
    dsimp only at agree ⊢
    cases read : n.body.read with
    | done blob =>
      rw [read] at agree
      simp only [answering,agree blob rfl]
    | failed => rfl
    | never => rfl

def Holds (d : HostFiles) (blob : Bytes) : Prop := ∃ n, d.found .keyTpm = some n ∧ n.body = .file (some blob)

theorem load_sealed {answer : Bytes → Option Key} {d : HostFiles} {blob : Bytes} {key : Key}
    (held : Holds d blob) (unsealed : answer blob = some key) : load answer d = .ok (some (key,.tpm)) := by
  obtain ⟨n,found,content⟩ := held
  rw [load,loadKeyWithSource,found]
  simp only [content,Disk.Body.read,answering,unsealed]

/-- The temporary file is none of the key files, and if it is a regular file it holds what was written so far. -/
structure Writing (d : HostFiles) (f : Path) (written : Bytes) : Prop where
  leads : d.lead .keyTpmTmp = some f
  notKey : f ≠ .key
  notKeyBak : f ≠ .keyBak
  apart : d.lead .keyTpm ≠ some f
  content : ∃ n, d.nodeAt f = some n ∧ (n.body.isFile = true → n.body = .file (some written))

section
variable {d₀ d : HostFiles} {f : Path}

theorem Kept.place (kept : Kept d₀ d) (n : Disk.Inode) {written : Bytes} (leads : d.lead .keyTpmTmp = some f)
    (notKey : f ≠ .key) (notKeyBak : f ≠ .keyBak) (apart : d.lead .keyTpm ≠ some f)
    (content : n.body.isFile = true → n.body = .file (some written)) :
    Kept d₀ (d.place f n) ∧ Writing (d.place f n) f written := by
  have free := Disk.lead_end leads
  have notKeyTpm : f ≠ .keyTpm := by
    rintro rfl
    exact apart (Disk.lead_self free)
  refine ⟨⟨?_,?_,?_,?_⟩,?_,notKey,notKeyBak,?_,n,Disk.nodeAt_place d f n,content⟩
  · rw [Disk.place_other n notKey.symm,kept.key]
  · rw [Disk.place_other n notKeyBak.symm,kept.keyBak]
  · rw [Disk.place_other n notKeyTpm.symm,kept.keyTpm]
  · rw [Disk.found_place n free apart,kept.content]
  · rw [Disk.lead_place n free,leads]
  · rwa [Disk.lead_place n free]

/-- More of the blob, or all of it again from the start of the file. -/
theorem Writing.fill {written : Bytes} (kept : Kept d₀ d) (writing : Writing d f written) (content : Bytes) :
    Kept d₀ (d.fill f content) ∧ Writing (d.fill f content) f content := by
  obtain ⟨n,here,_⟩ := writing.content
  rw [Disk.fill,Disk.edit_eq _ here]
  exact kept.place _ writing.leads writing.notKey writing.notKeyBak writing.apart (Disk.Inode.fill_file content n)

/-- The rename puts the whole blob where `key.tpm` leads. -/
theorem Writing.renamed {blob : Bytes} (writing : Writing d f blob) (file : d.isFile f = true) :
    Holds (d.rename .keyTpmTmp .keyTpm) blob := by
  obtain ⟨n,here,content⟩ := writing.content
  rw [Disk.isFile,here] at file
  exact ⟨n,Disk.found_rename writing.leads here writing.apart,content file⟩

/-! ### After the rename -/

theorem Holds.edit_apart {blob : Bytes} (held : Holds d blob) (change : Disk.Inode → Disk.Inode)
    (apart : d.lead .keyTpm ≠ some f) : Holds (d.edit f change) blob := by
  obtain ⟨n,found,content⟩ := held
  exact ⟨n,(Disk.found_edit change apart).trans found,content⟩

/-- A new mode is no new content. -/
theorem Holds.chmod {blob : Bytes} (held : Holds d blob) (p : Path) (mode : Nat) : Holds (d.chmod p mode) blob := by
  unfold Disk.chmod
  split
  · exact held
  next f leads =>
    by_cases same : d.lead .keyTpm = some f
    · obtain ⟨n,found,content⟩ := held
      refine ⟨{ n with mode := mode },?_,content⟩
      rw [Disk.setMode,Disk.found_edit_same _ same,found,Option.map_some]
    · exact held.edit_apart _ same

theorem Holds.remove {blob : Bytes} {p : Path} (held : Holds d blob) (apart : d.lead p ≠ d.lead .keyTpm) :
    Holds (d.remove p) blob := by
  obtain ⟨n,found,content⟩ := held
  exact ⟨n,Disk.found_remove found apart,content⟩

end

/-! ### The run -/

/-- No write goes through a symbolic link to a key file: the temporary file is not one of them, and what
is overwritten is not what `key.tpm` leads to. -/
def Clear (s : Run) (act : Act) : Bool :=
  match s.stage,act with
  | .running _ _ .create,.create true =>
    match s.disk.lead .keyTpmTmp with
    | none => true
    | some f => f ≠ .key ∧ f ≠ .keyBak ∧ s.disk.lead .keyTpm ≠ some f
  | .running _ _ (.openShred p),.openShred _ => s.disk.lead p ≠ s.disk.lead .keyTpm
  | _,_ => true

def Point.Sound (d₀ d : HostFiles) (blob : Bytes) : Point → Prop
  | .createDir | .create => Kept d₀ d
  | .write f written => Kept d₀ d ∧ Writing d f (blob.take written)
  | .rename => Kept d₀ d ∧ ∃ f, Writing d f blob ∧ d.isFile f = true
  | .chmod _ | .openShred _ => Holds d blob
  | .shred p f _ => Holds d blob ∧ d.lead p ≠ d.lead .keyTpm ∧ d.lead p = some f
  | .remove p => Holds d blob ∧ d.lead p ≠ d.lead .keyTpm

section

variable (tpm : TpmRun) (newPcrs : Option (List UInt8)) (d₀ : HostFiles) (key : Key)

/-- The old files count until the rename, and a blob that was seen to unseal to the key from then on. -/
def Sound (s : Run) : Prop :=
  match s.stage with
  | .start | .err => Kept d₀ s.disk
  | .running blob _ point => tpm.unsealNew blob = some key ∧ point.Sound d₀ s.disk blob
  | .ok blob => tpm.unsealNew blob = some key ∧ Holds s.disk blob

variable {tpm newPcrs d₀ key} {source : KeySource} {d : HostFiles} {blob : Bytes} {t : Run} {act : Act}

theorem prepare_sound (loads : load tpm.unsealOld d₀ = .ok (some (key,source))) (kept : Kept d₀ d)
    (readable : Bool) : Sound tpm d₀ key ⟨d,prepare tpm newPcrs d readable⟩ := by
  have same : load tpm.unsealOld d = .ok (some (key,source)) := (load_kept kept fun _ _ => rfl).trans loads
  unfold prepare
  rw [same]
  dsimp only
  split
  · exact kept
  split
  · exact kept
  split
  · exact kept
  split
  · exact kept
  · rename_i reunsealed verified different
    exact ⟨by rw [verified,not_not.mp different],kept⟩

/-! One lemma for each operation, from a state in which it is the next one. -/

section
variable (verified : tpm.unsealNew blob = some key)
include verified

theorem createDir_sound (kept : Kept d₀ d)
    (moved : step tpm newPcrs ⟨d,.running blob source .createDir⟩ act = some t) : Sound tpm d₀ key t := by
  cases act with
  | createDir ok =>
    obtain rfl := Option.some.inj moved
    cases ok with
    | true => exact ⟨verified,kept⟩
    | false => exact kept
  | _ => cases moved

theorem create_sound (kept : Kept d₀ d) (clear : Clear ⟨d,.running blob source .create⟩ act = true)
    (moved : step tpm newPcrs ⟨d,.running blob source .create⟩ act = some t) : Sound tpm d₀ key t := by
  cases act with
  | create ok =>
    simp only [step] at moved
    split at moved
    · obtain rfl := Option.some.inj moved
      exact kept
    · cases moved
    next f opened =>
      obtain rfl := Option.some.inj moved
      cases ok with
      | false => cases opened
      | true =>
        have leads : d.lead .keyTpmTmp = some f := Disk.lead_of_opening opened
        simp only [Clear,leads,decide_eq_true_eq] at clear
        refine ⟨verified,kept.place _ leads clear.1 clear.2.1 clear.2.2 fun file => ?_⟩
        exact written_body 0o600 [] ((isFile_written f 0o600 []).mp file)
  | _ => cases moved

theorem write_sound {f : Path} {written : Nat} (kept : Kept d₀ d) (writing : Writing d f (blob.take written))
    (moved : step tpm newPcrs ⟨d,.running blob source (.write f written)⟩ act = some t) : Sound tpm d₀ key t := by
  cases act with
  | write upTo =>
    simp only [step] at moved
    split at moved
    · obtain rfl := Option.some.inj moved
      exact ⟨verified,writing.fill kept _⟩
    · cases moved
  | writeEnds ok =>
    simp only [step] at moved
    split at moved
    · obtain rfl := Option.some.inj moved
      exact kept
    split at moved
    next synced whole =>
      obtain rfl := Option.some.inj moved
      rw [whole,List.take_length] at writing
      exact ⟨verified,kept,f,writing,not_not.mp (not_or.mp synced).2⟩
    · cases moved
  | _ => cases moved

theorem rename_sound {f : Path} (kept : Kept d₀ d) (writing : Writing d f blob) (file : d.isFile f = true)
    (moved : step tpm newPcrs ⟨d,.running blob source .rename⟩ act = some t) : Sound tpm d₀ key t := by
  cases act with
  | rename ok =>
    simp only [step] at moved
    split at moved
    · obtain rfl := Option.some.inj moved
      exact kept
    · obtain rfl := Option.some.inj moved
      have held := writing.renamed file
      cases source with
      | plaintext => exact ⟨verified,held⟩
      | tpm => exact ⟨verified,held⟩
  | _ => cases moved

theorem chmod_sound {p : Path} (held : Holds d blob)
    (moved : step tpm newPcrs ⟨d,.running blob source (.chmod p)⟩ act = some t) : Sound tpm d₀ key t := by
  cases act with
  | chmod ok =>
    obtain rfl := Option.some.inj moved
    cases ok with
    | true => exact ⟨verified,held.chmod p 0o600⟩
    | false => exact ⟨verified,held⟩
  | _ => cases moved

theorem openShred_sound {p : Path} (held : Holds d blob)
    (clear : Clear ⟨d,.running blob source (.openShred p)⟩ act = true)
    (moved : step tpm newPcrs ⟨d,.running blob source (.openShred p)⟩ act = some t) : Sound tpm d₀ key t := by
  cases act with
  | openShred ok =>
    have apart : d.lead p ≠ d.lead .keyTpm := of_decide_eq_true clear
    simp only [step] at moved
    split at moved
    · obtain rfl := Option.some.inj moved
      exact ⟨verified,held,apart⟩
    next f n opened =>
      cases ok with
      | false => cases opened
      | true =>
        obtain ⟨g,leads,there⟩ := Option.bind_eq_some_iff.mp opened
        obtain ⟨m,_,pair⟩ := Option.map_eq_some_iff.mp there
        obtain ⟨rfl,rfl⟩ := Prod.mk.inj pair
        split at moved
        · obtain rfl := Option.some.inj moved
          exact ⟨verified,held,apart,leads⟩
        · obtain rfl := Option.some.inj moved
          exact ⟨verified,held,apart⟩
        · cases moved
  | _ => cases moved

theorem shred_sound {p f : Path} {zapped : Nat} (held : Holds d blob) (apart : d.lead p ≠ d.lead .keyTpm)
    (leads : d.lead p = some f)
    (moved : step tpm newPcrs ⟨d,.running blob source (.shred p f zapped)⟩ act = some t) : Sound tpm d₀ key t := by
  cases act with
  | shred upTo =>
    simp only [step] at moved
    split at moved
    · obtain rfl := Option.some.inj moved
      have elsewhere : d.lead .keyTpm ≠ some f := fun same => apart (leads.trans same.symm)
      refine ⟨verified,held.edit_apart _ elsewhere,?_,?_⟩
      · rwa [Disk.lead_edit]
      · rwa [Disk.lead_edit]
    · cases moved
  | shredEnds =>
    obtain rfl := Option.some.inj moved
    exact ⟨verified,held,apart⟩
  | _ => cases moved

theorem remove_sound {p : Path} (held : Holds d blob) (apart : d.lead p ≠ d.lead .keyTpm)
    (moved : step tpm newPcrs ⟨d,.running blob source (.remove p)⟩ act = some t) : Sound tpm d₀ key t := by
  cases act with
  | remove ok =>
    simp only [step] at moved
    split at moved
    · obtain rfl := Option.some.inj moved
      have still := held.remove apart
      by_cases first : p = .key
      · rw [afterRemoval,if_pos first]
        exact ⟨verified,still⟩
      · rw [afterRemoval,if_neg first]
        exact ⟨verified,still⟩
    · obtain rfl := Option.some.inj moved
      exact ⟨verified,held⟩
  | _ => cases moved

end

theorem Sound.step {s : Run} (loads : load tpm.unsealOld d₀ = .ok (some (key,source))) (sound : Sound tpm d₀ key s)
    (clear : Clear s act = true) (moved : step tpm newPcrs s act = some t) : Sound tpm d₀ key t := by
  obtain ⟨d,stage⟩ := s
  cases stage with
  | start =>
    cases act with
    | prepare readable =>
      obtain rfl := Option.some.inj moved
      exact prepare_sound loads sound readable
    | _ => cases moved
  | ok blob => cases moved
  | err => cases moved
  | running blob source point =>
    obtain ⟨verified,sound⟩ := sound
    cases point with
    | createDir => exact createDir_sound verified sound moved
    | create => exact create_sound verified sound clear moved
    | write => exact write_sound verified sound.1 sound.2 moved
    | rename =>
      obtain ⟨kept,f,writing,file⟩ := sound
      exact rename_sound verified kept writing file moved
    | chmod => exact chmod_sound verified sound moved
    | openShred => exact openShred_sound verified sound clear moved
    | shred => exact shred_sound verified sound.1 sound.2.1 sound.2.2 moved
    | remove => exact remove_sound verified sound.1 sound.2 moved

theorem Sound.loads {s : Run} (loads : load tpm.unsealOld d₀ = .ok (some (key,source)))
    (sound : Sound tpm d₀ key s) (answer : Bytes → Option Key)
    (old : ∀ blob, storedBlob d₀ = some blob → answer blob = tpm.unsealOld blob)
    (new : ∀ blob, s.stage.blob = some blob → answer blob = tpm.unsealNew blob) :
    ∃ source', load answer s.disk = .ok (some (key,source')) := by
  have before (kept : Kept d₀ s.disk) : load answer s.disk = .ok (some (key,source)) :=
    (load_kept kept old).trans loads
  obtain ⟨d,stage⟩ := s
  cases stage with
  | start => exact ⟨source,before sound⟩
  | err => exact ⟨source,before sound⟩
  | ok blob => exact ⟨.tpm,load_sealed sound.2 ((new blob rfl).trans sound.1)⟩
  | running blob from_ point =>
    obtain ⟨verified,sound⟩ := sound
    have after (held : Holds d blob) : load answer d = .ok (some (key,.tpm)) :=
      load_sealed held ((new blob rfl).trans verified)
    cases point with
    | createDir => exact ⟨source,before sound⟩
    | create => exact ⟨source,before sound⟩
    | write => exact ⟨source,before sound.1⟩
    | rename => exact ⟨source,before sound.1⟩
    | chmod => exact ⟨.tpm,after sound⟩
    | openShred => exact ⟨.tpm,after sound⟩
    | shred => exact ⟨.tpm,after sound.1⟩
    | remove => exact ⟨.tpm,after sound.1⟩

variable (tpm newPcrs d₀ key)

/-- While no write goes through a link to a key file, a run that fails leaves the key files alone, and wherever
the run is cut the host key can be loaded. -/
theorem reseal_keeps_key (source : KeySource) (actions : List Act) (s : Run)
    (loads : load tpm.unsealOld d₀ = .ok (some (key,source)))
    (ran : Transition.run (step tpm newPcrs) ⟨d₀,.start⟩ actions = some s)
    (clear : Transition.Along (step tpm newPcrs) (fun s act _ => Clear s act = true) ⟨d₀,.start⟩ actions) :
    (s.stage = .err → Kept d₀ s.disk) ∧
      ∀ answer : Bytes → Option Key, (∀ blob, storedBlob d₀ = some blob → answer blob = tpm.unsealOld blob) →
        (∀ blob, s.stage.blob = some blob → answer blob = tpm.unsealNew blob) →
          ∃ source', load answer s.disk = .ok (some (key,source')) := by
  have untouched : Sound tpm d₀ key ⟨d₀,.start⟩ := Kept.mk rfl rfl rfl rfl
  have keeps (s : Run) (a : Act) (t : Run) (good : Sound tpm d₀ key s) (safe : Clear s a = true)
      (moved : step tpm newPcrs s a = some t) : Sound tpm d₀ key t := good.step loads safe moved
  have sound : Sound tpm d₀ key s := Transition.along_invariant _ _ keeps _ s actions untouched clear ran
  refine ⟨fun failed => ?_,sound.loads loads⟩
  obtain ⟨d,stage⟩ := s
  obtain rfl : stage = .err := failed
  exact sound

end

/-! ### Two disks -/

def sampleKey : Key := ⟨List.replicate 16 0x5A,by simp⟩

def sampleBlob : Bytes := List.replicate 40 7

def sampleTpm : TpmRun where
  unsealOld _ := none
  sealKey _ _ := some sampleBlob
  unsealNew blob := if blob = sampleBlob then some sampleKey else none

def plainDisk : HostFiles
  | .key => some (.node ⟨0,0o600,.file (some (keyFileText sampleKey))⟩)
  | .keyBak => some (.node ⟨0,0o400,.file (some (keyFileText sampleKey))⟩)
  | _ => none

/-- One with a link for its live key, which the loader passes over for the backup. -/
def linkedDisk : HostFiles
  | .key => some (.link .keyTpm)
  | .keyBak => some (.node ⟨0,0o400,.file (some (keyFileText sampleKey))⟩)
  | _ => none

def sampleActs : List Act :=
  [.prepare true,.createDir true,.create true,.write 40,.writeEnds true,.rename true] ++
    [.chmod true,.openShred true,.shred 33,.shredEnds,.remove true] ++
    [.chmod true,.openShred true,.shred 33,.shredEnds,.remove true]

def sampleRun (d : HostFiles) (count : Nat) : Option Run :=
  Transition.run (step sampleTpm none) ⟨d,.start⟩ (sampleActs.take count)

/-- The overwrite of `key` goes through the link into the new `key.tpm`, and then the backup is removed. -/
theorem linked_key_lost :
    load sampleTpm.unsealOld linkedDisk = .ok (some (sampleKey,.plaintext)) ∧
      ∃ s, sampleRun linkedDisk 16 = some s ∧ s.stage = .ok sampleBlob ∧
        load sampleTpm.unsealNew s.disk = .error (.fails .unsealing) := by
  have ends : ((sampleRun linkedDisk 16).map fun s => (s.stage,load sampleTpm.unsealNew s.disk)) =
      some (.ok sampleBlob,.error (.fails .unsealing)) := by decide +kernel
  obtain ⟨s,ran,both⟩ := Option.map_eq_some_iff.mp ends
  obtain ⟨stage,lost⟩ := Prod.mk.inj both
  exact ⟨by decide +kernel,s,ran,stage,lost⟩

/-- A cut inside the overwrite of the live key. -/
theorem reseal_keeps_key_plain : ∃ s, sampleRun plainDisk 9 = some s ∧ s.stage.blob = some sampleBlob ∧
    ∃ source, load sampleTpm.unsealNew s.disk = .ok (some (sampleKey,source)) := by
  have ends : ((sampleRun plainDisk 9).map fun s => s.stage.blob) = some (some sampleBlob) := by decide +kernel
  obtain ⟨s,ran,sealed⟩ := Option.map_eq_some_iff.mp ends
  have kept := reseal_keeps_key sampleTpm none plainDisk sampleKey .plaintext (sampleActs.take 9) s
    (by decide +kernel) ran (by decide +kernel)
  refine ⟨s,ran,sealed,kept.2 sampleTpm.unsealNew (fun blob held => ?_) fun _ _ => rfl⟩
  have none : storedBlob plainDisk = none := by decide +kernel
  rw [none] at held
  cases held

end R503.Host.Reseal
