import R503.Fallible
import R503.RegistryFile

/-! Registry calls whose save fails (storage.rs). The memory is changed under the write lock
before the file is written, and a failing save leaves the change in place. -/
namespace R503.Fprint.RegistryFailure

open Text Fallible

/-- Where a save fails, if it does; a write may have put a part of the data into the temporary file. -/
inductive SaveIo where
  | done
  | serialise
  | create
  | write (written : Nat)
  | sync
  | rename
  deriving DecidableEq

inductive StorageError where
  | io
  | parse
  deriving DecidableEq

structure Held where
  memory : Storage
  dir : TempRename.Dir UInt8

abbrev StorageOp (α : Type) : Type := Fallible Held StorageError α

section

variable {σ : Type} (toVec : σ → Users → Bytes)

def written (dir : TempRename.Dir UInt8) (data : Bytes) : TempRename.Dir UInt8 :=
  dir.openTemp.1.write dir.openTemp.2 0 data

def save (io : SaveIo) (order : σ) : StorageOp Unit := fun w =>
  let bytes := toVec order w.memory.users
  match io with
  | .serialise => (w,.error .parse)
  | .create => (w,.error .io)
  | .write n => ({ w with dir := written w.dir (bytes.take n) },.error .io)
  | .sync | .rename => ({ w with dir := written w.dir bytes },.error .io)
  | .done => ({ w with dir := w.dir.replace bytes },.ok ())

/-- What a call does under the write lock, with what it returns from there. -/
def underLock (f : Storage → Storage × α) : StorageOp α := fun w =>
  let (memory,a) := f w.memory
  ({ w with memory := memory },.ok a)

def setSlot (io : SaveIo) (order : σ) (username finger : Bytes) (slot : UInt8) : StorageOp Unit := do
  underLock fun storage => (storage.setSlot username finger slot,())
  save toVec io order

def removeFinger (io : SaveIo) (order : σ) (username finger : Bytes) : StorageOp (Option UInt8) := do
  let slot ← underLock fun storage => (storage.removeFinger username finger,storage.getSlot username finger)
  save toVec io order
  return slot

/-! ### One call -/

def SameRegistry (v w : Held) : Prop := rows v.memory.users = rows w.memory.users ∧ v.dir.read = w.dir.read

theorem read_written (dir : TempRename.Dir UInt8) (data : Bytes) : (written dir data).read = dir.read := by
  rw [written,TempRename.Dir.read_write _ _ _ _ dir.openTemp_temp,dir.read_openTemp]

theorem save_memory (io : SaveIo) (order : σ) (w : Held) : (save toVec io order w).1.memory = w.memory := by
  cases io <;> rfl

/-- A save fails where it is told to, and then users.json is as before. -/
theorem save_failed (io : SaveIo) (order : σ) (w : Held) (fails : io ≠ .done) :
    (∃ e, (save toVec io order w).2 = .error e) ∧ (save toVec io order w).1.dir.read = w.dir.read := by
  cases io with
  | done => exact absurd rfl fails
  | serialise => exact ⟨⟨_,rfl⟩,rfl⟩
  | create => exact ⟨⟨_,rfl⟩,rfl⟩
  | write n => exact ⟨⟨_,rfl⟩,read_written ..⟩
  | sync => exact ⟨⟨_,rfl⟩,read_written ..⟩
  | rename => exact ⟨⟨_,rfl⟩,read_written ..⟩

theorem save_done (order : σ) (w : Held) : (save toVec .done order w).2 = .ok () ∧
    (save toVec .done order w).1.dir.read = some (toVec order w.memory.users) :=
  ⟨rfl,(w.dir.replace_spec _).2⟩

def storageCall (io : SaveIo) (order : σ) : StorageCall → StorageOp Unit
  | .setSlot username finger slot => setSlot toVec io order username finger slot
  | .removeFinger username finger => do
    let _ ← removeFinger toVec io order username finger

/-- A call returns an error exactly if its save fails, and keeps its change either way. -/
theorem storageCall_run (io : SaveIo) (order : σ) (call : StorageCall) (w : Held) :
    (storageCall toVec io order call w).1 = (save toVec io order ⟨call.change w.memory,w.dir⟩).1 ∧
      ((∃ e, (storageCall toVec io order call w).2 = .error e) ↔ io ≠ .done) := by
  cases call <;> cases io <;>
    simp [storageCall,setSlot,removeFinger,underLock,save,bind,pure,StorageCall.change]

/-- The change leaves the rows as they are: the row is there already, or there is none to remove. -/
def Unchanging (storage : Storage) : StorageCall → Prop
  | .setSlot username finger slot => storage.getSlot username finger = some slot
  | .removeFinger username finger =>
    storage.getSlot username finger = none ∧ storage.users.lookup username ≠ some ∅

theorem getSlot_rows (storage : Storage) (username finger : Bytes) :
    storage.getSlot username finger = (rows storage.users username).bind (· finger) := by
  rw [rows,Option.bind_map]
  rfl

theorem setSlot_rows_iff (storage : Storage) (username finger : Bytes) (slot : UInt8) :
    rows (storage.setSlot username finger slot).users = rows storage.users ↔
      storage.getSlot username finger = some slot := by
  constructor
  · intro same
    rw [getSlot_rows,← same,← getSlot_rows,Storage.getSlot_setSlot_same]
  · intro there
    obtain ⟨fingers,user,row⟩ := Option.bind_eq_some_iff.mp there
    funext u
    by_cases here : u = username
    · subst u
      simp only [rows,Storage.setSlot,AList.lookup_insert,user,Option.getD_some,Option.map_some,Option.some.injEq]
      funext f
      by_cases same : f = finger
      · subst f
        rw [AList.lookup_insert,row]
      · rw [AList.lookup_insert_ne same]
    · simp only [rows,Storage.setSlot,AList.lookup_insert_ne here]

theorem removeFinger_rows_iff (storage : Storage) (username finger : Bytes) :
    rows (storage.removeFinger username finger).users = rows storage.users ↔
      storage.getSlot username finger = none ∧ storage.users.lookup username ≠ some ∅ := by
  constructor
  · intro same
    refine ⟨by rw [getSlot_rows,← same,← getSlot_rows,Storage.getSlot_removeFinger_same],fun empty => ?_⟩
    have gone : rows (storage.removeFinger username finger).users username = none := by
      have erased : ((∅ : AList fun _ : Bytes => UInt8).erase finger).entries = [] := rfl
      simp only [rows,Storage.removeFinger,empty,erased,if_true,AList.lookup_erase,Option.map_none]
    rw [same,rows,empty] at gone
    cases gone
  · rintro ⟨absent,kept⟩
    unfold Storage.removeFinger
    cases user : storage.users.lookup username with
    | none => rfl
    | some fingers =>
      rw [Storage.getSlot,user,Option.bind_some,AList.lookup_eq_none] at absent
      have unerased : fingers.erase finger = fingers := by
        apply AList.ext
        exact List.kerase_of_notMem_keys absent
      have nonempty : fingers.entries ≠ [] := fun empty => kept (by rw [user]; exact congrArg some (AList.ext empty))
      simp only [unerased,if_neg nonempty]
      funext u
      by_cases here : u = username
      · subst u
        rw [rows,rows,AList.lookup_insert,user]
      · rw [rows,rows,AList.lookup_insert_ne here]

theorem change_rows_iff (storage : Storage) (call : StorageCall) :
    rows (call.change storage).users = rows storage.users ↔ Unchanging storage call := by
  cases call with
  | setSlot username finger slot => exact setSlot_rows_iff ..
  | removeFinger username finger => exact removeFinger_rows_iff ..

/-- A failing call is without effect exactly if its change is. -/
theorem failed_call_iff (io : SaveIo) (order : σ) (call : StorageCall) (w : Held) :
    ((∃ e, (storageCall toVec io order call w).2 = .error e) → SameRegistry (storageCall toVec io order call w).1 w) ↔
      io = .done ∨ Unchanging w.memory call := by
  obtain ⟨after,fails⟩ := storageCall_run toVec io order call w
  rw [fails,after,SameRegistry,save_memory,change_rows_iff]
  by_cases done : io = .done
  · simp [done]
  · have kept := (save_failed toVec io order ⟨call.change w.memory,w.dir⟩ done).2
    simp [done,kept]

/-! ### Runs with restarts -/

/-- The daemon's registry, whose template each slot was last given, and the enrolment whose template is
stored and whose row is not. -/
structure Enrolling where
  held : Held
  up : Bool
  given : UInt8 → Option Bytes
  pending : Option (Bytes × Bytes × UInt8)

inductive RegistryAct (σ : Type) where
  /-- A capture is stored in the finger's own slot, or in the lowest unused one. -/
  | template (username finger : Bytes)
  /-- The enrolment is no longer wanted when its capture ends. -/
  | abandon
  | enrolled (io : SaveIo) (order : σ)
  | remove (io : SaveIo) (order : σ) (username finger : Bytes)
  | restart (io : SaveIo) (order : σ)

variable (parse : Bytes → Option Users)

/-- One capture at a time; `Storage::open` reads the file and saves it, and a failing one ends the daemon. -/
def registryStep (s : Enrolling) : RegistryAct σ → Option Enrolling
  | .template username finger =>
    match s.up,s.pending,(s.held.memory.getSlot username finger).or s.held.memory.allocateSlot with
    | true,none,some slot => some
        { s with
          given := Function.update s.given slot (some username)
          pending := some (username,finger,slot) }
    | _,_,_ => none
  | .abandon => if s.up then some { s with pending := none } else none
  | .enrolled io order =>
    match s.up,s.pending with
    | true,some (username,finger,slot) => some
        { s with
          held := (storageCall toVec io order (.setSlot username finger slot) s.held).1
          pending := none }
    | _,_ => none
  | .remove io order username finger =>
    if s.up then some
      { s with held := (storageCall toVec io order (.removeFinger username finger) s.held).1 }
    else none
  | .restart io order =>
    (s.held.dir.read.bind parse).map fun users =>
      { s with
        held := (save toVec io order ⟨{ s.held.memory with users := users },s.held.dir⟩).1
        up := io == .done
        pending := none }

/-- A failing write has nothing to change. -/
def Calm (s : Enrolling) : RegistryAct σ → Prop
  | .enrolled io _ =>
    io = .done ∨ ∀ username finger slot, s.pending = some (username,finger,slot) →
      Unchanging s.held.memory (.setSlot username finger slot)
  | .remove io _ username finger => io = .done ∨ Unchanging s.held.memory (.removeFinger username finger)
  | _ => True

def InStep (held : Held) : Prop :=
  ∃ back, held.dir.read.bind parse = some back ∧ rows back = rows held.memory.users

def SlotsApart (storage : Storage) : Prop :=
  ∀ u f v g slot, storage.getSlot u f = some slot → storage.getSlot v g = some slot → u = v

/-- Every slot with a row has that user's template or none of this run. -/
structure Owned (s : Enrolling) : Prop where
  apart : SlotsApart s.held.memory
  own : ∀ u f slot v, s.held.memory.getSlot u f = some slot → s.given slot = some v → v = u
  pending : ∀ u f slot, s.pending = some (u,f,slot) →
    s.given slot = some u ∧ ∀ v g, s.held.memory.getSlot v g = some slot → v = u

theorem getSlot_congr {a b : Storage} (same : rows a.users = rows b.users) (u f : Bytes) :
    a.getSlot u f = b.getSlot u f := by
  rw [getSlot_rows,getSlot_rows,same]

/-- Fewer rows, the same templates. -/
theorem Owned.shrink {s t : Enrolling} (owned : Owned s) (given : t.given = s.given)
    (pending : ∀ p, t.pending = some p → s.pending = some p)
    (fewer : ∀ u f slot, t.held.memory.getSlot u f = some slot → s.held.memory.getSlot u f = some slot) : Owned t where
  apart u f v g slot first second := owned.apart u f v g slot (fewer u f slot first) (fewer v g slot second)
  own u f slot v row now := owned.own u f slot v (fewer u f slot row) (given ▸ now)
  pending u f slot now := by
    obtain ⟨mine,others⟩ := owned.pending u f slot (pending _ now)
    exact ⟨given ▸ mine,fun v g row => others v g (fewer v g slot row)⟩

theorem Owned.template {s : Enrolling} (owned : Owned s) (username finger : Bytes) (slot : UInt8)
    (chosen : (s.held.memory.getSlot username finger).or s.held.memory.allocateSlot = some slot) :
    Owned { s with given := Function.update s.given slot (some username), pending := some (username,finger,slot) } := by
  have mine (v g : Bytes) (row : s.held.memory.getSlot v g = some slot) : v = username := by
    cases own : s.held.memory.getSlot username finger with
    | some old =>
      rw [own,Option.some_or] at chosen
      exact owned.apart v g username finger slot row (own.trans chosen)
    | none =>
      rw [own,Option.none_or] at chosen
      exact absurd row (Storage.allocateSlot_unused chosen)
  refine ⟨owned.apart,fun u f other v row now => ?_,fun u f other now => ?_⟩
  · change Function.update s.given slot (some username) other = some v at now
    by_cases same : other = slot
    · subst other
      rw [Function.update_self] at now
      rw [mine u f row,Option.some.inj now]
    · rw [Function.update_of_ne same] at now
      exact owned.own u f other v row now
  · obtain ⟨rfl,rest⟩ := Prod.mk.inj (Option.some.inj now)
    obtain ⟨rfl,rfl⟩ := Prod.mk.inj rest
    exact ⟨Function.update_self ..,mine⟩

theorem Owned.enrolled {s t : Enrolling} (owned : Owned s) (username finger : Bytes) (slot : UInt8)
    (pending : s.pending = some (username,finger,slot)) (given : t.given = s.given) (finished : t.pending = none)
    (memory : t.held.memory = s.held.memory.setSlot username finger slot) : Owned t := by
  obtain ⟨mine,others⟩ := owned.pending username finger slot pending
  -- a row of the new memory is the new one, or an old one
  have either (v g : Bytes) (n : UInt8) (row : t.held.memory.getSlot v g = some n) :
      (v = username ∧ n = slot) ∨ s.held.memory.getSlot v g = some n := by
    rw [memory] at row
    by_cases same : (v,g) = (username,finger)
    · obtain ⟨rfl,rfl⟩ := Prod.mk.inj same
      rw [Storage.getSlot_setSlot_same] at row
      exact .inl ⟨rfl,(Option.some.inj row).symm⟩
    · rw [Storage.getSlot_setSlot_other _ _ _ _ _ _ same] at row
      exact .inr row
  refine ⟨fun u f v g n first second => ?_,fun u f n v row now => ?_,fun u f n now => by simp [finished] at now⟩
  · rcases either u f n first with ⟨rfl,rfl⟩ | old
    · rcases either v g n second with ⟨rfl,_⟩ | older
      · rfl
      · exact (others v g older).symm
    · rcases either v g n second with ⟨rfl,rfl⟩ | older
      · exact others u f old
      · exact owned.apart u f v g n old older
  · rw [given] at now
    rcases either u f n row with ⟨rfl,rfl⟩ | old
    · exact Option.some.inj (now.symm.trans mine)
    · exact owned.own u f n v old now

theorem Owned.removed {s t : Enrolling} (owned : Owned s) (username finger : Bytes)
    (given : t.given = s.given) (pending : t.pending = s.pending)
    (memory : t.held.memory = s.held.memory.removeFinger username finger) : Owned t := by
  refine owned.shrink given (fun p now => pending ▸ now) fun u f slot row => ?_
  rw [memory] at row
  by_cases same : (u,f) = (username,finger)
  · obtain ⟨rfl,rfl⟩ := Prod.mk.inj same
    rw [Storage.getSlot_removeFinger_same] at row
    cases row
  · rwa [Storage.getSlot_removeFinger_other _ _ _ _ _ same] at row

/-- A save after a change keeps the file in step, if it succeeds or the change has no effect. -/
theorem InStep.save {held : Held} (known : InStep parse held) (io : SaveIo) (order : σ) (memory : Storage)
    (calm : io = .done ∨ rows memory.users = rows held.memory.users) (json : Faithful toVec parse memory.users) :
    InStep parse (save toVec io order ⟨memory,held.dir⟩).1 := by
  by_cases done : io = .done
  · subst io
    obtain ⟨back,parsed,same⟩ := json order
    exact ⟨back,by rw [(save_done toVec order _).2]; exact parsed,same⟩
  · obtain ⟨back,parsed,same⟩ := known
    have kept := (save_failed toVec io order ⟨memory,held.dir⟩ done).2
    refine ⟨back,by rw [kept]; exact parsed,?_⟩
    rw [save_memory,same]
    exact (calm.resolve_left done).symm

theorem storageCall_memory (io : SaveIo) (order : σ) (call : StorageCall) (held : Held) :
    (storageCall toVec io order call held).1.memory = call.change held.memory := by
  rw [(storageCall_run toVec io order call held).1,save_memory]

theorem InStep.call {held : Held} (known : InStep parse held) (io : SaveIo) (order : σ) (call : StorageCall)
    (calm : io = .done ∨ Unchanging held.memory call)
    (json : Faithful toVec parse (storageCall toVec io order call held).1.memory.users) :
    InStep parse (storageCall toVec io order call held).1 := by
  rw [storageCall_memory] at json
  rw [(storageCall_run toVec io order call held).1]
  exact known.save toVec parse io order _ (calm.imp_right (change_rows_iff held.memory call).mpr) json

/-- The file is in step with the memory, and no row's slot has another user's template. -/
structure Sound (s : Enrolling) : Prop where
  file : InStep parse s.held
  owned : Owned s

theorem Sound.step {s t : Enrolling} {act : RegistryAct σ} (sound : Sound parse s) (calm : Calm s act)
    (json : Faithful toVec parse t.held.memory.users) (moved : registryStep toVec parse s act = some t) :
    Sound parse t := by
  cases act with
  | template username finger =>
    simp only [registryStep] at moved
    split at moved
    · obtain rfl := Option.some.inj moved
      exact ⟨sound.file,sound.owned.template username finger _ ‹_›⟩
    · cases moved
  | abandon =>
    simp only [registryStep] at moved
    split at moved
    · obtain rfl := Option.some.inj moved
      exact ⟨sound.file,sound.owned.shrink rfl (fun _ none => by cases none) fun _ _ _ row => row⟩
    · cases moved
  | enrolled io order =>
    simp only [registryStep] at moved
    split at moved
    · rename_i username finger slot _ waiting
      obtain rfl := Option.some.inj moved
      have quiet : io = .done ∨ Unchanging s.held.memory (.setSlot username finger slot) :=
        calm.imp_right fun each => each username finger slot waiting
      exact ⟨sound.file.call toVec parse io order _ quiet json,
        sound.owned.enrolled username finger slot waiting rfl rfl (storageCall_memory ..)⟩
    · cases moved
  | remove io order username finger =>
    simp only [registryStep] at moved
    split at moved
    · obtain rfl := Option.some.inj moved
      exact ⟨sound.file.call toVec parse io order _ calm json,
        sound.owned.removed username finger rfl rfl (storageCall_memory ..)⟩
    · cases moved
  | restart io order =>
    obtain ⟨back,parsed,same⟩ := sound.file
    simp only [registryStep,parsed,Option.map_some,Option.some.injEq] at moved
    subst moved
    rw [save_memory] at json
    have reread : InStep parse ⟨{ s.held.memory with users := back },s.held.dir⟩ := ⟨back,parsed,rfl⟩
    refine ⟨reread.save toVec parse io order _ (.inr rfl) json,?_⟩
    refine sound.owned.shrink rfl (fun _ none => by cases none) fun u f slot row => ?_
    rw [save_memory] at row
    rw [← row]
    exact getSlot_congr same.symm u f

def openedRegistry (order : σ) (dir : TempRename.Dir UInt8) (storage : Storage) : Enrolling where
  held := ⟨storage,dir.replace (toVec order storage.users)⟩
  up := true
  given _ := none
  pending := none

/-- What a restart would read has no row whose slot was given to another user's template. -/
def NoneReturns (s : Enrolling) : Prop :=
  ∃ back, s.held.dir.read.bind parse = some back ∧
    ∀ u f slot v, (rows back u).bind (· f) = some slot → s.given slot = some v → v = u

theorem Sound.none_returns {s : Enrolling} (sound : Sound parse s) : NoneReturns parse s := by
  obtain ⟨back,parsed,same⟩ := sound.file
  refine ⟨back,parsed,fun u f slot v row now => sound.owned.own u f slot v ?_ now⟩
  rw [getSlot_rows,← same]
  exact row

theorem sound_opened (order : σ) (dir : TempRename.Dir UInt8) (storage : Storage) (apart : SlotsApart storage)
    (json : Faithful toVec parse storage.users) : Sound parse (openedRegistry toVec order dir storage) where
  file := by
    obtain ⟨back,parsed,same⟩ := json order
    exact ⟨back,by rw [openedRegistry,(dir.replace_spec _).2]; exact parsed,same⟩
  owned := ⟨apart,fun _ _ _ _ _ never => (by cases never),fun _ _ _ never => by cases never⟩

/-- A call whose save fails is without effect exactly if its change is; and while every failing call is, no
restart brings back a row whose slot has another user's template. -/
theorem failed_writes :
    (∀ io (order : σ) (username finger : Bytes) (slot : UInt8) (w : Held),
      ((∃ e, (setSlot toVec io order username finger slot w).2 = .error e) →
          SameRegistry (setSlot toVec io order username finger slot w).1 w) ↔
        io = .done ∨ w.memory.getSlot username finger = some slot) ∧
    (∀ io (order : σ) (username finger : Bytes) (w : Held),
      ((∃ e, (removeFinger toVec io order username finger w).2 = .error e) →
          SameRegistry (removeFinger toVec io order username finger w).1 w) ↔
        io = .done ∨ w.memory.getSlot username finger = none ∧ w.memory.users.lookup username ≠ some ∅) ∧
    ∀ (order : σ) (dir : TempRename.Dir UInt8) (storage : Storage) (actions : List (RegistryAct σ)) (s : Enrolling),
      SlotsApart storage → Faithful toVec parse storage.users →
      Transition.run (registryStep toVec parse) (openedRegistry toVec order dir storage) actions = some s →
      Transition.Along (registryStep toVec parse)
        (fun s act t => Calm s act ∧ Faithful toVec parse t.held.memory.users)
        (openedRegistry toVec order dir storage) actions →
      NoneReturns parse s := by
  refine ⟨fun io order username finger slot w => ?_,fun io order username finger w => ?_,?_⟩
  · exact failed_call_iff toVec io order (.setSlot username finger slot) w
  · have discards : (removeFinger toVec io order username finger w).1 =
        (storageCall toVec io order (.removeFinger username finger) w).1 ∧
        ((∃ e, (removeFinger toVec io order username finger w).2 = .error e) ↔
          ∃ e, (storageCall toVec io order (.removeFinger username finger) w).2 = .error e) := by
      cases io <;> simp [storageCall,removeFinger,underLock,save,bind,pure]
    rw [discards.1,discards.2]
    exact failed_call_iff toVec io order (.removeFinger username finger) w
  · intro order dir storage actions s apart json ran calm
    exact (Transition.along_invariant (Sound parse) _
      (fun _ _ _ sound now moved => sound.step toVec parse now.1 now.2 moved) _ s actions
      (sound_opened toVec parse order dir storage apart json) calm ran).none_returns parse

end

/-! ### A full disk -/

def firstRow : Storage := (⟨200,∅⟩ : Storage).setSlot (ascii "mat") (ascii "right-thumb") 0

def secondRow : Storage := firstRow.setSlot (ascii "eve") (ascii "left-thumb") 1

def rowsParse (data : Bytes) : Option Users :=
  if data = sampleText () firstRow.users then some firstRow.users
  else if data = sampleText () secondRow.users then some secondRow.users
  else none

theorem rowsParse_first : Faithful sampleText rowsParse firstRow.users := fun _ => ⟨_,if_pos rfl,rfl⟩

theorem rowsParse_second : Faithful sampleText rowsParse secondRow.users := by
  rintro ⟨⟩
  exact ⟨_,(if_neg (by decide +kernel)).trans (if_pos rfl),rfl⟩

def heldFirst : Held := ⟨firstRow,emptyDir.replace (sampleText () firstRow.users)⟩

/-- mat's finger is deleted and eve's enrolled, and neither is written. -/
def fullDisk : List (RegistryAct Unit) :=
  [.remove (.write 0) () (ascii "mat") (ascii "right-thumb"),.template (ascii "eve") (ascii "left-thumb"),
    .enrolled (.write 0) ()]

def registryRun (actions : List (RegistryAct Unit)) : Option Enrolling :=
  Transition.run (registryStep sampleText rowsParse) (openedRegistry sampleText () emptyDir firstRow) actions

/-- The failed delete leaves the memory without the row, and a restart gives mat the slot of eve's template. -/
theorem full_disk_swaps_owner :
    (∃ after e, removeFinger sampleText (.write 0) () (ascii "mat") (ascii "right-thumb") heldFirst = (after,.error e) ∧
      ¬ SameRegistry after heldFirst) ∧
    ∃ s, registryRun fullDisk = some s ∧ ∃ back, s.held.dir.read.bind rowsParse = some back ∧
      (rows back (ascii "mat")).bind (· (ascii "right-thumb")) = some 0 ∧ s.given 0 = some (ascii "eve") := by
  refine ⟨⟨_,_,rfl,fun same => ?_⟩,?_⟩
  · have absent : firstRow.getSlot (ascii "mat") (ascii "right-thumb") = none :=
      ((removeFinger_rows_iff firstRow _ _).mp same.1).1
    rw [firstRow,Storage.getSlot_setSlot_same] at absent
    cases absent
  have ends : ((registryRun fullDisk).map fun s => (s.held.dir.read,s.given 0)) =
      some (some (sampleText () firstRow.users),some (ascii "eve")) := by decide +kernel
  obtain ⟨s,ran,both⟩ := Option.map_eq_some_iff.mp ends
  obtain ⟨read,given⟩ := Prod.mk.inj both
  exact ⟨s,ran,firstRow.users,by rw [read,Option.bind_some]; exact if_pos rfl,by decide +kernel,given⟩

/-- A finger is enrolled, and a delete of one that is not there fails. -/
def harmless : List (RegistryAct Unit) :=
  [.template (ascii "eve") (ascii "left-thumb"),.enrolled .done (),
    .remove (.write 0) () (ascii "eve") (ascii "right-thumb")]

theorem failed_writes_harmless : ∃ s, registryRun harmless = some s ∧ NoneReturns rowsParse s := by
  have ends : (registryRun harmless).isSome := by decide +kernel
  obtain ⟨s,ran⟩ := Option.isSome_iff_exists.mp ends
  have apart : SlotsApart firstRow := fun u f v g slot first second => by
    have only (x h : Bytes) (row : firstRow.getSlot x h = some slot) : x = ascii "mat" := by
      by_contra other
      rw [firstRow,Storage.getSlot_setSlot_other _ _ _ _ _ _ fun same => other (Prod.mk.inj same).1] at row
      cases row
    rw [only u f first,only v g second]
  refine ⟨s,ran,(failed_writes sampleText rowsParse).2.2 () emptyDir firstRow harmless s apart rowsParse_first ran ?_⟩
  intro t given
  obtain rfl := Option.some.inj given
  refine ⟨⟨trivial,rowsParse_first⟩,fun u enrolled => ?_⟩
  obtain rfl := Option.some.inj enrolled
  refine ⟨⟨.inl rfl,rowsParse_second⟩,fun v removed => ?_⟩
  obtain rfl := Option.some.inj removed
  have kept : (secondRow.users.lookup (ascii "eve")).map (·.entries.length) = some 1 := by decide +kernel
  have absent : Unchanging secondRow (.removeFinger (ascii "eve") (ascii "right-thumb")) :=
    ⟨by decide +kernel,fun empty => by rw [empty] at kept; cases kept⟩
  exact ⟨⟨.inr absent,rowsParse_second⟩,trivial⟩

end R503.Fprint.RegistryFailure
