import R503.Registry
import R503.TempRename

/-! Concurrent changes of the registry and users.json (storage.rs). Each call changes the memory
under the write lock, then takes a snapshot and replaces the file, outside any lock. -/
namespace R503.Fprint

open Text

abbrev Users := AList fun _ : Bytes => AList fun _ : Bytes => UInt8

def rows (users : Users) (username : Bytes) : Option (Bytes → Option UInt8) :=
  (users.lookup username).map fun fingers finger => fingers.lookup finger

inductive StorageCall where
  | setSlot (username finger : Bytes) (slot : UInt8)
  | removeFinger (username finger : Bytes)

def StorageCall.change : StorageCall → Storage → Storage
  | .setSlot username finger slot,storage => storage.setSlot username finger slot
  | .removeFinger username finger,storage => storage.removeFinger username finger

structure Saving (ι : Type*) where
  memory : Storage
  changed : ι → Bool
  files : TempRename.State ι UInt8

inductive SaveAct (ι σ : Type*) where
  | change (i : ι)
  | snapshot (i : ι) (order : σ)
  | io (i : ι) (act : TempRename.Io)

section

variable {ι σ : Type*} (calls : ι → StorageCall) (toVec : σ → Users → Bytes)

/-- One step of one call: the change, the snapshot as `to_vec_pretty` writes the map in some order, or a file
operation. -/
def saveStep [DecidableEq ι] (s : Saving ι) : SaveAct ι σ → Option (Saving ι)
  | .change i =>
    if s.changed i then none
    else some { s with memory := (calls i).change s.memory, changed := Function.update s.changed i true }
  | .snapshot i order =>
    if s.changed i then
      (TempRename.step s.files (.start i (toVec order s.memory.users))).map fun files => { s with files }
    else none
  | .io i act => (TempRename.step s.files (.io i act)).map fun files => { s with files }

/-- `Storage::open` has saved what it read before any clone exists. -/
def openedStorage (order : σ) (dir : TempRename.Dir UInt8) (storage : Storage) : Saving ι where
  memory := storage
  changed _ := false
  files := ⟨dir.replace (toVec order storage.users),fun _ => .idle⟩

def changes (actions : List (SaveAct ι σ)) : List ι :=
  actions.filterMap fun act =>
    match act with
    | .change i => some i
    | _ => none

def renamers (actions : List (SaveAct ι σ)) : List ι :=
  actions.filterMap fun act =>
    match act with
    | .io i .rename => some i
    | _ => none

def applyCalls (storage : Storage) (order : List ι) : Storage :=
  order.foldl (fun memory i => (calls i).change memory) storage

def replay (storage : Storage) (actions : List (SaveAct ι σ)) : Storage :=
  applyCalls calls storage (changes actions)

def fileOps : Storage → List (SaveAct ι σ) → List (TempRename.Op ι UInt8)
  | _,[] => []
  | memory,.change i :: rest => fileOps ((calls i).change memory) rest
  | memory,.snapshot i order :: rest => .start i (toVec order memory.users) :: fileOps memory rest
  | memory,.io i act :: rest => .io i act :: fileOps memory rest

theorem files_run [DecidableEq ι] (s t : Saving ι) (actions : List (SaveAct ι σ))
    (ran : Transition.run (saveStep calls toVec) s actions = some t) :
    Transition.run TempRename.step s.files (fileOps calls toVec s.memory actions) = some t.files := by
  induction actions generalizing s with
  | nil =>
    obtain rfl := Option.some.inj ran
    rfl
  | cons act rest ih =>
    obtain ⟨u,moved,later⟩ := (Transition.run_cons _ s t act rest).mp ran
    have tail := ih u later
    cases act with
    | change i =>
      simp only [saveStep] at moved
      split at moved
      · cases moved
      · obtain rfl := Option.some.inj moved
        exact tail
    | snapshot i order =>
      simp only [saveStep] at moved
      split at moved
      · obtain ⟨files,started,rfl⟩ := Option.map_eq_some_iff.mp moved
        exact (Transition.run_cons _ _ _ _ _).mpr ⟨files,started,tail⟩
      · cases moved
    | io i act =>
      obtain ⟨files,done,rfl⟩ := Option.map_eq_some_iff.mp moved
      exact (Transition.run_cons _ _ _ _ _).mpr ⟨files,done,tail⟩

theorem renames_fileOps (memory : Storage) (actions : List (SaveAct ι σ)) :
    TempRename.renames (fileOps calls toVec memory actions) = renamers actions := by
  induction actions generalizing memory with
  | nil => rfl
  | cons act rest ih =>
    cases act with
    | change i => exact ih _
    | snapshot i order => exact ih _
    | io i act =>
      have tail := ih memory
      cases act with
      | rename => exact congrArg (List.cons i) tail
      | openTemp | write | sync | fail => exact tail

/-- A snapshot in a list is its head or lies in its tail. -/
theorem snapshot_cons (act : SaveAct ι σ) (rest : List (SaveAct ι σ)) (i : ι)
    (P : List (SaveAct ι σ) → σ → Prop) :
    (∃ before order after, act :: rest = before ++ .snapshot i order :: after ∧ P before order) ↔
      (∃ order, act = .snapshot i order ∧ P [] order) ∨
        ∃ before order after, rest = before ++ .snapshot i order :: after ∧ P (act :: before) order := by
  constructor
  · rintro ⟨before,order,after,same,holds⟩
    cases before with
    | nil =>
      obtain ⟨rfl,_⟩ := List.cons.inj same
      exact Or.inl ⟨order,rfl,holds⟩
    | cons first before =>
      obtain ⟨rfl,tail⟩ := List.cons.inj same
      exact Or.inr ⟨before,order,after,tail,holds⟩
  · rintro (⟨order,rfl,holds⟩ | ⟨before,order,after,rfl,holds⟩)
    · exact ⟨[],order,rest,rfl,holds⟩
    · exact ⟨act :: before,order,after,rfl,holds⟩

/-- A writer starts with the snapshot its call took. -/
theorem start_mem_fileOps (memory : Storage) (actions : List (SaveAct ι σ)) (i : ι) (data : Bytes) :
    .start i data ∈ fileOps calls toVec memory actions ↔
      ∃ before order after, actions = before ++ .snapshot i order :: after ∧
        data = toVec order (replay calls memory before).users := by
  induction actions generalizing memory with
  | nil => simp [fileOps]
  | cons act rest ih =>
    rw [snapshot_cons act rest i fun before order =>
      data = toVec order (replay calls memory before).users]
    cases act with
    | change k =>
      rw [fileOps,ih]
      refine ⟨Or.inr,fun either => either.resolve_left ?_⟩
      rintro ⟨_,impossible,_⟩
      cases impossible
    | snapshot k order =>
      rw [fileOps,List.mem_cons,ih]
      refine or_congr ⟨fun same => ?_,?_⟩ Iff.rfl
      · cases same
        exact ⟨order,rfl,rfl⟩
      · rintro ⟨_,same,rfl⟩
        cases same
        rfl
    | io k op =>
      rw [fileOps,List.mem_cons,ih]
      refine or_congr ⟨fun same => (by cases same),?_⟩ Iff.rfl
      rintro ⟨_,impossible,_⟩
      cases impossible

/-! ### The memory -/

structure Replayed (storage : Storage) (actions : List (SaveAct ι σ)) (s : Saving ι) : Prop where
  memory : s.memory = replay calls storage actions
  changed : ∀ i, s.changed i = true ↔ i ∈ changes actions
  once : (changes actions).Nodup
  after : ∀ i, s.files.writers i ≠ .idle → i ∈ changes actions

theorem changes_append (first second : List (SaveAct ι σ)) :
    changes (first ++ second) = changes first ++ changes second := List.filterMap_append ..

theorem Replayed.files {storage : Storage} {actions : List (SaveAct ι σ)} {s : Saving ι}
    (replayed : Replayed calls storage actions s) (act : SaveAct ι σ) (quiet : changes [act] = [])
    (files : TempRename.State ι UInt8)
    (after : ∀ i, files.writers i ≠ .idle → s.files.writers i ≠ .idle ∨ i ∈ changes actions) :
    Replayed calls storage (actions ++ [act]) { s with files } where
  memory := by rw [replay,changes_append,quiet,List.append_nil]; exact replayed.memory
  changed := by rw [changes_append,quiet,List.append_nil]; exact replayed.changed
  once := by rw [changes_append,quiet,List.append_nil]; exact replayed.once
  after i busy := by
    rw [changes_append,quiet,List.append_nil]
    exact (after i busy).elim (replayed.after i) id

theorem Replayed.step [DecidableEq ι] {storage : Storage} {actions : List (SaveAct ι σ)} {s t : Saving ι} {act : SaveAct ι σ}
    (replayed : Replayed calls storage actions s) (moved : saveStep calls toVec s act = some t) :
    Replayed calls storage (actions ++ [act]) t := by
  cases act with
  | change i =>
    simp only [saveStep] at moved
    split at moved
    · cases moved
    rename_i fresh
    obtain rfl := Option.some.inj moved
    have absent : i ∉ changes actions := fun member => fresh ((replayed.changed i).mpr member)
    have grown : changes (actions ++ [.change i]) = changes actions ++ [i] := changes_append ..
    refine ⟨?_,fun j => ?_,?_,fun j busy => ?_⟩
    · rw [replay,grown,applyCalls,List.foldl_append,replayed.memory]
      rfl
    · rw [grown,List.mem_append,List.mem_singleton,← replayed.changed j]
      by_cases same : j = i
      · simp [same]
      · simp [same]
    · rw [grown]
      exact List.nodup_append.mpr ⟨replayed.once,List.nodup_singleton i,fun a member b single => by
        rw [List.mem_singleton.mp single]
        rintro rfl
        exact absent member⟩
    · rw [grown]
      exact List.mem_append_left _ (replayed.after j busy)
  | snapshot i order =>
    simp only [saveStep] at moved
    split at moved
    · rename_i ready
      obtain ⟨files,started,rfl⟩ := Option.map_eq_some_iff.mp moved
      refine replayed.files calls _ rfl files fun j busy => ?_
      by_cases same : j = i
      · rw [same]
        exact Or.inr ((replayed.changed i).mp ready)
      · rw [(TempRename.moves_of_step started).other j same] at busy
        exact Or.inl busy
    · cases moved
  | io i op =>
    obtain ⟨files,done,rfl⟩ := Option.map_eq_some_iff.mp moved
    refine replayed.files calls _ (by cases op <;> rfl) files fun j busy => Or.inl fun idle => busy ?_
    exact (TempRename.moves_of_step done).stays_idle j idle

theorem replayed_run [DecidableEq ι] (order : σ) (dir : TempRename.Dir UInt8) (storage : Storage)
    (actions : List (SaveAct ι σ)) (s : Saving ι)
    (ran : Transition.run (saveStep calls toVec) (openedStorage toVec order dir storage) actions = some s) :
    Replayed calls storage actions s := by
  refine Transition.history_invariant _ (Replayed calls storage) ?_
    (fun _ _ _ _ replayed _ moved => replayed.step calls toVec moved) actions s ran
  exact ⟨rfl,fun i => by simp [openedStorage,changes],List.nodup_nil,fun i busy => absurd rfl busy⟩

/-! ### The file -/

section

variable [DecidableEq ι]

def changesBefore (i : ι) : List (SaveAct ι σ) → List ι
  | [] => []
  | .change k :: rest => k :: changesBefore i rest
  | .snapshot k _ :: rest => if k = i then [] else changesBefore i rest
  | .io _ _ :: rest => changesBefore i rest

theorem changesBefore_split (i : ι) (order : σ) (before after : List (SaveAct ι σ)) :
    ∃ first own later, before ++ .snapshot i order :: after = first ++ .snapshot i own :: later ∧
      changesBefore i (before ++ .snapshot i order :: after) = changes first := by
  induction before with
  | nil => exact ⟨[],order,after,rfl,by simp [changesBefore,changes]⟩
  | cons act before ih =>
    obtain ⟨first,own,later,same,found⟩ := ih
    cases act with
    | change k => exact ⟨.change k :: first,own,later,congrArg _ same,congrArg (List.cons k) found⟩
    | io k op => exact ⟨.io k op :: first,own,later,congrArg _ same,found⟩
    | snapshot k other =>
      by_cases here : k = i
      · subst k
        exact ⟨[],other,before ++ .snapshot i order :: after,rfl,by simp [changesBefore,changes]⟩
      · exact ⟨.snapshot k other :: first,own,later,congrArg _ same,
          (if_neg here).trans found⟩

/-- Reading back what was written gives the same map. -/
def Faithful (parse : Bytes → Option Users) (users : Users) : Prop :=
  ∀ order, ∃ back, parse (toVec order users) = some back ∧ rows back = rows users

/-- The file parses and equals the memory, and the memory is the calls' changes in some order. -/
structure Durable (parse : Bytes → Option Users) (storage : Storage) (s : Saving ι) : Prop where
  file : ∃ data users, s.files.dir.read = some data ∧ parse data = some users ∧
    rows users = rows s.memory.users
  sequential : ∃ order : List ι, order.Nodup ∧ (∀ i, i ∈ order) ∧ s.memory = applyCalls calls storage order

/-- What was changed after the snapshot that is renamed last leaves the registry as it was. -/
def Current (storage : Storage) (actions : List (SaveAct ι σ)) : Prop :=
  ∀ i, (renamers actions).getLast? = some i →
    rows (applyCalls calls storage (changesBefore i actions)).users =
      rows (replay calls storage actions).users

/-- When every call has returned, the file is the snapshot of the call that renamed last. -/
theorem file_read (order : σ) (dir : TempRename.Dir UInt8) (storage : Storage) (actions : List (SaveAct ι σ))
    (s : Saving ι)
    (ran : Transition.run (saveStep calls toVec) (openedStorage toVec order dir storage) actions = some s)
    (returned : ∀ i, s.files.writers i = .done) :
    ∃ before own, before <+: actions ∧ s.files.dir.read = some (toVec own (replay calls storage before).users) ∧
      match (renamers actions).getLast? with
      | none => changes before = [] ∧ IsEmpty ι
      | some i => changes before = changesBefore i actions := by
  obtain ⟨gone,held⟩ := dir.replace_spec (toVec order storage.users)
  have idle (i : ι) : (openedStorage toVec order dir storage).files.writers i = .idle := rfl
  have files : Transition.run TempRename.step _ (fileOps calls toVec storage actions) = some s.files :=
    files_run calls toVec _ s actions ran
  have history := TempRename.history_run idle gone held files
  obtain ⟨data,read,published⟩ := TempRename.settled idle gone held files fun i => Or.inr (returned i)
  simp only [TempRename.Published,renames_fileOps] at published
  cases last : (renamers actions).getLast? with
  | none =>
    simp only [last] at published
    refine ⟨[],order,List.nil_prefix,?_,rfl,⟨fun i => ?_⟩⟩
    · rw [read,published]
      rfl
    · have finished := history.finished i (returned i)
      rw [renames_fileOps,List.getLast?_eq_none_iff.mp last] at finished
      cases finished
  | some i =>
    simp only [last] at published
    obtain ⟨before,own,after,same,_⟩ := (start_mem_fileOps calls toVec _ _ i data).mp published
    obtain ⟨first,taken,later,split,found⟩ := changesBefore_split i own before after
    rw [← same] at split found
    have started := (start_mem_fileOps calls toVec storage actions i _).mpr ⟨first,taken,later,split,rfl⟩
    refine ⟨first,taken,⟨_,split.symm⟩,?_,found.symm⟩
    rw [read,history.once i data _ published started]

/-- Concurrent calls that all return leave the memory as if they had run one after the other, and a file that
parses; the file is the memory exactly when the snapshot renamed last misses no change that matters. -/
theorem registry_durable_iff (parse : Bytes → Option Users) (order : σ) (dir : TempRename.Dir UInt8)
    (storage : Storage) (actions : List (SaveAct ι σ)) (s : Saving ι)
    (ran : Transition.run (saveStep calls toVec) (openedStorage toVec order dir storage) actions = some s)
    (returned : ∀ i, s.files.writers i = .done)
    (json : ∀ before, before <+: actions → Faithful toVec parse (replay calls storage before).users) :
    Durable calls parse storage s ↔ Current calls storage actions := by
  have replayed := replayed_run calls toVec order dir storage actions s ran
  obtain ⟨before,own,within,read,which⟩ := file_read calls toVec order dir storage actions s ran returned
  obtain ⟨back,parsed,same⟩ := json before within own
  have file : (∃ data users, s.files.dir.read = some data ∧ parse data = some users ∧
      rows users = rows s.memory.users) ↔
      rows (replay calls storage before).users = rows (replay calls storage actions).users := by
    rw [← same,← replayed.memory]
    constructor
    · rintro ⟨data,users,held,given,equal⟩
      obtain rfl := Option.some.inj (read.symm.trans held)
      obtain rfl := Option.some.inj (parsed.symm.trans given)
      exact equal
    · exact fun equal => ⟨_,back,read,parsed,equal⟩
  have current : Current calls storage actions ↔
      rows (replay calls storage before).users = rows (replay calls storage actions).users := by
    unfold Current
    cases last : (renamers actions).getLast? with
    | none =>
      simp only [last] at which
      have nobody : changes actions = [] := List.eq_nil_iff_forall_not_mem.mpr fun i _ => which.2.elim i
      simp [replay,which.1,nobody]
    | some i =>
      simp only [last] at which
      simp only [Option.some.injEq,forall_eq',replay,which]
  rw [current,← file]
  refine ⟨Durable.file,fun holds => ⟨holds,changes actions,replayed.once,fun i => ?_,replayed.memory⟩⟩
  exact replayed.after i (by simp [returned i])

end

end

/-! ### Two calls -/

def sampleCalls : Fin 2 → StorageCall
  | 0 => .setSlot (ascii "mat") (ascii "left-thumb") 4
  | 1 => .removeFinger (ascii "mat") (ascii "right-thumb")

def sampleFingers (fingers : List (Bytes × UInt8)) : Bytes :=
  ((fingers.map fun row => ascii "      \"" ++ row.1 ++ ascii "\": " ++ Decimal.render row.2.toNat).intersperse
    (ascii ",\n")).flatten

def sampleText (_ : Unit) (users : Users) : Bytes :=
  ascii "\x7b\n  \"users\": \x7b\n" ++
    ((users.entries.map fun user => ascii "    \"" ++ user.1 ++ ascii "\": \x7b\n" ++
      sampleFingers (user.2.entries.map fun row => (row.1,row.2)) ++ ascii "\n    \x7d").intersperse
        (ascii ",\n")).flatten ++ ascii "\n  \x7d\n\x7d"

def sampleUsers (order : List (Fin 2)) : Users := (applyCalls sampleCalls Storage.oneRow order).users

def sampleParse (data : Bytes) : Option Users :=
  if data = sampleText () (sampleUsers []) then some (sampleUsers [])
  else if data = sampleText () (sampleUsers [0]) then some (sampleUsers [0])
  else if data = sampleText () (sampleUsers [0,1]) then some (sampleUsers [0,1])
  else none

def emptyDir : TempRename.Dir UInt8 :=
  ⟨fun _ => [],0,none,none,fun _ absent => (by cases absent),fun _ absent => (by cases absent),
    fun _ absent => (by cases absent)⟩

def sampleIo (i : Fin 2) (order : List (Fin 2)) : List (SaveAct (Fin 2) Unit) :=
  [.io i .openTemp,.io i (.write (sampleText () (sampleUsers order)).length),.io i .sync,.io i .rename]

theorem sampleParse_text (order : List (Fin 2)) (known : order <+: [0,1]) :
    Faithful sampleText sampleParse (sampleUsers order) := by
  rintro ⟨⟩
  refine ⟨sampleUsers order,?_,rfl⟩
  have three : order = [] ∨ order = [0] ∨ order = [0,1] := by
    simp only [List.prefix_cons_iff,List.prefix_nil] at known
    rcases known with rfl | ⟨_,rfl,rfl | ⟨_,rfl,rfl⟩⟩
    · exact Or.inl rfl
    · exact Or.inr (Or.inl rfl)
    · exact Or.inr (Or.inr rfl)
  rcases three with rfl | rfl | rfl
  · exact if_pos rfl
  · exact (if_neg (by decide +kernel)).trans (if_pos rfl)
  · exact (if_neg (by decide +kernel)).trans ((if_neg (by decide +kernel)).trans (if_pos rfl))

/-- A delete that comes between the snapshot and the rename of an enrolment: the file keeps up. -/
def inOrder : List (SaveAct (Fin 2) Unit) :=
  [.change 0,.snapshot 0 (),.change 1] ++ sampleIo 0 [0] ++ [.snapshot 1 ()] ++ sampleIo 1 [0,1]

/-- The same two calls with the delete's file written first. -/
def overtaken : List (SaveAct (Fin 2) Unit) :=
  [.change 0,.snapshot 0 (),.change 1,.snapshot 1 ()] ++ sampleIo 1 [0,1] ++ sampleIo 0 [0]

def sampleRun (actions : List (SaveAct (Fin 2) Unit)) : Option (Saving (Fin 2)) :=
  Transition.run (saveStep sampleCalls sampleText) (openedStorage sampleText () emptyDir Storage.oneRow) actions

theorem registry_durable_inOrder :
    ∃ s, sampleRun inOrder = some s ∧ Durable sampleCalls sampleParse Storage.oneRow s := by
  have ends : ((sampleRun inOrder).map fun s => (s.files.writers 0,s.files.writers 1)) =
      some (.done,.done) := by decide +kernel
  obtain ⟨s,ran,both⟩ := Option.map_eq_some_iff.mp ends
  obtain ⟨first,second⟩ := Prod.mk.inj both
  refine ⟨s,ran,(registry_durable_iff sampleCalls sampleText sampleParse () emptyDir Storage.oneRow inOrder s ran
    ?_ ?_).mpr ?_⟩
  · intro i
    match i with
    | 0 => exact first
    | 1 => exact second
  · intro before within
    exact sampleParse_text (changes before) (within.filterMap _)
  · intro i last
    obtain rfl : 1 = i := Option.some.inj last
    rfl

/-- Both calls return, and the file still has the finger that was removed. -/
theorem overtaken_not_durable : ∃ s, sampleRun overtaken = some s ∧ (∀ i, s.files.writers i = .done) ∧
    ¬ Durable sampleCalls sampleParse Storage.oneRow s := by
  have ends : ((sampleRun overtaken).map fun s => (s.files.writers 0,s.files.writers 1,s.files.dir.read,
      s.memory.getSlot (ascii "mat") (ascii "right-thumb"))) =
      some (.done,.done,some (sampleText () (sampleUsers [0])),none) := by decide +kernel
  obtain ⟨s,ran,all⟩ := Option.map_eq_some_iff.mp ends
  simp only [Prod.mk.injEq] at all
  obtain ⟨first,second,held,gone⟩ := all
  refine ⟨s,ran,fun i => ?_,fun durable => ?_⟩
  · match i with
    | 0 => exact first
    | 1 => exact second
  · obtain ⟨data,users,read,parsed,same⟩ := durable.file
    obtain rfl := Option.some.inj (held.symm.trans read)
    have text : sampleParse (sampleText () (sampleUsers [0])) = some (sampleUsers [0]) :=
      (if_neg (by decide +kernel)).trans (if_pos rfl)
    obtain rfl := Option.some.inj (text.symm.trans parsed)
    have kept : (rows (sampleUsers [0]) (ascii "mat")).bind (fun row => row (ascii "right-thumb")) = some 3 := by
      decide +kernel
    rw [same,rows,Option.bind_map] at kept
    exact absurd (gone.symm.trans kept) (by simp)

end R503.Fprint
