import R503.Transition
import Mathlib.Logic.Function.Basic

/-! Writers that replace one file through one shared temporary name: each opens it, created or
truncated, writes its data, closes it and renames it over the target. A name refers to a
node, and a writer keeps the node it opened whatever becomes of the names. -/
namespace TempRename

structure Dir (β : Type*) where
  content : Nat → List β
  next : Nat
  temp : Option Nat
  target : Option Nat
  tempOld : ∀ node, temp = some node → node < next
  targetOld : ∀ node, target = some node → node < next
  apart : ∀ node, temp = some node → target ≠ some node

/-- Data written at an offset: a gap before it reads as the default value. -/
def overwrite [Inhabited β] (old : List β) (offset : Nat) (data : List β) : List β :=
  (old ++ List.replicate (offset - old.length) default).take offset ++ data ++
    old.drop (offset + data.length)

namespace Dir

def openTemp (d : Dir β) : Dir β × Nat :=
  match named : d.temp with
  | some node => ({ d with content := Function.update d.content node [] },node)
  | none =>
    ({ content := Function.update d.content d.next []
       next := d.next + 1
       temp := some d.next
       target := d.target
       tempOld := fun node same => by
         obtain rfl := Option.some.inj same
         exact Nat.lt_succ_self _
       targetOld := fun node same => Nat.lt_succ_of_lt (d.targetOld node same)
       apart := fun node same old => by
         obtain rfl := Option.some.inj same
         exact Nat.lt_irrefl _ (d.targetOld _ old) },d.next)

def write [Inhabited β] (d : Dir β) (node offset : Nat) (data : List β) : Dir β :=
  { d with content := Function.update d.content node (overwrite (d.content node) offset data) }

def rename (d : Dir β) : Option (Dir β) :=
  match named : d.temp with
  | none => none
  | some node => some
      { d with
        temp := none
        target := some node
        tempOld := fun _ absent => by cases absent
        targetOld := fun _ same => d.tempOld _ (named.trans same)
        apart := fun _ absent => by cases absent }

def read (d : Dir β) : Option (List β) := d.target.map d.content

def replace [Inhabited β] (d : Dir β) (data : List β) : Dir β :=
  let opened := d.openTemp
  let written := opened.1.write opened.2 0 data
  written.rename.getD written

theorem openTemp_temp (d : Dir β) : d.openTemp.1.temp = some d.openTemp.2 := by
  unfold openTemp
  split
  · assumption
  · rfl

theorem openTemp_content (d : Dir β) : d.openTemp.1.content d.openTemp.2 = [] := by
  unfold openTemp
  split <;> exact Function.update_self ..

theorem rename_eq_some (d e : Dir β) (moved : d.rename = some e) :
    ∃ node, d.temp = some node ∧ e.temp = none ∧ e.read = some (d.content node) := by
  unfold rename at moved
  split at moved
  · cases moved
  · rename_i node named
    obtain rfl := Option.some.inj moved
    exact ⟨node,named,rfl,rfl⟩

theorem rename_none (d : Dir β) (absent : d.rename = none) : d.temp = none := by
  unfold rename at absent
  split at absent
  · assumption
  · cases absent

theorem read_frame (d e : Dir β) (same : e.target = d.target)
    (kept : ∀ node, d.target = some node → e.content node = d.content node) : e.read = d.read := by
  rw [read,read,same]
  cases old : d.target with
  | none => rfl
  | some node => exact congrArg some (kept node old)

theorem read_openTemp (d : Dir β) : d.openTemp.1.read = d.read := by
  apply read_frame
  · unfold openTemp
    split <;> rfl
  · intro node old
    unfold openTemp
    split
    · rename_i temp named
      have different : node ≠ temp := fun same => d.apart temp named (same ▸ old)
      exact Function.update_of_ne different ..
    · exact Function.update_of_ne (Nat.ne_of_lt (d.targetOld node old)) ..

theorem read_write [Inhabited β] (d : Dir β) (node offset : Nat) (data : List β) (named : d.temp = some node) :
    (d.write node offset data).read = d.read := by
  refine read_frame d (d.write node offset data) rfl fun other old => ?_
  have different : other ≠ node := fun same => d.apart node named (same ▸ old)
  exact Function.update_of_ne different ..

theorem overwrite_end [Inhabited β] (old data : List β) : overwrite old old.length data = old ++ data := by
  simp [overwrite]

theorem write_content [Inhabited β] (d : Dir β) (node : Nat) (data : List β) :
    (d.write node (d.content node).length data).content node = d.content node ++ data := by
  simp only [write,Function.update_self,overwrite_end]

/-- An undisturbed replacement gives the target its data and consumes the temporary name. -/
theorem replace_spec [Inhabited β] (d : Dir β) (data : List β) :
    (d.replace data).temp = none ∧ (d.replace data).read = some data := by
  simp only [replace]
  generalize opened : d.openTemp = e
  have named : e.1.temp = some e.2 := opened ▸ d.openTemp_temp
  have empty : e.1.content e.2 = [] := opened ▸ d.openTemp_content
  have content := write_content e.1 e.2 data
  rw [empty,List.length_nil,List.nil_append] at content
  cases moved : (e.1.write e.2 0 data).rename with
  | none => cases (rename_none _ moved).symm.trans named
  | some renamed =>
    obtain ⟨node,same,gone,held⟩ := rename_eq_some _ _ moved
    obtain rfl := Option.some.inj (same.symm.trans named)
    exact ⟨gone,held.trans (congrArg some content)⟩

end Dir

/-! ### Writers -/

inductive Writer (β : Type*) where
  | idle
  | ready (data : List β)
  | writing (data : List β) (node offset : Nat)
  | closed (data : List β)
  | done
  | failed
  deriving DecidableEq

inductive Io where
  | openTemp
  | write (length : Nat)
  | sync
  | rename
  | fail

inductive Op (ι β : Type*) where
  | start (i : ι) (data : List β)
  | io (i : ι) (act : Io)

def Op.actor : Op ι β → ι
  | .start i _ => i
  | .io i _ => i

structure State (ι β : Type*) where
  dir : Dir β
  writers : ι → Writer β

section

variable {ι β : Type*} [DecidableEq ι]

def State.put (s : State ι β) (i : ι) (dir : Dir β) (w : Writer β) : State ι β :=
  ⟨dir,Function.update s.writers i w⟩

/-- A write takes a part of what is left, the sync and close come after the last one, and an error can end
every operation. -/
def ioStep [Inhabited β] (s : State ι β) (i : ι) : Io → Option (State ι β)
  | .openTemp =>
    match s.writers i with
    | .ready data => some (s.put i s.dir.openTemp.1 (.writing data s.dir.openTemp.2 0))
    | _ => none
  | .write length =>
    match s.writers i with
    | .writing data node offset =>
      if 0 < length ∧ offset + length ≤ data.length then
        some (s.put i (s.dir.write node offset ((data.drop offset).take length))
          (.writing data node (offset + length)))
      else none
    | _ => none
  | .sync =>
    match s.writers i with
    | .writing data _ offset => if offset = data.length then some (s.put i s.dir (.closed data)) else none
    | _ => none
  | .rename =>
    match s.writers i with
    | .closed _ => s.dir.rename.map fun dir => s.put i dir .done
    | _ => none
  | .fail =>
    match s.writers i with
    | .ready _ | .writing _ _ _ | .closed _ => some (s.put i s.dir .failed)
    | _ => none

def step [Inhabited β] (s : State ι β) : Op ι β → Option (State ι β)
  | .start i data =>
    match s.writers i with
    | .idle => some (s.put i s.dir (.ready data))
    | _ => none
  | .io i act => ioStep s i act

inductive Moves [Inhabited β] (s : State ι β) : Op ι β → State ι β → Prop
  | start (i : ι) (data : List β) (idle : s.writers i = .idle) :
      Moves s (.start i data) (s.put i s.dir (.ready data))
  | openTemp (i : ι) (data : List β) (ready : s.writers i = .ready data) :
      Moves s (.io i .openTemp) (s.put i s.dir.openTemp.1 (.writing data s.dir.openTemp.2 0))
  | write (i : ι) (length : Nat) (data : List β) (node offset : Nat)
      (writing : s.writers i = .writing data node offset) (room : offset + length ≤ data.length) :
      Moves s (.io i (.write length)) (s.put i (s.dir.write node offset ((data.drop offset).take length))
        (.writing data node (offset + length)))
  | sync (i : ι) (data : List β) (node : Nat) (writing : s.writers i = .writing data node data.length) :
      Moves s (.io i .sync) (s.put i s.dir (.closed data))
  | rename (i : ι) (data : List β) (dir : Dir β) (closed : s.writers i = .closed data)
      (moved : s.dir.rename = some dir) : Moves s (.io i .rename) (s.put i dir .done)
  | fail (i : ι) (started : s.writers i ≠ .idle) : Moves s (.io i .fail) (s.put i s.dir .failed)

theorem moves_of_step [Inhabited β] {s t : State ι β} {op : Op ι β} (moved : step s op = some t) : Moves s op t := by
  cases op with
  | start i data =>
    simp only [step] at moved
    split at moved
    · rename_i idle
      exact Option.some.inj moved ▸ .start i data idle
    · cases moved
  | io i act =>
    cases act with
    | openTemp =>
      simp only [step,ioStep] at moved
      split at moved
      · rename_i data ready
        exact Option.some.inj moved ▸ .openTemp i data ready
      · cases moved
    | write length =>
      simp only [step,ioStep] at moved
      split at moved
      · rename_i data node offset writing
        split at moved
        · rename_i part
          exact Option.some.inj moved ▸ .write i length data node offset writing part.2
        · cases moved
      · cases moved
    | sync =>
      simp only [step,ioStep] at moved
      split at moved
      · rename_i data node offset writing
        split at moved
        · rename_i whole
          subst whole
          exact Option.some.inj moved ▸ .sync i data node writing
        · cases moved
      · cases moved
    | rename =>
      simp only [step,ioStep] at moved
      split at moved
      · rename_i data closed
        obtain ⟨dir,renamed,same⟩ := Option.map_eq_some_iff.mp moved
        exact same ▸ .rename i data dir closed renamed
      · cases moved
    | fail =>
      simp only [step,ioStep] at moved
      split at moved
      all_goals first
        | cases moved
          done
        | rename_i started
          exact Option.some.inj moved ▸ .fail i (by simp [started])

/-! ### Sections

From its open to its rename a writer holds the temporary name. -/

def Writer.Holds : Writer β → Prop
  | .writing _ _ _ => True
  | .closed _ => True
  | _ => False

@[simp] theorem put_same (s : State ι β) (i : ι) (dir : Dir β) (w : Writer β) :
    (s.put i dir w).writers i = w := Function.update_self ..

@[simp] theorem put_other (s : State ι β) (i j : ι) (dir : Dir β) (w : Writer β) (other : j ≠ i) :
    (s.put i dir w).writers j = s.writers j := Function.update_of_ne other ..

/-- A run that has come here cannot end with every writer done. -/
inductive Spoilt (s : State ι β) : Prop
  | failed (i : ι) (here : s.writers i = .failed)
  | two (i j : ι) (different : i ≠ j) (first : (s.writers i).Holds) (second : (s.writers j).Holds)
  | orphan (i : ι) (holder : (s.writers i).Holds) (gone : s.dir.temp = none)

/-- At most one writer is in its section, and what it has written is in the node it opened. -/
inductive Sections (s : State ι β) : Prop
  | free (gone : s.dir.temp = none) (nobody : ∀ j, ¬ (s.writers j).Holds)
  | writing (i : ι) (data : List β) (node offset : Nat) (here : s.writers i = .writing data node offset)
      (alone : ∀ j, (s.writers j).Holds → j = i) (named : s.dir.temp = some node)
      (content : s.dir.content node = data.take offset) (within : offset ≤ data.length)
  | closed (i : ι) (data : List β) (node : Nat) (here : s.writers i = .closed data)
      (alone : ∀ j, (s.writers j).Holds → j = i) (named : s.dir.temp = some node)
      (content : s.dir.content node = data)

theorem Moves.other [Inhabited β] {s t : State ι β} {op : Op ι β} (moves : Moves s op t) (j : ι)
    (different : j ≠ op.actor) : t.writers j = s.writers j := by
  cases moves <;> exact put_other _ _ _ _ _ different

theorem Moves.failed [Inhabited β] {s t : State ι β} {op : Op ι β} (moves : Moves s op t) (j : ι)
    (here : s.writers j = .failed) : t.writers j = .failed := by
  by_cases same : j = op.actor
  · subst same
    cases moves with
    | start i data idle => cases here.symm.trans idle
    | openTemp i data ready => cases here.symm.trans ready
    | write i length data node offset writing => cases here.symm.trans writing
    | sync i data node writing => cases here.symm.trans writing
    | rename i data dir closed => cases here.symm.trans closed
    | fail i => exact put_same ..
  · exact (moves.other j same).trans here

/-- A holder keeps its section until it renames or fails. -/
theorem Moves.holds [Inhabited β] {s t : State ι β} {op : Op ι β} (moves : Moves s op t) (j : ι)
    (holder : (s.writers j).Holds) :
    (t.writers j).Holds ∨ t.writers j = .failed ∨ (op = .io j .rename ∧ t.dir.temp = none) := by
  by_cases same : j = op.actor
  · subst same
    cases moves with
    | start i data idle =>
      rw [Op.actor,idle] at holder
      exact holder.elim
    | openTemp i data ready =>
      rw [Op.actor,ready] at holder
      exact holder.elim
    | write i => exact Or.inl (by rw [Op.actor,put_same]; trivial)
    | sync i => exact Or.inl (by rw [Op.actor,put_same]; trivial)
    | rename i data dir closed moved =>
      obtain ⟨_,_,gone,_⟩ := s.dir.rename_eq_some dir moved
      exact Or.inr (Or.inr ⟨rfl,gone⟩)
    | fail i => exact Or.inr (Or.inl (put_same ..))
  · rw [moves.other j same]
    exact Or.inl holder

/-- A missing temporary name comes back with a new holder only, and nothing is renamed meanwhile. -/
theorem Moves.missing [Inhabited β] {s t : State ι β} {op : Op ι β} (moves : Moves s op t) (gone : s.dir.temp = none) :
    (t.dir.temp = none ∧ ∀ i, op ≠ .io i .rename) ∨
      ∃ i, ¬ (s.writers i).Holds ∧ (t.writers i).Holds ∧ op = .io i .openTemp := by
  cases moves with
  | openTemp i data ready =>
    refine Or.inr ⟨i,?_,?_,rfl⟩
    · rw [ready]
      exact id
    · rw [put_same]
      trivial
  | rename i data dir closed moved =>
    obtain ⟨_,named,_⟩ := s.dir.rename_eq_some dir moved
    cases gone.symm.trans named
  | start => exact Or.inl ⟨gone,fun _ same => by cases same⟩
  | write => exact Or.inl ⟨gone,fun _ same => by cases same⟩
  | sync => exact Or.inl ⟨gone,fun _ same => by cases same⟩
  | fail => exact Or.inl ⟨gone,fun _ same => by cases same⟩

theorem Spoilt.moves [Inhabited β] {s t : State ι β} {op : Op ι β} (spoilt : Spoilt s) (moves : Moves s op t) : Spoilt t := by
  cases spoilt with
  | failed i here => exact .failed i (moves.failed i here)
  | two i j different first second =>
    rcases moves.holds i first with one | failed | ⟨renamed,gone⟩
    · rcases moves.holds j second with other | failed | ⟨_,gone⟩
      · exact .two i j different one other
      · exact .failed j failed
      · exact .orphan i one gone
    · exact .failed i failed
    · rcases moves.holds j second with other | failed | ⟨again,_⟩
      · exact .orphan j other gone
      · exact .failed j failed
      · rw [renamed] at again
        cases again
        exact absurd rfl different
  | orphan i holder gone =>
    rcases moves.missing gone with ⟨still,notRenamed⟩ | ⟨k,fresh,opened,same⟩
    · rcases moves.holds i holder with one | failed | ⟨renamed,_⟩
      · exact .orphan i one still
      · exact .failed i failed
      · exact absurd renamed (notRenamed i)
    · have different : i ≠ k := by
        rintro rfl
        exact fresh holder
      rcases moves.holds i holder with one | failed | ⟨renamed,_⟩
      · exact .two i k different one opened
      · exact .failed i failed
      · rw [same] at renamed
        cases renamed

def published (s : State ι β) (before : List β) : Op ι β → List β
  | .io i .rename =>
    match s.writers i with
    | .closed data => data
    | _ => before
  | _ => before

theorem alone_put {s : State ι β} {i : ι} {dir : Dir β} {w : Writer β} {k : ι}
    (alone : ∀ j, (s.writers j).Holds → j = k) (same : w.Holds → i = k) :
    ∀ j, ((s.put i dir w).writers j).Holds → j = k := by
  intro j holder
  by_cases here : j = i
  · subst j
    rw [put_same] at holder
    exact same holder
  · rw [put_other _ _ _ _ _ here] at holder
    exact alone j holder

theorem nobody_put {s : State ι β} {i : ι} {dir : Dir β} {w : Writer β}
    (nobody : ∀ j, ¬ (s.writers j).Holds) (free : ¬ w.Holds) :
    ∀ j, ¬ ((s.put i dir w).writers j).Holds := by
  intro j holder
  by_cases here : j = i
  · subst j
    rw [put_same] at holder
    exact free holder
  · rw [put_other _ _ _ _ _ here] at holder
    exact nobody j holder

theorem Sections.start {s : State ι β} (sections : Sections s) (i : ι) (data : List β)
    (idle : s.writers i = .idle) : Sections (s.put i s.dir (.ready data)) := by
  cases sections with
  | free gone nobody => exact .free gone (nobody_put nobody id)
  | writing k d node offset here alone named content within =>
    have other : k ≠ i := by rintro rfl; cases here.symm.trans idle
    exact .writing k d node offset (by rw [put_other _ _ _ _ _ other,here]) (alone_put alone False.elim)
      named content within
  | closed k d node here alone named content =>
    have other : k ≠ i := by rintro rfl; cases here.symm.trans idle
    exact .closed k d node (by rw [put_other _ _ _ _ _ other,here]) (alone_put alone False.elim)
      named content

/-- Whoever opens while the name is taken makes a second holder. -/
theorem Sections.openTemp {s : State ι β} (sections : Sections s) (i : ι) (data : List β)
    (ready : s.writers i = .ready data) :
    Spoilt (s.put i s.dir.openTemp.1 (.writing data s.dir.openTemp.2 0)) ∨
      Sections (s.put i s.dir.openTemp.1 (.writing data s.dir.openTemp.2 0)) := by
  have second (k : ι) (holder : (s.writers k).Holds) :
      Spoilt (s.put i s.dir.openTemp.1 (.writing data s.dir.openTemp.2 0)) := by
    have other : k ≠ i := by
      rintro rfl
      rw [ready] at holder
      exact holder
    refine .two k i other ?_ ?_
    · rwa [put_other _ _ _ _ _ other]
    · rw [put_same]
      trivial
  cases sections with
  | free gone nobody =>
    refine Or.inr (.writing i data s.dir.openTemp.2 0 (put_same ..) ?_ s.dir.openTemp_temp ?_ (Nat.zero_le _))
    · exact alone_put (fun j holder => absurd holder (nobody j)) fun _ => rfl
    · exact s.dir.openTemp_content
  | writing k d node offset here => exact Or.inl (second k (by rw [here]; trivial))
  | closed k d node here => exact Or.inl (second k (by rw [here]; trivial))

theorem Sections.write [Inhabited β] {s : State ι β} (sections : Sections s) (i : ι) (data : List β)
    (node offset length : Nat) (writing : s.writers i = .writing data node offset)
    (room : offset + length ≤ data.length) :
    Sections (s.put i (s.dir.write node offset ((data.drop offset).take length))
        (.writing data node (offset + length))) ∧
      s.dir.temp = some node := by
  have holder : (s.writers i).Holds := by rw [writing]; trivial
  cases sections with
  | free gone nobody => exact absurd holder (nobody i)
  | closed k d n here alone =>
    obtain rfl := alone i holder
    cases here.symm.trans writing
  | writing k d n o here alone named content within =>
    obtain rfl := alone i holder
    cases here.symm.trans writing
    have long : (s.dir.content node).length = offset := by
      rw [content,List.length_take,Nat.min_eq_left within]
    have added := s.dir.write_content node ((data.drop offset).take length)
    rw [long,content,← List.take_add] at added
    exact ⟨.writing i data node (offset + length) (put_same ..) (alone_put alone fun _ => rfl) named added room,
      named⟩

theorem Sections.sync {s : State ι β} (sections : Sections s) (i : ι) (data : List β) (node : Nat)
    (writing : s.writers i = .writing data node data.length) : Sections (s.put i s.dir (.closed data)) := by
  have holder : (s.writers i).Holds := by rw [writing]; trivial
  cases sections with
  | free gone nobody => exact absurd holder (nobody i)
  | closed k d n here alone =>
    obtain rfl := alone i holder
    cases here.symm.trans writing
  | writing k d n o here alone named content within =>
    obtain rfl := alone i holder
    cases here.symm.trans writing
    rw [List.take_length] at content
    exact .closed i data node (put_same ..) (alone_put alone fun _ => rfl) named content

theorem Sections.rename {s : State ι β} (sections : Sections s) (i : ι) (data : List β) (dir : Dir β)
    (closed : s.writers i = .closed data) (moved : s.dir.rename = some dir) :
    Sections (s.put i dir .done) ∧ dir.read = some data := by
  have holder : (s.writers i).Holds := by rw [closed]; trivial
  obtain ⟨node,taken,gone,held⟩ := s.dir.rename_eq_some dir moved
  cases sections with
  | free absent => cases absent.symm.trans taken
  | writing k d n o here alone =>
    obtain rfl := alone i holder
    cases here.symm.trans closed
  | closed k d n here alone named content =>
    obtain rfl := alone i holder
    cases here.symm.trans closed
    obtain rfl := Option.some.inj (named.symm.trans taken)
    refine ⟨.free gone fun j other => ?_,held.trans (congrArg some content)⟩
    by_cases same : j = i
    · subst j
      rw [put_same] at other
      exact other
    · rw [put_other _ _ _ _ _ same] at other
      exact same (alone j other)

/-- An operation spoils the run or keeps the sections apart, and the target holds what was last renamed. -/
theorem Sections.moves [Inhabited β] {s t : State ι β} {op : Op ι β} {before : List β} (sections : Sections s)
    (held : s.dir.read = some before) (moves : Moves s op t) :
    Spoilt t ∨ (Sections t ∧ t.dir.read = some (published s before op)) := by
  cases moves with
  | start i data idle => exact Or.inr ⟨sections.start i data idle,held⟩
  | openTemp i data ready =>
    rcases sections.openTemp i data ready with spoilt | kept
    · exact Or.inl spoilt
    · exact Or.inr ⟨kept,s.dir.read_openTemp.trans held⟩
  | write i length data node offset writing room =>
    obtain ⟨kept,named⟩ := sections.write i data node offset length writing room
    exact Or.inr ⟨kept,(s.dir.read_write node offset _ named).trans held⟩
  | sync i data node writing => exact Or.inr ⟨sections.sync i data node writing,held⟩
  | rename i data dir closed moved =>
    obtain ⟨kept,now⟩ := sections.rename i data dir closed moved
    refine Or.inr ⟨kept,?_⟩
    simp only [published,closed]
    exact now
  | fail i => exact Or.inl (.failed i (put_same ..))

end

/-! ### Runs -/

section

variable {ι β : Type*}

def renames (ops : List (Op ι β)) : List ι :=
  ops.filterMap fun op =>
    match op with
    | .io i .rename => some i
    | _ => none

/-- The data of whoever renamed last, or what was there at the start. -/
def Published (initial : List β) (ops : List (Op ι β)) (data : List β) : Prop :=
  match (renames ops).getLast? with
  | none => data = initial
  | some i => Op.start i data ∈ ops

def Writer.data : Writer β → Option (List β)
  | .ready data => some data
  | .writing data _ _ => some data
  | .closed data => some data
  | _ => none

theorem published_io {initial : List β} {ops : List (Op ι β)} {data : List β} (i : ι) (act : Io)
    (before : Published initial ops data) (other : act ≠ .rename) :
    Published initial (ops ++ [.io i act]) data := by
  have same : renames (ops ++ [.io i act]) = renames ops := by
    rw [renames,List.filterMap_append,renames]
    cases act <;> simp at other ⊢
  unfold Published at before ⊢
  rw [same]
  cases last : (renames ops).getLast? with
  | none => simpa [last] using before
  | some k =>
    rw [last] at before
    exact List.mem_append_left _ before

theorem published_start {initial : List β} {ops : List (Op ι β)} {data : List β} (i : ι) (own : List β)
    (before : Published initial ops data) : Published initial (ops ++ [.start i own]) data := by
  have same : renames (ops ++ [.start i own]) = renames ops := by
    simp [renames,List.filterMap_append]
  unfold Published at before ⊢
  rw [same]
  cases last : (renames ops).getLast? with
  | none => simpa [last] using before
  | some k =>
    rw [last] at before
    exact List.mem_append_left _ before

theorem published_rename {initial : List β} {ops : List (Op ι β)} (i : ι) (data : List β)
    (started : Op.start i data ∈ ops) : Published initial (ops ++ [.io i .rename]) data := by
  simp [Published,renames,List.filterMap_append,started]

end

variable {ι β : Type*}

structure History (initial : List β) (ops : List (Op ι β)) (s : State ι β) : Prop where
  started : ∀ i data, (s.writers i).data = some data → .start i data ∈ ops
  fresh : ∀ i, s.writers i = .idle → ∀ data, .start i data ∉ ops
  finished : ∀ i, s.writers i = .done → i ∈ renames ops
  once : ∀ i first second, .start i first ∈ ops → .start i second ∈ ops → first = second
  target : Spoilt s ∨ (Sections s ∧ ∃ data, s.dir.read = some data ∧ Published initial ops data)

theorem History.initial {initial : List β} {s : State ι β} (idle : ∀ i, s.writers i = .idle)
    (free : s.dir.temp = none) (held : s.dir.read = some initial) : History initial [] s where
  started i data has := by
    rw [idle i] at has
    cases has
  fresh _ _ _ member := by cases member
  finished i done := by
    rw [idle i] at done
    cases done
  once _ _ _ member := by cases member
  target := Or.inr ⟨.free free fun i holder => by rw [idle i] at holder; exact holder,initial,held,rfl⟩

variable [DecidableEq ι] [Inhabited β]

theorem Moves.data {s t : State ι β} {op : Op ι β} (moves : Moves s op t) (j : ι) (own : List β)
    (has : (t.writers j).data = some own) : (s.writers j).data = some own ∨ op = .start j own := by
  by_cases same : j = op.actor
  · subst same
    cases moves with
    | start i data idle =>
      rw [Op.actor,put_same] at has
      exact Or.inr (by rw [Op.actor,Option.some.inj has])
    | openTemp i data ready =>
      rw [Op.actor,put_same] at has
      exact Or.inl (by rw [Op.actor,ready]; exact has)
    | write i length data node offset writing =>
      rw [Op.actor,put_same] at has
      exact Or.inl (by rw [Op.actor,writing]; exact has)
    | sync i data node writing =>
      rw [Op.actor,put_same] at has
      exact Or.inl (by rw [Op.actor,writing]; exact has)
    | rename i =>
      rw [Op.actor,put_same] at has
      cases has
    | fail i =>
      rw [Op.actor,put_same] at has
      cases has
  · rw [moves.other j same] at has
    exact Or.inl has

/-- A writer that has not started never did. -/
theorem Moves.idle {s t : State ι β} {op : Op ι β} (moves : Moves s op t) (j : ι)
    (now : t.writers j = .idle) : s.writers j = .idle ∧ ∀ data, op ≠ .start j data := by
  by_cases same : j = op.actor
  · subst same
    cases moves <;> cases (put_same ..).symm.trans now
  · refine ⟨(moves.other j same).symm.trans now,fun data start => same ?_⟩
    rw [start]
    rfl

theorem Moves.stays_idle {s t : State ι β} {i : ι} {act : Io} (moves : Moves s (.io i act) t) (j : ι)
    (before : s.writers j = .idle) : t.writers j = .idle := by
  have different : j ≠ i := by
    rintro rfl
    cases moves with
    | openTemp _ data ready => cases before.symm.trans ready
    | write _ length data node offset writing => cases before.symm.trans writing
    | sync _ data node writing => cases before.symm.trans writing
    | rename _ data dir closed => cases before.symm.trans closed
    | fail _ started => exact started before
  exact (moves.other j different).trans before

theorem Moves.done {s t : State ι β} {op : Op ι β} (moves : Moves s op t) (j : ι)
    (now : t.writers j = .done) : s.writers j = .done ∨ op = .io j .rename := by
  by_cases same : j = op.actor
  · subst same
    cases moves with
    | rename => exact Or.inr rfl
    | start | openTemp | write | sync | fail => cases (put_same ..).symm.trans now
  · exact Or.inl ((moves.other j same).symm.trans now)

theorem Moves.start_idle {s t : State ι β} {i : ι} {data : List β} (moves : Moves s (.start i data) t) :
    s.writers i = .idle := by
  cases moves with
  | start _ _ idle => exact idle

theorem Moves.rename_closed {s t : State ι β} {i : ι} (moves : Moves s (.io i .rename) t) :
    ∃ data, s.writers i = .closed data := by
  cases moves with
  | rename _ data _ closed => exact ⟨data,closed⟩

theorem History.published {initial before : List β} {ops : List (Op ι β)} {s t : State ι β} {op : Op ι β}
    (history : History initial ops s) (moves : Moves s op t) (held : Published initial ops before) :
    Published initial (ops ++ [op]) (published s before op) := by
  cases op with
  | start i data => exact published_start i data held
  | io i act =>
    by_cases last : act = .rename
    · subst last
      obtain ⟨data,closed⟩ := moves.rename_closed
      have own := history.started i data (by rw [closed]; rfl)
      simpa only [TempRename.published,closed] using published_rename i data own
    · have same : TempRename.published s before (.io i act) = before := by
        cases act with
        | rename => exact absurd rfl last
        | openTemp | write | sync | fail => rfl
      rw [same]
      exact published_io i act held last

theorem History.step {initial : List β} {ops : List (Op ι β)} {s t : State ι β} {op : Op ι β}
    (history : History initial ops s) (moved : TempRename.step s op = some t) :
    History initial (ops ++ [op]) t := by
  have moves := moves_of_step moved
  refine ⟨fun j own has => ?_,fun j now data member => ?_,fun j now => ?_,
    fun j first second one two => ?_,?_⟩
  · rcases moves.data j own has with before | here
    · exact List.mem_append_left _ (history.started j own before)
    · exact List.mem_append_right _ (by rw [here]; exact List.mem_singleton_self _)
  · obtain ⟨before,never⟩ := moves.idle j now
    rcases List.mem_append.mp member with old | new
    · exact history.fresh j before data old
    · exact never data (List.mem_singleton.mp new).symm
  · rw [renames,List.filterMap_append]
    rcases moves.done j now with before | here
    · exact List.mem_append_left _ (history.finished j before)
    · exact List.mem_append_right _ (by simp [here])
  · have fresh (data : List β) (here : Op.start j data = op) (other : List β) : .start j other ∉ ops := by
      subst here
      exact history.fresh j moves.start_idle other
    rcases List.mem_append.mp one with old | new
    · rcases List.mem_append.mp two with old' | new'
      · exact history.once j first second old old'
      · exact absurd old (fresh second (List.mem_singleton.mp new') first)
    · have here := List.mem_singleton.mp new
      rcases List.mem_append.mp two with old' | new'
      · exact absurd old' (fresh first here second)
      · cases here.trans (List.mem_singleton.mp new').symm
        rfl
  · rcases history.target with spoilt | ⟨sections,before,held,known⟩
    · exact Or.inl (spoilt.moves moves)
    · rcases sections.moves held moves with spoilt | ⟨kept,now⟩
      · exact Or.inl spoilt
      · exact Or.inr ⟨kept,_,now,history.published moves known⟩

theorem history_run {initial : List β} {s t : State ι β} {ops : List (Op ι β)} (idle : ∀ i, s.writers i = .idle)
    (free : s.dir.temp = none) (held : s.dir.read = some initial)
    (ran : Transition.run TempRename.step s ops = some t) : History initial ops t :=
  Transition.history_invariant s (History initial) (.initial idle free held)
    (fun _ _ _ _ history _ moved => history.step moved) ops t ran

/-- When no writer is left half way, the target holds what was last renamed, whole: sharing the temporary
name costs some writer its rename, never the target its data. -/
theorem settled {initial : List β} {s t : State ι β} {ops : List (Op ι β)} (idle : ∀ i, s.writers i = .idle)
    (free : s.dir.temp = none) (held : s.dir.read = some initial)
    (ran : Transition.run TempRename.step s ops = some t)
    (all : ∀ i, t.writers i = .idle ∨ t.writers i = .done) :
    ∃ data, t.dir.read = some data ∧ Published initial ops data := by
  have out (i : ι) : ¬ (t.writers i).Holds := by
    intro holder
    rcases all i with here | here <;> rw [here] at holder <;> exact holder
  rcases (history_run idle free held ran).target with spoilt | ⟨_,final⟩
  · cases spoilt with
    | failed i here =>
      rcases all i with other | other <;> cases here.symm.trans other
    | two i _ _ first => exact absurd first (out i)
    | orphan i holder => exact absurd holder (out i)
  · exact final

end TempRename
