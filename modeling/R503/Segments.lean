import Mathlib.Data.List.Induction

/-! A stream cut at separators while it arrives: the segments that a separator has ended, and the open one. -/
namespace Segments

variable {α : Type*} (p : α → Bool)

def ended (xs : List α) : List (List α) := (xs.splitOnP p).dropLast

def pending (xs : List α) : List α := (xs.splitOnP p).getLast (List.splitOnP_ne_nil p xs)

theorem ended_pending (xs : List α) : ended p xs ++ [pending p xs] = xs.splitOnP p :=
  List.dropLast_concat_getLast (List.splitOnP_ne_nil p xs)

@[simp] theorem ended_nil : ended p [] = [] := rfl

@[simp] theorem pending_nil : pending p [] = [] := rfl

variable {p}

/-- The pieces before the last one are those that are ended. -/
theorem of_splitOnP {xs m : List α} {segments : List (List α)} (cut : xs.splitOnP p = segments ++ [m]) :
    ended p xs = segments ∧ pending p xs = m := by
  rw [← ended_pending] at cut
  obtain ⟨same,last⟩ := List.append_inj' cut rfl
  exact ⟨same,List.singleton_inj.mp last⟩

section
variable {m : List α} (clean : ∀ x ∈ m, p x = false)
include clean

/-- Without a separator everything is open. -/
theorem clean_pending : ended p m = [] ∧ pending p m = m := of_splitOnP (List.splitOnP_eq_singleton clean)

/-- The first separator ends what is in front of it. -/
theorem ended_cons (sep : α) (ends : p sep = true) (ys : List α) : ended p (m ++ sep :: ys) = m :: ended p ys ∧
    pending p (m ++ sep :: ys) = pending p ys := by
  apply of_splitOnP
  rw [List.splitOnP_append_cons_of_forall_mem clean sep ends,← ended_pending p ys]
  rfl

end

/-- The last separator is where the open segment begins. -/
theorem last_separator (xs : List α) : (∀ x ∈ xs, p x = false) ∨
    ∃ front sep m, xs = front ++ sep :: m ∧ p sep = true ∧ ∀ x ∈ m, p x = false := by
  induction xs using List.reverseRecOn with
  | nil => exact .inl fun x none => by cases none
  | append_singleton xs c ih =>
    by_cases ends : p c = true
    · exact .inr ⟨xs,c,[],rfl,ends,fun x none => by cases none⟩
    · have plain : ∀ x ∈ [c], p x = false := by simpa using ends
      rcases ih with clean | ⟨front,sep,m,rfl,separates,clean⟩
      · exact .inl (List.forall_mem_append.mpr ⟨clean,plain⟩)
      · exact .inr ⟨front,sep,m ++ [c],by simp,separates,List.forall_mem_append.mpr ⟨clean,plain⟩⟩

theorem pending_after (front m : List α) (sep : α) (ends : p sep = true) (clean : ∀ x ∈ m, p x = false) :
    ended p (front ++ sep :: m) = front.splitOnP p ∧ pending p (front ++ sep :: m) = m := by
  apply of_splitOnP
  rw [List.splitOnP_append_cons _ _ ends,List.splitOnP_eq_singleton clean]

theorem pending_open (xs : List α) : ∀ x ∈ pending p xs, p x = false := by
  rcases last_separator (p := p) xs with clean | ⟨front,sep,m,rfl,ends,clean⟩
  · rwa [(clean_pending clean).2]
  · rwa [(pending_after front m sep ends clean).2]

theorem splitOnP_append (xs ys : List α) :
    (xs ++ ys).splitOnP p = ended p xs ++ (pending p xs ++ ys).splitOnP p := by
  rcases last_separator (p := p) xs with clean | ⟨front,sep,m,rfl,ends,clean⟩
  · rw [(clean_pending clean).1,(clean_pending clean).2,List.nil_append]
  · obtain ⟨before,open_⟩ := pending_after front m sep ends clean
    rw [before,open_,List.append_assoc,List.cons_append,List.splitOnP_append_cons _ _ ends]

/-- What is ended stays so, and more of the stream goes on from what is open. -/
theorem append (xs ys : List α) : ended p (xs ++ ys) = ended p xs ++ ended p (pending p xs ++ ys) ∧
    pending p (xs ++ ys) = pending p (pending p xs ++ ys) := by
  apply of_splitOnP
  rw [splitOnP_append,← ended_pending p (pending p xs ++ ys),List.append_assoc]

/-! ### Whole segments put back together -/

def join (sep : α) (segments : List (List α)) : List α := segments.flatMap (· ++ [sep])

@[simp] theorem join_nil (sep : α) : join sep [] = [] := rfl

theorem join_cons (sep : α) (m : List α) (segments : List (List α)) :
    join sep (m :: segments) = m ++ sep :: join sep segments := by
  simp [join]

theorem join_append (sep : α) (as bs : List (List α)) : join sep (as ++ bs) = join sep as ++ join sep bs :=
  List.flatMap_append

/-- The first separator of a list cuts it in one way. -/
theorem first_cut {sep : α} {m s rest rest' : List α} (clean : sep ∉ m) (clean' : sep ∉ s)
    (same : m ++ sep :: rest = s ++ sep :: rest') : m = s ∧ rest = rest' := by
  induction m generalizing s with
  | nil =>
    cases s with
    | nil => exact ⟨rfl,(List.cons.inj same).2⟩
    | cons y s =>
      obtain ⟨rfl,_⟩ := List.cons.inj same
      exact absurd List.mem_cons_self clean'
  | cons x m ih =>
    cases s with
    | nil =>
      obtain ⟨rfl,_⟩ := List.cons.inj same
      exact absurd List.mem_cons_self clean
    | cons y s =>
      obtain ⟨rfl,tail⟩ := List.cons.inj same
      obtain ⟨rfl,after⟩ := ih (fun member => clean (List.mem_cons_of_mem _ member))
        (fun member => clean' (List.mem_cons_of_mem _ member)) tail
      exact ⟨rfl,after⟩

/-- What stands before the first separator is the first segment. -/
theorem join_head {sep : α} {m rest : List α} {segments : List (List α)} (clean : sep ∉ m)
    (each : ∀ s ∈ segments, sep ∉ s) (same : m ++ sep :: rest = join sep segments) :
    ∃ later, segments = m :: later ∧ rest = join sep later := by
  cases segments with
  | nil => simp at same
  | cons s later =>
    rw [join_cons] at same
    obtain ⟨rfl,tail⟩ := first_cut clean (List.forall_mem_cons.mp each).1 same
    exact ⟨later,rfl,tail⟩

/-- Whatever is cut off in front, copies of `w` remain, and before them pieces of it and of what was there. -/
theorem drop_join {P : List α → Prop} {sep : α} {w : List α} (shorter : ∀ x m, P (x :: m) → P m)
    (opened : ∀ x m, w = x :: m → P m) (front : List (List α)) (pieces : ∀ m ∈ front, P m) (i n : Nat) :
    ∃ front' i', i' ≤ i ∧ (∀ m ∈ front', P m) ∧
      (join sep (front ++ List.replicate i w)).drop n = join sep (front' ++ List.replicate i' w) := by
  induction n generalizing front i with
  | zero => exact ⟨front,i,Nat.le_refl i,pieces,rfl⟩
  | succ n ih =>
    cases front with
    | cons m front =>
      obtain ⟨here,later⟩ := List.forall_mem_cons.mp pieces
      cases m with
      | nil =>
        rw [List.cons_append,join_cons]
        exact ih front later i
      | cons x m =>
        obtain ⟨front',i',few,kept,same⟩ := ih (m :: front) (List.forall_mem_cons.mpr ⟨shorter x m here,later⟩) i
        refine ⟨front',i',few,kept,?_⟩
        rw [List.cons_append,join_cons] at same ⊢
        exact same
    | nil =>
      cases i with
      | zero => exact ⟨[],0,Nat.le_refl 0,pieces,by simp⟩
      | succ i =>
        rw [List.nil_append,List.replicate_succ,join_cons]
        cases w with
        | nil =>
          obtain ⟨front',i',few,kept,same⟩ := ih [] pieces i
          exact ⟨front',i',Nat.le_succ_of_le few,kept,same⟩
        | cons x m =>
          obtain ⟨front',i',few,kept,same⟩ := ih [m] (fun s member => by
            rw [List.mem_singleton.mp member]
            exact opened x m rfl) i
          refine ⟨front',i',Nat.le_succ_of_le few,kept,?_⟩
          rw [List.singleton_append,join_cons] at same
          exact same

end Segments
