import Mathlib.Data.Nat.Find
import Mathlib.Logic.Function.Basic

/-! Following symbolic links: `next` gives the target of a link, and a chain that is too long leads
nowhere. -/
namespace SymLinks

variable {π : Type} {next other : π → Option π} {n m : Nat} {p q end_ : π}

def follow (next : π → Option π) : Nat → π → Option π
  | 0,_ => none
  | limit + 1,p =>
    match next p with
    | none => some p
    | some q => follow next limit q

def chain (next : π → Option π) : Nat → π → List π
  | 0,_ => []
  | limit + 1,p =>
    match next p with
    | none => [p]
    | some q => p :: chain next limit q

theorem follow_file (file : next p = none) : follow next (n + 1) p = some p := by rw [follow,file]

theorem follow_link (link : next p = some q) : follow next (n + 1) p = follow next n q := by rw [follow,link]

theorem follow_mono (leads : follow next n p = some end_) (more : n ≤ m) : follow next m p = some end_ := by
  induction n generalizing p m with
  | zero => cases leads
  | succ n ih =>
    obtain ⟨m,rfl⟩ := Nat.exists_eq_add_of_le' (Nat.le_trans (Nat.succ_le_succ (Nat.zero_le n)) more)
    rw [follow] at leads ⊢
    cases link : next p with
    | none => simpa only [link] using leads
    | some q =>
      simp only [link] at leads ⊢
      exact ih leads (by omega)

/-- A chain ends at what is no link. -/
theorem follow_end (leads : follow next n p = some end_) : next end_ = none := by
  induction n generalizing p with
  | zero => cases leads
  | succ n ih =>
    rw [follow] at leads
    cases link : next p with
    | none =>
      simp only [link,Option.some.injEq] at leads
      rwa [← leads]
    | some q =>
      simp only [link] at leads
      exact ih leads

theorem chain_file (file : next p = none) : chain next (n + 1) p = [p] := by rw [chain,file]

theorem mem_chain (next : π → Option π) (n : Nat) (p : π) : p ∈ chain next (n + 1) p := by
  rw [chain]
  split <;> simp

theorem end_mem_chain (leads : follow next n p = some end_) : end_ ∈ chain next n p := by
  induction n generalizing p with
  | zero => cases leads
  | succ n ih =>
    rw [follow] at leads
    rw [chain]
    cases link : next p with
    | none =>
      simp only [link,Option.some.injEq] at leads
      exact List.mem_singleton.mpr leads.symm
    | some q =>
      simp only [link] at leads
      exact List.mem_cons_of_mem _ (ih leads)

/-- A chain is that of any directory that agrees with this one along it. -/
theorem chain_agree (agree : ∀ q ∈ chain next n p, other q = next q) :
    chain other n p = chain next n p ∧ follow other n p = follow next n p := by
  induction n generalizing p with
  | zero => exact ⟨rfl,rfl⟩
  | succ n ih =>
    have here := agree p (mem_chain next n p)
    rw [chain,chain,follow,follow,here]
    cases link : next p with
    | none => exact ⟨rfl,rfl⟩
    | some q =>
      obtain ⟨chains,leads⟩ := ih fun r member => agree r (by
        rw [chain,link]
        exact List.mem_cons_of_mem _ member)
      exact ⟨congrArg (p :: ·) chains,leads⟩

/-- Links that do not lead to the end of a chain have no part in it. -/
theorem follow_agree (agree : ∀ p, follow next n p = some end_ → other p = next p)
    (leads : follow next n q = some end_) : follow other n q = some end_ := by
  induction n generalizing q with
  | zero => cases leads
  | succ n ih =>
    have same := agree q leads
    rw [follow] at leads ⊢
    rw [same]
    cases link : next q with
    | none => simpa only [link] using leads
    | some r =>
      simp only [link] at leads ⊢
      exact ih (fun p there => agree p (follow_mono there (Nat.le_succ n))) leads

/-- A link that is renamed leads where it did, if the name it takes did not. -/
theorem follow_renamed [DecidableEq π] {old new : π} (link : next old = some q)
    (leads : follow next n old = some end_) (apart : follow next n new ≠ some end_) :
    follow (Function.update (Function.update next new (next old)) old none) n new = some end_ := by
  -- the shortest chain from the old name does not come back to it
  have some_ : ∃ k, follow next k old = some end_ := ⟨n,leads⟩
  have found := Nat.find_spec some_
  have least : Nat.find some_ ≤ n := Nat.find_min' some_ leads
  have different : new ≠ old := fun same => apart (same ▸ leads)
  cases size : Nat.find some_ with
  | zero =>
    rw [size] at found
    cases found
  | succ k =>
    rw [size,follow_link link] at found
    refine follow_mono (n := k + 1) ?_ (size ▸ least)
    have moved : Function.update (Function.update next new (next old)) old none new = some q := by
      rw [Function.update_of_ne different,Function.update_self,link]
    rw [follow_link moved]
    refine follow_agree (fun p there => ?_) found
    have notOld : p ≠ old := by
      rintro rfl
      exact Nat.find_min some_ (size ▸ Nat.lt_succ_self k) there
    have notNew : p ≠ new := by
      rintro rfl
      exact apart (follow_mono there (by omega))
    rw [Function.update_of_ne notOld,Function.update_of_ne notNew]

/-- Where a renamed link leads it led before, unless that is the name it had. -/
theorem follow_unrenamed [DecidableEq π] {old new : π} (link : next old = some q)
    (leads : follow (Function.update (Function.update next new (next old)) old none) n new = some end_)
    (apart : end_ ≠ old) : follow next n old = some end_ := by
  have some_ : ∃ k, follow (Function.update (Function.update next new (next old)) old none) k new = some end_ :=
    ⟨n,leads⟩
  have found := Nat.find_spec some_
  have least : Nat.find some_ ≤ n := Nat.find_min' some_ leads
  have gone : ∀ k, follow (Function.update (Function.update next new (next old)) old none) k old ≠ some end_ := by
    intro k there
    cases k with
    | zero => cases there
    | succ k =>
      rw [follow_file (Function.update_self ..)] at there
      exact apart (Option.some.inj there).symm
  have different : new ≠ old := fun same => gone n (same ▸ leads)
  have moved : Function.update (Function.update next new (next old)) old none new = some q := by
    rw [Function.update_of_ne different,Function.update_self,link]
  cases size : Nat.find some_ with
  | zero =>
    rw [size] at found
    cases found
  | succ k =>
    rw [size,follow_link moved] at found
    refine follow_mono (n := k + 1) ?_ (size ▸ least)
    rw [follow_link link]
    -- the shortest chain from the new name comes back to neither name
    refine follow_agree (fun p there => ?_) found
    have notOld : p ≠ old := fun same => gone k (same ▸ there)
    have notNew : p ≠ new := by
      rintro rfl
      exact Nat.find_min some_ (size ▸ Nat.lt_succ_self k) there
    rw [Function.update_of_ne notOld,Function.update_of_ne notNew]

end SymLinks
