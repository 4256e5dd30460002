import Mathlib.Algebra.Ring.Nat
import R503.Transition

/-! Runs that are paid for out of a measure. An action that costs something takes it from the
measure; other actions may bring something in. If every inner action costs, the machine left to
itself comes to rest. -/
namespace Transition

variable {σ α : Type*} {step : σ → α → Option σ}

def total (weight : α → Nat) (actions : List α) : Nat := (actions.map weight).sum

@[simp] theorem total_nil (weight : α → Nat) : total weight [] = 0 := rfl

@[simp] theorem total_cons (weight : α → Nat) (a : α) (actions : List α) :
    total weight (a :: actions) = weight a + total weight actions := by
  simp [total]

theorem total_indicator (p : α → Bool) (actions : List α) :
    total (fun a => (p a).toNat) actions = actions.countP p := by
  induction actions with
  | nil => rfl
  | cons a actions ih =>
    rw [total_cons,ih,List.countP_cons]
    cases p a <;> simp [Nat.add_comm]

/-- What holds of every action holds of the whole run. -/
theorem run_paid (good : σ → Prop) (Q : α → Prop) (measure : σ → Nat) (cost gain : α → Nat)
    (keeps : ∀ s a t, good s → Q a → step s a = some t → good t)
    (pays : ∀ s a t, good s → Q a → step s a = some t → measure t + cost a ≤ measure s + gain a)
    (s t : σ) (actions : List α) (start : good s) (all : ∀ a ∈ actions, Q a) (ran : run step s actions = some t) :
    measure t + total cost actions ≤ measure s + total gain actions := by
  induction actions generalizing s with
  | nil =>
    obtain rfl := Option.some.inj ran
    exact Nat.le_refl _
  | cons a actions ih =>
    obtain ⟨u,moved,rest⟩ := (run_cons step s t a actions).mp ran
    obtain ⟨allowed,others⟩ := List.forall_mem_cons.mp all
    have first := pays s a u start allowed moved
    have later := ih u (keeps s a u start allowed moved) others rest
    simp only [total_cons]
    omega

/-- If every inner action lowers the measure, inner actions lead to a state that enables none. -/
theorem comes_to_rest (good : σ → Prop) (inner : α → Prop) (measure : σ → Nat)
    (keeps : ∀ s a t, good s → inner a → step s a = some t → good t)
    (lowers : ∀ s a t, good s → inner a → step s a = some t → measure t < measure s) (s : σ) (start : good s) :
    ∃ actions t, (∀ a ∈ actions, inner a) ∧ run step s actions = some t ∧ ∀ a, inner a → step t a = none := by
  induction most : measure s using Nat.strongRecOn generalizing s with
  | ind m ih =>
    by_cases stuck : ∀ a, inner a → step s a = none
    · exact ⟨[],s,by simp,rfl,stuck⟩
    · push Not at stuck
      obtain ⟨a,inside,moves⟩ := stuck
      obtain ⟨u,moved⟩ := Option.ne_none_iff_exists'.mp moves
      have less := lowers s a u start inside moved
      obtain ⟨actions,t,all,ran,rest⟩ := ih (measure u) (most ▸ less) u (keeps s a u start inside moved) rfl
      refine ⟨a :: actions,t,?_,(run_cons step s t a actions).mpr ⟨u,moved,ran⟩,rest⟩
      exact List.forall_mem_cons.mpr ⟨inside,all⟩

end Transition
