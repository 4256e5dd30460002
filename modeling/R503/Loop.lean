import Mathlib.Data.Nat.Init

/-! A loop whose pass ends it or asks for another, run with fuel. An invariant and a variant show that
enough fuel ends it and what it ends with. -/
namespace Loop

variable {σ τ : Type}

inductive Exit (σ τ : Type) where
  | again (s : σ)
  | leave (t : τ)

def run (pass : σ → Exit σ τ) : Nat → σ → Option τ
  | 0,_ => none
  | fuel + 1,s =>
    match pass s with
    | .again next => run pass fuel next
    | .leave t => some t

/-- Total correctness: the result does not depend on the fuel, once there is enough. -/
theorem run_total {pass : σ → Exit σ τ} (I : σ → Prop) (variant : σ → Nat) (Q : τ → Prop)
    (again : ∀ s next, I s → pass s = .again next → I next ∧ variant next < variant s)
    (leave : ∀ s t, I s → pass s = .leave t → Q t) (s : σ) (start : I s) :
    ∃ t, Q t ∧ ∀ fuel, variant s < fuel → run pass fuel s = some t := by
  induction size : variant s using Nat.strongRecOn generalizing s with
  | ind size_ ih =>
    cases ended : pass s with
    | leave t =>
      refine ⟨t,leave s t start ended,fun fuel enough => ?_⟩
      cases fuel with
      | zero => omega
      | succ fuel => rw [run,ended]
    | again next =>
      obtain ⟨kept,less⟩ := again s next start ended
      obtain ⟨t,good,ran⟩ := ih (variant next) (by omega) next kept rfl
      refine ⟨t,good,fun fuel enough => ?_⟩
      cases fuel with
      | zero => omega
      | succ fuel =>
        rw [run,ended]
        exact ran fuel (by omega)

end Loop
