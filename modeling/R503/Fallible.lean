import Mathlib.Init

/-! Programs that change a state and may then fail: the change stays. Rules to run one step
by step, to read back a run that succeeded, and for what every run keeps. -/

def Fallible (σ ε α : Type) : Type := σ → σ × Except ε α

namespace Fallible

variable {σ ε α β : Type}

instance : Monad (Fallible σ ε) where
  pure a := fun w => (w,.ok a)
  bind x f := fun w =>
    match x w with
    | (v,.ok a) => f a v
    | (v,.error e) => (v,.error e)

def bail (e : ε) : Fallible σ ε α := fun w => (w,.error e)

def require (p : Prop) [Decidable p] (e : ε) : Fallible σ ε Unit := if p then pure () else bail e

def fromExcept (e : Except ε α) : Fallible σ ε α := fun w => (w,e)

section
variable {x : Fallible σ ε α} {f : α → Fallible σ ε β} {w v : σ}

theorem bind_ok {t : σ} {b : β} (ran : (x >>= f) w = (t,.ok b)) :
    ∃ v a, x w = (v,.ok a) ∧ f a v = (t,.ok b) := by
  change (match x w with
    | (v,.ok a) => f a v
    | (v,.error e) => (v,.error e)) = (t,.ok b) at ran
  split at ran
  next v a first => exact ⟨v,a,first,ran⟩
  · cases ran

theorem bind_eq {a : α} (first : x w = (v,.ok a)) (f : α → Fallible σ ε β) : (x >>= f) w = f a v := by
  change (match x w with
    | (v,.ok a) => f a v
    | (v,.error e) => (v,.error e)) = f a v
  rw [first]

theorem bind_done {a : α} (done : (x w).2 = .ok a) (f : α → Fallible σ ε β) : (x >>= f) w = f a (x w).1 :=
  bind_eq (v := (x w).1) (a := a) (Prod.ext rfl done) f

theorem bind_error {e : ε} (first : x w = (v,.error e)) (f : α → Fallible σ ε β) :
    (x >>= f) w = (v,.error e) := by
  change (match x w with
    | (v,.ok a) => f a v
    | (v,.error e) => (v,.error e)) = (v,.error e)
  rw [first]

end

theorem require_bind (p : Prop) [Decidable p] (e : ε) (f : Unit → Fallible σ ε β) (w : σ) :
    (require p e >>= f) w = if p then f () w else (w,.error e) := by
  unfold require
  split <;> rfl

theorem fromExcept_ok (e : Except ε α) (w v : σ) (a : α)
    (ran : fromExcept e w = (v,.ok a)) : e = .ok a ∧ v = w :=
  ⟨(Prod.mk.inj ran).2,(Prod.mk.inj ran).1.symm⟩

/-! ### Invariants -/

/-- Every run, successful or not, keeps `P`. -/
def Keeps (P : σ → Prop) (x : Fallible σ ε α) : Prop := ∀ w, P w → P (x w).1

section
variable {P : σ → Prop}

theorem keeps_pure (a : α) : Keeps P (pure a : Fallible σ ε α) := fun _ holds => holds

theorem keeps_fromExcept (e : Except ε α) : Keeps P (fromExcept e : Fallible σ ε α) := fun _ holds => holds

theorem keeps_require (p : Prop) [Decidable p] (e : ε) : Keeps P (require p e : Fallible σ ε Unit) := by
  unfold require
  split
  · exact keeps_pure ()
  · exact fun _ holds => holds

/-- The second half may use what the first half returned. -/
theorem keeps_bind_of {x : Fallible σ ε α} {f : α → Fallible σ ε β} (first : Keeps P x)
    (rest : ∀ w v a, P w → x w = (v,.ok a) → Keeps P (f a)) : Keeps P (x >>= f) := by
  intro w holds
  have between := first w holds
  cases ran : x w with
  | mk v result =>
    rw [ran] at between
    cases result with
    | ok a =>
      rw [bind_eq ran]
      exact rest w v a holds ran v between
    | error e =>
      rw [bind_error ran]
      exact between

theorem keeps_bind {x : Fallible σ ε α} {f : α → Fallible σ ε β} (first : Keeps P x)
    (rest : ∀ a, Keeps P (f a)) : Keeps P (x >>= f) :=
  keeps_bind_of first fun _ _ a _ _ => rest a

/-- A run that succeeds from `P` ends in `Q`. -/
def Ends (P : σ → Prop) (Q : α → σ → Prop) (x : Fallible σ ε α) : Prop :=
  ∀ w, P w → ∀ t a, x w = (t,.ok a) → Q a t

theorem ends_bind {Q : β → σ → Prop} {x : Fallible σ ε α} {f : α → Fallible σ ε β} (first : Keeps P x)
    (rest : ∀ a, Ends P Q (f a)) : Ends P Q (x >>= f) := by
  intro w holds t b ran
  obtain ⟨v,a,firstRan,restRan⟩ := bind_ok ran
  have between := first w holds
  rw [firstRan] at between
  exact rest a v between t b restRan

end

end Fallible
