import R503.Transition
import Mathlib.Logic.Function.Basic

/-! A command channel: a request is asked once under a fresh identifier, served at most
once by an answer of several lines, spoken line by line and heard line by line. -/
namespace Channel

open Classical

structure State (ι ρ β : Type*) where
  asked : ι → Option ρ
  answer : ι → Option (List β)
  spoken : ι → Nat
  heard : ι → Nat

inductive Move (ι ρ β : Type*) where
  | ask (i : ι) (r : ρ)
  | serve (i : ι) (a : List β)
  | speak (i : ι)
  | hear (i : ι)

variable {ι ρ β : Type*}

def State.start : State ι ρ β := ⟨fun _ => none,fun _ => none,fun _ => 0,fun _ => 0⟩

def State.lines (x : State ι ρ β) (i : ι) : List β := (x.answer i).getD []

def State.heardLines (x : State ι ρ β) (i : ι) : List β := (x.lines i).take (x.heard i)

variable [DecidableEq ι]

/-- `allowed i r a`: `a` may answer the request `r` made under `i`. -/
noncomputable def step (allowed : ι → ρ → List β → Prop) (x : State ι ρ β) :
    Move ι ρ β → Option (State ι ρ β)
  | .ask i r => if x.asked i = none then some { x with asked := Function.update x.asked i (some r) } else none
  | .serve i a =>
    if x.answer i = none ∧ ∃ r, x.asked i = some r ∧ allowed i r a then
      some { x with answer := Function.update x.answer i (some a) }
    else none
  | .speak i =>
    if x.spoken i < (x.lines i).length then
      some { x with spoken := Function.update x.spoken i (x.spoken i + 1) }
    else none
  | .hear i =>
    if x.heard i < x.spoken i then
      some { x with heard := Function.update x.heard i (x.heard i + 1) }
    else none

theorem step_ask (allowed : ι → ρ → List β → Prop) (x : State ι ρ β) (i : ι) (r : ρ)
    (fresh : x.asked i = none) :
    step allowed x (.ask i r) = some { x with asked := Function.update x.asked i (some r) } := by
  simp only [step,fresh,↓reduceIte]

theorem step_serve (allowed : ι → ρ → List β → Prop) (x : State ι ρ β) (i : ι) (r : ρ) (a : List β)
    (unserved : x.answer i = none) (asked : x.asked i = some r) (ok : allowed i r a) :
    step allowed x (.serve i a) = some { x with answer := Function.update x.answer i (some a) } := by
  rw [step,if_pos ⟨unserved,r,asked,ok⟩]

theorem step_speak (allowed : ι → ρ → List β → Prop) (x : State ι ρ β) (i : ι)
    (more : x.spoken i < (x.lines i).length) : step allowed x (.speak i) =
      some { x with spoken := Function.update x.spoken i (x.spoken i + 1) } := by
  rw [step,if_pos more]

theorem step_hear (allowed : ι → ρ → List β → Prop) (x : State ι ρ β) (i : ι)
    (more : x.heard i < x.spoken i) : step allowed x (.hear i) =
      some { x with heard := Function.update x.heard i (x.heard i + 1) } := by
  rw [step,if_pos more]

/-- The caller is never ahead of the server, nor the server of its answer. -/
structure Sound (allowed : ι → ρ → List β → Prop) (x : State ι ρ β) : Prop where
  heardSpoken : ∀ i, x.heard i ≤ x.spoken i
  spokenLines : ∀ i, x.spoken i ≤ (x.lines i).length
  served : ∀ i a, x.answer i = some a → ∃ r, x.asked i = some r ∧ allowed i r a

variable {allowed : ι → ρ → List β → Prop}

omit [DecidableEq ι] in
theorem sound_start : Sound allowed (State.start : State ι ρ β) :=
  ⟨fun _ => Nat.le_refl _,fun _ => Nat.zero_le _,fun _ _ impossible => by cases impossible⟩

theorem sound_ask (x y : State ι ρ β) (i : ι) (r : ρ) (sound : Sound allowed x)
    (moved : step allowed x (.ask i r) = some y) : Sound allowed y := by
  simp only [step] at moved
  split at moved
  next fresh =>
    obtain rfl := Option.some.inj moved
    refine ⟨sound.heardSpoken,sound.spokenLines,fun j a answered => ?_⟩
    obtain ⟨q,asked,ok⟩ := sound.served j a answered
    have other : j ≠ i := by
      rintro rfl
      rw [fresh] at asked
      cases asked
    exact ⟨q,by simpa [Function.update_of_ne other] using asked,ok⟩
  · cases moved

theorem sound_serve (x y : State ι ρ β) (i : ι) (a : List β) (sound : Sound allowed x)
    (moved : step allowed x (.serve i a) = some y) : Sound allowed y := by
  simp only [step] at moved
  split at moved
  next ready =>
    obtain ⟨unserved,r,asked,ok⟩ := ready
    obtain rfl := Option.some.inj moved
    refine ⟨sound.heardSpoken,fun j => ?_,fun j b answered => ?_⟩
    · by_cases same : j = i
      · subst j
        have none := sound.spokenLines i
        simp only [State.lines,unserved,Option.getD_none,List.length_nil] at none
        exact Nat.le_trans none (Nat.zero_le _)
      · simpa [State.lines,Function.update_of_ne same] using sound.spokenLines j
    · dsimp only at answered
      by_cases same : j = i
      · subst j
        rw [Function.update_self] at answered
        exact ⟨r,asked,Option.some.inj answered ▸ ok⟩
      · rw [Function.update_of_ne same] at answered
        exact sound.served j b answered
  · cases moved

theorem sound_speak (x y : State ι ρ β) (i : ι) (sound : Sound allowed x)
    (moved : step allowed x (.speak i) = some y) : Sound allowed y := by
  simp only [step] at moved
  split at moved
  next more =>
    obtain rfl := Option.some.inj moved
    refine ⟨fun j => ?_,fun j => ?_,sound.served⟩
    · have := sound.heardSpoken j
      by_cases same : j = i
      · subst j
        simp only [Function.update_self]
        omega
      · simpa [Function.update_of_ne same] using this
    · by_cases same : j = i
      · subst j
        simpa [State.lines,Function.update_self] using Nat.succ_le_of_lt more
      · simpa [State.lines,Function.update_of_ne same] using sound.spokenLines j
  · cases moved

theorem sound_hear (x y : State ι ρ β) (i : ι) (sound : Sound allowed x)
    (moved : step allowed x (.hear i) = some y) : Sound allowed y := by
  simp only [step] at moved
  split at moved
  next more =>
    obtain rfl := Option.some.inj moved
    refine ⟨fun j => ?_,sound.spokenLines,sound.served⟩
    by_cases same : j = i
    · subst j
      simpa [Function.update_self] using Nat.succ_le_of_lt more
    · simpa [Function.update_of_ne same] using sound.heardSpoken j
  · cases moved

theorem sound_run (x y : State ι ρ β) (start : Sound allowed x)
    (reached : Transition.Reachable (step allowed) x y) : Sound allowed y := by
  refine Transition.invariant (Sound allowed) (fun s m t sound moved => ?_) x y start reached
  cases m with
  | ask i r => exact sound_ask s t i r sound moved
  | serve i a => exact sound_serve s t i a sound moved
  | speak i => exact sound_speak s t i sound moved
  | hear i => exact sound_hear s t i sound moved

omit [DecidableEq ι] in
/-- A caller that has heard a final line has heard the whole answer to its own request. -/
theorem agreement (final : β → Prop) (x : State ι ρ β) (i : ι) (b : β) (sound : Sound allowed x)
    (last : ∀ r a, allowed i r a → ∀ k c, a[k]? = some c → final c → k + 1 = a.length)
    (heard : (x.heardLines i).getLast? = some b) (isFinal : final b) :
    ∃ r a, x.asked i = some r ∧ x.answer i = some a ∧ allowed i r a ∧ x.heardLines i = a ∧
      x.spoken i = a.length := by
  have first := sound.heardSpoken i
  have second := sound.spokenLines i
  cases answered : x.answer i with
  | none => simp [State.heardLines,State.lines,answered] at heard
  | some a =>
    obtain ⟨r,asked,ok⟩ := sound.served i a answered
    have whole : x.lines i = a := by rw [State.lines,answered,Option.getD_some]
    rw [whole] at second
    rw [State.heardLines,whole,List.getLast?_eq_getElem?,List.length_take,
      Nat.min_eq_left (Nat.le_trans first second)] at heard
    have positive : x.heard i ≠ 0 := by
      intro zero
      simp [zero] at heard
    rw [List.getElem?_take_of_lt (by omega)] at heard
    have length := last r a ok _ b heard isFinal
    refine ⟨r,a,asked,rfl,ok,?_,by omega⟩
    rw [State.heardLines,whole]
    exact List.take_of_length_le (by omega)

end Channel
