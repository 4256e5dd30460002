import Mathlib.Data.List.Basic
import Mathlib.Data.List.Induction

/-! Runs of a guarded transition function. An action whose guard fails gives `none`,
so a run is a list of actions that were all enabled in turn. -/
namespace Transition

variable {σ α : Type*} (step : σ → α → Option σ)

def run (s : σ) : List α → Option σ
  | [] => some s
  | a :: actions => (step s a).bind (run · actions)

def Reachable (s t : σ) : Prop := ∃ actions, run step s actions = some t

@[simp] theorem run_nil (s : σ) : run step s [] = some s := rfl

theorem run_cons (s t : σ) (a : α) (actions : List α) :
    run step s (a :: actions) = some t ↔ ∃ u, step s a = some u ∧ run step u actions = some t := by
  rw [run,Option.bind_eq_some_iff]

theorem run_append (s t : σ) (first second : List α) :
    run step s (first ++ second) = some t ↔
      ∃ u, run step s first = some u ∧ run step u second = some t := by
  induction first generalizing s with
  | nil => simp
  | cons a first ih =>
    simp only [List.cons_append,run_cons,ih]
    constructor
    · rintro ⟨u,hu,v,hv,rest⟩
      exact ⟨v,⟨u,hu,hv⟩,rest⟩
    · rintro ⟨v,⟨u,hu,hv⟩,rest⟩
      exact ⟨u,hu,v,hv,rest⟩

/-- Something holds of every transition of a run, in order. -/
def Along (P : σ → α → σ → Prop) (s : σ) : List α → Prop
  | [] => True
  | a :: actions => ∀ t, step s a = some t → P s a t ∧ Along P t actions

instance decidableAlong (P : σ → α → σ → Prop) [∀ s a t, Decidable (P s a t)] :
    ∀ s actions, Decidable (Along step P s actions)
  | _,[] => isTrue trivial
  | s,a :: actions =>
    match moved : step s a with
    | none => isTrue fun _ never => by rw [moved] at never; cases never
    | some t =>
      have := decidableAlong P t actions
      decidable_of_iff (P s a t ∧ Along step P t actions) (by simp [Along,moved])

/-- Some action of a run was taken with `P` of the run before it, the state there and itself. -/
def Took (s : σ) (P : List α → σ → α → Prop) (actions : List α) : Prop :=
  ∃ before a after t, actions = before ++ a :: after ∧ run step s before = some t ∧ P before t a

variable {step}

theorem Took.now {s t : σ} {P : List α → σ → α → Prop} {actions : List α} {a : α}
    (ran : run step s actions = some t) (holds : P actions t a) : Took step s P (actions ++ [a]) :=
  ⟨actions,a,[],t,rfl,ran,holds⟩

theorem Took.later {s : σ} {P : List α → σ → α → Prop} {actions : List α} (took : Took step s P actions)
    (more : List α) : Took step s P (actions ++ more) := by
  obtain ⟨before,a,after,t,rfl,ran,holds⟩ := took
  exact ⟨before,a,after ++ more,t,by simp,ran,holds⟩

/-- What a run took, it took earlier or in its last action. -/
theorem Took.snoc {s t : σ} {P : List α → σ → α → Prop} {actions : List α} {a : α}
    (ran : run step s actions = some t) (took : Took step s P (actions ++ [a])) :
    Took step s P actions ∨ P actions t a := by
  obtain ⟨before,b,after,u,same,first,holds⟩ := took
  rcases List.eq_nil_or_concat after with rfl | ⟨more,last,rfl⟩
  · obtain ⟨rfl,last⟩ := List.append_inj' same rfl
    obtain rfl := List.head_eq_of_cons_eq last
    obtain rfl := Option.some.inj (first.symm.trans ran)
    exact .inr holds
  · rw [List.concat_eq_append,← List.cons_append,← List.append_assoc] at same
    obtain ⟨rfl,_⟩ := List.append_inj' same rfl
    exact .inl ⟨before,b,more,u,rfl,first,holds⟩

theorem Reachable.refl (s : σ) : Reachable step s s := ⟨[],rfl⟩

theorem Reachable.trans {s t u : σ} (first : Reachable step s t) (second : Reachable step t u) :
    Reachable step s u := by
  obtain ⟨as,ha⟩ := first
  obtain ⟨bs,hb⟩ := second
  exact ⟨as ++ bs,(run_append step s u as bs).mpr ⟨t,ha,hb⟩⟩

theorem Reachable.single {s t : σ} (a : α) (moves : step s a = some t) : Reachable step s t :=
  ⟨[a],(run_cons step s t a []).mpr ⟨t,moves,rfl⟩⟩

/-- What holds at the start and is kept by every allowed action holds after a run of them. -/
theorem run_invariant (P : σ → Prop) (Q : α → Prop)
    (keeps : ∀ s a t, P s → Q a → step s a = some t → P t) (s t : σ) (actions : List α)
    (start : P s) (all : ∀ a ∈ actions, Q a) (ran : run step s actions = some t) : P t := by
  induction actions generalizing s with
  | nil =>
    obtain rfl := Option.some.inj ran
    exact start
  | cons a actions ih =>
    obtain ⟨u,moved,rest⟩ := (run_cons step s t a actions).mp ran
    obtain ⟨allowed,others⟩ := List.forall_mem_cons.mp all
    exact ih u (keeps s a u start allowed moved) others rest

/-- What holds at the start and is kept by every transition with `H` holds after a run of them. -/
theorem along_invariant (P : σ → Prop) (H : σ → α → σ → Prop)
    (keeps : ∀ s a t, P s → H s a t → step s a = some t → P t) (s t : σ) (actions : List α)
    (start : P s) (all : Along step H s actions) (ran : run step s actions = some t) : P t := by
  induction actions generalizing s with
  | nil =>
    obtain rfl := Option.some.inj ran
    exact start
  | cons a actions ih =>
    obtain ⟨u,moved,rest⟩ := (run_cons step s t a actions).mp ran
    obtain ⟨here,later⟩ := all u moved
    exact ih u (keeps s a u start here moved) later rest

/-- What holds at the start and is kept by every enabled action holds of every run. -/
theorem invariant (P : σ → Prop) (keeps : ∀ s a t, P s → step s a = some t → P t)
    (s t : σ) (start : P s) (reached : Reachable step s t) : P t := by
  obtain ⟨actions,ran⟩ := reached
  exact run_invariant P (fun _ => True) (fun s a t good _ => keeps s a t good) s t actions start
    (fun _ _ => trivial) ran

/-- An invariant about a state and the run that led to it. -/
theorem history_invariant (s : σ) (I : List α → σ → Prop) (start : I [] s)
    (keeps : ∀ actions t a u, I actions t → run step s actions = some t → step t a = some u →
      I (actions ++ [a]) u) (actions : List α) (t : σ) (ran : run step s actions = some t) : I actions t := by
  induction actions using List.reverseRecOn generalizing t with
  | nil =>
    obtain rfl := Option.some.inj ran
    exact start
  | append_singleton actions a ih =>
    obtain ⟨u,before,last⟩ := (run_append step s t actions [a]).mp ran
    obtain ⟨v,moved,same⟩ := (run_cons step u t a []).mp last
    obtain rfl := Option.some.inj same
    exact keeps actions u a v (ih u before) before moved

theorem along_drop (P : σ → α → σ → Prop) (s t : σ) (first second : List α)
    (holds : Along step P s (first ++ second)) (ran : run step s first = some t) : Along step P t second := by
  induction first generalizing s with
  | nil =>
    obtain rfl := Option.some.inj ran
    exact holds
  | cons a first ih =>
    obtain ⟨u,moved,rest⟩ := (run_cons step s t a first).mp ran
    exact ih u (holds u moved).2 rest

theorem along_take (P : σ → α → σ → Prop) (s : σ) (first second : List α)
    (holds : Along step P s (first ++ second)) : Along step P s first := by
  induction first generalizing s with
  | nil => trivial
  | cons a first ih => exact fun t moved => ⟨(holds t moved).1,ih t (holds t moved).2⟩

/-- What every action from a good state has, and keeps good, holds along every run. -/
theorem along (I : σ → Prop) (P : σ → α → σ → Prop) (Q : α → Prop) (s : σ) (actions : List α)
    (keeps : ∀ s a t, I s → Q a → step s a = some t → I t ∧ P s a t) (start : I s)
    (all : ∀ a ∈ actions, Q a) : Along step P s actions := by
  induction actions generalizing s with
  | nil => trivial
  | cons a actions ih =>
    intro t moved
    obtain ⟨good,holds⟩ := keeps s a t start (all a (by simp)) moved
    exact ⟨holds,ih t good fun b member => all b (List.mem_cons_of_mem _ member)⟩

/-- Two properties that agree on every transition from a good state hold along the same runs. -/
theorem along_congr (I : σ → Prop) (P P' : σ → α → σ → Prop) (Q : α → Prop) (s : σ) (actions : List α)
    (keeps : ∀ s a t, I s → Q a → step s a = some t → I t)
    (same : ∀ s a t, I s → Q a → step s a = some t → (P s a t ↔ P' s a t)) (start : I s)
    (all : ∀ a ∈ actions, Q a) : Along step P s actions ↔ Along step P' s actions := by
  induction actions generalizing s with
  | nil => exact Iff.rfl
  | cons a actions ih =>
    obtain ⟨allowed,others⟩ := List.forall_mem_cons.mp all
    refine forall_congr' fun t => imp_congr_right fun moved => ?_
    rw [same s a t start allowed moved,ih t (keeps s a t start allowed moved) others]

/-- An invariant that exactly the transitions with `C` keep holds along exactly the runs of them. -/
theorem along_exact (G I : σ → Prop) (C : σ → α → Prop) (good : ∀ s a t, G s → step s a = some t → G t)
    (exact_ : ∀ s a t, G s → I s → step s a = some t → (I t ↔ C s a)) (s : σ) (actions : List α)
    (start : G s) (holds : I s) :
    Along step (fun _ _ t => I t) s actions ↔ Along step (fun s a _ => C s a) s actions := by
  induction actions generalizing s with
  | nil => exact Iff.rfl
  | cons a actions ih =>
    refine forall_congr' fun t => forall_congr' fun moved => ?_
    have here := exact_ s a t start holds moved
    constructor
    · rintro ⟨kept,rest⟩
      exact ⟨here.mp kept,(ih t (good s a t start moved) kept).mp rest⟩
    · rintro ⟨met,rest⟩
      have kept := here.mpr met
      exact ⟨kept,(ih t (good s a t start moved) kept).mpr rest⟩

/-- A relation kept by every enabled action, with the concrete action matched by a run of
the abstract machine, carries a whole run over. -/
theorem simulation {τ β : Type*} {abstract : τ → β → Option τ} (R : σ → τ → Prop)
    (matched : ∀ s x a t, R s x → step s a = some t → ∃ y, Reachable abstract x y ∧ R t y)
    (s t : σ) (x : τ) (related : R s x) (reached : Reachable step s t) :
    ∃ y, Reachable abstract x y ∧ R t y := by
  obtain ⟨actions,ran⟩ := reached
  induction actions generalizing s x with
  | nil =>
    obtain rfl := Option.some.inj ran
    exact ⟨x,.refl x,related⟩
  | cons a actions ih =>
    obtain ⟨u,moved,rest⟩ := (run_cons step s t a actions).mp ran
    obtain ⟨y,firstPart,between⟩ := matched s x a u related moved
    obtain ⟨z,secondPart,final⟩ := ih u y between rest
    exact ⟨z,firstPart.trans secondPart,final⟩

end Transition
