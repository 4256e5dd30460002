import R503.VerifyDecision

/-! Invariants about one thread, its events and the run so far: to hold of every thread after every
run it is enough that they survive more of the run, the thread's own call and steps, and its mail. -/
namespace R503.Fprint

open Text Transition

/-- What keeps `P`; the run so far counts its actions from `start`. -/
structure ThreadRule (start : World) (P : List Action → Tid → Thread → List Event → Prop) : Prop where
  initial : ∀ t, P [] t (start.threads t) (start.eventsOf t)
  later : ∀ actions a t thread events, (∀ sender method, a ≠ .call t sender method) → P actions t thread events →
    P (actions ++ [a]) t thread events
  call : ∀ actions w t sender method, run World.step start actions = some w → (w.threads t).stage = .idle →
    P actions t (w.threads t) (w.eventsOf t) →
    P (actions ++ [.call t sender method]) t ⟨some sender,.entry method,[],none⟩ (w.eventsOf t)
  step : ∀ actions w t choice turn, run World.step start actions = some w → Coherent w →
    (w.threads t).stage.turn t w.device (w.threads t) choice = some turn → P actions t (w.threads t) (w.eventsOf t) →
    P (actions ++ [.step t choice]) t turn.thread (w.eventsOf t ++ turn.events)
  hear : ∀ actions t thread events msg, P actions t thread events →
    P actions t { thread with inbox := thread.inbox ++ [msg] } events
  answer : ∀ actions w r rest executed changed, run World.step start actions = some w → Coherent w →
    w.device.queue = r :: rest → (r.op.succeeds executed = true → changed = true) →
    P actions r.tid (w.threads r.tid) (w.eventsOf r.tid) →
    P (actions ++ [.serve executed changed]) r.tid { w.threads r.tid with reply := some executed } (w.eventsOf r.tid)

variable {start : World} {P : List Action → Tid → Thread → List Event → Prop}

theorem ThreadRule.next (rule : ThreadRule start P) {actions : List Action} {w v : World} {a : Action}
    (ran : run World.step start actions = some w) (coherent : Coherent w)
    (holds : ∀ t, P actions t (w.threads t) (w.eventsOf t)) (moved : w.step a = some v) (t : Tid) :
    P (actions ++ [a]) t (v.threads t) (v.eventsOf t) := by
  have others := fun noCall => rule.later actions a t _ _ noCall (holds t)
  cases World.step_moves moved with
  | call u sender method fresh =>
    by_cases same : t = u
    · subst t
      rw [World.spawn,World.threads_setThread_same]
      exact rule.call actions w u sender method ran fresh (holds u)
    · rw [World.spawn,World.threads_setThread_other same]
      exact others fun _ _ own => same (Action.call.inj own).1.symm
  | step u choice turn taken =>
    by_cases same : t = u
    · subst t
      have here : (w.commit u turn).threads u = turn.thread := World.threads_setThread_same
      rw [here,World.eventsOf_commit_same]
      exact rule.step actions w u choice turn ran coherent taken (holds u)
    · have there : (w.commit u turn).threads t = w.threads t := World.threads_setThread_other same
      rw [there,World.eventsOf_commit_other same]
      exact others fun _ _ => Action.noConfusion
  | leave name present => exact others fun _ _ => Action.noConfusion
  | disconnect name rest signals => exact others fun _ _ => Action.noConfusion
  | progress r rest msg queue forwarded =>
    by_cases same : t = r.tid
    · subst same
      rw [World.hear,World.threads_setThread_same]
      exact rule.hear _ _ _ _ msg (others fun _ _ => Action.noConfusion)
    · rw [World.hear,World.threads_setThread_other same]
      exact others fun _ _ => Action.noConfusion
  | serve r rest executed changed queue effect =>
    by_cases same : t = r.tid
    · subst same
      have here : (w.answer r rest executed changed).threads r.tid = { w.threads r.tid with reply := some executed } :=
        World.threads_setThread_same
      rw [here]
      exact rule.answer actions w r rest executed changed ran coherent queue effect (holds r.tid)
    · have there : (w.answer r rest executed changed).threads t = w.threads t := World.threads_setThread_other same
      rw [there]
      exact others fun _ _ => Action.noConfusion

/-- After every run the invariant holds of every thread. -/
theorem ThreadRule.holds (rule : ThreadRule start P) (coherent : Coherent start) {actions : List Action} {w : World}
    (ran : run World.step start actions = some w) (t : Tid) : P actions t (w.threads t) (w.eventsOf t) :=
  history_invariant start (fun actions w => ∀ t, P actions t (w.threads t) (w.eventsOf t)) rule.initial
    (fun actions _ _ _ holds before moved =>
      rule.next before (coherent.reachable ⟨actions,before⟩) holds moved) actions w ran t

end R503.Fprint
