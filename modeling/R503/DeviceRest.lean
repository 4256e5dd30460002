import R503.DeviceWork
import R503.VerifyDecision

/-! The daemon left to itself: from every state it can get into, whatever the clients, the sensor and
the disk did, its handlers and tasks come to an end in a bounded number of steps, and then nothing is
left behind: no thread, no request, no permit and no action. -/
namespace R503.Fprint

open Text Transition

/-! ### What is never left behind -/

section
variable {t : Tid} {d : Device} {thread : Thread} {choice : Choice} {turn : Turn}

/-- A thread that ends gives the permit back. -/
def Turn.Ends (turn : Turn) (t : Tid) : Prop :=
  turn.thread.stage ≠ .idle ∧ (turn.thread.stage = .finished → turn.device.captureSlot ≠ some t)

theorem Turn.goto_ends {stage : Stage} {events : List Event} (busy : stage ≠ .idle) (more : stage ≠ .finished) :
    (Turn.goto d thread stage events).Ends t := ⟨busy,fun ended => absurd ended more⟩

theorem Turn.ask_ends {op : SensorOp} {stage : Stage} (busy : stage ≠ .idle) (more : stage ≠ .finished) :
    (Turn.ask t d thread op stage).Ends t := ⟨busy,fun ended => absurd ended more⟩

theorem Turn.finish_ends {events : List Event} : (Turn.finish t d thread events).Ends t := by
  refine ⟨Stage.noConfusion,fun _ => ?_⟩
  simp only [Turn.finish,Device.release]
  split
  · exact (Option.some_ne_none t).symm
  · assumption

theorem Turn.ret_ends {reply : Except FprintError Unit} : (Turn.ret t d thread reply).Ends t := Turn.finish_ends

theorem Stage.turn_ends (taken : thread.stage.turn t d thread choice = some turn) : turn.Ends t := by
  cases here : thread.stage with
  | idle | finished =>
    rw [here] at taken
    cases taken
  | entry method =>
    rw [here] at taken
    revert taken
    change method.turn t d thread choice = some turn → _
    fun_cases Method.turn t d thread choice method
    all_goals
      intro taken
      cases taken
    all_goals first
    | exact Turn.ret_ends
    | exact Turn.goto_ends Stage.noConfusion Stage.noConfusion
  | enroll stage =>
    rw [here] at taken
    revert taken
    change stage.turn t d thread choice = some turn → _
    fun_cases EnrollStage.turn t d thread choice stage
    all_goals
      intro taken
      cases taken
    all_goals first
    | exact Turn.finish_ends
    | exact Turn.goto_ends Stage.noConfusion Stage.noConfusion
    | exact Turn.ask_ends Stage.noConfusion Stage.noConfusion
  | verify stage =>
    rw [here] at taken
    revert taken
    change stage.turn t d thread choice = some turn → _
    fun_cases VerifyStage.turn t d thread choice stage
    all_goals
      intro taken
      cases taken
    all_goals first
    | exact Turn.finish_ends
    | exact Turn.goto_ends Stage.noConfusion Stage.noConfusion
    | exact Turn.ask_ends Stage.noConfusion Stage.noConfusion
  | delete stage =>
    rw [here] at taken
    revert taken
    change stage.turn t d thread choice = some turn → _
    fun_cases DeleteStage.turn t d thread choice stage
    all_goals
      intro taken
      cases taken
    all_goals first
    | exact Turn.finish_ends
    | exact Turn.goto_ends Stage.noConfusion Stage.noConfusion
    | exact Turn.ask_ends Stage.noConfusion Stage.noConfusion
  | claim _ | stop _ | endAction _ _ _ =>
    rw [here] at taken
    cases taken
    exact Turn.ret_ends

/-! ### Nothing is stuck -/

/-- A choice with which a stage can go on whatever the device and the thread are like. -/
def Stage.ready (d : Device) : Stage → Choice
  | .entry _ => .authorized (.error (.internal [])) (.ok false)
  | .enroll .save | .delete (.save _ _) | .delete (.saveOne _ _) => .saved none
  | .enroll (.drain _ _) | .verify (.drain _ _) => .closed
  | .delete (.snapshot user _) => .order (d.storage.getUserSlots user)
  | _ => .go

theorem Method.turn_ready (method : Method) :
    ∃ turn, method.turn t d thread (.authorized (.error (.internal [])) (.ok false)) = some turn := by
  generalize chosen : Choice.authorized (.error (.internal [])) (.ok false) = choice
  fun_cases Method.turn t d thread choice method
  all_goals first
  | exact ⟨_,rfl⟩
  | exact absurd chosen.symm (‹∀ lookup polkit, choice = .authorized lookup polkit → False› _ _)

theorem EnrollStage.turn_ready (stage : EnrollStage) :
    (∃ turn, stage.turn t d thread (Stage.ready d (.enroll stage)) = some turn) ∨
      stage.pending ≠ none ∧ thread.reply = none := by
  generalize chosen : Stage.ready d (.enroll stage) = choice
  fun_cases EnrollStage.turn t d thread choice stage
  all_goals first
  | exact .inl ⟨_,rfl⟩
  | exact .inr ⟨Option.some_ne_none _,‹_›⟩
  | exact absurd chosen.symm ‹_›

theorem VerifyStage.turn_ready (stage : VerifyStage) :
    (∃ turn, stage.turn t d thread (Stage.ready d (.verify stage)) = some turn) ∨
      stage.pending ≠ none ∧ thread.reply = none := by
  generalize chosen : Stage.ready d (.verify stage) = choice
  fun_cases VerifyStage.turn t d thread choice stage
  all_goals first
  | exact .inl ⟨_,rfl⟩
  | exact .inr ⟨Option.some_ne_none _,‹_›⟩
  | exact absurd chosen.symm ‹_›

theorem DeleteStage.turn_ready (stage : DeleteStage) :
    (∃ turn, stage.turn t d thread (Stage.ready d (.delete stage)) = some turn) ∨
      stage.pending ≠ none ∧ thread.reply = none := by
  generalize chosen : Stage.ready d (.delete stage) = choice
  fun_cases DeleteStage.turn t d thread choice stage
  all_goals first
  | exact .inl ⟨_,rfl⟩
  | exact .inr ⟨Option.some_ne_none _,‹_›⟩
  | exact absurd chosen.symm ‹_›
  | exact absurd chosen.symm (‹∀ rows, choice = .order rows → False› _)
  | skip
  next user token rows unordered =>
    obtain rfl := Choice.order.inj chosen
    exact absurd (List.isPerm_iff.mpr (List.Perm.refl _)) unordered

/-- Between its call and its end a thread can take a step or waits for the sensor. -/
theorem Stage.turn_ready (called : thread.stage ≠ .idle) (unfinished : thread.stage ≠ .finished) :
    (∃ turn, thread.stage.turn t d thread (thread.stage.ready d) = some turn) ∨ ∃ op, thread.Awaits op := by
  have waits : thread.stage.pending ≠ none ∧ thread.reply = none → ∃ op, thread.Awaits op := by
    rintro ⟨asked,unanswered⟩
    obtain ⟨op,pending⟩ := Option.ne_none_iff_exists'.mp asked
    exact ⟨op,pending,unanswered⟩
  rcases here : thread.stage with _ | method | user | kind | stage | stage | stage | ⟨user,token,reply⟩ | _
  · exact absurd here called
  · exact .inl method.turn_ready
  · exact .inl ⟨_,rfl⟩
  · exact .inl ⟨_,rfl⟩
  · exact stage.turn_ready.imp_right fun stuck => waits (by rw [here]; exact stuck)
  · exact stage.turn_ready.imp_right fun stuck => waits (by rw [here]; exact stuck)
  · exact stage.turn_ready.imp_right fun stuck => waits (by rw [here]; exact stuck)
  · exact .inl ⟨_,rfl⟩
  · exact absurd here unfinished

end

/-! ### Permit and action always have someone to give them back -/

structure Held (w : World) : Prop where
  permit : ∀ t, w.device.captureSlot = some t → (w.threads t).stage ≠ .idle ∧ (w.threads t).stage ≠ .finished
  action : ∀ token, w.device.state.action = some token → ∃ t, (w.threads t).stage.token = some token

namespace Held

variable {w : World} (held : Held w)
include held

/-- Stages and device are left alone. -/
theorem congr {v : World} (stages : ∀ u, (v.threads u).stage = (w.threads u).stage)
    (slot : v.device.captureSlot = w.device.captureSlot)
    (action : v.device.state.action = w.device.state.action ∨ v.device.state.action = none) : Held v := by
  refine ⟨fun t got => ?_,fun token current => ?_⟩
  · rw [stages]
    exact held.permit t (slot ▸ got)
  · rcases action with same | none
    · obtain ⟨t,owns⟩ := held.action token (same ▸ current)
      exact ⟨t,(congrArg Stage.token (stages t)).trans owns⟩
    · rw [none] at current
      cases current

theorem commit {t : Tid} {choice : Choice} {turn : Turn} (coherent : Coherent w)
    (taken : (w.threads t).stage.turn t w.device (w.threads t) choice = some turn) : Held (w.commit t turn) := by
  have allowed := Stage.turn_allowed (coherent.kinded t) taken
  have here : (w.commit t turn).threads t = turn.thread := World.threads_setThread_same
  have there : ∀ u, u ≠ t → (w.commit t turn).threads u = w.threads u := fun u => World.threads_setThread_other
  have owner : ∀ u token, u ≠ t → (w.threads u).stage.token = some token →
      ∃ u, ((w.commit t turn).threads u).stage.token = some token := fun u token other owns =>
    ⟨u,by rw [there u other]; exact owns⟩
  refine ⟨fun u got => ?_,fun token current => ?_⟩
  · change turn.device.captureSlot = some u at got
    by_cases same : u = t
    · subst u
      obtain ⟨busy,ends⟩ := Stage.turn_ends taken
      rw [here]
      exact ⟨busy,fun ended => ends ended got⟩
    · rw [there u same]
      refine held.permit u ?_
      rcases allowed.permit with ⟨unchanged,_⟩ | ⟨_,mine⟩ | ⟨_,released,_⟩
      · exact unchanged ▸ got
      · exact absurd (Option.some.inj (got.symm.trans mine)) same
      · rw [released] at got
        cases got
  · change turn.device.state.action = some token at current
    cases allowed.state with
    | same action _ _ kept =>
      obtain ⟨u,owns⟩ := held.action token (action ▸ current)
      by_cases same : u = t
      · subst u
        rcases kept with kept | ⟨_,stale⟩
        · exact ⟨t,by rw [here,kept]; exact owns⟩
        · exact absurd (owns.trans (action ▸ current).symm) stale
      · exact owner u token same owns
    | mint kind _ minted _ fresh _ =>
      rw [minted] at current
      exact ⟨t,by rw [here,fresh]; exact current⟩
    | done _ _ _ cleared _ | stop _ _ _ _ _ cleared _ =>
      rw [cleared] at current
      cases current
    | release _ _ _ dropped _ =>
      rw [dropped] at current
      cases current
    | claim user at_ _ installed _ =>
      rw [installed] at current
      obtain ⟨u,owns⟩ := held.action token current
      by_cases same : u = t
      · subst u
        rw [at_] at owns
        cases owns
      · exact owner u token same owns

theorem step {v : World} {a : Action} (coherent : Coherent w) (moved : w.step a = some v) : Held v := by
  cases World.step_moves moved with
  | call t sender method fresh =>
    have none : (w.threads t).stage.token = none := by rw [fresh]; rfl
    refine ⟨fun u got => ?_,fun token current => ?_⟩
    · by_cases same : u = t
      · subst u
        rw [World.spawn,World.threads_setThread_same]
        exact ⟨Stage.noConfusion,Stage.noConfusion⟩
      · rw [World.spawn,World.threads_setThread_other same]
        exact held.permit u got
    · obtain ⟨u,owns⟩ := held.action token current
      have other : u ≠ t := fun same => by
        rw [same,none] at owns
        cases owns
      exact ⟨u,by rw [World.spawn,World.threads_setThread_other other]; exact owns⟩
  | step t choice turn taken => exact held.commit coherent taken
  | leave name present => exact held.congr (fun _ => rfl) rfl (.inl rfl)
  | disconnect name rest signals =>
    refine held.congr (fun _ => rfl) rfl ?_
    simp only [World.disconnected,DeviceState.handleClientDisconnect]
    split
    · exact .inr rfl
    · exact .inl rfl
  | progress r rest msg queue forwarded => exact held.congr (fun _ => World.stage_setThread rfl) rfl (.inl rfl)
  | serve r rest executed changed queue effect =>
    exact held.congr (fun _ => World.stage_setThread rfl) rfl (.inl rfl)

end Held

/-! ### Rest -/

structure World.AtRest (w : World) : Prop where
  threads : ∀ t, (w.threads t).stage = .idle ∨ (w.threads t).stage = .finished
  queue : w.device.queue = []
  unheard : w.unheard = []
  permit : w.device.captureSlot = none
  action : w.device.state.action = none

/-- What is kept by every action, once calls have been made with these numbers. -/
structure Bound (tids : Finset Tid) (w : World) : Prop where
  coherent : Coherent w
  held : Held w
  within : w.Within tids

theorem Bound.boot (threshold : UInt16) (storage : Storage) (templates : UInt8 → Option Owner) :
    Bound ∅ (.boot threshold storage templates) :=
  ⟨.boot threshold storage templates,⟨fun _ got => (by cases got),fun _ current => (by cases current)⟩,fun _ _ => rfl⟩

theorem Bound.run {tids : Finset Tid} {w v : World} {actions : List Action} (bound : Bound tids w)
    (ran : run World.step w actions = some v) : ∃ more, Bound more v := by
  obtain ⟨more,within⟩ := World.within_run bound.within ran
  have held := invariant (fun w => Coherent w ∧ Held w)
    (fun _ _ _ good moved => ⟨good.1.step moved,good.2.step good.1 moved⟩) w v ⟨bound.coherent,bound.held⟩ ⟨actions,ran⟩
  exact ⟨more,held.1,held.2,within⟩

section
variable {tids : Finset Tid} {w : World} (bound : Bound tids w)
include bound

theorem Bound.step {v : World} {a : Action} (noCall : a.isCall = false) (moved : w.step a = some v) : Bound tids v :=
  ⟨bound.coherent.step moved,bound.held.step bound.coherent moved,bound.within.step noCall moved⟩

/-- Nothing can go on of its own exactly if nothing is left to do. -/
theorem Bound.rest_iff : (∀ a, a.isOwn = true → w.step a = none) ↔ w.AtRest := by
  constructor
  · intro stuck
    have queue : w.device.queue = [] := by
      by_contra busy
      obtain ⟨executed,changed,v,moved⟩ := serve_enabled busy
      rw [stuck _ rfl] at moved
      cases moved
    have threads : ∀ t, (w.threads t).stage = .idle ∨ (w.threads t).stage = .finished := by
      intro t
      by_contra going
      obtain ⟨called,unfinished⟩ := not_or.mp going
      rcases Stage.turn_ready (t := t) (d := w.device) called unfinished with ⟨turn,taken⟩ | ⟨op,awaits⟩
      · have never := stuck (.step t ((w.threads t).stage.ready w.device)) rfl
        rw [World.step,taken] at never
        cases never
      · have asked := bound.coherent.asked t op awaits
        rw [queue] at asked
        cases asked
    refine ⟨threads,queue,?_,?_,?_⟩
    · cases signals : w.unheard with
      | nil => rfl
      | cons name rest =>
        have never := stuck .disconnect rfl
        simp [World.step,signals] at never
    · by_contra got
      obtain ⟨t,has⟩ := Option.ne_none_iff_exists'.mp got
      obtain ⟨called,unfinished⟩ := bound.held.permit t has
      exact (threads t).elim called unfinished
    · by_contra current
      obtain ⟨token,now⟩ := Option.ne_none_iff_exists'.mp current
      obtain ⟨t,owns⟩ := bound.held.action token now
      rcases threads t with idle | finished
      · rw [idle] at owns
        cases owns
      · rw [finished] at owns
        cases owns
  · intro rest a own
    by_contra moves
    obtain ⟨v,moved⟩ := Option.ne_none_iff_exists'.mp moves
    cases World.step_moves moved with
    | call | leave | progress => cases own
    | step t choice turn taken =>
      rcases rest.threads t with idle | finished
      · exact Stage.busy taken idle
      · rw [finished] at taken
        cases taken
    | disconnect name others signals =>
      rw [rest.unheard] at signals
      cases signals
    | serve r others executed changed queue effect =>
      rw [rest.queue] at queue
      cases queue

theorem Bound.paid {v : World} {later : List Action} (noCalls : ∀ a ∈ later, a.isCall = false)
    (ran : Transition.run World.step w later = some v) :
    v.work tids + later.countP Action.isOwn ≤ w.work tids + total Action.brings later := by
  rw [← total_indicator]
  exact run_paid (Bound tids) (fun a => a.isCall = false) (World.work tids)
    (fun a => a.isOwn.toNat) Action.brings (fun _ _ _ good noCall moved => good.step noCall moved)
    (fun _ _ _ good noCall moved => World.step_pays good.coherent good.within noCall moved) w v later bound noCalls ran

theorem Bound.rests :
    ∃ later v, (∀ a ∈ later, a.isOwn = true) ∧ Transition.run World.step w later = some v ∧ v.AtRest := by
  have noCall : ∀ a : Action, a.isOwn = true → a.isCall = false ∧ a.brings = 0 := by
    intro a own
    cases a <;> first | exact ⟨rfl,rfl⟩ | cases own
  obtain ⟨later,v,all,ran,stuck⟩ := comes_to_rest (Bound tids) (fun a : Action => a.isOwn = true) (World.work tids)
    (fun _ _ _ good own moved => good.step (noCall _ own).1 moved) (fun s a t good own moved => by
      have paid := World.step_pays good.coherent good.within (noCall a own).1 moved
      rw [own,(noCall a own).2] at paid
      simp only [Bool.toNat_true] at paid
      omega) w bound
  have after : Bound tids v := run_invariant (Bound tids) (fun a : Action => a.isOwn = true)
    (fun _ _ _ good own moved => good.step (noCall _ own).1 moved) w v later bound all ran
  exact ⟨later,v,all,ran,after.rest_iff.mp stuck⟩

end

/-- From every state the device can get into, in every continuation without new calls its handlers,
tasks, sensor answers and watcher signals are bounded; some continuation of these alone brings it to
rest; and whenever none of them can go on, it is at rest, with permit and action given back. -/
theorem device_comes_to_rest (threshold : UInt16) (storage : Storage) (templates : UInt8 → Option Owner)
    (actions : List Action) (w : World)
    (ran : run World.step (.boot threshold storage templates) actions = some w) :
    (∃ most, ∀ later v, run World.step w later = some v → (∀ a ∈ later, a.isCall = false) →
        later.countP Action.isOwn ≤ most + total Action.brings later) ∧
      (∃ later v, (∀ a ∈ later, a.isOwn = true) ∧ run World.step w later = some v ∧ v.AtRest) ∧
      ((∀ a, a.isOwn = true → w.step a = none) ↔ w.AtRest) := by
  obtain ⟨tids,bound⟩ := (Bound.boot threshold storage templates).run ran
  refine ⟨⟨w.work tids,fun later v continued noCalls => ?_⟩,bound.rests,bound.rest_iff⟩
  have paid := bound.paid noCalls continued
  omega

/-- A verify whose request is with the sensor, and a second client's enroll that finds the permit taken. -/
def waitingRun : List Action :=
  [.call 0 (ascii ":1.7") (.claim []),.step 0 (.authorized (.ok (1000,some (ascii "mat"))) (.ok false)),.step 0 .go,
    .call 1 (ascii ":1.7") (.verifyStart (ascii "any")),.step 1 .go,.step 1 .go,.step 1 .go,.step 1 .go,.step 1 .go,
    .step 1 .go,.step 1 .go,.call 2 (ascii ":1.7") (.enrollStart (ascii "left-thumb")),.step 2 .go,
    .progress (ascii "place_finger")]

theorem waitingRun_runs : (run World.step (.boot 50 .oneRow fun _ => none) waitingRun).isSome = true := by
  decide +kernel

theorem device_comes_to_rest_waiting :
    ∃ later v, (∀ a ∈ later, a.isOwn = true) ∧
      run World.step ((run World.step (.boot 50 .oneRow fun _ => none) waitingRun).get waitingRun_runs) later = some v ∧
      v.AtRest :=
  (device_comes_to_rest 50 .oneRow _ waitingRun _ (Option.some_get waitingRun_runs).symm).2.1

/-! ### Numbers that were called -/

section
variable {w : World}

/-- A number that was called stays taken. -/
theorem World.called_step {v : World} {a : Action} {t : Tid} (called : (w.threads t).stage ≠ .idle)
    (moved : w.step a = some v) : (v.threads t).stage ≠ .idle := by
  cases World.step_moves moved with
  | call u sender method fresh =>
    have other : t ≠ u := fun same => called (same ▸ fresh)
    rwa [World.spawn,World.threads_setThread_other other]
  | step u choice turn taken =>
    by_cases same : t = u
    · subst t
      have here : (w.commit u turn).threads u = turn.thread := World.threads_setThread_same
      rw [here]
      exact (Stage.turn_ends taken).1
    · have there : (w.commit u turn).threads t = w.threads t := World.threads_setThread_other same
      rwa [there]
  | leave name present => exact called
  | disconnect name rest signals => exact called
  | progress r rest msg queue forwarded =>
    have stage : ((w.hear r msg).threads t).stage = (w.threads t).stage := World.stage_setThread rfl
    rwa [stage]
  | serve r rest executed changed queue effect =>
    have stage : ((w.answer r rest executed changed).threads t).stage = (w.threads t).stage :=
      World.stage_setThread rfl
    rwa [stage]

theorem World.called_run {v : World} {actions : List Action} {t : Tid} {sender : Bytes} {method : Method}
    (member : .call t sender method ∈ actions) (ran : run World.step w actions = some v) :
    (v.threads t).stage ≠ .idle := by
  obtain ⟨before,after,rfl⟩ := List.append_of_mem member
  obtain ⟨u,_,rest⟩ := (run_append World.step w v before _).mp ran
  obtain ⟨called,moved,rest⟩ := (run_cons World.step u v _ after).mp rest
  refine invariant (fun w => (w.threads t).stage ≠ .idle) (fun _ _ _ => World.called_step) called v ?_ ⟨after,rest⟩
  cases World.step_moves moved with
  | call _ _ _ fresh =>
    rw [World.spawn,World.threads_setThread_same]
    exact Stage.noConfusion

end

end R503.Fprint
