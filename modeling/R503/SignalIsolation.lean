import R503.VerifyDecision

/-! Which status signals can be emitted while a capture runs, and after it was stopped. -/
namespace R503.Fprint

open Text Transition

def Mints (w : World) (t : Tid) : Prop := (w.threads t).stage.minting ≠ none ∧ w.device.state.action = none

def Captures (t : Tid) (w : World) : Prop := w.device.captureSlot = some t ∨ (w.threads t).stage = .finished

/-- The thread still has its token, which is not the action any more, or is done. -/
def Stopped (t : Tid) (token : ActionToken) (w : World) : Prop :=
  (w.threads t).stage.token = some token ∧ w.device.state.action ≠ some token ∨ (w.threads t).stage = .finished

/-- Only threads that take a step emit. -/
theorem World.events_step {w v : World} {a : Action} (moved : w.step a = some v) :
    (∃ t choice turn, a = .step t choice ∧ (w.threads t).stage.turn t w.device (w.threads t) choice = some turn ∧
      v = w.commit t turn) ∨
    v.events = w.events ∧ (v.device.captureSlot = w.device.captureSlot) ∧
      (v.device.state.action = w.device.state.action ∨ v.device.state.action = none) ∧
      ∀ t, (w.threads t).stage ≠ .idle → (v.threads t).stage = (w.threads t).stage := by
  cases World.step_moves moved with
  | call t sender method fresh =>
    refine .inr ⟨rfl,rfl,.inl rfl,fun u busy => ?_⟩
    have other : u ≠ t := fun same => busy (same ▸ fresh)
    rw [World.spawn,World.threads_setThread_other other]
  | step t choice turn taken => exact .inl ⟨t,choice,turn,rfl,taken,rfl⟩
  | leave name present => exact .inr ⟨rfl,rfl,.inl rfl,fun _ _ => rfl⟩
  | disconnect name rest signals =>
    refine .inr ⟨rfl,rfl,?_,fun _ _ => rfl⟩
    simp only [World.disconnected,DeviceState.handleClientDisconnect]
    split
    · exact .inr rfl
    · exact .inl rfl
  | progress r rest msg queue forwarded => exact .inr ⟨rfl,rfl,.inl rfl,fun _ _ => World.stage_setThread rfl⟩
  | serve r rest executed changed queue effect => exact .inr ⟨rfl,rfl,.inl rfl,fun _ _ => World.stage_setThread rfl⟩

/-- A thread that is done takes no more steps. -/
theorem Stage.unfinished {t : Tid} {d : Device} {thread : Thread} {choice : Choice} {turn : Turn}
    (taken : thread.stage.turn t d thread choice = some turn) : thread.stage ≠ .finished := fun finished => by
  rw [finished] at taken
  cases taken

theorem World.finished_step {w v : World} {a : Action} {t : Tid} (finished : (w.threads t).stage = .finished)
    (moved : w.step a = some v) : (v.threads t).stage = .finished := by
  rcases World.events_step moved with ⟨u,choice,turn,rfl,taken,rfl⟩ | ⟨_,_,_,stages⟩
  · have other : t ≠ u := fun same => Stage.unfinished taken (same ▸ finished)
    exact (congrArg Thread.stage (World.threads_setThread_other other)).trans finished
  · exact (stages t (by rw [finished]; exact Stage.noConfusion)).trans finished

section
variable {w v : World} {a : Action} {t : Tid} (coherent : Coherent w) (moved : w.step a = some v)
include coherent moved

theorem Captures.step (captures : Captures t w) : Captures t v := by
  rcases captures with permit | finished
  · rcases World.events_step moved with ⟨u,choice,turn,rfl,taken,rfl⟩ | ⟨_,same,_,_⟩
    · rcases (Stage.turn_allowed (coherent.kinded u) taken).permit with ⟨unchanged,_⟩ | ⟨free,_⟩ | ⟨had,_,ended⟩
      · exact .inl (unchanged.trans permit)
      · rw [permit] at free
        cases free
      · obtain rfl := Option.some.inj (permit.symm.trans had)
        have here : (w.commit t turn).threads t = turn.thread := World.threads_setThread_same
        exact .inr (by rw [here]; exact ended)
    · exact .inl (same.trans permit)
  · exact .inr (World.finished_step finished moved)

/-- With the permit taken only its holder emits a status. -/
theorem Captures.alone (permit : w.device.captureSlot = some t) :
    ∃ new, v.events = w.events ++ new ∧ ∀ e ∈ new, e.2.isStatus = true → e.1 = t := by
  rcases World.events_step moved with ⟨u,choice,turn,rfl,taken,rfl⟩ | ⟨same,_,_,_⟩
  · refine ⟨turn.events.map (u,·),rfl,fun e member status => ?_⟩
    obtain ⟨event,emitted,rfl⟩ := List.mem_map.mp member
    have held := (Stage.turn_allowed (coherent.kinded u) taken).signals.permit event emitted status
    exact Option.some.inj ((coherent.permit u held).symm.trans permit)
  · exact ⟨[],by rw [same,List.append_nil],fun _ impossible => by cases impossible⟩

/-- A stopped capture keeps its token to the end, and no other is minted like it. -/
theorem Stopped.step {token : ActionToken} (capture : token.kind ≠ .delete) (stopped : Stopped t token w) :
    Stopped t token v := by
  rcases stopped with ⟨owns,lost⟩ | finished
  swap
  · exact .inr (World.finished_step finished moved)
  have busy : (w.threads t).stage ≠ .idle := fun idle => by
    rw [idle] at owns
    cases owns
  rcases World.events_step moved with ⟨u,choice,turn,rfl,taken,rfl⟩ | ⟨_,_,action,stages⟩
  swap
  · refine .inl ⟨by rw [stages t busy]; exact owns,?_⟩
    rcases action with same | none
    · rwa [same]
    · rw [none]
      exact Option.some_ne_none token ∘ Eq.symm
  have allowed := Stage.turn_allowed (coherent.kinded u) taken
  have action : (w.commit u turn).device.state.action = turn.device.state.action := rfl
  by_cases mine : t = u
  · subst u
    have here : (w.commit t turn).threads t = turn.thread := World.threads_setThread_same
    rw [Stopped,here,action]
    rcases allowed.state with ⟨same,_,_,kept⟩ | ⟨_,_,_,fresh,_,_⟩ | ⟨other,own,current,_,_⟩ | ⟨_,_,at_,_,_,_,_⟩ |
      ⟨at_,_,_,_,_⟩ | ⟨_,at_,_,_,_⟩
    · rw [same]
      rcases kept with kept | ⟨ended,_⟩
      · exact .inl ⟨kept.trans owns,lost⟩
      · exact .inr ended
    · rw [owns] at fresh
      cases fresh
    · obtain rfl := Option.some.inj (owns.symm.trans own)
      exact absurd current lost
    all_goals
      rw [at_] at owns
      cases owns
  · have there : (w.commit u turn).threads t = w.threads t := World.threads_setThread_other mine
    refine .inl ⟨by rw [there]; exact owns,?_⟩
    rw [action]
    rcases allowed.state with ⟨same,_,_,_⟩ | ⟨kind,_,minted,_,_,mints⟩ | ⟨_,_,_,cleared,_⟩ | ⟨_,_,_,_,_,cleared,_⟩ |
      ⟨_,_,_,dropped,_⟩ | ⟨_,_,_,installed,_⟩
    · rwa [same]
    -- a capture is minted with the permit, which the stopped thread has
    · rw [minted]
      intro same
      obtain rfl := Option.some.inj same
      obtain ⟨user,mints⟩ := Option.ne_none_iff_exists'.mp (mints.resolve_left capture)
      exact mine (coherent.exclusive (Stage.holds_of_token (coherent.kinded t) owns capture) (Stage.holds_of_minting mints))
    · rw [cleared]
      exact Option.some_ne_none token ∘ Eq.symm
    · rw [cleared]
      exact Option.some_ne_none token ∘ Eq.symm
    · rw [dropped]
      exact Option.some_ne_none token ∘ Eq.symm
    · rw [installed]
      exact lost

theorem Stopped.silent {token : ActionToken} (stopped : Stopped t token w) :
    ∃ new, v.eventsOf t = w.eventsOf t ++ new ∧ new.countP Event.isTaskDone = 0 := by
  rcases World.events_step moved with ⟨u,choice,turn,rfl,taken,rfl⟩ | ⟨same,_,_,_⟩
  · by_cases mine : t = u
    · subst u
      refine ⟨turn.events,World.eventsOf_commit_same,?_⟩
      rcases (Stage.turn_allowed (coherent.kinded t) taken).signals.task with none | ended
      · exact none
      · rcases stopped with ⟨owns,_⟩ | finished
        · rw [owns] at ended
          cases ended
        · exact absurd finished (Stage.unfinished taken)
    · exact ⟨[],by rw [World.eventsOf_commit_other mine,List.append_nil],rfl⟩
  · exact ⟨[],by rw [World.eventsOf,same,List.append_nil]; rfl,rfl⟩

end

structure SignalsIsolated (w : World) : Prop where
  /-- A start causes one final status at most. -/
  once : ∀ t, (w.eventsOf t).countP Event.isDone ≤ 1
  /-- From the mint to the end of the handler or task only this capture emits a status. -/
  alone : ∀ t choice v later x a y, Mints w t → w.step (.step t choice) = some v → run World.step v later = some x →
    (x.threads t).stage ≠ .finished → x.step a = some y →
    ∃ new, y.events = x.events ++ new ∧ ∀ e ∈ new, e.2.isStatus = true → e.1 = t
  /-- After a stop that returned `Ok` the task of the stopped capture emits no final status. -/
  silenced : ∀ u choice kind v t later x, (w.threads u).stage = .stop kind → (w.device.state.stop kind).2 = .ok () →
    (w.threads t).stage.token = w.device.state.action → w.step (.step u choice) = some v →
    run World.step v later = some x → ∃ new, x.eventsOf t = v.eventsOf t ++ new ∧ new.countP Event.isTaskDone = 0

theorem captures_run {w x : World} {t : Tid} {later : List Action} (coherent : Coherent w) (captures : Captures t w)
    (ran : run World.step w later = some x) : Captures t x :=
  (run_invariant (fun w => Coherent w ∧ Captures t w) (fun _ => True)
    (fun _ _ _ good _ moved => ⟨good.1.step moved,good.2.step good.1 moved⟩) w x later ⟨coherent,captures⟩
    (fun _ _ => trivial) ran).2

theorem silent_run {w x : World} {t : Tid} {token : ActionToken} {later : List Action} (coherent : Coherent w)
    (capture : token.kind ≠ .delete) (stopped : Stopped t token w) (ran : run World.step w later = some x) :
    ∃ new, x.eventsOf t = w.eventsOf t ++ new ∧ new.countP Event.isTaskDone = 0 := by
  refine (run_invariant (fun u => Coherent u ∧ Stopped t token u ∧
    ∃ new, u.eventsOf t = w.eventsOf t ++ new ∧ new.countP Event.isTaskDone = 0) (fun _ => True)
    (fun u a v good _ moved => ?_) w x later ⟨coherent,stopped,[],by rw [List.append_nil],rfl⟩
    (fun _ _ => trivial) ran).2.2
  obtain ⟨coherent,stopped,new,events,silent⟩ := good
  obtain ⟨more,after,quiet⟩ := stopped.silent coherent moved
  refine ⟨coherent.step moved,stopped.step coherent moved capture,new ++ more,?_,?_⟩
  · rw [after,events,List.append_assoc]
  · rw [List.countP_append,silent,quiet]

theorem DeviceState.stop_ok {s : DeviceState} {kind : ActionKind} (stopped : (s.stop kind).2 = .ok ()) :
    ∃ token, s.action = some token ∧ token.kind = kind ∧ (s.stop kind).1 = s.clearAction := by
  unfold DeviceState.stop at stopped ⊢
  split at stopped
  next token current =>
    split at stopped
    next same => exact ⟨token,current,same,by rw [if_pos same]⟩
    next => cases stopped
  · cases stopped

/-- In every interleaving, with any results of the sensor, no status signal leaks from one capture
into another, and none is final after a stop. -/
theorem signals_isolated (threshold : UInt16) (storage : Storage) (templates : UInt8 → Option Owner) (w : World)
    (reached : Reachable World.step (.boot threshold storage templates) w) : SignalsIsolated w := by
  have coherent := (Coherent.boot threshold storage templates).reachable reached
  constructor
  · exact fun t => (counted_reachable reached t).bounds.2.2
  · intro t choice v later x a y mints minted ran active moved
    obtain ⟨user,mints⟩ := Option.ne_none_iff_exists'.mp mints.1
    have permit := coherent.permit t (Stage.holds_of_minting mints)
    have captures := captures_run (coherent.step minted) (Captures.step coherent minted (.inl permit)) ran
    have before := (coherent.step minted).reachable ⟨later,ran⟩
    exact Captures.alone before moved (captures.resolve_right active)
  · intro u choice kind v t later x here ok owns moved ran
    obtain ⟨token,current,same,cleared⟩ := DeviceState.stop_ok ok
    have kinded := coherent.kinded u
    rw [here] at kinded
    have capture : token.kind ≠ .delete := fun delete => kinded (same.symm.trans delete)
    have other : t ≠ u := fun same => by
      rw [same,here,current] at owns
      cases owns
    have stopped : Stopped t token v := by
      obtain ⟨turn,taken,rfl⟩ := Option.map_eq_some_iff.mp moved
      rw [here] at taken
      cases taken
      have there : ∀ turn : Turn, (w.commit u turn).threads t = w.threads t := fun _ => World.threads_setThread_other other
      refine .inl ⟨by rw [there,owns,current],?_⟩
      change (w.device.state.stop kind).1.action ≠ some token
      rw [cleared]
      exact Option.some_ne_none token ∘ Eq.symm
    exact silent_run (coherent.step moved) capture stopped ran

theorem signals_isolated_match : ∃ w, run World.step (.boot 50 .oneRow fun _ => none) matchingRun = some w ∧
    SignalsIsolated w := by
  obtain ⟨w,ran⟩ := Option.isSome_iff_exists.mp matchingRun_runs
  exact ⟨w,ran,signals_isolated 50 .oneRow (fun _ => none) w ⟨matchingRun,ran⟩⟩

end R503.Fprint
