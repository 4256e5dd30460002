import R503.DeviceSteps

/-! Every step of every handler and task is allowed. -/
namespace R503.Fprint

open Text SlotLedger

variable {t : Tid} {d : Device} {thread : Thread} {choice : Choice} {turn : Turn}

/-- One step of an enroll, by the branches of its definition. -/
theorem EnrollStage.turn_allowed {stage : EnrollStage} (here : thread.stage = .enroll stage)
    (kinded : thread.stage.Kinded) (taken : stage.turn t d thread choice = some turn) :
    turn.Allowed t d thread choice := by
  rw [here] at kinded
  revert taken
  fun_cases EnrollStage.turn t d thread choice stage
  all_goals
    intro taken
    cases taken
  all_goals
    refine ⟨rfl,rfl,?permit,?queue,?state,?_,TargetStep.none rfl,?user,?keeps,?kinded,?signals⟩
    case permit =>
      first
      | exact PermitStep.same rfl (by rw [here]; exact fun _ => rfl)
      | exact PermitStep.finish _
      | exact PermitStep.acquire ‹_› rfl
    case queue =>
      first
      | exact QueueStep.calm _ (by rw [here]; rfl) rfl
      | exact QueueStep.answered _ ‹_› rfl
      | exact QueueStep.waiting _ (by rw [here]; rfl) rfl
      | exact QueueStep.ask _ (by rw [here]; rfl) rfl ⟨rfl,rfl⟩
    case state =>
      first
      | exact StateStep.same rfl rfl rfl (.inl (by rw [here]; rfl))
      | exact StateStep.finish (by rw [here]; rfl) ‹_› rfl
      | exact StateStep.notOwner (by rw [here]; rfl) ‹_› rfl
      | exact StateStep.mint .enroll ‹_› rfl (by rw [here]; rfl) rfl (.inr (by rw [here]; exact Option.some_ne_none _))
      | exact StateStep.hints (action_progress _ _) (claimedBy_progress _ _) (claimSender_progress _ _)
          (by rw [here]; rfl)
    case user =>
      first
      | exact UserStep.gone rfl
      | exact UserStep.calm (by rw [here]; rfl) (by rw [here]; rfl) rfl
    case keeps =>
      first
      | exact Or.inl rfl
      | exact Or.inr (by rw [here]; rfl)
    -- a token just minted has its kind, an old one keeps it
    case kinded =>
      first
      | exact kinded
      | exact trivial
      | exact fun _ minted => (by cases minted; rfl)
      | exact fun _ none => (by cases none)
    case signals =>
      first
      | exact SignalStep.silent rfl
      | exact SignalStep.emits (by rw [here]; rfl) (.inl rfl)
      | exact SignalStep.emits (by rw [here]; rfl) (.inr (by rw [here]; rfl))
    -- the registry is left, and the capture but for the choice of a slot and an answer
    first
    | exact RegistryStep.calm (.inr rfl) rfl
    | exact RegistryStep.calm (.inl (by simp only [Thread.capture,here]; rfl)) rfl
    | exact RegistryStep.store _ here rfl rfl
    | skip
  next user finger token slot own =>
    exact .choose ⟨user,finger,slot,token⟩ rfl rfl (.inl own)
  next user finger token missing =>
    refine .same rfl (.inr rfl) fun owner found => ?_
    obtain rfl := Option.some.inj found
    exact missing
  next user finger token slot unused =>
    exact .choose ⟨user,finger,slot,token⟩ rfl rfl
      (.inr ⟨by rw [here]; rfl,fun _ _ => Storage.allocateSlot_unused unused⟩)
  next job executed answered _ =>
    refine .calm (.inl ?_) rfl
    simp only [Thread.capture,here]
    rw [capture,answered]
    rfl

/-- One step of a verify. -/
theorem VerifyStage.turn_allowed {stage : VerifyStage} (here : thread.stage = .verify stage)
    (kinded : thread.stage.Kinded) (taken : stage.turn t d thread choice = some turn) :
    turn.Allowed t d thread choice := by
  rw [here] at kinded
  revert taken
  fun_cases VerifyStage.turn t d thread choice stage
  all_goals
    intro taken
    cases taken
  all_goals
    refine ⟨rfl,rfl,?permit,?queue,?state,?registry,TargetStep.none rfl,?user,?keeps,?kinded,?signals⟩
    case permit =>
      first
      | exact PermitStep.same rfl (by rw [here]; exact fun _ => rfl)
      | exact PermitStep.finish _
      | exact PermitStep.acquire ‹_› rfl
    case queue =>
      first
      | exact QueueStep.calm _ (by rw [here]; rfl) rfl
      | exact QueueStep.answered _ ‹_› rfl
      | exact QueueStep.waiting _ (by rw [here]; rfl) rfl
      | exact QueueStep.ask _ (by rw [here]; rfl) rfl ⟨rfl,rfl⟩
    case state =>
      first
      | exact StateStep.same rfl rfl rfl (.inl (by rw [here]; rfl))
      | exact StateStep.finish (by rw [here]; rfl) ‹_› rfl
      | exact StateStep.notOwner (by rw [here]; rfl) ‹_› rfl
      | exact StateStep.mint .verify ‹_› rfl (by rw [here]; rfl) rfl (.inr (by rw [here]; exact Option.some_ne_none _))
      | exact StateStep.hints (action_progress _ _) (claimedBy_progress _ _) (claimSender_progress _ _)
          (by rw [here]; rfl)
    case registry => exact .calm (.inr rfl) rfl
    case user =>
      first
      | exact UserStep.gone rfl
      | exact UserStep.calm (by rw [here]; rfl) (by rw [here]; rfl) rfl
    case keeps =>
      first
      | exact Or.inl rfl
      | exact Or.inr (by rw [here]; rfl)
    -- a token just minted has its kind, an old one keeps it
    case kinded =>
      first
      | exact kinded
      | exact trivial
      | exact fun _ minted => (by cases minted; rfl)
      | exact fun _ none => (by cases none)
    case signals =>
      first
      | exact SignalStep.silent rfl
      | exact SignalStep.emits (by rw [here]; rfl) (.inl rfl)
      | exact SignalStep.emits (by rw [here]; rfl) (.inr (by rw [here]; rfl))

/-- One step of a delete. -/
theorem DeleteStage.turn_allowed {stage : DeleteStage} (here : thread.stage = .delete stage)
    (kinded : thread.stage.Kinded) (taken : stage.turn t d thread choice = some turn) :
    turn.Allowed t d thread choice := by
  have none : thread.capture = none := by simp only [Thread.capture,here]
  rw [here] at kinded
  revert taken
  fun_cases DeleteStage.turn t d thread choice stage
  all_goals
    intro taken
    cases taken
  all_goals
    refine ⟨rfl,rfl,?permit,?queue,?state,?registry,?_,?user,?keeps,?kinded,.silent rfl⟩
    -- a delete on its way out has a token of its own kind, so it never held the permit
    case permit =>
      first
      | exact PermitStep.same rfl (fun impossible => (by cases impossible))
      | exact PermitStep.finish _
      | exact PermitStep.same rfl (fun held => absurd (kinded _ rfl) (of_decide_eq_true held))
    case queue =>
      first
      | exact QueueStep.calm _ (by rw [here]; rfl) rfl
      | exact QueueStep.answered _ ‹_› rfl
      | exact QueueStep.ask _ (by rw [here]; rfl) rfl ⟨rfl,rfl⟩
    case state =>
      first
      | exact StateStep.same rfl rfl rfl (.inl (by rw [here]; rfl))
      | exact StateStep.mint .delete ‹_› rfl (by rw [here]; rfl) rfl (.inl rfl)
    case registry =>
      first
      | exact RegistryStep.calm (.inr rfl) rfl
      | exact RegistryStep.remove _ _ (by rw [here]; rfl) (by rw [here]; rfl) none.symm rfl rfl rfl
      | exact RegistryStep.remove _ _ (by rw [here]; exact Stage.writing_remove ‹_›) (by rw [here]; rfl) none.symm
          rfl rfl rfl
    case user =>
      first
      | exact UserStep.gone rfl
      | exact UserStep.calm (by rw [here]; rfl) (by rw [here]; rfl) rfl
    case keeps =>
      first
      | exact Or.inl rfl
      | exact Or.inr (by rw [here]; rfl)
    case kinded =>
      first
      | exact kinded
      | exact trivial
      | exact fun _ minted => (by cases minted; rfl)
    -- the slots to erase are those of before, but where they are first read
    first
    | exact TargetStep.none rfl
    | exact fun target member => .kept (by rw [here]; exact member)
    | exact fun target member => .kept (by rw [here]; exact List.mem_cons_of_mem _ member)
    | skip
  next user free _ _ finger slot =>
    refine fun target member => .gate ?_ free
    obtain rfl := List.mem_singleton.mp member
    rw [here]
    rfl
  next user token rows permuted _ =>
    refine fun target member => .read ?_
    obtain ⟨row,listed,rfl⟩ := List.mem_map.mp member
    exact Storage.mem_getUserSlots.mp ((List.isPerm_iff.mp (not_not.mp permuted)).mem_iff.mp listed)
  next locals finger slot rest todo =>
    refine fun target member => .kept ?_
    rw [here,Stage.targets,todo]
    exact member

/-! ### Calls -/

theorem StateStep.released (here : thread.stage = .entry .release) {thread' : Thread} (ended : thread'.stage = .finished) :
    StateStep d.state (d.state.release thread.sender).1 thread thread' := by
  have keep : StateStep d.state d.state thread thread' := .same rfl rfl rfl (.inl (by rw [here,ended]; rfl))
  unfold DeviceState.release
  split
  · exact keep
  next user claimed =>
    split
    · exact keep
    next allowed =>
      exact .release here (by rw [claimed]; exact Option.some_ne_none user) (Bool.eq_false_iff.mpr allowed) rfl ended

theorem StateStep.claimed {user : Bytes} (here : thread.stage = .claim user) {thread' : Thread}
    (ended : thread'.stage = .finished) : StateStep d.state (d.state.claim thread.sender user).1 thread thread' := by
  have keep : StateStep d.state d.state thread thread' := .same rfl rfl rfl (.inl (by rw [here,ended]; rfl))
  unfold DeviceState.claim
  split
  next existing claimed =>
    split
    · exact keep
    next same =>
      obtain rfl := not_not.mp same
      split
      · exact keep
      next inFlight => exact .claim existing here (.inr ⟨claimed,inFlight⟩) rfl ended
  next free => exact .claim user here (.inl free) rfl ended

theorem StateStep.stopped {kind : ActionKind} (here : thread.stage = .stop kind) {thread' : Thread}
    (ended : thread'.stage = .finished) : StateStep d.state (d.state.stop kind).1 thread thread' := by
  have keep : StateStep d.state d.state thread thread' := .same rfl rfl rfl (.inl (by rw [here,ended]; rfl))
  unfold DeviceState.stop
  split
  next token current =>
    split
    next same => exact .stop kind token here current same rfl ended
    next => exact keep
  · exact keep

theorem StateStep.aborted {user : Bytes} {token : ActionToken} {reply : Except FprintError Unit}
    (here : thread.stage = .endAction user token reply) {thread' : Thread} (ended : thread'.stage = .finished) :
    StateStep d.state (d.state.endActionIfOwner token).1 thread thread' := by
  have had : thread.stage.token = some token := by rw [here]; rfl
  cases taken : d.state.endActionIfOwner token with
  | mk s' owner =>
    cases owner with
    | true => exact .finish had taken (by rw [ended]; rfl)
    | false =>
      obtain ⟨_,rfl⟩ := endActionIfOwner_other taken
      exact .notOwner had taken ended

theorem Method.turn_allowed {method : Method} (here : thread.stage = .entry method)
    (taken : method.turn t d thread choice = some turn) : turn.Allowed t d thread choice := by
  have none : thread.capture = none := by simp only [Thread.capture,here]
  revert taken
  fun_cases Method.turn t d thread choice method
  all_goals
    intro taken
    cases taken
  all_goals
    refine ⟨rfl,rfl,?permit,.calm _ (by rw [here]; rfl) rfl,?state,.calm (.inr rfl) rfl,TargetStep.none rfl,?user,
      .inl rfl,?kinded,.silent rfl⟩
    case permit =>
      first
      | exact PermitStep.same rfl (fun impossible => (by cases impossible))
      | exact PermitStep.finish _
    case state =>
      first
      | exact StateStep.same rfl rfl rfl (.inl (by rw [here]; rfl))
      | exact StateStep.released here rfl
    case user =>
      first
      | exact UserStep.gone rfl
      | exact UserStep.ofClaim here ‹_› rfl rfl
      | exact UserStep.ofAuth (.inl ⟨here,rfl⟩) ‹_› rfl
      | exact UserStep.ofAuth (.inr ⟨here,rfl⟩) ‹_› rfl
    case kinded =>
      first
      | exact trivial
      | exact ActionKind.noConfusion
      | exact fun _ impossible => (by cases impossible)

/-- One step of a thread, whatever its stage. -/
theorem Stage.turn_allowed (kinded : thread.stage.Kinded)
    (taken : thread.stage.turn t d thread choice = some turn) : turn.Allowed t d thread choice := by
  cases here : thread.stage with
  | idle =>
    rw [here] at taken
    cases taken
  | entry method =>
    rw [here] at taken
    exact method.turn_allowed here taken
  | claim user =>
    rw [here] at taken
    cases taken
    exact ⟨rfl,rfl,.finish _,.calm _ (by rw [here]; rfl) rfl,.claimed here rfl,.calm (.inr rfl) rfl,TargetStep.none rfl,
      UserStep.gone rfl,.inl rfl,trivial,.silent rfl⟩
  | stop kind =>
    rw [here] at taken
    cases taken
    exact ⟨rfl,rfl,.finish _,.calm _ (by rw [here]; rfl) rfl,.stopped here rfl,.calm (.inr rfl) rfl,TargetStep.none rfl,
      UserStep.gone rfl,.inl rfl,trivial,.silent rfl⟩
  | enroll stage =>
    rw [here] at taken
    exact stage.turn_allowed here kinded taken
  | verify stage =>
    rw [here] at taken
    exact stage.turn_allowed here kinded taken
  | delete stage =>
    rw [here] at taken
    exact stage.turn_allowed here kinded taken
  | endAction user token reply =>
    rw [here] at taken
    cases taken
    exact ⟨rfl,rfl,.finish _,.calm _ (by rw [here]; rfl) rfl,.aborted here rfl,.calm (.inr rfl) rfl,TargetStep.none rfl,
      UserStep.gone rfl,.inl rfl,trivial,.silent rfl⟩
  | finished =>
    rw [here] at taken
    cases taken

end R503.Fprint
