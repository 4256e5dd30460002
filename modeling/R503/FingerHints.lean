import R503.DeviceInvariant

/-! When the finger hints are up (dbus_iface.rs). They are cleared with the action, but the second lock of the start
handlers and the PROGRESS lines of a task that was abandoned raise them whether an action is installed or not. -/
namespace R503.Fprint

open Text Transition

def HintsDown (s : DeviceState) : Prop := s.action = none → s.fingerNeeded = false ∧ s.fingerPresent = false

def isHint (msg : Bytes) : Bool :=
  (contains (ascii "place_finger") (lowercase msg) || contains (ascii "place_again") (lowercase msg)) || isRemoveFinger msg

def Stage.raises : Stage → Bool
  | .enroll (.hints _) | .verify (.hints _) => true
  | .enroll (.progress _ msg) | .enroll (.drainProgress _ _ msg) => isHint msg
  | .verify (.progress _ msg) | .verify (.drainProgress _ _ msg) => isHint msg
  | _ => false

inductive HintStep (raises : Bool) (s s' : DeviceState) : Prop where
  | kept (quiet : raises = false) (needed : s'.fingerNeeded = s.fingerNeeded)
      (present : s'.fingerPresent = s.fingerPresent)
  | cleared (quiet : raises = false) (needed : s'.fingerNeeded = false) (present : s'.fingerPresent = false)
  | raised (loud : raises = true) (action : s'.action = s.action)
      (up : s'.fingerNeeded = true ∨ s'.fingerPresent = true)

theorem HintStep.progress (s : DeviceState) (msg : Bytes) :
    HintStep (isHint msg) s (updateFingerStateFromProgress s msg) := by
  unfold updateFingerStateFromProgress isHint
  split
  next place => exact .raised (by rw [place,Bool.true_or]) rfl (.inl rfl)
  next place =>
    rw [Bool.eq_false_iff.mpr place,Bool.false_or]
    split
    next remove => exact .raised remove rfl (.inr rfl)
    next remove => exact .kept (Bool.eq_false_iff.mpr remove) rfl rfl

theorem HintStep.finish {s s' : DeviceState} {token : ActionToken} (ended : s.endActionIfOwner token = (s',true)) :
    HintStep false s s' := by
  obtain ⟨_,rfl⟩ := endActionIfOwner_owner ended
  exact .cleared rfl rfl rfl

theorem HintStep.ended (s : DeviceState) (token : ActionToken) : HintStep false s (s.endActionIfOwner token).1 := by
  unfold DeviceState.endActionIfOwner
  split
  · exact .cleared rfl rfl rfl
  · exact .kept rfl rfl rfl

theorem HintStep.released (s : DeviceState) (sender : Option Bytes) : HintStep false s (s.release sender).1 := by
  unfold DeviceState.release
  split
  · exact .kept rfl rfl rfl
  · split
    · exact .kept rfl rfl rfl
    · exact .cleared rfl rfl rfl

theorem HintStep.claimed (s : DeviceState) (sender : Option Bytes) (user : Bytes) :
    HintStep false s (s.claim sender user).1 := by
  unfold DeviceState.claim
  split
  · split
    · exact .kept rfl rfl rfl
    · split
      · exact .kept rfl rfl rfl
      · exact .kept rfl rfl rfl
  · exact .kept rfl rfl rfl

theorem HintStep.stopped (s : DeviceState) (kind : ActionKind) : HintStep false s (s.stop kind).1 := by
  unfold DeviceState.stop
  split
  · split
    · exact .cleared rfl rfl rfl
    · exact .kept rfl rfl rfl
  · exact .kept rfl rfl rfl

section
variable {t : Tid} {d : Device} {thread : Thread} {choice : Choice} {turn : Turn}

theorem EnrollStage.turn_hints {stage : EnrollStage} (taken : stage.turn t d thread choice = some turn) :
    HintStep (Stage.raises (.enroll stage)) d.state turn.device.state := by
  revert taken
  fun_cases EnrollStage.turn t d thread choice stage
  all_goals
    intro taken
    cases taken
  all_goals
    first
    | exact HintStep.kept rfl rfl rfl
    | exact HintStep.raised rfl rfl (.inl rfl)
    | exact HintStep.progress _ _
    | exact HintStep.finish ‹_›

theorem VerifyStage.turn_hints {stage : VerifyStage} (taken : stage.turn t d thread choice = some turn) :
    HintStep (Stage.raises (.verify stage)) d.state turn.device.state := by
  revert taken
  fun_cases VerifyStage.turn t d thread choice stage
  all_goals
    intro taken
    cases taken
  all_goals
    first
    | exact HintStep.kept rfl rfl rfl
    | exact HintStep.raised rfl rfl (.inl rfl)
    | exact HintStep.progress _ _
    | exact HintStep.finish ‹_›

theorem DeleteStage.turn_hints {stage : DeleteStage} (taken : stage.turn t d thread choice = some turn) :
    HintStep false d.state turn.device.state := by
  revert taken
  fun_cases DeleteStage.turn t d thread choice stage
  all_goals
    intro taken
    cases taken
  all_goals exact HintStep.kept rfl rfl rfl

theorem Method.turn_hints {method : Method} (taken : method.turn t d thread choice = some turn) :
    HintStep false d.state turn.device.state := by
  revert taken
  fun_cases Method.turn t d thread choice method
  all_goals
    intro taken
    cases taken
  all_goals
    first
    | exact HintStep.kept rfl rfl rfl
    | exact HintStep.released _ _

/-- One step of a thread, whatever its stage. -/
theorem Stage.turn_hints (stage : Stage) (taken : stage.turn t d thread choice = some turn) :
    HintStep stage.raises d.state turn.device.state := by
  cases stage with
  | idle => cases taken
  | entry method => exact method.turn_hints taken
  | claim user =>
    cases taken
    exact .claimed _ _ _
  | stop kind =>
    cases taken
    exact .stopped _ _
  | enroll stage => exact stage.turn_hints taken
  | verify stage => exact stage.turn_hints taken
  | delete stage => exact stage.turn_hints taken
  | endAction user token reply =>
    cases taken
    exact .ended _ _
  | finished => cases taken

end

/-! ### Runs -/

/-- A step without an action afterwards had none before, or has cleared the hints. -/
theorem StateStep.action_none {s s' : DeviceState} {thread thread' : Thread} (step : StateStep s s' thread thread')
    (idle : s'.action = none) : s.action = none ∨ s'.fingerNeeded = false ∧ s'.fingerPresent = false := by
  cases step with
  | same action user sender token => exact .inl (action ▸ idle)
  | mint kind free minted fresh token from_ =>
    rw [minted] at idle
    cases idle
  | done token own current cleared gone => exact .inr (by rw [cleared]; exact ⟨rfl,rfl⟩)
  | stop kind token at_ current match_ cleared ended => exact .inr (by rw [cleared]; exact ⟨rfl,rfl⟩)
  | release at_ claimed allowed dropped ended => exact .inr (by rw [dropped]; exact ⟨rfl,rfl⟩)
  | claim user at_ allowed installed ended =>
    rw [installed] at idle
    exact .inl idle

def World.raises (w : World) : Action → Bool
  | .step t _ => (w.threads t).stage.raises
  | _ => false

/-- The hints are raised for an action. -/
def RaisesForAction (w : World) (a : Action) : Prop := w.raises a = true → w.device.state.action ≠ none

instance (w : World) (a : Action) : Decidable (RaisesForAction w a) := inferInstanceAs (Decidable (_ → _))

theorem hintsDown_step {w v : World} {a : Action} (coherent : Coherent w) (down : HintsDown w.device.state)
    (moved : w.step a = some v) : HintsDown v.device.state ↔ RaisesForAction w a := by
  have calm : w.raises a = false → HintsDown v.device.state → (HintsDown v.device.state ↔ RaisesForAction w a) :=
    fun quiet after => iff_of_true after fun loud => by
      rw [quiet] at loud
      cases loud
  cases World.step_moves moved with
  | call t sender method fresh => exact calm rfl down
  | leave name present => exact calm rfl down
  | progress r rest msg queue forwarded => exact calm rfl down
  | serve r rest executed changed queue effect => exact calm rfl down
  | disconnect name rest signals =>
    refine calm rfl ?_
    change HintsDown (w.device.state.handleClientDisconnect name)
    unfold DeviceState.handleClientDisconnect
    split
    · exact fun _ => ⟨rfl,rfl⟩
    · exact down
  | step t choice turn taken =>
    have allowed := Stage.turn_allowed (coherent.kinded t) taken
    change HintsDown turn.device.state ↔ RaisesForAction w (.step t choice)
    cases (w.threads t).stage.turn_hints taken with
    | kept quiet needed present =>
      refine calm quiet fun idle => ?_
      rcases allowed.state.action_none idle with before | lowered
      · obtain ⟨noNeed,noFinger⟩ := down before
        exact ⟨needed.trans noNeed,present.trans noFinger⟩
      · exact lowered
    | cleared quiet needed present => exact calm quiet fun _ => ⟨needed,present⟩
    | raised loud action up =>
      rw [RaisesForAction,HintsDown,action]
      constructor
      · intro after _ idle
        obtain ⟨needed,present⟩ := after idle
        rw [needed,present] at up
        rcases up with never | never <;> cases never
      · exact fun busy idle => absurd idle (busy loud)

/-- In every interleaving, no hint is ever up without an action if and only if every step that raises one is taken
while an action is installed. -/
theorem hints_only_during_operations (threshold : UInt16) (storage : Storage) (templates : UInt8 → Option Owner)
    (actions : List Action) :
    Along World.step (fun _ _ v => HintsDown v.device.state) (.boot threshold storage templates) actions ↔
      Along World.step (fun w a _ => RaisesForAction w a) (.boot threshold storage templates) actions :=
  along_exact Coherent (fun w => HintsDown w.device.state) RaisesForAction
    (fun _ _ _ coherent moved => coherent.step moved) (fun _ _ _ coherent down moved => hintsDown_step coherent down moved)
    _ actions (.boot threshold storage templates) fun _ => ⟨rfl,rfl⟩

/-- An enroll is stopped before its first PROGRESS line is handled; then its task ends. -/
def stoppedEnrollRun : List Action :=
  [.call 0 (ascii ":1.7") (.claim []),.step 0 (.authorized (.ok (1000,some (ascii "mat"))) (.ok false)),.step 0 .go,
    .call 1 (ascii ":1.7") (.enrollStart (ascii "left-thumb")),.step 1 .go,.step 1 .go,.step 1 .go,.step 1 .go,
    .step 1 .go,.step 1 .go,.step 1 .go,
    .call 2 (ascii ":1.7") .enrollStop,.step 2 .go,.step 2 .go,
    .progress (ascii "place_finger"),.step 1 .go,.step 1 .go,
    .serve (.ok (ascii "ERR capture_failed=255")) false,.step 1 .go,.step 1 .closed,.step 1 .go]

theorem hint_after_stop :
    ∃ w, run World.step (.boot 50 .oneRow fun _ => none) stoppedEnrollRun = some w ∧ ¬ HintsDown w.device.state := by
  have state : (run World.step (.boot 50 .oneRow fun _ => none) stoppedEnrollRun).map
      (fun w => (w.device.state.action,w.device.state.fingerNeeded)) = some (none,true) := by decide +kernel
  obtain ⟨w,ran,same⟩ := Option.map_eq_some_iff.mp state
  obtain ⟨idle,needed⟩ := Prod.mk.inj same
  refine ⟨w,ran,fun down => ?_⟩
  rw [(down idle).1] at needed
  cases needed

end R503.Fprint
