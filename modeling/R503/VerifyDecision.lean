import R503.DeviceInvariant

/-! The verify loop of every accepted `VerifyStart`: how often it asks the sensor, what its one
final status rests on, and that it ends. -/
namespace R503.Fprint

open Text Transition

/-! ### The events of one thread -/

def World.eventsOf (w : World) (t : Tid) : List Event := (w.events.filter (·.1 = t)).map (·.2)

namespace World

variable {w : World} {t : Tid} {turn : Turn}

theorem eventsOf_commit_same : (w.commit t turn).eventsOf t = w.eventsOf t ++ turn.events := by
  have own : (turn.events.map (t,·)).filter (fun e => decide (e.1 = t)) = turn.events.map (t,·) :=
    List.filter_eq_self.mpr (by simp)
  simp [eventsOf,commit,List.filter_append,own,Function.comp_def]

theorem eventsOf_commit_other {u : Tid} (other : u ≠ t) : (w.commit t turn).eventsOf u = w.eventsOf u := by
  have none : (turn.events.map (t,·)).filter (fun e => decide (e.1 = u)) = [] :=
    List.filter_eq_nil_iff.mpr (by simp [Ne.symm other])
  simp [eventsOf,commit,List.filter_append,none]

end World

namespace Event

def isVerifyCall : Event → Bool
  | .requested .verify => true
  | _ => false

def isRetryScan : Event → Bool
  | .verifyStatus .retryScan false => true
  | _ => false

def isMatch : Event → Bool
  | .verifyStatus .matched _ => true
  | _ => false

def result : Event → Option Executed
  | .replied executed => some executed
  | _ => none

end Event

def lastReply (events : List Event) : Option Executed := (events.filterMap Event.result).getLast?

/-! ### Counting -/

/-- How many verify calls, retry signals and final signals a thread has made by a stage. -/
def Stage.Tallied (calls scans dones : Nat) : Stage → Prop
  | .verify (.check job) | .verify (.send job) =>
    calls = job.retries ∧ scans = job.retries ∧ job.retries ≤ maxRetries ∧ dones = 0
  | .verify (.await job) | .verify (.progress job _) =>
    calls = job.retries + 1 ∧ scans = job.retries ∧ job.retries ≤ maxRetries ∧ dones = 0
  | .verify (.retry job) =>
    calls = job.retries ∧ scans + 1 = job.retries ∧ job.retries ≤ maxRetries ∧ dones = 0
  | .verify (.selected job) | .verify (.hints job) => calls = 0 ∧ scans = 0 ∧ dones = 0 ∧ job.retries = 0
  | .verify (.drain _ _) | .verify (.drainProgress _ _ _) | .verify (.finish _ _) | .verify (.emit _) =>
    calls ≤ maxRetries + 1 ∧ scans ≤ maxRetries ∧ dones = 0
  | .endAction _ _ _ | .finished => calls ≤ maxRetries + 1 ∧ scans ≤ maxRetries ∧ dones ≤ 1
  | _ => calls = 0 ∧ scans = 0 ∧ dones = 0

def Stage.Counted (stage : Stage) (events : List Event) : Prop :=
  stage.Tallied (events.countP Event.isVerifyCall) (events.countP Event.isRetryScan) (events.countP Event.isDone)

theorem Stage.Counted.bounds {stage : Stage} {events : List Event} (counted : stage.Counted events) :
    events.countP Event.isVerifyCall ≤ 6 ∧ events.countP Event.isRetryScan ≤ 5 ∧ events.countP Event.isDone ≤ 1 := by
  unfold Stage.Counted Stage.Tallied maxRetries at counted
  split at counted <;> omega

section
variable {t : Tid} {d : Device} {thread : Thread} {choice : Choice} {turn : Turn} {calls scans dones : Nat}

theorem VerifyStage.tallied {stage : VerifyStage} (tallied : Stage.Tallied calls scans dones (.verify stage))
    (taken : stage.turn t d thread choice = some turn) :
    turn.thread.stage.Tallied (calls + turn.events.countP Event.isVerifyCall)
      (scans + turn.events.countP Event.isRetryScan) (dones + turn.events.countP Event.isDone) := by
  revert tallied taken
  fun_cases VerifyStage.turn t d thread choice stage
  all_goals
    intro tallied taken
    cases taken
  all_goals
    simp only [Stage.Tallied] at tallied
    simp [Stage.Tallied,Turn.goto,Turn.ask,Turn.ret,Turn.finish,Event.isVerifyCall,Event.isRetryScan,
      Event.isDone]
  all_goals try omega
  next again =>
    have below := judge_again again
    omega

theorem EnrollStage.tallied {stage : EnrollStage} (tallied : Stage.Tallied calls scans dones (.enroll stage))
    (taken : stage.turn t d thread choice = some turn) :
    turn.thread.stage.Tallied (calls + turn.events.countP Event.isVerifyCall)
      (scans + turn.events.countP Event.isRetryScan) (dones + turn.events.countP Event.isDone) := by
  revert tallied taken
  fun_cases EnrollStage.turn t d thread choice stage
  all_goals
    intro tallied taken
    cases taken
  all_goals
    simp only [Stage.Tallied] at tallied
    simp [Stage.Tallied,Turn.goto,Turn.ask,Turn.ret,Turn.finish,Event.isVerifyCall,Event.isRetryScan,
      Event.isDone]
  all_goals omega

theorem DeleteStage.tallied {stage : DeleteStage} (tallied : Stage.Tallied calls scans dones (.delete stage))
    (taken : stage.turn t d thread choice = some turn) :
    turn.thread.stage.Tallied (calls + turn.events.countP Event.isVerifyCall)
      (scans + turn.events.countP Event.isRetryScan) (dones + turn.events.countP Event.isDone) := by
  revert tallied taken
  fun_cases DeleteStage.turn t d thread choice stage
  all_goals
    intro tallied taken
    cases taken
  all_goals
    simp only [Stage.Tallied] at tallied
    simp [Stage.Tallied,Turn.goto,Turn.ask,Turn.ret,Turn.finish,Event.isVerifyCall,Event.isRetryScan,
      Event.isDone]
  all_goals omega

theorem Method.tallied {method : Method} (tallied : Stage.Tallied calls scans dones (.entry method))
    (taken : method.turn t d thread choice = some turn) :
    turn.thread.stage.Tallied (calls + turn.events.countP Event.isVerifyCall)
      (scans + turn.events.countP Event.isRetryScan) (dones + turn.events.countP Event.isDone) := by
  revert tallied taken
  fun_cases Method.turn t d thread choice method
  all_goals
    intro tallied taken
    cases taken
  all_goals
    simp only [Stage.Tallied] at tallied
    simp [Stage.Tallied,Turn.goto,Turn.ret,Turn.finish,Event.isVerifyCall,Event.isRetryScan,
      Event.isDone]
  all_goals omega

/-- The tally goes with every step, whatever the stage. -/
theorem Stage.tallied {stage : Stage} (tallied : stage.Tallied calls scans dones)
    (taken : stage.turn t d thread choice = some turn) :
    turn.thread.stage.Tallied (calls + turn.events.countP Event.isVerifyCall)
      (scans + turn.events.countP Event.isRetryScan) (dones + turn.events.countP Event.isDone) := by
  have last : (calls = 0 ∧ scans = 0 ∧ dones = 0 ∨ calls ≤ maxRetries + 1 ∧ scans ≤ maxRetries ∧ dones ≤ 1) →
      Stage.Tallied calls scans dones .finished := by
    simp only [Stage.Tallied]
    omega
  cases stage with
  | idle | finished => cases taken
  | entry method => exact method.tallied tallied taken
  | enroll stage => exact stage.tallied tallied taken
  | verify stage => exact stage.tallied tallied taken
  | delete stage => exact stage.tallied tallied taken
  | claim user | stop kind =>
    cases taken
    exact last (.inl tallied)
  | endAction user token reply =>
    cases taken
    exact last (.inr tallied)

end

/-- Every thread's events are tallied by its stage. -/
theorem counted_step {w v : World} {a : Action} (counted : ∀ t, (w.threads t).stage.Counted (w.eventsOf t))
    (moved : w.step a = some v) (t : Tid) : (v.threads t).stage.Counted (v.eventsOf t) := by
  cases World.step_moves moved with
  | call u sender method fresh =>
    by_cases same : t = u
    · subst t
      have before := counted u
      rw [fresh] at before
      rw [World.spawn,World.threads_setThread_same]
      exact before
    · rw [World.spawn,World.threads_setThread_other same]
      exact counted t
  | step u choice turn taken =>
    by_cases same : t = u
    · subst t
      have here : (w.commit u turn).threads u = turn.thread := World.threads_setThread_same
      rw [here,World.eventsOf_commit_same]
      simp only [Stage.Counted,List.countP_append]
      exact Stage.tallied (counted u) taken
    · have there : (w.commit u turn).threads t = w.threads t := World.threads_setThread_other same
      rw [there,World.eventsOf_commit_other same]
      exact counted t
  | leave name present => exact counted t
  | disconnect name rest signals => exact counted t
  | progress r rest msg queue forwarded =>
    have stage : ((w.hear r msg).threads t).stage = (w.threads t).stage := World.stage_setThread rfl
    rw [stage]
    exact counted t
  | serve r rest executed changed queue effect =>
    have stage : ((w.answer r rest executed changed).threads t).stage = (w.threads t).stage :=
      World.stage_setThread rfl
    rw [stage]
    exact counted t

theorem counted_reachable {threshold : UInt16} {storage : Storage} {templates : UInt8 → Option Owner} {w : World}
    (reached : Reachable World.step (.boot threshold storage templates) w) (t : Tid) :
    (w.threads t).stage.Counted (w.eventsOf t) :=
  invariant (fun w => ∀ t, (w.threads t).stage.Counted (w.eventsOf t))
    (fun _ _ _ counted moved => counted_step counted moved) _ w (fun _ => ⟨rfl,rfl,rfl⟩) reached t

/-! ### What a match rests on -/

/-- The registry maps the finger of the user, or some finger if it is `any`, to the slot. -/
def Registered (storage : Storage) (user finger : Bytes) (slot : UInt8) : Prop :=
  if finger = ascii "any" then ∃ f, storage.getSlot user f = some slot
  else storage.getSlot user finger = some slot

theorem expectedSlots_registered {storage : Storage} {user finger : Bytes} {expected : List UInt8}
    (given : expectedSlots (storage.getUserSlots user) user finger = .ok expected) :
    ∀ slot ∈ expected, Registered storage user finger slot := by
  unfold expectedSlots at given
  intro slot member
  split at given
  · cases given
  split at given
  next any =>
    obtain rfl := Except.ok.inj given
    obtain ⟨⟨f,s⟩,row,rfl⟩ := List.mem_map.mp member
    rw [Registered,if_pos any]
    exact ⟨f,Storage.mem_getUserSlots.mp row⟩
  next other =>
    split at given
    · cases given
    next s found =>
      obtain rfl := Except.ok.inj given
      obtain rfl := List.mem_singleton.mp member
      rw [Registered,if_neg other]
      refine Storage.mem_getUserSlots.mp ?_
      obtain ⟨first,rest,rows,_⟩ := List.lookup_eq_some_iff.mp found
      rw [rows]
      simp

structure Facts where
  /-- Its call to verify `finger` passed the check that the claim was for `user`. -/
  called : (user finger : Bytes) → Prop
  /-- When its token was minted, the registry mapped the finger to the slot. -/
  minted : (user finger : Bytes) → (token : ActionToken) → (slot : UInt8) → Prop
  /-- Its token was the current action when it finished. -/
  current : (token : ActionToken) → Prop

variable (facts : Facts) (threshold : UInt16) (events : List Event)

def Unmatched : Prop := ∀ e ∈ events, e.isMatch = false

def Backed (job : VerifyJob) : Prop :=
  facts.called job.user job.finger ∧
    ∀ slot ∈ job.expected, facts.minted job.user job.finger job.token slot

def Decided (job : VerifyJob) : Prop :=
  ∃ executed slot confidence, lastReply events = some executed ∧
    verifyReply executed = .ok ⟨slot,confidence⟩ ∧ slot ∈ job.expected ∧ threshold ≤ confidence

/-- The last reply is a match on a slot of the claimed user's finger, and it still counted. -/
def Justified : Prop :=
  ∃ executed user finger token slot confidence, lastReply events = some executed ∧
    verifyReply executed = .ok ⟨slot,confidence⟩ ∧ threshold ≤ confidence ∧
    facts.called user finger ∧ facts.minted user finger token slot ∧ facts.current token

/-- What a thread with these events has established at a stage. -/
def Stage.Grounded : Stage → Prop
  | .verify (.permit user finger) | .verify (.mint user finger) => facts.called user finger ∧ Unmatched events
  | .verify (.selected job) | .verify (.hints job) | .verify (.check job) | .verify (.send job)
  | .verify (.await job) | .verify (.progress job _) | .verify (.retry job) =>
    Backed facts job ∧ Unmatched events
  | .verify (.drain job status) | .verify (.drainProgress job status _) | .verify (.finish job status) =>
    Backed facts job ∧ Unmatched events ∧ (status = some .matched → Decided threshold events job)
  | .verify (.emit status) => Unmatched events ∧ (status = .matched → Justified facts threshold events)
  | .finished => Unmatched events ∨ Justified facts threshold events
  | _ => Unmatched events

variable {facts threshold events}

theorem Unmatched.append {more : List Event} (before : Unmatched events) (quiet : more.all fun e => !e.isMatch) :
    Unmatched (events ++ more) := by
  refine List.forall_mem_append.mpr ⟨before,fun e member => ?_⟩
  have := List.all_eq_true.mp quiet e member
  simpa using this

@[simp] theorem lastReply_replied (executed : Executed) : lastReply (events ++ [.replied executed]) = some executed := by
  simp [lastReply,Event.result]

theorem lastReply_silent {more : List Event} (silent : more.filterMap Event.result = []) :
    lastReply (events ++ more) = lastReply events := by
  simp [lastReply,silent]

theorem Decided.append {job : VerifyJob} {more : List Event} (decided : Decided threshold events job)
    (silent : more.filterMap Event.result = []) : Decided threshold (events ++ more) job := by
  rw [Decided,lastReply_silent silent]
  exact decided

theorem Justified.append {more : List Event} (justified : Justified facts threshold events)
    (silent : more.filterMap Event.result = []) : Justified facts threshold (events ++ more) := by
  rw [Justified,lastReply_silent silent]
  exact justified

/-- The reply that ends the loop with a match. -/
theorem Decided.of_judge {job : VerifyJob} {elapsed : Nat} {executed : Executed} {status : VerifyStatus}
    (judged : judge threshold job.expected job.retries elapsed (verifyReply executed) = .final status)
    (matched : some status = some .matched) : Decided threshold (events ++ [.replied executed]) job := by
  obtain rfl := Option.some.inj matched
  obtain ⟨slot,confidence,result,expected,enough⟩ := judge_matched judged
  exact ⟨executed,slot,confidence,lastReply_replied executed,result,expected,enough⟩

theorem Justified.of_decided {job : VerifyJob} (decided : Decided threshold events job) (backed : Backed facts job)
    (current : facts.current job.token) : Justified facts threshold events := by
  obtain ⟨executed,slot,confidence,last,result,expected,enough⟩ := decided
  exact ⟨executed,job.user,job.finger,job.token,slot,confidence,last,result,enough,backed.1,
    backed.2 slot expected,current⟩

theorem VerifyStage.grounded {t : Tid} {d : Device} {thread : Thread} {choice : Choice} {turn : Turn}
    {stage : VerifyStage} (grounded : Stage.Grounded facts d.confidenceThreshold events (.verify stage))
    (minted : ∀ user finger slot, stage = .mint user finger → d.state.action = none →
      Registered d.storage user finger slot → facts.minted user finger (d.state.freshToken .verify) slot)
    (current : ∀ job, stage = .finish job (some .matched) → d.state.action = some job.token → facts.current job.token)
    (taken : stage.turn t d thread choice = some turn) :
    turn.thread.stage.Grounded facts d.confidenceThreshold (events ++ turn.events) := by
  revert grounded taken
  fun_cases VerifyStage.turn t d thread choice stage
  all_goals
    intro grounded taken
    cases taken
  all_goals first
  | exact grounded.2.append rfl
  | exact .inl (grounded.2.append rfl)
  | exact ⟨grounded.1,grounded.2.append rfl⟩
  | exact ⟨grounded.1,grounded.2.append rfl,.of_judge ‹_›⟩
  | exact ⟨grounded.1,grounded.2.append rfl,fun impossible => (by cases impossible)⟩
  | exact .inl (grounded.2.1.append rfl)
  | exact ⟨grounded.1,grounded.2.1.append rfl,fun matched => (grounded.2.2 matched).append rfl⟩
  | skip
  next user finger free _ _ expected given =>
    exact ⟨⟨grounded.1,fun slot member => minted user finger slot rfl free
      (expectedSlots_registered given slot member)⟩,grounded.2.append rfl⟩
  next job s status ended =>
    refine ⟨grounded.2.1.append rfl,fun matched => ?_⟩
    subst status
    exact (Justified.of_decided (grounded.2.2 rfl) grounded.1
      (current job rfl (endActionIfOwner_owner ended).1)).append rfl
  next status =>
    cases status with
    | matched => exact .inr ((grounded.2 rfl).append rfl)
    | _ => exact .inl (grounded.1.append rfl)

theorem EnrollStage.grounded {t : Tid} {d : Device} {thread : Thread} {choice : Choice} {turn : Turn}
    {stage : EnrollStage} (grounded : Stage.Grounded facts threshold events (.enroll stage))
    (taken : stage.turn t d thread choice = some turn) :
    turn.thread.stage.Grounded facts threshold (events ++ turn.events) := by
  revert taken
  fun_cases EnrollStage.turn t d thread choice stage
  all_goals
    intro taken
    cases taken
  all_goals first
  | exact Unmatched.append grounded rfl
  | exact .inl (Unmatched.append grounded rfl)

theorem DeleteStage.grounded {t : Tid} {d : Device} {thread : Thread} {choice : Choice} {turn : Turn}
    {stage : DeleteStage} (grounded : Stage.Grounded facts threshold events (.delete stage))
    (taken : stage.turn t d thread choice = some turn) :
    turn.thread.stage.Grounded facts threshold (events ++ turn.events) := by
  revert taken
  fun_cases DeleteStage.turn t d thread choice stage
  all_goals
    intro taken
    cases taken
  all_goals first
  | exact Unmatched.append grounded rfl
  | exact .inl (Unmatched.append grounded rfl)

theorem Method.grounded {t : Tid} {d : Device} {thread : Thread} {choice : Choice} {turn : Turn} {method : Method}
    (grounded : Stage.Grounded facts threshold events (.entry method))
    (called : ∀ user finger, method = .verifyStart finger → d.state.ensureClaim thread.sender = .ok user →
      facts.called user finger)
    (taken : method.turn t d thread choice = some turn) :
    turn.thread.stage.Grounded facts threshold (events ++ turn.events) := by
  revert taken
  fun_cases Method.turn t d thread choice method
  all_goals
    intro taken
    cases taken
  all_goals first
  | exact Unmatched.append grounded rfl
  | exact .inl (Unmatched.append grounded rfl)
  | exact ⟨called _ _ rfl ‹_›,Unmatched.append grounded rfl⟩

/-- What the facts have to include for a step to keep a thread grounded. -/
structure Facts.Cover (facts : Facts) (d : Device) (thread : Thread) : Prop where
  called : ∀ user finger, thread.stage = .entry (.verifyStart finger) →
    d.state.ensureClaim thread.sender = .ok user → facts.called user finger
  minted : ∀ user finger slot, thread.stage = .verify (.mint user finger) → d.state.action = none →
    Registered d.storage user finger slot → facts.minted user finger (d.state.freshToken .verify) slot
  current : ∀ job, thread.stage = .verify (.finish job (some .matched)) → d.state.action = some job.token →
    facts.current job.token

theorem Stage.grounded {t : Tid} {d : Device} {thread : Thread} {choice : Choice} {turn : Turn}
    (grounded : thread.stage.Grounded facts d.confidenceThreshold events) (cover : facts.Cover d thread)
    (taken : thread.stage.turn t d thread choice = some turn) :
    turn.thread.stage.Grounded facts d.confidenceThreshold (events ++ turn.events) := by
  cases here : thread.stage with
  | idle | finished =>
    rw [here] at taken
    cases taken
  | entry method =>
    rw [here] at taken grounded
    exact method.grounded grounded (fun user finger same => cover.called user finger (same ▸ here)) taken
  | enroll stage =>
    rw [here] at taken grounded
    exact stage.grounded grounded taken
  | verify stage =>
    rw [here] at taken grounded
    exact stage.grounded grounded (fun user finger slot same => cover.minted user finger slot (same ▸ here))
      (fun job same => cover.current job (same ▸ here)) taken
  | delete stage =>
    rw [here] at taken grounded
    exact stage.grounded grounded taken
  | claim _ | stop _ | endAction _ _ _ =>
    rw [here] at taken grounded
    cases taken
    exact .inl (Unmatched.append grounded rfl)

/-- More facts ground at least as much. -/
theorem Stage.Grounded.mono {stage : Stage} {facts' : Facts} (grounded : stage.Grounded facts threshold events)
    (called : ∀ user finger, facts.called user finger → facts'.called user finger)
    (minted : ∀ user finger token slot, facts.minted user finger token slot → facts'.minted user finger token slot)
    (current : ∀ token, facts.current token → facts'.current token) : stage.Grounded facts' threshold events := by
  have backed : ∀ job, Backed facts job → Backed facts' job := fun job before =>
    ⟨called _ _ before.1,fun slot member => minted _ _ _ _ (before.2 slot member)⟩
  have justified : Justified facts threshold events → Justified facts' threshold events := by
    rintro ⟨executed,user,finger,token,slot,confidence,last,result,enough,call,mint,now⟩
    exact ⟨executed,user,finger,token,slot,confidence,last,result,enough,called _ _ call,minted _ _ _ _ mint,
      current _ now⟩
  cases stage with
  | verify stage =>
    cases stage with
    | permit | mint => exact ⟨called _ _ grounded.1,grounded.2⟩
    | emit => exact ⟨grounded.1,fun matched => justified (grounded.2 matched)⟩
    | _ => exact ⟨backed _ grounded.1,grounded.2⟩
  | finished => exact Or.imp id justified grounded
  | _ => exact grounded

def factsOf (start : World) (actions : List Action) (t : Tid) : Facts where
  called user finger := Took World.step start (fun _ u a => (∃ choice, a = .step t choice) ∧
    (u.threads t).stage = .entry (.verifyStart finger) ∧
      u.device.state.ensureClaim (u.threads t).sender = .ok user) actions
  minted user finger token slot := Took World.step start (fun _ u a => (∃ choice, a = .step t choice) ∧
    (u.threads t).stage = .verify (.mint user finger) ∧ u.device.state.action = none ∧
      u.device.state.freshToken .verify = token ∧ Registered u.device.storage user finger slot) actions
  current token := Took World.step start (fun _ u a => (∃ choice, a = .step t choice) ∧
    ∃ job, (u.threads t).stage = .verify (.finish job (some .matched)) ∧ job.token = token ∧
      u.device.state.action = some token) actions

theorem factsOf_later {start : World} {actions : List Action} {t : Tid} {stage : Stage} (more : List Action)
    (grounded : stage.Grounded (factsOf start actions t) threshold events) :
    stage.Grounded (factsOf start (actions ++ more) t) threshold events :=
  grounded.mono (fun _ _ => (Took.later · more)) (fun _ _ _ _ => (Took.later · more))
    (fun _ => (Took.later · more))

/-- The facts of a run cover the last step of its thread. -/
theorem factsOf_cover {start w : World} {actions : List Action} (ran : run World.step start actions = some w)
    (t : Tid) (choice : Choice) : (factsOf start (actions ++ [.step t choice]) t).Cover w.device (w.threads t) where
  called _ _ here claimed := .now ran ⟨⟨choice,rfl⟩,here,claimed⟩
  minted _ _ _ here free registered := .now ran ⟨⟨choice,rfl⟩,here,free,rfl,registered⟩
  current job here now := .now ran ⟨⟨choice,rfl⟩,job,here,rfl,now⟩

structure Shown (start : World) (actions : List Action) (w : World) : Prop where
  coherent : Coherent w
  threshold : w.device.confidenceThreshold = start.device.confidenceThreshold
  grounded : ∀ t, (w.threads t).stage.Grounded (factsOf start actions t) w.device.confidenceThreshold (w.eventsOf t)

theorem Shown.step {start w v : World} {actions : List Action} {a : Action} (shown : Shown start actions w)
    (ran : run World.step start actions = some w) (moved : w.step a = some v) : Shown start (actions ++ [a]) v := by
  have coherent := shown.coherent.step moved
  have earlier := fun t => factsOf_later [a] (shown.grounded t)
  cases World.step_moves moved with
  | call u sender method fresh =>
    refine ⟨coherent,shown.threshold,fun t => ?_⟩
    by_cases same : t = u
    · subst t
      have before := earlier u
      rw [fresh] at before
      rw [World.spawn,World.threads_setThread_same]
      exact before
    · rw [World.spawn,World.threads_setThread_other same]
      exact earlier t
  | step u choice turn taken =>
    have kept := (Stage.turn_allowed (shown.coherent.kinded u) taken).threshold
    refine ⟨coherent,kept.trans shown.threshold,fun t => ?_⟩
    have same_threshold : (w.commit u turn).device.confidenceThreshold = w.device.confidenceThreshold := kept
    rw [same_threshold]
    by_cases same : t = u
    · subst t
      have here : (w.commit u turn).threads u = turn.thread := World.threads_setThread_same
      rw [here,World.eventsOf_commit_same]
      exact Stage.grounded (earlier u) (factsOf_cover ran u choice) taken
    · have there : (w.commit u turn).threads t = w.threads t := World.threads_setThread_other same
      rw [there,World.eventsOf_commit_other same]
      exact earlier t
  | leave name present => exact ⟨coherent,shown.threshold,earlier⟩
  | disconnect name rest signals => exact ⟨coherent,shown.threshold,earlier⟩
  | progress r rest msg queue forwarded =>
    refine ⟨coherent,shown.threshold,fun t => ?_⟩
    have stage : ((w.hear r msg).threads t).stage = (w.threads t).stage := World.stage_setThread rfl
    rw [stage]
    exact earlier t
  | serve r rest executed changed queue effect =>
    refine ⟨coherent,shown.threshold,fun t => ?_⟩
    have stage : ((w.answer r rest executed changed).threads t).stage = (w.threads t).stage :=
      World.stage_setThread rfl
    rw [stage]
    exact earlier t

theorem shown {bound : UInt16} {storage : Storage} {templates : UInt8 → Option Owner} {actions : List Action}
    {w : World} (ran : run World.step (.boot bound storage templates) actions = some w) :
    Shown (.boot bound storage templates) actions w :=
  history_invariant _ (Shown (.boot bound storage templates))
    ⟨.boot bound storage templates,rfl,fun _ _ impossible => by cases impossible⟩
    (fun _ _ _ _ good before moved => good.step before moved) actions w ran

theorem Stage.Grounded.justified {stage : Stage} (grounded : stage.Grounded facts threshold events)
    {e : Event} (member : e ∈ events) (matched : e.isMatch = true) : Justified facts threshold events := by
  have not : ¬ Unmatched events := fun unmatched => by
    rw [unmatched e member] at matched
    cases matched
  unfold Stage.Grounded at grounded
  split at grounded
  all_goals first
  | exact absurd grounded not
  | exact absurd grounded.2 not
  | exact absurd grounded.2.1 not
  | exact absurd grounded.1 not
  | exact Or.resolve_left grounded not

/-! ### The loop ends -/

/-- How many steps of its own a verify has left, PROGRESS lines apart. -/
def VerifyStage.left : VerifyStage → Nat
  | .permit _ _ => 31
  | .mint _ _ => 30
  | .selected job => 9 + 4 * (maxRetries - job.retries)
  | .hints job => 8 + 4 * (maxRetries - job.retries)
  | .retry job => 7 + 4 * (maxRetries - job.retries)
  | .check job => 6 + 4 * (maxRetries - job.retries)
  | .send job | .progress job _ => 5 + 4 * (maxRetries - job.retries)
  | .await job => 4 + 4 * (maxRetries - job.retries)
  | .drainProgress _ _ _ => 4
  | .drain _ _ => 3
  | .finish _ _ => 2
  | .emit _ => 1

def Stage.left : Stage → Nat
  | .verify stage => stage.left
  | .endAction _ _ _ => 1
  | _ => 0

theorem Stage.left_le (stage : Stage) : stage.left ≤ 31 := by
  cases stage with
  | verify stage =>
    cases stage <;> simp only [Stage.left,VerifyStage.left,maxRetries] <;> omega
  | _ => simp [Stage.left]

def Stage.verifying : Stage → Bool
  | .verify _ | .endAction _ _ _ | .finished => true
  | _ => false

/-- Each line still to be received takes two steps. -/
def Thread.left (thread : Thread) : Nat := thread.stage.left + 2 * thread.inbox.length

theorem VerifyStage.turn_left {t : Tid} {d : Device} {thread : Thread} {choice : Choice} {turn : Turn}
    {stage : VerifyStage} (here : thread.stage = .verify stage) (taken : stage.turn t d thread choice = some turn) :
    turn.thread.stage.verifying = true ∧ turn.thread.left < thread.left := by
  revert taken
  fun_cases VerifyStage.turn t d thread choice stage
  all_goals
    intro taken
    cases taken
  all_goals
    refine ⟨rfl,?_⟩
    simp [Thread.left,here,Stage.left,VerifyStage.left,Turn.goto,Turn.ask,Turn.ret,Turn.finish,maxRetries]
  all_goals try omega
  next lines =>
    rw [Choice.seen_cons lines,List.length_cons]
    omega
  next again =>
    have below := judge_again again
    unfold maxRetries at below
    omega
  next lines _ =>
    rw [lines,List.length_cons]
    omega

theorem Stage.turn_left {t : Tid} {d : Device} {thread : Thread} {choice : Choice} {turn : Turn}
    (verifying : thread.stage.verifying = true) (taken : thread.stage.turn t d thread choice = some turn) :
    turn.thread.stage.verifying = true ∧ turn.thread.left < thread.left := by
  cases here : thread.stage with
  | verify stage =>
    rw [here] at taken
    exact stage.turn_left here taken
  | endAction user token reply =>
    rw [here] at taken
    cases taken
    refine ⟨rfl,?_⟩
    simp [Thread.left,here,Stage.left,Turn.ret,Turn.finish]
  | finished =>
    rw [here] at taken
    cases taken
  | _ =>
    rw [here] at verifying
    cases verifying

def ownSteps (t : Tid) (actions : List Action) : Nat :=
  actions.countP fun | .step u _ => u = t | _ => false

def progressLines (actions : List Action) : Nat := actions.countP fun | .progress _ => true | _ => false

theorem left_step {w v : World} {a : Action} {t : Tid} (verifying : (w.threads t).stage.verifying = true)
    (moved : w.step a = some v) : (v.threads t).stage.verifying = true ∧
      (v.threads t).left + ownSteps t [a] ≤ (w.threads t).left + 2 * progressLines [a] := by
  cases World.step_moves moved with
  | call u sender method fresh =>
    have other : t ≠ u := fun same => by
      rw [same,fresh] at verifying
      cases verifying
    rw [World.spawn,World.threads_setThread_other other]
    exact ⟨verifying,le_rfl⟩
  | step u choice turn taken =>
    by_cases same : t = u
    · subst t
      have here : (w.commit u turn).threads u = turn.thread := World.threads_setThread_same
      rw [here]
      obtain ⟨stays,less⟩ := Stage.turn_left verifying taken
      refine ⟨stays,?_⟩
      simp only [ownSteps,progressLines,List.countP_cons,List.countP_nil,decide_true,↓reduceIte]
      omega
    · have there : (w.commit u turn).threads t = w.threads t := World.threads_setThread_other same
      rw [there]
      refine ⟨verifying,?_⟩
      simp [ownSteps,progressLines,Ne.symm same]
  | leave name present => exact ⟨verifying,le_rfl⟩
  | disconnect name rest signals => exact ⟨verifying,le_rfl⟩
  | progress r rest msg queue forwarded =>
    have stage : ((w.hear r msg).threads t).stage = (w.threads t).stage := World.stage_setThread rfl
    refine ⟨by rw [stage]; exact verifying,?_⟩
    simp only [ownSteps,progressLines,List.countP_cons,List.countP_nil,↓reduceIte]
    by_cases same : t = r.tid
    · subst same
      simp [World.hear,Thread.left]
      omega
    · rw [World.hear,World.threads_setThread_other same]
      simp
  | serve r rest executed changed queue effect =>
    have stage : ((w.answer r rest executed changed).threads t).stage = (w.threads t).stage :=
      World.stage_setThread rfl
    refine ⟨by rw [stage]; exact verifying,?_⟩
    have same_left : ((w.answer r rest executed changed).threads t).left = (w.threads t).left := by
      by_cases same : t = r.tid
      · subst same
        simp [World.answer,World.setThread,Thread.left]
      · exact congrArg Thread.left (World.threads_setThread_other same)
    rw [same_left]
    exact le_rfl

/-- In every run a verify takes a bounded number of steps besides those for PROGRESS lines. -/
theorem left_run {w v : World} {actions : List Action} {t : Tid} (verifying : (w.threads t).stage.verifying = true)
    (ran : run World.step w actions = some v) :
    (v.threads t).left + ownSteps t actions ≤ (w.threads t).left + 2 * progressLines actions := by
  induction actions generalizing w with
  | nil =>
    obtain rfl := Option.some.inj ran
    exact le_rfl
  | cons a actions ih =>
    obtain ⟨u,moved,rest⟩ := (run_cons World.step w v a actions).mp ran
    obtain ⟨stays,first⟩ := left_step verifying moved
    have later := ih stays rest
    have steps : ownSteps t ([a] ++ actions) = ownSteps t [a] + ownSteps t actions := List.countP_append
    have lines : progressLines ([a] ++ actions) = progressLines [a] + progressLines actions := List.countP_append
    rw [List.singleton_append] at steps lines
    omega

theorem VerifyStage.turn_closed {t : Tid} {d : Device} {thread : Thread} (stage : VerifyStage) :
    (∃ turn, stage.turn t d thread .closed = some turn) ∨
      (∃ job, stage = .await job) ∧ thread.reply = none := by
  generalize closed : Choice.closed = choice
  fun_cases VerifyStage.turn t d thread choice stage
  all_goals first
  | exact .inl ⟨_,rfl⟩
  | exact .inr ⟨⟨_,rfl⟩,‹_›⟩
  | exact absurd closed.symm ‹_›

/-- A verify that is not finished can take a step, or its request is with the sensor. -/
theorem verify_enabled {w : World} (coherent : Coherent w) {t : Tid} {stage : VerifyStage}
    (here : (w.threads t).stage = .verify stage) :
    (∃ choice v, w.step (.step t choice) = some v) ∨ ⟨t,.verify⟩ ∈ w.device.queue := by
  rcases @VerifyStage.turn_closed t w.device (w.threads t) stage with
    ⟨turn,taken⟩ | ⟨⟨job,rfl⟩,unanswered⟩
  · refine .inl ⟨.closed,w.commit t turn,?_⟩
    rw [World.step,here]
    exact congrArg (Option.map (w.commit t)) taken
  · exact .inr (coherent.asked t .verify ⟨by rw [here]; rfl,unanswered⟩)

/-- The sensor can always answer the request at the head of its queue. -/
theorem serve_enabled {w : World} (busy : w.device.queue ≠ []) :
    ∃ executed changed v, w.step (.serve executed changed) = some v := by
  cases queue : w.device.queue with
  | nil => exact absurd queue busy
  | cons r rest =>
    refine ⟨.error .noDevice,true,w.answer r rest (.error .noDevice) true,?_⟩
    simp [World.step,queue]

/-- What one `VerifyStart` may have done by some point of a run, whatever the other threads,
the clients, the sensor and the clock did. -/
structure VerifySound (start : World) (actions : List Action) (w : World) (t : Tid) : Prop where
  calls : (w.eventsOf t).countP Event.isVerifyCall ≤ 6
  retryScans : (w.eventsOf t).countP Event.isRetryScan ≤ 5
  final : (w.eventsOf t).countP Event.isDone ≤ 1
  /-- A match needs a last reply on a slot that the claimed user's finger had when the token was
  minted, with enough confidence, and the token still current at the end. -/
  matched : ∀ e ∈ w.eventsOf t, e.isMatch = true →
    Justified (factsOf start actions t) start.device.confidenceThreshold (w.eventsOf t)
  /-- Its own steps are bounded in every continuation, and it is never stuck for want of one. -/
  bounded : (w.threads t).stage.verifying = true → ∀ later v, run World.step w later = some v →
    ownSteps t later ≤ 31 + 2 * ((w.threads t).inbox.length + progressLines later)
  enabled : ∀ stage, (w.threads t).stage = .verify stage →
    (∃ choice v, w.step (.step t choice) = some v) ∨ ⟨t,.verify⟩ ∈ w.device.queue

/-- Every verify, in every interleaving, asks at most six times, retries at most five, has at
most one final status, ends, and reports a match only for the claimed user's finger. -/
theorem verify_decision (threshold : UInt16) (storage : Storage) (templates : UInt8 → Option Owner)
    (actions : List Action) (w : World)
    (ran : run World.step (.boot threshold storage templates) actions = some w) (t : Tid) :
    VerifySound (.boot threshold storage templates) actions w t := by
  have shows := shown ran
  have bounds := (counted_reachable ⟨actions,ran⟩ t).bounds
  refine ⟨bounds.1,bounds.2.1,bounds.2.2,fun e member matched => ?_,fun verifying later v continued => ?_,
    fun stage here => verify_enabled shows.coherent here⟩
  · have justified := (shows.grounded t).justified member matched
    rwa [shows.threshold] at justified
  · have left := left_run verifying continued
    have most := Stage.left_le (w.threads t).stage
    simp only [Thread.left] at left
    omega

def matchingRun : List Action :=
  [.call 0 (ascii ":1.7") (.claim (ascii "mat")),
    .step 0 (.authorized (.ok (0,some (ascii "root"))) (.ok false)),.step 0 .go,
    .call 1 (ascii ":1.7") (.verifyStart (ascii "any")),.step 1 .go,.step 1 .go,.step 1 .go,.step 1 .go,.step 1 .go,
    .step 1 .go,.step 1 .go,.serve (.ok (ascii "OK match=3 confidence=120")) false,.step 1 .go,.step 1 .closed,
    .step 1 .go,.step 1 .go]

theorem matchingRun_runs :
    (run World.step (.boot 50 .oneRow fun _ => none) matchingRun).isSome = true := by decide +kernel

theorem verify_decision_match :
    VerifySound (.boot 50 .oneRow fun _ => none) matchingRun
      ((run World.step (.boot 50 .oneRow fun _ => none) matchingRun).get matchingRun_runs) 1 :=
  verify_decision 50 _ _ matchingRun _ (Option.some_get matchingRun_runs).symm 1

end R503.Fprint
