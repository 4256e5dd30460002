import R503.HonestReports

/-! Whom a match vouches for: if the sensor reports a match only for a slot that holds a template, then
every `verify-match` comes from a template that was captured for the finger the caller asked about, of
the user it acts for, although the registry may change while the finger is on the sensor. -/
namespace R503.Fprint

open Text Transition SlotLedger

/-- A match that the sensor reports is on a slot with a template. -/
def sensorHonest (w : World) (a : Action) : Bool :=
  match a,w.device.queue with
  | .serve executed _,⟨_,.verify⟩ :: _ =>
    match verifyReply executed with
    | .ok result => (w.templates result.slot).isSome
    | .error _ => true
  | _,_ => true

theorem sensorHonest_serve {w : World} {t : Tid} {rest : List Request} {executed : Executed} {changed : Bool}
    {result : MatchResult} (honest : sensorHonest w (.serve executed changed) = true)
    (queue : w.device.queue = ⟨t,.verify⟩ :: rest) (accepted : verifyReply executed = .ok result) :
    w.templates result.slot ≠ none := by
  simp only [sensorHonest,queue,accepted] at honest
  exact Option.isSome_iff_ne_none.mp honest

/-! ### The slots a verify expects -/

def VerifyStage.job : VerifyStage → Option VerifyJob
  | .selected job | .hints job | .check job | .send job | .await job | .progress job _ | .retry job | .drain job _
  | .drainProgress job _ _ | .finish job _ => some job
  | _ => none

def Stage.job : Stage → Option VerifyJob
  | .verify stage => stage.job
  | _ => none

def Covering (asked finger : Bytes) : Prop := asked = ascii "any" ∨ finger = asked

/-- A template in the slot is one of the user's, of a finger that was asked for. -/
def Vouched (templates : UInt8 → Option Owner) (job : VerifyJob) (slot : UInt8) : Prop :=
  ∃ finger, Covering job.finger finger ∧ (templates slot = none ∨ templates slot = some (job.user,finger))

/-- Every slot on which a verify under way accepts a match is vouched for. -/
def Trusted (w : World) : Prop :=
  ∀ t job, (w.threads t).stage.job = some job → ∀ slot ∈ job.expected, Vouched w.templates job slot

section
variable {t : Tid} {d : Device} {thread : Thread} {choice : Choice} {turn : Turn}

/-- The job of a verify is that before the step, retries apart, or is made from the registry. -/
theorem VerifyStage.turn_job {stage : VerifyStage} (here : thread.stage = .verify stage)
    (taken : stage.turn t d thread choice = some turn) (job : VerifyJob) (now : turn.thread.stage.job = some job) :
    (∃ before, thread.stage.job = some before ∧ job.user = before.user ∧ job.finger = before.finger ∧
      job.expected = before.expected) ∨ ∀ slot ∈ job.expected, Registered d.storage job.user job.finger slot := by
  rw [here]
  revert taken now
  fun_cases VerifyStage.turn t d thread choice stage
  all_goals
    intro taken
    cases taken
  all_goals
    intro now
    cases now
  all_goals first
  | exact .inl ⟨_,rfl,rfl,rfl,rfl⟩
  | exact .inr (expectedSlots_registered ‹_›)

theorem Stage.turn_job (taken : thread.stage.turn t d thread choice = some turn) (job : VerifyJob)
    (now : turn.thread.stage.job = some job) :
    (∃ before, thread.stage.job = some before ∧ job.user = before.user ∧ job.finger = before.finger ∧
      job.expected = before.expected) ∨ ∀ slot ∈ job.expected, Registered d.storage job.user job.finger slot := by
  cases here : thread.stage with
  | idle | finished =>
    rw [here] at taken
    cases taken
  | entry method =>
    rw [here] at taken
    revert taken
    change method.turn t d thread choice = some turn → _
    fun_cases Method.turn t d thread choice method
    all_goals
      intro taken
      cases taken
    all_goals cases now
  | enroll stage =>
    rw [here] at taken
    revert taken
    change stage.turn t d thread choice = some turn → _
    fun_cases EnrollStage.turn t d thread choice stage
    all_goals
      intro taken
      cases taken
    all_goals cases now
  | verify stage =>
    rw [here] at taken
    exact here ▸ stage.turn_job here taken job now
  | delete stage =>
    rw [here] at taken
    revert taken
    change stage.turn t d thread choice = some turn → _
    fun_cases DeleteStage.turn t d thread choice stage
    all_goals
      intro taken
      cases taken
    all_goals cases now
  | claim _ | stop _ | endAction _ _ _ =>
    rw [here] at taken
    cases taken
    cases now

end

/-- A slot that the registry names for a finger is vouched for. -/
theorem Vouched.of_registered {w : World} {job : VerifyJob} {slot : UInt8} (owned : Owned w.ledger)
    (row : Registered w.device.storage job.user job.finger slot) : Vouched w.templates job slot := by
  unfold Registered at row
  split at row
  next any =>
    obtain ⟨finger,row⟩ := row
    exact ⟨finger,.inl any,owned.labelled (job.user,finger) slot row⟩
  next => exact ⟨job.finger,.inr rfl,owned.labelled (job.user,job.finger) slot row⟩

/-- Erasing a slot leaves no template that is not vouched for. -/
theorem Vouched.erase {templates : UInt8 → Option Owner} {job : VerifyJob} {slot erased : UInt8}
    (vouched : Vouched templates job slot) : Vouched (Function.update templates erased none) job slot := by
  obtain ⟨finger,covering,own⟩ := vouched
  refine ⟨finger,covering,?_⟩
  by_cases same : slot = erased
  · subst slot
    exact .inl (Function.update_self _ _ _)
  · rw [Function.update_of_ne same]
    exact own

theorem Stage.holds_of_job {stage : Stage} {job : VerifyJob} (works : stage.job = some job) : stage.holds = true := by
  cases stage with
  | verify stage => cases stage <;> first | rfl | cases works
  | _ => cases works

theorem Trusted.step {w v : World} {a : Action} (trusted : Trusted w) (coherent : Coherent w) (owned : Owned w.ledger)
    (moved : w.step a = some v) : Trusted v := by
  have kept : ∀ u : World, u.templates = w.templates → (∀ t, (u.threads t).stage.job = (w.threads t).stage.job) →
      Trusted u := fun u flash jobs t job works slot member => by
    rw [flash]
    exact trusted t job ((jobs t).symm.trans works) slot member
  cases World.step_moves moved with
  | call t sender method fresh =>
    refine kept _ rfl fun u => ?_
    by_cases same : u = t
    · subst u
      rw [World.spawn,World.threads_setThread_same,fresh]
      rfl
    · rw [World.spawn,World.threads_setThread_other same]
  | step t choice turn taken =>
    intro u job works slot member
    change Vouched w.templates job slot
    by_cases same : u = t
    · subst same
      have here : (w.commit u turn).threads u = turn.thread := World.threads_setThread_same
      rw [here] at works
      rcases Stage.turn_job taken job works with ⟨before,had,user,finger,expected⟩ | rows
      · obtain ⟨f,covering,own⟩ := trusted u before had slot (expected ▸ member)
        exact ⟨f,finger ▸ covering,user ▸ own⟩
      · exact .of_registered owned (rows slot member)
    · have there : (w.commit t turn).threads u = w.threads u := World.threads_setThread_other same
      rw [there] at works
      exact trusted u job works slot member
  | leave name present => exact kept _ rfl fun _ => rfl
  | disconnect name rest signals => exact kept _ rfl fun _ => rfl
  | progress r rest msg queue forwarded =>
    exact kept _ rfl fun u => congrArg Stage.job (World.stage_setThread rfl)
  | serve r rest executed changed queue effect =>
    have stages : ∀ u, ((w.answer r rest executed changed).threads u).stage = (w.threads u).stage :=
      fun u => World.stage_setThread rfl
    intro u job works slot member
    rw [stages] at works
    have before := trusted u job works slot member
    change Vouched (if changed then r.op.apply w.templates else w.templates) job slot
    cases changed with
    | false => exact before
    | true =>
      cases op : r.op with
      | verify => exact before
      | delete _ _ => exact before.erase
      -- an enroll and a verify never have the permit at once
      | enroll slot owner =>
        have awaits := coherent.waiting r (queue ▸ List.mem_cons_self)
        rw [op] at awaits
        have captures := Thread.capture_enroll awaits.1
        have same := coherent.exclusive (Thread.capture_holds captures) (Stage.holds_of_job works)
        rw [same] at captures
        unfold Thread.capture at captures
        split at captures
        next here =>
          rw [here] at works
          cases works
        next => cases captures

/-- What the templates of a reachable world are, as far as a verify relies on them. -/
theorem trusted_reachable {threshold : UInt16} {storage : Storage} {templates : UInt8 → Option Owner}
    (distinct : storage.Distinct) (captured : storage.Captured templates) {w : World}
    (reached : Reachable World.step (.boot threshold storage templates) w) : Trusted w := by
  refine (invariant (fun w => Coherent w ∧ Owned w.ledger ∧ Trusted w) (fun w a v good moved => ?_) _ w
    ⟨.boot threshold storage templates,owned_boot distinct captured,fun _ _ works => by cases works⟩ reached).2.2
  obtain ⟨coherent,owned,trusted⟩ := good
  exact ⟨coherent.step moved,owned.steps (ledger_step coherent moved),trusted.step coherent owned moved⟩

/-! ### What a match was scanned from -/

def Stage.about : Stage → Option (Bytes × Bytes)
  | .verify (.permit user finger) | .verify (.mint user finger) => some (user,finger)
  | stage => stage.job.map fun job => (job.user,job.finger)

def Stage.verdict : Stage → Option (VerifyJob × Option VerifyStatus)
  | .verify (.drain job status) | .verify (.drainProgress job status _)
  | .verify (.finish job status) => some (job,status)
  | _ => none

def Scans (threshold : UInt16) (t : Tid) (user finger : Bytes) (w : World) (a : Action) : Prop :=
  ∃ executed changed rest result f, a = .serve executed changed ∧ w.device.queue = ⟨t,.verify⟩ :: rest ∧
    verifyReply executed = .ok result ∧ threshold ≤ result.confidence ∧
    w.templates result.slot = some (user,f) ∧ Covering finger f

/-- A match is announced only after a scan for the user and finger of the call. -/
def Genuine (acts : Bytes → Prop) (scanned : Bytes → Bytes → Prop) (method : Method) : Prop :=
  ∃ user finger, acts user ∧ method = .verifyStart finger ∧ scanned user finger

structure Thread.Scanning (acts : Bytes → Prop) (scanned : Bytes → Bytes → Prop) (threshold : UInt16) (method : Method)
    (thread : Thread) (events : List Event) : Prop where
  about : ∀ user finger, thread.stage.about = some (user,finger) → method = .verifyStart finger
  replied : ∀ job executed result, thread.stage.job = some job → thread.stage.pending = some .verify →
    thread.reply = some executed → verifyReply executed = .ok result → result.slot ∈ job.expected →
    threshold ≤ result.confidence → scanned job.user job.finger
  decided : ∀ job, thread.stage.verdict = some (job,some .matched) → scanned job.user job.finger
  emit : thread.stage = .verify (.emit .matched) → Genuine acts scanned method
  events : ∀ e ∈ events, e.isMatch = true → Genuine acts scanned method

section
variable {acts acts' : Bytes → Prop} {scanned scanned' : Bytes → Bytes → Prop} {method : Method}

theorem Genuine.mono (more : ∀ user, acts user → acts' user)
    (seen : ∀ user finger, scanned user finger → scanned' user finger) :
    Genuine acts scanned method → Genuine acts' scanned' method :=
  fun ⟨user,finger,acting,names,scan⟩ => ⟨user,finger,more user acting,names,seen user finger scan⟩

theorem Thread.Scanning.mono {threshold : UInt16} {thread : Thread} {events : List Event}
    (more : ∀ user, acts user → acts' user) (seen : ∀ user finger, scanned user finger → scanned' user finger)
    (scanning : thread.Scanning acts scanned threshold method events) :
    thread.Scanning acts' scanned' threshold method events where
  about := scanning.about
  replied job executed result works pending answered accepted expected enough :=
    seen _ _ (scanning.replied job executed result works pending answered accepted expected enough)
  decided job decided := seen _ _ (scanning.decided job decided)
  emit here := (scanning.emit here).mono more seen
  events e member matched := (scanning.events e member matched).mono more seen

variable {t : Tid} {d : Device} {thread : Thread} {choice : Choice} {turn : Turn} {events : List Event}

theorem Thread.Scanning.quiet {threshold : UInt16} {more : List Event}
    (scanning : thread.Scanning acts scanned threshold method events) (quiet : more.all fun e => !e.isMatch) :
    ∀ e ∈ events ++ more, e.isMatch = true → Genuine acts scanned method := by
  intro e member matched
  rcases List.mem_append.mp member with old | new
  · exact scanning.events e old matched
  · have silent := List.all_eq_true.mp quiet e new
    rw [matched] at silent
    cases silent

theorem VerifyStage.turn_scanning {stage : VerifyStage} (here : thread.stage = .verify stage)
    (acting : ∀ user, thread.stage.user = some user → acts user)
    (scanning : thread.Scanning acts scanned d.confidenceThreshold method events)
    (taken : stage.turn t d thread choice = some turn) :
    turn.thread.Scanning acts scanned d.confidenceThreshold method (events ++ turn.events) := by
  have about := scanning.about
  have replied := scanning.replied
  have decided := scanning.decided
  have emit := scanning.emit
  rw [here] at about replied decided emit acting
  revert taken
  fun_cases VerifyStage.turn t d thread choice stage
  all_goals
    intro taken
    cases taken
  all_goals
    refine ⟨?_,?_,?_,?_,?_⟩
  all_goals first
  | exact about
  | exact replied
  | exact decided
  | exact scanning.quiet rfl
  | exact Stage.noConfusion
  | exact fun here => VerifyStage.noConfusion (Stage.verify.inj here)
  | exact fun _ none => absurd none.symm (Option.some_ne_none _)
  | exact fun _ _ none => absurd none.symm (Option.some_ne_none _)
  | exact fun _ _ _ _ none => absurd none.symm (Option.some_ne_none _)
  | exact fun _ _ _ _ _ none => absurd none.symm (Option.some_ne_none _)
  | skip
  next => exact fun _ undecided => by cases undecided
  next job executed answered _ status final =>
    intro decision same
    obtain ⟨rfl,matched⟩ := Prod.mk.inj (Option.some.inj same)
    obtain rfl := Option.some.inj matched
    obtain ⟨slot,confidence,accepted,expected,enough⟩ := judge_matched final
    exact replied job executed ⟨slot,confidence⟩ rfl rfl answered accepted expected enough
  next job _ status _ =>
    intro same
    obtain rfl := VerifyStage.emit.inj (Stage.verify.inj same)
    exact ⟨job.user,job.finger,acting _ rfl,about _ _ rfl,decided job rfl⟩
  next status =>
    intro e member matched
    rcases List.mem_append.mp member with old | new
    · exact scanning.events e old matched
    · obtain rfl := List.mem_singleton.mp new
      cases status <;> first | exact emit rfl | cases matched

def Stage.Apart (stage : Stage) : Prop :=
  stage.about = none ∧ stage.job = none ∧ stage.verdict = none ∧ stage ≠ .verify (.emit .matched)

theorem Thread.Scanning.apart {threshold : UInt16} {thread' : Thread} {more : List Event}
    (scanning : thread.Scanning acts scanned threshold method events) (apart : thread'.stage.Apart)
    (quiet : more.all fun e => !e.isMatch) : thread'.Scanning acts scanned threshold method (events ++ more) := by
  obtain ⟨about,job,verdict,emit⟩ := apart
  refine ⟨fun _ _ works => ?_,fun _ _ _ works => ?_,fun _ decided => ?_,fun here => absurd here emit,
    scanning.quiet quiet⟩
  · rw [about] at works
    cases works
  · rw [job] at works
    cases works
  · rw [verdict] at decided
    cases decided

theorem Method.turn_scanning (here : thread.stage = .entry method)
    (scanning : thread.Scanning acts scanned d.confidenceThreshold method events)
    (taken : method.turn t d thread choice = some turn) :
    turn.thread.Scanning acts scanned d.confidenceThreshold method (events ++ turn.events) := by
  revert taken
  fun_cases Method.turn t d thread choice method
  all_goals
    intro taken
    cases taken
  all_goals first
  | exact scanning.apart ⟨rfl,rfl,rfl,Stage.noConfusion⟩ rfl
  | skip
  next finger user _ _ =>
    refine ⟨fun _ _ same => ?_,fun _ _ _ works => (by cases works),fun _ decided => (by cases decided),
      fun same => (by cases same),scanning.quiet rfl⟩
    obtain ⟨_,rfl⟩ := Prod.mk.inj (Option.some.inj same)
    rfl

/-- One step of a thread, whatever its stage. -/
theorem Thread.Scanning.next {threshold : UInt16} (scanning : thread.Scanning acts scanned threshold method events)
    (same : d.confidenceThreshold = threshold) (entry : ∀ m, thread.stage = .entry m → m = method)
    (acting : ∀ user, thread.stage.user = some user → acts user)
    (taken : thread.stage.turn t d thread choice = some turn) :
    turn.thread.Scanning acts scanned threshold method (events ++ turn.events) := by
  subst same
  cases here : thread.stage with
  | idle | finished =>
    rw [here] at taken
    cases taken
  | entry m =>
    obtain rfl := entry m here
    rw [here] at taken
    exact m.turn_scanning here scanning taken
  | enroll stage =>
    rw [here] at taken
    revert taken
    change stage.turn t d thread choice = some turn → _
    fun_cases EnrollStage.turn t d thread choice stage
    all_goals
      intro taken
      cases taken
    all_goals exact scanning.apart ⟨rfl,rfl,rfl,Stage.noConfusion⟩ rfl
  | verify stage =>
    rw [here] at taken
    exact stage.turn_scanning here acting scanning taken
  | delete stage =>
    rw [here] at taken
    revert taken
    change stage.turn t d thread choice = some turn → _
    fun_cases DeleteStage.turn t d thread choice stage
    all_goals
      intro taken
      cases taken
    all_goals exact scanning.apart ⟨rfl,rfl,rfl,Stage.noConfusion⟩ rfl
  | claim _ | stop _ | endAction _ _ _ =>
    rw [here] at taken
    cases taken
    exact scanning.apart ⟨rfl,rfl,rfl,Stage.noConfusion⟩ rfl

end

/-! ### Whole runs -/

section
variable (threshold : UInt16) (storage : Storage) (templates : UInt8 → Option Owner)

def Scanned (actions : List Action) (t : Tid) (user finger : Bytes) : Prop :=
  Took World.step (.boot threshold storage templates) (fun _ => Scans threshold t user finger) actions

def Matching (actions : List Action) (t : Tid) (thread : Thread) (events : List Event) : Prop :=
  Along World.step (fun w a _ => sensorHonest w a = true) (.boot threshold storage templates) actions →
    ∀ sender method, .call t sender method ∈ actions → thread.Scanning
      (deedsOf (.boot threshold storage templates) actions t).acts (Scanned threshold storage templates actions t)
      threshold method events

variable {threshold storage templates}

theorem Thread.Scanning.later {actions : List Action} {t : Tid} {method : Method} {thread : Thread}
    {events : List Event} (a : Action) (scanning : thread.Scanning (deedsOf (.boot threshold storage templates) actions t).acts
      (Scanned threshold storage templates actions t) threshold method events) :
    thread.Scanning (deedsOf (.boot threshold storage templates) (actions ++ [a]) t).acts
      (Scanned threshold storage templates (actions ++ [a]) t) threshold method events :=
  scanning.mono (deedsOf_later _ _ _ a).acts fun _ _ took => took.later [a]

/-- The sensor's answer is on a template of the user's whenever the thread will accept it. -/
theorem Thread.Scanning.answer {actions : List Action} {w : World} {r : Request} {rest : List Request}
    {executed : Executed} {changed : Bool} {method : Method} {events : List Event}
    (ran : run World.step (.boot threshold storage templates) actions = some w) (trusted : Trusted w)
    (coherent : Coherent w) (queue : w.device.queue = r :: rest)
    (honest : sensorHonest w (.serve executed changed) = true)
    (scanning : (w.threads r.tid).Scanning (deedsOf (.boot threshold storage templates) actions r.tid).acts
      (Scanned threshold storage templates actions r.tid) threshold method events) :
    Thread.Scanning (deedsOf (.boot threshold storage templates) (actions ++ [.serve executed changed]) r.tid).acts
      (Scanned threshold storage templates (actions ++ [.serve executed changed]) r.tid) threshold method
      { w.threads r.tid with reply := some executed } events := by
  have before := scanning.later (.serve executed changed)
  refine ⟨before.about,fun job executed' result works pending replied accepted expected enough => ?_,before.decided,
    before.emit,before.events⟩
  obtain rfl := Option.some.inj replied
  have awaits := coherent.waiting r (queue ▸ List.mem_cons_self)
  have op : r.op = .verify := Option.some.inj (awaits.1.symm.trans pending)
  have head : w.device.queue = ⟨r.tid,.verify⟩ :: rest := by rw [queue,← op]
  have stored := sensorHonest_serve honest head accepted
  obtain ⟨finger,covering,own⟩ := trusted r.tid job works result.slot expected
  exact .now ran ⟨executed,changed,rest,result,finger,rfl,head,accepted,enough,own.resolve_left stored,covering⟩

theorem matching_rule (distinct : storage.Distinct) (captured : storage.Captured templates) :
    ThreadRule (.boot threshold storage templates) (Matching threshold storage templates) where
  initial _ _ _ _ member := by cases member
  later actions a t thread events noCall matching honest sender method member := by
    rcases List.mem_append.mp member with old | new
    · exact (matching (along_take _ _ _ _ honest) sender method old).later a
    · exact absurd (List.mem_singleton.mp new).symm (noCall sender method)
  call actions w t sender method ran fresh _ _ sender' method' member := by
    rcases List.mem_append.mp member with old | new
    · exact absurd fresh (World.called_run old ran)
    · have rule := reporting_rule threshold storage templates
      have silent := (rule.holds (.boot threshold storage templates) ran t).1 fresh
      rw [silent]
      exact ⟨(fun _ _ works => by cases works),(fun _ _ _ works => by cases works),(fun _ decided => by cases decided),
        Stage.noConfusion,(fun _ none => by cases none)⟩
  step actions w t choice turn ran coherent taken matching honest sender method member := by
    rcases List.mem_append.mp member with old | new
    · have reports := ((reporting_rule threshold storage templates).holds (.boot threshold storage templates) ran t).2
        sender method old
      have scanning := matching (along_take _ _ _ _ honest) sender method old
      exact (scanning.next (shown ran).threshold reports.entry reports.acts taken).later (.step t choice)
    · cases List.mem_singleton.mp new
  hear _ _ _ _ _ matching honest sender method member := by
    have scanning := matching honest sender method member
    exact ⟨scanning.about,scanning.replied,scanning.decided,scanning.emit,scanning.events⟩
  answer actions w r rest executed changed ran coherent queue effect matching honest sender method member := by
    rcases List.mem_append.mp member with old | new
    · have scanning := matching (along_take _ _ _ _ honest) sender method old
      have now := along_drop _ _ _ _ _ honest ran (w.answer r rest executed changed) (by
        cases succeeded : r.op.succeeds executed with
        | false => simp [World.step,queue,succeeded]
        | true => simp [World.step,queue,effect succeeded])
      exact scanning.answer ran (trusted_reachable distinct captured ⟨actions,ran⟩) coherent queue now.1
    · cases List.mem_singleton.mp new

end

/-- In every interleaving `verify-match` is announced only by a `VerifyStart` for whose user and finger the
sensor has matched, with enough confidence, a template that was captured for that user's finger. -/
theorem match_on_own_template (threshold : UInt16) (storage : Storage) (templates : UInt8 → Option Owner)
    (distinct : storage.Distinct) (captured : storage.Captured templates) (actions : List Action) (w : World)
    (ran : run World.step (.boot threshold storage templates) actions = some w)
    (honest : Along World.step (fun w a _ => sensorHonest w a = true) (.boot threshold storage templates) actions)
    (t : Tid) (sender : Bytes) (method : Method) (called : .call t sender method ∈ actions) (e : Event)
    (member : e ∈ w.eventsOf t) (matched : e.isMatch = true) :
    Genuine (deedsOf (.boot threshold storage templates) actions t).acts
      (Scanned threshold storage templates actions t) method :=
  ((matching_rule distinct captured).holds (.boot threshold storage templates) ran t honest sender method called).events
    e member matched

def ownMatchRun : List Action :=
  claimCall 0 ++
    [.call 1 (ascii ":1.7") (.verifyStart (ascii "any")),.step 1 .go,.step 1 .go,.step 1 .go,.step 1 .go,.step 1 .go,
      .step 1 .go,.step 1 .go,.serve (.ok (ascii "OK match=3 confidence=120")) false,.step 1 .go,.step 1 .closed,
      .step 1 .go,.step 1 .go]

theorem ownMatchRun_matches : ((run World.step (.boot 50 .oneRow oneTemplate) ownMatchRun).map fun w =>
    (w.eventsOf 1).countP Event.isMatch) = some 1 := by decide +kernel

theorem match_on_own_template_any :
    Genuine (deedsOf (.boot 50 .oneRow oneTemplate) ownMatchRun 1).acts (Scanned 50 .oneRow oneTemplate ownMatchRun 1)
      (.verifyStart (ascii "any")) := by
  obtain ⟨w,ran,one⟩ := Option.map_eq_some_iff.mp ownMatchRun_matches
  obtain ⟨e,member,matched⟩ := List.countP_pos_iff.mp (one ▸ Nat.one_pos)
  exact match_on_own_template 50 .oneRow oneTemplate singleRow_distinct (singleRow_captured rfl) ownMatchRun w ran
    (by decide +kernel) 1 (ascii ":1.7") (.verifyStart (ascii "any")) (by simp [ownMatchRun]) e member matched

end R503.Fprint
