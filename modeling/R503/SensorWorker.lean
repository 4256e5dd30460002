import R503.Lease
import R503.Loop
import R503.SensorReply

/-! The worker thread that owns the sensor (sensor_actor.rs): it serves the queued requests one by one,
and opens the port again after a fatal error. -/
namespace R503.Fprint.SensorActor

open Text

structure SensorInfo where
  fw : Bytes
  capacity : UInt16
  enrolled : UInt16
  deriving DecidableEq

abbrev Done : Type := Nat
abbrev ProgressTx : Type := Nat

inductive SensorRequest where
  | info (done : Done)
  | enroll (slot : UInt8) (progress : Option ProgressTx) (done : Done)
  | verify (progress : Option ProgressTx) (done : Done)
  | identify (progress : Option ProgressTx) (done : Done)
  | delete (slot : UInt8) (done : Done)
  | clear (done : Done)
  | wake (done : Done)
  | ping (done : Done)
  | ledOff (done : Done)
  deriving DecidableEq

inductive Value where
  | info (info : SensorInfo)
  | slot (slot : UInt8)
  | matched (result : MatchResult)
  | done
  | flag (value : Bool)
  deriving DecidableEq

inductive HandleOutcome where
  | done
  | needsReopen (req : SensorRequest)
  | doneAfterFatal

inductive Event where
  | opened (handle : Nat)
  | openFailed
  | operated (handle : Nat) (req : SensorRequest) (fatal : Bool)
  | replied (done : Done) (result : Except SensorError Value)

/-- What the port and the sensor answer, after everything that happened before. -/
structure Device where
  openPort : List Event → Except SensorError Unit
  info : List Event → Except SensorError SensorInfo
  enroll : List Event → UInt8 → Except SensorError UInt8
  verify : List Event → Except SensorError MatchResult
  identify : List Event → Except SensorError MatchResult
  delete : List Event → UInt8 → Except SensorError UInt8
  clear : List Event → Except SensorError Unit
  wake : List Event → Except SensorError Bool
  ping : List Event → Except SensorError Bool
  ledOff : List Event → Except SensorError Unit

/-- `sensor`, the number of handles there have been, and what was done. -/
structure Worker where
  sensor : Option Nat
  handles : Nat
  log : List Event

def spawned : Worker := ⟨some 0,1,[.opened 0]⟩

def Worker.record (w : Worker) (event : Event) : Worker := { w with log := w.log ++ [event] }

def fatal (result : Except SensorError α) : Bool :=
  match result with
  | .ok _ => false
  | .error e => isFatalIo e

/-- The arm of a request that is retried: no reply goes out on a fatal error. -/
def retried (handle : Nat) (req : SensorRequest) (done : Done) (result : Except SensorError α) (value : α → Value)
    (w : Worker) : Worker × HandleOutcome :=
  let w := w.record (.operated handle req (fatal result))
  if fatal result then (w,.needsReopen req) else (w.record (.replied done (result.map value)),.done)

def handleRequest (device : Device) (handle : Nat) (req : SensorRequest) (w : Worker) : Worker × HandleOutcome :=
  match req with
  | .info done => retried handle (.info done) done (device.info w.log) .info w
  | .enroll slot progress done =>
    let result := device.enroll w.log slot
    let w := w.record (.operated handle (.enroll slot progress done) (fatal result))
    let w := w.record (.replied done (result.map .slot))
    (w,if fatal result then .doneAfterFatal else .done)
  | .verify progress done => retried handle (.verify progress done) done (device.verify w.log) .matched w
  | .identify progress done => retried handle (.identify progress done) done (device.identify w.log) .matched w
  | .delete slot done => retried handle (.delete slot done) done (device.delete w.log slot) .slot w
  | .clear done => retried handle (.clear done) done (device.clear w.log) (fun _ => .done) w
  | .wake done => retried handle (.wake done) done (device.wake w.log) .flag w
  | .ping done => retried handle (.ping done) done (device.ping w.log) .flag w
  | .ledOff done => retried handle (.ledOff done) done (device.ledOff w.log) (fun _ => .done) w

def dup (e : SensorError) : SensorError := .io .notConnected e.text

def respondWithError (req : SensorRequest) (err : SensorError) (w : Worker) : Worker :=
  match req with
  | .info done => w.record (.replied done (.error err))
  | .enroll _ _ done => w.record (.replied done (.error (dup err)))
  | .verify _ done => w.record (.replied done (.error (dup err)))
  | .identify _ done => w.record (.replied done (.error (dup err)))
  | .delete _ done => w.record (.replied done (.error (dup err)))
  | .clear done => w.record (.replied done (.error (dup err)))
  | .wake done => w.record (.replied done (.error (dup err)))
  | .ping done => w.record (.replied done (.error (dup err)))
  | .ledOff done => w.record (.replied done (.error (dup err)))

def reopenAttempts : Nat := 4

/-- `for attempt in 0..REOPEN_ATTEMPTS`, with `last_err`; the delays are left out. -/
def reopen (device : Device) : Nat → Option SensorError → Worker → Worker × Option SensorError
  | 0,lastErr,w => (w,lastErr)
  | attempts + 1,lastErr,w =>
    match device.openPort w.log with
    | .ok () => (⟨some w.handles,w.handles + 1,w.log ++ [.opened w.handles]⟩,lastErr)
    | .error e => reopen device attempts (some e) (w.record .openFailed)

/-- `req`, `already_retried` and the worker at the head of the inner loop. -/
structure Serving where
  req : SensorRequest
  alreadyRetried : Bool
  worker : Worker

def pass (device : Device) (s : Serving) : Loop.Exit Serving Worker :=
  let (w,lastErr) := if s.worker.sensor.isNone then reopen device reopenAttempts none s.worker else (s.worker,none)
  match w.sensor with
  | none =>
    .leave (respondWithError s.req
      (lastErr.getD (.io .notConnected (ascii "sensor reopen failed after retries"))) w)
  | some handle =>
    match handleRequest device handle s.req w with
    | (w,.done) => .leave w
    | (w,.doneAfterFatal) => .leave { w with sensor := none }
    | (w,.needsReopen req) =>
      let w := { w with sensor := none }
      if s.alreadyRetried then
        .leave (respondWithError req (.io .notConnected (ascii "sensor failed twice in a row")) w)
      else .again ⟨req,true,w⟩

/-- The requests in the order they are received, each with this fuel for its inner loop. -/
def work (device : Device) (fuel : Nat) : List SensorRequest → Worker → Option Worker
  | [],w => some w
  | req :: queue,w => (Loop.run (pass device) fuel ⟨req,false,w⟩).bind (work device fuel queue)

/-! ### What the worker did -/

def SensorRequest.done : SensorRequest → Done
  | .info done | .enroll _ _ done | .verify _ done | .identify _ done | .delete _ done | .clear done | .wake done
  | .ping done | .ledOff done => done

def SensorRequest.isEnroll : SensorRequest → Bool
  | .enroll _ _ _ => true
  | _ => false

def answers (events : List Event) : List Done :=
  events.filterMap fun event =>
    match event with
    | .replied done _ => some done
    | _ => none

def operations (events : List Event) : List SensorRequest :=
  events.filterMap fun event =>
    match event with
    | .operated _ req _ => some req
    | _ => none

def attempts (events : List Event) : Nat :=
  events.countP fun event =>
    match event with
    | .opened _ | .openFailed => true
    | _ => false

def marks (events : List Event) : List (Lease.Mark Nat) :=
  events.filterMap fun event =>
    match event with
    | .opened handle => some (.opened handle)
    | .operated handle _ fatal => some (.used handle fatal)
    | _ => none

theorem answers_append (a b : List Event) : answers (a ++ b) = answers a ++ answers b := List.filterMap_append

theorem operations_append (a b : List Event) : operations (a ++ b) = operations a ++ operations b :=
  List.filterMap_append

theorem attempts_append (a b : List Event) : attempts (a ++ b) = attempts a + attempts b := List.countP_append

theorem marks_append (a b : List Event) : marks (a ++ b) = marks a ++ marks b := List.filterMap_append

/-- What one request gets: one reply, its own operation at most twice (at most once for an enrolment), and
at most two rounds of opening the port. -/
structure Served (req : SensorRequest) (events : List Event) : Prop where
  reply : answers events = [req.done]
  own : ∀ r ∈ operations events, r = req
  operated : (operations events).length ≤ if req.isEnroll then 1 else 2
  opened : attempts events ≤ 8

/-- The worker's handle is the one its log leaves it, and no handle comes twice. -/
structure Leased (w : Worker) : Prop where
  valid : Lease.Valid none (marks w.log)
  current : Lease.current none (marks w.log) = w.sensor
  fresh : Lease.openings (marks w.log) = List.range w.handles

theorem Leased.quiet {w : Worker} (leased : Leased w) (event : Event) (silent : marks [event] = []) :
    Leased (w.record event) := by
  have same : marks (w.log ++ [event]) = marks w.log := by rw [marks_append,silent,List.append_nil]
  exact ⟨same ▸ leased.valid,same ▸ leased.current,same ▸ leased.fresh⟩

theorem Leased.opened {w : Worker} (leased : Leased w) :
    Leased ⟨some w.handles,w.handles + 1,w.log ++ [.opened w.handles]⟩ := by
  have grown : marks (w.log ++ [.opened w.handles]) = marks w.log ++ [.opened w.handles] := marks_append ..
  refine ⟨?_,?_,?_⟩
  · rw [grown,Lease.valid_append]
    exact ⟨leased.valid,trivial⟩
  · rw [grown,Lease.current_append]
    rfl
  · have openings : Lease.openings (marks w.log ++ [.opened w.handles]) = Lease.openings (marks w.log) ++ [w.handles] :=
      List.filterMap_append
    rw [grown,openings,leased.fresh,List.range_succ]

/-- A use of the handle in hand, which is given up if the error was fatal. -/
theorem Leased.used {w : Worker} (leased : Leased w) (handle : Nat) (req : SensorRequest) (spoilt : Bool)
    (holds : w.sensor = some handle) :
    Leased { w.record (.operated handle req spoilt) with sensor := if spoilt then none else w.sensor } := by
  have grown : marks (w.log ++ [.operated handle req spoilt]) = marks w.log ++ [.used handle spoilt] := marks_append ..
  refine ⟨?_,?_,?_⟩
  · change Lease.Valid none (marks (w.log ++ [.operated handle req spoilt]))
    rw [grown,Lease.valid_append,leased.current]
    exact ⟨leased.valid,holds,trivial⟩
  · change Lease.current none (marks (w.log ++ [.operated handle req spoilt])) = _
    rw [grown,Lease.current_append,leased.current]
    rfl
  · change Lease.openings (marks (w.log ++ [.operated handle req spoilt])) = List.range w.handles
    rw [grown,← leased.fresh]
    exact List.filterMap_append.trans (List.append_nil _)

/-! ### One pass -/

/-- Opening the port: at most so many attempts, and nothing else. -/
theorem reopen_spec (device : Device) (count : Nat) (lastErr : Option SensorError) (w : Worker) (leased : Leased w) :
    ∃ events, (reopen device count lastErr w).1.log = w.log ++ events ∧ answers events = [] ∧ operations events = [] ∧
      attempts events ≤ count ∧ Leased (reopen device count lastErr w).1 := by
  induction count generalizing lastErr w with
  | zero => exact ⟨[],by simp [reopen],rfl,rfl,le_rfl,leased⟩
  | succ count ih =>
    unfold reopen
    cases device.openPort w.log with
    | ok _ => exact ⟨[.opened w.handles],rfl,rfl,rfl,Nat.le_add_left _ _,leased.opened⟩
    | error e =>
      obtain ⟨events,log,silent,idle,few,after⟩ := ih (some e) (w.record .openFailed) (leased.quiet _ rfl)
      refine ⟨.openFailed :: events,?_,silent,idle,?_,after⟩
      · rw [log,Worker.record,List.append_assoc]
        rfl
      · have one : attempts (.openFailed :: events) = attempts events + 1 := List.countP_cons_of_pos rfl
        omega

theorem respondWithError_eq (req : SensorRequest) (err : SensorError) (w : Worker) :
    ∃ e, respondWithError req err w = w.record (.replied req.done (.error e)) := by
  cases req <;> exact ⟨_,rfl⟩

theorem retried_cases (handle : Nat) (req : SensorRequest) (result : Except SensorError α) (value : α → Value)
    (w : Worker) :
    (∃ reply, retried handle req req.done result value w =
        ((w.record (.operated handle req false)).record (.replied req.done reply),.done)) ∨
      retried handle req req.done result value w = (w.record (.operated handle req true),.needsReopen req) := by
  unfold retried
  cases fatal result with
  | false => exact .inl ⟨_,rfl⟩
  | true => exact .inr rfl

/-- One operation, and a reply unless it is to be tried again. -/
theorem handleRequest_cases (device : Device) (handle : Nat) (req : SensorRequest) (w : Worker) :
    (∃ reply, handleRequest device handle req w =
        ((w.record (.operated handle req false)).record (.replied req.done reply),.done)) ∨
      (∃ reply, handleRequest device handle req w =
        ((w.record (.operated handle req true)).record (.replied req.done reply),.doneAfterFatal)) ∨
      req.isEnroll = false ∧
        handleRequest device handle req w = (w.record (.operated handle req true),.needsReopen req) := by
  cases req with
  | enroll slot progress done =>
    simp only [handleRequest]
    cases fatal (device.enroll w.log slot) with
    | false => exact .inl ⟨_,rfl⟩
    | true => exact .inr (.inl ⟨_,rfl⟩)
  | info | verify | identify | delete | clear | wake | ping | ledOff =>
    rcases retried_cases handle _ _ _ w with once | again
    · exact .inl once
    · exact .inr (.inr ⟨rfl,again⟩)

/-- At the head of the inner loop: no reply yet, and after the one retry an operation that was not an enrolment. -/
structure InLoop (req : SensorRequest) (start : Worker) (s : Serving) : Prop where
  same : s.req = req
  leased : Leased s.worker
  retry : s.alreadyRetried = true → req.isEnroll = false
  events : ∃ events, s.worker.log = start.log ++ events ∧ answers events = [] ∧
    operations events = (if s.alreadyRetried then [req] else []) ∧ attempts events ≤ if s.alreadyRetried then 4 else 0

def Finished (req : SensorRequest) (start w : Worker) : Prop :=
  Leased w ∧ ∃ events, w.log = start.log ++ events ∧ Served req events

/-- The last pass adds at most one operation, and the reply. -/
theorem served_last {req : SensorRequest} {again : Bool} {events last : List Event} (unanswered : answers events = [])
    (operated : operations events = if again then [req] else []) (attempted : attempts events ≤ 8)
    (retry : again = true → req.isEnroll = false) (reply : answers last = [req.done])
    (once : operations last = [] ∨ operations last = [req]) (closed : attempts last = 0) :
    Served req (events ++ last) where
  reply := by rw [answers_append,unanswered,reply]; rfl
  own := by
    rw [operations_append,operated]
    cases again <;> rcases once with none | one <;> simp [*]
  operated := by
    rw [operations_append,operated]
    cases again with
    | false =>
      rcases once with none | one
      · simp [none]
      · have atMost : 1 ≤ if req.isEnroll then 1 else 2 := by split <;> decide
        simpa [one] using atMost
    | true => rcases once with none | one <;> simp [*]
  opened := by rw [attempts_append,closed]; exact attempted

theorem pass_spec (device : Device) (req : SensorRequest) (start : Worker) (s : Serving) (inLoop : InLoop req start s) :
    match pass device s with
    | .again next => InLoop req start next ∧ s.alreadyRetried = false ∧ next.alreadyRetried = true
    | .leave w => Finished req start w := by
  obtain ⟨rfl,leased,retry,earlier,log,silent,operated,tried⟩ := inLoop
  have ready : ∃ events, (if s.worker.sensor.isNone then reopen device reopenAttempts none s.worker
        else (s.worker,none)).1.log = s.worker.log ++ events ∧ answers events = [] ∧ operations events = [] ∧
      attempts events ≤ 4 ∧ Leased (if s.worker.sensor.isNone then reopen device reopenAttempts none s.worker
        else (s.worker,none)).1 := by
    split
    · exact reopen_spec device reopenAttempts none s.worker leased
    · exact ⟨[],by simp,rfl,rfl,Nat.zero_le _,leased⟩
  unfold pass
  generalize (if s.worker.sensor.isNone then reopen device reopenAttempts none s.worker
    else (s.worker,none)) = r at ready ⊢
  obtain ⟨w,lastErr⟩ := r
  obtain ⟨opening,opened,quiet,idle,few,leased⟩ := ready
  dsimp only at opened leased ⊢
  have whole : w.log = start.log ++ (earlier ++ opening) := by rw [opened,log,List.append_assoc]
  have unanswered : answers (earlier ++ opening) = [] := by rw [answers_append,silent,quiet]; rfl
  have done : operations (earlier ++ opening) = if s.alreadyRetried then [s.req] else [] := by
    rw [operations_append,operated,idle,List.append_nil]
  have attempted : attempts (earlier ++ opening) ≤ if s.alreadyRetried then 8 else 4 := by
    rw [attempts_append]
    split at tried <;> rename_i again <;> simp only [again] <;> simp <;> omega
  have bounded : attempts (earlier ++ opening) ≤ 8 := attempted.trans (by split <;> decide)
  generalize earlier ++ opening = events at whole unanswered done attempted bounded
  cases holds : w.sensor with
  | none =>
    obtain ⟨e,replied⟩ := respondWithError_eq s.req
      (lastErr.getD (.io .notConnected (ascii "sensor reopen failed after retries"))) w
    dsimp only
    rw [replied]
    refine ⟨leased.quiet _ rfl,events ++ [.replied s.req.done (.error e)],?_,?_⟩
    · rw [Worker.record,whole,List.append_assoc]
    · exact served_last unanswered done bounded retry rfl (.inl rfl) rfl
  | some handle =>
    dsimp only
    rcases handleRequest_cases device handle s.req w with ⟨reply,handled⟩ | ⟨reply,handled⟩ | ⟨plain,handled⟩
    · rw [handled]
      have used := leased.used handle s.req false holds
      refine ⟨used.quiet _ rfl,events ++ [.operated handle s.req false,.replied s.req.done reply],?_,?_⟩
      · simp [Worker.record,whole]
      · exact served_last unanswered done bounded retry rfl (.inr rfl) rfl
    · rw [handled]
      have used := leased.used handle s.req true holds
      refine ⟨used.quiet (.replied s.req.done reply) rfl,
        events ++ [.operated handle s.req true,.replied s.req.done reply],?_,?_⟩
      · simp [Worker.record,whole]
      · exact served_last unanswered done bounded retry rfl (.inr rfl) rfl
    · rw [handled]
      have used := leased.used handle s.req true holds
      dsimp only
      cases again : s.alreadyRetried with
      | true =>
        obtain ⟨e,replied⟩ := respondWithError_eq s.req (.io .notConnected (ascii "sensor failed twice in a row"))
          { w.record (.operated handle s.req true) with sensor := none }
        rw [if_pos rfl,replied]
        refine ⟨used.quiet _ rfl,events ++ [.operated handle s.req true,.replied s.req.done (.error e)],?_,?_⟩
        · simp [Worker.record,whole]
        · exact served_last unanswered done bounded retry rfl (.inr rfl) rfl
      | false =>
        rw [again] at done attempted
        refine ⟨⟨rfl,used,fun _ => plain,events ++ [.operated handle s.req true],?_,?_,?_,?_⟩,rfl,rfl⟩
        · simp [Worker.record,whole]
        · rw [answers_append,unanswered]
          rfl
        · rw [operations_append,done]
          rfl
        · rw [attempts_append]
          exact attempted

/-! ### The queue -/

/-- Two passes are enough for any request. -/
theorem serve_total (device : Device) (req : SensorRequest) (w : Worker) (leased : Leased w) :
    ∃ t, Finished req w t ∧ ∀ fuel, 1 < fuel → Loop.run (pass device) fuel ⟨req,false,w⟩ = some t := by
  refine Loop.run_total (InLoop req w) (fun s => if s.alreadyRetried then 0 else 1) (Finished req w)
    (fun s next inLoop ended => ?_) (fun s t inLoop ended => ?_) ⟨req,false,w⟩ ?_
  · have spec := pass_spec device req w s inLoop
    rw [ended] at spec
    obtain ⟨kept,first,second⟩ := spec
    exact ⟨kept,by simp [first,second]⟩
  · have spec := pass_spec device req w s inLoop
    rwa [ended] at spec
  · exact ⟨rfl,leased,fun never => (by cases never),[],by simp,rfl,rfl,Nat.zero_le _⟩

theorem work_total (device : Device) (requests : List SensorRequest) (w : Worker) (leased : Leased w) :
    ∃ t, Leased t ∧ (∃ parts, t.log = w.log ++ parts.flatten ∧ List.Forall₂ Served requests parts) ∧
      ∀ fuel, 1 < fuel → work device fuel requests w = some t := by
  induction requests generalizing w with
  | nil => exact ⟨w,leased,⟨[],by simp,.nil⟩,fun _ _ => rfl⟩
  | cons req queue ih =>
    obtain ⟨v,⟨held,events,log,served⟩,ran⟩ := serve_total device req w leased
    obtain ⟨t,last,⟨parts,rest,all⟩,later⟩ := ih v held
    refine ⟨t,last,⟨events :: parts,?_,.cons served all⟩,fun fuel enough => ?_⟩
    · rw [rest,log,List.flatten_cons,List.append_assoc]
    · rw [work,ran fuel enough,Option.bind_some,later fuel enough]

theorem leased_spawned : Leased spawned := ⟨trivial,rfl,rfl⟩

theorem answers_parts {requests : List SensorRequest} {parts : List (List Event)}
    (served : List.Forall₂ Served requests parts) : answers parts.flatten = requests.map SensorRequest.done := by
  induction served with
  | nil => rfl
  | cons one _ ih => rw [List.flatten_cons,answers_append,one.reply,ih,List.map_cons,List.singleton_append]

/-- The worker ends with every request answered once and in order, each within its limits, and a handle that
had a fatal error is never used again: another one is opened before the next operation. -/
theorem worker_answers (device : Device) (requests : List SensorRequest) :
    ∃ w, (∀ fuel, 2 ≤ fuel → work device fuel requests spawned = some w) ∧
      answers w.log = requests.map SensorRequest.done ∧
      (∃ parts, w.log = .opened 0 :: parts.flatten ∧ List.Forall₂ Served requests parts) ∧
      ∀ before handle req between other next spoilt after,
        w.log = before ++ .operated handle req true :: (between ++ .operated other next spoilt :: after) →
          .opened other ∈ between ∧ other ≠ handle := by
  obtain ⟨w,leased,⟨parts,log,served⟩,ran⟩ := work_total device requests spawned leased_spawned
  refine ⟨w,ran,?_,⟨parts,log,served⟩,fun before handle req between other next spoilt after cut => ?_⟩
  · rw [log,answers_append,answers_parts served]
    rfl
  · have split_ : marks w.log = marks before ++ .used handle true :: (marks between ++ .used other spoilt :: marks after) := by
      rw [cut,marks_append]
      exact congrArg (marks before ++ .used handle true :: ·) (marks_append ..)
    have once : (Lease.openings (marks w.log)).Nodup := by
      rw [leased.fresh]
      exact List.nodup_range
    obtain ⟨opened,different⟩ := Lease.reopened (split_ ▸ leased.valid) (split_ ▸ once)
    obtain ⟨event,member,mark⟩ := List.mem_filterMap.mp opened
    cases event with
    | opened h =>
      obtain rfl : h = other := by simpa using mark
      exact ⟨member,different⟩
    | operated => simp at mark
    | openFailed | replied => cases mark

end R503.Fprint.SensorActor
