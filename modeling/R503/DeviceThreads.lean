import R503.DeviceState
import R503.Registry
import R503.SensorReply

/-! The device object that all handlers share, and where a handler or a task it spawned may be
suspended (dbus_iface.rs): a stage is the point before the next lock, await or signal, with the
locals still in use. A call that spawns a task goes on as that task under the same number. -/
namespace R503.Fprint

open Text

abbrev Tid := Nat

/-- The (user, finger) an enroll or a delete is for. -/
abbrev Owner := Bytes × Bytes

/-- The requests the handlers make of the sensor worker. The owner is not sent: it says for whom
the request was made. -/
inductive SensorOp where
  | enroll (slot : UInt8) (owner : Owner)
  | verify
  | delete (slot : UInt8) (owner : Owner)
  deriving DecidableEq

structure Request where
  tid : Tid
  op : SensorOp
  deriving DecidableEq

structure Device where
  confidenceThreshold : UInt16
  state : DeviceState
  storage : Storage
  /-- The thread that holds the semaphore's one permit. -/
  captureSlot : Option Tid
  /-- The worker's channel; its head is the request being served. -/
  queue : List Request

inductive VerifyStatus where
  | matched
  | noMatch
  | retryScan
  | unknownError
  | disconnected
  deriving DecidableEq

def VerifyStatus.name : VerifyStatus → Bytes
  | .matched => ascii "verify-match"
  | .noMatch => ascii "verify-no-match"
  | .retryScan => ascii "verify-retry-scan"
  | .unknownError => ascii "verify-unknown-error"
  | .disconnected => ascii "verify-disconnected"

inductive EnrollStatus where
  | completed
  | stagePassed
  | dataFull
  | failed
  | disconnected
  deriving DecidableEq

def EnrollStatus.name : EnrollStatus → Bytes
  | .completed => ascii "enroll-completed"
  | .stagePassed => ascii "enroll-stage-passed"
  | .dataFull => ascii "enroll-data-full"
  | .failed => ascii "enroll-failed"
  | .disconnected => ascii "enroll-disconnected"

/-- What a thread does that others can see: sensor requests and their results, signals, and the
reply to the method call. -/
inductive Event where
  | requested (op : SensorOp)
  | replied (executed : Executed)
  | verifyFingerSelected (fingerName : Bytes)
  | verifyStatus (result : VerifyStatus) (done : Bool)
  | enrollStatus (result : EnrollStatus) (done : Bool)
  | returned (reply : Except FprintError Unit)

inductive Method where
  | claim (username : Bytes)
  | release
  | verifyStart (fingerName : Bytes)
  | verifyStop
  | enrollStart (fingerName : Bytes)
  | enrollStop
  | deleteEnrolledFingers (username : Bytes)
  | deleteEnrolledFingers2
  | deleteEnrolledFinger (fingerName : Bytes)

/-- What decides a step besides the state: other services, the order of a hash map, the disk and
the clock. -/
inductive Choice where
  | go
  | authorized (lookup : CallerLookup) (polkit : Except FprintError Bool)
  /-- The order in which a map's entries come. -/
  | order (rows : List (Bytes × UInt8))
  /-- How the write of the registry file ends; the text is that of the error. -/
  | saved (failure : Option Bytes)
  /-- `started_at.elapsed()`. -/
  | elapsed (nanos : Nat)
  /-- The same, where the last lines and the answer came after `select!` had found no line. -/
  | overtaken (nanos : Nat)
  /-- The drain window is over, or the channel closed. -/
  | closed

def Choice.nanos : Choice → Nat
  | .elapsed n | .overtaken n => n
  | _ => 0

/-- The PROGRESS lines that `select!` finds, which it polls for first. -/
def Choice.seen (inbox : List Bytes) : Choice → List Bytes
  | .overtaken _ => []
  | _ => inbox

theorem Choice.seen_cons {choice : Choice} {inbox rest : List Bytes} {msg : Bytes}
    (found : choice.seen inbox = msg :: rest) : inbox = msg :: rest := by
  cases choice with
  | overtaken => cases found
  | _ => exact found

/-! ### Stages -/

structure EnrollJob where
  user : Bytes
  finger : Bytes
  slot : UInt8
  token : ActionToken

def EnrollJob.owner (job : EnrollJob) : Owner := (job.user,job.finger)

inductive EnrollStage where
  /-- Before `try_acquire_owned`. -/
  | permit (user finger : Bytes)
  | mint (user finger : Bytes)
  | lookup (user finger : Bytes) (token : ActionToken)
  | allocate (user finger : Bytes) (token : ActionToken)
  | full (user : Bytes) (token : ActionToken)
  | hints (job : EnrollJob)
  /-- The first stage of the spawned task. -/
  | send (job : EnrollJob)
  | await (job : EnrollJob)
  /-- A PROGRESS line is received, the lock not yet taken. -/
  | progress (job : EnrollJob) (msg : Bytes)
  | stagePassed (job : EnrollJob)
  | drain (job : EnrollJob) (result : Except SensorError UInt8)
  | drainProgress (job : EnrollJob) (result : Except SensorError UInt8) (msg : Bytes)
  | finish (job : EnrollJob) (result : Except SensorError UInt8)
  /-- Before the write lock of `set_slot`. -/
  | store (job : EnrollJob)
  | save
  | emit (status : EnrollStatus)

structure VerifyJob where
  user : Bytes
  finger : Bytes
  token : ActionToken
  expected : List UInt8
  retries : Nat

inductive VerifyStage where
  | permit (user finger : Bytes)
  | mint (user finger : Bytes)
  | selected (job : VerifyJob)
  | hints (job : VerifyJob)
  /-- The head of the spawned task's loop. -/
  | check (job : VerifyJob)
  | send (job : VerifyJob)
  | await (job : VerifyJob)
  | progress (job : VerifyJob) (msg : Bytes)
  /-- The retry is counted, its signal not yet emitted. -/
  | retry (job : VerifyJob)
  | drain (job : VerifyJob) (status : Option VerifyStatus)
  | drainProgress (job : VerifyJob) (status : Option VerifyStatus) (msg : Bytes)
  | finish (job : VerifyJob) (status : Option VerifyStatus)
  | emit (status : VerifyStatus)

/-- The locals of `delete_user_fingers`. -/
structure Sweep where
  user : Bytes
  token : ActionToken
  todo : List (Bytes × UInt8)
  succeeded : List Bytes
  errors : List Bytes

inductive DeleteStage where
  /-- `delete_enrolled_finger` before `get_slot`. -/
  | lookup (user finger : Bytes)
  /-- Before the lock of `begin_delete`, for one finger or for all. -/
  | gate (user : Bytes) (only : Option (Bytes × UInt8))
  | snapshot (user : Bytes) (token : ActionToken)
  | sweep (locals : Sweep)
  | await (locals : Sweep) (finger : Bytes) (slot : UInt8)
  | remove (locals : Sweep)
  | save (locals : Sweep) (finger : Bytes)
  | one (user finger : Bytes) (slot : UInt8) (token : ActionToken)
  | awaitOne (user finger : Bytes) (slot : UInt8) (token : ActionToken)
  | removeOne (user finger : Bytes) (token : ActionToken)
  | saveOne (user : Bytes) (token : ActionToken)

inductive Stage where
  /-- No call has this number yet. -/
  | idle
  | entry (method : Method)
  /-- `claim` after the authorisation. -/
  | claim (user : Bytes)
  /-- `verify_stop` and `enroll_stop` between their two locks. -/
  | stop (kind : ActionKind)
  | enroll (stage : EnrollStage)
  | verify (stage : VerifyStage)
  | delete (stage : DeleteStage)
  /-- Before the lock of `end_action_if_owner` on a way out of an action for `user` that then
  returns `reply`. -/
  | endAction (user : Bytes) (token : ActionToken) (reply : Except FprintError Unit)
  | finished

structure Thread where
  /-- `header.sender()` of the call. -/
  sender : Option Bytes
  stage : Stage
  /-- PROGRESS lines not yet received. -/
  inbox : List Bytes
  /-- The answer to the request under way. -/
  reply : Option Executed

def Thread.idle : Thread := ⟨none,.idle,[],none⟩

/-! ### Steps of one thread -/

structure Turn where
  device : Device
  thread : Thread
  events : List Event

namespace Device

variable (d : Device)

/-- Returning drops the permit, if the thread has it. -/
def release (t : Tid) : Device :=
  { d with captureSlot := if d.captureSlot = some t then none else d.captureSlot }

def request (t : Tid) (op : SensorOp) : Device := { d with queue := d.queue ++ [⟨t,op⟩] }

end Device

namespace Turn

variable (t : Tid) (d : Device) (thread : Thread)

def goto (stage : Stage) (events : List Event) : Turn := ⟨d,{ thread with stage },events⟩

def ask (op : SensorOp) (stage : Stage) : Turn :=
  ⟨d.request t op,{ thread with stage, reply := none },[.requested op]⟩

def finish (events : List Event) : Turn := ⟨d.release t,{ thread with stage := .finished },events⟩

/-- The method call is answered and no task is left. -/
def ret (reply : Except FprintError Unit) : Turn := finish t d thread [.returned reply]

end Turn

end R503.Fprint
