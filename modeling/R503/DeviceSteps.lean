import R503.DeviceMachine
import R503.SlotLedger

/-! What a stage says about its thread, and what one step of a thread can do to the shared
state. Every invariant of the device machine is derived from `Turn.Allowed`. -/
namespace R503.Fprint

open Text SlotLedger

/-! ### What a stage says -/

def stored : Option Executed → Bool
  | none => false
  | some executed => (enrollReply executed).isOk

namespace EnrollStage

def holds : EnrollStage → Bool
  | .permit _ _ => false
  | _ => true

/-- The token was minted, and not given up yet. -/
def token : EnrollStage → Option ActionToken
  | .lookup _ _ token | .allocate _ _ token | .full _ token => some token
  | .hints job | .send job | .await job | .progress job _ | .stagePassed job | .drain job _
  | .drainProgress job _ _ | .finish job _ => some job.token
  | _ => none

def user : EnrollStage → Option Bytes
  | .permit user _ | .mint user _ | .lookup user _ _ | .allocate user _ _ | .full user _ => some user
  | .hints job | .send job | .await job | .progress job _ | .stagePassed job | .drain job _
  | .drainProgress job _ _ | .finish job _ | .store job => some job.user
  | _ => none

def pending : EnrollStage → Option SensorOp
  | .await job | .progress job _ | .stagePassed job => some (.enroll job.slot job.owner)
  | _ => none

/-- The capture under way, from the choice of its slot to the change of the registry. -/
def capture (reply : Option Executed) : EnrollStage → Option (Capture Owner UInt8)
  | .hints job | .send job => some ⟨job.owner,job.slot,false⟩
  | .await job | .progress job _ | .stagePassed job => some ⟨job.owner,job.slot,stored reply⟩
  | .drain job result | .drainProgress job result _ | .finish job result =>
    some ⟨job.owner,job.slot,result.isOk⟩
  | .store job => some ⟨job.owner,job.slot,true⟩
  | _ => none

end EnrollStage

namespace VerifyStage

def holds : VerifyStage → Bool
  | .permit _ _ => false
  | _ => true

def token : VerifyStage → Option ActionToken
  | .selected job | .hints job | .check job | .send job | .await job | .progress job _ | .retry job
  | .drain job _ | .drainProgress job _ _ | .finish job _ => some job.token
  | _ => none

def user : VerifyStage → Option Bytes
  | .permit user _ | .mint user _ => some user
  | .selected job | .hints job | .check job | .send job | .await job | .progress job _ | .retry job
  | .drain job _ | .drainProgress job _ _ | .finish job _ => some job.user
  | _ => none

def pending : VerifyStage → Option SensorOp
  | .await _ | .progress _ _ => some .verify
  | _ => none

end VerifyStage

namespace DeleteStage

def token : DeleteStage → Option ActionToken
  | .lookup _ _ | .gate _ _ => none
  | .snapshot _ token | .one _ _ _ token | .awaitOne _ _ _ token | .removeOne _ _ token | .saveOne _ token => some token
  | .sweep locals | .await locals _ _ | .remove locals | .save locals _ => some locals.token

def user : DeleteStage → Option Bytes
  | .lookup user _ | .gate user _ | .snapshot user _ | .one user _ _ _ | .awaitOne user _ _ _
  | .removeOne user _ _ | .saveOne user _ => some user
  | .sweep locals | .await locals _ _ | .remove locals | .save locals _ => some locals.user

def pending : DeleteStage → Option SensorOp
  | .await locals finger slot => some (.delete slot (locals.user,finger))
  | .awaitOne user finger slot _ => some (.delete slot (user,finger))
  | _ => none

end DeleteStage

namespace Stage

/-- The thread has the permit: a capture from its acquisition to the end of the handler or task. -/
def holds : Stage → Bool
  | .enroll stage => stage.holds
  | .verify stage => stage.holds
  | .endAction _ token _ => token.kind ≠ .delete
  | _ => false

def token : Stage → Option ActionToken
  | .enroll stage => stage.token
  | .verify stage => stage.token
  | .delete stage => stage.token
  | .endAction _ token _ => some token
  | _ => none

def user : Stage → Option Bytes
  | .claim user => some user
  | .enroll stage => stage.user
  | .verify stage => stage.user
  | .delete stage => stage.user
  | .endAction user _ _ => some user
  | _ => none

def pending : Stage → Option SensorOp
  | .enroll stage => stage.pending
  | .verify stage => stage.pending
  | .delete stage => stage.pending
  | _ => none

/-- Tokens are of the kind of the action they belong to, and a delete is never stopped. -/
def Kinded : Stage → Prop
  | .stop kind => kind ≠ .delete
  | .enroll stage => ∀ token, stage.token = some token → token.kind = .enroll
  | .verify stage => ∀ token, stage.token = some token → token.kind = .verify
  | .delete stage => ∀ token, stage.token = some token → token.kind = .delete
  | _ => True

def claiming : Stage → Bool
  | .claim _ => true
  | _ => false

/-- The row that the next step writes or removes. -/
def writing : Stage → Option Owner
  | .enroll (.store job) => some job.owner
  | .delete (.remove locals) => locals.succeeded.head?.map (locals.user,·)
  | .delete (.removeOne user finger _) => some (user,finger)
  | _ => none

theorem writing_remove {locals : Sweep} {finger : Bytes} {rest : List Bytes}
    (succeeded : locals.succeeded = finger :: rest) :
    writing (.delete (.remove locals)) = some (locals.user,finger) := by
  rw [writing,succeeded]
  rfl

/-- The row that an enroll has found missing, before it allocates a slot. -/
def missing : Stage → Option Owner
  | .enroll (.allocate user finger _) => some (user,finger)
  | _ => none

/-- The rows whose slots a delete has yet to see erased. -/
def targets : Stage → List (Owner × UInt8)
  | .delete (.sweep locals) => locals.todo.map fun row => ((locals.user,row.1),row.2)
  | .delete (.await locals finger slot) =>
    ((locals.user,finger),slot) :: locals.todo.map fun row => ((locals.user,row.1),row.2)
  | .delete (.one user finger slot _) | .delete (.awaitOne user finger slot _) => [((user,finger),slot)]
  | _ => []

/-- The row whose slot was read before the gate of its delete. -/
def gating : Stage → Option (Owner × UInt8)
  | .delete (.gate user (some (finger,slot))) => some ((user,finger),slot)
  | _ => none

def minting : Stage → Option Bytes
  | .enroll (.mint user _) | .verify (.mint user _) => some user
  | _ => none

section
variable {stage : Stage}

theorem user_of_minting {user : Bytes} (mints : stage.minting = some user) : stage.user = some user := by
  unfold minting at mints
  split at mints
  · exact mints
  · exact mints
  · cases mints

theorem holds_of_minting {user : Bytes} (mints : stage.minting = some user) : stage.holds = true := by
  unfold minting at mints
  split at mints
  · rfl
  · rfl
  · cases mints

/-- Who has the token of a capture has the permit. -/
theorem holds_of_token {token : ActionToken} (kinded : stage.Kinded) (owns : stage.token = some token)
    (capture : token.kind ≠ .delete) : stage.holds = true := by
  cases stage with
  | enroll stage => cases stage <;> first | rfl | cases owns
  | verify stage => cases stage <;> first | rfl | cases owns
  | delete stage => exact absurd (kinded token owns) capture
  | endAction user given reply =>
    obtain rfl := Option.some.inj owns
    exact decide_eq_true capture
  | _ => cases owns

end

end Stage

namespace Thread

def capture (thread : Thread) : Option (Capture Owner UInt8) :=
  match thread.stage with
  | .enroll stage => stage.capture thread.reply
  | _ => none

def Awaits (thread : Thread) (op : SensorOp) : Prop := thread.stage.pending = some op ∧ thread.reply = none

end Thread

namespace Event

def isStatus : Event → Bool
  | .verifyStatus _ _ | .enrollStatus _ _ => true
  | _ => false

def isDone : Event → Bool
  | .verifyStatus _ done | .enrollStatus _ done => done
  | _ => false

/-- One of a spawned task: a full flash is reported by the handler, which then spawns none. -/
def isTaskDone : Event → Bool
  | .enrollStatus .dataFull _ => false
  | .verifyStatus _ done | .enrollStatus _ done => done
  | _ => false

end Event

/-! ### What a step can do -/

inductive PermitStep (t : Tid) (before after : Option Tid) (stage stage' : Stage) : Prop where
  | same (unchanged : after = before) (kept : stage'.holds = true → stage.holds = true)
  | acquire (free : before = none) (got : after = some t)
  | drop (had : before = some t) (released : after = none) (ended : stage' = .finished)

inductive QueueStep (t : Tid) (before after : List Request) (thread thread' : Thread) : Prop where
  | same (unchanged : after = before) (waits : ∀ op, thread'.Awaits op ↔ thread.Awaits op)
  | ask (op : SensorOp) (idle : thread.stage.pending = none) (asked : after = before ++ [⟨t,op⟩])
      (waits : thread'.Awaits op)

inductive StateStep (s s' : DeviceState) (thread thread' : Thread) : Prop where
  | same (action : s'.action = s.action) (user : s'.claimedBy = s.claimedBy)
      (sender : s'.claimSender = s.claimSender)
      (token : thread'.stage.token = thread.stage.token ∨
        thread'.stage = .finished ∧ thread.stage.token ≠ s.action)
  | mint (kind : ActionKind) (free : s.action = none) (minted : s' = s.startAction kind)
      (fresh : thread.stage.token = none) (token : thread'.stage.token = some (s.freshToken kind))
      (from_ : kind = .delete ∨ thread.stage.minting ≠ none)
  | done (token : ActionToken) (own : thread.stage.token = some token) (current : s.action = some token)
      (cleared : s' = s.clearAction) (gone : thread'.stage.token = none)
  | stop (kind : ActionKind) (token : ActionToken) (at_ : thread.stage = .stop kind)
      (current : s.action = some token) (match_ : token.kind = kind) (cleared : s' = s.clearAction)
      (ended : thread'.stage = .finished)
  | release (at_ : thread.stage = .entry .release) (claimed : s.claimedBy ≠ none)
      (allowed : s.otherSender thread.sender = false)
      (dropped : s' = s.dropClaim) (ended : thread'.stage = .finished)
  | claim (user : Bytes) (at_ : thread.stage = .claim user)
      (allowed : s.claimedBy = none ∨ s.claimedBy = some user ∧ s.action = none)
      (installed : s' = { s with claimedBy := some user, claimSender := thread.sender })
      (ended : thread'.stage = .finished)

inductive RegistryStep (before after : Storage) (thread thread' : Thread) : Prop where
  | same (unchanged : after = before)
      (capture : thread'.capture = thread.capture ∨ thread'.capture = none)
      (missing : ∀ owner, thread'.stage.missing = some owner → before.getSlot owner.1 owner.2 = none)
  /-- The slot of a new capture is that of the finger's own row, or unused. -/
  | choose (job : EnrollJob) (unchanged : after = before)
      (capture : thread'.capture = some ⟨job.owner,job.slot,false⟩)
      (free : before.getSlot job.user job.finger = some job.slot ∨
        thread.stage.missing = some job.owner ∧ ∀ user finger, before.getSlot user finger ≠ some job.slot)
  | remove (user finger : Bytes) (at_ : thread.stage.writing = some (user,finger)) (noCapture : thread.stage.holds = false)
      (capture : thread'.capture = thread.capture) (targets : thread'.stage.targets = []) (missing : thread'.stage.missing = none)
      (removed : after = before.removeFinger user finger)
  | store (job : EnrollJob) (at_ : thread.stage = .enroll (.store job)) (next : thread'.stage = .enroll .save)
      (written : after = before.setSlot job.user job.finger job.slot)

/-- Where the user a thread acts for comes from. -/
inductive UserStep (s : DeviceState) (choice : Choice) (thread thread' : Thread) (user : Bytes) : Prop where
  | same (before : thread.stage.user = some user) (now : thread.stage.claiming = false)
      (later : thread'.stage.claiming = false)
  | claimed (method : Method) (here : thread.stage = .entry method)
      (claimed : s.ensureClaim thread.sender = .ok user) (later : thread'.stage.claiming = false)
  | authorized (lookup : CallerLookup) (polkit : Except FprintError Bool) (requested : Bytes)
      (here : thread.stage = .entry (.claim requested) ∧ thread'.stage.claiming = true ∨
        thread.stage = .entry (.deleteEnrolledFingers requested) ∧ thread'.stage.claiming = false)
      (chosen : choice = .authorized lookup polkit)
      (granted : authorizeUsername thread.sender lookup polkit requested = .ok user)

/-- Where a slot that a delete has yet to see erased comes from. -/
inductive TargetStep (d : Device) (thread : Thread) (target : Owner × UInt8) : Prop where
  | kept (before : target ∈ thread.stage.targets)
  | read (row : d.storage.getSlot target.1.1 target.1.2 = some target.2)
  | gate (at_ : thread.stage.gating = some target) (free : d.state.action = none)

structure SignalStep (events : List Event) (stage : Stage) : Prop where
  permit : ∀ e ∈ events, e.isStatus = true → stage.holds = true
  /-- While it has its token a task emits no final status. -/
  task : events.countP Event.isTaskDone = 0 ∨ stage.token = none

structure Turn.Allowed (t : Tid) (d : Device) (thread : Thread) (choice : Choice) (turn : Turn) : Prop where
  sender : turn.thread.sender = thread.sender
  threshold : turn.device.confidenceThreshold = d.confidenceThreshold
  permit : PermitStep t d.captureSlot turn.device.captureSlot thread.stage turn.thread.stage
  queue : QueueStep t d.queue turn.device.queue thread turn.thread
  state : StateStep d.state turn.device.state thread turn.thread
  registry : RegistryStep d.storage turn.device.storage thread turn.thread
  targets : ∀ target ∈ turn.thread.stage.targets, TargetStep d thread target
  user : ∀ user, turn.thread.stage.user = some user → UserStep d.state choice thread turn.thread user
  /-- As long as there is a token, the user is the one it was minted for. -/
  keeps : turn.thread.stage.token = none ∨ turn.thread.stage.user = thread.stage.user
  kinded : turn.thread.stage.Kinded
  signals : SignalStep turn.events thread.stage

/-! ### Shapes of steps -/

section
variable (s : DeviceState) (msg : Bytes)

@[simp] theorem action_progress : (updateFingerStateFromProgress s msg).action = s.action := by
  unfold updateFingerStateFromProgress
  split
  · rfl
  · split <;> rfl

@[simp] theorem claimedBy_progress : (updateFingerStateFromProgress s msg).claimedBy = s.claimedBy := by
  unfold updateFingerStateFromProgress
  split
  · rfl
  · split <;> rfl

@[simp] theorem claimSender_progress : (updateFingerStateFromProgress s msg).claimSender = s.claimSender := by
  unfold updateFingerStateFromProgress
  split
  · rfl
  · split <;> rfl

end

theorem endActionIfOwner_owner {s s' : DeviceState} {token : ActionToken}
    (ended : s.endActionIfOwner token = (s',true)) : s.action = some token ∧ s' = s.clearAction := by
  unfold DeviceState.endActionIfOwner at ended
  split at ended
  next own => exact ⟨own,(Prod.mk.inj ended).1.symm⟩
  next => cases ended

theorem endActionIfOwner_other {s s' : DeviceState} {token : ActionToken}
    (ended : s.endActionIfOwner token = (s',false)) : s.action ≠ some token ∧ s' = s := by
  unfold DeviceState.endActionIfOwner at ended
  split at ended
  next => cases ended
  next other => exact ⟨other,(Prod.mk.inj ended).1.symm⟩

section
variable {t : Tid} {d : Device} {thread : Thread} {choice : Choice} {turn : Turn}

theorem PermitStep.finish (stage : Stage) : PermitStep t d.captureSlot (d.release t).captureSlot stage .finished := by
  by_cases had : d.captureSlot = some t
  · exact .drop had (by simp [Device.release,had]) rfl
  · exact .same (by simp [Device.release,had]) (fun impossible => by cases impossible)

/-- A step that neither asks nor answers nor begins to wait. -/
theorem QueueStep.calm {thread' : Thread} (queue : List Request) (before : thread.stage.pending = none)
    (after : thread'.stage.pending = none) : QueueStep t queue queue thread thread' :=
  .same rfl fun op => by simp [Thread.Awaits,before,after]

/-- The thread has its answer and goes on. -/
theorem QueueStep.answered {thread' : Thread} {executed : Executed} (queue : List Request)
    (before : thread.reply = some executed) (after : thread'.stage.pending = none) :
    QueueStep t queue queue thread thread' :=
  .same rfl fun op => by simp [Thread.Awaits,before,after]

/-- Between requests to listen to, the thread still waits for the same answer. -/
theorem QueueStep.waiting {thread' : Thread} (queue : List Request)
    (stage : thread'.stage.pending = thread.stage.pending) (reply : thread'.reply = thread.reply) :
    QueueStep t queue queue thread thread' :=
  .same rfl fun op => by simp [Thread.Awaits,stage,reply]

/-- A step under the lock that only touches the hints. -/
theorem StateStep.hints {s s' : DeviceState} {thread' : Thread} (action : s'.action = s.action)
    (user : s'.claimedBy = s.claimedBy) (sender : s'.claimSender = s.claimSender)
    (token : thread'.stage.token = thread.stage.token) : StateStep s s' thread thread' :=
  .same action user sender (.inl token)

theorem StateStep.finish {s s' : DeviceState} {token : ActionToken} {thread' : Thread}
    (had : thread.stage.token = some token) (ended : s.endActionIfOwner token = (s',true))
    (gone : thread'.stage.token = none) : StateStep s s' thread thread' := by
  obtain ⟨own,cleared⟩ := endActionIfOwner_owner ended
  exact .done token had own cleared gone

theorem StateStep.notOwner {s s' : DeviceState} {token : ActionToken} {thread' : Thread}
    (had : thread.stage.token = some token) (ended : s.endActionIfOwner token = (s',false))
    (gone : thread'.stage = .finished) : StateStep s s thread thread' := by
  obtain ⟨other,rfl⟩ := endActionIfOwner_other ended
  exact .same rfl rfl rfl (.inr ⟨gone,fun same => other (same.symm.trans had)⟩)

section
variable {s : DeviceState} {thread' : Thread}

theorem UserStep.calm (user : thread'.stage.user = thread.stage.user) (now : thread.stage.claiming = false)
    (later : thread'.stage.claiming = false) :
    ∀ u, thread'.stage.user = some u → UserStep s choice thread thread' u :=
  fun _ acts => .same (user ▸ acts) now later

theorem UserStep.gone (user : thread'.stage.user = none) :
    ∀ u, thread'.stage.user = some u → UserStep s choice thread thread' u := fun _ acts => by
  rw [user] at acts
  cases acts

theorem UserStep.ofClaim {method : Method} {user : Bytes} (here : thread.stage = .entry method)
    (claimed : s.ensureClaim thread.sender = .ok user) (acts : thread'.stage.user = some user)
    (later : thread'.stage.claiming = false) : ∀ u, thread'.stage.user = some u → UserStep s choice thread thread' u :=
  fun _ same => by
    obtain rfl := Option.some.inj (acts.symm.trans same)
    exact .claimed method here claimed later

theorem UserStep.ofAuth {lookup : CallerLookup} {polkit : Except FprintError Bool} {requested user : Bytes}
    (here : thread.stage = .entry (.claim requested) ∧ thread'.stage.claiming = true ∨
      thread.stage = .entry (.deleteEnrolledFingers requested) ∧ thread'.stage.claiming = false)
    (granted : authorizeUsername thread.sender lookup polkit requested = .ok user)
    (acts : thread'.stage.user = some user) :
    ∀ u, thread'.stage.user = some u → UserStep s (.authorized lookup polkit) thread thread' u := fun _ same => by
  obtain rfl := Option.some.inj (acts.symm.trans same)
  exact .authorized lookup polkit requested here rfl granted

end

/-- A step that neither writes the registry nor finds a row missing. -/
theorem RegistryStep.calm {storage : Storage} {thread' : Thread}
    (capture : thread'.capture = thread.capture ∨ thread'.capture = none) (missing : thread'.stage.missing = none) :
    RegistryStep storage storage thread thread' :=
  .same rfl capture fun owner found => by
    rw [missing] at found
    cases found

theorem TargetStep.none {thread' : Thread} (targets : thread'.stage.targets = []) :
    ∀ target ∈ thread'.stage.targets, TargetStep d thread target := fun target member => by
  rw [targets] at member
  cases member

theorem SignalStep.silent {events : List Event} {stage : Stage}
    (quiet : events.all fun e => !e.isStatus && !e.isTaskDone) : SignalStep events stage := by
  have each := List.all_eq_true.mp quiet
  simp only [Bool.and_eq_true,Bool.not_eq_true'] at each
  refine ⟨fun e member status => ?_,.inl ?_⟩
  · rw [(each e member).1] at status
    cases status
  · exact List.countP_eq_zero.mpr fun e member => by simp [(each e member).2]

theorem SignalStep.emits {events : List Event} {stage : Stage} (permit : stage.holds = true)
    (task : events.countP Event.isTaskDone = 0 ∨ stage.token = none) : SignalStep events stage :=
  ⟨fun _ _ _ => permit,task⟩

end

end R503.Fprint
