import Mathlib.Logic.Function.Basic
import R503.DeleteCall
import R503.EnrollCall
import R503.Transition
import R503.VerifyCall

/-! The D-Bus device with any number of clients: every handler and spawned task steps from one
lock, await or signal to the next, in any order, next to the sensor worker. -/
namespace R503.Fprint

open Text

/-- From the call of a method to the end of its first lock or authorisation. -/
def Method.turn (t : Tid) (d : Device) (thread : Thread) (choice : Choice) :
    Method → Option Turn
  | .claim username =>
    match choice with
    | .authorized lookup polkit =>
      match authorizeUsername thread.sender lookup polkit username with
      | .error e => some (.ret t d thread (.error e))
      | .ok user => some (.goto d thread (.claim user) [])
    | _ => none
  | .release =>
    some (.ret t { d with state := (d.state.release thread.sender).1 } thread (d.state.release thread.sender).2)
  | .verifyStart finger =>
    match validateFinger finger true,d.state.ensureClaim thread.sender with
    | .error e,_ => some (.ret t d thread (.error e))
    | .ok (),.error e => some (.ret t d thread (.error e))
    | .ok (),.ok user => some (.goto d thread (.verify (.permit user finger)) [])
  | .verifyStop =>
    match d.state.ensureClaim thread.sender with
    | .error e => some (.ret t d thread (.error e))
    | .ok _ => some (.goto d thread (.stop .verify) [])
  | .enrollStart finger =>
    match validateFinger finger false,d.state.ensureClaim thread.sender with
    | .error e,_ => some (.ret t d thread (.error e))
    | .ok (),.error e => some (.ret t d thread (.error e))
    | .ok (),.ok user => some (.goto d thread (.enroll (.permit user finger)) [])
  | .enrollStop =>
    match d.state.ensureClaim thread.sender with
    | .error e => some (.ret t d thread (.error e))
    | .ok _ => some (.goto d thread (.stop .enroll) [])
  | .deleteEnrolledFingers username =>
    match choice with
    | .authorized lookup polkit =>
      match authorizeUsername thread.sender lookup polkit username with
      | .error e => some (.ret t d thread (.error e))
      | .ok user => some (.goto d thread (.delete (.gate user none)) [])
    | _ => none
  | .deleteEnrolledFingers2 =>
    match d.state.ensureClaim thread.sender with
    | .error e => some (.ret t d thread (.error e))
    | .ok user => some (.goto d thread (.delete (.gate user none)) [])
  | .deleteEnrolledFinger finger =>
    match validateFinger finger false,d.state.ensureClaim thread.sender with
    | .error e,_ => some (.ret t d thread (.error e))
    | .ok (),.error e => some (.ret t d thread (.error e))
    | .ok (),.ok user => some (.goto d thread (.delete (.lookup user finger)) [])

def Stage.turn (t : Tid) (d : Device) (thread : Thread) (choice : Choice) : Stage → Option Turn
  | .idle => none
  | .entry method => method.turn t d thread choice
  | .claim user =>
    some (.ret t { d with state := (d.state.claim thread.sender user).1 } thread
      (d.state.claim thread.sender user).2)
  | .stop kind => some (.ret t { d with state := (d.state.stop kind).1 } thread (d.state.stop kind).2)
  | .enroll stage => stage.turn t d thread choice
  | .verify stage => stage.turn t d thread choice
  | .delete stage => stage.turn t d thread choice
  | .endAction _ token reply => some (.ret t { d with state := (d.state.endActionIfOwner token).1 } thread reply)
  | .finished => none

structure World where
  device : Device
  /-- The sensor's flash: for whom the template in a slot was captured. -/
  templates : UInt8 → Option Owner
  threads : Tid → Thread
  events : List (Tid × Event)
  /-- The clients that have left the bus. -/
  gone : List Bytes
  /-- Those of which the watcher has not heard yet, in the order of the signals. -/
  unheard : List Bytes

inductive Action where
  /-- A method call arrives; the bus names its sender. -/
  | call (t : Tid) (sender : Bytes) (method : Method)
  | step (t : Tid) (choice : Choice)
  | leave (uniqueName : Bytes)
  /-- The watcher handles the next NameOwnerChanged signal. -/
  | disconnect
  /-- The sensor sends a PROGRESS line for the request it serves. -/
  | progress (msg : Bytes)
  /-- The sensor is done with that request; `changed` is whether its flash changed. -/
  | serve (executed : Executed) (changed : Bool)

/-- A request that ends like this has done what it says. -/
def SensorOp.succeeds (executed : Executed) : SensorOp → Bool
  | .enroll _ _ => (enrollReply executed).isOk
  | .verify => false
  | .delete _ _ => (deleteReply executed).isOk

def SensorOp.apply (templates : UInt8 → Option Owner) : SensorOp → UInt8 → Option Owner
  | .enroll slot owner => Function.update templates slot (some owner)
  | .verify => templates
  | .delete slot _ => Function.update templates slot none

def SensorOp.hasProgress : SensorOp → Bool
  | .delete _ _ => false
  | _ => true

namespace World

variable (w : World)

def setThread (t : Tid) (thread : Thread) : World :=
  { w with threads := Function.update w.threads t thread }

def spawn (t : Tid) (sender : Bytes) (method : Method) : World :=
  w.setThread t ⟨some sender,.entry method,[],none⟩

def commit (t : Tid) (turn : Turn) : World :=
  { w.setThread t turn.thread with
    device := turn.device
    events := w.events ++ turn.events.map (t,·) }

def left (uniqueName : Bytes) : World :=
  { w with gone := uniqueName :: w.gone, unheard := w.unheard ++ [uniqueName] }

def disconnected (uniqueName : Bytes) (rest : List Bytes) : World :=
  { w with
    device := { w.device with state := w.device.state.handleClientDisconnect uniqueName }
    unheard := rest }

def hear (r : Request) (msg : Bytes) : World :=
  w.setThread r.tid { w.threads r.tid with inbox := (w.threads r.tid).inbox ++ [msg] }

def answer (r : Request) (rest : List Request) (executed : Executed) (changed : Bool) : World :=
  { w.setThread r.tid { w.threads r.tid with reply := some executed } with
    device := { w.device with queue := rest }
    templates := if changed then r.op.apply w.templates else w.templates }

def step (w : World) : Action → Option World
  | .call t sender method =>
    match (w.threads t).stage with
    | .idle => some (w.spawn t sender method)
    | _ => none
  | .step t choice => ((w.threads t).stage.turn t w.device (w.threads t) choice).map (w.commit t)
  | .leave name => if name ∈ w.gone then none else some (w.left name)
  | .disconnect =>
    match w.unheard with
    | [] => none
    | name :: rest => some (w.disconnected name rest)
  | .progress msg =>
    match w.device.queue with
    | [] => none
    | r :: _ => if r.op.hasProgress then some (w.hear r msg) else none
  | .serve executed changed =>
    match w.device.queue with
    | [] => none
    | r :: rest =>
      -- a request that succeeded has changed the flash
      if r.op.succeeds executed ∧ ¬ changed then none else some (w.answer r rest executed changed)

def boot (confidenceThreshold : UInt16) (storage : Storage) (templates : UInt8 → Option Owner) : World :=
  ⟨⟨confidenceThreshold,.initial,storage,none,[]⟩,templates,fun _ => .idle,[],[],[]⟩

inductive Moves : Action → World → Prop where
  | call (t : Tid) (sender : Bytes) (method : Method) (fresh : (w.threads t).stage = .idle) :
      Moves (.call t sender method) (w.spawn t sender method)
  | step (t : Tid) (choice : Choice) (turn : Turn)
      (taken : (w.threads t).stage.turn t w.device (w.threads t) choice = some turn) :
      Moves (.step t choice) (w.commit t turn)
  | leave (name : Bytes) (present : name ∉ w.gone) : Moves (.leave name) (w.left name)
  | disconnect (name : Bytes) (rest : List Bytes) (signals : w.unheard = name :: rest) :
      Moves .disconnect (w.disconnected name rest)
  | progress (r : Request) (rest : List Request) (msg : Bytes) (queue : w.device.queue = r :: rest)
      (forwarded : r.op.hasProgress = true) : Moves (.progress msg) (w.hear r msg)
  | serve (r : Request) (rest : List Request) (executed : Executed) (changed : Bool)
      (queue : w.device.queue = r :: rest) (effect : r.op.succeeds executed = true → changed = true) :
      Moves (.serve executed changed) (w.answer r rest executed changed)

variable {w}

theorem step_moves {v : World} {a : Action} (moved : w.step a = some v) : w.Moves a v := by
  cases a with
  | call t sender method =>
    simp only [step] at moved
    split at moved
    next fresh =>
      obtain rfl := Option.some.inj moved
      exact .call t sender method fresh
    next => cases moved
  | step t choice =>
    obtain ⟨turn,taken,rfl⟩ := Option.map_eq_some_iff.mp moved
    exact .step t choice turn taken
  | leave name =>
    simp only [step] at moved
    split at moved
    next => cases moved
    next present =>
      obtain rfl := Option.some.inj moved
      exact .leave name present
  | disconnect =>
    simp only [step] at moved
    split at moved
    next => cases moved
    next name rest signals =>
      obtain rfl := Option.some.inj moved
      exact .disconnect name rest signals
  | progress msg =>
    simp only [step] at moved
    split at moved
    next => cases moved
    next r rest queue =>
      split at moved
      next forwarded =>
        obtain rfl := Option.some.inj moved
        exact .progress r rest msg queue forwarded
      next => cases moved
  | serve executed changed =>
    simp only [step] at moved
    split at moved
    next => cases moved
    next r rest queue =>
      split at moved
      next => cases moved
      next done =>
        obtain rfl := Option.some.inj moved
        refine .serve r rest executed changed queue fun succeeded => ?_
        by_contra unchanged
        exact done ⟨succeeded,unchanged⟩

end World

end R503.Fprint
