import R503.DeviceRest
import R503.SensorBacked

/-! What clients are told: `enroll-completed` and the Ok of a delete are reported only for what the sensor has
confirmed and the thread has changed in the registry and written after that, for every row there was. -/
namespace R503.Fprint

open Text Transition SlotLedger

/-! ### Deeds of a thread -/

structure Deeds where
  /-- The user is the caller's claimed one, or one it was authorised for. -/
  acts : Bytes → Prop
  confirmed : SensorOp → Prop
  /-- The rows of the user, as the registry had them. -/
  listed : Bytes → List (Bytes × UInt8) → Prop
  removed : Owner → Prop
  stored : Owner → UInt8 → Prop
  /-- Removed, and a later write of the registry succeeded. -/
  cleared : Owner → Prop
  /-- Stored, and a later write of the registry succeeded. -/
  kept : Owner → UInt8 → Prop

structure Deeds.Le (deeds deeds' : Deeds) : Prop where
  acts : ∀ user, deeds.acts user → deeds'.acts user
  confirmed : ∀ op, deeds.confirmed op → deeds'.confirmed op
  listed : ∀ user rows, deeds.listed user rows → deeds'.listed user rows
  removed : ∀ owner, deeds.removed owner → deeds'.removed owner
  stored : ∀ owner slot, deeds.stored owner slot → deeds'.stored owner slot
  cleared : ∀ owner, deeds.cleared owner → deeds'.cleared owner
  kept : ∀ owner slot, deeds.kept owner slot → deeds'.kept owner slot

section
variable (start : World) (actions : List Action) (t : Tid)

/-- The method passes `ensure_claim`, or its authorisation, in this step. -/
def Grants (user : Bytes) (w : World) (a : Action) : Prop :=
  (∃ method, (w.threads t).stage = .entry method) ∧
    ((∃ choice, a = .step t choice) ∧ w.device.state.ensureClaim (w.threads t).sender = .ok user ∨
      ∃ lookup polkit requested, a = .step t (.authorized lookup polkit) ∧
        authorizeUsername (w.threads t).sender lookup polkit requested = .ok user)

def Lists (user : Bytes) (rows : List (Bytes × UInt8)) (w : World) (a : Action) : Prop :=
  a = .step t (.order rows) ∧ rows.isPerm (w.device.storage.getUserSlots user)

def Removes (owner : Owner) (w : World) (a : Action) : Prop :=
  (∃ choice, a = .step t choice) ∧ (w.threads t).stage.writing = some owner ∧ (w.threads t).stage.holds = false

def Stores (owner : Owner) (slot : UInt8) (w : World) (a : Action) : Prop :=
  (∃ choice, a = .step t choice) ∧ ∃ job : EnrollJob, (w.threads t).stage = .enroll (.store job) ∧
    job.owner = owner ∧ job.slot = slot

/-- A write of the registry is reported to have succeeded. -/
def Saves (a : Action) : Prop := a = .step t (.saved none)

def deedsOf : Deeds where
  acts user := Took World.step start (fun _ => Grants t user) actions
  confirmed := Confirmed start actions t
  listed user rows := Took World.step start (fun _ => Lists t user rows) actions
  removed owner := Took World.step start (fun _ => Removes t owner) actions
  stored owner slot := Took World.step start (fun _ => Stores t owner slot) actions
  cleared owner := Took World.step start (fun before _ a =>
    Took World.step start (fun _ => Removes t owner) before ∧ Saves t a) actions
  kept owner slot := Took World.step start (fun before _ a =>
    Took World.step start (fun _ => Stores t owner slot) before ∧ Saves t a) actions

theorem deedsOf_later (a : Action) : (deedsOf start actions t).Le (deedsOf start (actions ++ [a]) t) where
  acts _ took := took.later [a]
  confirmed _ took := took.later a
  listed _ _ took := took.later [a]
  removed _ took := took.later [a]
  stored _ _ took := took.later [a]
  cleared _ took := took.later [a]
  kept _ _ took := took.later [a]

structure Covers (deeds deeds' : Deeds) (d : Device) (thread : Thread) (choice : Choice) : Prop where
  before : deeds.Le deeds'
  acts : ∀ method user, thread.stage = .entry method → (d.state.ensureClaim thread.sender = .ok user ∨
    ∃ lookup polkit requested, choice = .authorized lookup polkit ∧
      authorizeUsername thread.sender lookup polkit requested = .ok user) → deeds'.acts user
  listed : ∀ user rows, choice = .order rows → rows.isPerm (d.storage.getUserSlots user) → deeds'.listed user rows
  removed : ∀ owner, thread.stage.writing = some owner → thread.stage.holds = false → deeds'.removed owner
  stored : ∀ job : EnrollJob, thread.stage = .enroll (.store job) → deeds'.stored job.owner job.slot
  cleared : ∀ owner, choice = .saved none → deeds.removed owner → deeds'.cleared owner
  kept : ∀ owner slot, choice = .saved none → deeds.stored owner slot → deeds'.kept owner slot

variable {start actions t}

theorem deedsOf_covers {w : World} {choice : Choice} (ran : run World.step start actions = some w) :
    Covers (deedsOf start actions t) (deedsOf start (actions ++ [.step t choice]) t) w.device (w.threads t) choice where
  before := deedsOf_later start actions t _
  acts method user here granted := .now ran ⟨⟨method,here⟩,granted.imp (fun claimed => ⟨⟨choice,rfl⟩,claimed⟩)
    fun ⟨lookup,polkit,requested,chosen,given⟩ => ⟨lookup,polkit,requested,by rw [chosen],given⟩⟩
  listed user rows chosen perm := .now ran ⟨by rw [chosen],perm⟩
  removed owner writes free := .now ran ⟨⟨choice,rfl⟩,writes,free⟩
  stored job here := .now ran ⟨⟨choice,rfl⟩,job,here,rfl,rfl⟩
  cleared owner saved removed := .now ran ⟨removed,by rw [saved,Saves]⟩
  kept owner slot saved stored := .now ran ⟨stored,by rw [saved,Saves]⟩

end

/-! ### Reports and what they say -/

namespace Method

def finger : Method → Option Bytes
  | .verifyStart finger | .enrollStart finger | .deleteEnrolledFinger finger => some finger
  | _ => none

def deletes : Method → Bool
  | .deleteEnrolledFingers _ | .deleteEnrolledFingers2 | .deleteEnrolledFinger _ => true
  | _ => false

end Method

namespace Deeds

variable (deeds : Deeds)

/-- A template is stored for the caller's finger, the thread has put its row into the registry and then written
the registry. Another handler may have taken the row out before that write. -/
def Enrolled (method : Method) : Prop := ∃ user finger slot, deeds.acts user ∧ method.finger = some finger ∧
  deeds.confirmed (.enroll slot (user,finger)) ∧ deeds.kept (user,finger) slot

/-- The finger's template is erased, and the thread has taken its row out and then written the registry. -/
def Erased (user finger : Bytes) : Prop :=
  ∃ slot, deeds.confirmed (.delete slot (user,finger)) ∧ deeds.cleared (user,finger)

/-- So are those of all fingers the user had. -/
def Swept (user : Bytes) : Prop := ∃ rows, deeds.listed user rows ∧
  ∀ row ∈ rows, deeds.confirmed (.delete row.2 (user,row.1)) ∧ deeds.cleared (user,row.1)

def Deleted (method : Method) (user : Bytes) : Prop :=
  (∀ finger, method.finger = some finger → deeds.Erased user finger) ∧ (method.finger = none → deeds.Swept user)

end Deeds

/-! ### What a stage says about its deeds -/

namespace Stage

/-- The finger that the thread works on, or none for a delete of all. -/
def target : Stage → Option (Option Bytes)
  | .enroll (.permit _ finger) | .enroll (.mint _ finger) | .enroll (.lookup _ finger _)
  | .enroll (.allocate _ finger _) | .verify (.permit _ finger) | .verify (.mint _ finger) => some (some finger)
  | .enroll (.hints job) | .enroll (.send job) | .enroll (.await job) | .enroll (.progress job _)
  | .enroll (.stagePassed job) | .enroll (.drain job _) | .enroll (.drainProgress job _ _) | .enroll (.finish job _)
  | .enroll (.store job) => some (some job.finger)
  | .verify (.selected job) | .verify (.hints job) | .verify (.check job) | .verify (.send job) | .verify (.await job)
  | .verify (.progress job _) | .verify (.retry job) | .verify (.drain job _) | .verify (.drainProgress job _ _)
  | .verify (.finish job _) => some (some job.finger)
  | .delete (.lookup _ finger) | .delete (.gate _ (some (finger,_))) | .delete (.one _ finger _ _)
  | .delete (.awaitOne _ finger _ _) | .delete (.removeOne _ finger _) => some (some finger)
  | .delete (.gate _ none) | .delete (.snapshot _ _) | .delete (.sweep _) | .delete (.await _ _ _)
  | .delete (.remove _) | .delete (.save _ _) => some none
  | _ => none

def deleting : Stage → Bool
  | .entry method => method.deletes
  | .delete _ | .finished => true
  | .endAction _ token _ => token.kind = .delete
  | _ => false

end Stage

/-- A row of the snapshot that the sensor is done with, unless there is an error to report. -/
def Sweep.Done (deeds : Deeds) (locals : Sweep) (row : Bytes × UInt8) : Prop :=
  locals.errors ≠ [] ∨ deeds.confirmed (.delete row.2 (locals.user,row.1)) ∧
    (row.1 ∈ locals.succeeded ∨ deeds.cleared (locals.user,row.1))

def Stage.Deletes (deeds : Deeds) (method : Method) : Stage → Prop
  | .delete (.sweep locals) => ∃ rows, deeds.listed locals.user rows ∧
    ∀ row ∈ rows, row ∈ locals.todo ∨ locals.Done deeds row
  | .delete (.await locals finger slot) => ∃ rows, deeds.listed locals.user rows ∧
    ∀ row ∈ rows, row ∈ locals.todo ∨ row = (finger,slot) ∨ locals.Done deeds row
  | .delete (.remove locals) => ∃ rows, deeds.listed locals.user rows ∧ ∀ row ∈ rows, locals.Done deeds row
  | .delete (.save locals finger) => deeds.removed (locals.user,finger) ∧
    ∃ rows, deeds.listed locals.user rows ∧ ∀ row ∈ rows, locals.Done deeds row ∨
      row.1 = finger ∧ deeds.confirmed (.delete row.2 (locals.user,finger))
  | .delete (.saveOne user _) => ∃ finger, method.finger = some finger ∧
    (∃ slot, deeds.confirmed (.delete slot (user,finger))) ∧ deeds.removed (user,finger)
  | .endAction user token reply => token.kind = .delete → reply = .ok () → deeds.Deleted method user
  | _ => True

def Stage.Enrolls (deeds : Deeds) (method : Method) : Stage → Prop
  | .enroll .save => ∃ user finger slot, deeds.acts user ∧ method.finger = some finger ∧
    deeds.confirmed (.enroll slot (user,finger)) ∧ deeds.stored (user,finger) slot
  | .enroll (.emit .completed) => deeds.Enrolled method
  | _ => True

/-- The thread of a call of `method` has done what its stage and its reports say. -/
structure Thread.Honest (deeds : Deeds) (method : Method) (thread : Thread) (events : List Event) : Prop where
  entry : ∀ m, thread.stage = .entry m → m = method
  backed : thread.Backed deeds.confirmed
  acts : ∀ user, thread.stage.user = some user → deeds.acts user
  target : ∀ finger, thread.stage.target = some finger → method.finger = finger
  deleting : method.deletes = true → thread.stage.deleting = true
  deletes : thread.stage.Deletes deeds method
  enrolls : thread.stage.Enrolls deeds method
  completed : ∀ done, .enrollStatus .completed done ∈ events → deeds.Enrolled method
  deleted : method.deletes = true → .returned (.ok ()) ∈ events → ∃ user, deeds.acts user ∧ deeds.Deleted method user

section
variable {deeds deeds' : Deeds} (le : deeds.Le deeds')
include le

theorem Deeds.Enrolled.mono {method : Method} : deeds.Enrolled method → deeds'.Enrolled method :=
  fun ⟨user,finger,slot,acts,names,confirmed,kept⟩ =>
    ⟨user,finger,slot,le.acts _ acts,names,le.confirmed _ confirmed,le.kept _ _ kept⟩

theorem Deeds.Deleted.mono {method : Method} {user : Bytes} (deleted : deeds.Deleted method user) :
    deeds'.Deleted method user := by
  refine ⟨fun finger names => ?_,fun all => ?_⟩
  · obtain ⟨slot,confirmed,cleared⟩ := deleted.1 finger names
    exact ⟨slot,le.confirmed _ confirmed,le.cleared _ cleared⟩
  · obtain ⟨rows,listed,done⟩ := deleted.2 all
    exact ⟨rows,le.listed _ _ listed,fun row member =>
      ⟨le.confirmed _ (done row member).1,le.cleared _ (done row member).2⟩⟩

theorem Sweep.Done.mono {locals : Sweep} {row : Bytes × UInt8} : locals.Done deeds row → locals.Done deeds' row :=
  Or.imp id fun ⟨confirmed,rest⟩ => ⟨le.confirmed _ confirmed,rest.imp id (le.cleared _)⟩

theorem Stage.Deletes.mono {method : Method} {stage : Stage} (deletes : stage.Deletes deeds method) :
    stage.Deletes deeds' method := by
  unfold Stage.Deletes at deletes ⊢
  split at deletes
  · obtain ⟨rows,listed,done⟩ := deletes
    exact ⟨rows,le.listed _ _ listed,fun row member => (done row member).imp id (Sweep.Done.mono le)⟩
  · obtain ⟨rows,listed,done⟩ := deletes
    exact ⟨rows,le.listed _ _ listed,fun row member => (done row member).imp id (Or.imp id (Sweep.Done.mono le))⟩
  · obtain ⟨rows,listed,done⟩ := deletes
    exact ⟨rows,le.listed _ _ listed,fun row member => Sweep.Done.mono le (done row member)⟩
  · obtain ⟨removed,rows,listed,done⟩ := deletes
    exact ⟨le.removed _ removed,rows,le.listed _ _ listed,fun row member =>
      (done row member).imp (Sweep.Done.mono le) (And.imp id (le.confirmed _))⟩
  · obtain ⟨finger,names,⟨slot,confirmed⟩,removed⟩ := deletes
    exact ⟨finger,names,⟨slot,le.confirmed _ confirmed⟩,le.removed _ removed⟩
  · exact fun kind ok => Deeds.Deleted.mono le (deletes kind ok)
  · trivial

theorem Stage.Enrolls.mono {method : Method} {stage : Stage} (enrolls : stage.Enrolls deeds method) :
    stage.Enrolls deeds' method := by
  unfold Stage.Enrolls at enrolls ⊢
  split at enrolls
  · obtain ⟨user,finger,slot,acts,names,confirmed,stored⟩ := enrolls
    exact ⟨user,finger,slot,le.acts _ acts,names,le.confirmed _ confirmed,le.stored _ _ stored⟩
  · exact Deeds.Enrolled.mono le enrolls
  · trivial

theorem Thread.Honest.mono {method : Method} {thread : Thread} {events : List Event}
    (honest : thread.Honest deeds method events) : thread.Honest deeds' method events where
  entry := honest.entry
  backed := honest.backed.mono le.confirmed
  acts user acting := le.acts user (honest.acts user acting)
  target := honest.target
  deleting := honest.deleting
  deletes := honest.deletes.mono le
  enrolls := honest.enrolls.mono le
  completed done member := Deeds.Enrolled.mono le (honest.completed done member)
  deleted deletes member := by
    obtain ⟨user,acts,deleted⟩ := honest.deleted deletes member
    exact ⟨user,le.acts user acts,Deeds.Deleted.mono le deleted⟩

end

/-! ### One step -/

section
variable {t : Tid} {d : Device} {thread : Thread} {choice : Choice} {turn : Turn} {method : Method}

/-- What the turns of a thread have in common, whatever its stage: where it goes, and what it tells. -/
structure Turn.Tells (turn : Turn) (thread : Thread) (method : Method) : Prop where
  entry : ∀ m, turn.thread.stage ≠ .entry m
  target : ∀ finger, turn.thread.stage.target = some finger → method.finger = finger
  deleting : method.deletes = true → turn.thread.stage.deleting = true
  completed : ∀ done, .enrollStatus .completed done ∈ turn.events → thread.stage = .enroll (.emit .completed)
  deleted : method.deletes = true → .returned (.ok ()) ∈ turn.events →
    ∃ user token, thread.stage = .endAction user token (.ok ())

theorem Method.turn_tells (here : thread.stage = .entry method) (taken : method.turn t d thread choice = some turn) :
    turn.Tells thread method := by
  revert taken
  fun_cases Method.turn t d thread choice method
  all_goals
    intro taken
    cases taken
  all_goals
    constructor
    all_goals simp [Turn.goto,Turn.ret,Turn.finish,Stage.target,Stage.deleting,Method.finger,Method.deletes]

theorem EnrollStage.turn_tells {stage : EnrollStage} (here : thread.stage = .enroll stage)
    (target : ∀ finger, thread.stage.target = some finger → method.finger = finger)
    (deleting : method.deletes = true → thread.stage.deleting = true)
    (taken : stage.turn t d thread choice = some turn) : turn.Tells thread method := by
  rw [here] at target deleting
  have never : method.deletes = false := Bool.eq_false_iff.mpr fun deletes => by cases deleting deletes
  revert taken
  fun_cases EnrollStage.turn t d thread choice stage
  all_goals
    intro taken
    cases taken
  all_goals
    refine ⟨fun m => Stage.noConfusion,?_,fun deletes => absurd deletes (by simp [never]),?_,
      fun deletes => absurd deletes (by simp [never])⟩
  all_goals first
  | exact target
  | exact fun _ impossible => absurd impossible.symm (Option.some_ne_none _)
  | skip
  all_goals simp [Turn.goto,Turn.ask,Turn.ret,Turn.finish,here]
  exact Eq.symm

theorem VerifyStage.turn_tells {stage : VerifyStage} (here : thread.stage = .verify stage)
    (target : ∀ finger, thread.stage.target = some finger → method.finger = finger)
    (deleting : method.deletes = true → thread.stage.deleting = true)
    (taken : stage.turn t d thread choice = some turn) : turn.Tells thread method := by
  rw [here] at target deleting
  have never : method.deletes = false := Bool.eq_false_iff.mpr fun deletes => by cases deleting deletes
  revert taken
  fun_cases VerifyStage.turn t d thread choice stage
  all_goals
    intro taken
    cases taken
  all_goals
    refine ⟨fun m => Stage.noConfusion,?_,fun deletes => absurd deletes (by simp [never]),?_,
      fun deletes => absurd deletes (by simp [never])⟩
  all_goals first
  | exact target
  | exact fun _ impossible => absurd impossible.symm (Option.some_ne_none _)
  | skip
  all_goals simp [Turn.goto,Turn.ask,Turn.ret,Turn.finish]

theorem DeleteStage.turn_tells {stage : DeleteStage} (here : thread.stage = .delete stage)
    (kinded : thread.stage.Kinded) (target : ∀ finger, thread.stage.target = some finger → method.finger = finger)
    (taken : stage.turn t d thread choice = some turn) : turn.Tells thread method := by
  rw [here] at target kinded
  revert taken
  fun_cases DeleteStage.turn t d thread choice stage
  all_goals
    intro taken
    cases taken
  all_goals
    refine ⟨fun m => Stage.noConfusion,?_,fun _ => ?deleting,?_,fun _ => ?_⟩
    case deleting =>
      first
      | rfl
      | exact decide_eq_true (kinded _ rfl)
  all_goals first
  | exact target
  | exact fun _ impossible => absurd impossible.symm (Option.some_ne_none _)
  | skip
  all_goals simp [Turn.goto,Turn.ask,Turn.ret,Turn.finish]

theorem Stage.turn_tells (kinded : thread.stage.Kinded) (entry : ∀ m, thread.stage = .entry m → m = method)
    (target : ∀ finger, thread.stage.target = some finger → method.finger = finger)
    (deleting : method.deletes = true → thread.stage.deleting = true)
    (taken : thread.stage.turn t d thread choice = some turn) : turn.Tells thread method := by
  cases here : thread.stage with
  | idle | finished =>
    rw [here] at taken
    cases taken
  | entry m =>
    obtain rfl := entry m here
    rw [here] at taken
    exact m.turn_tells here taken
  | enroll stage =>
    rw [here] at taken
    exact stage.turn_tells here target deleting taken
  | verify stage =>
    rw [here] at taken
    exact stage.turn_tells here target deleting taken
  | delete stage =>
    rw [here] at taken
    exact stage.turn_tells here kinded target taken
  | claim user | stop kind =>
    rw [here] at taken deleting
    cases taken
    refine ⟨fun _ => Stage.noConfusion,fun _ => by simp [Turn.ret,Turn.finish,Stage.target],fun _ => rfl,
      by simp [Turn.ret,Turn.finish],fun deletes => by cases deleting deletes⟩
  | endAction user token reply =>
    rw [here] at taken
    cases taken
    refine ⟨fun _ => Stage.noConfusion,fun _ => by simp [Turn.ret,Turn.finish,Stage.target],fun _ => rfl,
      by simp [Turn.ret,Turn.finish],fun _ member => ⟨user,token,?_⟩⟩
    rw [here,Event.returned.inj (List.mem_singleton.mp member)]

variable {deeds deeds' : Deeds} {events : List Event}

theorem Thread.Honest.acts_turn (honest : thread.Honest deeds method events)
    (covers : Covers deeds deeds' d thread choice)
    (kinded : thread.stage.Kinded) (taken : thread.stage.turn t d thread choice = some turn) (user : Bytes)
    (acting : turn.thread.stage.user = some user) : deeds'.acts user := by
  cases (Stage.turn_allowed kinded taken).user user acting with
  | same before _ _ => exact covers.before.acts user (honest.acts user before)
  | claimed m here claimed _ => exact covers.acts m user here (.inl claimed)
  | authorized lookup polkit requested here chosen granted =>
    rcases here with ⟨here,_⟩ | ⟨here,_⟩
    · exact covers.acts _ user here (.inr ⟨lookup,polkit,requested,chosen,granted⟩)
    · exact covers.acts _ user here (.inr ⟨lookup,polkit,requested,chosen,granted⟩)

theorem Thread.Honest.enrolls_turn (honest : thread.Honest deeds method events)
    (covers : Covers deeds deeds' d thread choice) (taken : thread.stage.turn t d thread choice = some turn) :
    turn.thread.stage.Enrolls deeds' method := by
  cases here : thread.stage with
  | idle | finished =>
    rw [here] at taken
    cases taken
  | entry m =>
    rw [here] at taken
    revert taken
    change m.turn t d thread choice = some turn → _
    fun_cases Method.turn t d thread choice m
    all_goals
      intro taken
      cases taken
    all_goals trivial
  | enroll stage =>
    have names := honest.target
    have acts := honest.acts
    have before := honest.enrolls
    rw [here] at taken names acts before
    revert taken
    change stage.turn t d thread choice = some turn → _
    fun_cases EnrollStage.turn t d thread choice stage
    all_goals
      intro taken
      cases taken
    all_goals first
    | trivial
    | skip
    next e _ => cases fatal : isFatalIo e <;> simp [Turn.goto,Stage.Enrolls]
    next job =>
      have confirmed := honest.backed.stored ⟨job.owner,job.slot,true⟩ (by rw [Thread.capture,here]; rfl) rfl
      exact ⟨job.user,job.finger,job.slot,covers.before.acts _ (acts _ rfl),names _ rfl,
        covers.before.confirmed _ confirmed,covers.stored job here⟩
    next =>
      obtain ⟨user,finger,slot,acts,names,confirmed,stored⟩ := before
      exact ⟨user,finger,slot,covers.before.acts _ acts,names,covers.before.confirmed _ confirmed,
        covers.kept _ _ rfl stored⟩
  | verify stage =>
    rw [here] at taken
    revert taken
    change stage.turn t d thread choice = some turn → _
    fun_cases VerifyStage.turn t d thread choice stage
    all_goals
      intro taken
      cases taken
    all_goals trivial
  | delete stage =>
    rw [here] at taken
    revert taken
    change stage.turn t d thread choice = some turn → _
    fun_cases DeleteStage.turn t d thread choice stage
    all_goals
      intro taken
      cases taken
    all_goals trivial
  | claim _ | stop _ | endAction _ _ _ =>
    rw [here] at taken
    cases taken
    trivial

section
variable {deeds : Deeds} {locals : Sweep} {user finger text : Bytes} {slot : UInt8} {token : ActionToken}
  {rows rest : List (Bytes × UInt8)}

/-- A sweep that has collected an error has nothing left to prove. -/
theorem Sweep.Done.of_error {row : Bytes × UInt8} :
    Sweep.Done deeds { locals with errors := locals.errors ++ [text] } row := .inl (by simp)

namespace Stage.Deletes

/-! What each stage of a delete hands to the next. -/

theorem snapshot (listed : deeds.listed user rows) :
    Stage.Deletes deeds method (.delete (.sweep ⟨user,token,rows,[],[]⟩)) :=
  ⟨rows,listed,fun _ member => .inl member⟩

theorem nothing (listed : deeds.listed user []) (all : method.finger = none) :
    Stage.Deletes deeds method (.endAction user token (.ok ())) := by
  refine fun _ _ => ⟨fun finger named => ?_,fun _ => ⟨[],listed,by simp⟩⟩
  rw [all] at named
  cases named

theorem asked (before : Stage.Deletes deeds method (.delete (.sweep locals))) (todo : locals.todo = (finger,slot) :: rest) :
    Stage.Deletes deeds method (.delete (.await { locals with todo := rest } finger slot)) := by
  obtain ⟨rows,listed,done⟩ := before
  refine ⟨rows,listed,fun row member => ?_⟩
  rcases done row member with waits | done
  · rw [todo,List.mem_cons] at waits
    exact waits.elim (fun now => .inr (.inl now)) .inl
  · exact .inr (.inr done)

theorem erased (before : Stage.Deletes deeds method (.delete (.await locals finger slot)))
    (confirmed : deeds.confirmed (.delete slot (locals.user,finger))) :
    Stage.Deletes deeds method (.delete (.sweep { locals with succeeded := locals.succeeded ++ [finger] })) := by
  obtain ⟨rows,listed,done⟩ := before
  refine ⟨rows,listed,fun row member => ?_⟩
  rcases done row member with waits | rfl | failed | ⟨earlier,kept⟩
  · exact .inl waits
  · exact .inr (.inr ⟨confirmed,.inl (List.mem_append_right _ (List.mem_singleton.mpr rfl))⟩)
  · exact .inr (.inl failed)
  · exact .inr (.inr ⟨earlier,kept.imp (List.mem_append_left _) id⟩)

theorem refused (before : Stage.Deletes deeds method (.delete (.await locals finger slot))) :
    Stage.Deletes deeds method (.delete (.sweep { locals with errors := locals.errors ++ [text] })) := by
  obtain ⟨rows,listed,_⟩ := before
  exact ⟨rows,listed,fun _ _ => .inr .of_error⟩

theorem swept (before : Stage.Deletes deeds method (.delete (.sweep locals))) (todo : locals.todo = []) :
    Stage.Deletes deeds method (.delete (.remove locals)) := by
  obtain ⟨rows,listed,done⟩ := before
  exact ⟨rows,listed,fun row member => (done row member).resolve_left (by simp [todo])⟩

theorem dropped {others : List Bytes} (before : Stage.Deletes deeds method (.delete (.remove locals)))
    (succeeded : locals.succeeded = finger :: others) (removed : deeds.removed (locals.user,finger)) :
    Stage.Deletes deeds method (.delete (.save { locals with succeeded := others } finger)) := by
  obtain ⟨rows,listed,done⟩ := before
  refine ⟨removed,rows,listed,fun row member => ?_⟩
  rcases done row member with failed | ⟨confirmed,erased | cleared⟩
  · exact .inl (.inl failed)
  · rw [succeeded,List.mem_cons] at erased
    rcases erased with same | later
    · exact .inr ⟨same,same ▸ confirmed⟩
    · exact .inl (.inr ⟨confirmed,.inl later⟩)
  · exact .inl (.inr ⟨confirmed,.inr cleared⟩)

theorem saved (before : Stage.Deletes deeds method (.delete (.save locals finger)))
    (cleared : deeds.cleared (locals.user,finger)) : Stage.Deletes deeds method (.delete (.remove locals)) := by
  obtain ⟨_,rows,listed,done⟩ := before
  refine ⟨rows,listed,fun row member => ?_⟩
  rcases done row member with done | ⟨same,confirmed⟩
  · exact done
  · exact .inr ⟨same ▸ confirmed,.inr (same ▸ cleared)⟩

theorem unsaved (before : Stage.Deletes deeds method (.delete (.save locals finger))) :
    Stage.Deletes deeds method (.delete (.remove { locals with errors := locals.errors ++ [text] })) := by
  obtain ⟨_,rows,listed,_⟩ := before
  exact ⟨rows,listed,fun _ _ => .of_error⟩

/-- The sweep reports success only if it has collected no error. -/
theorem ended (before : Stage.Deletes deeds method (.delete (.remove locals))) (emptied : locals.succeeded = [])
    (all : method.finger = none) :
    Stage.Deletes deeds method (.endAction locals.user token (sweepResult locals.errors)) := by
  obtain ⟨rows,listed,done⟩ := before
  intro _ ok
  have clean : locals.errors = [] := by
    by_contra failed
    simp [sweepResult,failed] at ok
  refine ⟨fun finger named => ?_,fun _ => ⟨rows,listed,fun row member => ?_⟩⟩
  · rw [all] at named
    cases named
  · obtain ⟨confirmed,erased⟩ := (done row member).resolve_left (not_not.mpr clean)
    exact ⟨confirmed,erased.resolve_left (by simp [emptied])⟩

theorem savedOne (before : Stage.Deletes deeds method (.delete (.saveOne user token)))
    (cleared : ∀ finger, deeds.removed (user,finger) → deeds'.cleared (user,finger)) (le : deeds.Le deeds') :
    Stage.Deletes deeds' method (.endAction user token (.ok ())) := by
  obtain ⟨finger,named,⟨slot,confirmed⟩,removed⟩ := before
  intro _ _
  refine ⟨fun other same => ?_,fun none => ?_⟩
  · obtain rfl := Option.some.inj (named.symm.trans same)
    exact ⟨slot,le.confirmed _ confirmed,cleared _ removed⟩
  · rw [named] at none
    cases none

end Stage.Deletes

end

theorem DeleteStage.turn_deletes {stage : DeleteStage} (here : thread.stage = .delete stage)
    (honest : thread.Honest deeds method events) (covers : Covers deeds deeds' d thread choice)
    (taken : stage.turn t d thread choice = some turn) : turn.thread.stage.Deletes deeds' method := by
  have earlier := honest.deletes
  have before := honest.deletes.mono covers.before
  have backed := honest.backed.mono covers.before.confirmed
  have names := honest.target
  rw [here] at earlier before names
  revert taken
  fun_cases DeleteStage.turn t d thread choice stage
  all_goals
    intro taken
    cases taken
  all_goals first
  | trivial
  | skip
  next user token perm => exact .nothing (covers.listed user [] rfl (by simpa using perm)) (names _ rfl)
  next perm _ => exact .snapshot (covers.listed _ _ rfl (by simpa using perm))
  next todo => exact before.swept todo
  next todo => exact before.asked todo
  next finger slot executed answered _ succeeded =>
    exact before.erased (backed.replied slot (_,finger) executed (by rw [here]; rfl) answered (by rw [succeeded]; rfl))
  next => exact before.refused
  next locals emptied => exact before.ended emptied (names _ rfl)
  next locals finger rest succeeded =>
    exact before.dropped succeeded (covers.removed (locals.user,finger)
      (by rw [here]; exact Stage.writing_remove succeeded) (by rw [here]; rfl))
  next locals finger => exact before.saved (covers.cleared _ rfl earlier.1)
  next => exact before.unsaved
  next => exact fun _ ok => by cases ok
  next user finger token =>
    obtain ⟨slot,confirmed⟩ := backed.erased (user,finger) (by rw [here]; exact List.mem_singleton.mpr rfl)
    exact ⟨finger,names _ rfl,⟨slot,confirmed⟩,covers.removed _ (by rw [here]; rfl) (by rw [here]; rfl)⟩
  next user token => exact earlier.savedOne (fun finger => covers.cleared _ rfl) covers.before
  next => exact fun _ ok => by cases ok

/-- One step of a delete, or of any other thread. -/
theorem Thread.Honest.deletes_turn (honest : thread.Honest deeds method events) (kinded : thread.stage.Kinded)
    (covers : Covers deeds deeds' d thread choice) (taken : thread.stage.turn t d thread choice = some turn) :
    turn.thread.stage.Deletes deeds' method := by
  cases here : thread.stage with
  | idle | finished =>
    rw [here] at taken
    cases taken
  | entry m =>
    rw [here] at taken
    revert taken
    change m.turn t d thread choice = some turn → _
    fun_cases Method.turn t d thread choice m
    all_goals
      intro taken
      cases taken
    all_goals trivial
  | enroll stage =>
    rw [here] at taken kinded
    revert taken
    change stage.turn t d thread choice = some turn → _
    fun_cases EnrollStage.turn t d thread choice stage
    all_goals
      intro taken
      cases taken
    all_goals first
    | trivial
    -- an enroll ends with a token of its own kind
    | exact fun deletes => absurd ((kinded _ rfl).symm.trans deletes) ActionKind.noConfusion
  | verify stage =>
    rw [here] at taken
    revert taken
    change stage.turn t d thread choice = some turn → _
    fun_cases VerifyStage.turn t d thread choice stage
    all_goals
      intro taken
      cases taken
    all_goals first
    | trivial
    | exact fun deletes => absurd deletes ActionKind.noConfusion
  | delete stage =>
    rw [here] at taken
    exact stage.turn_deletes here honest covers taken
  | claim _ | stop _ | endAction _ _ _ =>
    rw [here] at taken
    cases taken
    trivial

theorem Thread.Honest.next (honest : thread.Honest deeds method events) (kinded : thread.stage.Kinded)
    (covers : Covers deeds deeds' d thread choice) (taken : thread.stage.turn t d thread choice = some turn) :
    turn.thread.Honest deeds' method (events ++ turn.events) := by
  have tells := Stage.turn_tells kinded honest.entry honest.target honest.deleting taken
  have before := honest.mono covers.before
  refine ⟨fun m here => absurd here (tells.entry m),before.backed.next kinded taken,
    honest.acts_turn covers kinded taken,tells.target,tells.deleting,honest.deletes_turn kinded covers taken,
    honest.enrolls_turn covers taken,fun done member => ?_,fun deletes member => ?_⟩
  · rcases List.mem_append.mp member with old | new
    · exact before.completed done old
    · have now := before.enrolls
      rw [tells.completed done new] at now
      exact now
  · rcases List.mem_append.mp member with old | new
    · exact before.deleted deletes old
    · obtain ⟨user,token,here⟩ := tells.deleted deletes new
      have now := before.deletes
      have deleting := honest.deleting deletes
      rw [here] at now deleting
      exact ⟨user,before.acts user (by rw [here]; rfl),now (of_decide_eq_true deleting) rfl⟩

end

/-! ### Whole runs -/

/-- Mail alone makes no difference. -/
theorem Thread.Honest.mail {deeds : Deeds} {method : Method} {thread : Thread} {events : List Event}
    (honest : thread.Honest deeds method events) {inbox : List Bytes} {reply : Option Executed}
    (backed : Thread.Backed deeds.confirmed { thread with inbox, reply }) :
    Thread.Honest deeds method { thread with inbox, reply } events :=
  ⟨honest.entry,backed,honest.acts,honest.target,honest.deleting,honest.deletes,honest.enrolls,honest.completed,
    honest.deleted⟩

theorem Thread.Honest.called {deeds : Deeds} {sender : Bytes} {method : Method} :
    Thread.Honest deeds method ⟨some sender,.entry method,[],none⟩ [] where
  entry _ here := (Stage.entry.inj here).symm
  backed := ⟨(fun _ captures => by cases captures),(fun _ member => by cases member),
    (fun _ _ _ pending => by cases pending)⟩
  acts _ acting := by cases acting
  target _ named := by cases named
  deleting deletes := deletes
  deletes := trivial
  enrolls := trivial
  completed _ member := by cases member
  deleted _ member := by cases member

/-- A number that no call has taken has no events, and every call's thread is honest. -/
def Reporting (start : World) (actions : List Action) (t : Tid) (thread : Thread) (events : List Event) : Prop :=
  (thread.stage = .idle → events = []) ∧ ∀ sender method, .call t sender method ∈ actions →
    thread.Honest (deedsOf start actions t) method events

theorem reporting_rule (threshold : UInt16) (storage : Storage) (templates : UInt8 → Option Owner) :
    ThreadRule (.boot threshold storage templates) (Reporting (.boot threshold storage templates)) where
  initial _ := ⟨fun _ => rfl,fun _ _ member => by cases member⟩
  later actions a t thread events noCall reporting := by
    refine ⟨reporting.1,fun sender method member => ?_⟩
    rcases List.mem_append.mp member with old | new
    · exact (reporting.2 sender method old).mono (deedsOf_later _ _ _ _)
    · exact absurd (List.mem_singleton.mp new).symm (noCall sender method)
  call actions w t sender method ran fresh reporting := by
    refine ⟨Stage.noConfusion,fun sender' method' member => ?_⟩
    rcases List.mem_append.mp member with old | new
    · exact absurd fresh (World.called_run old ran)
    · obtain ⟨_,rfl,rfl⟩ := Action.call.inj (List.mem_singleton.mp new)
      rw [reporting.1 fresh]
      exact .called
  step actions w t choice turn ran coherent taken reporting := by
    refine ⟨fun idle => absurd idle (Stage.turn_ends taken).1,fun sender method member => ?_⟩
    rcases List.mem_append.mp member with old | new
    · exact (reporting.2 sender method old).next (coherent.kinded t) (deedsOf_covers ran) taken
    · cases List.mem_singleton.mp new
  hear _ _ _ _ _ reporting := by
    refine ⟨reporting.1,fun sender method member => (reporting.2 sender method member).mail ?_⟩
    have backed := (reporting.2 sender method member).backed
    exact ⟨backed.stored,backed.erased,backed.replied⟩
  answer actions w r rest executed changed ran coherent queue effect reporting := by
    refine ⟨reporting.1,fun sender method member => ?_⟩
    rcases List.mem_append.mp member with old | new
    · have honest := reporting.2 sender method old
      exact (honest.mono (deedsOf_later _ _ _ _)).mail (honest.backed.answer ran coherent queue effect)
    · cases List.mem_singleton.mp new

end R503.Fprint
