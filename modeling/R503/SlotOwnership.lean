import R503.DeviceInvariant

/-! Who owns a template slot: the device machine, its registry and the sensor's flash refine
the slot ledger. -/
namespace R503.Fprint

open Text Transition SlotLedger

/-- The ledger of a world: its capture is that of the thread with the permit. -/
def World.ledger (w : World) : Ledger Owner UInt8 where
  rows owner := w.device.storage.getSlot owner.1 owner.2
  templates := w.templates
  capture := w.device.captureSlot.bind fun t => (w.threads t).capture

theorem Thread.capture_holds {thread : Thread} {c : Capture Owner UInt8} (captures : thread.capture = some c) :
    thread.stage.holds = true := by
  unfold Thread.capture at captures
  split at captures
  next stage here =>
    rw [here]
    cases stage <;> first | rfl | cases captures
  next => cases captures

/-- A thread that waits for an enroll is capturing into the slot it asked for. -/
theorem Thread.capture_enroll {thread : Thread} {slot : UInt8} {owner : Owner}
    (pending : thread.stage.pending = some (.enroll slot owner)) :
    thread.capture = some ⟨owner,slot,stored thread.reply⟩ := by
  unfold Thread.capture
  cases here : thread.stage with
  | enroll stage =>
    rw [here] at pending
    cases stage
    case await | progress | stagePassed =>
      obtain ⟨rfl,rfl⟩ := SensorOp.enroll.inj (Option.some.inj pending)
      rfl
    all_goals cases pending
  | verify stage =>
    rw [here] at pending
    cases stage <;> cases pending
  | delete stage =>
    rw [here] at pending
    cases stage <;> cases pending
  | _ =>
    rw [here] at pending
    cases pending

/-- A thread that waits for something else is not capturing. -/
theorem Thread.capture_others {thread : Thread} {op : SensorOp} (pending : thread.stage.pending = some op)
    (others : ∀ slot owner, op ≠ .enroll slot owner) : thread.capture = none := by
  unfold Thread.capture
  cases here : thread.stage with
  | enroll stage =>
    rw [here] at pending
    cases stage
    case await | progress | stagePassed => exact absurd (Option.some.inj pending).symm (others _ _)
    all_goals cases pending
  | _ => rfl

theorem rows_setSlot (storage : Storage) (job : EnrollJob) :
    (fun owner : Owner => (storage.setSlot job.user job.finger job.slot).getSlot owner.1 owner.2) =
      Function.update (fun owner : Owner => storage.getSlot owner.1 owner.2) job.owner (some job.slot) := by
  funext owner
  by_cases same : owner = job.owner
  · subst owner
    rw [Function.update_self]
    exact Storage.getSlot_setSlot_same storage job.user job.finger job.slot
  · rw [Function.update_of_ne same]
    exact Storage.getSlot_setSlot_other storage job.user job.finger job.slot _ _ same

theorem rows_removeFinger (storage : Storage) (user finger : Bytes) :
    (fun owner : Owner => (storage.removeFinger user finger).getSlot owner.1 owner.2) =
      Function.update (fun owner : Owner => storage.getSlot owner.1 owner.2) (user,finger) none := by
  funext owner
  by_cases same : owner = (user,finger)
  · subst owner
    rw [Function.update_self]
    exact Storage.getSlot_removeFinger_same storage user finger
  · rw [Function.update_of_ne same]
    exact Storage.getSlot_removeFinger_other storage user finger _ _ same

section
variable {w : World} (coherent : Coherent w)
include coherent

theorem ledger_capture {t : Tid} (held : (w.threads t).stage.holds = true) :
    w.ledger.capture = (w.threads t).capture := by
  rw [World.ledger,coherent.permit t held,Option.bind_some]

section
variable {t : Tid} {choice : Choice} {turn : Turn} (allowed : turn.Allowed t w.device (w.threads t) choice)
include allowed

/-- A thread that starts no capture changes the one under way at most by giving it up. -/
theorem capture_commit (kept : turn.thread.capture = (w.threads t).capture ∨ turn.thread.capture = none) :
    (w.commit t turn).ledger.capture = w.ledger.capture ∨ (w.commit t turn).ledger.capture = none := by
  have after : (w.commit t turn).ledger.capture =
      turn.device.captureSlot.bind fun u => ((w.commit t turn).threads u).capture := rfl
  have here : (w.commit t turn).threads t = turn.thread := World.threads_setThread_same
  rcases allowed.permit with ⟨unchanged,_⟩ | ⟨free,got⟩ | ⟨_,released,_⟩
  · rw [after,unchanged,World.ledger]
    cases holder : w.device.captureSlot with
    | none => exact .inl rfl
    | some u =>
      simp only [Option.bind_some]
      by_cases same : u = t
      · subst u
        rw [here]
        exact kept
      · left
        exact congrArg Thread.capture (World.threads_setThread_other same)
  · right
    rw [after,got,Option.bind_some,here]
    rcases kept with same | none
    · rw [same]
      by_contra captures
      obtain ⟨c,captured⟩ := Option.ne_none_iff_exists'.mp captures
      have held := coherent.permit t (Thread.capture_holds captured)
      rw [free] at held
      cases held
    · exact none
  · right
    rw [after,released]
    rfl

/-- A thread that starts a capture has the permit. -/
theorem capture_chosen {c : Capture Owner UInt8} (captures : turn.thread.capture = some c) :
    (w.commit t turn).ledger.capture = some c := by
  have after : (w.commit t turn).ledger.capture =
      turn.device.captureSlot.bind fun u => ((w.commit t turn).threads u).capture := rfl
  have here : (w.commit t turn).threads t = turn.thread := World.threads_setThread_same
  have holds := Thread.capture_holds captures
  rcases allowed.permit with ⟨unchanged,kept⟩ | ⟨_,got⟩ | ⟨_,_,ended⟩
  · rw [after,unchanged,coherent.permit t (kept holds),Option.bind_some,here,captures]
  · rw [after,got,Option.bind_some,here,captures]
  · rw [ended] at holds
    cases holds

theorem ledger_commit : Relation.ReflTransGen Step w.ledger (w.commit t turn).ledger := by
  have rows : (w.commit t turn).ledger.rows = fun owner => turn.device.storage.getSlot owner.1 owner.2 := rfl
  have shape : (w.commit t turn).ledger =
      ⟨(w.commit t turn).ledger.rows,w.templates,(w.commit t turn).ledger.capture⟩ := rfl
  rcases allowed.registry with ⟨unchanged,kept,_⟩ | ⟨job,unchanged,captures,free⟩ |
    ⟨user,finger,_,_,kept,_,_,removed⟩ | ⟨job,here,next,written⟩
  · rw [shape,rows,unchanged]
    rcases capture_commit coherent allowed kept with same | none
    · rw [same]
      exact .refl
    · rw [none]
      exact .single .abandon
  · rw [shape,rows,unchanged,capture_chosen coherent allowed captures]
    exact .single (.start job.owner job.slot (free.imp id fun unused k => unused.2 k.1 k.2))
  · rw [shape,rows,removed,rows_removeFinger]
    have step : Step w.ledger
      ⟨Function.update w.ledger.rows (user,finger) none,w.templates,w.ledger.capture⟩ := .remove (user,finger)
    rcases capture_commit coherent allowed (.inl kept) with same | none
    · rw [same]
      exact .single step
    · rw [none]
      exact .tail (.single step) .abandon
  · have holds : (w.threads t).stage.holds = true := by
      rw [here]
      rfl
    have captured : w.ledger.capture = some ⟨job.owner,job.slot,true⟩ := by
      rw [ledger_capture coherent holds,Thread.capture,here]
      rfl
    have done : turn.thread.capture = none := by
      rw [Thread.capture,next]
      rfl
    have after : (w.commit t turn).ledger.capture = none := by
      rcases allowed.permit with ⟨unchanged,_⟩ | ⟨free,_⟩ | ⟨_,_,ended⟩
      · have holder : (w.commit t turn).device.captureSlot = some t :=
          unchanged.trans (coherent.permit t holds)
        have mine : (w.commit t turn).threads t = turn.thread := World.threads_setThread_same
        rw [World.ledger,holder,Option.bind_some,mine,done]
      · rw [coherent.permit t holds] at free
        cases free
      · rw [next] at ended
        cases ended
    rw [shape,rows,written,rows_setSlot,after]
    exact .single (.commit _ captured rfl)

end

/-- The worker's answer stores, erases or changes nothing. -/
theorem ledger_answer {r : Request} {rest : List Request} {executed : Executed} {changed : Bool}
    (queue : w.device.queue = r :: rest) (effect : r.op.succeeds executed = true → changed = true) :
    Relation.ReflTransGen Step w.ledger (w.answer r rest executed changed).ledger := by
  have awaits := coherent.waiting r (by rw [queue]; exact List.mem_cons_self)
  have stay : (∀ slot owner, r.op ≠ .enroll slot owner) →
      (w.answer r rest executed changed).ledger.capture = w.ledger.capture := by
    intro others
    have alike : ∀ u, ((w.answer r rest executed changed).threads u).capture = (w.threads u).capture := by
      intro u
      by_cases same : u = r.tid
      · subst same
        rw [Thread.capture_others awaits.1 others]
        have stage : ((w.answer r rest executed changed).threads r.tid).stage = (w.threads r.tid).stage :=
          World.stage_setThread rfl
        exact Thread.capture_others ((congrArg Stage.pending stage).trans awaits.1) others
      · exact congrArg Thread.capture (World.threads_setThread_other same)
    exact congrArg (w.device.captureSlot.bind ·) (funext alike)
  have shape : (w.answer r rest executed changed).ledger =
      ⟨w.ledger.rows,if changed then r.op.apply w.templates else w.templates,
        (w.answer r rest executed changed).ledger.capture⟩ := rfl
  rw [shape]
  cases op : r.op with
  | enroll slot owner =>
    rw [op] at awaits effect
    have before := Thread.capture_enroll awaits.1
    have holder := coherent.permit r.tid (Thread.capture_holds before)
    rw [awaits.2] at before
    have current : w.ledger.capture = some ⟨owner,slot,false⟩ := by
      rw [World.ledger,holder,Option.bind_some,before]
      rfl
    have after : (w.answer r rest executed changed).ledger.capture =
        some ⟨owner,slot,(enrollReply executed).isOk⟩ := by
      have mine : (w.answer r rest executed changed).threads r.tid = { w.threads r.tid with reply := some executed } :=
        World.threads_setThread_same
      have kept : (w.answer r rest executed changed).device.captureSlot = some r.tid := holder
      rw [World.ledger,kept,Option.bind_some,mine]
      exact Thread.capture_enroll awaits.1
    rw [after]
    cases changed with
    | true => exact .single (.store ⟨owner,slot,false⟩ (enrollReply executed).isOk current)
    | false =>
      have failed : (enrollReply executed).isOk = false :=
        Bool.eq_false_iff.mpr fun succeeded => by cases effect succeeded
      rw [failed,← current]
      exact .refl
  | verify =>
    rw [stay (fun _ _ impossible => by rw [op] at impossible; cases impossible)]
    cases changed <;> exact .refl
  | delete slot owner =>
    rw [stay (fun _ _ impossible => by rw [op] at impossible; cases impossible)]
    cases changed with
    | true => exact .single (.erase slot)
    | false => exact .refl

/-- Every step of the device is a few of the ledger's, or none. -/
theorem ledger_step {v : World} {a : Action} (moved : w.step a = some v) :
    Relation.ReflTransGen Step w.ledger v.ledger := by
  have calm : ∀ {u : World}, u.device.captureSlot = w.device.captureSlot → u.device.storage = w.device.storage →
      u.templates = w.templates → (∀ t, (u.threads t).capture = (w.threads t).capture) →
      Relation.ReflTransGen Step w.ledger u.ledger := by
    intro u permit registry flash captures
    have same : u.ledger = w.ledger := by
      simp only [World.ledger,permit,registry,flash,captures]
    rw [same]
  cases World.step_moves moved with
  | call t sender method fresh =>
    refine calm rfl rfl rfl fun u => ?_
    by_cases same : u = t
    · subst u
      simp [World.spawn,Thread.capture,fresh]
    · exact congrArg Thread.capture (World.threads_setThread_other same)
  | step t choice turn taken => exact ledger_commit coherent (Stage.turn_allowed (coherent.kinded t) taken)
  | leave name present => exact calm rfl rfl rfl fun _ => rfl
  | disconnect name rest signals => exact calm rfl rfl rfl fun _ => rfl
  | progress r rest msg queue forwarded =>
    refine calm rfl rfl rfl fun u => ?_
    by_cases same : u = r.tid
    · subst same
      simp [World.hear,Thread.capture]
    · exact congrArg Thread.capture (World.threads_setThread_other same)
  | serve r rest executed changed queue effect => exact ledger_answer coherent queue effect

end

theorem ledger_reachable {w v : World} (coherent : Coherent w) (reached : Transition.Reachable World.step w v) :
    Relation.ReflTransGen Step w.ledger v.ledger := by
  refine (Transition.invariant (fun u => Coherent u ∧ Relation.ReflTransGen Step w.ledger u.ledger)
    (fun u a u' good moved => ?_) w v ⟨coherent,.refl⟩ reached).2
  exact ⟨good.1.step moved,good.2.trans (ledger_step good.1 moved)⟩

def Storage.Distinct (storage : Storage) : Prop :=
  ∀ user finger user' finger' slot, storage.getSlot user finger = some slot →
    storage.getSlot user' finger' = some slot → (user,finger) = (user',finger')

/-- Every row's slot holds a template captured for it. -/
def Storage.Captured (storage : Storage) (templates : UInt8 → Option Owner) : Prop :=
  ∀ user finger slot, storage.getSlot user finger = some slot → templates slot = some (user,finger)

theorem owned_boot {threshold : UInt16} {storage : Storage} {templates : UInt8 → Option Owner}
    (distinct : storage.Distinct) (captured : storage.Captured templates) :
    Owned (World.boot threshold storage templates).ledger where
  distinct k k' slot row row' := distinct k.1 k.2 k'.1 k'.2 slot row row'
  labelled k slot row := .inr (captured k.1 k.2 slot row)
  reserved _ impossible := by cases impossible
  kept _ impossible := by cases impossible

theorem owned_reachable {threshold : UInt16} {storage : Storage} {templates : UInt8 → Option Owner}
    (distinct : storage.Distinct) (captured : storage.Captured templates) {w : World}
    (reached : Transition.Reachable World.step (.boot threshold storage templates) w) : Owned w.ledger :=
  (owned_boot distinct captured).steps (ledger_reachable (.boot threshold storage templates) reached)

/-- In every interleaving no two rows share a slot, and the slot of a row is empty or holds a
template captured for that row. -/
theorem slot_ownership (threshold : UInt16) (storage : Storage) (templates : UInt8 → Option Owner)
    (distinct : storage.Distinct) (captured : storage.Captured templates) (w : World)
    (reached : Transition.Reachable World.step (.boot threshold storage templates) w) :
    w.device.storage.Distinct ∧ ∀ user finger slot, w.device.storage.getSlot user finger = some slot →
      w.templates slot = none ∨ w.templates slot = some (user,finger) := by
  have owned := owned_reachable distinct captured reached
  exact ⟨fun user finger user' finger' slot row row' =>
    owned.distinct (user,finger) (user',finger') slot row row',fun user finger slot row =>
    owned.labelled (user,finger) slot row⟩

section
variable {storage : Storage} {templates : UInt8 → Option Owner} {u f : Bytes} {s : UInt8}
  (free : ∀ user finger, storage.getSlot user finger ≠ some s)
include free

theorem setSlot_row {user finger : Bytes} {slot : UInt8} (row : (storage.setSlot u f s).getSlot user finger = some slot) :
    (user,finger) = (u,f) ∧ slot = s ∨ storage.getSlot user finger = some slot ∧ slot ≠ s := by
  by_cases same : (user,finger) = (u,f)
  · obtain ⟨rfl,rfl⟩ := Prod.mk.inj same
    rw [Storage.getSlot_setSlot_same] at row
    exact .inl ⟨rfl,(Option.some.inj row).symm⟩
  · rw [Storage.getSlot_setSlot_other _ _ _ _ _ _ same] at row
    exact .inr ⟨row,fun taken => free user finger (taken ▸ row)⟩

theorem Storage.Distinct.setSlot (distinct : storage.Distinct) : (storage.setSlot u f s).Distinct := by
  intro user finger user' finger' slot row row'
  rcases setSlot_row free row with ⟨key,rfl⟩ | ⟨old,other⟩ <;> rcases setSlot_row free row' with ⟨key',same⟩ | ⟨old',other'⟩
  · exact key.trans key'.symm
  · exact absurd rfl other'
  · exact absurd same other
  · exact distinct user finger user' finger' slot old old'

theorem Storage.Captured.setSlot (captured : storage.Captured templates) (stored : templates s = some (u,f)) :
    (storage.setSlot u f s).Captured templates := by
  intro user finger slot row
  rcases setSlot_row free row with ⟨key,rfl⟩ | ⟨old,_⟩
  · rw [stored,key]
  · exact captured user finger slot old

end

section
variable {capacity : UInt16} {u f : Bytes} {s : UInt8}

theorem noRow_free (user finger : Bytes) : (⟨capacity,∅⟩ : Storage).getSlot user finger ≠ some s := nofun

theorem singleRow_distinct : ((⟨capacity,∅⟩ : Storage).setSlot u f s).Distinct :=
  Storage.Distinct.setSlot noRow_free fun _ _ _ _ _ row _ => absurd row (noRow_free _ _)

theorem singleRow_captured {templates : UInt8 → Option Owner} (stored : templates s = some (u,f)) :
    ((⟨capacity,∅⟩ : Storage).setSlot u f s).Captured templates :=
  Storage.Captured.setSlot noRow_free (fun _ _ _ row => absurd row (noRow_free _ _)) stored

end

def oneTemplate : UInt8 → Option Owner := Function.update (fun _ => none) 3 (some (ascii "mat",ascii "right-thumb"))

def twoRows : Storage := Storage.oneRow.setSlot (ascii "eve") (ascii "left-thumb") 0

def twoTemplates : UInt8 → Option Owner := Function.update oneTemplate 0 (some (ascii "eve",ascii "left-thumb"))

/-- A user enrolls a finger and then deletes the one enrolled before. -/
def turnoverRun : List Action :=
  [.call 0 (ascii ":1.7") (.claim []),.step 0 (.authorized (.ok (1000,some (ascii "mat"))) (.ok false)),.step 0 .go,
    .call 1 (ascii ":1.7") (.enrollStart (ascii "left-index-finger")),.step 1 .go,.step 1 .go,.step 1 .go,.step 1 .go,
    .step 1 .go,.step 1 .go,.step 1 .go,.serve (.ok (ascii "OK enrolled=1")) true,.step 1 .go,.step 1 .closed,
    .step 1 .go,.step 1 .go,.step 1 (.saved none),.step 1 .go,
    .call 2 (ascii ":1.7") (.deleteEnrolledFinger (ascii "right-thumb")),.step 2 .go,.step 2 .go,.step 2 .go,.step 2 .go,
    .serve (.ok (ascii "OK deleted=3")) true,.step 2 .go,.step 2 .go,.step 2 (.saved none),.step 2 .go]

theorem slot_ownership_claimed : ∃ w, run World.step (.boot 50 twoRows twoTemplates) turnoverRun = some w ∧
    w.device.storage.getSlot (ascii "mat") (ascii "left-index-finger") = some 1 ∧
    w.device.storage.getSlot (ascii "mat") (ascii "right-thumb") = none ∧
    w.device.storage.Distinct ∧ ∀ user finger slot, w.device.storage.getSlot user finger = some slot →
      w.templates slot = none ∨ w.templates slot = some (user,finger) := by
  have result : (run World.step (.boot 50 twoRows twoTemplates) turnoverRun).map (fun w =>
      (w.device.storage.getSlot (ascii "mat") (ascii "left-index-finger"),
        w.device.storage.getSlot (ascii "mat") (ascii "right-thumb"))) = some (some 1,none) := by decide +kernel
  obtain ⟨w,ran,rows⟩ := Option.map_eq_some_iff.mp result
  obtain ⟨enrolled,deleted⟩ := Prod.mk.inj rows
  have free : ∀ user finger, Storage.oneRow.getSlot user finger ≠ some 0 := fun user finger row =>
    absurd (setSlot_row noRow_free row) (by rintro (⟨_,never⟩ | ⟨never,_⟩) <;> cases never)
  exact ⟨w,ran,enrolled,deleted,slot_ownership 50 twoRows twoTemplates (singleRow_distinct.setSlot free)
    ((singleRow_captured rfl).setSlot free rfl) w ⟨turnoverRun,ran⟩⟩

end R503.Fprint
