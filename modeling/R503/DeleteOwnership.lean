import R503.SensorQueue
import R503.SlotOwnership

/-! Whose templates a delete erases: its slot is read from the registry before the sensor is
asked, and the row must still be there when the sensor executes the request. -/
namespace R503.Fprint

open Text Transition SlotLedger

def World.row (w : World) (owner : Owner) : Option UInt8 := w.device.storage.getSlot owner.1 owner.2

/-- A delete of one finger passes the gate only while the registry has the slot it looked up. -/
def FreshAtGate (w : World) (a : Action) : Prop :=
  ∀ t choice target, a = .step t choice → (w.threads t).stage.gating = some target → w.device.state.action = none →
    w.row target.1 = some target.2

theorem freshAtGate_step {w : World} {t : Tid} {choice : Choice} :
    (∀ target ∈ (w.threads t).stage.gating,w.device.state.action.isNone = true → w.row target.1 = some target.2) ↔
      FreshAtGate w (.step t choice) := by
  constructor
  · intro fresh u _ target same here free
    obtain ⟨rfl,rfl⟩ := Action.step.inj same
    exact fresh target here (Option.isNone_iff_eq_none.mpr free)
  · exact fun fresh target here free => fresh t choice target rfl here (Option.isNone_iff_eq_none.mp free)

instance (w : World) : (a : Action) → Decidable (FreshAtGate w a)
  | .step _ _ => decidable_of_iff _ freshAtGate_step
  | .call _ _ _ | .leave _ | .disconnect | .progress _ | .serve _ _ => isTrue nofun

/-- The row that an enroll is about to write is missing, or has the slot it captures into. -/
structure Agreed (w : World) : Prop where
  agrees : ∀ t c, (w.threads t).capture = some c → w.row c.key = none ∨ w.row c.key = some c.slot
  missing : ∀ t owner, (w.threads t).stage.missing = some owner → w.row owner = none

/-- The rows of the slots that are still to be erased are in the registry. -/
def Targeted (w : World) : Prop := ∀ t target, target ∈ (w.threads t).stage.targets → w.row target.1 = some target.2

namespace Stage

variable {stage : Stage}

theorem holds_of_missing {owner : Owner} (found : stage.missing = some owner) : stage.holds = true := by
  unfold missing at found
  split at found
  · rfl
  · cases found

theorem deletes_of_targets {target : Owner × UInt8} (kinded : stage.Kinded) (member : target ∈ stage.targets) :
    ∃ token, stage.token = some token ∧ token.kind = .delete := by
  cases stage with
  | delete stage =>
    obtain ⟨token,owns⟩ : ∃ token, stage.token = some token := by
      cases stage <;> first | exact ⟨_,rfl⟩ | cases member
    exact ⟨token,owns,kinded token owns⟩
  | _ => cases member

theorem deletes_of_writing {owner : Owner} (kinded : stage.Kinded) (writes : stage.writing = some owner)
    (free : stage.holds = false) : ∃ token, stage.token = some token ∧ token.kind = .delete := by
  cases stage with
  | enroll stage =>
    cases stage
    case store => cases free
    all_goals cases writes
  | delete stage =>
    obtain ⟨token,owns⟩ : ∃ token, stage.token = some token := by
      cases stage <;> first | exact ⟨_,rfl⟩ | cases writes
    exact ⟨token,owns,kinded token owns⟩
  | _ => cases writes

/-- The request that a delete waits for is for a slot it has yet to see erased. -/
theorem targets_of_pending {slot : UInt8} {owner : Owner} (pending : stage.pending = some (.delete slot owner)) :
    (owner,slot) ∈ stage.targets := by
  cases stage with
  | enroll stage => cases stage <;> cases pending
  | verify stage => cases stage <;> cases pending
  | delete stage =>
    cases stage <;> cases pending <;> exact List.mem_cons_self
  | _ => cases pending

end Stage

/-- The answer to a request changes neither owner nor slot of a capture. -/
theorem Thread.capture_reply {thread : Thread} {reply : Option Executed} {c : Capture Owner UInt8}
    (captures : ({ thread with reply } : Thread).capture = some c) :
    ∃ c', thread.capture = some c' ∧ c'.key = c.key ∧ c'.slot = c.slot := by
  unfold Thread.capture at captures ⊢
  split at captures
  next stage here =>
    simp only at here
    rw [here]
    cases stage <;> cases captures <;> exact ⟨_,rfl,rfl,rfl⟩
  next => cases captures

/-- What a step does to one row. -/
theorem RegistryStep.row {before after : Storage} {thread thread' : Thread}
    (moved : RegistryStep before after thread thread') (owner : Owner) :
    after.getSlot owner.1 owner.2 = before.getSlot owner.1 owner.2 ∨
      after.getSlot owner.1 owner.2 = none ∧ thread.stage.writing = some owner ∧ thread.stage.holds = false ∨
      ∃ job : EnrollJob, thread.stage = .enroll (.store job) ∧ job.owner = owner ∧
        after.getSlot owner.1 owner.2 = some job.slot := by
  rcases moved with ⟨unchanged,_,_⟩ | ⟨_,unchanged,_,_⟩ | ⟨user,finger,writes,free,_,_,_,removed⟩ |
    ⟨job,here,_,written⟩
  · exact .inl (by rw [unchanged])
  · exact .inl (by rw [unchanged])
  · rw [removed]
    by_cases same : owner = (user,finger)
    · subst owner
      exact .inr (.inl ⟨Storage.getSlot_removeFinger_same _ _ _,writes,free⟩)
    · exact .inl (Storage.getSlot_removeFinger_other _ _ _ _ _ same)
  · rw [written]
    by_cases same : owner = job.owner
    · subst owner
      exact .inr (.inr ⟨job,here,rfl,Storage.getSlot_setSlot_same _ _ _ _⟩)
    · exact .inl (Storage.getSlot_setSlot_other _ _ _ _ _ _ same)

section
variable {w : World} (coherent : Coherent w) (agreed : Agreed w) {t : Tid} {choice : Choice} {turn : Turn}
  (allowed : turn.Allowed t w.device (w.threads t) choice)
include coherent agreed allowed

theorem Agreed.commit : Agreed (w.commit t turn) := by
  have here : (w.commit t turn).threads t = turn.thread := World.threads_setThread_same
  have there : ∀ u, u ≠ t → (w.commit t turn).threads u = w.threads u := fun u => World.threads_setThread_other
  have row : ∀ owner, (w.commit t turn).row owner = turn.device.storage.getSlot owner.1 owner.2 := fun _ => rfl
  -- only the thread with the permit stores
  have alone : ∀ u job, (w.threads u).stage.holds = true → (w.threads t).stage = .enroll (.store job) → u = t := by
    intro u job held stores
    exact coherent.exclusive held (by rw [stores]; rfl)
  constructor
  · intro u c captures
    rw [row]
    by_cases same : u = t
    · subst u
      rw [here] at captures
      rcases allowed.registry with ⟨unchanged,kept,_⟩ | ⟨job,unchanged,chosen,free⟩ | ⟨_,_,_,free,kept,_,_,_⟩ |
        ⟨_,_,next,_⟩
      · rw [unchanged]
        rcases kept with kept | none
        · exact agreed.agrees t c (kept.symm.trans captures)
        · rw [none] at captures
          cases captures
      · obtain rfl := Option.some.inj (chosen.symm.trans captures)
        rw [unchanged]
        rcases free with own | ⟨missing,_⟩
        · exact .inr own
        · exact .inl (agreed.missing t job.owner missing)
      · have held := Thread.capture_holds (kept.symm.trans captures)
        rw [free] at held
        cases held
      · rw [Thread.capture,next] at captures
        cases captures
    · rw [there u same] at captures
      rcases allowed.registry.row c.key with unchanged | ⟨none,_,_⟩ | ⟨job,stores,_,_⟩
      · rw [unchanged]
        exact agreed.agrees u c captures
      · exact .inl none
      · exact absurd (alone u job (Thread.capture_holds captures) stores) same
  · intro u owner found
    rw [row]
    by_cases same : u = t
    · subst u
      rw [here] at found
      rcases allowed.registry with ⟨unchanged,_,missing⟩ | ⟨_,_,chosen,_⟩ | ⟨_,_,_,_,_,_,none,_⟩ | ⟨_,_,next,_⟩
      · rw [unchanged]
        exact missing owner found
      · unfold Stage.missing at found
        split at found
        next at_ =>
          rw [Thread.capture,at_] at chosen
          cases chosen
        next => cases found
      · rw [none] at found
        cases found
      · rw [next] at found
        cases found
    · rw [there u same] at found
      rcases allowed.registry.row owner with unchanged | ⟨none,_,_⟩ | ⟨job,stores,_,_⟩
      · rw [unchanged]
        exact agreed.missing u owner found
      · exact none
      · exact absurd (alone u job (Stage.holds_of_missing found) stores) same

theorem Targeted.commit (gated : Gated w) (targeted : Targeted w) (fresh : FreshAtGate w (.step t choice)) :
    Targeted (w.commit t turn) := by
  have here : (w.commit t turn).threads t = turn.thread := World.threads_setThread_same
  have there : ∀ u, u ≠ t → (w.commit t turn).threads u = w.threads u := fun u => World.threads_setThread_other
  intro u target member
  change turn.device.storage.getSlot target.1.1 target.1.2 = some target.2
  by_cases same : u = t
  · subst u
    rw [here] at member
    have before : w.row target.1 = some target.2 := by
      rcases allowed.targets target member with kept | row | ⟨at_,free⟩
      · exact targeted t target kept
      · exact row
      · exact fresh t choice target rfl at_ free
    rcases allowed.registry with ⟨unchanged,_,_⟩ | ⟨_,unchanged,_,_⟩ | ⟨_,_,_,_,_,none,_,_⟩ | ⟨_,_,next,_⟩
    · rw [unchanged]
      exact before
    · rw [unchanged]
      exact before
    · rw [none] at member
      cases member
    · rw [next] at member
      cases member
  · rw [there u same] at member
    have before := targeted u target member
    rcases allowed.registry.row target.1 with unchanged | ⟨_,writes,free⟩ | ⟨job,stores,owner,stored⟩
    · exact unchanged.trans before
    -- the thread that removes rows is the only one that deletes
    · obtain ⟨_,deletes⟩ := Stage.deletes_of_writing (coherent.kinded t) writes free
      obtain ⟨_,deletes'⟩ := Stage.deletes_of_targets (coherent.kinded u) member
      exact absurd (gated.unique deletes' deletes) same
    · have captures : (w.threads t).capture = some ⟨job.owner,job.slot,true⟩ := by
        rw [Thread.capture,stores]
        rfl
      rw [stored]
      rcases agreed.agrees t _ captures with none | own
      · rw [owner,before] at none
        cases none
      · rw [owner,before] at own
        exact own.symm

end

structure Untouched (w v : World) : Prop where
  registry : v.device.storage = w.device.storage
  stages : ∀ t, (v.threads t).stage = (w.threads t).stage ∨ ∃ method, (v.threads t).stage = .entry method
  captures : ∀ t c, (v.threads t).capture = some c →
    ∃ c', (w.threads t).capture = some c' ∧ c'.key = c.key ∧ c'.slot = c.slot

theorem Untouched.mailbox {w : World} {t : Tid} {inbox : List Bytes} {reply : Option Executed} {v : World}
    (registry : v.device.storage = w.device.storage)
    (threads : v.threads = (w.setThread t { w.threads t with inbox, reply }).threads) : Untouched w v := by
  refine ⟨registry,fun u => .inl ?_,fun u c captures => ?_⟩
  · rw [threads]
    exact World.stage_setThread rfl
  · rw [threads] at captures
    by_cases same : u = t
    · subst u
      rw [World.threads_setThread_same] at captures
      exact Thread.capture_reply captures
    · rw [World.threads_setThread_other same] at captures
      exact ⟨c,captures,rfl,rfl⟩

theorem commit_or_untouched {w v : World} {a : Action} (moved : w.step a = some v) :
    (∃ t choice turn, a = .step t choice ∧ (w.threads t).stage.turn t w.device (w.threads t) choice = some turn ∧
      v = w.commit t turn) ∨ Untouched w v := by
  cases World.step_moves moved with
  | call t sender method fresh =>
    refine .inr ⟨rfl,fun u => ?_,fun u c captures => ?_⟩
    · by_cases same : u = t
      · subst u
        exact .inr ⟨method,by rw [World.spawn,World.threads_setThread_same]⟩
      · exact .inl (congrArg Thread.stage (World.threads_setThread_other same))
    · by_cases same : u = t
      · subst u
        rw [World.spawn,World.threads_setThread_same] at captures
        cases captures
      · rw [World.spawn,World.threads_setThread_other same] at captures
        exact ⟨c,captures,rfl,rfl⟩
  | step t choice turn taken => exact .inl ⟨t,choice,turn,rfl,taken,rfl⟩
  | leave name present => exact .inr ⟨rfl,fun _ => .inl rfl,fun _ c captures => ⟨c,captures,rfl,rfl⟩⟩
  | disconnect name rest signals => exact .inr ⟨rfl,fun _ => .inl rfl,fun _ c captures => ⟨c,captures,rfl,rfl⟩⟩
  | progress r rest msg queue forwarded => exact .inr (.mailbox rfl rfl)
  | serve r rest executed changed queue effect => exact .inr (.mailbox (t := r.tid) rfl rfl)

/-- No delete under way loses its token and no delete passes the gate with a stale slot. -/
def DeletesKept (w : World) (a : Action) : Prop := SparesDeletes w a ∧ FreshAtGate w a

instance (w : World) (a : Action) : Decidable (DeletesKept w a) := inferInstanceAs (Decidable (_ ∧ _))

section
variable {w v : World} {a : Action} (coherent : Coherent w) (agreed : Agreed w) (moved : w.step a = some v)
include coherent agreed moved

theorem Agreed.step : Agreed v := by
  rcases commit_or_untouched moved with ⟨t,choice,turn,rfl,taken,rfl⟩ | untouched
  · exact agreed.commit coherent (Stage.turn_allowed (coherent.kinded t) taken)
  have row : ∀ owner, v.row owner = w.row owner := fun owner =>
    congrArg (Storage.getSlot · owner.1 owner.2) untouched.registry
  constructor
  · intro t c captures
    obtain ⟨c',before,key,slot⟩ := untouched.captures t c captures
    rw [row,← key,← slot]
    exact agreed.agrees t c' before
  · intro t owner found
    rw [row]
    rcases untouched.stages t with same | ⟨method,entry⟩
    · exact agreed.missing t owner (same ▸ found)
    · rw [entry] at found
      cases found

theorem Targeted.step (gated : Gated w) (targeted : Targeted w) (fresh : FreshAtGate w a) : Targeted v := by
  rcases commit_or_untouched moved with ⟨t,choice,turn,rfl,taken,rfl⟩ | untouched
  · exact Targeted.commit coherent agreed (Stage.turn_allowed (coherent.kinded t) taken) gated targeted fresh
  intro t target member
  have row : v.row target.1 = w.row target.1 := congrArg (Storage.getSlot · target.1.1 target.1.2) untouched.registry
  rw [row]
  rcases untouched.stages t with same | ⟨method,entry⟩
  · exact targeted t target (same ▸ member)
  · rw [entry] at member
    cases member

end

theorem targeted_run {threshold : UInt16} {storage : Storage} {templates : UInt8 → Option Owner}
    {actions : List Action} {w : World} (ran : run World.step (.boot threshold storage templates) actions = some w)
    (kept : Along World.step (fun w a _ => DeletesKept w a) (.boot threshold storage templates) actions) :
    Targeted w := by
  refine (along_invariant (fun w => Coherent w ∧ Agreed w ∧ Gated w ∧ Targeted w) (fun w a _ => DeletesKept w a)
    (fun u a v good kept moved => ?_) _ w actions ?_ kept ran).2.2.2
  · obtain ⟨coherent,agreed,gated,targeted⟩ := good
    exact ⟨coherent.step moved,agreed.step coherent moved,gated.step coherent kept.1 moved,
      Targeted.step coherent agreed moved gated targeted kept.2⟩
  · exact ⟨.boot threshold storage templates,⟨(fun _ _ captures => by cases captures),(fun _ _ found => by cases found)⟩,
      gated_boot threshold storage templates,fun _ _ member => by cases member⟩

/-- A delete that the sensor executes erases nothing or its own template while the registry still
has its row, which it has in every run that keeps its deletes. -/
theorem deletes_own (threshold : UInt16) (storage : Storage) (templates : UInt8 → Option Owner)
    (distinct : storage.Distinct) (captured : storage.Captured templates) (actions : List Action) (w : World)
    (ran : run World.step (.boot threshold storage templates) actions = some w) (r : Request) (rest : List Request)
    (slot : UInt8) (owner : Owner) (queue : w.device.queue = r :: rest) (delete : r.op = .delete slot owner) :
    (w.row owner = some slot → w.templates slot = none ∨ w.templates slot = some owner) ∧
      (Along World.step (fun w a _ => DeletesKept w a) (.boot threshold storage templates) actions →
        w.row owner = some slot) := by
  have coherent := (Coherent.boot threshold storage templates).reachable ⟨actions,ran⟩
  refine ⟨(owned_reachable distinct captured ⟨actions,ran⟩).labelled owner slot,fun kept => ?_⟩
  have awaits := coherent.waiting r (by rw [queue]; exact List.mem_cons_self)
  rw [delete] at awaits
  exact targeted_run ran kept r.tid _ (Stage.targets_of_pending awaits.1)

/-- A delete of one finger by the claimer, up to its gate. -/
def lookupCall (t : Tid) : List Action :=
  [.call t (ascii ":1.7") (.deleteEnrolledFinger (ascii "right-thumb")),.step t .go,.step t .go]

/-- The claimer's delete reaches the sensor; another client tries to release the device and leaves. -/
def singleDeleteRun : List Action :=
  claimCall 0 ++ lookupCall 1 ++ [.step 1 .go,.step 1 .go] ++
    [.call 2 (ascii ":1.8") .release,.step 2 .go,.leave (ascii ":1.8"),.disconnect]

theorem deletes_own_alone : ∃ w, run World.step (.boot 50 .oneRow oneTemplate) singleDeleteRun = some w ∧
    w.device.queue = [⟨1,.delete 3 (ascii "mat",ascii "right-thumb")⟩] ∧
    w.row (ascii "mat",ascii "right-thumb") = some 3 ∧
    (w.templates 3 = none ∨ w.templates 3 = some (ascii "mat",ascii "right-thumb")) := by
  have result : (run World.step (.boot 50 .oneRow oneTemplate) singleDeleteRun).map (fun w => w.device.queue) =
      some [⟨1,.delete 3 (ascii "mat",ascii "right-thumb")⟩] := by decide +kernel
  obtain ⟨w,ran,queue⟩ := Option.map_eq_some_iff.mp result
  obtain ⟨erases,row⟩ := deletes_own 50 .oneRow oneTemplate singleRow_distinct (singleRow_captured rfl) singleDeleteRun w
    ran _ _ 3 _ queue rfl
  have there := row (by decide +kernel)
  exact ⟨w,ran,queue,there,erases there⟩

def firstRow : Storage := (⟨200,∅⟩ : Storage).setSlot (ascii "mat") (ascii "right-thumb") 0

def firstTemplate : UInt8 → Option Owner := Function.update (fun _ => none) 0 (some (ascii "mat",ascii "right-thumb"))

/-- Of two deletes that looked up one slot the first completes; then another user enrolls into the
slot, and the second delete goes on. -/
def staleRun : List Action :=
  claimCall 0 ++ lookupCall 1 ++ lookupCall 2 ++
  [.step 2 .go,.step 2 .go,.serve (.ok (ascii "OK deleted=0")) true,.step 2 .go,.step 2 .go,.step 2 (.saved none),.step 2 .go,
    .call 3 (ascii ":1.7") .release,.step 3 .go,
    .call 4 (ascii ":1.8") (.claim []),.step 4 (.authorized (.ok (1001,some (ascii "eve"))) (.ok false)),.step 4 .go,
    .call 5 (ascii ":1.8") (.enrollStart (ascii "left-thumb")),.step 5 .go,.step 5 .go,.step 5 .go,.step 5 .go,.step 5 .go,
    .step 5 .go,.step 5 .go,.serve (.ok (ascii "OK enrolled=0")) true,.step 5 .go,.step 5 .closed,.step 5 .go,.step 5 .go,
    .step 5 (.saved none),.step 5 .go,.step 1 .go,.step 1 .go]

theorem stale_delete : firstRow.Distinct ∧ firstRow.Captured firstTemplate ∧
    ∃ w, run World.step (.boot 50 firstRow firstTemplate) staleRun = some w ∧
      w.device.queue = [⟨1,.delete 0 (ascii "mat",ascii "right-thumb")⟩] ∧
      ¬ (w.templates 0 = none ∨ w.templates 0 = some (ascii "mat",ascii "right-thumb")) := by
  refine ⟨singleRow_distinct,singleRow_captured rfl,?_⟩
  have result : (run World.step (.boot 50 firstRow firstTemplate) staleRun).map
      (fun w => (w.device.queue,w.templates 0)) =
        some ([⟨1,.delete 0 (ascii "mat",ascii "right-thumb")⟩],some (ascii "eve",ascii "left-thumb")) := by
    decide +kernel
  obtain ⟨w,ran,same⟩ := Option.map_eq_some_iff.mp result
  obtain ⟨queue,template⟩ := Prod.mk.inj same
  refine ⟨w,ran,queue,?_⟩
  rw [template]
  decide

end R503.Fprint
