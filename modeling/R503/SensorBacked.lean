import R503.DeleteOwnership
import R503.ThreadHistory

/-! The registry follows the sensor: a row is written only for a template that the sensor has
confirmed to have stored for it, and removed only after the sensor has confirmed a deletion made
for it, whatever the other handlers and tasks did in between. -/
namespace R503.Fprint

open Text Transition SlotLedger

def Confirms (t : Tid) (op : SensorOp) (_before : List Action) (w : World) (a : Action) : Prop :=
  ∃ executed rest, op.succeeds executed = true ∧ w.device.queue = ⟨t,op⟩ :: rest ∧ a = .serve executed true

def Confirmed (start : World) (actions : List Action) (t : Tid) (op : SensorOp) : Prop :=
  Took World.step start (Confirms t op) actions

/-- The rows that a delete has still to remove, the sensor being done with them. -/
def Stage.erased : Stage → List Owner
  | .delete (.sweep locals) | .delete (.await locals _ _) | .delete (.remove locals) | .delete (.save locals _) =>
    locals.succeeded.map (locals.user,·)
  | .delete (.removeOne user finger _) => [(user,finger)]
  | _ => []

/-- A row that the next step removes is one that the sensor is done with. -/
theorem Stage.erased_of_writing {stage : Stage} {owner : Owner} (writes : stage.writing = some owner)
    (free : stage.holds = false) : owner ∈ stage.erased := by
  unfold writing at writes
  split at writes
  · cases free
  next locals =>
    obtain ⟨finger,first,rfl⟩ := Option.map_eq_some_iff.mp writes
    exact List.mem_map_of_mem (List.mem_of_mem_head? first)
  · obtain rfl := Option.some.inj writes
    exact List.mem_singleton.mpr rfl
  · cases writes

/-- What a thread takes for done was confirmed to it. -/
structure Thread.Backed (confirmed : SensorOp → Prop) (thread : Thread) : Prop where
  stored : ∀ c, thread.capture = some c → c.stored = true → confirmed (.enroll c.slot c.key)
  erased : ∀ owner ∈ thread.stage.erased, ∃ slot, confirmed (.delete slot owner)
  replied : ∀ slot owner executed, thread.stage.pending = some (.delete slot owner) → thread.reply = some executed →
    (deleteReply executed).isOk = true → confirmed (.delete slot owner)

section
variable {confirmed : SensorOp → Prop} {t : Tid} {d : Device} {thread : Thread} {choice : Choice} {turn : Turn}

theorem Thread.Backed.mono {confirmed' : SensorOp → Prop} (backed : thread.Backed confirmed)
    (more : ∀ op, confirmed op → confirmed' op) : thread.Backed confirmed' where
  stored c captures done := more _ (backed.stored c captures done)
  erased owner member := (backed.erased owner member).imp fun _ => more _
  replied slot owner executed pending replied done := more _ (backed.replied slot owner executed pending replied done)

/-- A capture is taken for stored only by the sensor's answer. -/
theorem Thread.Backed.stored_turn (backed : thread.Backed confirmed) (kinded : thread.stage.Kinded)
    (taken : thread.stage.turn t d thread choice = some turn) (c : Capture Owner UInt8)
    (captures : turn.thread.capture = some c) (done : c.stored = true) : confirmed (.enroll c.slot c.key) := by
  rcases (Stage.turn_allowed kinded taken).registry with ⟨_,kept,_⟩ | ⟨job,_,chosen,_⟩ | ⟨_,_,_,_,kept,_,_,_⟩ |
    ⟨_,_,next,_⟩
  · rcases kept with kept | none
    · exact backed.stored c (kept.symm.trans captures) done
    · rw [none] at captures
      cases captures
  · obtain rfl := Option.some.inj (chosen.symm.trans captures)
    cases done
  · exact backed.stored c (kept.symm.trans captures) done
  · rw [Thread.capture,next] at captures
    cases captures

def Stage.Clear (stage : Stage) : Prop :=
  stage.erased = [] ∧ ∀ slot owner, stage.pending ≠ some (.delete slot owner)

theorem Method.turn_clear {method : Method} (taken : method.turn t d thread choice = some turn) :
    turn.thread.stage.Clear := by
  revert taken
  fun_cases Method.turn t d thread choice method
  all_goals
    intro taken
    cases taken
  all_goals exact ⟨rfl,fun _ _ same => by cases same⟩

theorem EnrollStage.turn_clear {stage : EnrollStage} (taken : stage.turn t d thread choice = some turn) :
    turn.thread.stage.Clear := by
  revert taken
  fun_cases EnrollStage.turn t d thread choice stage
  all_goals
    intro taken
    cases taken
  all_goals exact ⟨rfl,fun _ _ same => by cases same⟩

theorem VerifyStage.turn_clear {stage : VerifyStage} (taken : stage.turn t d thread choice = some turn) :
    turn.thread.stage.Clear := by
  revert taken
  fun_cases VerifyStage.turn t d thread choice stage
  all_goals
    intro taken
    cases taken
  all_goals exact ⟨rfl,fun _ _ same => by cases same⟩

theorem Stage.Clear.backed (clear : turn.thread.stage.Clear) :
    (∀ owner ∈ turn.thread.stage.erased, ∃ slot, confirmed (.delete slot owner)) ∧
      ∀ slot owner executed, turn.thread.stage.pending = some (.delete slot owner) →
        turn.thread.reply = some executed → (deleteReply executed).isOk = true → confirmed (.delete slot owner) :=
  ⟨fun _ member => (List.not_mem_nil (clear.1 ▸ member)).elim,
    fun slot owner _ pending => absurd pending (clear.2 slot owner)⟩

theorem DeleteStage.turn_backed {stage : DeleteStage} (here : thread.stage = .delete stage)
    (backed : thread.Backed confirmed) (taken : stage.turn t d thread choice = some turn) :
    (∀ owner ∈ turn.thread.stage.erased, ∃ slot, confirmed (.delete slot owner)) ∧
      ∀ slot owner executed, turn.thread.stage.pending = some (.delete slot owner) →
        turn.thread.reply = some executed → (deleteReply executed).isOk = true → confirmed (.delete slot owner) := by
  have erased := backed.erased
  have replied := backed.replied
  rw [here] at erased replied
  revert taken
  fun_cases DeleteStage.turn t d thread choice stage
  all_goals
    intro taken
    cases taken
  -- most steps erase nothing and wait for nothing
  all_goals first
  | exact Stage.Clear.backed ⟨rfl,fun _ _ => (Option.some_ne_none _).symm⟩
  | exact ⟨erased,fun _ _ _ pending => absurd pending.symm (Option.some_ne_none _)⟩
  | exact ⟨erased,fun _ _ _ _ answered => absurd answered.symm (Option.some_ne_none _)⟩
  | skip
  next finger slot executed answered _ succeeded =>
    refine ⟨fun owner member => ?_,fun _ _ _ pending => by cases pending⟩
    simp only [Turn.goto,Stage.erased,List.map_append,List.mem_append] at member
    rcases member with before | now
    · exact erased owner before
    · obtain rfl := List.mem_singleton.mp now
      exact ⟨slot,replied slot _ executed rfl answered (by rw [succeeded]; rfl)⟩
  next finger rest succeeded =>
    refine ⟨fun owner member => erased owner ?_,fun _ _ _ pending => by cases pending⟩
    simp only [Stage.erased,succeeded,List.map_cons]
    exact List.mem_cons_of_mem _ member
  next user finger slot token executed answered _ succeeded =>
    refine ⟨fun owner member => ?_,fun _ _ _ pending => by cases pending⟩
    obtain rfl := List.mem_singleton.mp member
    exact ⟨slot,replied slot _ executed rfl answered (by rw [succeeded]; rfl)⟩

/-- One step of a thread relies only on what was confirmed. -/
theorem Thread.Backed.next (backed : thread.Backed confirmed) (kinded : thread.stage.Kinded)
    (taken : thread.stage.turn t d thread choice = some turn) : turn.thread.Backed confirmed := by
  have others : (∀ owner ∈ turn.thread.stage.erased, ∃ slot, confirmed (.delete slot owner)) ∧
      ∀ slot owner executed, turn.thread.stage.pending = some (.delete slot owner) →
        turn.thread.reply = some executed → (deleteReply executed).isOk = true → confirmed (.delete slot owner) := by
    cases here : thread.stage with
    | idle | finished =>
      rw [here] at taken
      cases taken
    | entry method =>
      rw [here] at taken
      exact (method.turn_clear taken).backed
    | enroll stage =>
      rw [here] at taken
      exact (stage.turn_clear taken).backed
    | verify stage =>
      rw [here] at taken
      exact (stage.turn_clear taken).backed
    | delete stage =>
      rw [here] at taken
      exact stage.turn_backed here backed taken
    | claim _ | stop _ | endAction _ _ _ =>
      rw [here] at taken
      cases taken
      exact Stage.Clear.backed ⟨rfl,fun _ _ same => by cases same⟩
  exact ⟨backed.stored_turn kinded taken,others.1,others.2⟩

end

theorem Confirmed.later {start : World} {actions : List Action} {t : Tid} {op : SensorOp}
    (confirmed : Confirmed start actions t op) (a : Action) : Confirmed start (actions ++ [a]) t op :=
  Took.later confirmed [a]

/-- The answer that a thread waits for backs what the thread makes of it. -/
theorem Thread.Backed.answer {start w : World} {actions : List Action} {r : Request} {rest : List Request}
    {executed : Executed} {changed : Bool} (ran : run World.step start actions = some w) (coherent : Coherent w)
    (queue : w.device.queue = r :: rest) (effect : r.op.succeeds executed = true → changed = true)
    (backed : (w.threads r.tid).Backed (Confirmed start actions r.tid)) :
    Thread.Backed (Confirmed start (actions ++ [.serve executed changed]) r.tid)
      { w.threads r.tid with reply := some executed } := by
  have awaits := coherent.waiting r (queue ▸ List.mem_cons_self)
  have done : r.op.succeeds executed = true →
      Confirmed start (actions ++ [.serve executed changed]) r.tid r.op := by
    intro succeeded
    obtain rfl := effect succeeded
    exact .now ran ⟨executed,rest,succeeded,queue,rfl⟩
  have later := backed.mono fun _ confirmed => Confirmed.later confirmed (.serve executed changed)
  constructor
  · intro c captures stored
    by_cases enrolls : ∃ slot owner, r.op = .enroll slot owner
    · obtain ⟨slot,owner,op⟩ := enrolls
      rw [op] at awaits done
      have now := @Thread.capture_enroll { w.threads r.tid with reply := some executed } _ _ awaits.1
      obtain rfl := Option.some.inj (captures.symm.trans now)
      exact done stored
    · have none := @Thread.capture_others { w.threads r.tid with reply := some executed } _ awaits.1
        fun slot owner same => enrolls ⟨slot,owner,same⟩
      rw [none] at captures
      cases captures
  · exact later.erased
  · intro slot owner given pending replied succeeded
    obtain rfl := Option.some.inj replied
    have op : r.op = .delete slot owner := Option.some.inj (awaits.1.symm.trans pending)
    rw [op] at done
    exact done succeeded

theorem backed_rule (threshold : UInt16) (storage : Storage) (templates : UInt8 → Option Owner) :
    ThreadRule (.boot threshold storage templates) fun actions t thread _ =>
      thread.Backed (Confirmed (.boot threshold storage templates) actions t) where
  initial _ := ⟨(fun _ captures => by cases captures),(fun _ member => by cases member),
    (fun _ _ _ pending => by cases pending)⟩
  later _ _ _ _ _ _ backed := backed.mono fun _ confirmed => confirmed.later _
  call _ _ _ _ _ _ _ _ := ⟨(fun _ captures => by cases captures),(fun _ member => by cases member),
    (fun _ _ _ pending => by cases pending)⟩
  step _ _ _ _ _ _ coherent taken backed :=
    (backed.next (coherent.kinded _) taken).mono fun _ confirmed => confirmed.later _
  hear _ _ _ _ _ backed := ⟨backed.stored,backed.erased,backed.replied⟩
  answer _ _ _ _ _ _ ran coherent queue effect backed := backed.answer ran coherent queue effect

/-- In every interleaving a row changes only after the sensor has confirmed to the same handler or task
that it erased a template on its behalf, or that it stored one for that row in the row's new slot. -/
theorem registry_follows_sensor (threshold : UInt16) (storage : Storage) (templates : UInt8 → Option Owner)
    (actions : List Action) (w v : World) (a : Action)
    (ran : run World.step (.boot threshold storage templates) actions = some w) (moved : w.step a = some v)
    (user finger : Bytes)
    (changed : v.device.storage.getSlot user finger ≠ w.device.storage.getSlot user finger) :
    ∃ t choice slot, a = .step t choice ∧
      (v.device.storage.getSlot user finger = none ∧
          Confirmed (.boot threshold storage templates) actions t (.delete slot (user,finger)) ∨
        v.device.storage.getSlot user finger = some slot ∧
          Confirmed (.boot threshold storage templates) actions t (.enroll slot (user,finger))) := by
  have coherent := (Coherent.boot threshold storage templates).reachable ⟨actions,ran⟩
  cases World.step_moves moved with
  | step t choice turn taken =>
    have backed := (backed_rule threshold storage templates).holds (.boot threshold storage templates) ran t
    change turn.device.storage.getSlot user finger ≠ _ at changed
    rcases (Stage.turn_allowed (coherent.kinded t) taken).registry.row (user,finger) with same | ⟨gone,writes,free⟩ |
      ⟨job,here,owner,stored⟩
    · exact absurd same changed
    · obtain ⟨slot,done⟩ := backed.erased (user,finger) (Stage.erased_of_writing writes free)
      exact ⟨t,choice,slot,rfl,.inl ⟨gone,done⟩⟩
    · refine ⟨t,choice,job.slot,rfl,.inr ⟨stored,?_⟩⟩
      rw [← owner]
      exact backed.stored ⟨job.owner,job.slot,true⟩ (by rw [Thread.capture,here]; rfl) rfl
  | _ => exact absurd rfl changed

def erasingRun : List Action :=
  claimCall 0 ++ lookupCall 1 ++
    [.step 1 .go,.step 1 .go,.serve (.ok (ascii "OK deleted=3")) true,.step 1 .go]

theorem erasingRun_row : ((run World.step (.boot 50 .oneRow oneTemplate) erasingRun).map fun w =>
    (w.device.storage.getSlot (ascii "mat") (ascii "right-thumb"),(w.step (.step 1 .go)).map fun v =>
      v.device.storage.getSlot (ascii "mat") (ascii "right-thumb"))) = some (some 3,some none) := by decide +kernel

theorem registry_follows_sensor_delete : ∃ t slot,
    Confirmed (.boot 50 .oneRow oneTemplate) erasingRun t (.delete slot (ascii "mat",ascii "right-thumb")) := by
  obtain ⟨w,ran,rows⟩ := Option.map_eq_some_iff.mp erasingRun_row
  obtain ⟨before,next⟩ := Prod.mk.inj rows
  obtain ⟨v,moved,after⟩ := Option.map_eq_some_iff.mp next
  obtain ⟨t,_,slot,_,⟨_,done⟩ | ⟨stored,_⟩⟩ := registry_follows_sensor 50 .oneRow oneTemplate erasingRun w v
    (.step 1 .go) ran moved (ascii "mat") (ascii "right-thumb") fun same => by
      rw [before,after] at same
      cases same
  · exact ⟨t,slot,done⟩
  · rw [after] at stored
    cases stored

end R503.Fprint
