import Mathlib.Algebra.Order.BigOperators.Group.Finset
import R503.DeviceInvariant
import R503.Settling

/-! How much work the device has before it: a count that every step of a handler or task, every
answer of the sensor and every signal of the watcher lowers, and that only calls, PROGRESS lines
and leaving clients raise. -/
namespace R503.Fprint

open Text Transition

/-! ### Rows of the registry -/

namespace Storage

variable {username finger : Bytes}

def rows (storage : Storage) : Nat := storage.used.length

def rowsOf (users : List (Sigma fun _ : Bytes => AList fun _ : Bytes => UInt8)) : Nat :=
  (users.map fun user => user.2.entries.length).sum

theorem rows_eq (storage : Storage) : storage.rows = rowsOf storage.users.entries := by
  simp [rows,used,rowsOf,List.length_flatMap]

/-- The rows of one user and those of the others. -/
theorem rowsOf_kerase (username : Bytes) (users : List (Sigma fun _ : Bytes => AList fun _ : Bytes => UInt8)) :
    rowsOf users = ((users.dlookup username).getD ∅).entries.length + rowsOf (users.kerase username) := by
  induction users with
  | nil => rfl
  | cons user users ih =>
    by_cases same : username = user.1
    · obtain ⟨name,fingers⟩ := user
      subst same
      simp [rowsOf]
    · rw [List.dlookup_cons_ne _ user same,List.kerase_cons_ne same]
      simp only [rowsOf,List.map_cons,List.sum_cons] at ih ⊢
      omega

theorem getUserSlots_length_le (storage : Storage) (username : Bytes) :
    (storage.getUserSlots username).length ≤ storage.rows := by
  rw [rows_eq,rowsOf_kerase username]
  unfold getUserSlots AList.lookup
  cases storage.users.entries.dlookup username <;> simp

theorem rows_setSlot_le (storage : Storage) (username finger : Bytes) (slot : UInt8) :
    (storage.setSlot username finger slot).rows ≤ storage.rows + 1 := by
  rw [rows_eq,rows_eq,rowsOf_kerase username storage.users.entries]
  change rowsOf (⟨username,_⟩ :: storage.users.entries.kerase username) ≤ _
  have erased := List.length_eraseP_le (p := fun row => decide (finger = row.1))
    (l := ((storage.users.entries.dlookup username).getD ∅).entries)
  simp only [rowsOf,List.map_cons,List.sum_cons,AList.entries_insert,List.length_cons,AList.lookup]
  unfold List.kerase at *
  omega

theorem rows_removeFinger_le (storage : Storage) (username finger : Bytes) :
    (storage.removeFinger username finger).rows ≤ storage.rows := by
  unfold removeFinger
  split
  · exact Nat.le_refl _
  next fingers found =>
    rw [rows_eq storage,rowsOf_kerase username storage.users.entries]
    change storage.users.entries.dlookup username = some fingers at found
    have erased : (fingers.erase finger).entries.length ≤ fingers.entries.length := List.length_eraseP_le
    rw [found,Option.getD_some]
    split
    · rw [rows_eq]
      exact Nat.le_add_left _ _
    · rw [rows_eq]
      change (fingers.erase finger).entries.length + rowsOf (storage.users.entries.kerase username) ≤ _
      omega

end Storage

/-! ### Work of a stage -/

/-- Each line still to be received takes up to three steps of its own, which are counted apart. -/
def EnrollStage.work : EnrollStage → Nat
  | .permit _ _ => 13
  | .mint _ _ => 12
  | .lookup _ _ _ => 11
  | .allocate _ _ _ => 10
  | .hints _ => 9
  | .send _ | .progress _ _ => 8
  | .stagePassed _ => 7
  | .await _ | .drainProgress _ _ _ => 6
  | .drain _ _ => 5
  | .finish _ _ => 4
  | .store _ => 3
  | .save | .full _ _ => 2
  | .emit _ => 1

def VerifyStage.work : VerifyStage → Nat
  | .permit _ _ => 36
  | .mint _ _ => 35
  | .selected job => 9 + 5 * (maxRetries - job.retries)
  | .hints job | .retry job => 8 + 5 * (maxRetries - job.retries)
  | .check job => 7 + 5 * (maxRetries - job.retries)
  | .send job => 6 + 5 * (maxRetries - job.retries)
  | .progress job _ => 5 + 5 * (maxRetries - job.retries)
  | .await job => 4 + 5 * (maxRetries - job.retries)
  | .drainProgress _ _ _ => 4
  | .drain _ _ => 3
  | .finish _ _ => 2
  | .emit _ => 1

/-- A delete of all fingers has at most `rows` of them before it. -/
def DeleteStage.work (rows : Nat) : DeleteStage → Nat
  | .lookup _ _ => 8 + 5 * rows
  | .gate _ _ => 7 + 5 * rows
  | .snapshot _ _ => 4 + 5 * rows
  | .sweep locals => 3 + 2 * locals.succeeded.length + 5 * locals.todo.length
  | .await locals _ _ => 6 + 2 * locals.succeeded.length + 5 * locals.todo.length
  | .remove locals => 2 + 2 * locals.succeeded.length
  | .save locals _ => 3 + 2 * locals.succeeded.length
  | .one _ _ _ _ => 6
  | .awaitOne _ _ _ _ => 4
  | .removeOne _ _ _ => 3
  | .saveOne _ _ => 2

def Stage.work (rows : Nat) : Stage → Nat
  | .idle | .finished => 0
  | .entry _ => 40 + 5 * rows
  | .claim _ | .stop _ | .endAction _ _ _ => 1
  | .enroll stage => stage.work
  | .verify stage => stage.work
  | .delete stage => stage.work rows

def Stage.mayStore : Stage → Bool
  | .entry _ => true
  | .enroll .save | .enroll (.emit _) => false
  | .enroll _ => true
  | _ => false

def Thread.work (rows : Nat) (thread : Thread) : Nat := thread.stage.work rows + 3 * thread.inbox.length

theorem Stage.work_mono {rows rows' : Nat} (more : rows ≤ rows') (stage : Stage) :
    stage.work rows ≤ stage.work rows' := by
  cases stage with
  | entry method => simp only [work]; omega
  | delete stage => cases stage <;> simp only [work,DeleteStage.work] <;> omega
  | _ => exact Nat.le_refl _

theorem Thread.work_mono {rows rows' : Nat} (more : rows ≤ rows') (thread : Thread) :
    thread.work rows ≤ thread.work rows' :=
  Nat.add_le_add_right (thread.stage.work_mono more) _

/-! ### Every step is paid for -/

section
variable {t : Tid} {d : Device} {thread : Thread} {choice : Choice} {turn : Turn} {rows : Nat}

theorem EnrollStage.turn_pays {stage : EnrollStage} (here : thread.stage = .enroll stage)
    (taken : stage.turn t d thread choice = some turn) :
    turn.thread.work rows + turn.device.queue.length < thread.work rows + d.queue.length := by
  revert taken
  fun_cases EnrollStage.turn t d thread choice stage
  all_goals
    intro taken
    cases taken
  all_goals
    simp [Thread.work,here,Stage.work,EnrollStage.work,Turn.goto,Turn.ask,Turn.ret,Turn.finish,Device.release,
      Device.request]
  -- the steps under the lock leave the queue alone
  all_goals try change _ + d.queue.length < _
  all_goals try omega
  next lines =>
    rw [Choice.seen_cons lines,List.length_cons]
    omega
  next lines _ =>
    rw [lines,List.length_cons]
    omega

theorem VerifyStage.turn_pays {stage : VerifyStage} (here : thread.stage = .verify stage)
    (taken : stage.turn t d thread choice = some turn) :
    turn.thread.work rows + turn.device.queue.length < thread.work rows + d.queue.length := by
  revert taken
  fun_cases VerifyStage.turn t d thread choice stage
  all_goals
    intro taken
    cases taken
  all_goals
    simp [Thread.work,here,Stage.work,VerifyStage.work,Turn.goto,Turn.ask,Turn.ret,Turn.finish,Device.release,
      Device.request,maxRetries]
  all_goals try change _ + d.queue.length < _
  all_goals try omega
  next lines =>
    rw [Choice.seen_cons lines,List.length_cons]
    omega
  next again =>
    have below := judge_again again
    unfold maxRetries at below
    omega
  next lines _ =>
    rw [lines,List.length_cons]
    omega

theorem DeleteStage.turn_pays {stage : DeleteStage} (here : thread.stage = .delete stage)
    (fits : d.storage.rows ≤ rows) (taken : stage.turn t d thread choice = some turn) :
    turn.thread.work rows + turn.device.queue.length < thread.work rows + d.queue.length := by
  revert taken
  fun_cases DeleteStage.turn t d thread choice stage
  all_goals
    intro taken
    cases taken
  all_goals
    simp [Thread.work,here,Stage.work,DeleteStage.work,Turn.goto,Turn.ask,Turn.ret,Turn.finish,Device.release,
      Device.request]
  all_goals try change _ + d.queue.length < _
  all_goals try omega
  next user _ _ ordered _ =>
    have all := (List.isPerm_iff.mp (not_not.mp ordered)).length_eq
    have most := d.storage.getUserSlots_length_le user
    omega
  next todo =>
    rw [todo,List.length_cons]
    omega
  next succeeded =>
    rw [succeeded,List.length_cons]
    omega

theorem Method.turn_pays {method : Method} (here : thread.stage = .entry method)
    (taken : method.turn t d thread choice = some turn) :
    turn.thread.work rows + turn.device.queue.length < thread.work rows + d.queue.length := by
  revert taken
  fun_cases Method.turn t d thread choice method
  all_goals
    intro taken
    cases taken
  all_goals
    simp [Thread.work,here,Stage.work,EnrollStage.work,VerifyStage.work,DeleteStage.work,Turn.goto,Turn.ret,Turn.finish,
      Device.release]
  all_goals try omega

/-- One step of a thread, whatever its stage. -/
theorem Stage.turn_pays (fits : d.storage.rows ≤ rows) (taken : thread.stage.turn t d thread choice = some turn) :
    turn.thread.work rows + turn.device.queue.length < thread.work rows + d.queue.length := by
  cases here : thread.stage with
  | idle | finished =>
    rw [here] at taken
    cases taken
  | entry method =>
    rw [here] at taken
    exact method.turn_pays here taken
  | enroll stage =>
    rw [here] at taken
    exact stage.turn_pays here taken
  | verify stage =>
    rw [here] at taken
    exact stage.turn_pays here taken
  | delete stage =>
    rw [here] at taken
    exact stage.turn_pays here fits taken
  | claim _ | stop _ | endAction _ _ _ =>
    rw [here] at taken
    cases taken
    simp [Thread.work,here,Stage.work,Turn.ret,Turn.finish,Device.release]

/-- Only a call can lead to a new row. -/
theorem Stage.turn_mayStore (taken : thread.stage.turn t d thread choice = some turn)
    (may : turn.thread.stage.mayStore = true) : thread.stage.mayStore = true := by
  cases here : thread.stage with
  | entry method => rfl
  | enroll stage =>
    rw [here] at taken
    cases stage with
    | save =>
      revert may
      simp only [Stage.turn,EnrollStage.turn] at taken
      split at taken <;> cases taken <;> exact id
    | emit status =>
      cases taken
      exact may
    | _ => rfl
  | verify stage =>
    rw [here] at taken
    revert taken
    change stage.turn t d thread choice = some turn → _
    fun_cases VerifyStage.turn t d thread choice stage
    all_goals
      intro taken
      cases taken
    all_goals cases may
  | delete stage =>
    rw [here] at taken
    revert taken
    change stage.turn t d thread choice = some turn → _
    fun_cases DeleteStage.turn t d thread choice stage
    all_goals
      intro taken
      cases taken
    all_goals cases may
  | idle | finished | claim _ | stop _ | endAction _ _ _ =>
    rw [here] at taken
    cases taken
    try cases may

/-- No step adds a row that the thread could not add. -/
theorem Stage.turn_rows (kinded : thread.stage.Kinded) (taken : thread.stage.turn t d thread choice = some turn) :
    turn.device.storage.rows + turn.thread.stage.mayStore.toNat ≤ d.storage.rows + thread.stage.mayStore.toNat := by
  have kept : turn.thread.stage.mayStore.toNat ≤ thread.stage.mayStore.toNat :=
    Bool.toNat_le_toNat (Bool.le_iff_imp.mpr (turn_mayStore taken))
  cases (Stage.turn_allowed kinded taken).registry with
  | same unchanged _ _ =>
    rw [unchanged]
    omega
  | choose job unchanged _ _ =>
    rw [unchanged]
    omega
  | remove user finger _ _ _ _ _ removed =>
    have fewer := d.storage.rows_removeFinger_le user finger
    rw [removed]
    omega
  | store job here next written =>
    have more := d.storage.rows_setSlot_le job.user job.finger job.slot
    rw [written,here,next]
    exact more

end

/-! ### The whole device -/

/-- An action of the daemon's own: a step, an answer of the sensor, a signal of the watcher. -/
def Action.isOwn : Action → Bool
  | .step _ _ | .serve _ _ | .disconnect => true
  | _ => false

def Action.isCall : Action → Bool
  | .call _ _ _ => true
  | _ => false

/-- What the world outside adds to the device's work. -/
def Action.brings : Action → Nat
  | .progress _ => 3
  | .leave _ => 1
  | _ => 0

namespace World

variable (tids : Finset Tid) (w : World)

def Within : Prop := ∀ t, t ∉ tids → (w.threads t).stage = .idle

/-- The rows the registry may come to have if no more calls are made. -/
def rows : Nat := w.device.storage.rows + ∑ t ∈ tids, (w.threads t).stage.mayStore.toNat

def work : Nat := ∑ t ∈ tids, (w.threads t).work (w.rows tids) + w.device.queue.length + w.unheard.length

variable {tids w} {t : Tid} {thread : Thread}

/-- A sum over all threads when one of them changes. -/
theorem sum_setThread (w : World) (thread : Thread) (f : Thread → Nat) (member : t ∈ tids) :
    ∑ u ∈ tids, f ((w.setThread t thread).threads u) + f (w.threads t) = ∑ u ∈ tids, f (w.threads u) + f thread := by
  have others : ∑ u ∈ tids.erase t, f ((w.setThread t thread).threads u) = ∑ u ∈ tids.erase t, f (w.threads u) :=
    Finset.sum_congr rfl fun u other => by rw [threads_setThread_other (Finset.ne_of_mem_erase other)]
  have after := Finset.add_sum_erase tids (fun u => f ((w.setThread t thread).threads u)) member
  have before := Finset.add_sum_erase tids (fun u => f (w.threads u)) member
  simp only [threads_setThread_same] at after
  omega

theorem Within.mem (within : w.Within tids) (busy : (w.threads t).stage ≠ .idle) : t ∈ tids := by
  by_contra outside
  exact busy (within t outside)

/-- One step of a thread lowers the work, whatever rows it adds or removes. -/
theorem commit_pays {choice : Choice} {turn : Turn} (coherent : Coherent w) (member : t ∈ tids)
    (taken : (w.threads t).stage.turn t w.device (w.threads t) choice = some turn) :
    (w.commit t turn).work tids < w.work tids := by
  have rowsLe : (w.commit t turn).rows tids ≤ w.rows tids := by
    have step := Stage.turn_rows (coherent.kinded t) taken
    have sums := sum_setThread w turn.thread (fun thread => thread.stage.mayStore.toNat) member
    change turn.device.storage.rows + ∑ u ∈ tids, ((w.setThread t turn.thread).threads u).stage.mayStore.toNat ≤ _
    unfold rows
    omega
  have fits : w.device.storage.rows ≤ w.rows tids := Nat.le_add_right _ _
  have paid := Stage.turn_pays fits taken
  have sums := sum_setThread w turn.thread (Thread.work (w.rows tids)) member
  have fewer : ∑ u ∈ tids, ((w.setThread t turn.thread).threads u).work ((w.commit t turn).rows tids) ≤
      ∑ u ∈ tids, ((w.setThread t turn.thread).threads u).work (w.rows tids) :=
    Finset.sum_le_sum fun u _ => Thread.work_mono rowsLe _
  change ∑ u ∈ tids, ((w.setThread t turn.thread).threads u).work ((w.commit t turn).rows tids) +
    turn.device.queue.length + w.unheard.length < _
  unfold work
  omega

/-- A thread whose mail alone changes has more or less to do by the lines in it. -/
theorem work_mail {v : World} (member : t ∈ tids) (threads : v.threads = (w.setThread t thread).threads)
    (storage : v.device.storage = w.device.storage) (stage : thread.stage = (w.threads t).stage) :
    v.work tids + 3 * (w.threads t).inbox.length + w.device.queue.length + w.unheard.length =
      w.work tids + 3 * thread.inbox.length + v.device.queue.length + v.unheard.length := by
  have same : v.rows tids = w.rows tids := by
    simp only [rows,storage,threads,stage_setThread stage]
  have sums := sum_setThread w thread (Thread.work (w.rows tids)) member
  rw [Thread.work,Thread.work,stage] at sums
  rw [work,same,threads,work]
  omega

/-- A request is that of a thread among them. -/
theorem Within.asker {r : Request} (within : w.Within tids) (coherent : Coherent w) (queued : r ∈ w.device.queue) :
    r.tid ∈ tids := within.mem fun idle => by
  have waits := coherent.waiting r queued
  rw [Thread.Awaits,idle] at waits
  cases waits.1

/-- Every action but a call is paid for. -/
theorem step_pays {v : World} {a : Action} (coherent : Coherent w) (within : w.Within tids) (noCall : a.isCall = false)
    (moved : w.step a = some v) : v.work tids + a.isOwn.toNat ≤ w.work tids + a.brings := by
  cases World.step_moves moved with
  | call => cases noCall
  | step t choice turn taken =>
    exact commit_pays coherent (within.mem (Stage.busy taken)) taken
  | leave name present =>
    change ∑ t ∈ tids, (w.threads t).work (w.rows tids) + w.device.queue.length + (w.unheard ++ [name]).length + 0 ≤ _
    rw [List.length_append]
    unfold work
    simp only [List.length_singleton,Action.brings]
    omega
  | disconnect name rest signals =>
    change ∑ t ∈ tids, (w.threads t).work (w.rows tids) + w.device.queue.length + rest.length + 1 ≤ _
    unfold work
    rw [signals,List.length_cons]
    simp only [Action.brings]
    omega
  | progress r rest msg queue forwarded =>
    have member := within.asker coherent (queue ▸ List.mem_cons_self)
    have mail := work_mail (v := w.hear r msg) member rfl rfl rfl
    rw [List.length_append] at mail
    change _ + 0 ≤ _ + 3
    change _ + _ + w.device.queue.length + w.unheard.length = _ + _ + w.device.queue.length + w.unheard.length at mail
    simp only [List.length_singleton] at mail
    omega
  | serve r rest executed changed queue effect =>
    have member := within.asker coherent (queue ▸ List.mem_cons_self)
    have mail := work_mail (v := w.answer r rest executed changed) member rfl rfl rfl
    rw [queue,List.length_cons] at mail
    change _ + _ + _ + w.unheard.length =
      _ + 3 * (w.threads r.tid).inbox.length + rest.length + w.unheard.length at mail
    change _ + 1 ≤ _ + 0
    omega

theorem Within.step {v : World} {a : Action} (within : w.Within tids) (noCall : a.isCall = false)
    (moved : w.step a = some v) : v.Within tids := by
  intro t outside
  have idle := within t outside
  have ran : Transition.run World.step w [a] = some v := (run_cons World.step w v a []).mpr ⟨v,moved,rfl⟩
  refine World.idle_run idle (fun b member sender method same => ?_) ran
  obtain rfl := List.mem_singleton.mp member
  rw [same] at noCall
  cases noCall

/-- Every run makes its calls with finitely many numbers. -/
theorem within_run {v : World} {actions : List Action} (within : w.Within tids)
    (ran : Transition.run World.step w actions = some v) : ∃ more, v.Within more := by
  refine ⟨tids ∪ (actions.filterMap fun | .call t _ _ => some t | _ => none).toFinset,fun t outside => ?_⟩
  simp only [Finset.mem_union,not_or] at outside
  refine World.idle_run (within t outside.1) (fun a member sender method same => outside.2 ?_) ran
  exact List.mem_toFinset.mpr (List.mem_filterMap.mpr ⟨a,member,by rw [same]⟩)

end World

end R503.Fprint
