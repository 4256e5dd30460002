import R503.DeviceInvariant

/-! How many requests of the handlers and tasks are in the worker's queue: captures are bounded
by the permit, deletes only by the action token. -/
namespace R503.Fprint

open Text Transition

def SensorOp.isDelete : SensorOp → Bool
  | .delete _ _ => true
  | _ => false

def Device.captures (d : Device) : Nat := d.queue.countP fun r => !r.op.isDelete

def Device.deletes (d : Device) : Nat := d.queue.countP fun r => r.op.isDelete

namespace DeviceState

def Deleting (s : DeviceState) : Prop := ∃ token, s.action = some token ∧ token.kind = .delete

theorem deleting_iff {s : DeviceState} : (∃ token ∈ s.action,token.kind = .delete) ↔ s.Deleting := Iff.rfl

instance (s : DeviceState) : Decidable s.Deleting := decidable_of_iff _ deleting_iff

end DeviceState

def Stage.releases : Stage → Bool
  | .entry .release => true
  | _ => false

theorem Stage.releases_iff {stage : Stage} : stage.releases = true ↔ stage = .entry .release := by
  constructor
  · intro found
    unfold releases at found
    split at found
    · rfl
    · cases found
  · rintro rfl
    rfl

/-- No release and no disconnect of the claimer takes effect while a delete is in progress. -/
def SparesDeletes (w : World) (a : Action) : Prop :=
  w.device.state.Deleting →
    (∀ t choice, a = .step t choice → (w.threads t).stage = .entry .release →
      w.device.state.claimedBy = none ∨ w.device.state.otherSender (w.threads t).sender = true) ∧
    ∀ name rest, a = .disconnect → w.unheard = name :: rest → w.device.state.claimSender ≠ some name

section
variable {w : World}

theorem sparesDeletes_step {t : Tid} {choice : Choice} :
    (w.device.state.Deleting → (w.threads t).stage.releases = true →
      w.device.state.claimedBy = none ∨ w.device.state.otherSender (w.threads t).sender = true) ↔
      SparesDeletes w (.step t choice) := by
  constructor
  · intro spared deleting
    refine ⟨fun u _ same here => ?_,nofun⟩
    obtain ⟨rfl,rfl⟩ := Action.step.inj same
    exact spared deleting (Stage.releases_iff.mpr here)
  · exact fun spares deleting here => (spares deleting).1 t choice rfl (Stage.releases_iff.mp here)

theorem sparesDeletes_disconnect :
    (w.device.state.Deleting → w.unheard = [] ∨ w.device.state.claimSender ≠ w.unheard.head?) ↔
      SparesDeletes w .disconnect := by
  cases signals : w.unheard with
  | nil => simp [SparesDeletes,signals]
  | cons name rest => simp [SparesDeletes,signals]

instance (w : World) : (a : Action) → Decidable (SparesDeletes w a)
  | .step _ _ => decidable_of_iff _ sparesDeletes_step
  | .disconnect => decidable_of_iff _ sparesDeletes_disconnect
  | .call _ _ _ | .leave _ | .progress _ | .serve _ _ => isTrue fun _ => ⟨nofun,nofun⟩

end

def Thread.Deletes (thread : Thread) (token : ActionToken) : Prop :=
  thread.stage.token = some token ∧ token.kind = .delete

/-- The delete under way is the current action. -/
structure Gated (w : World) : Prop where
  current : ∀ t token, (w.threads t).Deletes token → w.device.state.action = some token
  single : ∀ t u token, (w.threads t).Deletes token → (w.threads u).Deletes token → t = u

namespace Gated

variable {w v : World} (gated : Gated w)
include gated

theorem unique {t u : Tid} {token other : ActionToken} (first : (w.threads t).Deletes token)
    (second : (w.threads u).Deletes other) : t = u := by
  obtain rfl := Option.some.inj ((gated.current t token first).symm.trans (gated.current u other second))
  exact gated.single t u token first second

/-- With no delete in progress no thread is deleting. -/
theorem none_deletes (free : ¬ w.device.state.Deleting) (t : Tid) (token : ActionToken) : ¬ (w.threads t).Deletes token :=
  fun deletes => free ⟨token,gated.current t token deletes,deletes.2⟩

theorem congr (action : v.device.state.action = w.device.state.action)
    (tokens : ∀ t token, (v.threads t).Deletes token → (w.threads t).Deletes token) : Gated v where
  current t token deletes := action.trans (gated.current t token (tokens t token deletes))
  single t u token first second := gated.single t u token (tokens t token first) (tokens u token second)

theorem turn {t : Tid} {choice : Choice} {turn : Turn} (kinded : (w.threads t).stage.Kinded)
    (allowed : turn.Allowed t w.device (w.threads t) choice)
    (spares : SparesDeletes w (.step t choice)) : Gated (w.commit t turn) := by
  have here : (w.commit t turn).threads t = turn.thread := World.threads_setThread_same
  have there : ∀ u, u ≠ t → (w.commit t turn).threads u = w.threads u := fun u => World.threads_setThread_other
  have later : ∀ u token, turn.thread.stage.token = (w.threads t).stage.token ∨ turn.thread.stage.token = none →
      ((w.commit t turn).threads u).Deletes token → (w.threads u).Deletes token := by
    rintro u token kept ⟨owns,kind⟩
    by_cases same : u = t
    · subst u
      rw [here] at owns
      rcases kept with kept | none
      · exact ⟨kept.symm.trans owns,kind⟩
      · rw [none] at owns
        cases owns
    · rw [there u same] at owns
      exact ⟨owns,kind⟩
  -- nothing is being deleted, and the step does not begin to
  have calm : ¬ w.device.state.Deleting →
      turn.thread.stage.token = (w.threads t).stage.token ∨ turn.thread.stage.token = none →
      Gated (w.commit t turn) := by
    intro free kept
    have none := fun u token deletes => gated.none_deletes free u token (later u token kept deletes)
    exact ⟨fun u token deletes => absurd deletes (none u token),fun u _ token deletes => absurd deletes (none u token)⟩
  rcases allowed.state with ⟨action,_,_,token⟩ | ⟨kind,free,minted,fresh,token,_⟩ | ⟨token,own,current,cleared,gone⟩ |
    ⟨kind,token,at_,current,match_,cleared,ended⟩ | ⟨at_,claimed,mine,dropped,ended⟩ |
    ⟨_,here',free,installed,ended⟩
  · refine gated.congr action fun u token' => later u token' (token.imp id fun ended => ?_)
    rw [ended.1]
    rfl
  · have idle : ¬ w.device.state.Deleting := by
      rintro ⟨other,now,_⟩
      rw [free] at now
      cases now
    have mine : ∀ u token', ((w.commit t turn).threads u).Deletes token' → u = t := by
      intro u token' deletes
      by_contra other
      rw [there u other] at deletes
      exact gated.none_deletes idle u token' deletes
    constructor
    · intro u token' deletes
      obtain rfl := mine u token' deletes
      rw [here] at deletes
      obtain rfl := Option.some.inj (token.symm.trans deletes.1)
      exact congrArg DeviceState.action minted
    · exact fun u u' token' first second => (mine u token' first).trans (mine u' token' second).symm
  · have none : ∀ u token', ¬ ((w.commit t turn).threads u).Deletes token' := by
      intro u token' deletes
      by_cases same : u = t
      · subst u
        rw [here,Thread.Deletes,gone] at deletes
        cases deletes.1
      · rw [there u same] at deletes
        obtain rfl := Option.some.inj (current.symm.trans (gated.current u token' deletes))
        exact same (gated.single u t token deletes ⟨own,deletes.2⟩)
    exact ⟨fun u token' deletes => absurd deletes (none u token'),fun u _ token' deletes => absurd deletes (none u token')⟩
  · refine calm ?_ (.inr (by rw [ended]; rfl))
    rintro ⟨other,now,kind'⟩
    rw [at_] at kinded
    obtain rfl := Option.some.inj (current.symm.trans now)
    exact kinded (match_.symm.trans kind')
  · by_cases deleting : w.device.state.Deleting
    · rcases (spares deleting).1 t choice rfl at_ with none | other
      · exact absurd none claimed
      · rw [mine] at other
        cases other
    · exact calm deleting (.inr (by rw [ended]; rfl))
  · refine gated.congr ?_ fun u token' => later u token' (.inr (by rw [ended]; rfl))
    change turn.device.state.action = _
    rw [installed]

theorem step {a : Action} (coherent : Coherent w) (spares : SparesDeletes w a) (moved : w.step a = some v) :
    Gated v := by
  have stages : ∀ {u : World}, u.device.state.action = w.device.state.action →
      (∀ t, (u.threads t).stage = (w.threads t).stage) → Gated u := fun action same =>
    gated.congr action fun t token deletes => by rwa [Thread.Deletes,same t] at deletes
  cases World.step_moves moved with
  | call t sender method fresh =>
    refine gated.congr rfl fun u token deletes => ?_
    by_cases same : u = t
    · subst u
      rw [World.spawn,World.threads_setThread_same] at deletes
      cases deletes.1
    · rwa [World.spawn,World.threads_setThread_other same] at deletes
  | step t choice turn taken => exact gated.turn (coherent.kinded t) (Stage.turn_allowed (coherent.kinded t) taken) spares
  | leave name present => exact stages rfl fun _ => rfl
  | disconnect name rest signals =>
    by_cases claims : w.device.state.claimSender = some name
    · have idle : ¬ w.device.state.Deleting := fun deleting => (spares deleting).2 name rest rfl signals claims
      exact ⟨fun t token deletes => absurd deletes (gated.none_deletes idle t token),
        fun t _ token deletes => absurd deletes (gated.none_deletes idle t token)⟩
    · exact stages (congrArg DeviceState.action (if_neg claims)) fun _ => rfl
  | progress r rest msg queue forwarded => exact stages rfl fun _ => World.stage_setThread rfl
  | serve r rest executed changed queue effect => exact stages rfl fun _ => World.stage_setThread rfl

end Gated

theorem gated_boot (threshold : UInt16) (storage : Storage) (templates : UInt8 → Option Owner) :
    Gated (World.boot threshold storage templates) where
  current _ _ deletes := by cases deletes.1
  single _ _ _ deletes := by cases deletes.1

theorem gated_run {threshold : UInt16} {storage : Storage} {templates : UInt8 → Option Owner} {actions : List Action}
    {w : World} (ran : run World.step (.boot threshold storage templates) actions = some w)
    (spares : Along World.step (fun w a _ => SparesDeletes w a) (.boot threshold storage templates) actions) :
    Gated w := by
  refine (along_invariant (fun w => Coherent w ∧ Gated w) (fun w a _ => SparesDeletes w a)
    (fun u a v good spares moved => ⟨good.1.step moved,good.2.step good.1 spares moved⟩) _ w actions ?_ spares ran).2
  exact ⟨.boot threshold storage templates,gated_boot threshold storage templates⟩

/-! ### The queue -/

/-- Requests of one thread at most: there is one. -/
theorem countP_le_one {p : Request → Bool} {queue : List Request} (single : (queue.map Request.tid).Nodup)
    (alike : ∀ r ∈ queue, ∀ r' ∈ queue, p r = true → p r' = true → r.tid = r'.tid) : queue.countP p ≤ 1 := by
  induction queue with
  | nil => simp
  | cons r rest ih =>
    rw [List.map_cons,List.nodup_cons] at single
    have others := ih single.2 fun a first b second =>
      alike a (List.mem_cons_of_mem r first) b (List.mem_cons_of_mem r second)
    rw [List.countP_cons]
    split
    next mine =>
      have none : rest.countP p = 0 := List.countP_eq_zero.mpr fun r' member given =>
        single.1 (alike r List.mem_cons_self r' (List.mem_cons_of_mem r member) mine given ▸ List.mem_map_of_mem member)
      omega
    next => omega

namespace Stage

variable {stage : Stage} {op : SensorOp} (pending : stage.pending = some op)
include pending

theorem holds_of_pending (capture : op.isDelete = false) : stage.holds = true := by
  cases stage with
  | enroll stage => cases stage <;> first | rfl | cases pending
  | verify stage => cases stage <;> first | rfl | cases pending
  | delete stage =>
    cases stage <;> cases pending <;> cases capture
  | _ => cases pending

theorem deletes_of_pending (kinded : stage.Kinded) (delete : op.isDelete = true) :
    ∃ token, stage.token = some token ∧ token.kind = .delete := by
  cases stage with
  | enroll stage => cases stage <;> cases pending <;> cases delete
  | verify stage => cases stage <;> cases pending <;> cases delete
  | delete stage =>
    obtain ⟨token,owns⟩ : ∃ token, stage.token = some token := by
      cases stage <;> first | exact ⟨_,rfl⟩ | cases pending
    exact ⟨token,owns,kinded token owns⟩
  | _ => cases pending

end Stage

theorem captures_le {w : World} (coherent : Coherent w) : w.device.captures ≤ 1 := by
  refine countP_le_one coherent.single fun r first r' second capture capture' => ?_
  exact coherent.exclusive (Stage.holds_of_pending (coherent.waiting r first).1 (by simpa using capture))
    (Stage.holds_of_pending (coherent.waiting r' second).1 (by simpa using capture'))

theorem deletes_le {w : World} (coherent : Coherent w) (gated : Gated w) : w.device.deletes ≤ 1 := by
  refine countP_le_one coherent.single fun r first r' second delete delete' => ?_
  obtain ⟨token,owns⟩ := Stage.deletes_of_pending (coherent.waiting r first).1 (coherent.kinded r.tid) delete
  obtain ⟨token',owns'⟩ := Stage.deletes_of_pending (coherent.waiting r' second).1 (coherent.kinded r'.tid) delete'
  exact gated.unique owns owns'

/-- At most one capture is ever queued or running, and in every run that releases no delete under
way at most one delete. -/
theorem queue_bounded (threshold : UInt16) (storage : Storage) (templates : UInt8 → Option Owner)
    (actions : List Action) (w : World) (ran : run World.step (.boot threshold storage templates) actions = some w) :
    w.device.captures ≤ 1 ∧
      (Along World.step (fun w a _ => SparesDeletes w a) (.boot threshold storage templates) actions →
        w.device.deletes ≤ 1) := by
  have coherent := (Coherent.boot threshold storage templates).reachable ⟨actions,ran⟩
  exact ⟨captures_le coherent,fun spares => deletes_le coherent (gated_run ran spares)⟩

def claimCall (t : Tid) : List Action :=
  [.call t (ascii ":1.7") (.claim []),.step t (.authorized (.ok (1000,some (ascii "mat"))) (.ok false)),.step t .go]

def deleteCall (t : Tid) : List Action :=
  [.call t (ascii ":1.7") .deleteEnrolledFingers2,.step t .go,.step t .go,.step t (.order [(ascii "right-thumb",3)]),
    .step t .go]

/-- A client claims, starts to delete, releases, claims again and deletes again. -/
def churnRun : List Action :=
  claimCall 0 ++ deleteCall 1 ++ [.call 2 (ascii ":1.7") .release,.step 2 .go] ++ claimCall 3 ++ deleteCall 4

theorem two_deletes_queued : ∃ w, run World.step (.boot 50 .oneRow fun _ => none) churnRun = some w ∧
    ¬ w.device.deletes ≤ 1 := by
  have result : (run World.step (.boot 50 .oneRow fun _ => none) churnRun).map (fun w => w.device.deletes) = some 2 := by
    decide +kernel
  obtain ⟨w,ran,same⟩ := Option.map_eq_some_iff.mp result
  exact ⟨w,ran,by omega⟩

/-- While the sensor has the delete another client tries to release the device and leaves. -/
def undisturbedRun : List Action :=
  claimCall 0 ++ deleteCall 1 ++
    [.call 2 (ascii ":1.8") .release,.step 2 .go,.leave (ascii ":1.8"),.disconnect]

theorem queue_bounded_delete : ∃ w, run World.step (.boot 50 .oneRow fun _ => none) undisturbedRun = some w ∧
    w.device.state.Deleting ∧ w.device.captures ≤ 1 ∧ w.device.deletes ≤ 1 := by
  have result : (run World.step (.boot 50 .oneRow fun _ => none) undisturbedRun).map
      (fun w => decide w.device.state.Deleting) = some true := by decide +kernel
  obtain ⟨w,ran,deleting⟩ := Option.map_eq_some_iff.mp result
  obtain ⟨captures,deletes⟩ := queue_bounded 50 .oneRow (fun _ => none) undisturbedRun w ran
  exact ⟨w,ran,of_decide_eq_true deleting,captures,deletes (by decide +kernel)⟩

end R503.Fprint
