import R503.DeviceTurns

/-! The invariant of the device machine: who calls, who holds the permit, whose requests are queued, and
that every waiting thread has its request in the queue. -/
namespace R503.Fprint

open Text SlotLedger

structure Coherent (w : World) : Prop where
  named : ∀ t, (w.threads t).stage ≠ .idle → ∃ client, (w.threads t).sender = some client
  kinded : ∀ t, (w.threads t).stage.Kinded
  permit : ∀ t, (w.threads t).stage.holds = true → w.device.captureSlot = some t
  waiting : ∀ r ∈ w.device.queue, (w.threads r.tid).Awaits r.op
  asked : ∀ t op, (w.threads t).Awaits op → ⟨t,op⟩ ∈ w.device.queue
  single : (w.device.queue.map Request.tid).Nodup

namespace World

variable {w : World} {t : Tid} {thread : Thread}

@[simp] theorem threads_setThread_same : (w.setThread t thread).threads t = thread := Function.update_self _ _ _

theorem threads_setThread_other {u : Tid} (other : u ≠ t) : (w.setThread t thread).threads u = w.threads u :=
  Function.update_of_ne other _ _

/-- Only the mailboxes of a thread change, not its stage. -/
theorem stage_setThread {u : Tid} (same : thread.stage = (w.threads t).stage) :
    ((w.setThread t thread).threads u).stage = (w.threads u).stage := by
  by_cases here : u = t
  · subst u
    rw [threads_setThread_same,same]
  · rw [threads_setThread_other here]

theorem sender_setThread {u : Tid} (same : thread.sender = (w.threads t).sender) :
    ((w.setThread t thread).threads u).sender = (w.threads u).sender := by
  by_cases here : u = t
  · subst u
    rw [threads_setThread_same,same]
  · rw [threads_setThread_other here]

end World

/-- Only a call that was made takes steps. -/
theorem Stage.busy {t : Tid} {d : Device} {thread : Thread} {choice : Choice} {turn : Turn}
    (taken : thread.stage.turn t d thread choice = some turn) : thread.stage ≠ .idle := fun idle => by
  rw [idle] at taken
  cases taken

/-- A number that no call has taken stays free. -/
theorem World.idle_run {w v : World} {t : Tid} {actions : List Action} (idle : (w.threads t).stage = .idle)
    (never : ∀ a ∈ actions, ∀ sender method, a ≠ .call t sender method)
    (ran : Transition.run World.step w actions = some v) : (v.threads t).stage = .idle := by
  refine Transition.run_invariant (fun w => (w.threads t).stage = .idle) _ (fun w a v idle other moved => ?_) w v actions
    idle never ran
  cases World.step_moves moved with
  | call u sender method fresh =>
    have different : t ≠ u := fun same => other sender method (same ▸ rfl)
    rw [World.spawn,World.threads_setThread_other different]
    exact idle
  | step u choice turn taken =>
    have different : t ≠ u := fun same => Stage.busy taken (same ▸ idle)
    exact (congrArg Thread.stage (World.threads_setThread_other different)).trans idle
  | leave name present => exact idle
  | disconnect name rest signals => exact idle
  | progress r rest msg queue forwarded =>
    have stage : ((w.hear r msg).threads t).stage = (w.threads t).stage := World.stage_setThread rfl
    exact stage.trans idle
  | serve r rest executed changed queue effect =>
    have stage : ((w.answer r rest executed changed).threads t).stage = (w.threads t).stage :=
      World.stage_setThread rfl
    exact stage.trans idle

theorem Coherent.boot (threshold : UInt16) (storage : Storage) (templates : UInt8 → Option Owner) :
    Coherent (World.boot threshold storage templates) where
  named _ busy := absurd rfl busy
  kinded _ := trivial
  permit _ impossible := by cases impossible
  waiting _ impossible := by cases impossible
  asked _ _ awaits := by cases awaits.1
  single := List.nodup_nil

namespace Coherent

variable {w : World} (coherent : Coherent w)
include coherent

/-- Two threads never hold the permit. -/
theorem exclusive {t u : Tid} (first : (w.threads t).stage.holds = true)
    (second : (w.threads u).stage.holds = true) : t = u :=
  Option.some.inj ((coherent.permit t first).symm.trans (coherent.permit u second))

theorem spawn {t : Tid} {sender : Bytes} {method : Method} (fresh : (w.threads t).stage = .idle) :
    Coherent (w.spawn t sender method) := by
  have idle : ∀ op, ¬ (w.threads t).Awaits op := fun op awaits => by simp [Thread.Awaits,fresh,Stage.pending] at awaits
  constructor
  · intro u busy
    by_cases same : u = t
    · subst u
      exact ⟨sender,by rw [World.spawn,World.threads_setThread_same]⟩
    · rw [World.spawn,World.threads_setThread_other same] at busy ⊢
      exact coherent.named u busy
  · intro u
    by_cases same : u = t
    · subst u
      simp [World.spawn,Stage.Kinded]
    · rw [World.spawn,World.threads_setThread_other same]
      exact coherent.kinded u
  · intro u held
    by_cases same : u = t
    · subst u
      simp [World.spawn,Stage.holds] at held
    · rw [World.spawn,World.threads_setThread_other same] at held
      exact coherent.permit u held
  · intro r queued
    have before := coherent.waiting r queued
    have other : r.tid ≠ t := fun same => idle r.op (same ▸ before)
    rwa [World.spawn,World.threads_setThread_other other]
  · intro u op awaits
    by_cases same : u = t
    · subst u
      simp [World.spawn,Thread.Awaits,Stage.pending] at awaits
    · rw [World.spawn,World.threads_setThread_other same] at awaits
      exact coherent.asked u op awaits
  · exact coherent.single

theorem commit {t : Tid} {choice : Choice} {turn : Turn} (allowed : turn.Allowed t w.device (w.threads t) choice)
    (busy : (w.threads t).stage ≠ .idle) : Coherent (w.commit t turn) := by
  have here : (w.commit t turn).threads t = turn.thread := World.threads_setThread_same
  have there : ∀ u, u ≠ t → (w.commit t turn).threads u = w.threads u := fun u => World.threads_setThread_other
  constructor
  · intro u active
    by_cases same : u = t
    · subst u
      rw [here,allowed.sender]
      exact coherent.named t busy
    · rw [there u same] at active ⊢
      exact coherent.named u active
  · intro u
    by_cases same : u = t
    · subst u
      rw [here]
      exact allowed.kinded
    · rw [there u same]
      exact coherent.kinded u
  · intro u held
    change turn.device.captureSlot = some u
    by_cases same : u = t
    · subst u
      rw [here] at held
      rcases allowed.permit with ⟨unchanged,kept⟩ | ⟨_,got⟩ | ⟨_,_,ended⟩
      · rw [unchanged]
        exact coherent.permit t (kept held)
      · exact got
      · rw [ended] at held
        cases held
    · rw [there u same] at held
      have before := coherent.permit u held
      rcases allowed.permit with ⟨unchanged,_⟩ | ⟨free,_⟩ | ⟨had,_,_⟩
      · rw [unchanged]
        exact before
      · rw [free] at before
        cases before
      · exact absurd (Option.some.inj (before.symm.trans had)) same
  · intro r queued
    change r ∈ turn.device.queue at queued
    rcases allowed.queue with ⟨unchanged,waits⟩ | ⟨op,idle,asked,waits⟩
    · rw [unchanged] at queued
      have before := coherent.waiting r queued
      by_cases same : r.tid = t
      · rw [same] at before ⊢
        rw [here]
        exact (waits r.op).mpr before
      · rwa [there _ same]
    · rw [asked] at queued
      rcases List.mem_append.mp queued with old | new
      · have before := coherent.waiting r old
        by_cases same : r.tid = t
        · rw [same,Thread.Awaits,idle] at before
          cases before.1
        · rwa [there _ same]
      · obtain rfl := List.mem_singleton.mp new
        rw [here]
        exact waits
  · intro u op awaits
    change _ ∈ turn.device.queue
    by_cases same : u = t
    · subst u
      rw [here] at awaits
      rcases allowed.queue with ⟨unchanged,waits⟩ | ⟨op',_,asked,waits⟩
      · rw [unchanged]
        exact coherent.asked t op ((waits op).mp awaits)
      · obtain rfl := Option.some.inj (awaits.1.symm.trans waits.1)
        rw [asked]
        exact List.mem_append_right _ (List.mem_singleton.mpr rfl)
    · rw [there u same] at awaits
      have before := coherent.asked u op awaits
      rcases allowed.queue with ⟨unchanged,_⟩ | ⟨_,_,asked,_⟩
      · rwa [unchanged]
      · rw [asked]
        exact List.mem_append_left _ before
  · change (turn.device.queue.map Request.tid).Nodup
    rcases allowed.queue with ⟨unchanged,_⟩ | ⟨op,idle,asked,_⟩
    · rw [unchanged]
      exact coherent.single
    · rw [asked,List.map_append]
      refine List.Nodup.append coherent.single (List.nodup_singleton t) fun u member new => ?_
      obtain ⟨r,queued,rfl⟩ := List.mem_map.mp member
      have before := coherent.waiting r queued
      obtain same : r.tid = t := List.mem_singleton.mp new
      rw [same] at before
      rw [Thread.Awaits,idle] at before
      cases before.1

theorem hear {r : Request} {msg : Bytes} : Coherent (w.hear r msg) := by
  have stages : ∀ u, ((w.hear r msg).threads u).stage = (w.threads u).stage := fun u => World.stage_setThread rfl
  have awaits : ∀ u op, ((w.hear r msg).threads u).Awaits op ↔ (w.threads u).Awaits op := by
    intro u op
    rw [Thread.Awaits,Thread.Awaits,stages u]
    by_cases same : u = r.tid
    · subst same
      simp [World.hear]
    · rw [World.hear,World.threads_setThread_other same]
  constructor
  · intro u
    rw [stages u,show ((w.hear r msg).threads u).sender = (w.threads u).sender from World.sender_setThread rfl]
    exact coherent.named u
  · intro u
    rw [stages u]
    exact coherent.kinded u
  · intro u held
    rw [stages u] at held
    exact coherent.permit u held
  · exact fun r' queued => (awaits _ _).mpr (coherent.waiting r' queued)
  · exact fun u op waits => coherent.asked u op ((awaits u op).mp waits)
  · exact coherent.single

theorem answer {r : Request} {rest : List Request} {executed : Executed} {changed : Bool}
    (queue : w.device.queue = r :: rest) : Coherent (w.answer r rest executed changed) := by
  have stages : ∀ u, ((w.answer r rest executed changed).threads u).stage = (w.threads u).stage :=
    fun u => World.stage_setThread rfl
  have distinct := coherent.single
  rw [queue,List.map_cons,List.nodup_cons] at distinct
  have there : ∀ u, u ≠ r.tid → (w.answer r rest executed changed).threads u = w.threads u :=
    fun u => World.threads_setThread_other
  constructor
  · intro u
    rw [stages u,show ((w.answer r rest executed changed).threads u).sender = (w.threads u).sender from
      World.sender_setThread rfl]
    exact coherent.named u
  · intro u
    rw [stages u]
    exact coherent.kinded u
  · intro u held
    rw [stages u] at held
    exact coherent.permit u held
  · intro r' queued
    have other : r'.tid ≠ r.tid := fun same => distinct.1 (same ▸ List.mem_map_of_mem queued)
    rw [there _ other]
    exact coherent.waiting r' (by rw [queue]; exact List.mem_cons_of_mem _ queued)
  · intro u op waits
    by_cases same : u = r.tid
    · subst same
      have replied : ((w.answer r rest executed changed).threads r.tid).reply = some executed := by
        simp [World.answer,World.setThread]
      rw [Thread.Awaits,replied] at waits
      cases waits.2
    · rw [there u same] at waits
      have before := coherent.asked u op waits
      rw [queue] at before
      rcases List.mem_cons.mp before with head | tail
      · exact absurd (congrArg Request.tid head) same
      · exact tail
  · exact distinct.2

theorem step {v : World} {a : Action} (moved : w.step a = some v) : Coherent v := by
  cases World.step_moves moved with
  | call t sender method fresh => exact coherent.spawn fresh
  | step t choice turn taken => exact coherent.commit (Stage.turn_allowed (coherent.kinded t) taken) (Stage.busy taken)
  | leave name present =>
    exact ⟨coherent.named,coherent.kinded,coherent.permit,coherent.waiting,coherent.asked,coherent.single⟩
  | disconnect name rest signals =>
    exact ⟨coherent.named,coherent.kinded,coherent.permit,coherent.waiting,coherent.asked,coherent.single⟩
  | progress r rest msg queue forwarded => exact coherent.hear
  | serve r rest executed changed queue effect => exact coherent.answer queue

end Coherent

theorem Coherent.reachable {w v : World} (coherent : Coherent w)
    (reached : Transition.Reachable World.step w v) : Coherent v :=
  Transition.invariant Coherent (fun _ _ _ good moved => good.step moved) w v coherent reached

end R503.Fprint
