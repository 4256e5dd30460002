import R503.DeviceInvariant

/-! Whether a capture under way is that of the current claim. The start handlers read the claim
under one lock and mint their token under a later one. -/
namespace R503.Fprint

open Text Transition

/-- The capture under way was started by the claiming client for the claimed user. -/
def InFlight (w : World) : Prop :=
  ∀ token, w.device.state.action = some token → token.kind ≠ .delete → ∃ t user client,
    (w.threads t).stage.token = some token ∧ (w.threads t).stage.user = some user ∧
    (w.threads t).sender = some client ∧ w.device.state.claimedBy = some user ∧
    w.device.state.claimSender = some client

/-- A start handler that mints now still has the claim that it checked. -/
def MintsUnderClaim (w : World) (a : Action) : Prop :=
  ∀ t choice user, a = .step t choice → (w.threads t).stage.minting = some user → w.device.state.action = none →
    w.device.state.claimedBy = some user ∧ w.device.state.claimSender = (w.threads t).sender

namespace Stage

variable {stage : Stage}

/-- A start handler that finds no action mints. -/
theorem turn_of_minting {t : Tid} {d : Device} {thread : Thread} {choice : Choice} {turn : Turn} {user : Bytes}
    (mints : stage.minting = some user) (free : d.state.action = none)
    (taken : stage.turn t d thread choice = some turn) : ∃ kind, kind ≠ .delete ∧
      turn.device.state = d.state.startAction kind ∧ turn.thread.stage.token = some (d.state.freshToken kind) := by
  unfold minting at mints
  split at mints
  · simp only [Stage.turn,EnrollStage.turn,free] at taken
    cases taken
    exact ⟨.enroll,ActionKind.noConfusion,rfl,rfl⟩
  · simp only [Stage.turn,VerifyStage.turn,free] at taken
    split at taken <;> cases taken <;> exact ⟨.verify,ActionKind.noConfusion,rfl,rfl⟩
  · cases mints

end Stage

section
variable {w : World} {t : Tid} {choice : Choice} {turn : Turn}
  (allowed : turn.Allowed t w.device (w.threads t) choice)
include allowed

/-- The current token stays with its user and sender. -/
theorem InFlight.keep (inFlight : InFlight w) (action : turn.device.state.action = w.device.state.action)
    (user : turn.device.state.claimedBy = w.device.state.claimedBy)
    (sender : turn.device.state.claimSender = w.device.state.claimSender)
    (token : turn.thread.stage.token = (w.threads t).stage.token ∨
      turn.thread.stage = .finished ∧ (w.threads t).stage.token ≠ w.device.state.action) :
    InFlight (w.commit t turn) := by
  intro current now capture
  have before : w.device.state.action = some current := action.symm.trans now
  obtain ⟨u,claimed,client,owns,acts,named,holder,claimant⟩ := inFlight current before capture
  refine ⟨u,claimed,client,?_⟩
  by_cases same : u = t
  · subst u
    have here : (w.commit t turn).threads t = turn.thread := World.threads_setThread_same
    have still : turn.thread.stage.token = some current := by
      rcases token with kept | ⟨_,other⟩
      · exact kept.trans owns
      · exact absurd (owns.trans before.symm) other
    have acting : turn.thread.stage.user = some claimed := by
      rcases allowed.keeps with none | kept
      · rw [still] at none
        cases none
      · exact kept.trans acts
    rw [here,allowed.sender]
    exact ⟨still,acting,named,user.trans holder,sender.trans claimant⟩
  · have there : (w.commit t turn).threads u = w.threads u := World.threads_setThread_other same
    rw [there]
    exact ⟨owns,acts,named,user.trans holder,sender.trans claimant⟩

/-- The capture that is minted belongs to the claim just when the claim is still the one checked. -/
theorem InFlight.mint (coherent : Coherent w) {kind : ActionKind} (capture : kind ≠ .delete)
    {user : Bytes} (mints : (w.threads t).stage.minting = some user)
    (minted : turn.device.state = w.device.state.startAction kind)
    (token : turn.thread.stage.token = some (w.device.state.freshToken kind)) :
    InFlight (w.commit t turn) ↔
      w.device.state.claimedBy = some user ∧ w.device.state.claimSender = (w.threads t).sender := by
  have here : (w.commit t turn).threads t = turn.thread := World.threads_setThread_same
  have action : (w.commit t turn).device.state.action = some (w.device.state.freshToken kind) :=
    congrArg DeviceState.action minted
  have holder : (w.commit t turn).device.state.claimedBy = w.device.state.claimedBy := by
    change turn.device.state.claimedBy = _
    rw [minted]
    rfl
  have claimant : (w.commit t turn).device.state.claimSender = w.device.state.claimSender := by
    change turn.device.state.claimSender = _
    rw [minted]
    rfl
  have acting : turn.thread.stage.user = some user := by
    rcases allowed.keeps with none | kept
    · rw [token] at none
      cases none
    · exact kept.trans (Stage.user_of_minting mints)
  have busy : (w.threads t).stage ≠ .idle := fun idle => by
    rw [idle] at mints
    cases mints
  have after := coherent.commit allowed busy
  rw [InFlight,action,holder,claimant]
  constructor
  · intro inFlight
    obtain ⟨u,claimed,client,owns,acts,named,held,claims⟩ := inFlight _ rfl capture
    have mine := Stage.holds_of_token (after.kinded t) (by rw [here]; exact token) capture
    obtain rfl := after.exclusive (Stage.holds_of_token (after.kinded u) owns capture) mine
    rw [here] at acts named
    obtain rfl := Option.some.inj (acting.symm.trans acts)
    exact ⟨held,claims.trans (named.symm.trans allowed.sender)⟩
  · rintro ⟨held,claims⟩ current same _
    obtain rfl := Option.some.inj same
    obtain ⟨client,named⟩ := coherent.named t busy
    refine ⟨t,user,client,?_,?_,?_,held,claims.trans named⟩
    · rw [here]
      exact token
    · rw [here]
      exact acting
    · rw [here,allowed.sender]
      exact named

end

theorem InFlight.idle {w : World} (none : w.device.state.action = none) : InFlight w := fun _ now => by
  rw [none] at now
  cases now

theorem InFlight.congr {w v : World} (inFlight : InFlight w) (state : v.device.state = w.device.state)
    (stages : ∀ t, (v.threads t).stage = (w.threads t).stage)
    (senders : ∀ t, (v.threads t).sender = (w.threads t).sender) : InFlight v := by
  simp only [InFlight,state,stages,senders]
  exact inFlight

section
variable {w v : World} (coherent : Coherent w) (inFlight : InFlight w)
include coherent inFlight

theorem inFlight_turn {t : Tid} {choice : Choice} {turn : Turn}
    (taken : (w.threads t).stage.turn t w.device (w.threads t) choice = some turn) :
    InFlight (w.commit t turn) ↔ MintsUnderClaim w (.step t choice) := by
  have allowed := Stage.turn_allowed (coherent.kinded t) taken
  have condition : MintsUnderClaim w (.step t choice) ↔ ∀ user, (w.threads t).stage.minting = some user →
      w.device.state.action = none →
        w.device.state.claimedBy = some user ∧ w.device.state.claimSender = (w.threads t).sender := by
    constructor
    · exact fun given user => given t choice user rfl
    · intro given u chosen user same
      obtain ⟨rfl,_⟩ := Action.step.inj same
      exact given user
  rw [condition]
  by_cases minting : ∃ user, (w.threads t).stage.minting = some user ∧ w.device.state.action = none
  · obtain ⟨user,mints,free⟩ := minting
    obtain ⟨kind,capture,minted,token⟩ := Stage.turn_of_minting mints free taken
    rw [InFlight.mint allowed coherent capture mints minted token]
    refine ⟨fun met other same _ => ?_,fun given => given user mints free⟩
    obtain rfl := Option.some.inj (mints.symm.trans same)
    exact met
  · refine iff_of_true ?_ fun user mints free => absurd ⟨user,mints,free⟩ minting
    rcases allowed.state with ⟨action,user,sender,token⟩ | ⟨kind,free,minted,_,_,capture⟩ | ⟨_,_,_,cleared,_⟩ |
      ⟨_,_,_,_,_,cleared,_⟩ | ⟨_,_,_,dropped,_⟩ | ⟨user,here,free,installed,ended⟩
    · exact inFlight.keep allowed action user sender token
    · rcases capture with rfl | mints
      · intro current now other
        have same : turn.device.state.action = some current := now
        rw [minted] at same
        obtain rfl := Option.some.inj same
        exact absurd rfl other
      · obtain ⟨user,mints⟩ := Option.ne_none_iff_exists'.mp mints
        exact absurd ⟨user,mints,free⟩ minting
    · exact .idle (congrArg DeviceState.action cleared)
    · exact .idle (congrArg DeviceState.action cleared)
    · exact .idle (congrArg DeviceState.action dropped)
    -- a claim is installed only while nothing is in flight
    · intro current now capture
      have same : turn.device.state.action = some current := now
      rw [installed] at same
      obtain ⟨_,claimed,_,_,_,_,holder,_⟩ := inFlight current same capture
      rcases free with none | ⟨_,none⟩
      · rw [none] at holder
        cases holder
      · rw [none] at same
        cases same

/-- Only a mint can break the property, and it does when the claim has changed since it was checked. -/
theorem inFlight_step {a : Action} (moved : w.step a = some v) : InFlight v ↔ MintsUnderClaim w a := by
  have others : (∀ t choice, a ≠ .step t choice) → InFlight v → (InFlight v ↔ MintsUnderClaim w a) :=
    fun other kept => ⟨fun _ t choice _ same => absurd same (other t choice),fun _ => kept⟩
  cases World.step_moves moved with
  | call t sender method fresh =>
    refine others (fun _ _ => Action.noConfusion) fun current now capture => ?_
    obtain ⟨u,user,client,owns,rest⟩ := inFlight current now capture
    have other : u ≠ t := fun same => by
      rw [same,fresh] at owns
      cases owns
    refine ⟨u,user,client,?_⟩
    rw [World.spawn,World.threads_setThread_other other]
    exact ⟨owns,rest⟩
  | step t choice turn taken => exact inFlight_turn coherent inFlight taken
  | leave name present => exact others (fun _ _ => Action.noConfusion) inFlight
  | disconnect name rest signals =>
    refine others (fun _ _ => Action.noConfusion) ?_
    by_cases claims : w.device.state.claimSender = some name
    · refine .idle (?_ : (w.device.state.handleClientDisconnect name).action = none)
      rw [DeviceState.handleClientDisconnect,if_pos claims]
      rfl
    · exact inFlight.congr (if_neg claims) (fun _ => rfl) fun _ => rfl
  | progress r rest msg queue forwarded =>
    exact others (fun _ _ => Action.noConfusion)
      (inFlight.congr rfl (fun _ => World.stage_setThread rfl) fun _ => World.sender_setThread rfl)
  | serve r rest executed changed queue effect =>
    exact others (fun _ _ => Action.noConfusion)
      (inFlight.congr rfl (fun _ => World.stage_setThread rfl) fun _ => World.sender_setThread rfl)

end

/-- Along a run a capture under way always belongs to the current claim if and only if every start
handler mints its token under the claim that it checked. -/
theorem capture_claim_iff (threshold : UInt16) (storage : Storage) (templates : UInt8 → Option Owner)
    (actions : List Action) :
    Along World.step (fun _ _ v => InFlight v) (.boot threshold storage templates) actions ↔
      Along World.step (fun w a _ => MintsUnderClaim w a) (.boot threshold storage templates) actions :=
  along_exact Coherent InFlight MintsUnderClaim (fun _ _ _ coherent moved => coherent.step moved)
    (fun _ _ _ coherent inFlight moved => inFlight_step coherent inFlight moved) _ actions
    (.boot threshold storage templates) (.idle rfl)

/-- The claim is released between the two locks of `verify_start`. -/
def releasedRun : List Action :=
  [.call 0 (ascii ":1.7") (.claim []),.step 0 (.authorized (.ok (1000,some (ascii "mat"))) (.ok false)),.step 0 .go,
    .call 1 (ascii ":1.7") (.verifyStart (ascii "any")),.step 1 .go,.call 2 (ascii ":1.7") .release,.step 2 .go,
    .step 1 .go,.step 1 .go]

theorem capture_without_claim :
    ∃ w, run World.step (.boot 50 .oneRow fun _ => none) releasedRun = some w ∧ ¬ InFlight w := by
  have state : (run World.step (.boot 50 .oneRow fun _ => none) releasedRun).map
      (fun w => (w.device.state.action,w.device.state.claimedBy)) = some (some ⟨.verify,0⟩,none) := by decide +kernel
  obtain ⟨w,ran,same⟩ := Option.map_eq_some_iff.mp state
  obtain ⟨action,unclaimed⟩ := Prod.mk.inj same
  refine ⟨w,ran,fun inFlight => ?_⟩
  obtain ⟨_,_,_,_,_,_,holder,_⟩ := inFlight _ action ActionKind.noConfusion
  rw [unclaimed] at holder
  cases holder

end R503.Fprint
