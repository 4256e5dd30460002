import R503.DeviceRest
import R503.SensorQueue

/-! Tokens with an epoch: a task whose action was stopped or dropped, and perhaps replaced by another
client's, still ends with `end_action_if_owner`, and never ends an action but its own. -/
namespace R503.Fprint

open Text Transition

/-! ### Epochs -/

section
variable {t : Tid} {d : Device} {thread : Thread} {choice : Choice} {turn : Turn}

@[simp] theorem nextEpoch_progress (s : DeviceState) (msg : Bytes) :
    (updateFingerStateFromProgress s msg).nextEpoch = s.nextEpoch := by
  unfold updateFingerStateFromProgress
  split
  · rfl
  · split <;> rfl

theorem nextEpoch_endAction {s s' : DeviceState} {token : ActionToken} {owner : Bool}
    (ended : s.endActionIfOwner token = (s',owner)) : s'.nextEpoch = s.nextEpoch := by
  cases owner with
  | true => rw [(endActionIfOwner_owner ended).2]; rfl
  | false => rw [(endActionIfOwner_other ended).2]

theorem nextEpoch_claim (s : DeviceState) (sender : Option Bytes) (user : Bytes) :
    (s.claim sender user).1.nextEpoch = s.nextEpoch := by
  unfold DeviceState.claim
  split
  · split
    · rfl
    · split <;> rfl
  · rfl

theorem nextEpoch_release (s : DeviceState) (sender : Option Bytes) : (s.release sender).1.nextEpoch = s.nextEpoch := by
  unfold DeviceState.release
  split
  · rfl
  · split <;> rfl

theorem nextEpoch_stop (s : DeviceState) (kind : ActionKind) : (s.stop kind).1.nextEpoch = s.nextEpoch := by
  unfold DeviceState.stop
  split
  · split <;> rfl
  · rfl

/-- The counter moves only when a token is minted. -/
inductive EpochStep (t : Tid) (s s' : DeviceState) (stage' : Stage) : Prop where
  | same (unchanged : s'.nextEpoch = s.nextEpoch)
  | mint (kind : ActionKind) (free : s.action = none) (minted : s' = s.startAction kind)
      (token : stage'.token = some (s.freshToken kind))

theorem Stage.turn_epoch (taken : thread.stage.turn t d thread choice = some turn) :
    EpochStep t d.state turn.device.state turn.thread.stage := by
  cases here : thread.stage with
  | idle | finished =>
    rw [here] at taken
    cases taken
  | entry method =>
    rw [here] at taken
    revert taken
    change method.turn t d thread choice = some turn → _
    fun_cases Method.turn t d thread choice method
    all_goals
      intro taken
      cases taken
    all_goals first
    | exact .same rfl
    | exact .same (nextEpoch_release _ _)
  | enroll stage =>
    rw [here] at taken
    revert taken
    change stage.turn t d thread choice = some turn → _
    fun_cases EnrollStage.turn t d thread choice stage
    all_goals
      intro taken
      cases taken
    all_goals first
    | exact .same rfl
    | exact .same (nextEpoch_progress _ _)
    | exact .same (nextEpoch_endAction ‹_›)
    | exact .mint .enroll ‹_› rfl rfl
  | verify stage =>
    rw [here] at taken
    revert taken
    change stage.turn t d thread choice = some turn → _
    fun_cases VerifyStage.turn t d thread choice stage
    all_goals
      intro taken
      cases taken
    all_goals first
    | exact .same rfl
    | exact .same (nextEpoch_progress _ _)
    | exact .same (nextEpoch_endAction ‹_›)
    | exact .mint .verify ‹_› rfl rfl
  | delete stage =>
    rw [here] at taken
    revert taken
    change stage.turn t d thread choice = some turn → _
    fun_cases DeleteStage.turn t d thread choice stage
    all_goals
      intro taken
      cases taken
    all_goals first
    | exact .same rfl
    | exact .mint .delete ‹_› rfl rfl
  | claim user =>
    rw [here] at taken
    cases taken
    exact .same (nextEpoch_claim _ _ _)
  | stop kind =>
    rw [here] at taken
    cases taken
    exact .same (nextEpoch_stop _ _)
  | endAction user token reply =>
    rw [here] at taken
    cases taken
    exact .same (@nextEpoch_endAction _ _ token (d.state.endActionIfOwner token).2 rfl)

end

/-! ### Who minted a token -/

def Begins (t : Tid) (token : ActionToken) (_before : List Action) (w : World) (a : Action) : Prop :=
  ∃ choice v, a = .step t choice ∧ w.device.state.action = none ∧ token = w.device.state.freshToken token.kind ∧
    w.step a = some v ∧ v.device.state.action = some token

/-- Every token in use was minted by its thread, and by no other. -/
structure Fresh (start : World) (actions : List Action) (w : World) : Prop where
  counted : w.device.state.nextEpoch.toNat ≤ actions.length
  below : ∀ t token, Took World.step start (Begins t token) actions → token.epoch < w.device.state.nextEpoch
  own : ∀ t token, (w.threads t).stage.token = some token → Took World.step start (Begins t token) actions
  unique : ∀ t u token,
    Took World.step start (Begins t token) actions → Took World.step start (Begins u token) actions → t = u

namespace Fresh

variable {start w v : World} {actions : List Action} {a : Action}

/-- Nothing was minted, and no thread has come by a token. -/
theorem keep (fresh : Fresh start actions w) (ran : run World.step start actions = some w)
    (epoch : v.device.state.nextEpoch = w.device.state.nextEpoch) (silent : ∀ t token, ¬ Begins t token actions w a)
    (tokens : ∀ t token, (v.threads t).stage.token = some token → (w.threads t).stage.token = some token) :
    Fresh start (actions ++ [a]) v := by
  have earlier : ∀ t token, Took World.step start (Begins t token) (actions ++ [a]) →
      Took World.step start (Begins t token) actions := fun t token took =>
    (took.snoc ran).resolve_right (silent t token)
  refine ⟨?_,fun t token took => ?_,fun t token has => ?_,fun t u token first second => ?_⟩
  · rw [epoch,List.length_append]
    exact Nat.le_add_right_of_le fresh.counted
  · rw [epoch]
    exact fresh.below t token (earlier t token took)
  · exact (fresh.own t token (tokens t token has)).later [a]
  · exact fresh.unique t u token (earlier t token first) (earlier u token second)

/-- A thread mints a token that no one had before. -/
theorem mint {t : Tid} {choice : Choice} {kind : ActionKind} (fresh : Fresh start actions w)
    (ran : run World.step start actions = some w) (short : actions.length + 1 < 2 ^ 64)
    (moved : w.step (.step t choice) = some v) (free : w.device.state.action = none)
    (minted : v.device.state = w.device.state.startAction kind)
    (token : (v.threads t).stage.token = some (w.device.state.freshToken kind))
    (others : ∀ u, u ≠ t → (v.threads u).stage = (w.threads u).stage) :
    Fresh start (actions ++ [.step t choice]) v := by
  have small : w.device.state.nextEpoch.toNat + 1 < 2 ^ 64 :=
    Nat.lt_of_le_of_lt (Nat.add_le_add_right fresh.counted 1) short
  have next : v.device.state.nextEpoch.toNat = w.device.state.nextEpoch.toNat + 1 := by
    rw [minted]
    change (w.device.state.nextEpoch + 1).toNat = _
    rw [UInt64.toNat_add,Nat.mod_eq_of_lt]
    · rfl
    · exact small
  have now : Begins t (w.device.state.freshToken kind) actions w (.step t choice) :=
    ⟨choice,v,rfl,free,rfl,moved,by rw [minted]; rfl⟩
  -- the only token this step can mint
  have only : ∀ u given, Begins u given actions w (.step t choice) →
      u = t ∧ given = w.device.state.freshToken kind := by
    rintro u given ⟨_,v',same,_,_,moved',current⟩
    obtain rfl := Option.some.inj (moved.symm.trans moved')
    rw [minted] at current
    exact ⟨(Action.step.inj same).1.symm,(Option.some.inj current).symm⟩
  have new : ∀ u, ¬ Took World.step start (Begins u (w.device.state.freshToken kind)) actions := fun u took =>
    absurd (fresh.below u _ took) (UInt64.lt_irrefl _)
  refine ⟨?_,fun u given took => ?_,fun u given has => ?_,fun u u' given first second => ?_⟩
  · rw [next,List.length_append]
    exact Nat.add_le_add_right fresh.counted 1
  · rw [UInt64.lt_iff_toNat_lt,next]
    rcases took.snoc ran with old | minting
    · exact Nat.lt_succ_of_lt (UInt64.lt_iff_toNat_lt.mp (fresh.below u given old))
    · rw [(only u given minting).2]
      exact Nat.lt_succ_self _
  · by_cases same : u = t
    · subst same
      obtain rfl := Option.some.inj (token.symm.trans has)
      exact .now ran now
    · rw [others u same] at has
      exact (fresh.own u given has).later _
  · rcases first.snoc ran with old | minting
    · rcases second.snoc ran with old' | minting'
      · exact fresh.unique u u' given old old'
      · exact absurd ((only u' given minting').2 ▸ old) (new u)
    · rcases second.snoc ran with old' | minting'
      · exact absurd ((only u given minting).2 ▸ old') (new u')
      · exact (only u given minting).1.trans (only u' given minting').1.symm

/-- A step of a thread either mints or leaves counter and tokens alone. -/
theorem commit {t : Tid} {choice : Choice} {turn : Turn} (fresh : Fresh start actions w)
    (ran : run World.step start actions = some w) (coherent : Coherent w) (short : actions.length + 1 < 2 ^ 64)
    (taken : (w.threads t).stage.turn t w.device (w.threads t) choice = some turn) :
    Fresh start (actions ++ [.step t choice]) (w.commit t turn) := by
  have here : (w.commit t turn).threads t = turn.thread := World.threads_setThread_same
  have there : ∀ u, u ≠ t → (w.commit t turn).threads u = w.threads u := fun u => World.threads_setThread_other
  have moved : w.step (.step t choice) = some (w.commit t turn) := congrArg (Option.map (w.commit t)) taken
  cases Stage.turn_epoch taken with
  | mint kind free minted token =>
    exact fresh.mint ran short moved free minted (here ▸ token) fun u other => congrArg Thread.stage (there u other)
  | same unchanged =>
    have state := (Stage.turn_allowed (coherent.kinded t) taken).state
    have noMint : ∀ kind, turn.device.state ≠ w.device.state.startAction kind := fun kind minted => by
      rw [minted] at unchanged
      exact absurd unchanged (by simp [DeviceState.startAction])
    refine fresh.keep ran unchanged ?_ fun u token has => ?_
    · rintro u token ⟨_,v,_,free,_,moved',current⟩
      obtain rfl := Option.some.inj (moved.symm.trans moved')
      change turn.device.state.action = some token at current
      cases state with
      | same action _ _ _ =>
        rw [action,free] at current
        cases current
      | mint kind _ minted _ _ _ => exact noMint kind minted
      | done _ _ now _ _ | stop _ _ _ now _ _ _ =>
        rw [free] at now
        cases now
      | release _ _ _ dropped _ =>
        rw [dropped] at current
        cases current
      | claim _ _ _ installed _ =>
        rw [installed,free] at current
        cases current
    · by_cases same : u = t
      · subst same
        rw [here] at has
        cases state with
        | same _ _ _ kept =>
          rcases kept with kept | ⟨ended,_⟩
          · exact kept ▸ has
          · rw [ended] at has
            cases has
        | mint kind _ minted _ _ _ => exact absurd minted (noMint kind)
        | done _ _ _ _ gone =>
          rw [gone] at has
          cases has
        | stop _ _ _ _ _ _ ended | release _ _ _ _ ended | claim _ _ _ _ ended =>
          rw [ended] at has
          cases has
      · rw [there u same] at has
        exact has

theorem step (fresh : Fresh start actions w) (ran : run World.step start actions = some w) (coherent : Coherent w)
    (short : actions.length + 1 < 2 ^ 64) (moved : w.step a = some v) : Fresh start (actions ++ [a]) v := by
  have calm : (∀ t choice, a ≠ .step t choice) → v.device.state.nextEpoch = w.device.state.nextEpoch →
      (∀ t token, (v.threads t).stage.token = some token → (w.threads t).stage.token = some token) →
      Fresh start (actions ++ [a]) v := fun other epoch tokens =>
    fresh.keep ran epoch (fun t token ⟨choice,_,same,_⟩ => other t choice same) tokens
  cases World.step_moves moved with
  | call t sender method idle =>
    refine calm (fun _ _ => Action.noConfusion) rfl fun u token has => ?_
    by_cases same : u = t
    · subst same
      rw [World.spawn,World.threads_setThread_same] at has
      cases has
    · rwa [World.spawn,World.threads_setThread_other same] at has
  | step t choice turn taken => exact fresh.commit ran coherent short taken
  | leave name present => exact calm (fun _ _ => Action.noConfusion) rfl fun _ _ => id
  | disconnect name rest signals =>
    refine calm (fun _ _ => Action.noConfusion) ?_ fun _ _ => id
    simp only [World.disconnected,DeviceState.handleClientDisconnect]
    split <;> rfl
  | progress r rest msg queue forwarded =>
    refine calm (fun _ _ => Action.noConfusion) rfl fun u token has => ?_
    have stage : ((w.hear r msg).threads u).stage = (w.threads u).stage := World.stage_setThread rfl
    exact stage ▸ has
  | serve r rest executed changed queue effect =>
    refine calm (fun _ _ => Action.noConfusion) rfl fun u token has => ?_
    have stage : ((w.answer r rest executed changed).threads u).stage = (w.threads u).stage :=
      World.stage_setThread rfl
    exact stage ▸ has

end Fresh

theorem fresh_run {threshold : UInt16} {storage : Storage} {templates : UInt8 → Option Owner} {actions : List Action}
    {w : World} (ran : run World.step (.boot threshold storage templates) actions = some w)
    (short : actions.length < 2 ^ 64) : Fresh (.boot threshold storage templates) actions w := by
  have never : ∀ t token, ¬ Took World.step (.boot threshold storage templates) (Begins t token) [] := by
    rintro t token ⟨before,b,after,_,same,_⟩
    cases before <;> cases same
  refine history_invariant _ (fun actions w => actions.length < 2 ^ 64 → Fresh _ actions w) (fun _ => ?_)
    (fun actions w a v fresh ran moved short => ?_) actions w ran short
  · exact ⟨Nat.le_refl _,fun t token took => absurd took (never t token),(fun _ _ has => by cases has),
      fun t _ token took => absurd took (never t token)⟩
  · rw [List.length_append] at short
    have coherent := (Coherent.boot threshold storage templates).reachable ⟨actions,ran⟩
    exact (fresh (Nat.lt_of_succ_lt short)).step ran coherent short moved

/-- Who may end an action in a step: the one thread that minted its token, a stop method for its kind, or a
release or the disconnect of the client with the claim. -/
inductive Ends (start : World) (actions : List Action) (w : World) (token : ActionToken) : Action → Prop where
  | own (t : Tid) (choice : Choice) (has : (w.threads t).stage.token = some token)
      (minter : ∀ u, Took World.step start (Begins u token) actions ↔ u = t) :
      Ends start actions w token (.step t choice)
  | stop (t : Tid) (choice : Choice) (at_ : (w.threads t).stage = .stop token.kind) :
      Ends start actions w token (.step t choice)
  | release (t : Tid) (choice : Choice) (at_ : (w.threads t).stage = .entry .release)
      (allowed : w.device.state.otherSender (w.threads t).sender = false) : Ends start actions w token (.step t choice)
  | disconnect (name : Bytes) (rest : List Bytes) (signals : w.unheard = name :: rest)
      (claimed : w.device.state.claimSender = some name) : Ends start actions w token .disconnect

/-- In every run too short for the epochs to wrap, no two threads have one token, and an action ends only at the
hands of the thread that began it, of a stop for it, or with its claim; never through a task that outlived
its own action. -/
theorem actions_end_by_owner (threshold : UInt16) (storage : Storage) (templates : UInt8 → Option Owner)
    (actions : List Action) (w : World)
    (ran : run World.step (.boot threshold storage templates) actions = some w) (short : actions.length < 2 ^ 64) :
    (∀ t u token, (w.threads t).stage.token = some token → (w.threads u).stage.token = some token → t = u) ∧
      ∀ a v token, w.step a = some v → w.device.state.action = some token → v.device.state.action ≠ some token →
        v.device.state.action = none ∧ Ends (.boot threshold storage templates) actions w token a := by
  have fresh := fresh_run ran short
  have coherent := (Coherent.boot threshold storage templates).reachable ⟨actions,ran⟩
  refine ⟨fun t u token first second => fresh.unique t u token (fresh.own t token first) (fresh.own u token second),
    fun a v token moved current ended => ?_⟩
  cases World.step_moves moved with
  | step t choice turn taken =>
    change turn.device.state.action ≠ some token at ended
    change turn.device.state.action = none ∧ _
    cases (Stage.turn_allowed (coherent.kinded t) taken).state with
    | same action _ _ _ => exact absurd (action.trans current) ended
    | mint _ free _ _ _ _ =>
      rw [free] at current
      cases current
    | done given own now cleared _ =>
      obtain rfl := Option.some.inj (now.symm.trans current)
      refine ⟨by rw [cleared]; rfl,.own t choice own fun u => ⟨fun took => ?_,?_⟩⟩
      · exact fresh.unique u t given took (fresh.own t given own)
      rintro rfl
      exact fresh.own u given own
    | stop kind given at_ now match_ cleared _ =>
      obtain rfl := Option.some.inj (now.symm.trans current)
      exact ⟨by rw [cleared]; rfl,.stop t choice (match_ ▸ at_)⟩
    | release at_ _ allowed dropped _ => exact ⟨by rw [dropped]; rfl,.release t choice at_ allowed⟩
    | claim _ _ _ installed _ =>
      rw [installed] at ended
      exact absurd current ended
  | disconnect name rest signals =>
    simp only [World.disconnected,DeviceState.handleClientDisconnect] at ended ⊢
    split at ended
    next claimed =>
      rw [if_pos claimed]
      exact ⟨rfl,.disconnect name rest signals claimed⟩
    next => exact absurd current ended
  | _ => exact absurd current ended

/-- A verify that its client is about to stop. -/
def stoppingRun : List Action :=
  claimCall 0 ++ [.call 1 (ascii ":1.7") (.verifyStart (ascii "any")),.step 1 .go,.step 1 .go,.step 1 .go,
    .call 2 (ascii ":1.7") .verifyStop,.step 2 .go]

theorem stoppingRun_stops : ((run World.step (.boot 50 .oneRow fun _ => none) stoppingRun).map fun w =>
    (w.device.state.action,(w.step (.step 2 .go)).map fun v => v.device.state.action)) =
      some (some ⟨.verify,0⟩,some none) := by decide +kernel

theorem actions_end_by_owner_stop :
    ∃ w, Ends (.boot 50 .oneRow fun _ => none) stoppingRun w ⟨.verify,0⟩ (.step 2 .go) := by
  obtain ⟨w,ran,same⟩ := Option.map_eq_some_iff.mp stoppingRun_stops
  obtain ⟨current,next⟩ := Prod.mk.inj same
  obtain ⟨v,moved,ended⟩ := Option.map_eq_some_iff.mp next
  exact ⟨w,((actions_end_by_owner 50 .oneRow (fun _ => none) stoppingRun w ran (by decide)).2 _ v _ moved current
    (by rw [ended]; exact (Option.some_ne_none _).symm)).2⟩

end R503.Fprint
