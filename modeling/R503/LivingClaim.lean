import R503.DeviceInvariant

/-! Whether the claim is that of a client still on the bus. `claim` resolves and authorises its
caller before it takes the lock, and the watcher handles each disconnect once. -/
namespace R503.Fprint

open Text Transition

/-- The claimer is on the bus, or the watcher has yet to hear that it left. -/
def Attended (w : World) : Prop :=
  ∀ client, w.device.state.claimSender = some client → client ∉ w.gone ∨ client ∈ w.unheard

/-- A claim that is installed now is that of such a client. -/
def ClaimsAttended (w : World) (a : Action) : Prop :=
  ∀ t choice user client, a = .step t choice → (w.threads t).stage = .claim user →
    (w.threads t).sender = some client →
    (w.device.state.claimedBy = none ∨ w.device.state.claimedBy = some user ∧ w.device.state.action = none) →
    client ∉ w.gone ∨ client ∈ w.unheard

def Stage.claims : Stage → Option Bytes
  | .claim user => some user
  | _ => none

theorem Stage.claims_iff {stage : Stage} {user : Bytes} : stage.claims = some user ↔ stage = .claim user := by
  constructor
  · intro found
    unfold claims at found
    split at found
    · rw [Option.some.inj found]
    · cases found
  · rintro rfl
    rfl

theorem claimsAttended_step {w : World} {t : Tid} {choice : Choice} :
    (∀ user ∈ (w.threads t).stage.claims,∀ client ∈ (w.threads t).sender,
      w.device.state.claimedBy = none ∨ w.device.state.claimedBy = some user ∧ w.device.state.action = none →
      client ∉ w.gone ∨ client ∈ w.unheard) ↔ ClaimsAttended w (.step t choice) := by
  constructor
  · intro attended u _ user client same here
    obtain ⟨rfl,rfl⟩ := Action.step.inj same
    exact attended user (Stage.claims_iff.mpr here) client
  · exact fun attended user here client => attended t choice user client rfl (Stage.claims_iff.mp here)

instance (w : World) : (a : Action) → Decidable (ClaimsAttended w a)
  | .step _ _ => decidable_of_iff _ claimsAttended_step
  | .call _ _ _ | .leave _ | .disconnect | .progress _ | .serve _ _ => isTrue nofun

/-- No `Claim` handler runs and every disconnect has been handled. -/
structure Settled (w : World) : Prop where
  claims : ∀ t, (∀ username, (w.threads t).stage ≠ .entry (.claim username)) ∧
    ∀ user, (w.threads t).stage ≠ .claim user
  heard : w.unheard = []

section
variable {w v : World} (attended : Attended w)
include attended

theorem Attended.turn {t : Tid} {choice : Choice} {turn : Turn}
    (allowed : turn.Allowed t w.device (w.threads t) choice) (met : ClaimsAttended w (.step t choice)) :
    Attended (w.commit t turn) := by
  intro client claims
  have now : turn.device.state.claimSender = some client := claims
  rcases allowed.state with ⟨_,_,same,_⟩ | ⟨_,_,minted,_,_,_⟩ | ⟨_,_,_,cleared,_⟩ | ⟨_,_,_,_,_,cleared,_⟩ |
    ⟨_,_,_,dropped,_⟩ | ⟨user,here,free,installed,_⟩
  · exact attended client (same.symm.trans now)
  · rw [minted] at now
    exact attended client now
  · rw [cleared] at now
    exact attended client now
  · rw [cleared] at now
    exact attended client now
  · rw [dropped] at now
    cases now
  · rw [installed] at now
    exact met t choice user client rfl here now free

theorem Attended.step {a : Action} (coherent : Coherent w) (met : ClaimsAttended w a) (moved : w.step a = some v) :
    Attended v := by
  cases World.step_moves moved with
  | call t sender method fresh => exact attended
  | step t choice turn taken => exact attended.turn (Stage.turn_allowed (coherent.kinded t) taken) met
  | leave name present =>
    intro client claims
    by_cases same : client = name
    · exact .inr (List.mem_append_right _ (List.mem_singleton.mpr same))
    · rcases attended client claims with here | signal
      · exact .inl fun member => (List.mem_cons.mp member).elim same here
      · exact .inr (List.mem_append_left _ signal)
  | disconnect name rest signals =>
    intro client claims
    have now : (w.device.state.handleClientDisconnect name).claimSender = some client := claims
    unfold DeviceState.handleClientDisconnect at now
    split at now
    · cases now
    next other =>
      have gone : client ≠ name := fun same => other (same ▸ now)
      rcases attended client now with here | signal
      · exact .inl here
      · rw [signals] at signal
        exact .inr ((List.mem_cons.mp signal).resolve_left gone)
  | progress r rest msg queue forwarded => exact attended
  | serve r rest executed changed queue effect => exact attended

end

/-- In every run in which no claim is installed for a client whose disconnect was already handled,
the claimer is still connected once no `Claim` runs and every disconnect is handled. -/
theorem living_claim (threshold : UInt16) (storage : Storage) (templates : UInt8 → Option Owner)
    (actions : List Action) (w : World) (ran : run World.step (.boot threshold storage templates) actions = some w)
    (met : Along World.step (fun w a _ => ClaimsAttended w a) (.boot threshold storage templates) actions)
    (settled : Settled w) :
    w.device.state.claimSender = none ∨ ∃ client, w.device.state.claimSender = some client ∧ client ∉ w.gone := by
  have attended : Coherent w ∧ Attended w := by
    refine along_invariant (fun w => Coherent w ∧ Attended w) (fun w a _ => ClaimsAttended w a)
      (fun u a v good met moved => ⟨good.1.step moved,good.2.step good.1 met moved⟩) _ w actions
      ⟨.boot threshold storage templates,fun _ claims => ?_⟩ met ran
    cases claims
  cases claims : w.device.state.claimSender with
  | none => exact .inl rfl
  | some client =>
    refine .inr ⟨client,rfl,(attended.2 client claims).resolve_right ?_⟩
    rw [settled.heard]
    exact List.not_mem_nil

/-- The claimer leaves and the watcher handles it; then a client claims that stays. -/
def succeededRun : List Action :=
  [.call 0 (ascii ":1.7") (.claim []),.step 0 (.authorized (.ok (1000,some (ascii "mat"))) (.ok false)),.step 0 .go,
    .leave (ascii ":1.7"),.disconnect,
    .call 1 (ascii ":1.8") (.claim []),.step 1 (.authorized (.ok (1000,some (ascii "mat"))) (.ok false)),.step 1 .go]

/-- The client leaves while its claim is being authorised. -/
def lateRun : List Action :=
  [.call 0 (ascii ":1.7") (.claim []),.step 0 (.authorized (.ok (1000,some (ascii "mat"))) (.ok false)),
    .leave (ascii ":1.7"),.disconnect,.step 0 .go]

theorem finished_settled {boot w : World} {actions : List Action} (idle : ∀ t, (boot.threads t).stage = .idle)
    (ran : run World.step boot actions = some w)
    (finished : ∀ a ∈ actions, ∀ t sender method, a = .call t sender method → (w.threads t).stage = .finished)
    (heard : w.unheard = []) : Settled w := by
  refine ⟨fun t => ?_,heard⟩
  by_cases ended : (w.threads t).stage = .finished
  · rw [ended]
    exact ⟨fun _ => Stage.noConfusion,fun _ => Stage.noConfusion⟩
  · rw [World.idle_run (idle t) (fun a member sender method same => ended (finished a member t sender method same)) ran]
    exact ⟨fun _ => Stage.noConfusion,fun _ => Stage.noConfusion⟩

theorem living_claim_succeeded : ∃ w, run World.step (.boot 50 .oneRow fun _ => none) succeededRun = some w ∧
    w.gone = [ascii ":1.7"] ∧ (w.device.state.claimSender = none ∨
      ∃ client, w.device.state.claimSender = some client ∧ client ∉ w.gone) := by
  have result : (run World.step (.boot 50 .oneRow fun _ => none) succeededRun).map
      (fun w => ((w.threads 0).stage,(w.threads 1).stage,w.unheard,w.gone)) =
        some (.finished,.finished,[],[ascii ":1.7"]) := rfl
  obtain ⟨w,ran,same⟩ := Option.map_eq_some_iff.mp result
  obtain ⟨first,rest⟩ := Prod.mk.inj same
  obtain ⟨second,rest⟩ := Prod.mk.inj rest
  obtain ⟨heard,gone⟩ := Prod.mk.inj rest
  exact ⟨w,ran,gone,living_claim 50 .oneRow (fun _ => none) succeededRun w ran (by decide +kernel)
    (finished_settled (fun _ => rfl) ran (by simp [succeededRun,first,second]) heard)⟩

theorem claim_of_the_gone : ∃ w, run World.step (.boot 50 .oneRow fun _ => none) lateRun = some w ∧ Settled w ∧
    ¬ (w.device.state.claimSender = none ∨
      ∃ client, w.device.state.claimSender = some client ∧ client ∉ w.gone) := by
  have result : (run World.step (.boot 50 .oneRow fun _ => none) lateRun).map
      (fun w => ((w.threads 0).stage,w.unheard,w.device.state.claimSender,w.gone)) =
        some (.finished,[],some (ascii ":1.7"),[ascii ":1.7"]) := rfl
  obtain ⟨w,ran,same⟩ := Option.map_eq_some_iff.mp result
  obtain ⟨finished,rest⟩ := Prod.mk.inj same
  obtain ⟨heard,rest⟩ := Prod.mk.inj rest
  obtain ⟨claims,gone⟩ := Prod.mk.inj rest
  refine ⟨w,ran,finished_settled (fun _ => rfl) ran (by simp [lateRun,finished]) heard,?_⟩
  rw [claims,gone]
  simp

end R503.Fprint
