import R503.PairingFlows
import R503.Resync

/-! How far a resync may move the counter up: the room left below the ceiling is what later
commands, `unpair` included, have to live on. -/
namespace R503.Host

open Text

/-- No command is refused with `CounterExhausted`, and `--unpair` passes its ceiling check. -/
structure Usable (d : Daemon) : Prop where
  below : d.disk < counterCeiling
  commands : ∀ c, d.inFlight = none → d.client = some c → advanceCounter c ≠ .error .counterExhausted

def StaysUsable (_ : Daemon) (_ : RecoveryAction) (t : Daemon) : Prop := Usable t

def RecoveryAction.persists : RecoveryAction → Bool
  | .daemon a => a.persists
  | .resync _ => false

/-- Commands persisted before the next resync that takes over a report. -/
def sendsUntilResync : List RecoveryAction → Nat
  | [] => 0
  | .daemon a :: rest => a.persists.toNat + sendsUntilResync rest
  | .resync io :: rest => if (acceptedReport io).isSome then 0 else sendsUntilResync rest

/-- Every report taken over leaves room for the commands that follow it. -/
def Headroom : List RecoveryAction → Prop
  | [] => True
  | .daemon _ :: rest => Headroom rest
  | .resync io :: rest => (∀ r, acceptedReport io = some r →
      r.toNat + 1 + sendsUntilResync rest < counterCeiling.toNat) ∧ Headroom rest

theorem usable_iff (d : Daemon) (tracks : Tracks d) : Usable d ↔ d.disk.toNat < counterCeiling.toNat := by
  rw [← UInt64.lt_iff_toNat_lt]
  refine ⟨Usable.below,fun below => ⟨below,fun c idle client exhausted => ?_⟩⟩
  obtain rfl := tracks.client idle c client
  rw [advanceCounter,if_neg (not_le.mpr below)] at exhausted
  cases exhausted

theorem sendsUntilResync_le (actions : List RecoveryAction) :
    sendsUntilResync actions ≤ actions.countP RecoveryAction.persists := by
  induction actions with
  | nil => exact le_rfl
  | cons a actions ih =>
    cases a with
    | daemon a =>
      rw [sendsUntilResync,List.countP_cons]
      cases persists : a.persists with
      | false => simpa [RecoveryAction.persists,persists] using ih
      | true =>
        simp only [RecoveryAction.persists,persists,Bool.toNat_true,↓reduceIte]
        omega
    | resync io =>
      rw [sendsUntilResync,List.countP_cons]
      split
      · exact Nat.zero_le _
      · simpa [RecoveryAction.persists] using ih

theorem report_below (io : ResyncIo) (r : UInt64) (accepted : acceptedReport io = some r) :
    r.toNat + 1 < counterCeiling.toNat := by
  obtain ⟨_,_,_,_,_,_,_,_,_,below,_⟩ := acceptedReport_some io r accepted
  have less := UInt64.lt_iff_toNat_lt.mp below
  have last : (counterCeiling - 1).toNat + 1 = counterCeiling.toNat := by decide
  omega

theorem report_succ (io : ResyncIo) (r : UInt64) (accepted : acceptedReport io = some r) :
    (r + 1).toNat = r.toNat + 1 := by
  have below := report_below io r accepted
  have top : counterCeiling.toNat < 2 ^ 64 := by decide
  rw [UInt64.toNat_add]
  exact Nat.mod_eq_of_lt (by simp; omega)

/-- From a state below the ceiling, step by step. -/
theorem staysUsable_iff (d t : Daemon) (actions : List RecoveryAction) (tracks : Tracks d)
    (below : d.disk.toNat < counterCeiling.toNat)
    (ran : Transition.run recoveryStep d actions = some t) :
    Transition.Along recoveryStep StaysUsable d actions ↔
      d.disk.toNat + sendsUntilResync actions < counterCeiling.toNat ∧ Headroom actions := by
  induction actions generalizing d with
  | nil => simpa [Transition.Along,sendsUntilResync,Headroom] using below
  | cons a actions ih =>
    obtain ⟨u,moved,rest⟩ := (Transition.run_cons recoveryStep d t a actions).mp ran
    have tracks' := tracks_recovery d u a tracks moved
    have along : Transition.Along recoveryStep StaysUsable d (a :: actions) ↔
        u.disk.toNat < counterCeiling.toNat ∧ Transition.Along recoveryStep StaysUsable u actions := by
      rw [Transition.Along,moved,← usable_iff u tracks']
      simp [StaysUsable]
    rw [along]
    cases a with
    | daemon a =>
      obtain ⟨loads,stepped⟩ := recoveryStep_daemon d u a moved
      have disk := (tracks_step d u a tracks loads stepped).2
      rw [sendsUntilResync,Headroom]
      constructor
      · rintro ⟨low,usable⟩
        obtain ⟨room,head⟩ := (ih u tracks' low rest).mp usable
        exact ⟨by omega,head⟩
      · rintro ⟨room,head⟩
        have low : u.disk.toNat < counterCeiling.toNat := by omega
        exact ⟨low,(ih u tracks' low rest).mpr ⟨by omega,head⟩⟩
    | resync io =>
      rw [sendsUntilResync,Headroom]
      cases accepted : acceptedReport io with
      | none =>
        obtain rfl := recoveryStep_refused d u io accepted moved
        simp [ih u tracks' below rest,below]
      | some r =>
        obtain ⟨_,rfl⟩ := recoveryStep_accepted d u io r accepted moved
        have disk : (r + 1).toNat = r.toNat + 1 := report_succ io r accepted
        have low : (r + 1).toNat < counterCeiling.toNat := disk ▸ report_below io r accepted
        rw [ih _ tracks' low rest,disk]
        simp [below,disk ▸ low]

/-- On one pairing with at most 2^32 commands the channel stays usable exactly when every
report a resync takes over leaves room for the commands up to the next one. -/
theorem channel_usable_iff (actions : List RecoveryAction) (d : Daemon)
    (few : actions.countP RecoveryAction.persists ≤ 2 ^ 32)
    (ran : Transition.run recoveryStep (Daemon.saved freshCounter) actions = some d) :
    Transition.Along recoveryStep StaysUsable (Daemon.saved freshCounter) actions ↔ Headroom actions := by
  rw [staysUsable_iff _ d actions (tracks_saved _) (by decide) ran]
  refine and_iff_right ?_
  have sends := (sendsUntilResync_le actions).trans few
  exact lt_of_le_of_lt (Nat.add_le_add_left sends 1) (by decide)

theorem run_forged (counter : UInt64) (below : counter < counterCeiling - 1) (actions : List RecoveryAction)
    (d : Daemon) (rest : Transition.run recoveryStep (Daemon.saved (counter + 1)) actions = some d) :
    Transition.run recoveryStep (Daemon.saved freshCounter) (forgedResync counter :: actions) = some d := by
  rw [Transition.run,recoveryStep_forged _ counter below rfl]
  exact rest

theorem channel_usable_six : Transition.Along recoveryStep StaysUsable (Daemon.saved freshCounter)
    (forgedResync 6 :: commands [ascii "count"]) := by
  refine (channel_usable_iff _ ⟨8,some 8,none,[(7,ascii "count")]⟩ (by decide)
    (run_forged 6 (by decide) _ _ rfl)).mpr ⟨fun r accepted => ?_,trivial⟩
  obtain rfl := Option.some.inj ((acceptedReport_forged 6 (by decide)).symm.trans accepted)
  decide

/-- `run_unpair` stops at its check when the counter on disk has reached the ceiling. -/
theorem unpairFramed_ceiling (fromSlice : Bytes → Option UInt64) (io : CliIo) (key : Key) (w : Site) (n : UInt64)
    (state : stateLoadFrom fromSlice io.stateReadable w.files = .ok (some n)) (reached : counterCeiling ≤ n) :
    unpairFramed fromSlice io key w = (w,.error (.fails (.ceiling n))) := by
  have loaded : Fallible.fromExcept
      ((stateLoadFrom fromSlice io.stateReadable w.files).mapError (Halt.map CliError.loadingState)) w =
      (w,.ok (some n)) := by
    rw [state]
    rfl
  rw [unpairFramed,getFiles_bind,Fallible.bind_eq loaded]
  dsimp only
  rw [Fallible.require_bind,Option.getD_some,if_neg (not_lt.mpr reached)]

/-- A report just under the guarded band, and one command: nothing can be sent any more. -/
theorem forged_report_exhausts : ∃ d : Daemon,
    Transition.run recoveryStep (Daemon.saved freshCounter)
      (forgedResync (counterCeiling - 2) :: commands [ascii "count"]) = some d ∧
    d.sent = [(counterCeiling - 1,ascii "count")] ∧ d.client = some counterCeiling ∧
    advanceCounter counterCeiling = .error .counterExhausted ∧
    (∀ fromSlice io key files ee, stateLoadFrom fromSlice io.stateReadable files = .ok (some d.disk) →
      unpairFramed fromSlice io key ⟨files,ee⟩ = (⟨files,ee⟩,.error (.fails (.ceiling counterCeiling)))) ∧
    ¬ Transition.Along recoveryStep StaysUsable (Daemon.saved freshCounter)
      (forgedResync (counterCeiling - 2) :: commands [ascii "count"]) := by
  have ran := run_forged (counterCeiling - 2) (by decide) (commands [ascii "count"])
    ⟨counterCeiling,some counterCeiling,none,[(counterCeiling - 1,ascii "count")]⟩ (by decide +kernel)
  refine ⟨_,ran,rfl,rfl,rfl,fun fromSlice io key files ee state =>
    unpairFramed_ceiling fromSlice io key ⟨files,ee⟩ _ state le_rfl,fun usable => ?_⟩
  have room := ((staysUsable_iff _ _ _ (tracks_saved _) (by decide) ran).mp usable).2.1
  exact absurd (room _ (acceptedReport_forged (counterCeiling - 2) (by decide))) (by decide)

end R503.Host
