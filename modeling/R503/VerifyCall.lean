import R503.DeviceThreads

/-! `verify_start` after `ensure_claim`, and the task it spawns. -/
namespace R503.Fprint

open Text

def maxRetries : Nat := 5

/-- `RETRY_BUDGET` in nanoseconds. -/
def retryBudget : Nat := 30 * 10 ^ 9

def expectedSlots (slots : List (Bytes × UInt8)) (user finger : Bytes) : Except FprintError (List UInt8) :=
  if slots = [] then .error (.noEnrolledPrints (ascii "no enrolled prints for " ++ user))
  else if finger = ascii "any" then .ok (slots.map (·.2))
  else match slots.lookup finger with
    | none => .error (.noEnrolledPrints (finger ++ ascii " not enrolled for " ++ user))
    | some slot => .ok [slot]

inductive Verdict where
  | final (status : VerifyStatus)
  | again
  deriving DecidableEq

def isRetryable (code : Bytes) : Bool :=
  code = ascii "timeout" || code = ascii "poor_quality" || (ascii "capture_failed").isPrefixOf code ||
    (ascii "image2tz_failed").isPrefixOf code

/-- What firmware and host timeouts share. -/
def retryOrGiveUp (retries elapsed : Nat) : Verdict :=
  if retries ≥ maxRetries ∨ elapsed > retryBudget then .final .noMatch else .again

def judge (threshold : UInt16) (expected : List UInt8) (retries elapsed : Nat) :
    Except SensorError MatchResult → Verdict
  | .ok ⟨slot,confidence⟩ =>
    .final (if slot ∈ expected ∧ confidence ≥ threshold then .matched else .noMatch)
  | .error (.command code _) =>
    if lowercase code = ascii "no_match" then .final .noMatch
    else if isRetryable (lowercase code) then retryOrGiveUp retries elapsed
    else .final .unknownError
  | .error (.timeout _) => retryOrGiveUp retries elapsed
  | .error e => .final (if isFatalIo e then .disconnected else .unknownError)

theorem judge_again {threshold : UInt16} {expected : List UInt8} {retries elapsed : Nat}
    {result : Except SensorError MatchResult}
    (again : judge threshold expected retries elapsed result = .again) : retries < maxRetries := by
  have budget : ∀ r e, retryOrGiveUp r e = .again → r < maxRetries := by
    intro r e given
    unfold retryOrGiveUp at given
    split at given
    · cases given
    · omega
  unfold judge at again
  split at again
  · cases again
  · split at again
    · cases again
    split at again
    · exact budget _ _ again
    · cases again
  · exact budget _ _ again
  · cases again

theorem judge_matched {threshold : UInt16} {expected : List UInt8} {retries elapsed : Nat}
    {result : Except SensorError MatchResult}
    (matched : judge threshold expected retries elapsed result = .final .matched) :
    ∃ slot confidence, result = .ok ⟨slot,confidence⟩ ∧ slot ∈ expected ∧ threshold ≤ confidence := by
  have noMatch : ∀ r e, retryOrGiveUp r e ≠ .final .matched := by
    intro r e
    unfold retryOrGiveUp
    split <;> simp
  unfold judge at matched
  split at matched
  next slot confidence =>
    split at matched
    next accepted => exact ⟨slot,confidence,rfl,accepted⟩
    next => cases matched
  · split at matched
    · cases matched
    split at matched
    · exact absurd matched (noMatch _ _)
    · cases matched
  · exact absurd matched (noMatch _ _)
  · split at matched <;> cases matched

def VerifyStage.turn (t : Tid) (d : Device) (thread : Thread) (choice : Choice) : VerifyStage → Option Turn
  | .permit user finger =>
    match d.captureSlot with
    | some _ => some (.ret t d thread (.error (.alreadyInUse (ascii "sensor busy with a previous capture"))))
    | none => some (.goto { d with captureSlot := some t } thread (.verify (.mint user finger)) [])
  | .mint user finger =>
    match d.state.action with
    | some busy => some (.ret t d thread (.error (DeviceState.alreadyInProgress busy)))
    | none =>
      -- the state lock is held until the slots are read, so one step does both
      let token := d.state.freshToken .verify
      let d := { d with state := d.state.startAction .verify }
      match expectedSlots (d.storage.getUserSlots user) user finger with
      | .error e => some (.goto d thread (.endAction user token (.error e)) [])
      | .ok expected => some (.goto d thread (.verify (.selected ⟨user,finger,token,expected,0⟩)) [])
  | .selected job => some (.goto d thread (.verify (.hints job)) [.verifyFingerSelected job.finger])
  | .hints job =>
    some (.goto { d with state := d.state.raiseHints } thread (.verify (.check job)) [.returned (.ok ())])
  | .check job =>
    if d.state.action = some job.token then some (.goto d thread (.verify (.send job)) [])
    else some (.goto d thread (.verify (.drain job none)) [])
  | .send job => some (.ask t d thread .verify (.verify (.await job)))
  | .await job =>
    match choice.seen thread.inbox,thread.reply with
    | msg :: rest,_ => some (.goto d { thread with inbox := rest } (.verify (.progress job msg)) [])
    | [],some executed =>
      match judge d.confidenceThreshold job.expected job.retries choice.nanos (verifyReply executed) with
      | .final status => some (.goto d thread (.verify (.drain job (some status))) [.replied executed])
      | .again =>
        some (.goto d thread (.verify (.retry { job with retries := job.retries + 1 })) [.replied executed])
    | [],none => none
  | .progress job msg =>
    some (.goto { d with state := updateFingerStateFromProgress d.state msg } thread (.verify (.await job)) [])
  | .retry job => some (.goto d thread (.verify (.check job)) [.verifyStatus .retryScan false])
  | .drain job status =>
    match choice,thread.inbox with
    | .closed,_ => some (.goto d thread (.verify (.finish job status)) [])
    | _,msg :: rest =>
      some (.goto d { thread with inbox := rest } (.verify (.drainProgress job status msg)) [])
    | _,[] => none
  | .drainProgress job status msg =>
    some (.goto { d with state := updateFingerStateFromProgress d.state msg } thread
      (.verify (.drain job status)) [])
  | .finish job status =>
    match d.state.endActionIfOwner job.token,status with
    | (_,false),_ => some (.finish t d thread [])
    | (s,true),none => some (.finish t { d with state := s } thread [])
    | (s,true),some status => some (.goto { d with state := s } thread (.verify (.emit status)) [])
  | .emit status => some (.finish t d thread [.verifyStatus status true])

end R503.Fprint
