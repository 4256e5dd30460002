import R503.DeviceThreads

/-! `enroll_start` after `ensure_claim`, and the task it spawns. -/
namespace R503.Fprint

open Text

def EnrollStage.turn (t : Tid) (d : Device) (thread : Thread) (choice : Choice) : EnrollStage → Option Turn
  | .permit user finger =>
    match d.captureSlot with
    | some _ => some (.ret t d thread (.error (.alreadyInUse (ascii "sensor busy with a previous capture"))))
    | none => some (.goto { d with captureSlot := some t } thread (.enroll (.mint user finger)) [])
  | .mint user finger =>
    match d.state.action with
    | some busy => some (.ret t d thread (.error (DeviceState.alreadyInProgress busy)))
    | none =>
      some (.goto { d with state := d.state.startAction .enroll } thread
        (.enroll (.lookup user finger (d.state.freshToken .enroll))) [])
  | .lookup user finger token =>
    match d.storage.getSlot user finger with
    -- a finger enrolled before keeps its slot
    | some slot => some (.goto d thread (.enroll (.hints ⟨user,finger,slot,token⟩)) [])
    | none => some (.goto d thread (.enroll (.allocate user finger token)) [])
  | .allocate user finger token =>
    match d.storage.allocateSlot with
    | some slot => some (.goto d thread (.enroll (.hints ⟨user,finger,slot,token⟩)) [])
    | none => some (.goto d thread (.enroll (.full user token)) [])
  | .full user token => some (.goto d thread (.endAction user token (.ok ())) [.enrollStatus .dataFull true])
  | .hints job =>
    some (.goto { d with state := d.state.raiseHints } thread (.enroll (.send job)) [.returned (.ok ())])
  | .send job => some (.ask t d thread (.enroll job.slot job.owner) (.enroll (.await job)))
  | .await job =>
    match choice.seen thread.inbox,thread.reply with
    | msg :: rest,_ => some (.goto d { thread with inbox := rest } (.enroll (.progress job msg)) [])
    | [],some executed =>
      some (.goto d thread (.enroll (.drain job (enrollReply executed))) [.replied executed])
    | [],none => none
  | .progress job msg =>
    let d := { d with state := updateFingerStateFromProgress d.state msg }
    if isRemoveFinger msg then some (.goto d thread (.enroll (.stagePassed job)) [])
    else some (.goto d thread (.enroll (.await job)) [])
  | .stagePassed job => some (.goto d thread (.enroll (.await job)) [.enrollStatus .stagePassed false])
  | .drain job result =>
    match choice,thread.inbox with
    | .closed,_ => some (.goto d thread (.enroll (.finish job result)) [])
    | _,msg :: rest =>
      some (.goto d { thread with inbox := rest } (.enroll (.drainProgress job result msg)) [])
    | _,[] => none
  | .drainProgress job result msg =>
    some (.goto { d with state := updateFingerStateFromProgress d.state msg } thread
      (.enroll (.drain job result)) [])
  | .finish job result =>
    match d.state.endActionIfOwner job.token,result with
    | (_,false),_ => some (.finish t d thread [])
    | (s,true),.ok _ => some (.goto { d with state := s } thread (.enroll (.store job)) [])
    | (s,true),.error e =>
      some (.goto { d with state := s } thread
        (.enroll (.emit (if isFatalIo e then .disconnected else .failed))) [])
  | .store job =>
    some (.goto { d with storage := d.storage.setSlot job.user job.finger job.slot } thread (.enroll .save) [])
  | .save =>
    match choice with
    | .saved none => some (.goto d thread (.enroll (.emit .completed)) [])
    | .saved (some _) => some (.goto d thread (.enroll (.emit .failed)) [])
    | _ => none
  | .emit status => some (.finish t d thread [.enrollStatus status true])

end R503.Fprint
