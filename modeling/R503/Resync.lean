import R503.Keystore
import R503.PairingLink

/-! `--resync` (pairing.rs): the counter on disk is rewritten from a `status` reply that
carries no tag, between runs of the daemon. -/
namespace R503.Host

open Text

inductive ResyncError where
  | loadingKey (e : KeyError)
  | noKey
  | port
  | timeout
  | status (e : StatusError)
  | notPaired
  | ceilingBand (counter : UInt64)
  | loadingState (e : StateError)
  | file (e : FileError)
  deriving DecidableEq

def resyncTarget (reportedLastSeen : UInt64) : Except ResyncError UInt64 :=
  if reportedLastSeen ≥ counterCeiling - 1 then .error (.ceilingBand reportedLastSeen)
  else .ok (reportedLastSeen + 1)

structure ResyncIo where
  /-- The result of `load_key_with_source`. -/
  loaded : Except KeyError (Option (Key × KeySource))
  port : Bool
  /-- The line that arrives as the answer to `status`, from whoever is on the wire. -/
  reply : Option Bytes
  stateReadable : Bool
  stateWrite : WriteIo

/-- What `run_resync` does up to the load of the old counter. -/
def resyncCounter (io : ResyncIo) : Except ResyncError UInt64 :=
  match io.loaded with
  | .error e => .error (.loadingKey e)
  | .ok none => .error .noKey
  | .ok (some _) =>
    if ¬ io.port then .error .port
    else match io.reply with
      | none => .error .timeout
      | some line =>
        match parseStatus line with
        | .error e => .error (.status e)
        | .ok fw =>
          if ¬ fw.paired then .error .notPaired
          else resyncTarget fw.counter

def runResync (io : ResyncIo) (state : Option StateFile) : Option StateFile × Except ResyncError Unit :=
  match resyncCounter io with
  | .error e => (state,.error e)
  | .ok newCounter =>
    match stateLoad io.stateReadable state with
    | .error e => (state,.error (.loadingState e))
    | .ok _ =>
      match atomicWrite io.stateWrite with
      | .error e => (state,.error (.file e))
      | .ok () => (some (savedState newCounter),.ok ())

/-- The counter a resync that nothing stops takes over, given a state file that was saved. -/
def acceptedReport (io : ResyncIo) : Option UInt64 :=
  match io.loaded,io.reply.map parseStatus with
  | .ok (some _),some (.ok fw) =>
    if io.port ∧ fw.paired ∧ fw.counter < counterCeiling - 1 ∧ io.stateReadable ∧ io.stateWrite.Fine then
      some fw.counter
    else none
  | _,_ => none

theorem stateLoad_saved (n : UInt64) (readable : Bool) : stateLoad readable (some (savedState n)) =
    if readable then .ok (some n) else .error .io := by
  cases readable <;> simp [stateLoad,savedState]

theorem acceptedReport_some (io : ResyncIo) (r : UInt64) (accepted : acceptedReport io = some r) :
    ∃ found line fw, io.loaded = .ok (some found) ∧ io.reply = some line ∧ parseStatus line = .ok fw ∧
      io.port ∧ fw.paired ∧ fw.counter = r ∧ r < counterCeiling - 1 ∧ io.stateReadable ∧ io.stateWrite.Fine := by
  unfold acceptedReport at accepted
  split at accepted
  next found fw loaded parsed =>
    obtain ⟨line,reply,parsed⟩ := Option.map_eq_some_iff.mp parsed
    split at accepted
    next conditions =>
      obtain ⟨port,paired,below,readable,fine⟩ := conditions
      obtain rfl := Option.some.inj accepted
      exact ⟨found,line,fw,loaded,reply,parsed,port,paired,rfl,below,readable,fine⟩
    · cases accepted
  · cases accepted

/-- A new counter comes from a report of a paired Nano below the reserved band. -/
theorem resyncCounter_ok {io : ResyncIo} {n : UInt64} (given : resyncCounter io = .ok n) :
    ∃ found line fw, io.loaded = .ok (some found) ∧ io.port ∧ io.reply = some line ∧ parseStatus line = .ok fw ∧
      fw.paired ∧ fw.counter < counterCeiling - 1 ∧ n = fw.counter + 1 := by
  unfold resyncCounter at given
  split at given
  · cases given
  · cases given
  next found loaded =>
    split at given
    · cases given
    next port =>
      split at given
      · cases given
      next line reply =>
        split at given
        · cases given
        next fw parsed =>
          split at given
          · cases given
          next paired =>
            unfold resyncTarget at given
            split at given
            · cases given
            next below =>
              exact ⟨found,line,fw,loaded,not_not.mp port,reply,parsed,not_not.mp paired,not_le.mp below,
                (Except.ok.inj given).symm⟩

/-- A resync takes over the reported counter plus one. -/
theorem runResync_accepted (io : ResyncIo) (n r : UInt64) (accepted : acceptedReport io = some r) :
    runResync io (some (savedState n)) = (some (savedState (r + 1)),.ok ()) := by
  obtain ⟨found,line,fw,loaded,reply,parsed,port,paired,rfl,below,readable,fine⟩ :=
    acceptedReport_some io r accepted
  have target : resyncTarget fw.counter = .ok (fw.counter + 1) := if_neg (not_le.mpr below)
  simp only [runResync,resyncCounter,loaded,port,not_true_eq_false,↓reduceIte,reply,parsed,paired,target,
    stateLoad_saved,readable,atomicWrite_fine _ fine]

/-- Or it fails and leaves the file. -/
theorem runResync_refused (io : ResyncIo) (n : UInt64) (refused : acceptedReport io = none) :
    ∃ e, runResync io (some (savedState n)) = (some (savedState n),.error e) := by
  unfold runResync
  cases given : resyncCounter io with
  | error e => exact ⟨e,rfl⟩
  | ok newCounter =>
    obtain ⟨found,line,fw,loaded,port,reply,parsed,paired,below,rfl⟩ := resyncCounter_ok given
    have unfit : ¬ (io.stateReadable ∧ io.stateWrite.Fine) := by
      intro fit
      simp only [acceptedReport,loaded,reply,Option.map_some,parsed,port,paired,below,fit,and_self,
        ↓reduceIte] at refused
      cases refused
    rw [stateLoad_saved]
    cases readable : io.stateReadable with
    | false => exact ⟨_,rfl⟩
    | true =>
      obtain ⟨e,failed⟩ := atomicWrite_fails io.stateWrite fun fine => unfit ⟨readable,fine⟩
      exact ⟨.file e,by simp [failed]⟩

/-! ### Runs with resyncs between daemon runs -/

inductive RecoveryAction where
  | daemon (action : DaemonAction)
  | resync (io : ResyncIo)

/-- Loads succeed. The serial port is exclusive, so while the daemon runs a resync cannot
open it. -/
def recoveryStep (d : Daemon) : RecoveryAction → Option Daemon
  | .daemon a => match a with
    | .reopen (some _) => none
    | a => d.step a
  | .resync io =>
    if d.client = none ∨ io.port = false then
      match runResync io (some (savedState d.disk)) with
      | (some f,_) => some { d with disk := f.nextCmdCounter.getD d.disk }
      | (none,_) => some d
    else none

theorem recoveryStep_daemon (d t : Daemon) (a : DaemonAction)
    (moved : recoveryStep d (.daemon a) = some t) : a.Loads ∧ d.step a = some t := by
  cases a with
  | reopen fault =>
    cases fault with
    | none => exact ⟨trivial,moved⟩
    | some fault => cases moved
  | crash | begin | persist | assign | transmit => exact ⟨trivial,moved⟩

theorem recoveryStep_refused (d t : Daemon) (io : ResyncIo) (refused : acceptedReport io = none)
    (moved : recoveryStep d (.resync io) = some t) : t = d := by
  obtain ⟨e,failed⟩ := runResync_refused io d.disk refused
  simp only [recoveryStep] at moved
  split at moved
  · rw [failed] at moved
    exact (Option.some.inj moved).symm
  · cases moved

theorem recoveryStep_accepted (d t : Daemon) (io : ResyncIo) (r : UInt64)
    (accepted : acceptedReport io = some r) (moved : recoveryStep d (.resync io) = some t) :
    d.client = none ∧ t = { d with disk := r + 1 } := by
  obtain ⟨_,_,_,_,_,_,port,_⟩ := acceptedReport_some io r accepted
  simp only [recoveryStep] at moved
  split at moved
  next free =>
    rw [runResync_accepted io d.disk r accepted] at moved
    refine ⟨free.resolve_right ?_,(Option.some.inj moved).symm⟩
    rw [port]
    decide
  · cases moved

theorem tracks_recovery (d t : Daemon) (a : RecoveryAction) (tracks : Tracks d)
    (moved : recoveryStep d a = some t) : Tracks t := by
  cases a with
  | daemon a =>
    obtain ⟨loads,stepped⟩ := recoveryStep_daemon d t a moved
    exact (tracks_step d t a tracks loads stepped).1
  | resync io =>
    cases accepted : acceptedReport io with
    | none => exact recoveryStep_refused d t io accepted moved ▸ tracks
    | some r =>
      obtain ⟨client,rfl⟩ := recoveryStep_accepted d t io r accepted moved
      have idle := tracks.stopped client
      refine ⟨fun _ c here => ?_,fun f here => ?_,fun _ => idle⟩
      · rw [client] at here
        cases here
      · rw [idle] at here
        cases here

/-! ### Whether a resync moves forward -/

def ResyncForward (d : Daemon) (a : RecoveryAction) (_ : Daemon) : Prop :=
  match a with
  | .daemon _ => True
  | .resync io => ∀ f, runResync io (some (savedState d.disk)) = (some f,.ok ()) →
      ∃ n, f.nextCmdCounter = some n ∧ d.disk ≤ n

def ReportAhead (d : Daemon) (a : RecoveryAction) (_ : Daemon) : Prop :=
  match a with
  | .daemon _ => True
  | .resync io => ∀ r, acceptedReport io = some r → d.disk ≤ r + 1

theorem resyncForward_iff (d t : Daemon) (a : RecoveryAction) : ResyncForward d a t ↔ ReportAhead d a t := by
  cases a with
  | daemon a => exact Iff.rfl
  | resync io =>
    simp only [ResyncForward,ReportAhead]
    cases accepted : acceptedReport io with
    | none =>
      obtain ⟨e,failed⟩ := runResync_refused io d.disk accepted
      simp [failed]
    | some r =>
      rw [runResync_accepted io d.disk r accepted]
      simp [savedState]

theorem ordered_recovery (d t : Daemon) (a : RecoveryAction) (ordered : Ordered d)
    (ahead : ReportAhead d a t) (moved : recoveryStep d a = some t) : Ordered t := by
  cases a with
  | daemon a =>
    obtain ⟨loads,stepped⟩ := recoveryStep_daemon d t a moved
    exact (ordered_step d t a ordered loads stepped).1
  | resync io =>
    have tracks := tracks_recovery d t (.resync io) ordered.toTracks moved
    cases accepted : acceptedReport io with
    | none => exact recoveryStep_refused d t io accepted moved ▸ ordered
    | some r =>
      obtain ⟨_,rfl⟩ := recoveryStep_accepted d t io r accepted moved
      exact ⟨tracks,ordered.increasing,fun p member => lt_of_lt_of_le (ordered.belowDisk p member)
        (ahead r accepted),ordered.belowFlight⟩

/-- No response recorded for an earlier command is taken for a later one. -/
def NoStaleResponse (key : Key) (d : Daemon) : Prop :=
  ∀ before frame after, d.sent = before ++ frame :: after → ∀ old ∈ before, ∀ seq body expectedSeq,
    ∃ e, responseStep key frame.1 expectedSeq (encodeResponse key old.1 seq body) = .fail e

theorem responseStep_other (key : Key) (counter old : UInt64) (seq expectedSeq : UInt32) (body : Bytes)
    (other : old ≠ counter) : responseStep key counter expectedSeq (encodeResponse key old seq body) =
      .fail (.counterMismatch old counter) := by
  have some : encodeResponse key old seq body ≠ [] := by simp [encodeResponse,ascii]
  have leader : (ascii "R ").isPrefixOf (encodeResponse key old seq body) = true := by
    simp [encodeResponse,ascii]
  simp only [responseStep,some,leader,verifyResponse_encodeResponse,not_true_eq_false,↓reduceIte,ne_eq,other,
    not_false_eq_true]

theorem noStale_of_ordered (key : Key) (d : Daemon) (ordered : Ordered d) : NoStaleResponse key d := by
  intro before frame after sent old member seq body expectedSeq
  have increasing := ordered.increasing
  rw [sent,List.pairwise_append] at increasing
  have less := increasing.2.2 old member frame (List.mem_cons_self ..)
  exact ⟨_,responseStep_other key frame.1 old.1 seq expectedSeq body less.ne⟩

/-- In a run of framed sends and resyncs the resyncs move forward exactly when no report is
behind, and then no recorded response is accepted again. -/
theorem resync_forward_iff (key : Key) (n : UInt64) (actions : List RecoveryAction) (d : Daemon)
    (ran : Transition.run recoveryStep (Daemon.saved n) actions = some d) :
    (Transition.Along recoveryStep ResyncForward (Daemon.saved n) actions ↔
      Transition.Along recoveryStep ReportAhead (Daemon.saved n) actions) ∧
    (Transition.Along recoveryStep ReportAhead (Daemon.saved n) actions → NoStaleResponse key d) := by
  constructor
  · exact Transition.along_congr (fun _ => True) _ _ (fun _ => True) _ actions (fun _ _ _ _ _ _ => trivial)
      (fun d a t _ _ _ => resyncForward_iff d t a) trivial fun _ _ => trivial
  · intro ahead
    exact noStale_of_ordered key d (Transition.along_invariant Ordered ReportAhead
      (fun d a t ordered ahead moved => ordered_recovery d t a ordered ahead moved) _ d actions
      (ordered_saved n) ahead ran)

/-- A resync on a host with a key whose file operations succeed, answered with this counter. -/
def forgedResync (counter : UInt64) : RecoveryAction :=
  .resync ⟨.ok (some (Firmware.katKey,.plaintext)),true,some (statusLine true counter),true,.done⟩

theorem acceptedReport_forged (counter : UInt64) (below : counter < counterCeiling - 1) :
    acceptedReport ⟨.ok (some (Firmware.katKey,.plaintext)),true,some (statusLine true counter),true,.done⟩ =
      some counter := by
  have fine : WriteIo.done.Fine := by decide
  simp [acceptedReport,parseStatus_statusLine,below,fine]

/-- While the daemon is stopped the forged counter is taken over. -/
theorem recoveryStep_forged (d : Daemon) (counter : UInt64) (below : counter < counterCeiling - 1)
    (stopped : d.client = none) :
    recoveryStep d (forgedResync counter) = some { d with disk := counter + 1 } := by
  simp only [recoveryStep,forgedResync]
  rw [if_pos (Or.inl stopped),runResync_accepted _ d.disk counter (acceptedReport_forged counter below)]
  rfl

def commands (cmds : List Bytes) : List RecoveryAction :=
  .daemon (.reopen none) :: cmds.flatMap fun cmd => (sendActions cmd).map .daemon

theorem ahead_of_daemon (d : Daemon) (actions : List DaemonAction) :
    Transition.Along recoveryStep ReportAhead d (actions.map .daemon) := by
  induction actions generalizing d with
  | nil => trivial
  | cons a actions ih => exact fun t _ => ⟨trivial,ih t⟩

/-- A truthful resync after a lost `state.json` counter, and a command. -/
theorem resync_forward_seven : ∃ d : Daemon, d.sent = [(7,ascii "count")] ∧
    Transition.Along recoveryStep ResyncForward (Daemon.saved 5)
      (forgedResync 6 :: commands [ascii "count"]) ∧ NoStaleResponse Firmware.katKey d := by
  have forged := recoveryStep_forged (Daemon.saved 5) 6 (by decide) rfl
  have ran : Transition.run recoveryStep (Daemon.saved 5) (forgedResync 6 :: commands [ascii "count"]) =
      some ⟨8,some 8,none,[(7,ascii "count")]⟩ := by
    rw [Transition.run,forged]
    rfl
  have ahead : Transition.Along recoveryStep ReportAhead (Daemon.saved 5)
      (forgedResync 6 :: commands [ascii "count"]) := by
    refine fun t _ => ⟨fun r accepted => ?_,ahead_of_daemon t (.reopen none :: sendActions (ascii "count"))⟩
    obtain rfl := Option.some.inj ((acceptedReport_forged 6 (by decide)).symm.trans accepted)
    decide
  obtain ⟨forward,fresh⟩ := resync_forward_iff Firmware.katKey 5 _ _ ran
  exact ⟨_,rfl,forward.mpr ahead,fresh ahead⟩

/-- A recorded match of counter 1 answers a later verification after a resync back to 0. -/
theorem resync_moves_back :
    (∃ d : Daemon, Transition.run recoveryStep (Daemon.saved 100) [forgedResync 5] = some d ∧ d.disk = 6 ∧
      ¬ Transition.Along recoveryStep ResyncForward (Daemon.saved 100) [forgedResync 5]) ∧
    ∃ d : Daemon, Transition.run recoveryStep (Daemon.saved 1) (commands [ascii "verify",ascii "count"] ++
        .daemon .crash :: forgedResync 0 :: commands [ascii "verify"]) = some d ∧
      d.sent = [(1,ascii "verify"),(2,ascii "count"),(1,ascii "verify")] ∧
      responseStep Firmware.katKey 1 0 (encodeResponse Firmware.katKey 1 0 (ascii "OK match=3 confidence=200")) =
        .done (ascii "OK match=3 confidence=200") ∧
      ¬ NoStaleResponse Firmware.katKey d := by
  have accepted : responseStep Firmware.katKey 1 0
      (encodeResponse Firmware.katKey 1 0 (ascii "OK match=3 confidence=200")) =
        .done (ascii "OK match=3 confidence=200") := by decide +kernel
  constructor
  · refine ⟨{ Daemon.saved 100 with disk := 5 + 1 },?_,rfl,fun forward => ?_⟩
    · rw [Transition.run,recoveryStep_forged (Daemon.saved 100) 5 (by decide) rfl]
      rfl
    · have moved := recoveryStep_forged (Daemon.saved 100) 5 (by decide) rfl
      have ahead := (resyncForward_iff _ _ _).mp (forward _ moved).1
      exact absurd (ahead 5 (acceptedReport_forged 5 (by decide))) (by decide)
  · refine ⟨⟨2,some 2,none,[(1,ascii "verify"),(2,ascii "count"),(1,ascii "verify")]⟩,?_,rfl,accepted,
      fun fresh => ?_⟩
    · refine (Transition.run_append _ _ _ _ _).mpr
        ⟨⟨3,some 3,none,[(1,ascii "verify"),(2,ascii "count")]⟩,rfl,?_⟩
      rw [Transition.run,show recoveryStep _ (.daemon .crash) =
        some ⟨3,none,none,[(1,ascii "verify"),(2,ascii "count")]⟩ from rfl,Option.bind_some,Transition.run,
        recoveryStep_forged _ 0 (by decide) rfl]
      rfl
    · obtain ⟨e,refused⟩ := fresh [(1,ascii "verify"),(2,ascii "count")] (1,ascii "verify") [] rfl
        (1,ascii "verify") (by simp) 0 (ascii "OK match=3 confidence=200") 0
      rw [accepted] at refused
      cases refused

end R503.Host
