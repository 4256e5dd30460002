import R503.FirmwareGate
import R503.HostCounter

/-! Daemon and Nano from a fresh pairing on: the counter on disk stays ahead of the ring
whatever the wire loses, repeats or reorders and whenever either end stops. -/
namespace R503

open Text Host Firmware

structure Wired where
  host : Daemon
  nano : Nano
  /-- Every line that reached the Nano. -/
  delivered : List Bytes

inductive WiredAction where
  | host (action : DaemonAction)
  | deliver (line : Bytes) (lib : Library)
  | tick
  | powerCycle (lib : Library)

/-- Loads succeed, and `execute_framed` is never given the one command that unpairs. -/
def HostAllowed : DaemonAction → Prop
  | .reopen fault => fault = none
  | .begin cmd => cString cmd ≠ ascii "unpair"
  | _ => True

instance : (a : DaemonAction) → Decidable (HostAllowed a)
  | .reopen none => .isTrue rfl
  | .reopen (some _) => .isFalse nofun
  | .begin cmd => inferInstanceAs (Decidable (cString cmd ≠ ascii "unpair"))
  | .crash | .persist _ | .assign | .transmit => .isTrue trivial

/-- The wire has no key: what verifies was sent. -/
def Carried (key : Key) (sent : List (UInt64 × Bytes)) (line : Bytes) : Prop :=
  match verifyCommandFrame key line with
  | .error _ => True
  | .ok frame => frame ∈ sent

instance (key : Key) (sent : List (UInt64 × Bytes)) (line : Bytes) : Decidable (Carried key sent line) :=
  match h : verifyCommandFrame key line with
  | .error _ => .isTrue (by simp [Carried,h])
  | .ok frame => decidable_of_iff (frame ∈ sent) (by simp [Carried,h])

def Wired.step (key : Key) (w : Wired) : WiredAction → Option Wired
  | .host a => if HostAllowed a then (w.host.step a).map fun host => { w with host := host } else none
  | .deliver line lib =>
    if Carried key w.host.sent line then
      (w.nano.step (.receive line lib)).map fun nano =>
        { w with nano := nano, delivered := w.delivered ++ [line] }
    else none
  | .tick => (w.nano.step .tick).map fun nano => { w with nano := nano }
  | .powerCycle lib => (w.nano.step (.powerCycle lib)).map fun nano => { w with nano := nano }

def Wired.paired (e : Eeprom) (key : Key) : Wired :=
  ⟨Daemon.saved freshCounter,justPaired e key,[]⟩

/-- Frames the daemon put on the wire are among those the wire may carry. -/
theorem carried_wireFrame (key : Key) (sent : List (UInt64 × Bytes)) (frame : UInt64 × Bytes)
    (member : frame ∈ sent) : Carried key sent (wireFrame key frame) := by
  unfold Carried
  cases verified : verifyCommandFrame key (wireFrame key frame) with
  | error rc => trivial
  | ok parts =>
    obtain ⟨sameCounter,sameText⟩ := verifyCommandFrame_encodeCommand_inv key _ _ _ _ verified
    rw [show parts = frame from Prod.ext sameCounter sameText]
    exact member

/-! ### The joint invariant -/

/-- Where a commit comes from, and what is not dispatched. -/
def Sourced (key : Key) (sent : List (UInt64 × Bytes)) (delivered : List Bytes) : Effect → Prop
  | .saveCounter c => ∃ line ∈ delivered, ∃ t, verifyCommandFrame key line = .ok (c,t) ∧ (c,t) ∈ sent
  | .dispatch (some _) line => line ≠ ascii "unpair"
  | _ => True

/-- A frame the daemon may send: never counter 0, never `unpair`. -/
def Clean (counter : UInt64) (cmd : Bytes) : Prop := 0 < counter ∧ cString cmd ≠ ascii "unpair"

structure InStep (key : Key) (w : Wired) : Prop where
  ordered : Ordered w.host
  positive : 0 < w.host.disk
  gate : Gate key w.nano
  cleanSent : ∀ p ∈ w.host.sent, Clean p.1 p.2
  cleanFlight : ∀ f, w.host.inFlight = some f → Clean f.counter f.cmd
  sourced : ∀ x ∈ w.nano.trace ++ w.nano.pending, Sourced key w.host.sent w.delivered x

section
variable {key : Key} {sent more : List (UInt64 × Bytes)} {delivered lines : List Bytes}

theorem Sourced.mono {x : Effect} (sourced : Sourced key sent delivered x)
    (frames : ∀ p ∈ sent, p ∈ more) (kept : ∀ l ∈ delivered, l ∈ lines) : Sourced key more lines x := by
  cases x with
  | saveCounter c =>
    obtain ⟨line,there,t,verified,member⟩ := sourced
    exact ⟨line,kept line there,t,verified,frames _ member⟩
  | dispatch counter line => cases counter <;> exact sourced
  | serial | frame | update | sensor => trivial

theorem sourced_quiet {x : Effect} (quiet : x.Quiet) : Sourced key sent delivered x := by
  cases x with
  | saveCounter | update => cases quiet
  | dispatch counter line =>
    cases counter with
    | none => trivial
    | some _ => cases quiet
  | serial | frame | sensor => trivial

theorem noUnpair_of_sourced (trace rest : List Effect)
    (all : ∀ x ∈ trace ++ rest, Sourced key sent delivered x) : NoUnpair trace := by
  intro d member
  obtain ⟨x,there,same⟩ := List.mem_filterMap.mp member
  split at same
  · obtain rfl := Option.some.inj same
    exact all _ (List.mem_append_left _ there)
  · cases same

theorem accepted_sourced (trace rest : List Effect)
    (all : ∀ x ∈ trace ++ rest, Sourced key sent delivered x) (c : UInt64) (member : c ∈ accepted trace) :
    ∃ line ∈ delivered, ∃ t, verifyCommandFrame key line = .ok (c,t) ∧ (c,t) ∈ sent := by
  obtain ⟨x,there,same⟩ := List.mem_filterMap.mp member
  split at same
  · obtain rfl := Option.some.inj same
    exact all _ (List.mem_append_left _ there)
  · cases same

/-- A delivered line only leads to effects with a source. -/
theorem processLine_sourced (e : Eeprom) (lib : Library) (line : Bytes) (gate : Gate key ⟨e,[],trace⟩)
    (carried : Carried key sent line) (clean : ∀ p ∈ sent, Clean p.1 p.2)
    (here : line ∈ delivered) : ∀ x ∈ processLine e lib line, Sourced key sent delivered x := by
  by_cases frame : ∃ ctr inner, Accepted key e line ctr inner
  · obtain ⟨ctr,inner,accepted⟩ := frame
    rw [processLine_accepted key e lib line ctr inner gate.key accepted]
    have member : (ctr,inner) ∈ sent := by
      rw [Carried,accepted.verified] at carried
      exact carried
    refine List.forall_mem_cons.mpr ⟨⟨line,here,inner,accepted.verified,member⟩,?_⟩
    unfold afterCommit
    split
    · simp [Sourced]
    · have paired : eeIsPaired (eeSaveCounter e ctr) = true := by
        rw [eeIsPaired_saveCounter]
        exact paired_of_key e key gate.key
      refine List.forall_mem_cons.mpr ⟨(clean _ member).2,fun x output => ?_⟩
      have still := dispatch_still (eeSaveCounter e ctr) lib _ paired
        (mt (equals_clean (cString_noNul inner)).mp (clean _ member).2)
      exact sourced_quiet (framedOutput_framed key ctr _ _ still x output).isOutput.quiet
  · intro x output
    exact sourced_quiet (gate.unchanged line lib (fun ctr inner accepted => frame ⟨ctr,inner,accepted⟩)
      x output)

end

theorem inStep_start (e : Eeprom) (key : Key) : InStep key (Wired.paired e key) where
  ordered := ordered_saved freshCounter
  positive := (by decide : 0 < freshCounter)
  gate := gate_start e key
  cleanSent _ none := by cases none
  cleanFlight _ none := by cases none
  sourced x member := sourced_quiet (plainOutput_plain _ (println_still _) x member).isOutput.quiet

/-- A step of the daemon keeps what it sent, and sends and starts only clean frames. -/
theorem daemon_step_clean (d t : Daemon) (a : DaemonAction) (allowed : HostAllowed a)
    (ordered : Ordered d) (positive : 0 < d.disk) (cleanSent : ∀ p ∈ d.sent, Clean p.1 p.2)
    (cleanFlight : ∀ f, d.inFlight = some f → Clean f.counter f.cmd) (moved : d.step a = some t) :
    (∀ p ∈ d.sent, p ∈ t.sent) ∧ (∀ p ∈ t.sent, Clean p.1 p.2) ∧
      ∀ f, t.inFlight = some f → Clean f.counter f.cmd := by
  obtain ⟨sent,flight⟩ := daemon_step_frames d t a moved
  have started (g : InFlight) (here : t.inFlight = some g) : Clean g.counter g.cmd := by
    rcases (flight g here).2 with ⟨f,there,counter,cmd⟩ | ⟨idle,client,rfl⟩
    · exact counter ▸ cmd ▸ cleanFlight f there
    · exact ⟨ordered.client idle g.counter client ▸ positive,allowed⟩
  rcases sent with same | ⟨f,here,_,appended⟩
  · exact ⟨fun p member => same ▸ member,fun p member => cleanSent p (same ▸ member),started⟩
  · refine ⟨fun p member => appended ▸ List.mem_append_left _ member,fun p member => ?_,started⟩
    rcases List.mem_append.mp (appended ▸ member) with before | last
    · exact cleanSent p before
    · obtain rfl := List.mem_singleton.mp last
      exact cleanFlight f here

theorem hostAllowed_loads (a : DaemonAction) (allowed : HostAllowed a) : a.Loads := by
  cases a with
  | reopen fault =>
    obtain rfl : fault = none := allowed
    trivial
  | crash | begin | persist | assign | transmit => trivial

/-- A step of the Nano inside the gate, for a wire that has carried `lines`. -/
theorem inStep_nano (key : Key) (w : Wired) (nano : Nano) (a : NanoAction) (lines : List Bytes)
    (inStep : InStep key w) (moved : w.nano.step a = some nano)
    (sourced : ∀ x ∈ nano.trace ++ nano.pending, Sourced key w.host.sent lines x) :
    InStep key { w with nano := nano, delivered := lines } :=
  ⟨inStep.ordered,inStep.positive,
    gate_step key w.nano nano a inStep.gate moved (noUnpair_of_sourced _ _ sourced),
    inStep.cleanSent,inStep.cleanFlight,sourced⟩

theorem inStep_step (key : Key) (w v : Wired) (a : WiredAction) (inStep : InStep key w)
    (moved : w.step key a = some v) : InStep key v := by
  have history (lines : List Bytes) (kept : ∀ l ∈ w.delivered, l ∈ lines) :
      ∀ x ∈ w.nano.trace ++ w.nano.pending, Sourced key w.host.sent lines x := fun x member =>
    (inStep.sourced x member).mono (fun _ there => there) kept
  cases a with
  | host a =>
    simp only [Wired.step] at moved
    split at moved
    next allowed =>
      obtain ⟨host,stepped,rfl⟩ := Option.map_eq_some_iff.mp moved
      obtain ⟨ordered,more⟩ := ordered_step w.host host a inStep.ordered (hostAllowed_loads a allowed) stepped
      obtain ⟨frames,cleanSent,cleanFlight⟩ :=
        daemon_step_clean w.host host a allowed inStep.ordered inStep.positive inStep.cleanSent inStep.cleanFlight stepped
      exact ⟨ordered,lt_of_lt_of_le inStep.positive more,inStep.gate,cleanSent,cleanFlight,
        fun x member => (inStep.sourced x member).mono frames fun _ there => there⟩
    · cases moved
  | deliver line lib =>
    simp only [Wired.step] at moved
    split at moved
    next carried =>
      obtain ⟨nano,stepped,rfl⟩ := Option.map_eq_some_iff.mp moved
      have kept : ∀ l ∈ w.delivered, l ∈ w.delivered ++ [line] := fun _ there => List.mem_append_left _ there
      refine inStep_nano key w nano _ _ inStep stepped fun x member => ?_
      simp only [Nano.step] at stepped
      split at stepped
      next idle =>
        obtain rfl := Option.some.inj stepped
        rcases List.mem_append.mp member with before | output
        · exact history _ kept x (List.mem_append_left _ before)
        · have gate : Gate key ⟨w.nano.ee,[],w.nano.trace⟩ := idle ▸ inStep.gate
          exact processLine_sourced _ lib line gate carried inStep.cleanSent (by simp) x output
      · cases stepped
    · cases moved
  | tick =>
    obtain ⟨nano,stepped,rfl⟩ := Option.map_eq_some_iff.mp moved
    refine inStep_nano key w nano _ _ inStep stepped ?_
    simp only [Nano.step] at stepped
    split at stepped
    · cases stepped
    next y rest next =>
      obtain rfl := Option.some.inj stepped
      intro x member
      refine inStep.sourced x ?_
      rw [next]
      simpa using member
  | powerCycle lib =>
    obtain rfl := Option.some.inj moved
    refine inStep_nano key w _ (.powerCycle lib) _ inStep rfl fun x member => ?_
    rcases List.mem_append.mp member with before | output
    · exact inStep.sourced x (List.mem_append_left _ before)
    · exact sourced_quiet (setup_plain _ lib x output).isOutput.quiet

theorem inStep_run (key : Key) (e : Eeprom) (w : Wired)
    (reached : Transition.Reachable (Wired.step key) (Wired.paired e key) w) : InStep key w :=
  Transition.invariant (InStep key) (fun w a v => inStep_step key w v a) _ w (inStep_start e key) reached

/-! ### No replay refusal for a new frame -/

theorem foldl_max_mem (cs : List UInt64) (c : UInt64) :
    cs.foldl max c = c ∨ cs.foldl max c ∈ cs := by
  induction cs generalizing c with
  | nil => exact Or.inl rfl
  | cons d cs ih =>
    rcases ih (max c d) with same | member
    · rw [List.foldl_cons,same]
      exact (max_choice c d).imp id fun h => by simp [h]
    · exact Or.inr (List.mem_cons_of_mem _ member)

/-- Among framed lines only a verified one at or below the ring is called a replay. -/
theorem replay_stale (key : Key) (e : Eeprom) (lib : Library) (line : Bytes)
    (loaded : eeLoadKey e = some key) (leader : (ascii "C ").isPrefixOf line = true)
    (replay : .serial (ascii "ERR replay") ∈ processLine e lib line) :
    ∃ c t, verifyCommandFrame key line = .ok (c,t) ∧ c ≤ eeLoadCounter e := by
  obtain ⟨notPing,notStatus⟩ := framed_not_plain line leader
  cases verified : verifyCommandFrame key line with
  | error rc =>
    simp only [processLine,notPing,notStatus,paired_of_key e key loaded,leader,loaded,verified,
      not_true_eq_false,↓reduceIte,List.mem_singleton,Effect.serial.injEq] at replay
    exact absurd replay (by cases rc <;> decide)
  | ok frame =>
    obtain ⟨c,t⟩ := frame
    refine ⟨c,t,rfl,?_⟩
    by_contra fresh
    by_cases below : c < Firmware.counterCeiling
    · rw [processLine_accepted key e lib line c t loaded ⟨leader,verified,not_le.mp fresh,below⟩] at replay
      rcases List.mem_cons.mp replay with impossible | after
      · cases impossible
      unfold afterCommit at after
      split at after
      · rw [List.mem_singleton,Effect.serial.injEq] at after
        exact absurd after (by decide)
      rcases List.mem_cons.mp after with impossible | output
      · cases impossible
      rcases emit_all _ _ _ (framerWrite_framed key c) (flushLine_framed key c) (fun _ => trivial) _ _ _
        output with framed | ⟨_,_,_,impossible⟩
      · cases framed
      · cases impossible
    · simp only [processLine,notPing,notStatus,paired_of_key e key loaded,leader,loaded,verified,
        fresh,ge_iff_le,not_lt.mp below,not_true_eq_false,↓reduceIte,List.mem_singleton,
        Effect.serial.injEq] at replay
      exact absurd replay (by decide)

/-- Counters stay in step, and a frame that is new to the Nano is not refused as a replay. -/
structure Synchronised (key : Key) (w : Wired) : Prop where
  aheadOfRing : eeLoadCounter w.nano.ee < w.host.disk
  aheadOfWire : ∀ p ∈ w.host.sent, p.1 < w.host.disk
  /-- Neither this frame nor one sent after it was delivered before. -/
  noReplay : ∀ before frame after, w.host.sent = before ++ frame :: after →
    (∀ line ∈ w.delivered, ∀ q ∈ frame :: after, verifyCommandFrame key line ≠ .ok q) →
      ∀ lib, .serial (ascii "ERR replay") ∉ processLine w.nano.ee lib (wireFrame key frame)

/-- The ring holds 0 or the counter of a delivered frame. -/
theorem ring_delivered (key : Key) (w : Wired) (inStep : InStep key w) :
    eeLoadCounter w.nano.ee = 0 ∨ ∃ line ∈ w.delivered, ∃ t,
      verifyCommandFrame key line = .ok (eeLoadCounter w.nano.ee,t) ∧
        (eeLoadCounter w.nano.ee,t) ∈ w.host.sent := by
  rw [inStep.gate.newest]
  rcases foldl_max_mem (accepted w.nano.trace) 0 with zero | member
  · exact Or.inl zero
  · exact Or.inr (accepted_sourced _ _ inStep.sourced _ member)

theorem counters_synchronised (key : Key) (e : Eeprom) (w : Wired)
    (reached : Transition.Reachable (Wired.step key) (Wired.paired e key) w) : Synchronised key w := by
  have inStep := inStep_run key e w reached
  have ring := ring_delivered key w inStep
  refine ⟨?_,inStep.ordered.belowDisk,fun before frame after sent fresh lib replay => ?_⟩
  · rcases ring with zero | ⟨_,_,t,_,member⟩
    · exact zero ▸ inStep.positive
    · exact inStep.ordered.belowDisk _ member
  · have leader : (ascii "C ").isPrefixOf (wireFrame key frame) = true := by
      simp [wireFrame,encodeCommand,ascii]
    obtain ⟨c,t,verified,stale⟩ := replay_stale key _ lib _ inStep.gate.key leader replay
    obtain ⟨rfl,_⟩ := verifyCommandFrame_encodeCommand_inv key _ _ _ _ verified
    have member : frame ∈ w.host.sent := sent ▸ List.mem_append_right _ (List.mem_cons_self ..)
    rcases ring with zero | ⟨line,there,u,delivered,among⟩
    · exact absurd (inStep.cleanSent frame member).1 (not_lt.mpr (zero ▸ stale))
    · rw [sent] at among
      rcases List.mem_append.mp among with older | newer
      · have increasing := inStep.ordered.increasing
        rw [sent,List.pairwise_append] at increasing
        exact absurd (increasing.2.2 _ older frame (List.mem_cons_self ..)) (not_lt.mpr stale)
      · exact fresh line there _ newer delivered

/-- The daemon may move while nothing else does. -/
theorem reachable_host (key : Key) (w : Wired) (host : Daemon) (actions : List DaemonAction)
    (allowed : ∀ a ∈ actions, HostAllowed a)
    (ran : Transition.run Daemon.step w.host actions = some host) :
    Transition.Reachable (Wired.step key) w { w with host := host } := by
  induction actions generalizing w with
  | nil =>
    obtain rfl := Option.some.inj ran
    exact .refl w
  | cons a actions ih =>
    obtain ⟨d,moved,rest⟩ := (Transition.run_cons _ _ _ a actions).mp ran
    obtain ⟨first,others⟩ := List.forall_mem_cons.mp allowed
    have stepped : w.step key (.host a) = some { w with host := d } := by
      rw [Wired.step,if_pos first,moved]
      rfl
    exact (Transition.Reachable.single _ stepped).trans (ih { w with host := d } others rest)

/-- One frame sent, committed and then cut off from its answer by a power loss. -/
theorem counters_synchronised_count : ∃ w : Wired,
    w.host.sent = [(1,ascii "count")] ∧ eeLoadCounter w.nano.ee = 1 ∧ w.host.disk = 2 ∧
      Synchronised katKey w := by
  let blank : Eeprom := fun _ => 0xFF
  let frame := wireFrame katKey (1,ascii "count")
  let ee := eeSavePairing blank katKey
  let host : Daemon := ⟨2,some 2,none,[(1,ascii "count")]⟩
  have verified : verifyCommandFrame katKey frame = .ok (1,ascii "count") :=
    verifyCommandFrame_encodeCommand katKey 1 _ (by decide) (by decide +kernel)
  have accepted : Accepted katKey ee frame 1 (ascii "count") :=
    ⟨verified_leader _ _ _ _ verified,verified,by rw [eeLoadCounter_savePairing]; decide,by decide⟩
  have sent : Transition.run Daemon.step (Daemon.saved freshCounter)
      (.reopen none :: sendActions (ascii "count")) = some host := rfl
  have sends := reachable_host katKey (Wired.paired blank katKey) host
    (.reopen none :: sendActions (ascii "count")) (by decide) sent
  have answers : Wired.step katKey ⟨host,justPaired blank katKey,[]⟩ .tick =
      some ⟨host,⟨ee,[],[.serial (ascii "OK paired")]⟩,[]⟩ := rfl
  have carried : Carried katKey host.sent frame := carried_wireFrame _ _ _ (by simp [host])
  have delivers : Wired.step katKey ⟨host,⟨ee,[],[.serial (ascii "OK paired")]⟩,[]⟩ (.deliver frame allOk) =
      some ⟨host,⟨ee,.saveCounter 1 :: afterCommit katKey ee allOk 1 (ascii "count"),
        [.serial (ascii "OK paired")]⟩,[frame]⟩ := by
    rw [← processLine_accepted katKey ee allOk frame 1 (ascii "count")
      (eeLoadKey_savePairing blank katKey) accepted]
    simp only [Wired.step,if_pos carried]
    rfl
  have reached := ((sends.trans (.single _ answers)).trans (.single _ delivers)).trans
    ⟨[.tick,.powerCycle allOk],rfl⟩
  refine ⟨_,rfl,?_,rfl,counters_synchronised katKey blank _ reached⟩
  refine eeLoadCounter_saveCounter ee 1 ?_
  rw [eeLoadCounter_savePairing]
  decide

end R503
