import R503.FirmwareMachine

/-! The gate in front of `dispatch`: what a paired Nano accepts, over runs with any
lines and power cycles. The counter commit is one effect, so no cut falls inside it. -/
namespace R503.Firmware

open Text

/-- A verified frame above the last counter and below the ceiling. -/
structure Accepted (key : Key) (e : Eeprom) (line : Bytes) (ctr : UInt64) (inner : Bytes) : Prop where
  leader : (ascii "C ").isPrefixOf line = true
  verified : verifyCommandFrame key line = .ok (ctr,inner)
  fresh : eeLoadCounter e < ctr
  below : ctr < counterCeiling

def afterCommit (key : Key) (e : Eeprom) (lib : Library) (ctr : UInt64) (inner : Bytes) : List Effect :=
  if inner.length ≥ innerBufferSize then [.serial (ascii "ERR frame_body_too_long")]
  else framedDispatch key ctr (eeSaveCounter e ctr) lib (cString inner)

theorem parse_leader (line : Bytes) (parts : UInt64 × Bytes × Bytes)
    (parsed : parseCommandFrame line = .ok parts) : (ascii "C ").isPrefixOf line = true := by
  by_contra other
  unfold parseCommandFrame at parsed
  simp only [other] at parsed
  split at parsed <;> cases parsed

theorem verified_leader (key : Key) (line : Bytes) (ctr : UInt64) (inner : Bytes)
    (verified : verifyCommandFrame key line = .ok (ctr,inner)) : (ascii "C ").isPrefixOf line = true := by
  obtain ⟨_,parsed,_⟩ := (verifyCommandFrame_ok_iff _ _ _ _).mp verified
  exact parse_leader line _ parsed

theorem framed_not_plain (line : Bytes) (leader : (ascii "C ").isPrefixOf line = true) :
    ¬ equals line "ping" ∧ ¬ equals line "status" := by
  have other (word : String) (differs : ¬ (ascii "C ").isPrefixOf (ascii word) = true) : ¬ equals line word :=
    fun same => differs (same.begins leader (by decide))
  exact ⟨other "ping" (by decide),other "status" (by decide)⟩

theorem paired_of_key (e : Eeprom) (key : Key) (loaded : eeLoadKey e = some key) :
    eeIsPaired e = true := by
  rw [← eeLoadKey_isSome,loaded]
  rfl

/-- An accepted frame is committed first, whatever follows. -/
theorem processLine_accepted (key : Key) (e : Eeprom) (lib : Library) (line : Bytes) (ctr : UInt64)
    (inner : Bytes) (loaded : eeLoadKey e = some key) (accepted : Accepted key e line ctr inner) :
    processLine e lib line = .saveCounter ctr :: afterCommit key e lib ctr inner := by
  obtain ⟨notPing,notStatus⟩ := framed_not_plain line accepted.leader
  have paired := paired_of_key e key loaded
  simp only [processLine,notPing,notStatus,paired,accepted.leader,loaded,accepted.verified,
    not_true_eq_false,↓reduceIte,not_le.mpr accepted.fresh,ge_iff_le,not_le.mpr accepted.below,
    afterCommit]

/-- Any other line only prints, unless `strcmp` takes it for `status`. -/
theorem processLine_refused (key : Key) (e : Eeprom) (lib : Library) (line : Bytes)
    (loaded : eeLoadKey e = some key) (notStatus : ¬ equals line "status")
    (refused : ∀ ctr inner, ¬ Accepted key e line ctr inner) :
    ∀ x ∈ processLine e lib line, x.IsPlain := by
  have one (text : Bytes) : ∀ x ∈ [Effect.serial text], x.IsPlain := by
    intro x member
    obtain rfl := List.mem_singleton.mp member
    trivial
  have paired := paired_of_key e key loaded
  unfold processLine
  refine iteInduction (motive := fun out => ∀ x ∈ out, Effect.IsPlain x) (fun _ => one _) fun notPing => ?_
  rw [if_neg notStatus,if_neg (by simp [paired])]
  refine iteInduction (motive := fun out => ∀ x ∈ out, Effect.IsPlain x) (fun _ => one _) fun leader => ?_
  rw [not_not] at leader
  rw [loaded]
  dsimp only
  cases verified : verifyCommandFrame key line with
  | error rc => exact one _
  | ok parts =>
    obtain ⟨ctr,inner⟩ := parts
    dsimp only
    split
    · exact one _
    next fresh =>
      split
      · exact one _
      next below =>
        exact absurd ⟨leader,verified,not_le.mp fresh,not_le.mp below⟩ (refused ctr inner)

theorem plainOutput_plain (out : List Output) (still : ∀ o ∈ out, o.isUpdate = false) :
    ∀ x ∈ plainOutput out, x.IsPlain :=
  emit_still _ _ _ serialWrite_plain (fun _ _ none => by cases none) (fun _ => trivial) _ _ still

theorem framedOutput_framed (key : Key) (counter : UInt64) (f : LineFramer) (out : List Output)
    (still : ∀ o ∈ out, o.isUpdate = false) :
    ∀ x ∈ emit (LineFramer.write key counter) (lastFlush key counter) f out, x.IsFramed :=
  emit_still _ _ _ (framerWrite_framed key counter) (flushLine_framed key counter)
    (fun _ => trivial) _ _ still

theorem dispatch_status (e : Eeprom) (lib : Library) {line : Bytes} (status : equals line "status") :
    dispatch e lib line = handleStatus e := by
  have lead (text : String) (clean : 0 ∉ ascii text) (differs : ¬ (ascii text).isPrefixOf (ascii "status") = true) :
      ¬ startsWith line text := fun also => differs (status.begins also clean)
  unfold dispatch
  rw [if_neg (status.other (by decide)),if_neg (status.other (by decide)),
    if_neg (not_or.mpr ⟨status.other (by decide),status.other (by decide)⟩),if_neg (status.other (by decide)),
    if_neg (status.other (by decide)),if_neg (lead _ (by decide) (by decide)),
    if_neg (lead _ (by decide) (by decide)),if_pos status]

/-- `status` enters `dispatch` and only prints. -/
theorem processLine_status (e : Eeprom) (lib : Library) (line : Bytes) (status : equals line "status")
    (paired : eeIsPaired e = true) :
    ∃ out, processLine e lib line = .dispatch none line :: out ∧ ∀ x ∈ out, x.IsPlain := by
  refine ⟨plainOutput (dispatch e lib line),?_,plainOutput_plain _ ?_⟩
  · rw [processLine,if_neg (status.other (by decide)),if_pos status]
    rfl
  · exact dispatch_still e lib _ paired (status.other (by decide))

theorem setup_plain (e : Eeprom) (lib : Library) : ∀ x ∈ setup e lib, x.IsPlain := by
  refine plainOutput_plain _ fun o member => ?_
  rcases List.mem_append.mp member with banner | info
  · exact println_still _ o banner
  · exact (@emitInfo_shaped 0 lib).still rfl o info

/-! ### Runs -/

def accepted (trace : List Effect) : List UInt64 :=
  trace.filterMap fun x => match x with | .saveCounter c => some c | _ => none

def dispatched (trace : List Effect) : List (UInt64 × Bytes) :=
  trace.filterMap fun x => match x with | .dispatch (some c) line => some (c,line) | _ => none

/-- Effects that neither write nor start a framed dispatch. -/
def Effect.Quiet : Effect → Prop
  | .serial _ | .frame _ _ _ _ | .sensor _ | .dispatch none _ => True
  | .saveCounter _ | .update _ _ | .dispatch (some _) _ => False

theorem Effect.IsOutput.quiet {x : Effect} (output : x.IsOutput) : x.Quiet := by
  cases x <;> first | exact output | exact output.elim

theorem Effect.Quiet.apply {x : Effect} (quiet : x.Quiet) (e : Eeprom) : x.apply e = e := by
  cases x <;> first | rfl | cases quiet

theorem accepted_quiet (trace : List Effect) (x : Effect) (quiet : x.Quiet) :
    accepted (trace ++ [x]) = accepted trace := by
  cases x <;> simp_all [accepted,Effect.Quiet]

theorem dispatched_quiet (trace : List Effect) (x : Effect) (quiet : x.Quiet) :
    dispatched (trace ++ [x]) = dispatched trace := by
  cases x with
  | dispatch counter line =>
    cases counter with
    | none => simp [dispatched]
    | some _ => cases quiet
  | _ => simp_all [dispatched,Effect.Quiet]

@[simp] theorem accepted_commit (trace : List Effect) (c : UInt64) :
    accepted (trace ++ [.saveCounter c]) = accepted trace ++ [c] := by simp [accepted]

@[simp] theorem dispatched_commit (trace : List Effect) (c : UInt64) :
    dispatched (trace ++ [.saveCounter c]) = dispatched trace := by simp [dispatched]

@[simp] theorem accepted_dispatch (trace : List Effect) (c : UInt64) (line : Bytes) :
    accepted (trace ++ [.dispatch (some c) line]) = accepted trace := by simp [accepted]

@[simp] theorem dispatched_dispatch (trace : List Effect) (c : UInt64) (line : Bytes) :
    dispatched (trace ++ [.dispatch (some c) line]) = dispatched trace ++ [(c,line)] := by
  simp [dispatched]

def NoUnpair (trace : List Effect) : Prop := ∀ d ∈ dispatched trace, d.2 ≠ ascii "unpair"

def Tail (ctr : UInt64) (tail : List Effect) : Prop :=
  (∀ x ∈ tail, x.Quiet) ∨ ∃ line body, tail = .dispatch (some ctr) line :: body ∧
    (line ≠ ascii "unpair" → ∀ x ∈ body, x.Quiet)

inductive Waiting (s : Nano) : Prop where
  | quiet : (∀ x ∈ s.pending, x.Quiet) → Waiting s
  | commit (ctr : UInt64) (tail : List Effect) : s.pending = .saveCounter ctr :: tail →
      eeLoadCounter s.ee < ctr → ctr < counterCeiling → Tail ctr tail → Waiting s
  | entry : Tail (eeLoadCounter s.ee) s.pending → (∀ d ∈ dispatched s.trace, d.1 < eeLoadCounter s.ee) →
      Waiting s

structure Gate (key : Key) (s : Nano) : Prop where
  key : eeLoadKey s.ee = some key
  newest : eeLoadCounter s.ee = (accepted s.trace).foldl max 0
  below : eeLoadCounter s.ee < counterCeiling
  ordered : (dispatched s.trace).Pairwise (·.1 < ·.1)
  seen : ∀ d ∈ dispatched s.trace, d.1 ≤ eeLoadCounter s.ee
  waiting : Waiting s

/-- The state left by a completed `ee_save_pairing`, with its answer still to print. -/
def justPaired (e : Eeprom) (key : Key) : Nano :=
  ⟨eeSavePairing e key,plainOutput (say "OK paired"),[]⟩

theorem gate_start (e : Eeprom) (key : Key) : Gate key (justPaired e key) where
  key := eeLoadKey_savePairing e key
  newest := eeLoadCounter_savePairing e key
  below := by
    change eeLoadCounter (eeSavePairing e key) < _
    rw [eeLoadCounter_savePairing]
    decide
  ordered := .nil
  seen _ none := by cases none
  waiting := .quiet fun x member => (plainOutput_plain _ (println_still _) x member).isOutput.quiet

theorem afterCommit_tail (key : Key) (e : Eeprom) (lib : Library) (ctr : UInt64) (inner : Bytes)
    (paired : eeIsPaired e = true) : Tail ctr (afterCommit key e lib ctr inner) := by
  unfold afterCommit
  split
  · left
    intro x member
    obtain rfl := List.mem_singleton.mp member
    trivial
  · refine Or.inr ⟨_,_,rfl,fun other x member => ?_⟩
    have still := dispatch_still (eeSaveCounter e ctr) lib _ (by simpa using paired)
      (mt (equals_clean (cString_noNul inner)).mp other)
    exact (framedOutput_framed _ _ _ _ still x member).isOutput.quiet

theorem gate_receive (key : Key) (s : Nano) (line : Bytes) (lib : Library) (gate : Gate key s) :
    Gate key { s with pending := processLine s.ee lib line } := by
  refine ⟨gate.key,gate.newest,gate.below,gate.ordered,gate.seen,?_⟩
  have paired := paired_of_key s.ee key gate.key
  by_cases frame : ∃ ctr inner, Accepted key s.ee line ctr inner
  · obtain ⟨ctr,inner,accepted⟩ := frame
    exact .commit ctr _ (processLine_accepted key s.ee lib line ctr inner gate.key accepted)
      accepted.fresh accepted.below (afterCommit_tail key s.ee lib ctr inner paired)
  · by_cases status : equals line "status"
    · obtain ⟨out,same,outputs⟩ := processLine_status s.ee lib line status paired
      refine .quiet fun x member => ?_
      rw [same] at member
      rcases List.mem_cons.mp member with rfl | rest
      · trivial
      · exact (outputs x rest).isOutput.quiet
    · refine .quiet fun x member => ?_
      exact (processLine_refused key s.ee lib line gate.key status
        (fun ctr inner accepted => frame ⟨ctr,inner,accepted⟩) x member).isOutput.quiet

theorem gate_quiet (key : Key) (s : Nano) (x : Effect) (rest : List Effect) (gate : Gate key s)
    (quiet : x.Quiet) (later : ∀ y ∈ rest, y.Quiet) : Gate key ⟨x.apply s.ee,rest,s.trace ++ [x]⟩ := by
  refine ⟨?_,?_,?_,?_,?_,.quiet later⟩ <;>
    simp only [quiet.apply,accepted_quiet _ _ quiet,dispatched_quiet _ _ quiet]
  · exact gate.key
  · exact gate.newest
  · exact gate.below
  · exact gate.ordered
  · exact gate.seen

theorem gate_commit (key : Key) (s : Nano) (ctr : UInt64) (tail : List Effect) (gate : Gate key s)
    (fresh : eeLoadCounter s.ee < ctr) (below : ctr < counterCeiling) (after : Tail ctr tail) :
    Gate key ⟨eeSaveCounter s.ee ctr,tail,s.trace ++ [.saveCounter ctr]⟩ := by
  have saved := eeLoadCounter_saveCounter s.ee ctr fresh
  refine ⟨?_,?_,?_,?_,?_,.entry ?_ ?_⟩ <;>
    simp only [eeLoadKey_saveCounter,saved,accepted_commit,dispatched_commit]
  · exact gate.key
  · rw [List.foldl_append,← gate.newest]
    exact (max_eq_right fresh.le).symm
  · exact below
  · exact gate.ordered
  · exact fun d member => (gate.seen d member).trans fresh.le
  · exact after
  · exact fun d member => lt_of_le_of_lt (gate.seen d member) fresh

theorem gate_dispatch (key : Key) (s : Nano) (line : Bytes) (body : List Effect) (gate : Gate key s)
    (earlier : ∀ d ∈ dispatched s.trace, d.1 < eeLoadCounter s.ee) (later : ∀ y ∈ body, y.Quiet) :
    Gate key ⟨s.ee,body,s.trace ++ [.dispatch (some (eeLoadCounter s.ee)) line]⟩ := by
  refine ⟨gate.key,?_,gate.below,?_,?_,.quiet later⟩
  · rw [accepted_dispatch]
    exact gate.newest
  · rw [dispatched_dispatch,List.pairwise_append]
    refine ⟨gate.ordered,List.pairwise_singleton _ _,fun d member d' last => ?_⟩
    obtain rfl := List.mem_singleton.mp last
    exact earlier d member
  · rw [dispatched_dispatch]
    intro d member
    rcases List.mem_append.mp member with before | last
    · exact gate.seen d before
    · obtain rfl := List.mem_singleton.mp last
      exact le_rfl

theorem noUnpair_before (trace : List Effect) (x : Effect) (none : NoUnpair (trace ++ [x])) :
    NoUnpair trace := by
  intro d member
  apply none
  rw [dispatched,List.filterMap_append]
  exact List.mem_append_left _ member

/-- One effect of the line in hand. -/
theorem gate_tick (key : Key) (s : Nano) (x : Effect) (rest : List Effect) (gate : Gate key s)
    (next : s.pending = x :: rest) (none : NoUnpair (s.trace ++ [x])) :
    Gate key ⟨x.apply s.ee,rest,s.trace ++ [x]⟩ := by
  have quietStep (all : ∀ y ∈ s.pending, y.Quiet) : Gate key ⟨x.apply s.ee,rest,s.trace ++ [x]⟩ :=
    gate_quiet key s x rest gate (all x (by simp [next]))
      fun y member => all y (next ▸ List.mem_cons_of_mem _ member)
  rcases gate.waiting with quiet | ⟨ctr,tail,here,fresh,below,after⟩ | ⟨after,earlier⟩
  · exact quietStep quiet
  · obtain ⟨rfl,rfl⟩ := List.cons.inj (next.symm.trans here)
    exact gate_commit key s ctr rest gate fresh below after
  · rcases after with quiet | ⟨line,body,here,outputs⟩
    · exact quietStep quiet
    · obtain ⟨rfl,rfl⟩ := List.cons.inj (next.symm.trans here)
      exact gate_dispatch key s line rest gate earlier (outputs (none (eeLoadCounter s.ee,line) (by simp)))

theorem step_trace (s t : Nano) (a : NanoAction) (moved : s.step a = some t) :
    t.trace = s.trace ∨ ∃ x, t.trace = s.trace ++ [x] := by
  cases a with
  | receive line lib =>
    simp only [Nano.step] at moved
    split at moved
    · obtain rfl := Option.some.inj moved
      exact Or.inl rfl
    · cases moved
  | tick =>
    simp only [Nano.step] at moved
    split at moved
    · cases moved
    next x rest _ =>
      obtain rfl := Option.some.inj moved
      exact Or.inr ⟨x,rfl⟩
  | powerCycle lib =>
    obtain rfl := Option.some.inj moved
    exact Or.inl rfl

theorem gate_step (key : Key) (s t : Nano) (a : NanoAction) (gate : Gate key s)
    (moved : s.step a = some t) (none : NoUnpair t.trace) : Gate key t := by
  cases a with
  | receive line lib =>
    simp only [Nano.step] at moved
    split at moved
    · obtain rfl := Option.some.inj moved
      exact gate_receive key s line lib gate
    · cases moved
  | tick =>
    simp only [Nano.step] at moved
    split at moved
    · cases moved
    next x rest next =>
      obtain rfl := Option.some.inj moved
      exact gate_tick key s x rest gate next none
  | powerCycle lib =>
    obtain rfl := Option.some.inj moved
    exact ⟨gate.key,gate.newest,gate.below,gate.ordered,gate.seen,
      .quiet fun x member => (setup_plain s.ee lib x member).isOutput.quiet⟩

/-- The gate holds in every state reached before an `unpair` is dispatched. -/
theorem gate_run (key : Key) (s t : Nano) (start : Gate key s)
    (reached : Transition.Reachable Nano.step s t) (none : NoUnpair t.trace) : Gate key t := by
  refine Transition.invariant (fun u => NoUnpair u.trace → Gate key u) ?_ s t (fun _ => start)
    reached none
  intro u a v hold moved none
  have before : NoUnpair u.trace := by
    rcases step_trace u v a moved with same | ⟨x,more⟩
    · rwa [same] at none
    · exact noUnpair_before _ x (more ▸ none)
  exact gate_step key u v a (hold before) moved none

/-- The gate as a reader of the serial line sees it. -/
structure GateHolds (key : Key) (s : Nano) : Prop where
  stored : eeLoadKey s.ee = some key
  /-- Apart from what `strcmp` takes for `ping` or `status`, only an accepted frame is dispatched or writes. -/
  guarded : ∀ line lib, ¬ equals line "ping" → ¬ equals line "status" →
    ∀ x ∈ processLine s.ee lib line, (∃ c l, x = .dispatch c l) ∨ (∃ e, x.apply e ≠ e) →
      ∃ ctr inner, Accepted key s.ee line ctr inner
  /-- Every other line, `ping` and `status` included, leaves the whole EEPROM alone. -/
  unchanged : ∀ line lib, (∀ ctr inner, ¬ Accepted key s.ee line ctr inner) →
    ∀ x ∈ processLine s.ee lib line, ∀ e, x.apply e = e
  increasing : (dispatched s.trace).Pairwise (·.1 < ·.1)
  once : (dispatched s.trace).Nodup
  newest : eeLoadCounter s.ee = (accepted s.trace).foldl max 0
  below : eeLoadCounter s.ee < counterCeiling
  /-- A verifying frame in the open interval is committed, even if its body is then refused. -/
  committed : ∀ line lib ctr inner, verifyCommandFrame key line = .ok (ctr,inner) →
    eeLoadCounter s.ee < ctr → ctr < counterCeiling →
      ∃ rest, processLine s.ee lib line = .saveCounter ctr :: rest ∧
        eeLoadCounter (eeSaveCounter s.ee ctr) = ctr ∧
        (innerBufferSize ≤ inner.length → rest = [.serial (ascii "ERR frame_body_too_long")])

theorem Gate.unchanged {key : Key} {s : Nano} (gate : Gate key s) (line : Bytes) (lib : Library)
    (refused : ∀ ctr inner, ¬ Accepted key s.ee line ctr inner) :
    ∀ x ∈ processLine s.ee lib line, x.Quiet := by
  by_cases status : equals line "status"
  · obtain ⟨out,same,outputs⟩ := processLine_status s.ee lib line status (paired_of_key s.ee key gate.key)
    rw [same]
    exact List.forall_mem_cons.mpr ⟨trivial,fun x member => (outputs x member).isOutput.quiet⟩
  · intro x member
    exact (processLine_refused key s.ee lib line gate.key status refused x member).isOutput.quiet

/-- In every run from a completed pairing to the first dispatched `unpair`. -/
theorem firmware_gate (e : Eeprom) (key : Key) (s : Nano)
    (reached : Transition.Reachable Nano.step (justPaired e key) s) (none : NoUnpair s.trace) :
    GateHolds key s := by
  have gate := gate_run key _ s (gate_start e key) reached none
  refine ⟨gate.key,?_,?_,gate.ordered,?_,gate.newest,gate.below,?_⟩
  · intro line lib notPing notStatus x member acts
    by_contra refused
    have output := processLine_refused key s.ee lib line gate.key notStatus
      (fun ctr inner accepted => refused ⟨ctr,inner,accepted⟩) x member
    rcases acts with ⟨c,l,rfl⟩ | ⟨e,changed⟩
    · exact output
    · exact changed (output.isOutput.apply e)
  · exact fun line lib refused x member e => (gate.unchanged line lib refused x member).apply e
  · exact gate.ordered.imp fun less same => absurd (same ▸ less) (lt_irrefl _)
  · intro line lib ctr inner verified fresh below
    have accepted : Accepted key s.ee line ctr inner :=
      ⟨verified_leader key line ctr inner verified,verified,fresh,below⟩
    refine ⟨_,processLine_accepted key s.ee lib line ctr inner gate.key accepted,
      eeLoadCounter_saveCounter s.ee ctr fresh,fun long => ?_⟩
    rw [afterCommit,if_pos long]

def allOk : Library :=
  ⟨true,200,3,0,5,0xFFFFFFFF,[0],[2],[0],0,0,0,0,0,7,150,0,0,true⟩

/-- One frame dispatched after pairing, with power lost before its answer is out. -/
theorem firmware_gate_count : ∃ s : Nano,
    s.trace = [.serial (ascii "OK paired"),.saveCounter 1,.dispatch (some 1) (ascii "count")] ∧
      GateHolds katKey s := by
  let blank : Eeprom := fun _ => 0xFF
  let frame := Host.encodeCommand katKey 1 (ascii "count")
  let paired := eeSavePairing blank katKey
  have verified : verifyCommandFrame katKey frame = .ok (1,ascii "count") :=
    verifyCommandFrame_encodeCommand katKey 1 _ (by decide) (by decide +kernel)
  have accepted : Accepted katKey paired frame 1 (ascii "count") :=
    ⟨verified_leader _ _ _ _ verified,verified,by rw [eeLoadCounter_savePairing]; decide,by decide⟩
  have effects := processLine_accepted katKey paired allOk frame 1 (ascii "count")
    (eeLoadKey_savePairing blank katKey) accepted
  have answered : Nano.step (justPaired blank katKey) .tick =
      some ⟨paired,[],[.serial (ascii "OK paired")]⟩ := rfl
  have received : Nano.step ⟨paired,[],[.serial (ascii "OK paired")]⟩ (.receive frame allOk) =
      some ⟨paired,.saveCounter 1 :: afterCommit katKey paired allOk 1 (ascii "count"),
        [.serial (ascii "OK paired")]⟩ := by
    rw [← effects]
    rfl
  have reached := ((Transition.Reachable.single _ answered).trans (.single _ received)).trans
    ⟨[.tick,.tick,.powerCycle allOk],rfl⟩
  refine ⟨_,?_,firmware_gate blank katKey _ reached ?_⟩
  · rfl
  · unfold NoUnpair
    decide

/-- A NUL hides the rest of a line from `strcmp`: `status` with more behind it enters `dispatch` unframed. -/
theorem status_behind_nul :
    let line := ascii "status" ++ [0,120]
    line ≠ ascii "ping" ∧ line ≠ ascii "status" ∧ (ascii "C ").isPrefixOf line = false ∧
      ∃ s : Nano, Transition.Reachable Nano.step (justPaired (fun _ => 0xFF) katKey) s ∧ NoUnpair s.trace ∧
        eeLoadKey s.ee = some katKey ∧ s.trace = [.serial (ascii "OK paired"),.dispatch none line] := by
  refine ⟨by decide,by decide,by decide,?_⟩
  let line := ascii "status" ++ [0,120]
  let paired := eeSavePairing (fun _ => 0xFF) katKey
  have loaded := eeLoadKey_savePairing (fun _ => 0xFF) katKey
  obtain ⟨out,effects,_⟩ := processLine_status paired allOk line (by decide) (paired_of_key _ _ loaded)
  have answered : Nano.step (justPaired (fun _ => 0xFF) katKey) .tick =
      some ⟨paired,[],[.serial (ascii "OK paired")]⟩ := rfl
  have received : Nano.step ⟨paired,[],[.serial (ascii "OK paired")]⟩ (.receive line allOk) =
      some ⟨paired,.dispatch none line :: out,[.serial (ascii "OK paired")]⟩ := by
    rw [← effects]
    rfl
  have reached := ((Transition.Reachable.single _ answered).trans (.single _ received)).trans ⟨[.tick],rfl⟩
  refine ⟨_,reached,fun d member => ?_,loaded,rfl⟩
  have silent : d ∈ ([] : List (UInt64 × Bytes)) := member
  cases silent

end R503.Firmware
