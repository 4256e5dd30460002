import R503.CommandAgreement
import R503.FlashChanges

/-! The templates in the module's flash under an active wire and power cuts between the effects of the Nano, of which
a whole save of the counter is one: every change is the one change of a command that the daemon sent, in the order of
the counters, and a reported success has been carried out. -/
namespace R503

open Text Host Firmware

structure Change where
  counter : UInt64
  line : Bytes
  call : SensorCall

def Change.entry (d : Change) : Option (UInt64 × Bytes) × SensorCall := (some (d.counter,d.line),d.call)

/-- A frame that stands after its dispatch and, if it says OK, after the change its command orders. -/
def Follows (before : List Effect) (last : Option (UInt64 × Bytes)) (c : UInt64) (b : Bytes) : Prop :=
  ∃ line, (c,line) ∈ dispatched before ∧
    (SaysOk b → ∀ call, Orders line call → ∃ made, (some (c,line),made) ∈ changesFrom last before)

def Vouched (effects : List Effect) : Prop :=
  ∀ before k c s b after, effects = before ++ .frame k c s b :: after → Follows before none c b

structure FlashKept (w : World) (done : List Change) : Prop where
  whole : changes (w.nano.trace ++ w.nano.pending) = done.map Change.entry
  ordered : done.Pairwise (·.counter < ·.counter)
  commanded : ∀ d ∈ done, (d.counter,d.line) ∈ w.calls ∧ Orders d.line d.call
  vouched : Vouched (w.nano.trace ++ w.nano.pending)

theorem Follows.later {before a : List Effect} {c : UInt64} {b : Bytes}
    (follows : Follows before (a.foldl Effect.session none) c b) : Follows (a ++ before) none c b := by
  obtain ⟨line,here,done⟩ := follows
  refine ⟨line,?_,fun ok call orders => ?_⟩
  · rw [dispatched,List.filterMap_append]
    exact List.mem_append_right _ here
  · obtain ⟨made,changed⟩ := done ok call orders
    exact ⟨made,changesFrom_append a before ▸ List.mem_append_right _ changed⟩

theorem Vouched.append {a new : List Effect} (first : Vouched a)
    (then_ : ∀ before k c s b after, new = before ++ .frame k c s b :: after →
      Follows before (a.foldl Effect.session none) c b) : Vouched (a ++ new) := by
  intro before k c s b after same
  rcases List.append_eq_append_iff.mp same with ⟨more,rfl,rest⟩ | ⟨more,rfl,rest⟩
  · exact (then_ more k c s b after rest).later
  · cases more with
    | nil =>
      have none := then_ [] k c s b after (by simpa using rest.symm)
      simpa using none.later
    | cons x more =>
      obtain ⟨rfl,_⟩ := List.cons.inj rest
      exact first before k c s b more rfl

theorem Vouched.begins {a b : List Effect} (vouched : Vouched b) (begins : a <+: b) : Vouched a := by
  obtain ⟨rest,rfl⟩ := begins
  rintro before k c s body after rfl
  exact vouched before k c s body (after ++ rest) (List.append_assoc _ _ _)

/-- What adds neither a frame nor a change. -/
theorem Vouched.quiet {a new : List Effect} (first : Vouched a)
    (quiet : ∀ x ∈ new, x.IsPlain ∨ ∃ line, x = .dispatch none line) : Vouched (a ++ new) := by
  refine first.append fun before k c s b after same => ?_
  rcases quiet _ (same ▸ List.mem_append_right _ List.mem_cons_self) with plain | ⟨_,other⟩
  · cases plain
  · cases other

/-! ### The lines of the Nano -/

section
variable {key : Key} {e : Eeprom} {last : Option (UInt64 × Bytes)} (lib : Library)

theorem afterCommit_daemon {counter : UInt64} {cmd : Bytes} (daemon : DaemonCommand cmd) :
    afterCommit key e lib counter cmd = framedDispatch key counter (eeSaveCounter e counter) lib cmd := by
  obtain ⟨_,_,_,noNul,short⟩ := daemon
  rw [afterCommit,if_neg (by simp only [innerBufferSize]; omega),cString_clean cmd noNul]

theorem setup_still : changesFrom last (setup e lib) = [] := by
  rw [setup,changesFrom_plain,flashOf_append,flashOf_println,emitInfo_still]
  rfl

theorem status_still {line : Bytes} (status : equals line "status") : flashOf (dispatch e lib line) = [] := by
  rw [dispatch_status e lib status]
  exact flashOf_println _

/-- A line that is no accepted frame changes nothing and frames nothing. -/
theorem processLine_others (last : Option (UInt64 × Bytes)) (lib : Library) {line : Bytes} (loaded : eeLoadKey e = some key)
    (refused : ∀ counter inner, ¬ Accepted key e line counter inner) :
    changesFrom last (processLine e lib line) = [] ∧
      ∀ x ∈ processLine e lib line, x.IsPlain ∨ ∃ text, x = .dispatch none text := by
  have paired := paired_of_key e key loaded
  constructor
  · fun_cases processLine
    case case2 status => exact (changesFrom_plain _).trans (by rw [status_still lib status]; rfl)
    case case3 unpaired => exact absurd paired unpaired
    case case9 leader k stored counter inner verified _ fresh below =>
      obtain rfl := Option.some.inj (loaded.symm.trans stored)
      exact absurd ⟨not_not.mp leader,verified,not_le.mp fresh,not_le.mp below⟩ (refused counter inner)
    all_goals rfl
  · by_cases status : equals line "status"
    · obtain ⟨out,same,plain⟩ := processLine_status e lib line status paired
      rw [same]
      exact List.forall_mem_cons.mpr ⟨.inr ⟨_,rfl⟩,fun x member => .inl (plain x member)⟩
    · exact fun x member => .inl (processLine_refused key e lib line loaded status refused x member)

/-- Inside a session no effect enters another one. -/
theorem framed_session (key : Key) (counter : UInt64) (out : List Output) (f : LineFramer) :
    ∀ x ∈ emit (LineFramer.write key counter) (lastFlush key counter) f out,
      (∀ last, x.session last = last) ∧ ∀ k c s b, x = .frame k c s b → c = counter := by
  have flush (f : LineFramer) : ∀ x ∈ (flushLine key counter f).2,
      (∀ last, x.session last = last) ∧ ∀ k c s b, x = .frame k c s b → c = counter := by
    unfold flushLine
    split
    · simp
    · refine List.forall_mem_singleton.mpr ⟨fun _ => rfl,fun _ _ _ _ same => ?_⟩
      cases same
      rfl
  intro x member
  refine (emit_all _ _ _ (fun f c => ?_) flush (fun _ => ⟨fun _ => rfl,fun _ _ _ _ same => by cases same⟩) _ _ x
    member).elim id ?_
  · unfold LineFramer.write
    split
    · exact flush f
    split
    · simp
    split <;> simp
  · rintro ⟨_,_,_,rfl⟩
    exact ⟨fun _ => rfl,fun _ _ _ _ same => by cases same⟩

theorem changesFrom_steady {effects : List Effect} (steady : ∀ x ∈ effects, ∀ last, x.session last = last)
    {x : Effect} (member : x ∈ effects) (changed : x.change.isSome = true) :
    ∃ made, (last,made) ∈ changesFrom last effects := by
  induction effects with
  | nil => cases member
  | cons y effects ih =>
    obtain ⟨here,later⟩ := List.forall_mem_cons.mp steady
    rw [changesFrom,here]
    rcases List.mem_cons.mp member with rfl | rest
    · obtain ⟨made,is⟩ := Option.isSome_iff_exists.mp changed
      exact ⟨made,List.mem_append_left _ (by rw [is]; exact List.mem_singleton_self _)⟩
    · obtain ⟨made,inside⟩ := ih later rest
      exact ⟨made,List.mem_append_right _ inside⟩

/-- The frames of an accepted line follow its commit, its dispatch and its change. -/
theorem framed_follows (counter : UInt64) (line : Bytes) (before : List Effect) (k : Key) (c : UInt64) (s : UInt32)
    (b : Bytes) (after : List Effect)
    (same : .saveCounter counter :: framedDispatch key counter e lib line = before ++ .frame k c s b :: after) :
    Follows before last c b := by
  obtain ⟨entered,rfl,dispatch⟩ := (List.cons_eq_append_iff.mp same).resolve_left fun first => by cases first.2
  rw [framedDispatch] at dispatch
  obtain ⟨body,rfl,inside⟩ := (List.cons_eq_append_iff.mp dispatch).resolve_left fun first => by cases first.2
  have session := framed_session key counter (Firmware.dispatch e lib line) ⟨[],0⟩
  rw [inside] at session
  obtain rfl := (session _ (List.mem_append_right _ List.mem_cons_self)).2 k c s b rfl
  refine ⟨line,by simp [dispatched],fun ok call orders => ?_⟩
  have covered := (orders.earned e lib).covered key c 0
  rw [inside] at covered
  obtain ⟨x,member,changed⟩ := covered.split ok
  exact changesFrom_steady (fun y inside => (session y (List.mem_append_left _ inside)).1) member changed

end

/-! ### Runs -/

section
variable {key : Key} {w : World} {x : Abstract} {done : List Change}

theorem Refines.dispatched_accepted (ref : Refines key w x) {c : UInt64} {line : Bytes}
    (here : (c,line) ∈ dispatched w.nano.trace) : c ∈ accepted w.nano.trace := by
  refine ref.committed c fun unserved => ?_
  have served := ref.served c
  rw [unserved] at served
  have among : (c,line) ∈ (dispatched w.nano.trace).filter (·.1 = c) := List.mem_filter.mpr ⟨here,by simp⟩
  rw [served] at among
  cases among

theorem FlashKept.calls (kept : FlashKept w done) (call : Option Call) (more : List (UInt64 × Bytes))
    (outcomes : List Outcome) : FlashKept ⟨w.nano,call,w.calls ++ more,outcomes⟩ done :=
  ⟨kept.whole,kept.ordered,fun d member => (kept.commanded d member).imp_left (List.mem_append_left _),kept.vouched⟩

/-- A power cut keeps what was done, and what comes after it at first changes nothing. -/
theorem FlashKept.quiet (kept : FlashKept w done) (pending : List Effect)
    (still : ∀ last, changesFrom last pending = [])
    (plain : ∀ y ∈ pending, y.IsPlain ∨ ∃ line, y = .dispatch none line) :
    ∃ less, FlashKept { w with nano := { w.nano with pending := pending } } less := by
  have begins : w.nano.trace <+: w.nano.trace ++ w.nano.pending := List.prefix_append _ _
  obtain ⟨rest,split⟩ := @changesFrom_begins none _ _ begins
  change _ ++ rest = changes _ at split
  rw [kept.whole] at split
  obtain ⟨less,lost,rfl,here,_⟩ := List.map_eq_append_iff.mp split.symm
  refine ⟨less,?_,(List.pairwise_append.mp kept.ordered).1,
    fun d member => kept.commanded d (List.mem_append_left _ member),(kept.vouched.begins begins).quiet plain⟩
  change changesFrom none (w.nano.trace ++ pending) = _
  rw [changesFrom_append,still,List.append_nil,here]

/-- An accepted frame adds at most the change that its command orders. -/
theorem FlashKept.accept (kept : FlashKept w done) (ref : Refines key w x) (idle : w.nano.pending = [])
    {line : Bytes} {lib : Library} {counter : UInt64} {cmd : Bytes} (loaded : eeLoadKey w.nano.ee = some key)
    (accepted : Accepted key w.nano.ee line counter cmd) (called : (counter,cmd) ∈ w.calls) :
    ∃ more, FlashKept { w with nano := { w.nano with pending := processLine w.nano.ee lib line } } more := by
  have effects := processLine_accepted key w.nano.ee lib line counter cmd loaded accepted
  rw [afterCommit_daemon lib (ref.daemon _ called)] at effects
  have whole := kept.whole
  have vouched := kept.vouched
  rw [idle,List.append_nil] at whole vouched
  have next (last : Option (UInt64 × Bytes)) : changesFrom last (processLine w.nano.ee lib line) =
      (flashOf (dispatch (eeSaveCounter w.nano.ee counter) lib cmd)).map (some (counter,cmd),·) := by
    rw [effects]
    exact changesFrom_framed key counter _ lib cmd
  have follows : Vouched (w.nano.trace ++ processLine w.nano.ee lib line) :=
    vouched.append fun before k c s b after same =>
      framed_follows lib counter cmd before k c s b after (effects ▸ same)
  have grown (new : List Change)
      (news : (flashOf (dispatch (eeSaveCounter w.nano.ee counter) lib cmd)).map (some (counter,cmd),·) =
        new.map Change.entry) : changes (w.nano.trace ++ processLine w.nano.ee lib line) =
          (done ++ new).map Change.entry := by
    rw [changes,changesFrom_append,next,news,List.map_append,← whole]
    rfl
  have noNul : 0 ∉ cmd := (ref.daemon _ called).2.2.2.1
  rcases dispatch_flash (eeSaveCounter w.nano.ee counter) lib cmd noNul with none | ⟨call,orders,one⟩
  · refine ⟨done ++ [],grown [] (by rw [none]; rfl),?_,?_,follows⟩
    · exact (List.append_nil done).symm ▸ kept.ordered
    · exact (List.append_nil done).symm ▸ kept.commanded
  · refine ⟨done ++ [⟨counter,cmd,call⟩],grown _ (by rw [one]; rfl),?_,?_,follows⟩
    · refine List.pairwise_append.mpr ⟨kept.ordered,List.pairwise_singleton _ _,fun d member last isLast => ?_⟩
      obtain rfl := List.mem_singleton.mp isLast
      have entered : (some (d.counter,d.line),d.call) ∈ changesFrom none w.nano.trace := by
        change _ ∈ changes w.nano.trace
        rw [whole]
        exact List.mem_map_of_mem member
      have earlier := (changesFrom_dispatched entered).resolve_left fun impossible => by cases impossible
      exact lt_of_le_of_lt (ref.recent loaded _ (ref.dispatched_accepted earlier)) accepted.fresh
    · intro d member
      rcases List.mem_append.mp member with before | last
      · exact kept.commanded d before
      · obtain rfl := List.mem_singleton.mp last
        exact ⟨called,orders⟩

/-- One action of daemon, wire or Nano. -/
theorem FlashKept.step (kept : FlashKept w done) (ref : Refines key w x) (a : WorldAction) (v : World)
    (moved : w.step key a = some v) : ∃ more, FlashKept v more := by
  cases a with
  | send counter cmd =>
    simp only [World.step] at moved
    split at moved
    · obtain rfl := Option.some.inj moved
      exact ⟨done,kept.calls _ _ _⟩
    · cases moved
  | hear line =>
    have same (call : Option Call) (outcomes : List Outcome) : FlashKept ⟨w.nano,call,w.calls,outcomes⟩ done := by
      simpa using kept.calls call [] outcomes
    simp only [World.step] at moved
    split at moved
    · cases moved
    split at moved
    · split at moved
      all_goals
        obtain rfl := Option.some.inj moved
        first | exact ⟨done,kept⟩ | exact ⟨done,same _ _⟩
    · cases moved
  | giveUp =>
    obtain rfl := Option.some.inj moved
    exact ⟨done,by simpa using kept.calls none [] w.outcomes⟩
  | receive line lib =>
    simp only [World.step,Nano.step] at moved
    split at moved
    next guard =>
      split at moved
      next idle =>
        obtain rfl := Option.some.inj moved
        by_cases frame : ∃ counter inner, Accepted key w.nano.ee line counter inner
        · obtain ⟨counter,inner,accepted⟩ := frame
          exact kept.accept ref idle guard.1 accepted
            (genuine_command key w line counter inner guard.2 accepted.verified)
        · have refused counter inner (accepted : Accepted key w.nano.ee line counter inner) : False :=
            frame ⟨counter,inner,accepted⟩
          exact kept.quiet _ (fun last => (processLine_others last lib guard.1 refused).1)
            (processLine_others none lib guard.1 refused).2
      · cases moved
    · cases moved
  | tick =>
    simp only [World.step,Nano.step] at moved
    split at moved
    · cases moved
    next first rest next =>
      obtain rfl := Option.some.inj moved
      have same : w.nano.trace ++ [first] ++ rest = w.nano.trace ++ w.nano.pending := by
        rw [next,List.append_assoc]
        rfl
      exact ⟨done,by rw [same]; exact kept.whole,kept.ordered,kept.commanded,by rw [same]; exact kept.vouched⟩
  | powerCycle lib =>
    obtain rfl := Option.some.inj moved
    exact kept.quiet _ (fun _ => setup_still lib) fun y member => .inl (setup_plain w.nano.ee lib y member)

end

/-- A line that a caller has heard is a frame of its one dispatch. -/
theorem Vouched.heard {key : Key} {w : World} {x : Abstract} (vouched : Vouched w.nano.trace) (ref : Refines key w x)
    {c : UInt64} {cmd b : Bytes} (called : (c,cmd) ∈ w.calls) (heard : b ∈ x.heardLines c) (ok : SaysOk b)
    {call : SensorCall} (orders : Orders cmd call) : ∃ made, (some (c,cmd),made) ∈ changes w.nano.trace := by
  have spoken : b ∈ (x.lines c).take (x.spoken c) :=
    (List.take_prefix_take_left (ref.sound.heardSpoken c)).subset heard
  obtain ⟨j,line⟩ := List.mem_iff_getElem?.mp spoken
  have framed : (c,0 + UInt32.ofNat j,b) ∈ (frames w.nano.trace).filter (·.1 = c) := by
    rw [ref.spoken c]
    exact (mem_numbered _ _ _ _ _ _).mpr ⟨rfl,j,line,rfl⟩
  obtain ⟨y,member,is⟩ := List.mem_filterMap.mp (List.mem_of_mem_filter framed)
  obtain ⟨before,after,split⟩ := List.append_of_mem member
  cases y with
  | frame k d s body =>
    cases is
    obtain ⟨text,here,done⟩ := vouched before k c _ b after split
    have served := ref.served c
    have among : (c,text) ∈ (dispatched w.nano.trace).filter (·.1 = c) := by
      refine List.mem_filter.mpr ⟨?_,by simp⟩
      rw [split,dispatched,List.filterMap_append]
      exact List.mem_append_left _ here
    rw [served,(ref.asked c cmd).mpr called] at among
    split at among
    · obtain rfl := (Prod.mk.inj (List.mem_singleton.mp among)).2
      obtain ⟨made,changed⟩ := done ok call orders
      refine ⟨made,(@changesFrom_begins none _ _ ?_).subset changed⟩
      exact split ▸ List.prefix_append _ _
    · cases among
  | _ => cases is

end R503
