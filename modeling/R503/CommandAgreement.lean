import R503.CommandChannel

/-! The world refines the command channel: what a call hears is a prefix of the one answer
its counter was ever given. -/
namespace R503

open Text Host Firmware

abbrev Abstract := Channel.State UInt64 Bytes Bytes

def Allowed (key : Key) (counter : UInt64) (cmd : Bytes) (bodies : List Bytes) : Prop :=
  bodies.length ≤ 4 ∧ IsAnswer bodies ∧
    ∃ e lib, frames (framedDispatch key counter e lib cmd) = numbered counter 0 bodies

/-- Effects of a session in progress: output, or a byte of a wipe. -/
def Effect.InSession : Effect → Prop
  | .serial _ | .frame _ _ _ _ | .sensor _ | .update _ _ => True
  | .saveCounter _ | .dispatch _ _ => False

inductive Stage (key : Key) (w : World) (x : Abstract) : Prop where
  | plain : (∀ e ∈ w.nano.pending, e.IsPlain ∨ ∃ line, e = .dispatch none line) → Stage key w x
  | commit (counter : UInt64) (line : Bytes) (lib : Library) :
      w.nano.pending = .saveCounter counter ::
        framedDispatch key counter (eeSaveCounter w.nano.ee counter) lib line →
      eeLoadKey w.nano.ee = some key → eeLoadCounter w.nano.ee < counter →
      (counter,line) ∈ w.calls → Stage key w x
  | entry (counter : UInt64) (line : Bytes) (lib : Library) :
      w.nano.pending = framedDispatch key counter w.nano.ee lib line →
      eeLoadKey w.nano.ee = some key → counter ∈ accepted w.nano.trace →
      x.answer counter = none → (counter,line) ∈ w.calls → Stage key w x
  | session (counter : UInt64) : (∀ e ∈ w.nano.pending, Effect.InSession e) →
      frames w.nano.pending = numbered counter (UInt32.ofNat (x.spoken counter))
        ((x.lines counter).drop (x.spoken counter)) → Stage key w x

/-- Either the pairing stands and at most a whole wipe is still to come, or a wipe has
spoiled the marker for good. -/
def Health (key : Key) (w : World) : Prop :=
  eeLoadKey w.nano.ee = some key ∧
      (updatesOf w.nano.pending = [] ∨ updatesOf w.nano.pending = eeWipeWrites) ∨
    w.nano.ee 0 = 0xFF ∧ ∀ u ∈ updatesOf w.nano.pending, u.2 = 0xFF

structure Refines (key : Key) (w : World) (x : Abstract) : Prop where
  sound : Channel.Sound (Allowed key) x
  asked : ∀ c cmd, x.asked c = some cmd ↔ (c,cmd) ∈ w.calls
  daemon : ∀ p ∈ w.calls, DaemonCommand p.2
  spoken : ∀ c, (frames w.nano.trace).filter (·.1 = c) =
    numbered c 0 ((x.lines c).take (x.spoken c))
  served : ∀ c, (dispatched w.nano.trace).filter (·.1 = c) =
    if (x.answer c).isSome then [(c,(x.asked c).getD [])] else []
  committed : ∀ c, x.answer c ≠ none → c ∈ accepted w.nano.trace
  distinct : (accepted w.nano.trace).Nodup
  recent : eeLoadKey w.nano.ee = some key → ∀ c ∈ accepted w.nano.trace, c ≤ eeLoadCounter w.nano.ee
  health : Health key w
  stage : Stage key w x
  calling : ∀ k, w.call = some k → (k.counter,k.cmd) ∈ w.calls ∧
    k.expectedSeq = UInt32.ofNat (x.heard k.counter) ∧
    k.progress = (x.heardLines k.counter).map progressText
  outcomes : ∀ r ∈ w.outcomes, (r.counter,r.cmd) ∈ w.calls ∧ IsTerminal r.body ∧
    ∃ before, x.heardLines r.counter = before ++ [r.body] ∧ r.progress = before.map progressText
  finished : ∀ r ∈ w.outcomes, ∀ k, w.call = some k → k.counter ≠ r.counter

theorem refines_start (key : Key) (e : Eeprom) (loaded : eeLoadKey e = some key) :
    Refines key (World.start e) Channel.State.start where
  sound := Channel.sound_start
  asked _ _ := by simp [World.start,Channel.State.start]
  daemon _ none := by cases none
  spoken _ := by simp [World.start,Channel.State.start,Channel.State.lines,frames,numbered]
  served _ := by simp [World.start,Channel.State.start,dispatched]
  committed _ impossible := absurd rfl impossible
  distinct := .nil
  recent _ _ none := by cases none
  health := Or.inl ⟨loaded,Or.inl rfl⟩
  stage := .plain fun _ none => by cases none
  calling _ none := by cases none
  outcomes _ none := by cases none
  finished _ none := by cases none

/-! ### EEPROM under a session -/

theorem key_spoiled (e : Eeprom) (spoiled : e 0 = 0xFF) : eeLoadKey e = none := by
  rw [eeLoadKey,if_neg (by simp [eeIsPaired_spoiled e spoiled])]

theorem wipe_first : ∃ rest, eeWipeWrites = (0,0xFF) :: rest ∧ ∀ u ∈ rest, u.2 = 0xFF := by
  refine ⟨Store.block 1 (List.replicate 191 0xFF),rfl,fun u member => ?_⟩
  have values (address n : Nat) : ∀ u ∈ Store.block address (List.replicate n (0xFF : UInt8)), u.2 = 0xFF := by
    induction n generalizing address with
    | zero => intro u none; cases none
    | succ n ih => exact List.forall_mem_cons.mpr ⟨rfl,ih (address + 1)⟩
  exact values 1 191 u member

/-- One byte of a session's updates: a wipe under way spoils the marker and never mends it. -/
theorem health_update (key : Key) (w : World) (a : Nat) (v : UInt8) (rest : List Effect)
    (trace : List Effect) (health : Health key w) (next : w.nano.pending = .update a v :: rest) :
    Health key { w with nano := ⟨Function.update w.nano.ee a v,rest,trace⟩ } ∧
      Function.update w.nano.ee a v 0 = 0xFF := by
  have here : updatesOf w.nano.pending = (a,v) :: updatesOf rest := by simp [next,updatesOf]
  rcases health with ⟨_,none | whole⟩ | ⟨spoiled,values⟩
  · rw [here] at none
    cases none
  · obtain ⟨more,first,values⟩ := wipe_first
    rw [here,first] at whole
    obtain ⟨same,rfl⟩ := List.cons.inj whole
    obtain ⟨rfl,rfl⟩ := Prod.mk.inj same
    have now : Function.update w.nano.ee 0 0xFF 0 = 0xFF := Function.update_self ..
    exact ⟨Or.inr ⟨now,values⟩,now⟩
  · rw [here] at values
    obtain ⟨isBlank,later⟩ := List.forall_mem_cons.mp values
    have now : Function.update w.nano.ee a v 0 = 0xFF := by
      by_cases same : 0 = a
      · subst a
        rw [Function.update_self]
        exact isBlank
      · rw [Function.update_of_ne same]
        exact spoiled
    exact ⟨Or.inr ⟨now,later⟩,now⟩

theorem health_output (key : Key) (w : World) (e : Effect) (rest trace : List Effect)
    (health : Health key w) (next : w.nano.pending = e :: rest) (silent : updatesOf [e] = []) :
    Health key { w with nano := ⟨w.nano.ee,rest,trace⟩ } := by
  have same : updatesOf w.nano.pending = updatesOf rest := by
    rw [next,updatesOf,List.filterMap_cons]
    rw [updatesOf,List.filterMap_cons] at silent
    split at silent
    · simp_all [updatesOf]
    · cases silent
  unfold Health at health ⊢
  rwa [same] at health

/-! ### Steps of the Nano -/

section
variable {key : Key} {w : World} {x : Abstract}

/-- The Nano moves without accepting, dispatching or framing anything. -/
theorem refines_nano (ref : Refines key w x) (nano : Nano)
    (sameFrames : frames nano.trace = frames w.nano.trace)
    (sameDispatched : dispatched nano.trace = dispatched w.nano.trace)
    (sameAccepted : accepted nano.trace = accepted w.nano.trace)
    (recent : eeLoadKey nano.ee = some key → ∀ c ∈ accepted nano.trace, c ≤ eeLoadCounter nano.ee)
    (health : Health key { w with nano := nano }) (stage : Stage key { w with nano := nano } x) :
    Refines key { w with nano := nano } x where
  sound := ref.sound
  asked := ref.asked
  daemon := ref.daemon
  spoken := sameFrames ▸ ref.spoken
  served := sameDispatched ▸ ref.served
  committed := sameAccepted ▸ ref.committed
  distinct := sameAccepted ▸ ref.distinct
  recent := recent
  health := health
  stage := stage
  calling := ref.calling
  outcomes := ref.outcomes
  finished := ref.finished

theorem plain_frames (effects : List Effect)
    (plain : ∀ e ∈ effects, e.IsPlain ∨ ∃ line, e = .dispatch none line) :
    frames effects = [] ∧ updatesOf effects = [] := by
  constructor <;>
  · refine List.filterMap_eq_nil_iff.mpr fun e member => ?_
    rcases plain e member with isPlain | ⟨line,rfl⟩
    · cases e <;> first | rfl | cases isPlain
    · rfl

/-- A plain line in hand, at boot or after a refusal. -/
theorem refines_plain (ref : Refines key w x) (pending : List Effect)
    (plain : ∀ e ∈ pending, e.IsPlain ∨ ∃ line, e = .dispatch none line) :
    Refines key { w with nano := { w.nano with pending := pending } } x := by
  refine refines_nano ref _ rfl rfl rfl ref.recent ?_ (.plain plain)
  have none := (plain_frames pending plain).2
  rcases ref.health with ⟨loaded,_⟩ | ⟨spoiled,_⟩
  · exact Or.inl ⟨loaded,Or.inl none⟩
  · refine Or.inr ⟨spoiled,fun u member => ?_⟩
    rw [show updatesOf _ = [] from none] at member
    cases member

/-- What the frames and updates of a dispatched daemon command are. -/
theorem framedDispatch_session (key : Key) (counter : UInt64) (e : Eeprom) (lib : Library)
    (line : Bytes) (loaded : eeLoadKey e = some key) (clean : lineFeed ∉ line) :
    ∃ body bodies, framedDispatch key counter e lib line = .dispatch (some counter) line :: body ∧
      (∀ x ∈ body, Effect.InSession x) ∧ frames body = numbered counter 0 bodies ∧
      Allowed key counter line bodies ∧ (updatesOf body = [] ∨ updatesOf body = eeWipeWrites) := by
  obtain ⟨writes,shaped,quiet⟩ := dispatch_shaped e lib line clean
  obtain ⟨bodies,short,answer,lines,updates⟩ := emit_shaped key counter 0 shaped
  refine ⟨_,bodies,rfl,fun x member => ?_,lines,⟨short,answer,e,lib,?_⟩,?_⟩
  · rcases emit_all _ _ _ (framerWrite_framed key counter) (flushLine_framed key counter)
      (fun _ => trivial) _ _ x member with output | ⟨a,v,_,rfl⟩
    · cases x <;> trivial
    · trivial
  · rw [← lines,framedDispatch]
    rfl
  · have paired := paired_of_key e key loaded
    rw [updates]
    exact (quiet paired).imp_right And.right

theorem refines_receive (ref : Refines key w x) (line : Bytes) (lib : Library)
    (loaded : eeLoadKey w.nano.ee = some key) (genuine : GenuineCommand key w line) :
    Refines key { w with nano := { w.nano with pending := processLine w.nano.ee lib line } } x := by
  by_cases frame : ∃ counter inner, Accepted key w.nano.ee line counter inner
  · obtain ⟨counter,inner,accepted⟩ := frame
    have called := genuine_command key w line counter inner genuine accepted.verified
    obtain ⟨_,_,clean,noNul,short⟩ := ref.daemon _ called
    have whole : afterCommit key w.nano.ee lib counter inner =
        framedDispatch key counter (eeSaveCounter w.nano.ee counter) lib inner := by
      rw [afterCommit,if_neg (by dsimp only at short; simp only [innerBufferSize]; omega),cString_clean inner noNul]
    have effects := processLine_accepted key w.nano.ee lib line counter inner loaded accepted
    rw [whole] at effects
    obtain ⟨body,_,entry,_,_,_,updates⟩ := framedDispatch_session key counter
      (eeSaveCounter w.nano.ee counter) lib inner (by simpa using loaded) clean
    refine refines_nano ref _ rfl rfl rfl ref.recent (Or.inl ⟨loaded,?_⟩)
      (.commit counter inner lib effects loaded accepted.fresh called)
    rw [effects,entry]
    exact updates
  · refine refines_plain ref _ fun e member => ?_
    by_cases status : equals line "status"
    · obtain ⟨out,same,plain⟩ := processLine_status w.nano.ee lib line status (paired_of_key _ key loaded)
      rw [same] at member
      rcases List.mem_cons.mp member with rfl | rest
      · exact Or.inr ⟨_,rfl⟩
      · exact Or.inl (plain e rest)
    · exact Or.inl (processLine_refused key w.nano.ee lib line loaded status
        (fun counter inner accepted => frame ⟨counter,inner,accepted⟩) e member)

theorem refines_commit (ref : Refines key w x) (counter : UInt64) (line : Bytes) (lib : Library)
    (next : w.nano.pending = .saveCounter counter ::
      framedDispatch key counter (eeSaveCounter w.nano.ee counter) lib line)
    (loaded : eeLoadKey w.nano.ee = some key) (fresh : eeLoadCounter w.nano.ee < counter)
    (called : (counter,line) ∈ w.calls) :
    Refines key { w with nano := ⟨eeSaveCounter w.nano.ee counter,
      framedDispatch key counter (eeSaveCounter w.nano.ee counter) lib line,
      w.nano.trace ++ [.saveCounter counter]⟩ } x := by
  have saved := eeLoadCounter_saveCounter w.nano.ee counter fresh
  have older := ref.recent loaded
  have new : counter ∉ accepted w.nano.trace := fun member => absurd (older _ member) (not_le.mpr fresh)
  have stored : eeLoadKey (eeSaveCounter w.nano.ee counter) = some key := by simpa using loaded
  have unserved : x.answer counter = none := by
    by_contra served
    exact new (ref.committed counter served)
  refine ⟨ref.sound,ref.asked,ref.daemon,?_,?_,?_,?_,?_,?_,?_,ref.calling,ref.outcomes,ref.finished⟩
  · intro c
    simpa [frames] using ref.spoken c
  · intro c
    simpa using ref.served c
  · intro c served
    rw [accepted_commit]
    exact List.mem_append_left _ (ref.committed c served)
  · rw [accepted_commit]
    exact List.nodup_append.mpr ⟨ref.distinct,List.nodup_singleton _,fun c member d last => by
      rintro rfl
      exact new (List.mem_singleton.mp last ▸ member)⟩
  · intro _ c member
    rw [accepted_commit] at member
    dsimp only
    rw [saved]
    rcases List.mem_append.mp member with before | last
    · exact (older c before).trans fresh.le
    · exact (List.mem_singleton.mp last).le
  · rcases ref.health with ⟨_,updates⟩ | ⟨spoiled,_⟩
    · refine Or.inl ⟨stored,?_⟩
      rw [next] at updates
      exact updates
    · rw [key_spoiled _ spoiled] at loaded
      cases loaded
  · exact .entry counter line lib rfl stored (by simp) unserved called

theorem unserved_lines (ref : Refines key w x) (c : UInt64) (unserved : x.answer c = none) :
    x.lines c = [] ∧ x.spoken c = 0 ∧ x.heard c = 0 := by
  have lines : x.lines c = [] := by rw [Channel.State.lines,unserved]; rfl
  have spoken := ref.sound.spokenLines c
  have heard := ref.sound.heardSpoken c
  rw [lines] at spoken
  simp only [List.length_nil] at spoken
  exact ⟨lines,by omega,by omega⟩

/-- Serving an identifier changes what no caller has heard. -/
theorem heardLines_serve (ref : Refines key w x) (counter : UInt64) (bodies : List Bytes)
    (unserved : x.answer counter = none) (c : UInt64) :
    Channel.State.heardLines { x with answer := Function.update x.answer counter (some bodies) } c =
      x.heardLines c := by
  by_cases same : c = counter
  · subst c
    obtain ⟨_,_,heard⟩ := unserved_lines ref counter unserved
    simp [Channel.State.heardLines,heard]
  · simp [Channel.State.heardLines,Channel.State.lines,Function.update_of_ne same]

/-- Entering `dispatch` is the one moment a counter is given its answer. -/
theorem refines_entry (ref : Refines key w x) (counter : UInt64) (line : Bytes) (lib : Library)
    (rest : List Effect) (first : Effect) (next : w.nano.pending = first :: rest)
    (here : w.nano.pending = framedDispatch key counter w.nano.ee lib line)
    (loaded : eeLoadKey w.nano.ee = some key) (committed : counter ∈ accepted w.nano.trace)
    (unserved : x.answer counter = none) (called : (counter,line) ∈ w.calls) :
    ∃ y, Transition.Reachable (Channel.step (Allowed key)) x y ∧
      Refines key { w with nano := ⟨first.apply w.nano.ee,rest,w.nano.trace ++ [first]⟩ } y := by
  obtain ⟨_,_,clean,_,_⟩ := ref.daemon _ called
  obtain ⟨body,bodies,entry,inside,lines,allowed,updates⟩ :=
    framedDispatch_session key counter w.nano.ee lib line loaded clean
  obtain ⟨rfl,rfl⟩ := List.cons.inj (next.symm.trans (here.trans entry))
  have asked := (ref.asked counter line).mpr called
  let y : Abstract := { x with answer := Function.update x.answer counter (some bodies) }
  have served : Channel.step (Allowed key) x (.serve counter bodies) = some y :=
    Channel.step_serve _ x counter line bodies unserved asked allowed
  have heard := heardLines_serve ref counter bodies unserved
  obtain ⟨noLines,noneSpoken,_⟩ := unserved_lines ref counter unserved
  have answers (c : UInt64) (other : c ≠ counter) : y.answer c = x.answer c := Function.update_of_ne other ..
  refine ⟨y,.single _ served,Channel.sound_run x y ref.sound (.single _ served),ref.asked,
    ref.daemon,?_,?_,?_,?_,?_,?_,?_,?_,?_,ref.finished⟩
  · intro c
    have before := ref.spoken c
    by_cases same : c = counter
    · subst c
      rw [noLines] at before
      simpa [frames,y,noneSpoken,Channel.State.lines] using before
    · simpa [frames,y,Channel.State.lines,Function.update_of_ne same] using before
  · intro c
    have before := ref.served c
    rw [dispatched_dispatch,List.filter_append,before]
    by_cases same : c = counter
    · subst c
      simp [y,unserved,asked]
    · have other : counter ≠ c := fun h => same h.symm
      simp [y,Function.update_of_ne same,other]
  · intro c answered
    rw [accepted_dispatch]
    by_cases same : c = counter
    · exact same ▸ committed
    · exact ref.committed c (answers c same ▸ answered)
  · simpa using ref.distinct
  · intro stored c member
    rw [accepted_dispatch] at member
    exact ref.recent stored c member
  · exact Or.inl ⟨loaded,updates⟩
  · refine .session counter inside ?_
    change frames rest = _
    rw [lines]
    simp [y,noneSpoken,Channel.State.lines]
  · intro k calling
    obtain ⟨a,b,c⟩ := ref.calling k calling
    exact ⟨a,b,c.trans (congrArg _ (heard _).symm)⟩
  · intro r member
    obtain ⟨a,b,before,c,d⟩ := ref.outcomes r member
    exact ⟨a,b,before,(heard _).trans c,d⟩

/-- A frame put on the wire is the next line of the session's answer. -/
theorem refines_frame (ref : Refines key w x) (counter : UInt64) (k : Key) (c : UInt64) (s : UInt32)
    (b : Bytes) (rest : List Effect) (next : w.nano.pending = .frame k c s b :: rest)
    (inside : ∀ e ∈ w.nano.pending, Effect.InSession e)
    (left : frames w.nano.pending = numbered counter (UInt32.ofNat (x.spoken counter))
      ((x.lines counter).drop (x.spoken counter))) :
    ∃ y, Transition.Reachable (Channel.step (Allowed key)) x y ∧
      Refines key { w with nano := ⟨w.nano.ee,rest,w.nano.trace ++ [.frame k c s b]⟩ } y := by
  have head : frames w.nano.pending = (c,s,b) :: frames rest := by simp [next,frames]
  rw [head] at left
  have more : x.spoken counter < (x.lines counter).length := by
    by_contra done
    rw [List.drop_eq_nil_of_le (Nat.le_of_not_lt done)] at left
    cases left
  rw [List.drop_eq_getElem_cons more,numbered] at left
  obtain ⟨first,later⟩ := List.cons.inj left
  obtain ⟨rfl,second⟩ := Prod.mk.inj first
  obtain ⟨rfl,rfl⟩ := Prod.mk.inj second
  let y : Abstract := { x with spoken := Function.update x.spoken c (x.spoken c + 1) }
  have spoke : Channel.step (Allowed key) x (.speak c) = some y :=
    Channel.step_speak _ x c more
  refine ⟨y,.single _ spoke,Channel.sound_run x y ref.sound (.single _ spoke),ref.asked,ref.daemon,?_,?_,?_,
    ?_,?_,?_,?_,ref.calling,ref.outcomes,ref.finished⟩
  · intro d
    have before := ref.spoken d
    have split : frames (w.nano.trace ++ [.frame k c (UInt32.ofNat (x.spoken c)) (x.lines c)[x.spoken c]]) =
        frames w.nano.trace ++ [(c,UInt32.ofNat (x.spoken c),(x.lines c)[x.spoken c])] := by
      simp [frames]
    rw [split,List.filter_append,before]
    by_cases same : d = c
    · subst d
      have grown : (x.lines c).take (x.spoken c + 1) =
          (x.lines c).take (x.spoken c) ++ [(x.lines c)[x.spoken c]] :=
        (List.take_concat_get' _ _ more).symm
      simp only [y,Channel.State.lines,Function.update_self] at grown ⊢
      rw [grown,numbered_append]
      simp only [Channel.State.lines] at more
      simp [numbered,Nat.min_eq_left more.le]
    · have other : c ≠ d := fun h => same h.symm
      simp [y,Channel.State.lines,Function.update_of_ne same,other]
  · intro d
    simpa [dispatched] using ref.served d
  · intro d answered
    simpa [accepted] using ref.committed d answered
  · simpa [accepted] using ref.distinct
  · intro loaded d member
    exact ref.recent loaded d (by simpa [accepted] using member)
  · exact health_output key w _ rest _ ref.health next rfl
  · refine .session c (fun e member => inside e (next ▸ List.mem_cons_of_mem _ member)) ?_
    change frames rest = _
    rw [later]
    simp only [y,Channel.State.lines,Function.update_self]
    rw [UInt32.ofNat_add]
    rfl

theorem refines_silent (ref : Refines key w x) (first : Effect) (rest : List Effect)
    (next : w.nano.pending = first :: rest)
    (silent : first.IsPlain ∨ ∃ line, first = .dispatch none line)
    (stage : Stage key { w with nano := ⟨w.nano.ee,rest,w.nano.trace ++ [first]⟩ } x) :
    Refines key { w with nano := ⟨first.apply w.nano.ee,rest,w.nano.trace ++ [first]⟩ } x := by
  have same : first.apply w.nano.ee = w.nano.ee := by
    rcases silent with plain | ⟨line,rfl⟩
    · exact plain.isOutput.apply _
    · rfl
  have nothing := plain_frames [first] (by simpa using silent)
  have quiet : first.Quiet := by
    rcases silent with plain | ⟨line,rfl⟩
    · exact plain.isOutput.quiet
    · trivial
  rw [same]
  refine refines_nano ref _ ?_ (dispatched_quiet _ _ quiet) (accepted_quiet _ _ quiet) ?_
    (health_output key w first rest _ ref.health next nothing.2) stage
  · have := nothing.1
    simp only [frames] at this ⊢
    rw [List.filterMap_append,this,List.append_nil]
  · intro loaded c member
    rw [accepted_quiet _ _ quiet] at member
    exact ref.recent loaded c member

theorem refines_update (ref : Refines key w x) (a : Nat) (v : UInt8) (rest : List Effect)
    (next : w.nano.pending = .update a v :: rest)
    (stage : Stage key
      { w with nano := ⟨Function.update w.nano.ee a v,rest,w.nano.trace ++ [.update a v]⟩ } x) :
    Refines key
      { w with nano := ⟨Function.update w.nano.ee a v,rest,w.nano.trace ++ [.update a v]⟩ } x := by
  obtain ⟨health,spoiled⟩ := health_update key w a v rest (w.nano.trace ++ [.update a v]) ref.health next
  refine refines_nano ref _ (by simp [frames]) (by simp [dispatched]) (by simp [accepted]) ?_ health stage
  intro loaded
  dsimp only at loaded
  rw [key_spoiled _ spoiled] at loaded
  cases loaded

/-- One effect of the Nano, whatever the stage of its line. -/
theorem refines_tick (ref : Refines key w x) (first : Effect) (rest : List Effect)
    (next : w.nano.pending = first :: rest) :
    ∃ y, Transition.Reachable (Channel.step (Allowed key)) x y ∧
      Refines key { w with nano := ⟨first.apply w.nano.ee,rest,w.nano.trace ++ [first]⟩ } y := by
  rcases ref.stage with plain | ⟨counter,line,lib,here,loaded,fresh,called⟩ |
    ⟨counter,line,lib,here,loaded,committed,unserved,called⟩ | ⟨counter,inside,left⟩
  · refine ⟨x,.refl x,refines_silent ref first rest next (plain first (by simp [next])) ?_⟩
    exact .plain fun e member => plain e (next ▸ List.mem_cons_of_mem _ member)
  · obtain ⟨rfl,rfl⟩ := List.cons.inj (next.symm.trans here)
    exact ⟨x,.refl x,refines_commit ref counter line lib next loaded fresh called⟩
  · exact refines_entry ref counter line lib rest first next here loaded committed unserved called
  · have later : ∀ e ∈ rest, Effect.InSession e :=
      fun e member => inside e (next ▸ List.mem_cons_of_mem _ member)
    have now := inside first (by simp [next])
    cases first with
    | serial text =>
      refine ⟨x,.refl x,refines_silent ref _ rest next (Or.inl trivial) (.session counter later ?_)⟩
      rw [← left,next]
      rfl
    | sensor call =>
      refine ⟨x,.refl x,refines_silent ref _ rest next (Or.inl trivial) (.session counter later ?_)⟩
      rw [← left,next]
      rfl
    | update a v =>
      refine ⟨x,.refl x,refines_update ref a v rest next (.session counter later ?_)⟩
      rw [← left,next]
      rfl
    | frame k c s b => exact refines_frame ref counter k c s b rest next inside left
    | saveCounter c => cases now
    | dispatch c line => cases now

/-! ### Steps of the daemon -/

theorem stage_calls (stage : Stage key w x) (call : Option Call) (more : List (UInt64 × Bytes))
    (outcomes : List Outcome) (y : Abstract) (sameAnswer : y.answer = x.answer)
    (sameSpoken : y.spoken = x.spoken) :
    Stage key ⟨w.nano,call,w.calls ++ more,outcomes⟩ y := by
  have sameLines (c : UInt64) : y.lines c = x.lines c := by rw [Channel.State.lines,sameAnswer]; rfl
  rcases stage with plain | ⟨counter,line,lib,here,loaded,fresh,called⟩ |
    ⟨counter,line,lib,here,loaded,committed,unserved,called⟩ | ⟨counter,inside,left⟩
  · exact .plain plain
  · exact .commit counter line lib here loaded fresh (List.mem_append_left _ called)
  · exact .entry counter line lib here loaded committed (sameAnswer ▸ unserved)
      (List.mem_append_left _ called)
  · exact .session counter inside (by rw [sameSpoken,sameLines]; exact left)

theorem refines_send (ref : Refines key w x) (counter : UInt64) (cmd : Bytes)
    (fresh : counter ∉ w.calls.map Prod.fst) (daemon : DaemonCommand cmd) :
    ∃ y, Transition.Reachable (Channel.step (Allowed key)) x y ∧
      Refines key { w with call := some ⟨counter,cmd,0,[]⟩, calls := w.calls ++ [(counter,cmd)] } y := by
  have unasked : x.asked counter = none := by
    cases asked : x.asked counter with
    | none => rfl
    | some old => exact absurd (List.mem_map_of_mem ((ref.asked counter old).mp asked)) fresh
  have unserved : x.answer counter = none := by
    cases answered : x.answer counter with
    | none => rfl
    | some a =>
      obtain ⟨r,asked,_⟩ := ref.sound.served counter a answered
      rw [unasked] at asked
      cases asked
  obtain ⟨_,_,noneHeard⟩ := unserved_lines ref counter unserved
  let y : Abstract := { x with asked := Function.update x.asked counter (some cmd) }
  have moved : Channel.step (Allowed key) x (.ask counter cmd) = some y :=
    Channel.step_ask _ x counter cmd unasked
  refine ⟨y,.single _ moved,Channel.sound_run x y ref.sound (.single _ moved),?_,?_,ref.spoken,?_,
    ref.committed,ref.distinct,ref.recent,ref.health,?_,?_,?_,?_⟩
  · intro c t
    by_cases same : c = counter
    · subst c
      have absent : (counter,t) ∉ w.calls := fun member => fresh (List.mem_map_of_mem member)
      simp [y,absent,eq_comm]
    · simp [y,ref.asked,same]
  · intro p member
    rcases List.mem_append.mp member with before | last
    · exact ref.daemon p before
    · obtain rfl := List.mem_singleton.mp last
      exact daemon
  · intro c
    have before := ref.served c
    by_cases same : c = counter
    · subst c
      simpa [y,unserved] using before
    · simpa [y,Function.update_of_ne same] using before
  · exact stage_calls ref.stage _ _ _ y rfl rfl
  · intro k calling
    obtain rfl := Option.some.inj calling
    refine ⟨by simp,?_,?_⟩
    · simp [y,noneHeard]
    · simp [y,Channel.State.heardLines,noneHeard]
  · intro r member
    obtain ⟨called,rest⟩ := ref.outcomes r member
    exact ⟨List.mem_append_left _ called,rest⟩
  · intro r member k calling same
    obtain rfl := Option.some.inj calling
    obtain ⟨called,_⟩ := ref.outcomes r member
    have reused : counter = r.counter := same
    exact fresh (reused ▸ List.mem_map_of_mem called)

/-- The call ends without an answer. -/
theorem refines_hangUp (ref : Refines key w x) : Refines key { w with call := none } x :=
  { ref with
    stage := by simpa using stage_calls ref.stage none [] w.outcomes x rfl rfl
    calling := fun _ none => (by cases none)
    finished := fun _ _ _ none => (by cases none) }

/-- A frame with the call's counter and next seq is the next line of the answer. -/
theorem heard_next (ref : Refines key w x) (c : UInt64) (b : Bytes)
    (here : (c,UInt32.ofNat (x.heard c),b) ∈ frames w.nano.trace) :
    x.heard c < x.spoken c ∧ (x.lines c)[x.heard c]? = some b := by
  have among : (c,UInt32.ofNat (x.heard c),b) ∈ (frames w.nano.trace).filter (·.1 = c) :=
    List.mem_filter.mpr ⟨here,by simp⟩
  rw [ref.spoken c,mem_numbered] at among
  obtain ⟨_,j,line,seq⟩ := among
  have spoken := ref.sound.spokenLines c
  have heard := ref.sound.heardSpoken c
  have short : (x.lines c).length ≤ 4 := by
    cases answered : x.answer c with
    | none => simp [Channel.State.lines,answered]
    | some a =>
      obtain ⟨_,_,small,_⟩ := ref.sound.served c a answered
      simpa [Channel.State.lines,answered] using small
  have bound : j < x.spoken c := by
    by_contra outside
    rw [List.getElem?_eq_none (by rw [List.length_take]; omega)] at line
    cases line
  have same : j = x.heard c := by
    have := congrArg UInt32.toNat seq
    rw [UInt32.zero_add,UInt32.toNat_ofNat_of_lt' (by change _ < 2 ^ 32; omega),
      UInt32.toNat_ofNat_of_lt' (by change _ < 2 ^ 32; omega)] at this
    exact this.symm
  subst j
  rw [List.getElem?_take_of_lt bound] at line
  exact ⟨bound,line⟩

theorem heardLines_hear (x : Abstract) (c : UInt64) (b : Bytes) (line : (x.lines c)[x.heard c]? = some b) :
    Channel.State.heardLines { x with heard := Function.update x.heard c (x.heard c + 1) } c =
      x.heardLines c ++ [b] := by
  obtain ⟨bound,same⟩ := List.getElem?_eq_some_iff.mp line
  simp only [Channel.State.heardLines,Function.update_self]
  rw [← same]
  exact (List.take_concat_get' _ _ bound).symm

/-- The abstract side of a line that counts; the daemon's state is left to the caller. -/
theorem refines_hear (ref : Refines key w x) (k : Call) (b : Bytes) (calling : w.call = some k)
    (here : (k.counter,k.expectedSeq,b) ∈ frames w.nano.trace) :
    ∃ y : Abstract, Transition.Reachable (Channel.step (Allowed key)) x y ∧
      y.heardLines k.counter = x.heardLines k.counter ++ [b] ∧
      y.heard k.counter = x.heard k.counter + 1 ∧
      Refines key { w with call := none } y := by
  obtain ⟨called,seq,_⟩ := ref.calling k calling
  rw [seq] at here
  obtain ⟨more,line⟩ := heard_next ref k.counter b here
  let y : Abstract := { x with heard := Function.update x.heard k.counter (x.heard k.counter + 1) }
  have moved : Channel.step (Allowed key) x (.hear k.counter) = some y :=
    Channel.step_hear _ x k.counter more
  refine ⟨y,.single _ moved,heardLines_hear x k.counter b line,Function.update_self ..,
    Channel.sound_run x y ref.sound (.single _ moved),ref.asked,ref.daemon,ref.spoken,ref.served,
    ref.committed,ref.distinct,ref.recent,ref.health,?_,?_,?_,?_⟩
  · have kept := stage_calls ref.stage none [] w.outcomes y rfl rfl
    rwa [List.append_nil] at kept
  · intro _ none
    cases none
  · intro r member
    obtain ⟨a,b,before,heard,d⟩ := ref.outcomes r member
    have other : r.counter ≠ k.counter := (ref.finished r member k calling).symm
    refine ⟨a,b,before,?_,d⟩
    rw [← heard]
    simp [y,Channel.State.heardLines,Channel.State.lines,Function.update_of_ne other]
  · intro _ _ _ none
    cases none

/-- Every action of the world is matched by moves of the channel. -/
theorem refines_step (ref : Refines key w x) (a : WorldAction) (w' : World)
    (moved : w.step key a = some w') :
    ∃ y, Transition.Reachable (Channel.step (Allowed key)) x y ∧ Refines key w' y := by
  cases a with
  | send counter cmd =>
    simp only [World.step] at moved
    split at moved
    next guard =>
      obtain rfl := Option.some.inj moved
      exact refines_send ref counter cmd guard.2.1 guard.2.2.1
    · cases moved
  | hear line =>
    simp only [World.step] at moved
    split at moved
    · cases moved
    next k calling =>
      split at moved
      next genuine =>
        split at moved
        · obtain rfl := Option.some.inj moved
          exact ⟨x,.refl x,ref⟩
        next text stepped =>
          obtain rfl := Option.some.inj moved
          obtain ⟨body,verified,rfl⟩ := responseStep_progress _ _ _ _ _ stepped
          obtain ⟨called,seq,progress⟩ := ref.calling k calling
          obtain ⟨y,moves,lines,heard,idle⟩ := refines_hear ref k body calling
            (genuine_response key w line _ _ _ genuine verified)
          refine ⟨y,moves,{ idle with
            stage := by simpa using stage_calls idle.stage _ [] w.outcomes y rfl rfl
            calling := ?_
            finished := ?_ }⟩
          · intro k' calling'
            obtain rfl := Option.some.inj calling'
            refine ⟨called,?_,?_⟩
            · rw [heard,seq,UInt32.ofNat_add]
              rfl
            · rw [lines,List.map_append,← progress]
              rfl
          · intro r member k' calling'
            obtain rfl := Option.some.inj calling'
            exact ref.finished r member k calling
        next body stepped =>
          obtain rfl := Option.some.inj moved
          obtain ⟨verified,terminal⟩ := responseStep_done _ _ _ _ _ stepped
          obtain ⟨called,seq,progress⟩ := ref.calling k calling
          obtain ⟨y,moves,lines,heard,idle⟩ := refines_hear ref k body calling
            (genuine_response key w line _ _ _ genuine verified)
          refine ⟨y,moves,{ idle with
            stage := by simpa using stage_calls idle.stage none [] _ y rfl rfl
            outcomes := ?_
            finished := fun _ _ _ none => (by cases none) }⟩
          intro r member
          rcases List.mem_append.mp member with before | last
          · exact idle.outcomes r before
          · obtain rfl := List.mem_singleton.mp last
            exact ⟨called,terminal,_,lines,progress⟩
        · obtain rfl := Option.some.inj moved
          exact ⟨x,.refl x,refines_hangUp ref⟩
      · cases moved
  | giveUp =>
    obtain rfl := Option.some.inj moved
    exact ⟨x,.refl x,refines_hangUp ref⟩
  | receive line lib =>
    simp only [World.step] at moved
    split at moved
    next guard =>
      simp only [Nano.step] at moved
      split at moved
      · obtain rfl := Option.some.inj moved
        exact ⟨x,.refl x,refines_receive ref line lib guard.1 guard.2⟩
      · cases moved
    · cases moved
  | tick =>
    simp only [World.step,Nano.step] at moved
    split at moved
    · cases moved
    next first rest next =>
      obtain rfl := Option.some.inj moved
      exact refines_tick ref first rest next
  | powerCycle lib =>
    obtain rfl := Option.some.inj moved
    exact ⟨x,.refl x,refines_plain ref _ fun e member => Or.inl (setup_plain w.nano.ee lib e member)⟩

end

/-- Daemon, wire and Nano together refine the command channel, over every run. -/
theorem world_refines_channel (key : Key) (e : Eeprom) (w : World) (loaded : eeLoadKey e = some key)
    (reached : Transition.Reachable (World.step key) (World.start e) w) :
    ∃ x, Transition.Reachable (Channel.step (Allowed key)) Channel.State.start x ∧ Refines key w x :=
  Transition.simulation (Refines key) (fun _ _ a t ref moved => refines_step ref a t moved)
    _ _ _ (refines_start key e loaded) reached

/-! ### End-to-end agreement -/

/-- What `Ok(body)` from `execute_framed` says about the Nano. -/
structure Agreed (key : Key) (w : World) (r : Outcome) : Prop where
  sent : (r.counter,r.cmd) ∈ w.calls
  accepted : (Firmware.accepted w.nano.trace).count r.counter = 1
  dispatched : (Firmware.dispatched w.nano.trace).filter (·.1 = r.counter) = [(r.counter,r.cmd)]
  terminal : IsTerminal r.body
  /-- All frames of this counter are the progress lines heard and the body, in order. -/
  frames : (Firmware.frames w.nano.trace).filter (·.1 = r.counter) =
    numbered r.counter 0 (r.progress.map (ascii "PROGRESS " ++ ·) ++ [r.body])
  /-- And they are all that one dispatch of the command prints. -/
  answer : ∃ e lib, Firmware.frames (framedDispatch key r.counter e lib r.cmd) =
    numbered r.counter 0 (r.progress.map (ascii "PROGRESS " ++ ·) ++ [r.body])

theorem terminal_last (counter : UInt64) (cmd : Bytes) (bodies : List Bytes)
    (allowed : Allowed key counter cmd bodies) (k : Nat) (c : Bytes) (here : bodies[k]? = some c)
    (terminal : IsTerminal c) : k + 1 = bodies.length := by
  obtain ⟨_,⟨progress,last,rfl,all,_⟩,_⟩ := allowed
  rw [List.length_append,List.length_singleton]
  obtain ⟨bound,_⟩ := List.getElem?_eq_some_iff.mp here
  rw [List.length_append,List.length_singleton] at bound
  by_contra early
  have inside : k < progress.length := by omega
  rw [List.getElem?_append_left inside] at here
  exact terminal_not_progress c terminal (all c (List.mem_of_getElem? here))

theorem progress_texts (key : Key) (counter : UInt64) (cmd : Bytes) (before : List Bytes)
    (body : Bytes) (allowed : Allowed key counter cmd (before ++ [body])) :
    (before.map progressText).map (ascii "PROGRESS " ++ ·) = before := by
  obtain ⟨_,⟨progress,last,same,all,_⟩,_⟩ := allowed
  obtain ⟨rfl,_⟩ := List.append_inj' same rfl
  exact progressText_map before all

/-- End-to-end agreement, over every interleaving and every wire. -/
theorem command_agreement (key : Key) (e : Eeprom) (w : World) (loaded : eeLoadKey e = some key)
    (reached : Transition.Reachable (World.step key) (World.start e) w) :
    ∀ r ∈ w.outcomes, Agreed key w r := by
  obtain ⟨x,_,ref⟩ := world_refines_channel key e w loaded reached
  intro r member
  obtain ⟨called,terminal,before,heard,progress⟩ := ref.outcomes r member
  have final : (x.heardLines r.counter).getLast? = some r.body := by rw [heard]; simp
  obtain ⟨cmd,bodies,asked,answered,allowed,whole,spoken⟩ := Channel.agreement IsTerminal x r.counter
    r.body ref.sound (fun cmd a => terminal_last r.counter cmd a) final terminal
  have same := (ref.asked r.counter r.cmd).mpr called
  obtain rfl := Option.some.inj (asked.symm.trans same)
  obtain rfl : before ++ [r.body] = bodies := heard.symm.trans whole
  have texts := progress_texts key r.counter r.cmd before r.body allowed
  rw [← progress] at texts
  refine ⟨called,?_,?_,terminal,?_,?_⟩
  · exact List.count_eq_one_of_mem ref.distinct (ref.committed r.counter (by simp [answered]))
  · rw [ref.served r.counter,answered,same]
    rfl
  · rw [ref.spoken r.counter,texts,Channel.State.lines,answered,spoken,Option.getD_some,
      List.take_length]
  · rw [texts]
    exact allowed.2.2

/-- One `verify` with its progress line, answered over an honest wire. -/
theorem command_agreement_verify : ∃ w, w.outcomes.map (fun r => (r.progress,r.body)) =
    [([ascii "place_finger"],ascii "OK match=7 confidence=150")] ∧
      ∀ r ∈ w.outcomes, Agreed katKey w r := by
  let paired := eeSavePairing (fun _ => 0xFF) katKey
  let actions : List WorldAction :=
    [.send 1 (ascii "verify"),.receive (encodeCommand katKey 1 (ascii "verify")) allOk,.tick,.tick,
      .tick,.hear (encodeResponse katKey 1 0 (ascii "PROGRESS place_finger")),.tick,.tick,.tick,.tick,
      .hear (encodeResponse katKey 1 1 (ascii "OK match=7 confidence=150"))]
  have ran : (Transition.run (World.step katKey) (World.start paired) actions).map
      (fun w => w.outcomes.map fun r => (r.progress,r.body)) =
        some [([ascii "place_finger"],ascii "OK match=7 confidence=150")] := by decide +kernel
  obtain ⟨w,reached,outcomes⟩ := Option.map_eq_some_iff.mp ran
  exact ⟨w,outcomes,command_agreement katKey paired w (eeLoadKey_savePairing _ _) ⟨actions,reached⟩⟩

end R503
