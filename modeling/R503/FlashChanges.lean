import R503.FramedSession
import R503.SlotArguments

/-! Changes of the templates in the module's flash: what a command orders, what a dispatch of it changes, and
that no line says OK before the change. -/
namespace R503.Firmware

open Text

def SensorCall.changesFlash : SensorCall → Bool
  | .storeModel _ | .deleteModel _ | .emptyDatabase => true
  | .capture | .image2Tz _ | .createModel | .fingerSearch => false

def Output.change : Output → Option SensorCall
  | .sensor call => if call.changesFlash then some call else none
  | .print _ | .update _ _ => none

def Effect.change : Effect → Option SensorCall
  | .sensor call => if call.changesFlash then some call else none
  | .serial _ | .frame _ _ _ _ | .saveCounter _ | .update _ _ | .dispatch _ _ => none

/-- The framed command in hand after an effect, `none` for a plain line. -/
def Effect.session (last : Option (UInt64 × Bytes)) : Effect → Option (UInt64 × Bytes)
  | .dispatch counter line => counter.map (·,line)
  | .serial _ | .frame _ _ _ _ | .saveCounter _ | .update _ _ | .sensor _ => last

def changesFrom (last : Option (UInt64 × Bytes)) : List Effect → List (Option (UInt64 × Bytes) × SensorCall)
  | [] => []
  | x :: rest => (x.change.map (last,·)).toList ++ changesFrom (x.session last) rest

def changes (trace : List Effect) : List (Option (UInt64 × Bytes) × SensorCall) := changesFrom none trace

def flashOf (out : List Output) : List SensorCall := out.filterMap Output.change

inductive Orders : Bytes → SensorCall → Prop where
  | enroll (a : Bytes) : Orders (ascii "enroll " ++ a) (.storeModel (UInt16.ofInt (slotArg a)))
  | delete (a : Bytes) : Orders (ascii "delete " ++ a) (.deleteModel (UInt16.ofInt (slotArg a)))
  | clear : Orders (ascii "clear confirm") .emptyDatabase

def SaysOk (body : Bytes) : Prop := (ascii "OK").isPrefixOf body = true

instance (body : Bytes) : Decidable (SaysOk body) := inferInstanceAs (Decidable (_ = true))

/-! ### Changes along a trace -/

section
variable {last : Option (UInt64 × Bytes)}

theorem changesFrom_append (a b : List Effect) : changesFrom last (a ++ b) =
    changesFrom last a ++ changesFrom (a.foldl Effect.session last) b := by
  induction a generalizing last with
  | nil => rfl
  | cons x a ih => simp only [List.cons_append,changesFrom,ih,List.append_assoc,List.foldl_cons]

/-- What stands before in a trace stays as it is. -/
theorem changesFrom_begins {a b : List Effect} (begins : a <+: b) : changesFrom last a <+: changesFrom last b := by
  obtain ⟨rest,rfl⟩ := begins
  exact changesFrom_append a rest ▸ List.prefix_append _ _

/-- Only a framed dispatch puts a command behind a change. -/
theorem changesFrom_dispatched {effects : List Effect} {c : UInt64} {line : Bytes} {call : SensorCall}
    (changed : (some (c,line),call) ∈ changesFrom last effects) :
    last = some (c,line) ∨ (c,line) ∈ dispatched effects := by
  induction effects generalizing last with
  | nil => cases changed
  | cons x effects ih =>
    rcases List.mem_append.mp changed with here | later
    · obtain ⟨_,_,same⟩ := Option.mem_map.mp (Option.mem_toList.mp here)
      exact .inl (Prod.mk.inj same).1
    · rcases ih later with same | inside
      · cases x with
        | dispatch counter text =>
          obtain ⟨_,rfl,named⟩ := Option.map_eq_some_iff.mp same
          obtain ⟨rfl,rfl⟩ := Prod.mk.inj named
          exact .inr (List.mem_filterMap.mpr ⟨_,List.mem_cons_self,rfl⟩)
        | _ => exact .inl same
      · obtain ⟨y,member,is⟩ := List.mem_filterMap.mp inside
        exact .inr (List.mem_filterMap.mpr ⟨y,List.mem_cons_of_mem _ member,is⟩)

end

/-! ### What a print target adds -/

def Effect.IsLine : Effect → Prop
  | .serial _ | .frame _ _ _ _ => True
  | .saveCounter _ | .update _ _ | .sensor _ | .dispatch _ _ => False

theorem serialWrite_lines (line : Bytes) (c : UInt8) : ∀ x ∈ (serialWrite line c).2, x.IsLine := by
  unfold serialWrite
  split
  · exact List.forall_mem_singleton.mpr trivial
  · simp

theorem flushLine_lines (key : Key) (counter : UInt64) (f : LineFramer) :
    ∀ x ∈ (flushLine key counter f).2, x.IsLine := by
  unfold flushLine
  split
  · simp
  · exact List.forall_mem_singleton.mpr trivial

theorem framerWrite_lines (key : Key) (counter : UInt64) (f : LineFramer) (c : UInt8) :
    ∀ x ∈ (f.write key counter c).2, x.IsLine := by
  unfold LineFramer.write
  split
  · exact flushLine_lines key counter f
  split
  · simp
  split <;> simp

section
variable {write : σ → UInt8 → σ × List Effect} {finish : σ → List Effect} {last : Option (UInt64 × Bytes)}

theorem changesFrom_lines {effects : List Effect} (rest : List Effect) (lines : ∀ x ∈ effects, x.IsLine) :
    changesFrom last (effects ++ rest) = changesFrom last rest := by
  induction effects with
  | nil => rfl
  | cons x effects ih =>
    obtain ⟨here,later⟩ := List.forall_mem_cons.mp lines
    cases x with
    | serial | frame => exact ih later
    | saveCounter | update | sensor | dispatch => cases here

/-- A handler's changes are its own, whatever it prints to. -/
theorem changesFrom_emit (writes : ∀ s c, ∀ x ∈ (write s c).2, x.IsLine) (finishes : ∀ s, ∀ x ∈ finish s, x.IsLine)
    (s : σ) (out : List Output) : changesFrom last (emit write finish s out) = (flashOf out).map (last,·) := by
  induction out generalizing s with
  | nil =>
    have lines := @changesFrom_lines last _ [] (finishes s)
    rw [List.append_nil] at lines
    exact lines
  | cons o out ih =>
    cases o with
    | print text => exact (changesFrom_lines _ (printTo_all write _ writes s text)).trans (ih _)
    | update address value => exact ih s
    | sensor call =>
      rw [emit,changesFrom,flashOf,List.filterMap_cons]
      simp only [Effect.change,Effect.session,Output.change]
      rw [ih]
      split <;> rfl

theorem changesFrom_plain (out : List Output) : changesFrom last (plainOutput out) = (flashOf out).map (last,·) :=
  changesFrom_emit serialWrite_lines (fun _ _ none => by cases none) _ _

/-- All changes of a framed dispatch have its command behind them. -/
theorem changesFrom_framed (key : Key) (counter : UInt64) (e : Eeprom) (lib : Library) (line : Bytes) :
    changesFrom last (framedDispatch key counter e lib line) =
      (flashOf (dispatch e lib line)).map (some (counter,line),·) :=
  changesFrom_emit (framerWrite_lines key counter) (flushLine_lines key counter) _ _

end

/-! ### The handlers -/

section
variable {out rest : List Output} {call : SensorCall}

@[simp] theorem flashOf_append : flashOf (out ++ rest) = flashOf out ++ flashOf rest := List.filterMap_append

@[simp] theorem flashOf_println (pieces : List Bytes) : flashOf (println pieces) = [] := by
  induction pieces with
  | nil => rfl
  | cons piece pieces ih => exact ih

@[simp] theorem flashOf_say (text : String) : flashOf (say text) = [] := flashOf_println _

@[simp] theorem flashOf_updates (writes : List (Nat × UInt8)) : flashOf (updates writes) = [] := by
  induction writes with
  | nil => rfl
  | cons w writes ih => exact ih

def AtMost (call : SensorCall) (out : List Output) : Prop := flashOf out = [] ∨ flashOf out = [call]

theorem AtMost.print (pieces : List Bytes) : AtMost call (println pieces) := .inl (flashOf_println _)

theorem AtMost.after (text : String) (most : AtMost call rest) : AtMost call (say text ++ rest) := by
  rwa [AtMost,flashOf_append,flashOf_say,List.nil_append]

theorem AtMost.sensor {other : SensorCall} (still : other.changesFlash = false) (most : AtMost call rest) :
    AtMost call (.sensor other :: rest) := by
  have none : Output.change (.sensor other) = none := by simp [Output.change,still]
  rwa [AtMost,flashOf,List.filterMap_cons_none none]

theorem AtMost.change (changes : call.changesFlash = true) (none : flashOf rest = []) :
    AtMost call (.sensor call :: rest) := by
  have some : Output.change (.sensor call) = some call := by simp [Output.change,changes]
  right
  rw [flashOf,List.filterMap_cons_some some]
  exact congrArg _ none

theorem AtMost.ite {c : Prop} [Decidable c] (yes : AtMost call out) (no : AtMost call rest) :
    AtMost call (if c then out else rest) := iteInduction (fun _ => yes) fun _ => no

end

theorem flashOf_ite {c : Prop} [Decidable c] {out rest : List Output} (yes : flashOf out = [])
    (no : flashOf rest = []) : flashOf (if c then out else rest) = [] :=
  iteInduction (motive := fun o => flashOf o = []) (fun _ => yes) fun _ => no

theorem handleEnroll_atMost (lib : Library) (slot : Int) :
    AtMost (.storeModel (UInt16.ofInt slot)) (handleEnroll lib slot) := by
  refine .ite (.print _) (.after _ (.sensor rfl (.ite (.print _) (.sensor rfl (.ite (.print _) ?_)))))
  refine .after _ (.ite (.print _) (.after _ (.sensor rfl (.ite (.print _) (.sensor rfl (.ite (.print _) ?_))))))
  refine .sensor rfl (.ite (.print _) (.ite (.print _) (.change rfl ?_)))
  exact flashOf_ite (flashOf_println _) (flashOf_println _)

theorem handleVerify_still (lib : Library) : flashOf (handleVerify lib) = [] := by
  unfold handleVerify
  simp only [flashOf_append,flashOf_say,List.nil_append]
  refine flashOf_ite (flashOf_println _) ?_
  refine flashOf_ite (flashOf_println _) ?_
  exact flashOf_ite (flashOf_println _) (flashOf_ite (flashOf_println _) (flashOf_println _))

theorem handleDelete_atMost (lib : Library) (slot : Int) :
    AtMost (.deleteModel (UInt16.ofInt slot)) (handleDelete lib slot) :=
  .ite (.print _) (.change rfl (flashOf_ite (flashOf_println _) (flashOf_println _)))

theorem handleClear_atMost (lib : Library) : AtMost .emptyDatabase (handleClear lib true) :=
  .ite (.print _) (.change rfl (flashOf_ite (flashOf_println _) (flashOf_println _)))

theorem handlePair_still (e : Eeprom) (args : Bytes) : flashOf (handlePair e args) = [] := by
  fun_cases handlePair
  all_goals simp

theorem emitInfo_still (lib : Library) : flashOf (emitInfo lib) = [] :=
  flashOf_ite (flashOf_println _) (flashOf_println _)

theorem clear_handler (e : Eeprom) (lib : Library) :
    dispatch e lib (ascii "clear confirm") = handleClear lib true := by
  unfold dispatch
  rw [if_neg (by decide),if_neg (by decide),if_neg (by decide),if_neg (by decide),if_pos (by decide)]

theorem prefix_split {word line : Bytes} (lead : word.isPrefixOf line = true) :
    line = word ++ line.drop word.length := by
  obtain ⟨rest,rfl⟩ := List.isPrefixOf_iff_prefix.mp lead
  rw [List.drop_left]

/-- A dispatch changes the flash at most once, and only as its line orders. -/
theorem dispatch_flash (e : Eeprom) (lib : Library) (line : Bytes) (noNul : 0 ∉ line) :
    flashOf (dispatch e lib line) = [] ∨ ∃ call, Orders line call ∧ flashOf (dispatch e lib line) = [call] := by
  have ordered {call : SensorCall} {out : List Output} (orders : Orders line call) (most : AtMost call out) :
      flashOf out = [] ∨ ∃ call, Orders line call ∧ flashOf out = [call] :=
    most.imp_right fun one => ⟨call,orders,one⟩
  fun_cases dispatch
  case case5 same => exact ordered ((equals_clean noNul).mp same ▸ .clear) (handleClear_atMost lib)
  case case6 lead =>
    rw [slotArg_substring]
    refine ordered ?_ (handleEnroll_atMost lib _)
    have split := prefix_split lead
    exact split ▸ .enroll _
  case case7 lead =>
    rw [slotArg_substring]
    refine ordered ?_ (handleDelete_atMost lib _)
    have split := prefix_split lead
    exact split ▸ .delete _
  all_goals left
  case case1 => exact emitInfo_still lib
  case case3 => exact handleVerify_still lib
  case case9 => exact handlePair_still e _
  case case10 => exact flashOf_ite (flashOf_println _) (by simp)
  all_goals simp [emitCount,handleClear,handleStatus]

/-! ### Success only after the change -/

/-- No line says OK before the first change. -/
inductive Earned : List Output → Prop where
  | change (call : SensorCall) : call.changesFlash = true → Earned (.sensor call :: rest)
  | sensor (call : SensorCall) : Earned rest → Earned (.sensor call :: rest)
  | progress (text : String) : IsProgress (ascii text) → lineFeed ∉ ascii text → Earned rest → Earned (say text ++ rest)
  | error (pieces : List Bytes) : (ascii "ERR").isPrefixOf pieces.flatten = true → lineFeed ∉ pieces.flatten →
      Earned (println pieces)

theorem Earned.ite {c : Prop} [Decidable c] {yes no : List Output} (pos : Earned yes) (neg : Earned no) :
    Earned (if c then yes else no) := iteInduction (fun _ => pos) fun _ => neg

theorem Earned.say (text : String) (line : (ascii "ERR").isPrefixOf (ascii text) = true ∧ lineFeed ∉ ascii text) :
    Earned (Firmware.say text) := .error _ (by simpa using line.1) (by simpa using line.2)

/-- A refusal with its code. -/
theorem Earned.code (word : String) (n : Nat)
    (line : (ascii "ERR").isPrefixOf (ascii word) = true ∧ lineFeed ∉ ascii word) :
    Earned (println [ascii word,number n]) := by
  refine .error _ ?_ ?_
  · rw [List.flatten_cons]
    exact List.isPrefixOf_iff_prefix.mpr ((List.isPrefixOf_iff_prefix.mp line.1).trans (List.prefix_append _ _))
  · simpa using ⟨line.2,(number_lineText n).lineFeed⟩

theorem handleEnroll_earned (lib : Library) (slot : Int) : Earned (handleEnroll lib slot) := by
  refine .ite (.say _ (by decide)) (.progress _ (by decide +kernel) (by decide +kernel) (.sensor _ ?_))
  refine .ite (.code _ _ (by decide)) (.sensor _ (.ite (.code _ _ (by decide +kernel)) ?_))
  refine .progress _ (by decide) (by decide +kernel) (.ite (.say _ (by decide +kernel)) ?_)
  refine .progress _ (by decide) (by decide +kernel) (.sensor _ (.ite (.code _ _ (by decide +kernel)) ?_))
  refine .sensor _ (.ite (.code _ _ (by decide)) (.sensor _ (.ite (.say _ (by decide +kernel)) ?_)))
  exact .ite (.code _ _ (by decide)) (.change _ rfl)

theorem handleDelete_earned (lib : Library) (slot : Int) : Earned (handleDelete lib slot) :=
  .ite (.say _ (by decide)) (.change _ rfl)

theorem handleClear_earned (lib : Library) : Earned (handleClear lib true) :=
  .ite (.say _ (by decide)) (.change _ rfl)

theorem Orders.earned {line : Bytes} {call : SensorCall} (orders : Orders line call) (e : Eeprom) (lib : Library) :
    Earned (dispatch e lib line) := by
  cases orders with
  | enroll a =>
    rw [dispatch_enroll]
    exact handleEnroll_earned lib _
  | delete a =>
    rw [dispatch_delete]
    exact handleDelete_earned lib _
  | clear =>
    rw [clear_handler]
    exact handleClear_earned lib

/-- No frame says OK before the first change. -/
def Covered : List Effect → Prop
  | [] => True
  | x :: rest => x.change.isSome = true ∨ (∀ k c s b, x = .frame k c s b → ¬ SaysOk b) ∧ Covered rest

theorem Covered.split {before after : List Effect} {k : Key} {c : UInt64} {s : UInt32} {b : Bytes}
    (covered : Covered (before ++ .frame k c s b :: after)) (ok : SaysOk b) :
    ∃ x ∈ before, x.change.isSome = true := by
  induction before with
  | nil =>
    rcases covered with none | ⟨refused,_⟩
    · cases none
    · exact absurd ok (refused k c s b rfl)
  | cons x before ih =>
    rcases covered with here | ⟨_,later⟩
    · exact ⟨x,List.mem_cons_self,here⟩
    · obtain ⟨y,member,changed⟩ := ih later
      exact ⟨y,List.mem_cons_of_mem _ member,changed⟩

theorem not_ok_of_error {text : Bytes} (error : (ascii "ERR").isPrefixOf text = true) : ¬ SaysOk (kept text) := by
  intro ok
  have short := kept_head _ text (by decide) (by decide) error
  cases line : kept text with
  | nil =>
    rw [line] at short
    cases short
  | cons c rest =>
    have first : ascii "ERR" = [69,82,82] ∧ ascii "OK" = [79,75] := by decide
    simp only [SaysOk,line,first,List.isPrefixOf,Bool.and_eq_true,beq_iff_eq] at ok short
    exact absurd (ok.1.trans short.1.symm) (by decide)

theorem not_ok_of_progress {text : Bytes} (progress : IsProgress text) : ¬ SaysOk (kept text) := fun ok =>
  terminal_not_progress _ (.inl ok) (kept_progress text progress)

/-- The framer keeps the order of lines and changes. -/
theorem Earned.covered (key : Key) (counter : UInt64) {out : List Output} (earned : Earned out) (seq : UInt32) :
    Covered (emit (LineFramer.write key counter) (lastFlush key counter) ⟨[],seq⟩ out) := by
  induction earned generalizing seq with
  | change call changes => exact .inl (by simp [Effect.change,changes])
  | sensor call _ ih => exact .inr ⟨fun _ _ _ _ same => (by cases same),ih seq⟩
  | progress text progress clean _ ih =>
    have one : [ascii text].flatten = ascii text := List.append_nil _
    have printed := printTo_line key counter seq _ clean (progress_ne_nil _ (kept_progress _ progress))
    rw [Firmware.say,emit_println,one,printed]
    refine .inr ⟨fun _ _ _ _ same => ?_,ih (seq + 1)⟩
    cases same
    exact not_ok_of_progress progress
  | error pieces error clean =>
    have printed := printTo_line key counter seq _ clean (terminal_ne_nil _ (kept_terminal _ (.inr error)))
    have flushed := emit_println key counter ⟨[],seq⟩ pieces []
    rw [List.append_nil,printed] at flushed
    rw [flushed]
    refine .inr ⟨fun _ _ _ _ same => ?_,trivial⟩
    cases same
    exact not_ok_of_error error

end R503.Firmware
