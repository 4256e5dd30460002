import R503.FieldLines
import R503.FramedSession
import R503.SensorWorker
import R503.SlotArguments

/-! The calls of the daemon's driver (sensor.rs): the command each one sends, what it reads back, what it means
for the fingerprint module, and that the Nano's handlers answer just that. -/
namespace R503.Fprint

open Text Host Firmware SensorActor

/-! ### The calls and their results -/

def datasheetCapacity : Nat := 200

def infoReply (executed : Executed) : Except SensorError SensorInfo := do
  let kv := parseKv (← expectOk (← executed))
  let capacity := (parseField (2 ^ 16) kv (ascii "capacity")).toOption.getD datasheetCapacity
  let enrolled := (parseField (2 ^ 16) kv (ascii "enrolled")).toOption.getD 0
  return ⟨(kv.reverse.lookup (ascii "fw")).getD [],UInt16.ofNat capacity,UInt16.ofNat enrolled⟩

/-- `identify` reads its answer as `verify` does. -/
def identifyReply : Executed → Except SensorError MatchResult := verifyReply

def doneReply (executed : Executed) : Except SensorError Unit := do
  let _ ← expectOk (← executed)

def clearReply : Executed → Except SensorError Unit := doneReply

def ledOffReply : Executed → Except SensorError Unit := doneReply

def wakeReply (executed : Executed) : Except SensorError Bool := do
  let kv := parseKv (← expectOk (← executed))
  return (kv.reverse.lookup (ascii "wake")).any (· == ascii "1")

def pingReply (executed : Executed) : Except SensorError Bool := do
  return (ascii "OK pong").isPrefixOf (← executed)

inductive DriverCall where
  | info
  | enroll (slot : UInt8)
  | verify
  | identify
  | delete (slot : UInt8)
  | clear
  | wake
  | ping
  | ledOff
  deriving DecidableEq

def DriverCall.text : DriverCall → Bytes
  | .info => ascii "info"
  | .enroll slot => ascii "enroll " ++ Decimal.render slot.toNat
  | .verify => ascii "verify"
  | .identify => ascii "identify"
  | .delete slot => ascii "delete " ++ Decimal.render slot.toNat
  | .clear => ascii "clear confirm"
  | .wake => ascii "wake"
  | .ping => ascii "ping"
  | .ledOff => ascii "led off"

def DriverCall.reply : DriverCall → Executed → Except SensorError Value
  | .info,executed => (infoReply executed).map .info
  | .enroll _,executed => (enrollReply executed).map .slot
  | .verify,executed => (verifyReply executed).map .matched
  | .identify,executed => (identifyReply executed).map .matched
  | .delete _,executed => (deleteReply executed).map .slot
  | .clear,executed => (clearReply executed).map fun _ => .done
  | .wake,executed => (wakeReply executed).map .flag
  | .ping,executed => (pingReply executed).map .flag
  | .ledOff,executed => (ledOffReply executed).map fun _ => .done

/-! ### What a call means -/

abbrev Outcome := List Bytes × Except SensorError Value

def Outcome.after (text : String) (outcome : Outcome) : Outcome := (ascii text :: outcome.1,outcome.2)

def refused (code : String) : Outcome := ([],.error (.command (ascii code) none))

def failed (code : String) (p : UInt8) : Outcome := ([],.error (.command (ascii code ++ Decimal.render p.toNat) none))

def outOfRange : Outcome := ([],.error (.command (ascii "bad_args") (some (ascii "slot_out_of_range"))))

def returns (result : Value) : Outcome := ([],.ok result)

section
variable (lib : Library)

def infoOutcome : Outcome :=
  if ¬ lib.passwordOk then refused "sensor_unreachable"
  else returns (.info ⟨ascii "1.1",lib.capacity,lib.templateCount⟩)

/-- Two captures make a model, which goes into the slot. -/
def enrollOutcome (slot : UInt8) : Outcome :=
  if lib.capacity.toNat ≤ slot.toNat then outOfRange
  else .after "place_finger" <|
    if waitForFingerCapture lib.firstImages ≠ fingerprintOk then
      failed "capture_failed=" (waitForFingerCapture lib.firstImages)
    else if lib.image2Tz1 ≠ fingerprintOk then failed "image2tz_failed=" lib.image2Tz1
    else .after "remove_finger" <|
      if waitForFingerRemoval lib.removalImages ≠ fingerprintOk then refused "finger_not_removed"
      else .after "place_again" <|
        if waitForFingerCapture lib.secondImages ≠ fingerprintOk then
          failed "second_capture_failed=" (waitForFingerCapture lib.secondImages)
        else if lib.image2Tz2 ≠ fingerprintOk then failed "image2tz_failed=" lib.image2Tz2
        else if lib.createModel = fingerprintEnrollMismatch then refused "mismatch"
        else if lib.createModel ≠ fingerprintOk then failed "create_model_failed=" lib.createModel
        else if lib.storeModel ≠ fingerprintOk then failed "store_failed=" lib.storeModel
        else returns (.slot slot)

/-- The search is over all slots; a slot the daemon cannot name is no match. -/
def verifyOutcome : Outcome :=
  .after "place_finger" <|
    if waitForFingerCapture lib.firstImages ≠ fingerprintOk then refused "timeout"
    else if lib.image2Tz1 ≠ fingerprintOk then refused "poor_quality"
    else if lib.fingerSearch = fingerprintNotFound then refused "no_match"
    else if lib.fingerSearch ≠ fingerprintOk then failed "search_failed=" lib.fingerSearch
    else if lib.fingerId < 256 then returns (.matched ⟨lib.fingerId.toUInt8,lib.confidence⟩)
    else ([],.error (.protocol (ascii "bad match")))

def deleteOutcome (slot : UInt8) : Outcome :=
  if lib.capacity.toNat ≤ slot.toNat then outOfRange
  else if lib.deleteModel = fingerprintOk then returns (.slot slot)
  else failed "delete_failed=" lib.deleteModel

def clearOutcome : Outcome :=
  if lib.emptyDatabase = fingerprintOk then returns .done else failed "clear_failed=" lib.emptyDatabase

/-- What a call means, in terms of the module alone. -/
def DriverCall.outcome : DriverCall → Outcome
  | .info => infoOutcome lib
  | .enroll slot => enrollOutcome lib slot
  | .verify => verifyOutcome lib
  | .identify => verifyOutcome lib
  | .delete slot => deleteOutcome lib slot
  | .clear => clearOutcome lib
  | .wake => returns (.flag lib.wakeLow)
  | .ping => returns (.flag true)
  | .ledOff => returns .done

end

/-! ### The lines of a handler -/

def Carried (line : Bytes) : Prop := line.length ≤ lineLimit ∧ Visible line

instance (line : Bytes) : Decidable (Carried line) := inferInstanceAs (Decidable (_ ∧ _))

/-- Just these lines are printed and no EEPROM byte is updated. -/
inductive Prints : List Bytes → List Output → Prop where
  | nothing : Prints [] []
  | sensor (call : SensorCall) : Prints lines out → Prints lines (.sensor call :: out)
  | line (pieces : List Bytes) : pieces.flatten ≠ [] → Carried pieces.flatten → Prints lines out →
      Prints (pieces.flatten :: lines) (println pieces ++ out)

theorem Visible.lineText {line : Bytes} (visible : Visible line) : LineText line := by
  intro c member
  rcases visible c member with rfl | shown
  · decide
  · refine ⟨?_,UInt8.lt_trans shown.2 (by decide)⟩
    rintro rfl
    exact absurd shown (by decide)

theorem Visible.kept {line : Bytes} (carried : Carried line) : kept line = line := by
  have noReturn : line.filter (· != carriageReturn) = line := by
    refine List.filter_eq_self.mpr fun c member => bne_iff_ne.mpr ?_
    rintro rfl
    exact absurd (carried.2 _ member) (by decide)
  have short := carried.1
  rw [Firmware.kept,noReturn]
  exact List.take_of_length_le (short.trans (by decide))

section
variable {lines : List Bytes} {out : List Output}

theorem Prints.carried (prints : Prints lines out) : ∀ line ∈ lines, Carried line := by
  induction prints with
  | nothing => exact fun _ none => by cases none
  | sensor _ _ ih => exact ih
  | line pieces _ carried _ ih => exact List.forall_mem_cons.mpr ⟨carried,ih⟩

/-- The framer makes one frame of each line. -/
theorem Prints.frames (key : Key) (counter : UInt64) (seq : UInt32) (prints : Prints lines out) :
    frames (emit (LineFramer.write key counter) (lastFlush key counter) ⟨[],seq⟩ out) = numbered counter seq lines := by
  induction prints generalizing seq with
  | nothing => rfl
  | sensor call _ ih => exact ih seq
  | line pieces some carried _ ih =>
    have same := Visible.kept carried
    have printed := printTo_line key counter seq _ carried.2.lineText.lineFeed (same.symm ▸ some)
    rw [emit_println,printed,same]
    exact congrArg (List.cons _) (ih (seq + 1))

/-- A plain line goes out as it is. -/
theorem Prints.serial (prints : Prints lines out) : (plainOutput out).filterMap Effect.wire = lines := by
  induction prints with
  | nothing => rfl
  | sensor call _ ih => exact ih
  | line pieces _ carried _ ih =>
    have clean : ∀ piece ∈ pieces, lineFeed ∉ piece := fun piece inside here =>
      carried.2.lineText.lineFeed (List.mem_flatten_of_mem inside here)
    rw [plainOutput,emit_serial_println _ _ _ _ clean]
    exact congrArg (List.cons _) ih

end

/-- A handler's progress lines, and a last line that `reply` turns into the result. -/
def Answers (reply : Executed → Except SensorError Value) (room : Nat) (out : List Output) (outcome : Outcome) :
    Prop :=
  ∃ last, IsTerminal last ∧ reply (.ok last) = outcome.2 ∧ outcome.1.length ≤ room ∧
    Prints (outcome.1.map (ascii "PROGRESS " ++ ·) ++ [last]) out

section
variable {reply : Executed → Except SensorError Value} {room : Nat} {out rest : List Output}
  {outcome other : Outcome}

theorem Answers.sensor (call : SensorCall) (answers : Answers reply room out outcome) :
    Answers reply room (.sensor call :: out) outcome := by
  obtain ⟨last,terminal,result,few,prints⟩ := answers
  exact ⟨last,terminal,result,few,.sensor call prints⟩

theorem Answers.progress (line text : String)
    (known : ascii line = ascii "PROGRESS " ++ ascii text ∧ Carried (ascii "PROGRESS " ++ ascii text))
    (answers : Answers reply room out outcome) :
    Answers reply (room + 1) (say line ++ out) (outcome.after text) := by
  obtain ⟨last,terminal,result,few,prints⟩ := answers
  have printed : [ascii line].flatten = ascii "PROGRESS " ++ ascii text := (List.append_nil _).trans known.1
  refine ⟨last,terminal,result,Nat.succ_le_succ few,?_⟩
  have whole := Prints.line [ascii line] (printed ▸ by simp [ascii]) (printed ▸ known.2) prints
  rw [printed] at whole
  exact whole

theorem Answers.final (pieces : List Bytes) (terminal : IsTerminal pieces.flatten) (carried : Carried pieces.flatten)
    (result : reply (.ok pieces.flatten) = outcome.2) (silent : outcome.1 = []) :
    Answers reply room (println pieces) outcome := by
  have printed := Prints.line pieces (terminal_ne_nil _ terminal) carried .nothing
  rw [List.append_nil] at printed
  exact ⟨pieces.flatten,terminal,result,silent ▸ Nat.zero_le _,by rw [silent]; exact printed⟩

theorem Answers.ite {c d : Prop} [Decidable c] [Decidable d] (same : c ↔ d) (yes : c → Answers reply room out outcome)
    (no : ¬ c → Answers reply room rest other) :
    Answers reply room (if c then out else rest) (if d then outcome else other) := by
  by_cases holds : c
  · rw [if_pos holds,if_pos (same.mp holds)]
    exact yes holds
  · rw [if_neg holds,if_neg fun there => holds (same.mpr there)]
    exact no holds

end

/-! ### Refusals -/

def Passes (reply : Executed → Except SensorError Value) : Prop :=
  ∀ line e, expectOk line = .error e → reply (.ok line) = .error e

theorem errLine_word {word : Bytes} (shown : ∀ c ∈ word, Text.Printable c) :
    expectOk (ascii "ERR " ++ word) = .error (.command word none) := by
  have blankless : splitBlank word = none := by
    induction word with
    | nil => rfl
    | cons c word ih =>
      obtain ⟨first,later⟩ := List.forall_mem_cons.mp shown
      simp only [splitBlank,whitespaceLen_printable c word first,ih later,Option.map_none]
  have cut : splitBlank (ascii "ERR " ++ word) = some (ascii "ERR",word) := rfl
  have refuse : stripPrefix (ascii "OK") (ascii "ERR " ++ word) = none := rfl
  simp only [expectOk,refuse,errLine,cut,blankless]

theorem visible_word {word : Bytes} (shown : ∀ c ∈ word, Text.Printable c) : Visible word := fun c member =>
  .inr (shown c member)

section
variable {reply : Executed → Except SensorError Value} {room : Nat} (passes : Passes reply)
include passes

/-- A last line `ERR` with one word. -/
theorem Answers.error (pieces : List Bytes) (word : Bytes) (printed : pieces.flatten = ascii "ERR " ++ word)
    (shown : ∀ c ∈ word, Text.Printable c) (short : word.length ≤ 60) :
    Answers reply room (println pieces) ([],.error (.command word none)) := by
  refine .final pieces ?_ ?_ ?_ rfl
  · rw [printed]
    exact .inr rfl
  · rw [printed]
    refine ⟨?_,List.forall_mem_append.mpr ⟨by decide,visible_word shown⟩⟩
    have lead : (ascii "ERR ").length = 4 := rfl
    rw [List.length_append,lead,lineLimit]
    omega
  · rw [printed]
    exact passes _ _ (errLine_word shown)

theorem Answers.refused (line code : String) (known : ascii line = ascii "ERR " ++ ascii code ∧
    (∀ c ∈ ascii code, Text.Printable c) ∧ (ascii code).length ≤ 60) :
    Answers reply room (say line) (refused code) :=
  .error passes _ _ ((List.append_nil _).trans known.1) known.2.1 known.2.2

theorem Answers.failed (line code : String) (p : UInt8) (known : ascii line = ascii "ERR " ++ ascii code ∧
    (∀ c ∈ ascii code, Text.Printable c) ∧ (ascii code).length ≤ 50) :
    Answers reply room (println [ascii line,number p.toNat]) (failed code p) := by
  refine .error passes _ _ ?_ (List.forall_mem_append.mpr ⟨known.2.1,printable_digits _⟩) ?_
  · simp [known.1,number]
  · have digits := length_number p.toNat 3 (p.toNat_lt.trans (by decide)) (by decide)
    have short := known.2.2
    rw [number] at digits
    rw [List.length_append]
    omega

theorem Answers.outOfRange : Answers reply room (say "ERR bad_args slot_out_of_range") outOfRange := by
  have printed : [ascii "ERR bad_args slot_out_of_range"].flatten = ascii "ERR bad_args slot_out_of_range" :=
    List.append_nil _
  refine .final _ (.inr (by rw [printed]; rfl)) (by rw [printed]; decide) ?_ rfl
  rw [printed]
  exact passes _ _ (by decide)

end

/-- A last line `OK` with its fields. -/
theorem Answers.fields {reply : Executed → Except SensorError Value} {room : Nat} (pieces : List Bytes)
    (kvs : List (Bytes × Bytes)) (result : Except SensorError Value)
    (printed : pieces.flatten = ascii "OK" ++ fields kvs) (good : ∀ kv ∈ kvs, IsField kv)
    (short : pieces.flatten.length ≤ lineLimit)
    (read : ∀ line body, expectOk line = .ok body → parseKv body = kvs → reply (.ok line) = result) :
    Answers reply room (println pieces) ([],result) := by
  obtain ⟨body,accepted,pairs⟩ := expectOk_fields kvs good
  refine .final pieces ?_ ⟨short,?_⟩ ?_ rfl
  · rw [printed]
    exact .inl (List.isPrefixOf_iff_prefix.mpr (List.prefix_append _ _))
  · rw [printed]
    refine List.forall_mem_append.mpr ⟨by decide,fun c member => ?_⟩
    obtain ⟨kv,inside,here⟩ := List.mem_flatMap.mp member
    exact (List.mem_cons.mp here).imp id (field_word (good kv inside) c)
  · rw [printed]
    exact read _ body accepted pairs

theorem passes_reply (call : DriverCall) (notPing : call ≠ .ping) : Passes call.reply := by
  intro line e refused
  cases call with
  | ping => exact absurd rfl notPing
  | info | enroll | verify | identify | delete | clear | wake | ledOff =>
    simp [DriverCall.reply,infoReply,enrollReply,verifyReply,identifyReply,deleteReply,slotReply,clearReply,doneReply,
      wakeReply,ledOffReply,refused,bind,Except.bind,Except.map]

/-! ### The calls -/

theorem isField {key value : Bytes} (word : (∀ c ∈ key, Text.Printable c) ∧ 61 ∉ key)
    (shown : ∀ c ∈ value, Text.Printable c) : IsField (key,value) := ⟨word.1,word.2,shown⟩

theorem isField_number {key : Bytes} (n : Nat) (word : (∀ c ∈ key, Text.Printable c) ∧ 61 ∉ key) :
    IsField (key,number n) := isField word (printable_digits n)

theorem natFromStr_render_none (bound n : Nat) (large : bound ≤ n) : natFromStr bound (Decimal.render n) = none := by
  unfold natFromStr
  refine if_neg fun good => ?_
  obtain ⟨_,_,below⟩ := good
  have unsigned : (Decimal.render n).head? ≠ some 43 := by
    intro sign
    exact absurd (Decimal.render_digits n 43 (List.mem_of_head? sign)) (by decide)
  rw [if_neg unsigned,Decimal.value_render] at below
  omega

/-- A slot number that the firmware prints back is the daemon's own. -/
theorem slotReply_number (key : Bytes) (slot : UInt8) (line body : Bytes) (accepted : expectOk line = .ok body)
    (pairs : parseKv body = [(key,number slot.toNat)]) : slotReply key (.ok line) = .ok slot := by
  have read : parseField (2 ^ 8) (parseKv body) key = .ok slot.toNat := by
    simp [pairs,parseField,number,natFromStr_render _ _ slot.toNat_lt]
  simp only [slotReply,accepted,read,bind,Except.bind,pure,Except.pure,UInt8.ofNat_toNat]

theorem slotArg_slot (slot : UInt8) : slotArg (Decimal.render slot.toNat) = slot.toNat := by
  have small := slot.toNat_lt
  rw [slotArg_eq,leadingNumber_render]
  exact Int.bmod_eq_of_le (by omega) (by omega)

theorem slot_range (lib : Library) (slot : UInt8) :
    ((slot.toNat : Int) < 0 ∨ (slot.toNat : Int) ≥ lib.capacity.toNat) ↔ lib.capacity.toNat ≤ slot.toNat := by omega

/-- The last line of `enroll` and `delete`. -/
theorem slot_answers {reply : Executed → Except SensorError Value} {room : Nat} (line : String) (key : Bytes)
    (slot : UInt8) (known : ascii line = ascii "OK" ++ space :: (key ++ [61]) ∧ (∀ c ∈ key, Text.Printable c) ∧
      61 ∉ key ∧ key.length ≤ 60) (reads : ∀ executed, reply executed = (slotReply key executed).map .slot) :
    Answers reply room (println [ascii line,number ((slot.toNat : Int)).toNat]) (returns (.slot slot)) := by
  obtain ⟨text,shown,fresh,short⟩ := known
  have printed : [ascii line,number ((slot.toNat : Int)).toNat].flatten =
      ascii "OK" ++ fields [(key,number slot.toNat)] := by
    simp [text,fields]
  refine .fields _ [(key,number slot.toNat)] _ printed
    (List.forall_mem_singleton.mpr (isField_number _ ⟨shown,fresh⟩)) ?_ fun line body accepted pairs => ?_
  · have digits := length_number slot.toNat 3 (slot.toNat_lt.trans (by decide)) (by decide)
    have lead : (ascii "OK").length = 2 := rfl
    rw [printed]
    simp only [fields,List.flatMap_cons,List.flatMap_nil,List.append_nil,List.length_append,List.length_cons,lead,
      lineLimit]
    omega
  · rw [reads,slotReply_number key slot line body accepted pairs]
    rfl

theorem enroll_answers (lib : Library) (slot : UInt8) :
    Answers (DriverCall.enroll slot).reply 3 (handleEnroll lib slot.toNat) (enrollOutcome lib slot) := by
  have passes : Passes (DriverCall.enroll slot).reply := passes_reply _ DriverCall.noConfusion
  refine .ite (slot_range lib slot) (fun _ => .outOfRange passes) fun inside => ?_
  refine .progress _ _ (by decide) (.sensor _ ?_)
  refine .ite .rfl (fun _ => .failed passes _ _ _ (by decide)) fun _ => ?_
  refine .sensor _ (.ite .rfl (fun _ => .failed passes _ _ _ (by decide)) fun _ => ?_)
  refine .progress _ _ (by decide) (.ite .rfl (fun _ => .refused passes _ _ (by decide +kernel)) fun _ => ?_)
  refine .progress _ _ (by decide) (.sensor _ ?_)
  refine .ite .rfl (fun _ => .failed passes _ _ _ (by decide)) fun _ => ?_
  refine .sensor _ (.ite .rfl (fun _ => .failed passes _ _ _ (by decide)) fun _ => .sensor _ ?_)
  refine .ite .rfl (fun _ => .refused passes _ _ (by decide)) fun _ => ?_
  refine .ite .rfl (fun _ => .failed passes _ _ _ (by decide)) fun _ => .sensor _ ?_
  refine .ite .rfl (fun _ => .failed passes _ _ _ (by decide)) fun _ => ?_
  exact slot_answers _ (ascii "enrolled") slot (by decide) fun _ => rfl

theorem delete_answers (lib : Library) (slot : UInt8) :
    Answers (DriverCall.delete slot).reply 3 (handleDelete lib slot.toNat) (deleteOutcome lib slot) := by
  have passes : Passes (DriverCall.delete slot).reply := passes_reply _ DriverCall.noConfusion
  refine .ite (slot_range lib slot) (fun _ => .outOfRange passes) fun inside => .sensor _ ?_
  refine .ite .rfl (fun _ => ?_) fun _ => .failed passes _ _ _ (by decide)
  exact slot_answers _ (ascii "deleted") slot (by decide) fun _ => rfl

theorem clear_answers (lib : Library) : Answers DriverCall.clear.reply 3 (handleClear lib true) (clearOutcome lib) := by
  have passes : Passes DriverCall.clear.reply := passes_reply _ DriverCall.noConfusion
  refine .sensor _ (.ite .rfl (fun _ => ?_) fun _ => .failed passes _ _ _ (by decide))
  exact .final [ascii "OK cleared"] (by decide) (by decide +kernel) (by decide +kernel) rfl

/-- A slot above the daemon's range is an error, not some other slot. -/
theorem verifyReply_fields (id confidence : UInt16) (line body : Bytes) (accepted : expectOk line = .ok body)
    (pairs : parseKv body = [(ascii "match",number id.toNat),(ascii "confidence",number confidence.toNat)]) :
    verifyReply (.ok line) =
      if id < 256 then .ok ⟨id.toUInt8,confidence⟩ else .error (.protocol (ascii "bad match")) := by
  have here : (parseKv body).reverse.lookup (ascii "match") = some (number id.toNat) := by
    rw [pairs]
    rfl
  have there : (parseKv body).reverse.lookup (ascii "confidence") = some (number confidence.toNat) := by
    rw [pairs]
    rfl
  have trust : parseField (2 ^ 16) (parseKv body) (ascii "confidence") = .ok confidence.toNat := by
    simp only [parseField,there,number,natFromStr_render _ _ confidence.toNat_lt]
  have bound : id < 256 ↔ id.toNat < 2 ^ 8 := UInt16.lt_iff_toNat_lt
  by_cases small : id < 256
  · have slot : parseField (2 ^ 8) (parseKv body) (ascii "match") = .ok id.toNat := by
      simp only [parseField,here,number,natFromStr_render _ _ (bound.mp small)]
    rw [if_pos small]
    simp only [verifyReply,accepted,slot,trust,bind,Except.bind,pure,Except.pure,UInt16.ofNat_toNat]
    rfl
  · have slot : parseField (2 ^ 8) (parseKv body) (ascii "match") = .error (.protocol (ascii "bad match")) := by
      have large := natFromStr_render_none (2 ^ 8) id.toNat (not_lt.mp fun less => small (bound.mpr less))
      simp only [parseField,here,number,large]
      rfl
    rw [if_neg small]
    simp only [verifyReply,accepted,slot,bind,Except.bind]

theorem verify_answers (lib : Library) (call : DriverCall) (passes : Passes call.reply)
    (reads : ∀ executed, call.reply executed = (verifyReply executed).map .matched) :
    Answers call.reply 3 (handleVerify lib) (verifyOutcome lib) := by
  refine .progress _ _ (by decide) (.sensor _ ?_)
  refine .ite .rfl (fun _ => .refused passes _ _ (by decide)) fun _ => ?_
  refine .sensor _ (.ite .rfl (fun _ => .refused passes _ _ (by decide)) fun _ => .sensor _ ?_)
  refine .ite .rfl (fun _ => .refused passes _ _ (by decide)) fun _ => ?_
  refine .ite .rfl (fun _ => .failed passes _ _ _ (by decide)) fun _ => ?_
  have pieces : ascii "OK match=" = ascii "OK" ++ space :: (ascii "match" ++ [61]) ∧
      ascii " confidence=" = space :: (ascii "confidence" ++ [61]) := by decide
  let kvs := [(ascii "match",number lib.fingerId.toNat),(ascii "confidence",number lib.confidence.toNat)]
  have printed : [ascii "OK match=",number lib.fingerId.toNat,ascii " confidence=",
      number lib.confidence.toNat].flatten = ascii "OK" ++ fields kvs := by
    simp [pieces,kvs,fields]
  have whole : (if lib.fingerId < 256 then returns (.matched ⟨lib.fingerId.toUInt8,lib.confidence⟩)
      else ([],.error (.protocol (ascii "bad match")))) =
        (([],(if lib.fingerId < 256 then .ok ⟨lib.fingerId.toUInt8,lib.confidence⟩
          else .error (.protocol (ascii "bad match")) : Except SensorError MatchResult).map .matched) : Outcome) := by
    split <;> rfl
  rw [whole]
  refine .fields _ kvs _ printed ?_ ?_ fun line body accepted pairs => by
    rw [reads,verifyReply_fields _ _ line body accepted pairs]
  · exact List.forall_mem_cons.mpr ⟨isField_number _ (by decide),
      List.forall_mem_singleton.mpr (isField_number _ (by decide))⟩
  · have finger := length_number lib.fingerId.toNat 5 (lib.fingerId.toNat_lt.trans (by decide)) (by decide)
    have confidence := length_number lib.confidence.toNat 5 (lib.confidence.toNat_lt.trans (by decide)) (by decide)
    have words : (ascii "OK match=").length = 9 ∧ (ascii " confidence=").length = 12 := by decide
    simp only [List.flatten_cons,List.flatten_nil,List.append_nil,List.length_append,words,lineLimit]
    omega

theorem visible_hexNumber (n : Nat) : ∀ c ∈ hexNumber n, Text.Printable c := by
  unfold hexNumber
  split
  · decide
  · intro c member
    obtain ⟨d,digit,rfl⟩ := List.mem_map.mp (List.mem_reverse.mp member)
    have check : ∀ d : Fin 16, Text.Printable (hexDigit d) := by decide
    exact check ⟨d,Nat.digits_lt_base (by decide) digit⟩

def infoFields (lib : Library) : List (Bytes × Bytes) :=
  [(ascii "fw",ascii "1.1"),(ascii "capacity",number lib.capacity.toNat),
    (ascii "enrolled",number lib.templateCount.toNat),
    (ascii "sysid",ascii "0x" ++ hexNumber lib.systemId.toNat),
    (ascii "security",number lib.securityLevel.toNat),(ascii "device_addr",ascii "0x" ++ hexNumber lib.deviceAddr.toNat)]

theorem infoReply_fields (lib : Library) (line body : Bytes) (accepted : expectOk line = .ok body)
    (pairs : parseKv body = infoFields lib) :
    infoReply (.ok line) = .ok ⟨ascii "1.1",lib.capacity,lib.templateCount⟩ := by
  have fw : (parseKv body).reverse.lookup (ascii "fw") = some (ascii "1.1") := by
    rw [pairs]
    rfl
  have capacity : (parseKv body).reverse.lookup (ascii "capacity") = some (number lib.capacity.toNat) := by
    rw [pairs]
    rfl
  have enrolled : (parseKv body).reverse.lookup (ascii "enrolled") = some (number lib.templateCount.toNat) := by
    rw [pairs]
    rfl
  have room : parseField (2 ^ 16) (parseKv body) (ascii "capacity") = .ok lib.capacity.toNat := by
    simp only [parseField,capacity,number,natFromStr_render _ _ lib.capacity.toNat_lt]
  have count : parseField (2 ^ 16) (parseKv body) (ascii "enrolled") = .ok lib.templateCount.toNat := by
    simp only [parseField,enrolled,number,natFromStr_render _ _ lib.templateCount.toNat_lt]
  simp only [infoReply,accepted,fw,room,count,bind,Except.bind,pure,Except.pure,Except.toOption,Option.getD_some,
    UInt16.ofNat_toNat]

theorem info_answers (lib : Library) : Answers DriverCall.info.reply 3 (emitInfo lib) (infoOutcome lib) := by
  have passes : Passes DriverCall.info.reply := passes_reply _ DriverCall.noConfusion
  refine .ite .rfl (fun _ => .refused passes _ _ (by decide)) fun _ => ?_
  have pieces : ascii "OK fw=1.1 capacity=" =
        ascii "OK" ++ space :: (ascii "fw" ++ 61 :: (ascii "1.1" ++ space :: (ascii "capacity" ++ [61]))) ∧
      ascii " enrolled=" = space :: (ascii "enrolled" ++ [61]) ∧
      ascii " sysid=0x" = space :: (ascii "sysid" ++ 61 :: ascii "0x") ∧
      ascii " security=" = space :: (ascii "security" ++ [61]) ∧
      ascii " device_addr=0x" = space :: (ascii "device_addr" ++ 61 :: ascii "0x") := by decide
  refine .fields _ (infoFields lib) _ (by simp [pieces,infoFields,fields]) ?_ ?_ fun line body accepted pairs => ?_
  · have hex (n : Nat) : ∀ c ∈ ascii "0x" ++ hexNumber n, Text.Printable c :=
      List.forall_mem_append.mpr ⟨by decide,visible_hexNumber n⟩
    refine List.forall_mem_cons.mpr ⟨by decide,?_⟩
    refine List.forall_mem_cons.mpr ⟨isField_number _ (by decide),?_⟩
    refine List.forall_mem_cons.mpr ⟨isField_number _ (by decide),?_⟩
    refine List.forall_mem_cons.mpr ⟨isField (by decide) (hex _),?_⟩
    refine List.forall_mem_cons.mpr ⟨isField_number _ (by decide),?_⟩
    exact List.forall_mem_singleton.mpr (isField (by decide) (hex _))
  · have capacity := length_number lib.capacity.toNat 5 (lib.capacity.toNat_lt.trans (by decide)) (by decide)
    have enrolled := length_number lib.templateCount.toNat 5 (lib.templateCount.toNat_lt.trans (by decide)) (by decide)
    have system := length_hexNumber lib.systemId.toNat 4 lib.systemId.toNat_lt (by decide)
    have security := length_number lib.securityLevel.toNat 5 (lib.securityLevel.toNat_lt.trans (by decide)) (by decide)
    have address := length_hexNumber lib.deviceAddr.toNat 8 lib.deviceAddr.toNat_lt (by decide)
    have words : (ascii "OK fw=1.1 capacity=").length = 19 ∧ (ascii " enrolled=").length = 10 ∧
        (ascii " sysid=0x").length = 9 ∧ (ascii " security=").length = 10 ∧
          (ascii " device_addr=0x").length = 15 := by decide
    simp only [List.flatten_cons,List.flatten_nil,List.append_nil,List.length_append,words,lineLimit]
    omega
  · change (infoReply (.ok line)).map _ = _
    rw [infoReply_fields lib line body accepted pairs]
    rfl

theorem wake_answers (lib : Library) :
    Answers DriverCall.wake.reply 3 (println [ascii "OK wake=",if lib.wakeLow then ascii "1" else ascii "0"])
      (returns (.flag lib.wakeLow)) := by
  cases lib.wakeLow
  · exact .final _ (by decide) (by decide +kernel) (by decide +kernel) rfl
  · exact .final _ (by decide) (by decide +kernel) (by decide +kernel) rfl

/-- The Nano answers each command of the driver with what the call means. -/
theorem call_answers (call : DriverCall) (lib : Library) (e : Eeprom) :
    Answers call.reply 3 (dispatch e lib call.text) (call.outcome lib) := by
  cases call with
  | info => exact info_answers lib
  | enroll slot =>
    rw [DriverCall.text,dispatch_enroll,slotArg_slot]
    exact enroll_answers lib slot
  | verify => exact verify_answers lib .verify (passes_reply _ DriverCall.noConfusion) fun _ => rfl
  | identify => exact verify_answers lib .identify (passes_reply _ DriverCall.noConfusion) fun _ => rfl
  | delete slot =>
    rw [DriverCall.text,dispatch_delete,slotArg_slot]
    exact delete_answers lib slot
  | clear => exact clear_answers lib
  | wake => exact wake_answers lib
  | ping =>
    have pong : DriverCall.ping.reply (.ok [ascii "OK pong"].flatten) = .ok (.flag true) := by decide
    exact .final [ascii "OK pong"] (by decide) (by decide +kernel) pong rfl
  | ledOff =>
    have off : DriverCall.ledOff.reply (.ok [ascii "OK"].flatten) = .ok .done := by decide
    exact .final [ascii "OK"] (by decide) (by decide +kernel) off rfl

end R503.Fprint
