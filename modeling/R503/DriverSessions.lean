import R503.DriverCalls
import R503.FramedAnswer
import R503.HostCounter

/-! Sessions of the driver (sensor.rs) with the Nano, over the framed channel and over the plain one: a call
gives what it means, whatever the port does to the stream but lose it. -/
namespace R503.Host

open Text

def plainStep (line : Bytes) : ResponseStep :=
  if line = [] then .skip
  else if (ascii "PROGRESS ").isPrefixOf line then .progress (progressText line)
  else if (ascii "OK").isPrefixOf line ∨ (ascii "ERR").isPrefixOf line then .done line
  else .progress (progressText line)

def awaitPlain (cmd : Bytes) (progress : List Bytes) : List Read → List Bytes × Except SensorError Bytes
  | [] | .deadline :: _ => (progress,.error (.timeout cmd))
  | .failed e :: _ => (progress,.error e)
  | .line line :: reads =>
    match plainStep line with
    | .skip => awaitPlain cmd progress reads
    | .progress text => awaitPlain cmd (progress ++ [text]) reads
    | .done body => (progress,.ok body)
    | .fail e => (progress,.error e)

def executeUnframed (cmd : Bytes) (link : Bytes → List Bytes) : List Bytes × Except SensorError Bytes :=
  awaitPlain cmd [] (reads [] (link (cmd ++ [lineFeed])))

/-- `execute`: framed once `set_auth` has given a key and the next counter. -/
def execute (auth : Option (Key × UInt64)) (cmd : Bytes) (saved : Bool) (link : Bytes → List Bytes) :
    List Bytes × Except SensorError Bytes :=
  match auth with
  | some (key,counter) => executeFramed key counter cmd saved link
  | none => executeUnframed cmd link

/-- A plain answer is heard to its end too. -/
theorem awaitPlain_answer (cmd : Bytes) (heard texts : List Bytes) (last : Bytes) (terminal : Firmware.IsTerminal last)
    (more : List Read) :
    awaitPlain cmd heard ((texts.map (ascii "PROGRESS " ++ ·) ++ [last]).map .line ++ more) =
      (heard ++ texts,.ok last) := by
  induction texts generalizing heard with
  | nil =>
    have final : plainStep last = .done last := by
      exact (if_neg (Firmware.terminal_ne_nil last terminal)).trans
        ((if_neg (Firmware.terminal_not_progress last terminal)).trans (if_pos terminal))
    simp only [List.map_nil,List.nil_append,List.map_cons,List.cons_append,awaitPlain,final,List.append_nil]
  | cons text texts ih =>
    have progress : plainStep (ascii "PROGRESS " ++ text) = .progress text := by
      have lead : (ascii "PROGRESS ").isPrefixOf (ascii "PROGRESS " ++ text) = true :=
        List.isPrefixOf_iff_prefix.mpr (List.prefix_append _ _)
      rw [plainStep,if_neg (Firmware.progress_ne_nil _ lead),if_pos lead,progressText,stripPrefix_append]
    simp only [List.map_cons,List.cons_append,awaitPlain,progress,ih,List.append_assoc,List.nil_append]

end R503.Host

namespace R503.Fprint

open Text Host Firmware

/-! ### One line of the Nano -/

/-- A command of the driver is short and printable. -/
theorem text_plain (call : DriverCall) : call.text ≠ [] ∧ call.text.length ≤ 13 ∧ Visible call.text := by
  have numbered (word : Bytes) (slot : UInt8) (known : word ≠ [] ∧ word.length ≤ 10 ∧ Visible word) :
      word ++ Decimal.render slot.toNat ≠ [] ∧ (word ++ Decimal.render slot.toNat).length ≤ 13 ∧
        Visible (word ++ Decimal.render slot.toNat) := by
    obtain ⟨some,short,visible⟩ := known
    have digits := Decimal.render_length_le slot.toNat 3 (by decide) (slot.toNat_lt.trans (by decide))
    refine ⟨by simp [some],?_,List.forall_mem_append.mpr ⟨visible,visible_word (printable_digits _)⟩⟩
    rw [List.length_append]
    omega
  cases call with
  | enroll slot => exact numbered _ slot (by decide)
  | delete slot => exact numbered _ slot (by decide)
  | info | verify | identify | clear | wake | ping | ledOff => decide

theorem Prints.still {lines : List Bytes} {out : List Output} (prints : Prints lines out) :
    ∀ o ∈ out, o.isUpdate = false := by
  induction prints with
  | nothing => exact fun _ none => by cases none
  | sensor _ _ ih => exact List.forall_mem_cons.mpr ⟨rfl,ih⟩
  | line pieces _ _ _ ih => exact List.forall_mem_append.mpr ⟨println_still pieces,ih⟩

theorem Visible.one_line {text : Bytes} (visible : Visible text) : ∀ c ∈ text, c ≠ lineFeed ∧ c ≠ carriageReturn := by
  intro c member
  constructor <;> (rintro rfl; exact absurd (visible _ member) (by decide))

def Idle (x : Effect) : Prop := ∀ e, x.apply e = e

theorem apply_idle {effects : List Effect} (idle : ∀ x ∈ effects, Idle x) (e : Eeprom) :
    effects.foldl Effect.apply e = e := by
  induction effects with
  | nil => rfl
  | cons x effects ih =>
    obtain ⟨here,later⟩ := List.forall_mem_cons.mp idle
    rw [List.foldl_cons,here,ih later]

section
variable {e : Eeprom} {lib : Library} {call : DriverCall} {last : Bytes}

/-- A command is one line of the Nano's input, and so is a frame of it. -/
theorem text_line : loopRun (fun _ => lib) 0 e [] (call.text ++ [lineFeed]) = processLine e lib call.text := by
  obtain ⟨nonempty,short,visible⟩ := text_plain call
  exact loopRun_line (fun _ => lib) e call.text nonempty visible.one_line (by omega)

theorem frame_line (key : Key) (counter : UInt64) :
    loopRun (fun _ => lib) 0 e [] (encodeCommand key counter call.text ++ [lineFeed]) =
      processLine e lib (encodeCommand key counter call.text) := by
  obtain ⟨nonempty,short,visible⟩ := text_plain call
  have digits := counter_digits_le counter
  have bytes : ∀ c ∈ encodeCommand key counter call.text, c ≠ lineFeed ∧ c ≠ carriageReturn := by
    intro c member
    rcases encodeCommand_bytes key counter call.text c member with inside | printable
    · exact visible.one_line c inside
    · constructor <;> (rintro rfl; exact absurd printable (by decide))
  have frame : (encodeCommand key counter call.text).length ≤ 127 := by
    rw [encodeCommand_length]
    omega
  exact loopRun_line (fun _ => lib) e _ (by simp [encodeCommand,ascii]) bytes frame

/-- An unpaired Nano dispatches a command of the driver; a ping it answers itself. -/
theorem plain_entered (unpaired : eeIsPaired e = false) :
    processLine e lib call.text = plainDispatch e lib call.text ∨
      processLine e lib call.text = plainOutput (dispatch e lib call.text) := by
  by_cases ping : call = .ping
  · subst call
    exact .inr rfl
  · have first : call.text.head? ≠ some 112 ∧ call.text.head? ≠ some 115 := by
      cases call with
      | ping => exact absurd rfl ping
      | enroll slot => exact (by decide : some (101 : UInt8) ≠ some 112 ∧ some (101 : UInt8) ≠ some 115)
      | delete slot => exact (by decide : some (100 : UInt8) ≠ some 112 ∧ some (100 : UInt8) ≠ some 115)
      | info | verify | identify | clear | wake | ledOff => decide
    have noNul : 0 ∉ call.text := fun member => absurd ((text_plain call).2.2 0 member) (by decide)
    have notPing : ¬ equals call.text "ping" := fun same => first.1 ((equals_clean noNul).mp same ▸ rfl)
    have notStatus : ¬ equals call.text "status" := fun same => first.2 ((equals_clean noNul).mp same ▸ rfl)
    left
    rw [processLine,if_neg notPing,if_neg notStatus,if_pos (by simp [unpaired])]

theorem plain_idle (lib : Library) (call : DriverCall) (unpaired : eeIsPaired e = false) :
    ∀ x ∈ processLine e lib call.text, Idle x := by
  obtain ⟨_,_,_,_,prints⟩ := call_answers call lib e
  have outputs : ∀ x ∈ plainOutput (dispatch e lib call.text), Idle x := fun x member =>
    (plainOutput_plain _ prints.still x member).isOutput.apply
  rcases plain_entered unpaired with dispatched | printed
  · rw [dispatched]
    exact List.forall_mem_cons.mpr ⟨fun _ => rfl,outputs⟩
  · rwa [printed]

/-- What an unpaired Nano prints for a command of the driver. -/
theorem plain_line (unpaired : eeIsPaired e = false) {lines : List Bytes}
    (prints : Prints lines (dispatch e lib call.text)) :
    (processLine e lib call.text).filterMap Effect.wire = lines := by
  rcases plain_entered unpaired with dispatched | printed
  · rw [dispatched]
    exact prints.serial
  · rw [printed]
    exact prints.serial

/-- A paired Nano commits the counter of a fresh frame and dispatches its command. -/
theorem framed_entered {key : Key} {counter : UInt64} (loaded : eeLoadKey e = some key)
    (fresh : eeLoadCounter e < counter) (below : counter < Firmware.counterCeiling) :
    processLine e lib (encodeCommand key counter call.text) =
      .saveCounter counter :: framedDispatch key counter (eeSaveCounter e counter) lib call.text := by
  obtain ⟨nonempty,short,visible⟩ := text_plain call
  have digits := counter_digits_le counter
  have verified := verifyCommandFrame_encodeCommand key counter call.text nonempty (by simp only [macBufferSize]; omega)
  have accepted : Accepted key e (encodeCommand key counter call.text) counter call.text :=
    ⟨verified_leader _ _ _ _ verified,verified,fresh,below⟩
  have noNul : 0 ∉ call.text := fun member => absurd (visible 0 member) (by decide)
  rw [processLine_accepted key e lib _ counter call.text loaded accepted,afterCommit,
    if_neg (by simp only [innerBufferSize]; omega),cString_clean _ noNul]

theorem framedDispatch_idle (key : Key) (counter : UInt64) :
    ∀ x ∈ framedDispatch key counter e lib call.text, Idle x := by
  obtain ⟨_,_,_,_,prints⟩ := call_answers call lib e
  refine List.forall_mem_cons.mpr ⟨fun _ => rfl,fun x member => ?_⟩
  exact (framedOutput_framed key counter _ _ prints.still x member).isOutput.apply

/-- Any other counter is refused. -/
theorem framed_refused {key : Key} {counter : UInt64} (loaded : eeLoadKey e = some key)
    (stale : ¬ (eeLoadCounter e < counter ∧ counter < Firmware.counterCeiling)) :
    ∀ x ∈ processLine e lib (encodeCommand key counter call.text), x.IsPlain := by
  obtain ⟨nonempty,short,_⟩ := text_plain call
  have digits := counter_digits_le counter
  have verified := verifyCommandFrame_encodeCommand key counter call.text nonempty (by simp only [macBufferSize]; omega)
  refine processLine_refused key e lib _ loaded (framed_not_plain _ (verified_leader _ _ _ _ verified)).2 ?_
  intro ctr inner accepted
  obtain ⟨rfl,_⟩ := Prod.mk.inj (Except.ok.inj (verified.symm.trans accepted.verified))
  exact stale ⟨accepted.fresh,accepted.below⟩

/-- Of all that a frame has done the EEPROM shows at most its counter, which is written first. -/
theorem framed_effects (lib : Library) (call : DriverCall) {key : Key} (counter : UInt64) (loaded : eeLoadKey e = some key) :
    (∀ x ∈ processLine e lib (encodeCommand key counter call.text), Idle x) ∨
      eeLoadCounter e < counter ∧ ∃ rest, processLine e lib (encodeCommand key counter call.text) =
        .saveCounter counter :: rest ∧ ∀ x ∈ rest, Idle x := by
  by_cases fits : eeLoadCounter e < counter ∧ counter < Firmware.counterCeiling
  · exact .inr ⟨fits.1,_,framed_entered loaded fits.1 fits.2,framedDispatch_idle key counter⟩
  · exact .inl fun x member => (framed_refused loaded fits x member).isOutput.apply

/-- What a paired Nano prints for a fresh frame of a command, and that it keeps the counter. -/
theorem framed_line {key : Key} {counter : UInt64} (loaded : eeLoadKey e = some key) (fresh : eeLoadCounter e < counter)
    (below : counter < Firmware.counterCeiling) {lines : List Bytes}
    (prints : Prints lines (dispatch (eeSaveCounter e counter) lib call.text)) :
    (processLine e lib (encodeCommand key counter call.text)).filterMap Effect.wire =
        ((numbered counter 0 lines).map fun f =>
          (encodeResponseFrame key f.1 f.2.1 f.2.2 160).getD (ascii "ERR encode_overflow")) ∧
      (processLine e lib (encodeCommand key counter call.text)).foldl Effect.apply e = eeSaveCounter e counter := by
  rw [framed_entered loaded fresh below]
  constructor
  · rw [List.filterMap_cons]
    simp only [Effect.wire]
    rw [wire_under key _ (framedDispatch_under key counter _ lib _)]
    exact congrArg _ (prints.frames key counter 0)
  · exact apply_idle (framedDispatch_idle key counter) (eeSaveCounter e counter)

end

/-! ### Sessions -/

structure Cutter where
  cut : Bytes → List Bytes
  lossless : ∀ stream, (cut stream).flatten = stream

/-- One call, what the module does during it, and how its answer arrives. -/
structure SessionStep where
  call : DriverCall
  lib : Library
  cutter : Cutter

/-- What `execute` writes: nothing, once the counters have run out. -/
def written (auth : Option (Key × UInt64)) (cmd : Bytes) : Bytes :=
  match auth with
  | none => cmd ++ [lineFeed]
  | some (key,counter) =>
    match advanceCounter counter with
    | .ok _ => encodeCommand key counter cmd ++ [lineFeed]
    | .error _ => []

structure Bench where
  auth : Option (Key × UInt64)
  state : Option StateFile
  ee : Eeprom

/-- The counter is moved on, on disk first, before the command is sent. -/
def Bench.counted (b : Bench) : Bench :=
  match b.auth with
  | none => b
  | some (key,counter) =>
    match advanceCounter counter with
    | .ok next => { b with auth := some (key,next), state := some (savedState next) }
    | .error _ => b

/-- One call whose counter reaches the disk; `report` is how an error of the exchange is told. -/
def Bench.call (report : Host.SensorError → SensorError) (b : Bench) (step : SessionStep) : Outcome × Bench :=
  let nano (sent : Bytes) := loopRun (fun _ => step.lib) 0 b.ee [] sent
  let (texts,executed) := execute b.auth step.call.text true fun sent => step.cutter.cut (serialOut (nano sent))
  ((texts,step.call.reply (executed.mapError report)),
    { b.counted with ee := (nano (written b.auth step.call.text)).foldl Effect.apply b.ee })

def session (report : Host.SensorError → SensorError) (b : Bench) : List SessionStep → List Outcome × Bench
  | [] => ([],b)
  | step :: steps =>
    let (outcome,after) := b.call report step
    let (outcomes,last) := session report after steps
    (outcome :: outcomes,last)

section
variable (report : Host.SensorError → SensorError) (state : Option StateFile) (e : Eeprom) (step : SessionStep)

/-- The Nano answers what is sent with the lines that `await` takes for the outcome of the call. -/
def Answered (await : List Bytes → List Read → List Bytes × Except Host.SensorError Bytes) (sent : Bytes)
    (after : Eeprom) : Prop :=
  ∃ (lines : List Bytes) (last : Bytes), step.call.reply (.ok last) = (step.call.outcome step.lib).2 ∧
    serialOut (loopRun (fun _ => step.lib) 0 e [] sent) = lines.flatMap (· ++ [carriageReturn,lineFeed]) ∧
    (∀ line ∈ lines, line.length < maxLineLen ∧ LineText line) ∧
    (∀ heard more, await heard (lines.map .line ++ more) = (heard ++ (step.call.outcome step.lib).1,.ok last)) ∧
    (loopRun (fun _ => step.lib) 0 e [] sent).foldl Effect.apply e = after

theorem plain_answered (unpaired : eeIsPaired e = false) :
    Answered e step (awaitPlain step.call.text) (step.call.text ++ [lineFeed]) e := by
  obtain ⟨last,terminal,result,_,prints⟩ := call_answers step.call step.lib e
  have printed := plain_line unpaired prints
  have still := apply_idle (plain_idle step.lib step.call unpaired) e
  rw [← text_line] at printed still
  refine ⟨_,last,result,by rw [serialOut,printed],fun line member => ?_,fun heard more => ?_,still⟩
  · exact ⟨((prints.carried line member).1).trans_lt (by decide),(prints.carried line member).2.lineText⟩
  · exact awaitPlain_answer step.call.text heard _ last terminal more

theorem framed_answered {key : Key} {counter : UInt64} (loaded : eeLoadKey e = some key)
    (fresh : eeLoadCounter e < counter) (below : counter < Firmware.counterCeiling) :
    Answered e step (awaitResponse key step.call.text counter 0) (encodeCommand key counter step.call.text ++ [lineFeed])
      (eeSaveCounter e counter) := by
  obtain ⟨last,terminal,result,few,prints⟩ := call_answers step.call step.lib (eeSaveCounter e counter)
  obtain ⟨printed,still⟩ := framed_line loaded fresh below prints
  rw [← frame_line] at printed still
  have encodable := answer_encodable key counter _ (by simpa using Nat.lt_succ_of_le few)
    fun body member => (prints.carried body member).1
  have printed := printed.trans (List.map_congr_left fun f member => by rw [encodable f member,Option.getD_some])
  refine ⟨_,last,result,by rw [serialOut,printed],fun line member => ?_,fun heard more => ?_,still⟩
  · obtain ⟨⟨c,seq,body⟩,inside,rfl⟩ := List.mem_map.mp member
    obtain ⟨_,_,here,_⟩ := (mem_numbered counter c 0 seq body _).mp inside
    have carried := prints.carried body (List.mem_of_getElem? here)
    exact response_line key c seq body ⟨carried.1,carried.2.lineText⟩
  · rw [List.map_map]
    exact awaitResponse_answer key step.call.text counter 0 heard _ last terminal more

/-- Over the plain channel a call gives its outcome and changes nothing. -/
theorem plain_call (unpaired : eeIsPaired e = false) :
    Bench.call report ⟨none,state,e⟩ step = (step.call.outcome step.lib,⟨none,state,e⟩) := by
  obtain ⟨lines,last,result,printed,clean,awaited,still⟩ := plain_answered e step unpaired
  obtain ⟨more,heard⟩ := reads_lines lines [] (step.cutter.cut (lines.flatMap (· ++ [carriageReturn,lineFeed])))
    (by rw [List.nil_append,step.cutter.lossless]) clean
  have ran : execute none step.call.text true (fun sent =>
      step.cutter.cut (serialOut (loopRun (fun _ => step.lib) 0 e [] sent))) =
        ((step.call.outcome step.lib).1,.ok last) := by
    rw [execute,executeUnframed,printed,heard]
    exact awaited [] more
  simp only [Bench.call,ran,Except.mapError,result,written,still,Bench.counted]

/-- Over the framed channel too, if the counter is fresh. -/
theorem framed_call {key : Key} {counter : UInt64} (loaded : eeLoadKey e = some key) (fresh : eeLoadCounter e < counter)
    (below : counter < Firmware.counterCeiling) :
    Bench.call report ⟨some (key,counter),state,e⟩ step =
      (step.call.outcome step.lib,⟨some (key,counter + 1),some (savedState (counter + 1)),eeSaveCounter e counter⟩) := by
  obtain ⟨lines,last,result,printed,clean,awaited,still⟩ := framed_answered e step loaded fresh below
  obtain ⟨more,heard⟩ := reads_lines lines [] (step.cutter.cut (lines.flatMap (· ++ [carriageReturn,lineFeed])))
    (by rw [List.nil_append,step.cutter.lossless]) clean
  have advanced : advanceCounter counter = .ok (counter + 1) := if_neg (not_le.mpr below)
  have ran : execute (some (key,counter)) step.call.text true (fun sent =>
      step.cutter.cut (serialOut (loopRun (fun _ => step.lib) 0 e [] sent))) =
        ((step.call.outcome step.lib).1,.ok last) := by
    rw [execute,executeFramed,advanced]
    simp only [not_true_eq_false,if_false]
    rw [printed,heard]
    exact awaited [] more
  simp only [Bench.call,ran,Except.mapError,result,written,advanced,still,Bench.counted]

end

/-- Where every answer comes before the deadline of its call and `state.json` can be written, a session gives the
outcomes of its calls, one by one and however the port cuts the stream, on an unpaired Nano over the plain channel and
on a paired one over the framed channel as long as counters last. -/
theorem session_outcomes (report : Host.SensorError → SensorError) (state : Option StateFile) (e : Eeprom)
    (steps : List SessionStep) :
    (eeIsPaired e = false →
      (session report ⟨none,state,e⟩ steps).1 = steps.map fun step => step.call.outcome step.lib) ∧
    ∀ key counter, eeLoadKey e = some key → eeLoadCounter e < counter →
      counter.toNat + steps.length ≤ Firmware.counterCeiling.toNat →
        (session report ⟨some (key,counter),state,e⟩ steps).1 = steps.map fun step => step.call.outcome step.lib := by
  constructor
  · intro unpaired
    induction steps with
    | nil => rfl
    | cons step steps ih =>
      rw [session,plain_call report state e step unpaired]
      exact congrArg (List.cons _) ih
  · intro key counter loaded fresh room
    induction steps generalizing state e counter with
    | nil => rfl
    | cons step steps ih =>
      rw [List.length_cons] at room
      have below : counter < Firmware.counterCeiling := UInt64.lt_iff_toNat_lt.mpr (by omega)
      have advanced : advanceCounter counter = .ok (counter + 1) := if_neg (not_le.mpr below)
      have next := (advanceCounter_ok _ _ advanced).2
      have kept : eeLoadKey (eeSaveCounter e counter) = some key := by simpa using loaded
      have newest : eeLoadCounter (eeSaveCounter e counter) < counter + 1 := by
        rw [eeLoadCounter_saveCounter e counter fresh]
        exact lt_next _ _ advanced
      rw [session,framed_call report state e step loaded fresh below]
      exact congrArg (List.cons _) (ih _ _ (counter + 1) kept newest (by omega))

/-- An enroll into slot 7 and the verify after it, over either channel, with the stream cut into bytes. -/
def twoCalls : List SessionStep :=
  let bytes : Cutter := ⟨fun stream => stream.map ([·]),fun stream => by induction stream with
    | nil => rfl
    | cons c stream ih => exact congrArg (List.cons c) ih⟩
  [⟨.enroll 7,allOk,bytes⟩,⟨.verify,allOk,bytes⟩]

theorem session_outcomes_two :
    (session (fun _ => .counterExhausted) ⟨none,none,fun _ => 0xFF⟩ twoCalls).1 =
        [([ascii "place_finger",ascii "remove_finger",ascii "place_again"],.ok (.slot 7)),
          ([ascii "place_finger"],.ok (.matched ⟨7,150⟩))] ∧
      (session (fun _ => .counterExhausted) ⟨some (katKey,1),none,eeSavePairing (fun _ => 0xFF) katKey⟩ twoCalls).1 =
        (session (fun _ => .counterExhausted) ⟨none,none,fun _ => 0xFF⟩ twoCalls).1 := by
  have plain := (session_outcomes (fun _ => .counterExhausted) none (fun _ => 0xFF) twoCalls).1 (by decide)
  have framed := (session_outcomes (fun _ => .counterExhausted) none (eeSavePairing (fun _ => 0xFF) katKey) twoCalls).2
    katKey 1 (eeLoadKey_savePairing _ _) (by rw [eeLoadCounter_savePairing]; decide) (by decide)
  exact ⟨plain.trans (by decide),framed.trans plain.symm⟩

end R503.Fprint
