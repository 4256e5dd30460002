import R503.FirmwareGate
import R503.SerialLines

/-! One framed command from end to end: the daemon's frame through `loop` and `process_line`, the
handler's lines back through `read_line` and `execute_framed`. -/
namespace R503.Firmware

open Text

/-! ### What the Nano puts on the wire -/

/-- An effect that prints nothing but frames under the key. -/
def Effect.Under (key : Key) : Effect → Prop
  | .serial _ => False
  | .frame k _ _ _ => k = key
  | _ => True

theorem framerWrite_under (key : Key) (counter : UInt64) (f : LineFramer) (c : UInt8) :
    ∀ x ∈ (f.write key counter c).2, x.Under key := by
  have flushed : ∀ x ∈ (flushLine key counter f).2, x.Under key := by
    unfold flushLine
    split
    · simp
    · intro x member
      obtain rfl := List.mem_singleton.mp member
      rfl
  unfold LineFramer.write
  split
  · exact flushed
  split
  · simp
  split <;> simp

theorem framedDispatch_under (key : Key) (counter : UInt64) (e : Eeprom) (lib : Library) (line : Bytes) :
    ∀ x ∈ framedDispatch key counter e lib line, x.Under key := by
  rw [framedDispatch]
  refine List.forall_mem_cons.mpr ⟨trivial,fun x member => ?_⟩
  have flushed (f : LineFramer) : ∀ x ∈ lastFlush key counter f, x.Under key := by
    rw [lastFlush]
    exact framerWrite_under key counter f lineFeed
  rcases emit_all _ _ _ (framerWrite_under key counter) flushed (fun _ => trivial) _ _ x member with
    here | ⟨a,v,_,rfl⟩
  · exact here
  · trivial

/-- Such effects print their frames, in order. -/
theorem wire_under (key : Key) (effects : List Effect) (under : ∀ x ∈ effects, x.Under key) :
    effects.filterMap Effect.wire = (frames effects).map fun f =>
      (encodeResponseFrame key f.1 f.2.1 f.2.2 160).getD (ascii "ERR encode_overflow") := by
  induction effects with
  | nil => rfl
  | cons x effects ih =>
    obtain ⟨here,later⟩ := List.forall_mem_cons.mp under
    have rest := ih later
    cases x with
    | serial line => exact here.elim
    | frame k c s b =>
      obtain rfl := here
      exact congrArg (List.cons _) rest
    | saveCounter | update | sensor | dispatch => exact rest

end R503.Firmware

namespace R503.Host

open Text

/-! ### What a frame is made of -/

def Printable (c : UInt8) : Prop := 32 ≤ c ∧ c < 128

instance (c : UInt8) : Decidable (Printable c) := inferInstanceAs (Decidable (_ ∧ _))

theorem render_printable (n : Nat) : ∀ c ∈ Decimal.render n, Printable c := by
  intro c member
  have numeric := (Decimal.isDigit_iff c).mp (Decimal.render_digits n c member)
  exact ⟨UInt8.le_iff_toNat_le.mpr (le_trans (by decide) numeric.1),
    UInt8.lt_iff_toNat_lt.mpr (numeric.2.trans_lt (by decide))⟩

theorem tail_printable (mac : UInt64) : ∀ c ∈ ascii " M " ++ macToHex mac, Printable c := by
  rw [List.forall_mem_append]
  refine ⟨by decide +kernel,fun c member => ?_⟩
  have hex := Hex.encode_printable _ c member
  have above : (32 : UInt8) ≤ 48 := by decide
  exact ⟨UInt8.le_trans above hex.1,hex.2⟩

/-- A frame adds nothing but printable bytes to its text. -/
theorem encodeCommand_bytes (key : Key) (counter : UInt64) (cmd : Bytes) :
    ∀ c ∈ encodeCommand key counter cmd, c ∈ cmd ∨ Printable c := by
  have tail := tail_printable (siphash24 key (cmdMacInput counter cmd))
  have digits := render_printable counter.toNat
  have lead : ∀ c ∈ ascii "C ", Printable c := by decide +kernel
  intro c member
  rw [encodeCommand,List.mem_append,List.mem_append,List.mem_append,List.mem_cons] at member
  rcases member with (here | here | rfl | here) | here
  · exact Or.inr (lead c here)
  · exact Or.inr (digits c here)
  · exact Or.inr (by decide +kernel)
  · exact Or.inl here
  · exact Or.inr (tail c here)

theorem encodeResponse_bytes (key : Key) (counter : UInt64) (seq : UInt32) (body : Bytes) :
    ∀ c ∈ encodeResponse key counter seq body, c ∈ body ∨ Printable c := by
  have tail := tail_printable (siphash24 key (rspMacInput counter seq body))
  have lead : ∀ c ∈ ascii "R ", Printable c := by decide +kernel
  intro c member
  rw [encodeResponse,List.mem_append,List.mem_append,List.mem_append,List.mem_cons,List.mem_append,
    List.mem_cons] at member
  rcases member with (here | here | rfl | here | rfl | here) | here
  · exact Or.inr (lead c here)
  · exact Or.inr (render_printable _ c here)
  · exact Or.inr (by decide +kernel)
  · exact Or.inr (render_printable _ c here)
  · exact Or.inr (by decide +kernel)
  · exact Or.inl here
  · exact Or.inr (tail c here)

theorem encodeResponse_length (key : Key) (counter : UInt64) (seq : UInt32) (body : Bytes) :
    (encodeResponse key counter seq body).length =
      (Decimal.render counter.toNat).length + (Decimal.render seq.toNat).length + body.length + 23 := by
  have tail := tail_length (siphash24 key (rspMacInput counter seq body))
  have lead : (ascii "R ").length = 2 := rfl
  simp only [encodeResponse,List.length_append,List.length_cons,lead] at tail ⊢
  simp only [macSuffixLen] at tail
  omega

/-! ### What the daemon makes of an answer -/

theorem responseStep_encoded (key : Key) (counter : UInt64) (seq : UInt32) (body : Bytes) :
    responseStep key counter seq (encodeResponse key counter seq body) =
      if (ascii "PROGRESS ").isPrefixOf body then .progress (progressText body)
      else if (ascii "OK").isPrefixOf body ∨ (ascii "ERR").isPrefixOf body then .done body
      else .progress (progressText body) := by
  have frame : encodeResponse key counter seq body ≠ [] := by simp [encodeResponse,ascii]
  have lead : (ascii "R ").isPrefixOf (encodeResponse key counter seq body) = true := by
    rw [encodeResponse,List.append_assoc]
    exact List.isPrefixOf_iff_prefix.mpr (List.prefix_append _ _)
  simp only [responseStep,frame,if_false,lead,not_true_eq_false,verifyResponse_encodeResponse,ne_eq]

/-- An answer is heard to its end: its progress texts in order, then its last line. -/
theorem awaitResponse_answer (key : Key) (cmd : Bytes) (counter : UInt64) (seq : UInt32)
    (heard texts : List Bytes) (last : Bytes) (terminal : Firmware.IsTerminal last) (more : List Read) :
    awaitResponse key cmd counter seq heard
        ((Firmware.numbered counter seq (texts.map (ascii "PROGRESS " ++ ·) ++ [last])).map (fun f =>
          .line (encodeResponse key f.1 f.2.1 f.2.2)) ++ more) =
      (heard ++ texts,.ok last) := by
  induction texts generalizing seq heard with
  | nil =>
    have final : responseStep key counter seq (encodeResponse key counter seq last) = .done last := by
      exact (responseStep_encoded ..).trans
        ((if_neg (Firmware.terminal_not_progress last terminal)).trans (if_pos terminal))
    simp only [List.map_nil,List.nil_append,Firmware.numbered,List.map_cons,List.cons_append,awaitResponse,final,
      List.append_nil]
  | cons text texts ih =>
    have progress : responseStep key counter seq (encodeResponse key counter seq (ascii "PROGRESS " ++ text)) =
        .progress text := by
      have lead : (ascii "PROGRESS ").isPrefixOf (ascii "PROGRESS " ++ text) = true :=
        List.isPrefixOf_iff_prefix.mpr (List.prefix_append _ _)
      rw [responseStep_encoded,if_pos lead,progressText,stripPrefix_append]
    simp only [List.map_cons,List.cons_append,Firmware.numbered,awaitResponse,progress,ih,List.append_assoc,
      List.nil_append]

/-- `execute_framed`: `saved` is whether the counter reached the disk, and `link` what the port reads once
the given bytes are written. -/
def executeFramed (key : Key) (counter : UInt64) (cmd : Bytes) (saved : Bool) (link : Bytes → List Bytes) :
    List Bytes × Except SensorError Bytes :=
  match advanceCounter counter with
  | .error e => ([],.error e)
  | .ok _ =>
    if ¬ saved then ([],.error .io)
    else awaitResponse key cmd counter 0 [] (reads [] (link (encodeCommand key counter cmd ++ [lineFeed])))

end R503.Host

namespace R503

open Text Host Firmware

/-! ### The whole exchange -/

/-- The frames of an answer whose lines fit: all of them can be encoded. -/
theorem answer_encodable (key : Key) (counter : UInt64) (bodies : List Bytes) (few : bodies.length ≤ 4)
    (fit : ∀ body ∈ bodies, body.length ≤ lineLimit) :
    ∀ f ∈ numbered counter 0 bodies,
      encodeResponseFrame key f.1 f.2.1 f.2.2 160 = some (encodeResponse key f.1 f.2.1 f.2.2) := by
  rintro ⟨c,seq,body⟩ member
  obtain ⟨rfl,k,here,rfl⟩ := (mem_numbered counter c 0 seq body bodies).mp member
  have short := fit body (List.mem_of_getElem? here)
  obtain ⟨place,_⟩ := List.getElem?_eq_some_iff.mp here
  have small : (0 + UInt32.ofNat k).toNat = k := by
    rw [UInt32.zero_add,UInt32.toNat_ofNat']
    exact Nat.mod_eq_of_lt (by omega)
  have digit : (Decimal.render (0 + UInt32.ofNat k).toNat).length ≤ 1 := by
    rw [small]
    exact Decimal.render_length_le k 1 (by decide) (by omega)
  have digits := counter_digits_le c
  rw [lineLimit] at short
  rw [encodeResponseFrame_eq,if_pos (by dsimp only; omega)]

/-- A frame with such a body is a line that the daemon reads as it is. -/
theorem response_line (key : Key) (counter : UInt64) (seq : UInt32) (body : Bytes)
    (fit : body.length ≤ lineLimit ∧ LineText body) :
    (encodeResponse key counter seq body).length < maxLineLen ∧ LineText (encodeResponse key counter seq body) := by
  constructor
  · have cDigits := counter_digits_le counter
    have sDigits := seq_digits_le seq
    have short := fit.1
    rw [lineLimit] at short
    rw [encodeResponse_length,maxLineLen]
    omega
  · intro c member
    rcases encodeResponse_bytes key counter seq body c member with inside | printable
    · exact fit.2 c inside
    · exact ⟨by rintro rfl; exact absurd printable (by decide),printable.2⟩

/-- What a paired Nano prints for a fresh frame of the daemon: an answer of lines that fit. -/
theorem loopRun_answer (key : Key) (e : Eeprom) (libs : Nat → Library) (counter : UInt64) (cmd : Bytes)
    (loaded : eeLoadKey e = some key) (fresh : eeLoadCounter e < counter)
    (below : counter < Firmware.counterCeiling) (nonempty : cmd ≠ [])
    (text : ∀ c ∈ cmd, c < 128 ∧ c ≠ 0 ∧ c ≠ carriageReturn ∧ c ≠ lineFeed)
    (frame : (encodeCommand key counter cmd).length ≤ 127) (short : cmd.length ≤ 95) :
    ∃ bodies, bodies.length ≤ 4 ∧ IsAnswer bodies ∧ (∀ body ∈ bodies, body.length ≤ lineLimit ∧ LineText body) ∧
      (loopRun libs 0 e [] (encodeCommand key counter cmd ++ [lineFeed])).filterMap Effect.wire =
        (numbered counter 0 bodies).map fun f =>
          (encodeResponseFrame key f.1 f.2.1 f.2.2 160).getD (ascii "ERR encode_overflow") := by
  have bytes : ∀ c ∈ encodeCommand key counter cmd, c ≠ lineFeed ∧ c ≠ carriageReturn := by
    intro c member
    rcases encodeCommand_bytes key counter cmd c member with inside | printable
    · exact ⟨(text c inside).2.2.2,(text c inside).2.2.1⟩
    · constructor <;> (rintro rfl; exact absurd printable (by decide))
  have some_ : encodeCommand key counter cmd ≠ [] := by simp [encodeCommand,ascii]
  have digits := counter_digits_le counter
  have accepted : Accepted key e (encodeCommand key counter cmd) counter cmd :=
    have verified := verifyCommandFrame_encodeCommand key counter cmd nonempty
      (by simp only [macBufferSize]; omega)
    ⟨verified_leader _ _ _ _ verified,verified,fresh,below⟩
  have whole : afterCommit key e (libs 0) counter cmd =
      framedDispatch key counter (eeSaveCounter e counter) (libs 0) cmd := by
    rw [afterCommit,if_neg (by simp only [innerBufferSize]; omega),
      cString_clean cmd fun nul => (text 0 nul).2.1 rfl]
  obtain ⟨writes,printed⟩ := dispatch_fits (eeSaveCounter e counter) (libs 0) cmd
    fun c member => ⟨(text c member).2.2.2,(text c member).1⟩
  obtain ⟨bodies,few,answer,all,lines,_⟩ := emit_printed key counter 0 printed
  refine ⟨bodies,few,answer,fun body member => ?_,?_⟩
  · obtain ⟨line,fits,rfl⟩ := all body member
    exact ⟨(length_kept line).trans fits.1,fun c here => fits.2 c (mem_kept here)⟩
  · have under := framedDispatch_under key counter (eeSaveCounter e counter) (libs 0) cmd
    rw [loopRun_line libs e _ some_ bytes frame,processLine_accepted key e (libs 0) _ counter cmd loaded accepted,
      whole,List.filterMap_cons]
    simp only [Effect.wire]
    rw [wire_under key _ under]
    exact congrArg _ lines

/-- Every framed command is answered: the Nano prints encodable frames of the command's counter, numbered
from zero, progress lines and one last line, and `execute_framed` returns that line and the texts. -/
theorem framed_answer (key : Key) (e : Eeprom) (libs : Nat → Library) (counter : UInt64) (cmd : Bytes)
    (link : Bytes → List Bytes) (loaded : eeLoadKey e = some key) (fresh : eeLoadCounter e < counter)
    (below : counter < Firmware.counterCeiling) (nonempty : cmd ≠ [])
    (text : ∀ c ∈ cmd, c < 128 ∧ c ≠ 0 ∧ c ≠ carriageReturn ∧ c ≠ lineFeed)
    (frame : (encodeCommand key counter cmd).length ≤ 127) (short : cmd.length ≤ 95)
    (lossless : ∀ sent, (link sent).flatten = serialOut (loopRun libs 0 e [] sent)) :
    ∃ texts last, IsTerminal last ∧
      (loopRun libs 0 e [] (encodeCommand key counter cmd ++ [lineFeed])).filterMap Effect.wire =
        (numbered counter 0 (texts.map (ascii "PROGRESS " ++ ·) ++ [last])).map (fun f =>
          encodeResponse key f.1 f.2.1 f.2.2) ∧
      (∀ f ∈ numbered counter 0 (texts.map (ascii "PROGRESS " ++ ·) ++ [last]),
        encodeResponseFrame key f.1 f.2.1 f.2.2 160 = some (encodeResponse key f.1 f.2.1 f.2.2)) ∧
      executeFramed key counter cmd true link = (texts,.ok last) := by
  obtain ⟨bodies,few,⟨progress,last,rfl,lead,terminal⟩,fit,printed⟩ :=
    loopRun_answer key e libs counter cmd loaded fresh below nonempty text frame short
  have texts := progressText_map progress lead
  have encodable := answer_encodable key counter _ few fun body member => (fit body member).1
  have wire : (loopRun libs 0 e [] (encodeCommand key counter cmd ++ [lineFeed])).filterMap Effect.wire =
      (numbered counter 0 (progress ++ [last])).map fun f => encodeResponse key f.1 f.2.1 f.2.2 := by
    rw [printed]
    exact List.map_congr_left fun f member => by rw [encodable f member,Option.getD_some]
  refine ⟨progress.map progressText,last,terminal,by rw [texts]; exact wire,by rw [texts]; exact encodable,?_⟩
  have stream : [] ++ (link (encodeCommand key counter cmd ++ [lineFeed])).flatten =
      ((numbered counter 0 (progress ++ [last])).map fun f => encodeResponse key f.1 f.2.1 f.2.2).flatMap
        (· ++ [carriageReturn,lineFeed]) := by
    rw [List.nil_append,lossless,serialOut,wire]
  obtain ⟨more,heard⟩ := reads_lines _ [] _ stream fun line member => by
    obtain ⟨⟨c,seq,body⟩,inside,rfl⟩ := List.mem_map.mp member
    obtain ⟨_,_,here,_⟩ := (mem_numbered counter c 0 seq body _).mp inside
    exact response_line key c seq body (fit body (List.mem_of_getElem? here))
  have advanced : advanceCounter counter = .ok (counter + 1) := if_neg (not_le.mpr below)
  have answered := awaitResponse_answer key cmd counter 0 [] (progress.map progressText) last terminal more
  rw [texts,List.nil_append] at answered
  rw [executeFramed,advanced]
  simp only [not_true_eq_false,if_false]
  rw [heard,List.map_map]
  exact answered

theorem framed_answer_verify : ∃ texts last, IsTerminal last ∧
    executeFramed katKey 1 (ascii "verify") true (fun sent =>
      [serialOut (loopRun (fun _ => allOk) 0 (eeSavePairing (fun _ => 0xFF) katKey) [] sent)]) =
        (texts,.ok last) := by
  have unseen : eeLoadCounter (eeSavePairing (fun _ => 0xFF) katKey) = 0 := eeLoadCounter_savePairing _ _
  obtain ⟨texts,last,terminal,_,_,returned⟩ := framed_answer katKey (eeSavePairing (fun _ => 0xFF) katKey)
    (fun _ => allOk) 1 (ascii "verify")
    (fun sent => [serialOut (loopRun (fun _ => allOk) 0 (eeSavePairing (fun _ => 0xFF) katKey) [] sent)])
    (eeLoadKey_savePairing _ _) (by rw [unseen]; decide +kernel) (by decide +kernel) (by decide +kernel) (by decide +kernel)
    (by decide +kernel) (by decide) (fun sent => by simp)
  exact ⟨texts,last,terminal,returned⟩

end R503
