import R503.FrameBuffers
import R503.FramedAnswer

/-! What a framed dispatch puts on the serial port, from the arrays up: the line framer keeps its
line in an array, and each line goes out as the daemon's own encoding of it, or not at all. -/
namespace R503.Firmware.Buffers

open Text CArray

/-- `LineFramer`, and `g_session_seq`. -/
structure Framer where
  line : Vector UInt8 128
  pos : Nat
  seq : UInt32

section

variable (key : Key) (counter : UInt64)

/-- What `Serial.println` is given: the frame, or the warning. -/
def printed (r : Vector UInt8 160 × Nat) : Option Bytes :=
  if r.2 > 0 then string r.1 else some (ascii "ERR encode_overflow")

def flushLine (stack : Stack) (f : Framer) : Option (Framer × List Bytes) :=
  if f.pos = 0 then some (f,[])
  else do
    let line ← store f.line f.pos 0
    let text ← printed (← encodeResponseFrame key counter f.seq line f.pos stack stack.out)
    return (⟨line,0,f.seq + 1⟩,[text])

def Framer.write (stack : Stack) (f : Framer) (c : UInt8) : Option (Framer × List Bytes) :=
  if c = lineFeed then flushLine key counter stack f
  else if c = carriageReturn then some (f,[])
  else if f.pos < 128 - 1 then do
    let line ← store f.line f.pos c
    return ({ f with line := line, pos := f.pos + 1 },[])
  else some (f,[])

variable (junk : Nat → Stack)

/-- A handler's characters; `junk` is what the stack holds at each call. -/
def writeAll (f : Framer) : Bytes → Option (Framer × List Bytes)
  | [] => some (f,[])
  | c :: text => do
    let (f,out) ← f.write key counter (junk (text.length + 1)) c
    let (f,more) ← writeAll f text
    return (f,out ++ more)

/-- A reset framer, the handler's characters and the last flush. -/
def framedOutput (line : Vector UInt8 128) (text : Bytes) : Option (List Bytes) := do
  let (f,out) ← writeAll key counter junk ⟨line,0,0⟩ text
  let (_,last) ← flushLine key counter (junk 0) f
  return out ++ last

/-! ### The array holds the line -/

structure Represents (f : Framer) (g : LineFramer) : Prop where
  filled : Filled f.line f.pos g.line
  room : f.pos ≤ framerCapacity
  seq : f.seq = g.seq
  clean : 0 ∉ g.line

def wires (effects : List Effect) : List Bytes := effects.filterMap Effect.wire

theorem wires_append (a b : List Effect) : wires (a ++ b) = wires a ++ wires b := List.filterMap_append

theorem encodeResponse_clean (seq : UInt32) (body : Bytes) (clean : 0 ∉ body) :
    0 ∉ Host.encodeResponse key counter seq body := by
  intro member
  rcases Host.encodeResponse_bytes key counter seq body 0 member with inside | printable
  · exact clean inside
  · exact absurd printable (by decide)

/-- The encoded frame is printed up to its NUL, and a refusal as the warning. -/
theorem printed_eq (seq : UInt32) (body : Bytes) (clean : 0 ∉ body) (r : Vector UInt8 160 × Nat)
    (framed : Framed (Firmware.encodeResponseFrame key counter seq body 160) r) :
    printed r = some ((Firmware.encodeResponseFrame key counter seq body 160).getD (ascii "ERR encode_overflow")) := by
  rw [encodeResponseFrame_eq] at framed ⊢
  unfold printed
  by_cases fits : (Decimal.render counter.toNat).length + (Decimal.render seq.toNat).length + body.length ≤ 122
  · rw [if_pos fits] at framed ⊢
    obtain ⟨size,filled⟩ := framed
    have length := Host.encodeResponse_length key counter seq body
    rw [if_pos (by omega)]
    exact filled.string (encodeResponse_clean key counter seq body clean)
  · rw [if_neg fits] at framed ⊢
    have none : r.2 = 0 := framed
    rw [if_neg (by omega)]
    rfl

theorem flushLine_gives (stack : Stack) (f : Framer) (g : LineFramer) (same : Represents f g) :
    Gives (flushLine key counter stack f) fun r => Represents r.1 (Firmware.flushLine key counter g).1 ∧
      r.2 = wires (Firmware.flushLine key counter g).2 := by
  have small : f.pos ≤ 127 := same.room
  unfold flushLine Firmware.flushLine
  by_cases empty : g.line = []
  · have zero : f.pos = 0 := by rw [same.filled.next,empty,List.length_nil]
    rw [if_pos zero,if_pos empty]
    exact .pure ⟨same,rfl⟩
  · have some : f.pos ≠ 0 := by rw [same.filled.next,ne_eq,List.length_eq_zero_iff]; exact empty
    rw [if_neg some,if_neg empty]
    refine (store_filled same.filled 0 (by omega)).bind fun line ended => ?_
    have body : Filled line f.pos g.line := ended.trim same.filled.next
    refine (encodeResponseFrame_gives key counter f.seq line f.pos g.line body stack stack.out).bind fun r framed => ?_
    refine (Gives.of_eq (printed_eq key counter f.seq g.line same.clean r framed)).bind fun text here => ?_
    rw [here,same.seq]
    exact .pure ⟨⟨filled_nil line,Nat.zero_le _,rfl,List.not_mem_nil⟩,rfl⟩

theorem write_gives (stack : Stack) (f : Framer) (g : LineFramer) (c : UInt8) (same : Represents f g) (text : c ≠ 0) :
    Gives (f.write key counter stack c) fun r => Represents r.1 (g.write key counter c).1 ∧
      r.2 = wires (g.write key counter c).2 := by
  unfold Framer.write LineFramer.write
  by_cases feed : c = lineFeed
  · rw [if_pos feed,if_pos feed]
    exact flushLine_gives key counter stack f g same
  by_cases isReturn : c = carriageReturn
  · rw [if_neg feed,if_neg feed,if_pos isReturn,if_pos isReturn]
    exact .pure ⟨same,rfl⟩
  rw [if_neg feed,if_neg feed,if_neg isReturn,if_neg isReturn,← same.filled.next]
  by_cases room : f.pos < framerCapacity
  · have small : f.pos < 128 - 1 := room
    rw [if_pos small,if_pos room]
    refine (store_filled same.filled c (by omega)).bind fun line more => ?_
    refine .pure ⟨⟨more,room,same.seq,?_⟩,rfl⟩
    rw [List.mem_append,List.mem_singleton]
    rintro (inside | zero)
    · exact same.clean inside
    · exact text zero.symm
  · have full : ¬ f.pos < 128 - 1 := room
    rw [if_neg full,if_neg room]
    exact .pure ⟨same,rfl⟩

theorem writeAll_gives (f : Framer) (g : LineFramer) (text : Bytes) (same : Represents f g) (clean : 0 ∉ text) :
    Gives (writeAll key counter junk f text) fun r =>
      Represents r.1 (printTo (LineFramer.write key counter) g text).1 ∧
        r.2 = wires (printTo (LineFramer.write key counter) g text).2 := by
  induction text generalizing f g with
  | nil => exact .pure ⟨same,rfl⟩
  | cons c text ih =>
    obtain ⟨first,rest⟩ := not_or.mp (List.mem_cons.not.mp clean)
    refine (write_gives key counter _ f g c same (Ne.symm first)).bind fun r both => ?_
    obtain ⟨f,out⟩ := r
    obtain ⟨next,rfl⟩ := both
    refine (ih f _ next rest).bind fun r both => ?_
    obtain ⟨f,more⟩ := r
    obtain ⟨last,rfl⟩ := both
    exact .pure ⟨last,(wires_append _ _).symm⟩

/-- The frames of a text and of what is left in the line at its end. -/
def framesOf (g : LineFramer) (text : Bytes) : List Effect :=
  (printTo (LineFramer.write key counter) g text).2 ++
    lastFlush key counter (printTo (LineFramer.write key counter) g text).1

/-- On its arrays the framer puts out what it does on lists, and no access is outside of them. -/
theorem framedOutput_eq (line : Vector UInt8 128) (text : Bytes) (clean : 0 ∉ text) :
    framedOutput key counter junk line text = some (wires (framesOf key counter ⟨[],0⟩ text)) := by
  have reset : Represents ⟨line,0,0⟩ ⟨[],0⟩ := ⟨filled_nil line,Nat.zero_le _,rfl,List.not_mem_nil⟩
  have gives : Gives (framedOutput key counter junk line text) (· = wires (framesOf key counter ⟨[],0⟩ text)) := by
    refine (writeAll_gives key counter junk _ _ text reset clean).bind fun r both => ?_
    obtain ⟨f,out⟩ := r
    obtain ⟨same,rfl⟩ := both
    refine (flushLine_gives key counter (junk 0) f _ same).bind fun r both => ?_
    obtain ⟨g,last⟩ := r
    obtain ⟨_,rfl⟩ := both
    exact .pure (wires_append _ _).symm
  obtain ⟨lines,ran,rfl⟩ := gives
  exact ran

/-! ### Line by line -/

/-- The lines of a text that started as `cur`, without carriage returns, the empty ones left out. -/
def segments (text cur : Bytes) : List Bytes :=
  ((splitOn lineFeed text cur).map fun piece => piece.filter (· != carriageReturn)).filter (· ≠ [])

theorem segments_feed (text cur : Bytes) : segments (lineFeed :: text) cur =
    if cur.filter (· != carriageReturn) = [] then segments text []
    else cur.filter (· != carriageReturn) :: segments text [] := by
  rw [segments,splitOn,if_pos rfl,List.map_cons,List.filter_cons]
  by_cases empty : cur.filter (· != carriageReturn) = []
  · simp [empty,segments]
  · simp [empty,segments]

theorem segments_other (c : UInt8) (text cur : Bytes) (other : c ≠ lineFeed) :
    segments (c :: text) cur = segments text (cur ++ [c]) := by
  rw [segments,splitOn,if_neg other,segments]

theorem kept_eq_nil (cur : Bytes) : kept cur = [] ↔ cur.filter (· != carriageReturn) = [] := by
  rw [kept,List.take_eq_nil_iff]
  exact or_iff_right (by decide)

/-- One more character of a line. -/
theorem write_kept (seq : UInt32) (cur : Bytes) (c : UInt8) (other : c ≠ lineFeed) :
    LineFramer.write key counter ⟨kept cur,seq⟩ c = (⟨kept (cur ++ [c]),seq⟩,[]) := by
  have longer : (kept cur ++ [c].filter (· != carriageReturn)).take framerCapacity = kept (cur ++ [c]) := by
    rw [kept,kept,List.filter_append,List.take_append,List.take_append,List.take_take,List.length_take,min_self]
    congr 2
    omega
  have one := printTo_text key counter ⟨kept cur,seq⟩ [c] (by simpa using Ne.symm other) (List.length_take_le _ _)
  rw [longer] at one
  simpa [printTo,Prod.ext_iff] using one

theorem framesOf_cons (g : LineFramer) (c : UInt8) (text : Bytes) : framesOf key counter g (c :: text) =
    (g.write key counter c).2 ++ framesOf key counter (g.write key counter c).1 text := by
  simp [framesOf,printTo]

/-- The framer makes one frame of each segment, numbered from the first. -/
theorem framesOf_eq (seq : UInt32) (text cur : Bytes) :
    framesOf key counter ⟨kept cur,seq⟩ text = (segments text cur).mapIdx fun i body =>
      .frame key counter (seq + UInt32.ofNat i) (body.take framerCapacity) := by
  induction text generalizing seq cur with
  | nil =>
    by_cases empty : cur.filter (· != carriageReturn) = []
    · simp [framesOf,printTo,lastFlush,Firmware.flushLine,segments,splitOn,(kept_eq_nil cur).mpr empty,empty]
    · have some : kept cur ≠ [] := fun none => empty ((kept_eq_nil cur).mp none)
      rw [framesOf,printTo,lastFlush,Firmware.flushLine,if_neg some]
      simp [segments,splitOn,empty,kept]
  | cons c text ih =>
    rw [framesOf_cons]
    by_cases feed : c = lineFeed
    · subst c
      rw [LineFramer.write,if_pos rfl,segments_feed,Firmware.flushLine]
      by_cases empty : cur.filter (· != carriageReturn) = []
      · have none : kept cur = [] := (kept_eq_nil cur).mpr empty
        rw [if_pos none,if_pos empty,none]
        exact ih seq []
      · have some : kept cur ≠ [] := fun none => empty ((kept_eq_nil cur).mp none)
        rw [if_neg some,if_neg empty,List.mapIdx_cons]
        have rest := ih (seq + 1) []
        simp only [seq_succ]
        rw [← rest]
        simp [kept]
    · rw [write_kept key counter seq cur c feed,segments_other c text cur feed]
      exact ih seq (cur ++ [c])

theorem wires_mapIdx (bodies : List Bytes) (frame : Nat → Bytes → Effect) (line : Nat → Bytes → Bytes)
    (each : ∀ i body, (frame i body).wire = some (line i body)) :
    wires (bodies.mapIdx frame) = bodies.mapIdx line := by
  induction bodies generalizing frame line with
  | nil => rfl
  | cons body bodies ih =>
    have rest := ih (fun i => frame (i + 1)) (fun i => line (i + 1)) fun i body => each (i + 1) body
    rw [List.mapIdx_cons,List.mapIdx_cons,wires,List.filterMap_cons_some (each 0 body)]
    exact congrArg _ rest

/-- A line that the framer cut short does not fit a frame either. -/
theorem wire_frame (seq : UInt32) (body : Bytes) :
    (Effect.frame key counter seq (body.take framerCapacity)).wire = some (
      if (Decimal.render counter.toNat).length + (Decimal.render seq.toNat).length + body.length ≤ 122 then
        Host.encodeResponse key counter seq body
      else ascii "ERR encode_overflow") := by
  rw [Effect.wire,encodeResponseFrame_eq]
  by_cases short : body.length ≤ framerCapacity
  · rw [List.take_of_length_le short]
    split <;> rfl
  · simp only [framerCapacity] at short
    rw [if_neg (by simp only [List.length_take,framerCapacity]; omega),if_neg (by omega)]
    rfl

/-- A dispatch that prints `text` puts out the daemon's encoding of each segment, numbered in order (the seq
wraps as its 32 bits do), or the warning where it is too long; no array is ever left. -/
theorem framed_lines (line : Vector UInt8 128) (text : Bytes) (clean : 0 ∉ text) :
    framedOutput key counter junk line text = some ((segments text []).mapIdx fun i body =>
      if (Decimal.render counter.toNat).length + (Decimal.render (UInt32.ofNat i).toNat).length + body.length ≤ 122 then
        Host.encodeResponse key counter (UInt32.ofNat i) body
      else ascii "ERR encode_overflow") := by
  have numbered := framesOf_eq key counter 0 text []
  rw [framedOutput_eq key counter junk line text clean]
  change some (wires (framesOf key counter ⟨kept [],0⟩ text)) = _
  rw [numbered]
  refine congrArg some (wires_mapIdx _ _ _ fun i body => ?_)
  rw [UInt32.zero_add]
  exact wire_frame key counter _ body

theorem framed_lines_pong :
    framedOutput katKey 7 (fun _ => ⟨.replicate 160 170,.replicate 128 170,fun _ => .replicate 21 170⟩)
      (.replicate 128 170) (ascii "OK pong" ++ [carriageReturn,lineFeed]) =
        some [Host.encodeResponse katKey 7 0 (ascii "OK pong")] := by
  have one : segments (ascii "OK pong" ++ [carriageReturn,lineFeed]) [] = [ascii "OK pong"] := by decide +kernel
  rw [framed_lines katKey 7 _ _ _ (by decide +kernel),one]
  rfl

/-! ### Handlers -/

def printedText (out : List Output) : Bytes :=
  out.flatMap fun o =>
    match o with
    | .print text => text
    | .update _ _ | .sensor _ => []

theorem framesOf_append (g : LineFramer) (a b : Bytes) : framesOf key counter g (a ++ b) =
    (printTo (LineFramer.write key counter) g a).2 ++
      framesOf key counter (printTo (LineFramer.write key counter) g a).1 b := by
  simp [framesOf,printTo_append]

theorem wires_emit (g : LineFramer) (out : List Output) :
    wires (emit (LineFramer.write key counter) (lastFlush key counter) g out) =
      wires (framesOf key counter g (printedText out)) := by
  induction out generalizing g with
  | nil => rfl
  | cons o out ih =>
    cases o with
    | print text =>
      rw [emit,wires_append,ih]
      exact (wires_append _ _).symm.trans (congrArg wires (framesOf_append key counter g text _).symm)
    | update address value => exact ih g
    | sensor call => exact ih g

/-- The dispatch of the machine puts out what the arrays do. -/
theorem framedDispatch_wires (e : Eeprom) (lib : Library) (command : Bytes) (line : Vector UInt8 128)
    (clean : 0 ∉ printedText (dispatch e lib command)) :
    framedOutput key counter junk line (printedText (dispatch e lib command)) =
      some (wires (framedDispatch key counter e lib command)) := by
  rw [framedOutput_eq key counter junk line _ clean,framedDispatch]
  exact congrArg some (wires_emit key counter ⟨[],0⟩ _).symm

end

end R503.Firmware.Buffers
