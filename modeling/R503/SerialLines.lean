import R503.FramedSession
import R503.HostSession

/-! The serial bytes between the two ends: the Nano's `loop`, what it prints, and `read_line`
of the daemon, whose reads may cut the stream anywhere. -/
namespace R503.Firmware

open Text

inductive LoopEvent where
  | line (text : Bytes)
  | overflow

def loopChar (inbuf : Bytes) (c : UInt8) : Bytes × Option LoopEvent :=
  if c = lineFeed ∨ c = carriageReturn then
    if inbuf.length > 0 then ([],some (.line inbuf)) else (inbuf,none)
  else
    let inbuf := inbuf ++ [c]
    if inbuf.length ≥ 128 then ([],some .overflow) else (inbuf,none)

/-- `loop` over some input; `libs` are the module's answers during each line in turn. -/
def loopRun (libs : Nat → Library) (lines : Nat) (e : Eeprom) (inbuf : Bytes) : Bytes → List Effect
  | [] => []
  | c :: input =>
    match loopChar inbuf c with
    | (inbuf,none) => loopRun libs lines e inbuf input
    | (inbuf,some .overflow) =>
      .serial (ascii "ERR bad_args overflow") :: loopRun libs lines e inbuf input
    | (inbuf,some (.line text)) =>
      let effects := processLine e (libs lines) text
      effects ++ loopRun libs (lines + 1) (effects.foldl Effect.apply e) inbuf input

def serialOut (effects : List Effect) : Bytes :=
  (effects.filterMap Effect.wire).flatMap (· ++ [carriageReturn,lineFeed])

theorem loopRun_text (libs : Nat → Library) (lines : Nat) (e : Eeprom) (inbuf text rest : Bytes)
    (clean : ∀ c ∈ text, c ≠ lineFeed ∧ c ≠ carriageReturn) (room : inbuf.length + text.length < 128) :
    loopRun libs lines e inbuf (text ++ rest) = loopRun libs lines e (inbuf ++ text) rest := by
  induction text generalizing inbuf with
  | nil => rw [List.nil_append,List.append_nil]
  | cons c text ih =>
    obtain ⟨⟨notFeed,notReturn⟩,later⟩ := List.forall_mem_cons.mp clean
    rw [List.length_cons] at room
    have fits : ¬ (inbuf ++ [c]).length ≥ 128 := by
      rw [List.length_append,List.length_singleton]
      omega
    have gathered : loopChar inbuf c = (inbuf ++ [c],none) := by
      simp only [loopChar,notFeed,notReturn,or_self,if_false,fits]
    have next := ih (inbuf ++ [c]) later (by rw [List.length_append,List.length_singleton]; omega)
    rw [List.append_assoc,List.singleton_append] at next
    rw [List.cons_append,loopRun,gathered]
    exact next

/-- A short line and its line feed are one call of `process_line`. -/
theorem loopRun_line (libs : Nat → Library) (e : Eeprom) (text : Bytes) (nonempty : text ≠ [])
    (clean : ∀ c ∈ text, c ≠ lineFeed ∧ c ≠ carriageReturn) (short : text.length ≤ 127) :
    loopRun libs 0 e [] (text ++ [lineFeed]) = processLine e (libs 0) text := by
  have ended : loopChar text lineFeed = ([],some (.line text)) := by
    simp only [loopChar,true_or,if_true,List.length_pos_iff.mpr nonempty]
  rw [loopRun_text libs 0 e [] text _ clean (by simpa using Nat.lt_succ_of_le short),List.nil_append,loopRun,
    ended]
  simp only [loopRun,List.append_nil]

end R503.Firmware

namespace R503.Host

open Text

/-! ### Reading -/

def isContinuation (b : UInt8) : Bool := 128 ≤ b && b < 192

def secondOfThree (b c : UInt8) : Bool :=
  (b == 0xE0 && 0xA0 ≤ c && c ≤ 0xBF) || (0xE1 ≤ b && b ≤ 0xEC && isContinuation c) ||
    (b == 0xED && 0x80 ≤ c && c ≤ 0x9F) || (0xEE ≤ b && b ≤ 0xEF && isContinuation c)

def secondOfFour (b c : UInt8) : Bool :=
  (b == 0xF0 && 0x90 ≤ c && c ≤ 0xBF) || (0xF1 ≤ b && b ≤ 0xF3 && isContinuation c) ||
    (b == 0xF4 && 0x80 ≤ c && c ≤ 0x8F)

/-- Whether a text starts with a character or with a broken one, and how many bytes that takes. -/
def utf8Head : Bytes → Bool × Nat
  | [] => (true,0)
  | b :: s =>
    let c := s.getD 0 0
    if b < 128 then (true,1)
    else if 0xC2 ≤ b ∧ b ≤ 0xDF then if isContinuation c then (true,2) else (false,1)
    else if 0xE0 ≤ b ∧ b ≤ 0xEF then
      if ¬ secondOfThree b c then (false,1)
      else if ¬ isContinuation (s.getD 1 0) then (false,2) else (true,3)
    else if 0xF0 ≤ b ∧ b ≤ 0xF4 then
      if ¬ secondOfFour b c then (false,1)
      else if ¬ isContinuation (s.getD 1 0) then (false,2)
      else if ¬ isContinuation (s.getD 2 0) then (false,3) else (true,4)
    else (false,1)

/-- U+FFFD. -/
def replacement : Bytes := [0xEF,0xBF,0xBD]

def lossyLoop : Bytes → (copy drop : Nat) → Bytes
  | [],_,_ => []
  | c :: s,copy + 1,drop => c :: lossyLoop s copy drop
  | _ :: s,0,drop + 1 => lossyLoop s 0 drop
  | c :: s,0,0 =>
    match utf8Head (c :: s) with
    | (true,n) => c :: lossyLoop s (n - 1) 0
    | (false,n) => replacement ++ lossyLoop s 0 (n - 1)

def fromUtf8Lossy (s : Bytes) : Bytes := lossyLoop s 0 0

theorem utf8Head_ascii (c : UInt8) (s : Bytes) (plain : c < 128) : utf8Head (c :: s) = (true,1) := by
  simp only [utf8Head,plain,if_true]

theorem fromUtf8Lossy_ascii (s : Bytes) (plain : ∀ c ∈ s, c < 128) : fromUtf8Lossy s = s := by
  induction s with
  | nil => rfl
  | cons c s ih =>
    obtain ⟨here,later⟩ := List.forall_mem_cons.mp plain
    simp only [fromUtf8Lossy,lossyLoop,utf8Head_ascii c s here]
    exact congrArg (List.cons c) (ih later)

def maxLineLen : Nat := 4096

/-- One call of `read_line`; `chunks` is what the port still gives before the deadline. -/
def readLine (rx : Bytes) (chunks : List Bytes) : Read × Bytes × List Bytes :=
  match find lineFeed rx with
  | some nl =>
    let line := fromUtf8Lossy (rx.take nl)
    (.line (if line.getLast? = some carriageReturn then line.dropLast else line),rx.drop (nl + 1),chunks)
  | none =>
    if rx.length > maxLineLen then (.failed .lineTooLong,[],[])
    else match chunks with
      | [] => (.deadline,rx,[])
      | chunk :: chunks => readLine (rx ++ chunk) chunks

theorem readLine_consumes (rx : Bytes) (chunks : List Bytes) (line rest : Bytes) (left : List Bytes)
    (read : readLine rx chunks = (.line line,rest,left)) :
    rest.length + left.flatten.length < rx.length + chunks.flatten.length := by
  induction chunks generalizing rx with
  | nil =>
    unfold readLine at read
    cases found : find lineFeed rx with
    | none =>
      simp only [found] at read
      split at read <;> cases read
    | some nl =>
      simp only [found] at read
      obtain ⟨bound,_,_⟩ := find_split _ _ _ found
      cases read
      rw [List.length_drop]
      omega
  | cons chunk chunks ih =>
    unfold readLine at read
    cases found : find lineFeed rx with
    | none =>
      simp only [found] at read
      split at read
      · cases read
      · have less := ih (rx ++ chunk) read
        rw [List.length_append] at less
        rw [List.flatten_cons,List.length_append]
        omega
    | some nl =>
      simp only [found] at read
      obtain ⟨bound,_,_⟩ := find_split _ _ _ found
      cases read
      rw [List.length_drop]
      omega

def reads (rx : Bytes) (chunks : List Bytes) : List Read :=
  match _ : readLine rx chunks with
  | (.line line,rest,left) => .line line :: reads rest left
  | (other,_,_) => [other]
termination_by rx.length + chunks.flatten.length
decreasing_by exact readLine_consumes _ _ _ _ _ ‹_›

/-- However the stream is cut, a line of it is read whole and the rest is kept. -/
theorem readLine_line (rx : Bytes) (chunks : List Bytes) (line rest : Bytes)
    (stream : rx ++ chunks.flatten = line ++ lineFeed :: rest) (clean : lineFeed ∉ line)
    (short : line.length ≤ maxLineLen) :
    ∃ left more, readLine rx chunks = (.line (if (fromUtf8Lossy line).getLast? = some carriageReturn then
        (fromUtf8Lossy line).dropLast else fromUtf8Lossy line),left,more) ∧ left ++ more.flatten = rest := by
  induction chunks generalizing rx with
  | nil =>
    rw [List.flatten_nil,List.append_nil] at stream
    subst stream
    unfold readLine
    simp only [find_append lineFeed line rest clean,List.take_left]
    exact ⟨_,_,rfl,by simp⟩
  | cons chunk chunks ih =>
    unfold readLine
    cases found : find lineFeed rx with
    | some nl =>
      obtain ⟨_,fresh,split⟩ := find_split _ _ _ found
      rw [split,List.append_assoc,List.cons_append] at stream
      have place := find_append lineFeed line rest clean
      rw [← stream,find_append lineFeed _ _ fresh] at place
      obtain ⟨same,after⟩ := List.append_inj stream (Option.some.inj place)
      simp only [same]
      exact ⟨_,_,rfl,(List.cons.inj after).2⟩
    | none =>
      have absent := (find_none_iff lineFeed rx).mp found
      have within : rx.length ≤ line.length := by
        by_contra beyond
        have here : (rx ++ (chunk :: chunks).flatten)[line.length]? = some lineFeed := by
          rw [stream,List.getElem?_append_right le_rfl]
          simp
        rw [List.getElem?_append_left (by omega)] at here
        exact absent (List.mem_of_getElem? here)
      simp only
      rw [if_neg (by omega)]
      exact ih (rx ++ chunk) (by rw [← stream,List.flatten_cons,List.append_assoc])

/-- Printed lines come back as they were printed. -/
theorem reads_lines (lines : List Bytes) (rx : Bytes) (chunks : List Bytes)
    (stream : rx ++ chunks.flatten = lines.flatMap (· ++ [carriageReturn,lineFeed]))
    (clean : ∀ line ∈ lines, line.length < maxLineLen ∧ Firmware.LineText line) :
    ∃ more, reads rx chunks = lines.map .line ++ more := by
  induction lines generalizing rx chunks with
  | nil => exact ⟨_,rfl⟩
  | cons line lines ih =>
    obtain ⟨⟨short,plain⟩,later⟩ := List.forall_mem_cons.mp clean
    have whole : rx ++ chunks.flatten = (line ++ [carriageReturn]) ++ lineFeed ::
        lines.flatMap (· ++ [carriageReturn,lineFeed]) := by
      rw [stream,List.flatMap_cons]
      simp
    have noFeed : lineFeed ∉ line ++ [carriageReturn] := by
      rw [List.mem_append,not_or]
      exact ⟨plain.lineFeed,by decide +kernel⟩
    obtain ⟨left,more,taken,rest⟩ := readLine_line rx chunks _ _ whole noFeed (by
      rw [List.length_append,List.length_singleton]
      omega)
    have kept : fromUtf8Lossy (line ++ [carriageReturn]) = line ++ [carriageReturn] :=
      fromUtf8Lossy_ascii _ (by
        rw [List.forall_mem_append]
        exact ⟨fun c member => (plain c member).2,by decide +kernel⟩)
    rw [kept,List.getLast?_concat,if_pos rfl,List.dropLast_concat] at taken
    obtain ⟨end_,others⟩ := ih left more rest later
    refine ⟨end_,?_⟩
    rw [reads]
    split
    · rename_i line' left' more' again
      obtain ⟨sameLine,sameRest⟩ := Prod.mk.inj (again.symm.trans taken)
      obtain ⟨rfl,rfl⟩ := Prod.mk.inj sameRest
      rw [others,Read.line.inj sameLine]
      rfl
    · rename_i other _ _ noLine again
      exact absurd ((Prod.mk.inj (again.symm.trans taken)).1) (noLine line)

end R503.Host
