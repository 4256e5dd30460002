import R503.Eeprom
import R503.FirmwareFraming
import Mathlib.Data.List.TakeWhile

/-! The command handlers of the Nano (r503fp.ino). A handler is the list of what it
prints, what it updates in EEPROM and what it asks of the fingerprint module; the
answers of the module during one line are the fields of `Library`. LED calls are left out. -/
namespace R503.Firmware

open Text

/-- Results of the fingerprint library while one line is handled. -/
structure Library where
  passwordOk : Bool
  capacity : UInt16
  templateCount : UInt16
  systemId : UInt16
  securityLevel : UInt16
  deviceAddr : UInt32
  /-- `getImage` results before the deadline of each wait, in order. -/
  firstImages : List UInt8
  removalImages : List UInt8
  secondImages : List UInt8
  image2Tz1 : UInt8
  image2Tz2 : UInt8
  createModel : UInt8
  storeModel : UInt8
  fingerSearch : UInt8
  fingerId : UInt16
  confidence : UInt16
  deleteModel : UInt8
  emptyDatabase : UInt8
  wakeLow : Bool

def fingerprintOk : UInt8 := 0x00
def fingerprintNoFinger : UInt8 := 0x02
def fingerprintNotFound : UInt8 := 0x09
def fingerprintEnrollMismatch : UInt8 := 0x0A
def fingerprintTimeout : UInt8 := 0xFF

inductive SensorCall where
  | capture
  | image2Tz (buffer : Nat)
  | createModel
  | fingerSearch
  | storeModel (slot : UInt16)
  | deleteModel (slot : UInt16)
  | emptyDatabase
  deriving DecidableEq, Repr

inductive Output where
  | print (text : Bytes)
  | update (address : Nat) (value : UInt8)
  | sensor (call : SensorCall)
  deriving DecidableEq, Repr

def println : List Bytes → List Output
  | [] => [.print [carriageReturn,lineFeed]]
  | piece :: pieces => .print piece :: println pieces

def say (text : String) : List Output := println [ascii text]

def number (n : Nat) : Bytes := Decimal.render n

def hexDigit (d : Nat) : UInt8 := UInt8.ofNat (if d < 10 then 48 + d else 55 + d)

/-- `print(n, HEX)`: upper case, no leading zeros. -/
def hexNumber (n : Nat) : Bytes :=
  if n = 0 then [48] else ((Nat.digits 16 n).map hexDigit).reverse

def emitInfo (lib : Library) : List Output :=
  if ¬ lib.passwordOk then say "ERR sensor_unreachable"
  else println [ascii "OK fw=1.1 capacity=",number lib.capacity.toNat,ascii " enrolled=",
    number lib.templateCount.toNat,ascii " sysid=0x",hexNumber lib.systemId.toNat,ascii " security=",
    number lib.securityLevel.toNat,ascii " device_addr=0x",hexNumber lib.deviceAddr.toNat]

def emitCount (lib : Library) : List Output := println [ascii "OK count=",number lib.templateCount.toNat]

def waitForFingerCapture : List UInt8 → UInt8
  | [] => fingerprintTimeout
  | p :: rest =>
    if p = fingerprintOk then fingerprintOk
    else if p = fingerprintNoFinger then waitForFingerCapture rest
    else p

def waitForFingerRemoval : List UInt8 → UInt8
  | [] => fingerprintTimeout
  | p :: rest => if p = fingerprintNoFinger then fingerprintOk else waitForFingerRemoval rest

def handleEnroll (lib : Library) (slot : Int) : List Output :=
  if slot < 0 ∨ slot ≥ lib.capacity.toNat then say "ERR bad_args slot_out_of_range"
  else say "PROGRESS place_finger" ++ .sensor .capture ::
    let p := waitForFingerCapture lib.firstImages
    if p ≠ fingerprintOk then println [ascii "ERR capture_failed=",number p.toNat]
    else .sensor (.image2Tz 1) ::
      if lib.image2Tz1 ≠ fingerprintOk then println [ascii "ERR image2tz_failed=",number lib.image2Tz1.toNat]
      else say "PROGRESS remove_finger" ++
        if waitForFingerRemoval lib.removalImages ≠ fingerprintOk then say "ERR finger_not_removed"
        else say "PROGRESS place_again" ++ .sensor .capture ::
          let p := waitForFingerCapture lib.secondImages
          if p ≠ fingerprintOk then println [ascii "ERR second_capture_failed=",number p.toNat]
          else .sensor (.image2Tz 2) ::
            if lib.image2Tz2 ≠ fingerprintOk then
              println [ascii "ERR image2tz_failed=",number lib.image2Tz2.toNat]
            else .sensor .createModel ::
              if lib.createModel = fingerprintEnrollMismatch then say "ERR mismatch"
              else if lib.createModel ≠ fingerprintOk then
                println [ascii "ERR create_model_failed=",number lib.createModel.toNat]
              else .sensor (.storeModel (UInt16.ofInt slot)) ::
                if lib.storeModel ≠ fingerprintOk then
                  println [ascii "ERR store_failed=",number lib.storeModel.toNat]
                else println [ascii "OK enrolled=",number slot.toNat]

def handleVerify (lib : Library) : List Output :=
  say "PROGRESS place_finger" ++ .sensor .capture ::
    if waitForFingerCapture lib.firstImages ≠ fingerprintOk then say "ERR timeout"
    else .sensor (.image2Tz 1) ::
      if lib.image2Tz1 ≠ fingerprintOk then say "ERR poor_quality"
      else .sensor .fingerSearch ::
        if lib.fingerSearch = fingerprintNotFound then say "ERR no_match"
        else if lib.fingerSearch ≠ fingerprintOk then
          println [ascii "ERR search_failed=",number lib.fingerSearch.toNat]
        else println [ascii "OK match=",number lib.fingerId.toNat,ascii " confidence=",
          number lib.confidence.toNat]

def handleDelete (lib : Library) (slot : Int) : List Output :=
  if slot < 0 ∨ slot ≥ lib.capacity.toNat then say "ERR bad_args slot_out_of_range"
  else .sensor (.deleteModel (UInt16.ofInt slot)) ::
    if lib.deleteModel = fingerprintOk then println [ascii "OK deleted=",number slot.toNat]
    else println [ascii "ERR delete_failed=",number lib.deleteModel.toNat]

def handleClear (lib : Library) (confirmed : Bool) : List Output :=
  if ¬ confirmed then say "ERR confirmation_required (use: clear confirm)"
  else .sensor .emptyDatabase ::
    if lib.emptyDatabase = fingerprintOk then say "OK cleared"
    else println [ascii "ERR clear_failed=",number lib.emptyDatabase.toNat]

def handleStatus (e : Eeprom) : List Output :=
  println [ascii "OK paired=",if eeIsPaired e then ascii "true" else ascii "false",ascii " counter=",
    formatU64 (eeLoadCounter e),ascii " fmt=",number eeFormatVersion.toNat,ascii " fw=1.1"]

def updates (writes : List (Nat × UInt8)) : List Output := writes.map fun w => .update w.1 w.2

def handlePair (e : Eeprom) (args : Bytes) : List Output :=
  if eeIsPaired e then say "ERR already_paired"
  else if args.length ≠ 32 then say "ERR bad_args bad_key_len"
  else match hexToBytes args 16 with
    | none => say "ERR bad_args bad_key_hex"
    | some key =>
      if size : key.length = 16 then updates (eeSavePairingWrites ⟨key,size⟩) ++ say "OK paired"
      else say "ERR bad_args bad_key_hex"

def handleUnpairFramed (e : Eeprom) : List Output :=
  if ¬ eeIsPaired e then say "ERR not_paired"
  else updates eeWipeWrites ++ say "OK unpaired"

def isSpace (c : UInt8) : Bool := c == 32 || (9 ≤ c && c ≤ 13)

/-- `String::toInt`: blanks, a sign, the leading digits, as a 32-bit `long`. -/
def toInt (s : Bytes) : Int :=
  let s := s.dropWhile isSpace
  let negative := s.head? = some 45
  let s := if negative ∨ s.head? = some 43 then s.tail else s
  let v : Int := Decimal.value (s.takeWhile Decimal.isDigit)
  (if negative then -v else v).bmod (2 ^ 32)

/-- The conversion of a `long` argument to the 16-bit `int` of a handler. -/
def slotArg (s : Bytes) : Int := (toInt s).bmod (2 ^ 16)

/-- A C string ends at the first NUL, although a `String` holds the bytes behind it. -/
def cString (s : Bytes) : Bytes := s.takeWhile (· != 0)

theorem cString_cons (c : UInt8) (s : Bytes) : cString (c :: s) = if c = 0 then [] else c :: cString s := by
  by_cases ends : c = 0 <;> simp [cString,ends]

theorem cString_subset (s : Bytes) : cString s ⊆ s := (List.takeWhile_prefix _).subset

theorem cString_length (s : Bytes) : (cString s).length ≤ s.length := (List.takeWhile_prefix _).length_le

theorem cString_noNul (s : Bytes) : 0 ∉ cString s := fun inside =>
  bne_iff_ne.mp (List.mem_takeWhile_imp (p := (· != 0)) inside) rfl

theorem cString_clean (s : Bytes) (clean : 0 ∉ s) : cString s = s := by
  refine List.takeWhile_eq_self_iff.mpr fun c member => ?_
  exact bne_iff_ne.mpr fun isNul => clean (isNul ▸ member)

/-- The text in front of a NUL is read whole. -/
theorem cString_append (a b : Bytes) (clean : 0 ∉ a) : cString (a ++ b) = a ++ cString b :=
  List.takeWhile_append_of_pos fun _ member => bne_iff_ne.mpr fun isNul => clean (isNul ▸ member)

/-- `line == text` is `strcmp`. -/
def equals (line : Bytes) (text : String) : Prop := cString line = ascii text

instance (line : Bytes) (text : String) : Decidable (equals line text) := inferInstanceAs (Decidable (_ = _))

theorem equals.other {line : Bytes} {text word : String} (same : equals line text) (differs : ascii text ≠ ascii word) :
    ¬ equals line word := fun also => differs (same.symm.trans also)

theorem equals_clean {line : Bytes} {text : String} (clean : 0 ∉ line) : equals line text ↔ line = ascii text := by
  rw [equals,cString_clean line clean]

/-- `startsWith` compares the length of `text` only. -/
def startsWith (line : Bytes) (text : String) : Prop := (ascii text).isPrefixOf line = true

instance (line : Bytes) (text : String) : Decidable (startsWith line text) :=
  inferInstanceAs (Decidable (_ = true))

/-- `substring` copies a C string. -/
def substring (line : Bytes) (left : Nat) : Bytes := cString (line.drop left)

theorem startsWith_append (text : String) (rest : Bytes) : startsWith (ascii text ++ rest) text :=
  List.isPrefixOf_iff_prefix.mpr (List.prefix_append _ _)

/-- A line cannot be equal to a word and start with a text that the word does not start with. -/
theorem equals.begins {line : Bytes} {text word : String} (same : equals line word) (lead : startsWith line text)
    (clean : 0 ∉ ascii text) : (ascii text).isPrefixOf (ascii word) = true := by
  obtain ⟨rest,rfl⟩ := List.isPrefixOf_iff_prefix.mp lead
  rw [equals,cString_append _ rest clean] at same
  rw [← same]
  exact startsWith_append text _

theorem not_equals_append {text : String} (word : String) (rest : Bytes) (clean : 0 ∉ ascii text)
    (differs : ¬ (ascii text).isPrefixOf (ascii word) = true) : ¬ equals (ascii text ++ rest) word := fun same =>
  differs (same.begins (startsWith_append text rest) clean)

def dispatch (e : Eeprom) (lib : Library) (line : Bytes) : List Output :=
  if equals line "info" then emitInfo lib
  else if equals line "count" then emitCount lib
  else if equals line "verify" ∨ equals line "identify" then handleVerify lib
  else if equals line "clear" then handleClear lib false
  else if equals line "clear confirm" then handleClear lib true
  else if startsWith line "enroll " then handleEnroll lib (slotArg (substring line 7))
  else if startsWith line "delete " then handleDelete lib (slotArg (substring line 7))
  else if equals line "status" then handleStatus e
  else if startsWith line "pair " then handlePair e (substring line 5)
  else if equals line "unpair" then handleUnpairFramed e
  else if equals line "wake" then
    println [ascii "OK wake=",if lib.wakeLow then ascii "1" else ascii "0"]
  else if equals line "ping" then say "OK pong"
  else if equals line "led off" then say "OK"
  else println [ascii "ERR unknown_command ",cString (line.take 40)]

/-! ### The shape of a handler -/

def IsProgress (text : Bytes) : Prop := (ascii "PROGRESS ").isPrefixOf text = true

/-- The two ways the daemon recognises the last line. -/
def IsTerminal (text : Bytes) : Prop :=
  (ascii "OK").isPrefixOf text = true ∨ (ascii "ERR").isPrefixOf text = true

instance (text : Bytes) : Decidable (IsProgress text) := inferInstanceAs (Decidable (_ = true))

instance (text : Bytes) : Decidable (IsTerminal text) := inferInstanceAs (Decidable (_ ∨ _))

/-- Lines printed one by one: at most `room` progress lines, then one terminal line.
`writes` are the EEPROM updates made on the way. -/
inductive Shaped : List (Nat × UInt8) → Nat → List Output → Prop where
  | update (address : Nat) (value : UInt8) : Shaped writes room rest →
      Shaped ((address,value) :: writes) room (.update address value :: rest)
  | sensor (call : SensorCall) : Shaped writes room rest → Shaped writes room (.sensor call :: rest)
  | progress (pieces : List Bytes) : IsProgress pieces.flatten → lineFeed ∉ pieces.flatten →
      Shaped writes room rest → Shaped writes (room + 1) (println pieces ++ rest)
  | terminal (pieces : List Bytes) (room : Nat) : IsTerminal pieces.flatten →
      lineFeed ∉ pieces.flatten → Shaped [] room (println pieces)

def LineText (text : Bytes) : Prop := ∀ c ∈ text, c ≠ lineFeed ∧ c < 128

instance (text : Bytes) : Decidable (LineText text) := inferInstanceAs (Decidable (∀ c ∈ text, _))

theorem LineText.lineFeed {text : Bytes} (clean : LineText text) : lineFeed ∉ text :=
  fun member => (clean _ member).1 rfl

theorem lineText_flatten {pieces : List Bytes} (each : ∀ piece ∈ pieces, LineText piece) :
    LineText pieces.flatten := by
  intro c member
  obtain ⟨piece,inside,here⟩ := List.mem_flatten.mp member
  exact each piece inside c here

theorem number_lineText (n : Nat) : LineText (number n) := by
  intro c member
  have numeric := (Decimal.isDigit_iff c).mp (Decimal.render_digits n c member)
  refine ⟨?_,UInt8.lt_iff_toNat_lt.mpr (numeric.2.trans_lt (by decide))⟩
  rintro rfl
  exact absurd numeric.1 (by decide)

theorem hexNumber_lineText (n : Nat) : LineText (hexNumber n) := by
  unfold hexNumber
  split
  · decide
  · intro c member
    obtain ⟨d,digit,rfl⟩ := List.mem_map.mp (List.mem_reverse.mp member)
    have small := Nat.digits_lt_base (by decide) digit
    have check : ∀ d : Fin 16, hexDigit d ≠ lineFeed ∧ hexDigit d < 128 := by decide
    exact check ⟨d,small⟩

theorem formatU64_lineText (n : UInt64) : LineText (formatU64 n) := by
  rw [formatU64_eq]
  exact number_lineText n.toNat

inductive Printed (P : Bytes → Prop) : List (Nat × UInt8) → Nat → List Output → Prop where
  | update (address : Nat) (value : UInt8) : Printed P writes room rest →
      Printed P ((address,value) :: writes) room (.update address value :: rest)
  | sensor (call : SensorCall) : Printed P writes room rest → Printed P writes room (.sensor call :: rest)
  | progress (pieces : List Bytes) : IsProgress pieces.flatten → lineFeed ∉ pieces.flatten →
      P pieces.flatten → Printed P writes room rest → Printed P writes (room + 1) (println pieces ++ rest)
  | terminal (pieces : List Bytes) (room : Nat) : IsTerminal pieces.flatten →
      lineFeed ∉ pieces.flatten → P pieces.flatten → Printed P [] room (println pieces)

theorem Printed.shaped {P : Bytes → Prop} (printed : Printed P writes room out) : Shaped writes room out := by
  induction printed with
  | update address value _ ih => exact .update address value ih
  | sensor call _ ih => exact .sensor call ih
  | progress pieces progress clean _ _ ih => exact .progress pieces progress clean ih
  | terminal pieces room terminal clean => exact .terminal pieces room terminal clean

theorem Shaped.printed (shaped : Shaped writes room out) : Printed (fun _ => True) writes room out := by
  induction shaped with
  | update address value _ ih => exact .update address value ih
  | sensor call _ ih => exact .sensor call ih
  | progress pieces progress clean _ ih => exact .progress pieces progress clean trivial ih
  | terminal pieces room terminal clean => exact .terminal pieces room terminal clean trivial

theorem Printed.updates {P : Bytes → Prop} (first : List (Nat × UInt8)) (printed : Printed P writes room rest) :
    Printed P (first ++ writes) room (Firmware.updates first ++ rest) := by
  induction first with
  | nil => exact printed
  | cons w first ih => exact .update _ _ ih

theorem Printed.ite {P : Bytes → Prop} {c : Prop} [Decidable c] {yes no : List Output}
    (pos : c → Printed P writes room yes) (neg : ¬ c → Printed P writes room no) :
    Printed P writes room (if c then yes else no) := iteInduction pos neg

/-- The longest line that a frame carries whatever its counter, as long as the seq is one digit. -/
def lineLimit : Nat := 101

def Fits (line : Bytes) : Prop := line.length ≤ lineLimit ∧ LineText line

instance (line : Bytes) : Decidable (Fits line) := inferInstanceAs (Decidable (_ ∧ _))

theorem length_number (n k : Nat) (bound : n < 10 ^ k) (positive : 0 < k) : (number n).length ≤ k :=
  Decimal.render_length_le n k positive bound

theorem length_hexNumber (n k : Nat) (bound : n < 16 ^ k) (positive : 0 < k) : (hexNumber n).length ≤ k := by
  unfold hexNumber
  split
  · exact positive
  · rw [List.length_reverse,List.length_map]
    exact (Nat.digits_length_le_iff (by decide) n).mpr bound

theorem length_formatU64 (n : UInt64) : (formatU64 n).length ≤ 20 := by
  rw [formatU64_eq]
  exact counter_digits_le n

theorem say_fits (text : String) (line : IsTerminal (ascii text) ∧ Fits (ascii text)) :
    Printed Fits [] room (say text) :=
  .terminal [ascii text] room (by simpa using line.1) (by simpa using line.2.2.lineFeed) (by simpa using line.2)

theorem say_progress (text : String) (line : IsProgress (ascii text) ∧ Fits (ascii text))
    (printed : Printed Fits writes room rest) : Printed Fits writes (room + 1) (say text ++ rest) :=
  .progress [ascii text] (by simpa using line.1) (by simpa using line.2.2.lineFeed) (by simpa using line.2) printed

/-- A line that starts with a fixed word and goes on with clean text. -/
theorem line_fits (word : String) (pieces : List Bytes) (lead : IsTerminal (ascii word) ∧ LineText (ascii word))
    (rest : ∀ piece ∈ pieces, LineText piece)
    (short : (ascii word).length + pieces.flatten.length ≤ lineLimit) :
    Printed Fits [] room (println (ascii word :: pieces)) := by
  obtain ⟨terminal,clean⟩ := lead
  have whole : LineText (ascii word :: pieces).flatten := lineText_flatten (List.forall_mem_cons.mpr ⟨clean,rest⟩)
  refine .terminal _ _ ?_ whole.lineFeed ⟨?_,whole⟩
  · rw [List.flatten_cons]
    rcases terminal with h | h
    · exact Or.inl (List.isPrefixOf_iff_prefix.mpr
        ((List.isPrefixOf_iff_prefix.mp h).trans (List.prefix_append _ _)))
    · exact Or.inr (List.isPrefixOf_iff_prefix.mpr
        ((List.isPrefixOf_iff_prefix.mp h).trans (List.prefix_append _ _)))
  · rwa [List.flatten_cons,List.length_append]

/-- A word and a number of 16 bits. -/
theorem code_fits (word : String) (n : Nat) (small : n < 2 ^ 16)
    (lead : (IsTerminal (ascii word) ∧ LineText (ascii word)) ∧ (ascii word).length + 5 ≤ lineLimit) :
    Printed Fits [] room (println [ascii word,number n]) := by
  refine line_fits word _ lead.1 (by simpa using number_lineText n) ?_
  have digits := length_number n 5 (small.trans (by decide)) (by decide)
  have short := lead.2
  simp only [List.flatten_cons,List.flatten_nil,List.append_nil]
  omega

theorem byte_small (p : UInt8) : p.toNat < 2 ^ 16 := p.toNat_lt.trans (by decide)

theorem emitInfo_fits (lib : Library) : Printed Fits [] room (emitInfo lib) := by
  refine .ite (fun _ => say_fits _ (by decide)) fun _ => line_fits _ _ (by decide +kernel) ?_ ?_
  · simp only [List.forall_mem_cons,number_lineText,hexNumber_lineText,true_and,List.not_mem_nil,false_implies,
      implies_true,and_true]
    decide
  · have capacity := length_number lib.capacity.toNat 5 (lib.capacity.toNat_lt.trans (by decide)) (by decide)
    have enrolled := length_number lib.templateCount.toNat 5
      (lib.templateCount.toNat_lt.trans (by decide)) (by decide)
    have system := length_hexNumber lib.systemId.toNat 4 lib.systemId.toNat_lt (by decide)
    have security := length_number lib.securityLevel.toNat 5
      (lib.securityLevel.toNat_lt.trans (by decide)) (by decide)
    have address := length_hexNumber lib.deviceAddr.toNat 8 lib.deviceAddr.toNat_lt (by decide)
    have words : (ascii "OK fw=1.1 capacity=").length = 19 ∧ (ascii " enrolled=").length = 10 ∧
        (ascii " sysid=0x").length = 9 ∧ (ascii " security=").length = 10 ∧
          (ascii " device_addr=0x").length = 15 := by decide
    simp only [List.flatten_cons,List.flatten_nil,List.append_nil,List.length_append,words,lineLimit]
    omega

theorem emitInfo_shaped (lib : Library) : Shaped [] room (emitInfo lib) := (emitInfo_fits lib).shaped

theorem slot_small {lib : Library} {slot : Int} (inside : ¬ (slot < 0 ∨ slot ≥ lib.capacity.toNat)) :
    slot.toNat < 2 ^ 16 := by
  have bound := lib.capacity.toNat_lt
  omega

theorem handleEnroll_fits (lib : Library) (slot : Int) : Printed Fits [] 3 (handleEnroll lib slot) := by
  refine .ite (fun _ => say_fits _ (by decide)) fun inside => ?_
  refine say_progress _ (by decide) (.sensor _ ?_)
  refine .ite (fun _ => code_fits _ _ (byte_small _) (by decide)) fun _ => .sensor _ ?_
  refine .ite (fun _ => code_fits _ _ (byte_small _) (by decide)) fun _ => ?_
  refine say_progress _ (by decide) ?_
  refine .ite (fun _ => say_fits _ (by decide)) fun _ => ?_
  refine say_progress _ (by decide) (.sensor _ ?_)
  refine .ite (fun _ => code_fits _ _ (byte_small _) (by decide)) fun _ => .sensor _ ?_
  refine .ite (fun _ => code_fits _ _ (byte_small _) (by decide)) fun _ => .sensor _ ?_
  refine .ite (fun _ => say_fits _ (by decide)) fun _ => ?_
  refine .ite (fun _ => code_fits _ _ (byte_small _) (by decide)) fun _ => .sensor _ ?_
  refine .ite (fun _ => code_fits _ _ (byte_small _) (by decide)) fun _ => ?_
  exact code_fits _ _ (slot_small inside) (by decide)

theorem handleVerify_fits (lib : Library) : Printed Fits [] 3 (handleVerify lib) := by
  refine say_progress _ (by decide) (.sensor _ ?_)
  refine .ite (fun _ => say_fits _ (by decide)) fun _ => .sensor _ ?_
  refine .ite (fun _ => say_fits _ (by decide)) fun _ => .sensor _ ?_
  refine .ite (fun _ => say_fits _ (by decide)) fun _ => ?_
  refine .ite (fun _ => code_fits _ _ (byte_small _) (by decide)) fun _ => ?_
  refine line_fits _ _ (by decide) ?_ ?_
  · simp only [List.forall_mem_cons,number_lineText,true_and,List.not_mem_nil,false_implies,implies_true,and_true]
    decide
  · have finger := length_number lib.fingerId.toNat 5 (lib.fingerId.toNat_lt.trans (by decide)) (by decide)
    have confidence := length_number lib.confidence.toNat 5
      (lib.confidence.toNat_lt.trans (by decide)) (by decide)
    have words : (ascii "OK match=").length = 9 ∧ (ascii " confidence=").length = 12 := by decide
    simp only [List.flatten_cons,List.flatten_nil,List.append_nil,List.length_append,words,lineLimit]
    omega

theorem handleDelete_fits (lib : Library) (slot : Int) : Printed Fits [] room (handleDelete lib slot) := by
  refine .ite (fun _ => say_fits _ (by decide)) fun inside => .sensor _ ?_
  refine .ite (fun _ => code_fits _ _ (slot_small inside) (by decide)) fun _ => ?_
  exact code_fits _ _ (byte_small _) (by decide)

theorem handleClear_fits (lib : Library) (confirmed : Bool) : Printed Fits [] room (handleClear lib confirmed) := by
  refine .ite (fun _ => say_fits _ (by decide)) fun _ => .sensor _ ?_
  refine .ite (fun _ => say_fits _ (by decide)) fun _ => ?_
  exact code_fits _ _ (byte_small _) (by decide)

theorem handleStatus_fits (e : Eeprom) : Printed Fits [] room (handleStatus e) := by
  refine line_fits _ _ (by decide) ?_ ?_
  · simp only [List.forall_mem_cons,number_lineText,formatU64_lineText,true_and,List.not_mem_nil,false_implies,
      implies_true,and_true]
    refine ⟨?_,by decide,by decide +kernel,by decide +kernel⟩
    split <;> decide
  · have counter := length_formatU64 (eeLoadCounter e)
    have flag : (if eeIsPaired e then ascii "true" else ascii "false").length ≤ 5 := by
      split <;> decide
    have words : (ascii "OK paired=").length = 10 ∧ (ascii " counter=").length = 9 ∧
        (ascii " fmt=").length = 5 ∧ (number eeFormatVersion.toNat).length = 1 ∧
          (ascii " fw=1.1").length = 7 := by decide
    simp only [List.flatten_cons,List.flatten_nil,List.append_nil,List.length_append,words,lineLimit]
    omega

/-- Only an unpaired Nano takes a key. -/
theorem handlePair_fits (e : Eeprom) (args : Bytes) :
    Printed Fits [] room (handlePair e args) ∨ eeIsPaired e = false ∧
      ∃ key : Key, hexToBytes args 16 = some key.bytes ∧
        Printed Fits (eeSavePairingWrites key) room (handlePair e args) := by
  unfold handlePair
  split
  · exact Or.inl (say_fits _ (by decide))
  next unpaired =>
    split
    · exact Or.inl (say_fits _ (by decide))
    split
    · exact Or.inl (say_fits _ (by decide))
    next key decoded =>
      split
      next size =>
        have saved := Printed.updates (eeSavePairingWrites ⟨key,size⟩)
          (@say_fits room "OK paired" (by decide))
        rw [List.append_nil] at saved
        exact Or.inr ⟨by simpa using unpaired,⟨key,size⟩,decoded,saved⟩
      · exact Or.inl (say_fits _ (by decide))

theorem handleUnpairFramed_fits (e : Eeprom) :
    Printed Fits [] room (handleUnpairFramed e) ∨
      Printed Fits eeWipeWrites room (handleUnpairFramed e) := by
  unfold handleUnpairFramed
  split
  · exact Or.inl (say_fits _ (by decide))
  · have wiped := Printed.updates eeWipeWrites
      (@say_fits room "OK unpaired" (by decide))
    rw [List.append_nil] at wiped
    exact Or.inr wiped

/-- What `out` may be as the answer to a line: a terminal line after at most three progress
lines, and on a paired Nano no EEPROM update but the wipe of `unpair`. The echo of an
unknown command is as clean as the line. -/
def Answers (e : Eeprom) (line : Bytes) (out : List Output) : Prop :=
  (∃ writes, Shaped writes 3 out ∧
    (eeIsPaired e = true → writes = [] ∨ equals line "unpair" ∧ writes = eeWipeWrites)) ∨
    out = println [ascii "ERR unknown_command ",cString (line.take 40)]

def AnswersWithin (e : Eeprom) (line : Bytes) (out : List Output) : Prop :=
  (∃ writes, Printed Fits writes 3 out ∧
    (eeIsPaired e = true → writes = [] ∨ equals line "unpair" ∧ writes = eeWipeWrites)) ∨
    out = println [ascii "ERR unknown_command ",cString (line.take 40)]

theorem dispatch_within (e : Eeprom) (lib : Library) (line : Bytes) :
    AnswersWithin e line (dispatch e lib line) := by
  have quiet {out : List Output} (printed : Printed Fits [] 3 out) : AnswersWithin e line out :=
    Or.inl ⟨[],printed,fun _ => Or.inl rfl⟩
  unfold dispatch
  refine iteInduction (fun _ => quiet (emitInfo_fits lib)) fun _ => ?_
  refine iteInduction (fun _ => quiet (code_fits _ _ lib.templateCount.toNat_lt (by decide))) fun _ => ?_
  refine iteInduction (fun _ => quiet (handleVerify_fits lib)) fun _ => ?_
  refine iteInduction (fun _ => quiet (handleClear_fits lib false)) fun _ => ?_
  refine iteInduction (fun _ => quiet (handleClear_fits lib true)) fun _ => ?_
  refine iteInduction (fun _ => quiet (handleEnroll_fits lib _)) fun _ => ?_
  refine iteInduction (fun _ => quiet (handleDelete_fits lib _)) fun _ => ?_
  refine iteInduction (fun _ => quiet (handleStatus_fits e)) fun _ => ?_
  refine iteInduction (motive := AnswersWithin e line) (fun _ => ?_) fun _ => ?_
  · rcases handlePair_fits e (substring line 5) with printed | ⟨unpaired,key,_,printed⟩
    · exact quiet printed
    · exact Or.inl ⟨_,printed,fun paired => absurd (unpaired.symm.trans paired) (by decide)⟩
  refine iteInduction (motive := AnswersWithin e line) (fun same => ?_) fun _ => ?_
  · rcases handleUnpairFramed_fits e with printed | printed
    · exact quiet printed
    · exact Or.inl ⟨_,printed,fun _ => Or.inr ⟨same,rfl⟩⟩
  refine iteInduction (fun _ => quiet (line_fits _ _ (by decide) ?_ ?_)) fun _ => ?_
  · intro piece member
    obtain rfl := List.mem_singleton.mp member
    split <;> decide
  · split <;> decide
  refine iteInduction (fun _ => quiet (say_fits _ (by decide))) fun _ => ?_
  refine iteInduction (fun _ => quiet (say_fits _ (by decide))) fun _ => ?_
  exact Or.inr rfl

theorem dispatch_answers (e : Eeprom) (lib : Library) (line : Bytes) :
    Answers e line (dispatch e lib line) :=
  (dispatch_within e lib line).imp_left fun ⟨writes,printed,quiet⟩ => ⟨writes,printed.shaped,quiet⟩

/-- Every command line the serial loop hands on answers with one terminal line, printed last. -/
theorem dispatch_shaped (e : Eeprom) (lib : Library) (line : Bytes) (clean : lineFeed ∉ line) :
    ∃ writes, Shaped writes 3 (dispatch e lib line) ∧
      (eeIsPaired e = true → writes = [] ∨ equals line "unpair" ∧ writes = eeWipeWrites) := by
  rcases dispatch_answers e lib line with answer | unknown
  · exact answer
  · rw [unknown]
    refine ⟨[],.terminal _ 3 (Or.inr rfl) ?_,fun _ => Or.inl rfl⟩
    simp only [List.flatten_cons,List.flatten_nil,List.append_nil,List.mem_append,not_or]
    exact ⟨by decide,fun inside => clean (List.mem_of_mem_take (cString_subset _ inside))⟩

/-- An ASCII command is answered by lines that fit their frames. -/
theorem dispatch_fits (e : Eeprom) (lib : Library) (line : Bytes) (clean : LineText line) :
    ∃ writes, Printed Fits writes 3 (dispatch e lib line) := by
  rcases dispatch_within e lib line with ⟨writes,printed,_⟩ | unknown
  · exact ⟨writes,printed⟩
  · rw [unknown]
    refine ⟨[],line_fits _ _ (by decide) ?_ ?_⟩
    · intro piece member
      obtain rfl := List.mem_singleton.mp member
      exact fun c inside => clean c (List.mem_of_mem_take (cString_subset _ inside))
    · have word : (ascii "ERR unknown_command ").length = 20 := rfl
      have echo := (cString_length (line.take 40)).trans (List.length_take_le 40 line)
      simp only [List.flatten_cons,List.flatten_nil,List.append_nil,word,lineLimit]
      omega

def Output.isUpdate : Output → Bool
  | .update _ _ => true
  | _ => false

theorem println_still (pieces : List Bytes) : ∀ o ∈ println pieces, o.isUpdate = false := by
  induction pieces with
  | nil => simp [println,Output.isUpdate]
  | cons piece pieces ih => exact List.forall_mem_cons.mpr ⟨rfl,ih⟩

theorem Shaped.still (shaped : Shaped writes room out) (none : writes = []) :
    ∀ o ∈ out, o.isUpdate = false := by
  induction shaped with
  | update => cases none
  | sensor _ _ ih => exact List.forall_mem_cons.mpr ⟨rfl,ih none⟩
  | progress pieces _ _ _ ih =>
    intro o member
    rcases List.mem_append.mp member with here | later
    · exact println_still pieces o here
    · exact ih none o later
  | terminal pieces => exact println_still pieces

/-- Once paired, only `unpair` touches the EEPROM. -/
theorem dispatch_still (e : Eeprom) (lib : Library) (line : Bytes) (paired : eeIsPaired e = true)
    (other : ¬ equals line "unpair") : ∀ o ∈ dispatch e lib line, o.isUpdate = false := by
  rcases dispatch_answers e lib line with ⟨writes,shaped,quiet⟩ | unknown
  · exact shaped.still ((quiet paired).resolve_right fun same => other same.1)
  · rw [unknown]
    exact println_still _

end R503.Firmware
