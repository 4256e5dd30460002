import R503.FrameGrammar

/-! The Nano's v2 framing (framing.h): decimal and hex helpers, tag buffers, the
command parser and the response encoder. Pointer and length pairs are byte lists. -/
namespace R503.Firmware

open Text

def counterCeiling : UInt64 := 0xFFFFFFFFFFFF0000

/-- The two mirrored constants hold the same value. -/
theorem ceiling_agree : counterCeiling = Host.counterCeiling := rfl

def hexToBytes (hex : Bytes) (outMax : Nat) : Option Bytes :=
  if hex.length % 2 ≠ 0 then none
  else if hex.length / 2 > outMax then none
  else Hex.decode hex

/-- Digits of `n`, lowest first; `tmp` has room for 21. -/
def formatLoop : Nat → UInt64 → Bytes
  | 0, _ => []
  | room + 1, n => if n = 0 then [] else (48 + (n % 10).toUInt8) :: formatLoop room (n / 10)

def formatU64 (n : UInt64) : Bytes := if n = 0 then [48] else (formatLoop 21 n).reverse

def formatU32 (n : UInt32) : Bytes := formatU64 n.toUInt64

/-- The accumulate loop of `parse_u64` with its two overflow guards. -/
def parseLoop : Bytes → UInt64 → Option UInt64
  | [], v => some v
  | c :: p, v =>
    if c < 48 ∨ c > 57 then none
    else if v > 0xFFFFFFFFFFFFFFFF / 10 then none
    else
      let v := v * 10
      let d := (c - 48).toUInt64
      if v > 0xFFFFFFFFFFFFFFFF - d then none else parseLoop p (v + d)

def parseU64 (p : Bytes) : Option UInt64 :=
  if p.length = 0 then none
  else if p.length > 1 ∧ p.head? = some 48 then none
  else parseLoop p 0

def macBufferSize : Nat := 128

def computeCmdMac (key : Key) (counter : UInt64) (cmdLine : Bytes) : Option Bytes :=
  let buf := ascii "CMD "
  let buf := buf ++ formatU64 counter
  if buf.length + 1 > macBufferSize then none
  else
    let buf := buf ++ [space]
    if buf.length + cmdLine.length > macBufferSize then none
    else some (toLeBytes (siphash24 key (buf ++ cmdLine)))

def computeRespMac (key : Key) (counter : UInt64) (seq : UInt32) (body : Bytes) : Option Bytes :=
  let buf := ascii "RSP "
  let buf := buf ++ formatU64 counter
  if buf.length + 1 > macBufferSize then none
  else
    let buf := buf ++ [space] ++ formatU32 seq
    if buf.length + 1 > macBufferSize then none
    else
      let buf := buf ++ [space]
      if buf.length + body.length > macBufferSize then none
      else some (toLeBytes (siphash24 key (buf ++ body)))

/-- The refusals of `FrameParseStatus`; `FRAME_OK` is the `Except.ok` side. -/
inductive FrameParseStatus where
  | badLeader
  | tooShort
  | badSuffix
  | badMacHex
  | badCounter
  | badSeq
  | macMismatch
  deriving DecidableEq, Repr

/-- Counter, command text and claimed tag of `C <counter> <cmd_line> M <mac_hex>`. -/
def parseCommandFrame (line : Bytes) : Except FrameParseStatus (UInt64 × Bytes × Bytes) :=
  let lineLen := line.length
  if lineLen < 24 then .error .tooShort
  else if ¬ (ascii "C ").isPrefixOf line then .error .badLeader
  else
    let suffixLen := 3 + 16
    if lineLen < 2 + suffixLen then .error .tooShort
    else
      let suffix := line.drop (lineLen - suffixLen)
      if ¬ (ascii " M ").isPrefixOf suffix then .error .badSuffix
      else match hexToBytes (suffix.drop 3) 8 with
        | none => .error .badMacHex
        | some mac =>
          if mac.length ≠ 8 then .error .badMacHex
          else
            let body := (line.drop 2).take (lineLen - 2 - suffixLen)
            let sp := (find space body).getD body.length
            if sp = 0 ∨ sp ≥ body.length then .error .tooShort
            else match parseU64 (body.take sp) with
              | none => .error .badCounter
              | some counter => .ok (counter,body.drop (sp + 1),mac)

def macDiff (claimed computed : Bytes) : UInt8 :=
  (List.zipWith (· ^^^ ·) claimed computed).foldl (· ||| ·) 0

def verifyCommandFrame (key : Key) (line : Bytes) : Except FrameParseStatus (UInt64 × Bytes) :=
  match parseCommandFrame line with
  | .error rc => .error rc
  | .ok (counter,cmdLine,claimed) =>
    match computeCmdMac key counter cmdLine with
    | none => .error .tooShort
    | some computed =>
      if macDiff claimed computed ≠ 0 then .error .macMismatch else .ok (counter,cmdLine)

def put (outMax : Nat) (out piece : Bytes) : Option Bytes :=
  if out.length + piece.length > outMax then none else some (out ++ piece)

def encodeResponseFrame (key : Key) (counter : UInt64) (seq : UInt32) (body : Bytes)
    (outMax : Nat) : Option Bytes := do
  let mac ← computeRespMac key counter seq body
  let out ← put outMax [] (ascii "R ")
  let out ← put outMax out (formatU64 counter)
  let out ← put outMax out [space]
  let out ← put outMax out (formatU32 seq)
  let out ← put outMax out [space]
  let out ← put outMax out body
  let out ← put outMax out (ascii " M ")
  if out.length + 16 + 1 > outMax then none else some (out ++ Hex.encode mac)

/-! ### Decimal text -/

theorem low_digit (n : UInt64) : 48 + (n % 10).toUInt8 = Decimal.digit (n.toNat % 10) := by
  apply UInt8.toNat_inj.mp
  simp [Decimal.digit]

theorem formatLoop_eq (room : Nat) (n : UInt64) (bound : n.toNat < 10 ^ room) :
    formatLoop room n = (Nat.digits 10 n.toNat).map Decimal.digit := by
  induction room generalizing n with
  | zero =>
    have zero : n.toNat = 0 := by omega
    simp [formatLoop,zero]
  | succ room ih =>
    by_cases zero : n = 0
    · subst n
      simp [formatLoop]
    · have positive : 0 < n.toNat :=
        Nat.pos_of_ne_zero fun h => zero (UInt64.toNat_inj.mp h)
      have quotient : (n / 10).toNat = n.toNat / 10 := by simp [UInt64.toNat_div]
      rw [formatLoop,if_neg zero,ih _ (by rw [quotient]; rw [pow_succ] at bound; omega),quotient,low_digit,
        Nat.digits_def' (by decide) positive,List.map_cons]

theorem formatU64_eq (n : UInt64) : formatU64 n = Decimal.render n.toNat := by
  have range : n.toNat < 10 ^ 21 := Nat.lt_trans n.toNat_lt (by decide)
  unfold formatU64 Decimal.render
  by_cases zero : n = 0
  · subst n
    rfl
  · have positive : n.toNat ≠ 0 := fun h => zero (UInt64.toNat_inj.mp h)
    rw [if_neg zero,if_neg positive,formatLoop_eq 21 n range]

theorem formatU32_eq (n : UInt32) : formatU32 n = Decimal.render n.toNat := by
  rw [formatU32,formatU64_eq,UInt32.toNat_toUInt64]

theorem counter_digits_le (n : UInt64) : (Decimal.render n.toNat).length ≤ 20 :=
  Decimal.render_length_le _ 20 (by decide) (Nat.lt_trans n.toNat_lt (by decide))

theorem seq_digits_le (n : UInt32) : (Decimal.render n.toNat).length ≤ 10 :=
  Decimal.render_length_le _ 10 (by decide) (Nat.lt_trans n.toNat_lt (by decide))

/-! ### The accumulate loop -/

theorem outside_iff (c : UInt8) : (c < 48 ∨ c > 57) ↔ ¬ Decimal.isDigit c = true := by
  rw [Decimal.isDigit_iff]
  simp only [gt_iff_lt,UInt8.lt_iff_toNat_lt]
  simp
  omega

theorem digit_toNat {c : UInt8} (digit : Decimal.isDigit c = true) :
    (c - 48).toUInt64.toNat = Decimal.digitValue c := by
  obtain ⟨low,_⟩ := (Decimal.isDigit_iff c).mp digit
  rw [UInt8.toNat_toUInt64,UInt8.toNat_sub_of_le c 48 (UInt8.le_iff_toNat_le.mpr low)]
  rfl

theorem room_toNat (d : UInt64) : (0xFFFFFFFFFFFFFFFF - d).toNat = 2 ^ 64 - 1 - d.toNat := by
  have bound := d.toNat_lt
  rw [UInt64.toNat_sub_of_le _ _ (UInt64.le_iff_toNat_le.mpr (by simp; omega))]
  rfl

theorem first_guard_iff (v : UInt64) : v > 0xFFFFFFFFFFFFFFFF / 10 ↔ 2 ^ 64 ≤ v.toNat * 10 := by
  rw [gt_iff_lt,UInt64.lt_iff_toNat_lt]
  simp
  omega

theorem second_guard_iff (v d : UInt64) : v > 0xFFFFFFFFFFFFFFFF - d ↔ 2 ^ 64 ≤ v.toNat + d.toNat := by
  have bound := d.toNat_lt
  rw [gt_iff_lt,UInt64.lt_iff_toNat_lt,room_toNat]
  omega

/-- The two guards never refuse a value in range and never let one wrap. -/
theorem parseLoop_some_iff (p : Bytes) (v w : UInt64) :
    parseLoop p v = some w ↔
      (∀ c ∈ p, Decimal.isDigit c) ∧ w.toNat = v.toNat * 10 ^ p.length + Decimal.value p := by
  induction p generalizing v with
  | nil =>
    simp only [parseLoop,Option.some.injEq,List.not_mem_nil,false_implies,implies_true,true_and,
      List.length_nil,pow_zero,Nat.mul_one,Decimal.value_nil,Nat.add_zero]
    exact ⟨fun h => by rw [h],fun h => (UInt64.toNat_inj.mp h).symm⟩
  | cons c p ih =>
    have range := w.toNat_lt
    have vrange := v.toNat_lt
    rw [parseLoop]
    by_cases digit : Decimal.isDigit c = true
    · have dValue := digit_toNat digit
      have power : 0 < 10 ^ p.length := Nat.pow_pos (by decide)
      rw [if_neg fun outside => (outside_iff c).mp outside digit,Decimal.value_cons,List.length_cons,pow_succ]
      have digits : (∀ x ∈ c :: p, Decimal.isDigit x) ↔ ∀ x ∈ p, Decimal.isDigit x := by
        simp [digit]
      rw [digits]
      by_cases first : v > 0xFFFFFFFFFFFFFFFF / 10
      · rw [if_pos first]
        have grows := Nat.mul_le_mul_right (10 ^ p.length) ((first_guard_iff v).mp first)
        constructor
        · intro impossible; cases impossible
        · rintro ⟨_,total⟩
          rw [Nat.mul_comm (10 ^ p.length) 10,← Nat.mul_assoc] at total
          have := Nat.le_mul_of_pos_right (2 ^ 64) power
          omega
      · rw [if_neg first]
        have small := Nat.lt_of_not_le (mt (first_guard_iff v).mpr first)
        have product : (v * 10).toNat = v.toNat * 10 := by
          rw [UInt64.toNat_mul]
          simpa using Nat.mod_eq_of_lt small
        simp only []
        by_cases second : v * 10 > 0xFFFFFFFFFFFFFFFF - (c - 48).toUInt64
        · rw [if_pos second]
          have big := (second_guard_iff _ _).mp second
          rw [product,dValue] at big
          have grows := Nat.mul_le_mul_right (10 ^ p.length) big
          constructor
          · intro impossible; cases impossible
          · rintro ⟨_,total⟩
            rw [Nat.mul_comm (10 ^ p.length) 10,← Nat.mul_assoc] at total
            rw [Nat.add_mul] at grows
            have := Nat.le_mul_of_pos_right (2 ^ 64) power
            omega
        · rw [if_neg second,ih]
          have fits := Nat.lt_of_not_le (mt (second_guard_iff _ _).mpr second)
          have sum : (v * 10 + (c - 48).toUInt64).toNat = v.toNat * 10 + Decimal.digitValue c := by
            rw [UInt64.toNat_add,Nat.mod_eq_of_lt fits,product,dValue]
          rw [sum,Nat.add_mul,Nat.mul_comm (10 ^ p.length) 10,← Nat.mul_assoc,Nat.add_assoc]
    · rw [if_pos ((outside_iff c).mpr digit)]
      simp [digit]

theorem parseU64_some_iff (p : Bytes) (v : UInt64) : parseU64 p = some v ↔ p = Decimal.render v.toNat := by
  constructor
  · intro parsed
    unfold parseU64 at parsed
    split at parsed
    · cases parsed
    next nonempty =>
    split at parsed
    · cases parsed
    next lead =>
    obtain ⟨digits,total⟩ := (parseLoop_some_iff p 0 v).mp parsed
    have value : v.toNat = Decimal.value p := by simpa using total
    rw [value]
    exact (Decimal.render_value p ⟨by simpa using nonempty,digits,fun long isZero => lead ⟨long,isZero⟩⟩).symm
  · rintro rfl
    obtain ⟨nonempty,digits,lead⟩ := Decimal.render_canonical v.toNat
    rw [parseU64,if_neg (by simpa using nonempty),if_neg (fun h => lead h.1 h.2),parseLoop_some_iff]
    exact ⟨digits,by simp [Decimal.value_render]⟩

/-! ### Tag buffers -/

theorem computeCmdMac_eq (key : Key) (counter : UInt64) (cmdLine : Bytes) :
    computeCmdMac key counter cmdLine =
      if (Decimal.render counter.toNat).length + cmdLine.length + 5 ≤ macBufferSize then
        some (toLeBytes (Host.siphash24 key (Host.cmdMacInput counter cmdLine)))
      else none := by
  have digits := counter_digits_le counter
  have input : ascii "CMD " ++ Decimal.render counter.toNat ++ [space] ++ cmdLine =
      Host.cmdMacInput counter cmdLine := by simp [Host.cmdMacInput]
  have lead : (ascii "CMD ").length = 4 := rfl
  simp only [computeCmdMac,formatU64_eq,input,siphash_agree,List.length_append,
    List.length_singleton,lead]
  rw [if_neg (by simp only [macBufferSize]; omega)]
  by_cases fits : (Decimal.render counter.toNat).length + cmdLine.length + 5 ≤ macBufferSize
  · rw [if_pos fits,if_neg (by omega)]
  · rw [if_neg fits,if_pos (by omega)]

theorem computeRespMac_eq (key : Key) (counter : UInt64) (seq : UInt32) (body : Bytes) :
    computeRespMac key counter seq body =
      if (Decimal.render counter.toNat).length + (Decimal.render seq.toNat).length +
          body.length + 6 ≤ macBufferSize then
        some (toLeBytes (Host.siphash24 key (Host.rspMacInput counter seq body)))
      else none := by
  have cDigits := counter_digits_le counter
  have sDigits := seq_digits_le seq
  have input : ascii "RSP " ++ Decimal.render counter.toNat ++ [space] ++
      Decimal.render seq.toNat ++ [space] ++ body = Host.rspMacInput counter seq body := by
    simp [Host.rspMacInput]
  have lead : (ascii "RSP ").length = 4 := rfl
  simp only [computeRespMac,formatU64_eq,formatU32_eq,input,siphash_agree,List.length_append,
    List.length_singleton,lead]
  rw [if_neg (by simp only [macBufferSize]; omega),if_neg (by simp only [macBufferSize]; omega)]
  by_cases fits : (Decimal.render counter.toNat).length + (Decimal.render seq.toNat).length +
      body.length + 6 ≤ macBufferSize
  · rw [if_pos fits,if_neg (by omega)]
  · rw [if_neg fits,if_pos (by omega)]

/-! ### Command frames -/

theorem or_fold_eq_zero (s : Bytes) (d : UInt8) :
    s.foldl (· ||| ·) d = 0 ↔ d = 0 ∧ ∀ b ∈ s, b = 0 := by
  induction s generalizing d with
  | nil => simp
  | cons b s ih => simp [ih,UInt8.or_eq_zero_iff,and_assoc]

/-- The accumulated comparison is equality of the two tags. -/
theorem macDiff_eq_zero_iff (a b : Bytes) (same : a.length = b.length) :
    macDiff a b = 0 ↔ a = b := by
  rw [macDiff,or_fold_eq_zero]
  simp only [true_and]
  induction a generalizing b with
  | nil =>
    obtain rfl := List.length_eq_zero_iff.mp same.symm
    simp
  | cons x a ih =>
    cases b with
    | nil => simp at same
    | cons y b =>
      have rest := ih b (Nat.succ.inj same)
      simp only [List.zipWith_cons_cons,List.forall_mem_cons,rest,UInt8.xor_eq_zero_iff,List.cons.injEq]

theorem encodeCommand_length (key : Key) (counter : UInt64) (cmdLine : Bytes) :
    (Host.encodeCommand key counter cmdLine).length =
      (Decimal.render counter.toNat).length + cmdLine.length + 22 := by
  have tail := Host.tail_length (Host.siphash24 key (Host.cmdMacInput counter cmdLine))
  have lead : (ascii "C ").length = 2 := rfl
  simp only [Host.encodeCommand,List.length_append,List.length_cons,lead] at tail ⊢
  simp only [Host.macSuffixLen] at tail
  omega

theorem after_leader (rest : Bytes) (long : 3 + 16 ≤ rest.length) :
    (ascii "C " ++ rest).drop ((ascii "C " ++ rest).length - (3 + 16)) = rest.drop (rest.length - (3 + 16)) ∧
      ((ascii "C " ++ rest).drop 2).take ((ascii "C " ++ rest).length - 2 - (3 + 16)) =
        rest.take (rest.length - (3 + 16)) := by
  have two : (ascii "C ").length = 2 := rfl
  have place : (ascii "C " ++ rest).length - (3 + 16) = (ascii "C ").length + (rest.length - (3 + 16)) := by
    rw [List.length_append]
    omega
  refine ⟨by rw [place,List.drop_length_add_append],?_⟩
  rw [List.length_append,two,Nat.add_sub_cancel_left]
  rfl

/-- A line that parses is a leader, a text and a suffix with sixteen characters. -/
theorem parseCommandFrame_shape {line : Bytes} {parts : UInt64 × Bytes × Bytes}
    (parsed : parseCommandFrame line = .ok parts) :
    24 ≤ line.length ∧ ∃ text hex, hex.length = 16 ∧ line = ascii "C " ++ (text ++ (ascii " M " ++ hex)) := by
  simp only [parseCommandFrame] at parsed
  split at parsed
  · cases parsed
  next long =>
  split at parsed
  · cases parsed
  next leader =>
  obtain ⟨rest,rfl⟩ := List.isPrefixOf_iff_prefix.mp (not_not.mp leader)
  have two : (ascii "C ").length = 2 := rfl
  have room : 3 + 16 ≤ rest.length := by
    rw [List.length_append] at long
    omega
  rw [(after_leader rest room).1] at parsed
  split at parsed
  · cases parsed
  split at parsed
  · cases parsed
  next marker =>
  obtain ⟨hex,suffix⟩ := List.isPrefixOf_iff_prefix.mp (not_not.mp marker)
  refine ⟨not_lt.mp long,rest.take (rest.length - (3 + 16)),hex,?_,by rw [suffix,List.take_append_drop]⟩
  have three : (ascii " M ").length = 3 := rfl
  have whole := congrArg List.length suffix
  rw [List.length_append,List.length_drop] at whole
  omega

/-- On such a line the parser is left with the text and the digits. -/
theorem parseCommandFrame_parts {text hex : Bytes} (size : hex.length = 16)
    (long : 24 ≤ (ascii "C " ++ (text ++ (ascii " M " ++ hex))).length) {counter : UInt64} {cmdLine claimed : Bytes} :
    parseCommandFrame (ascii "C " ++ (text ++ (ascii " M " ++ hex))) = .ok (counter,cmdLine,claimed) ↔
      (hexToBytes hex 8 = some claimed ∧ claimed.length = 8) ∧
        ¬ ((find space text).getD text.length = 0 ∨ (find space text).getD text.length ≥ text.length) ∧
        parseU64 (text.take ((find space text).getD text.length)) = some counter ∧
        text.drop ((find space text).getD text.length + 1) = cmdLine := by
  have suffixLength : (ascii " M " ++ hex).length = 3 + 16 := by
    rw [List.length_append,size]
    rfl
  have textLength : (text ++ (ascii " M " ++ hex)).length - (3 + 16) = text.length := by
    rw [List.length_append,suffixLength,Nat.add_sub_cancel]
  obtain ⟨tail,front⟩ := after_leader (text ++ (ascii " M " ++ hex)) (by
    rw [List.length_append,suffixLength]
    exact Nat.le_add_left _ _)
  rw [textLength,List.drop_left] at tail
  rw [textLength,List.take_left] at front
  have leader : (ascii "C ").isPrefixOf (ascii "C " ++ (text ++ (ascii " M " ++ hex))) = true :=
    List.isPrefixOf_iff_prefix.mpr (List.prefix_append _ _)
  have marker : (ascii " M ").isPrefixOf (ascii " M " ++ hex) = true :=
    List.isPrefixOf_iff_prefix.mpr (List.prefix_append _ _)
  have digits : (ascii " M " ++ hex).drop 3 = hex := by simp [ascii]
  generalize ascii "C " ++ (text ++ (ascii " M " ++ hex)) = line at long leader tail front ⊢
  unfold parseCommandFrame
  simp only [Nat.not_lt.mpr long,↓reduceIte,leader,not_true_eq_false,show ¬ line.length < 2 + (3 + 16) by omega,tail,
    marker,digits,front]
  generalize (find space text).getD text.length = sp
  cases hexToBytes hex 8 with
  | none => simp
  | some mac =>
    by_cases eight : mac.length = 8
    · by_cases outside : sp = 0 ∨ sp ≥ text.length
      · simp [eight,outside]
      · cases parseU64 (text.take sp) with
        | none => simp [eight,outside]
        | some c =>
          simp only [ne_eq,eight,outside,not_true_eq_false,↓reduceIte,Except.ok.injEq,Prod.mk.injEq,Option.some.injEq]
          constructor
          · rintro ⟨rfl,rfl,rfl⟩
            exact ⟨⟨rfl,eight⟩,fun never => never,rfl,rfl⟩
          · rintro ⟨⟨rfl,_⟩,_,rfl,rfl⟩
            exact ⟨rfl,rfl,rfl⟩
    · simp only [ne_eq,eight,not_false_eq_true,↓reduceIte,reduceCtorEq,false_iff]
      rintro ⟨⟨same,wide⟩,_⟩
      exact eight (Option.some.inj same ▸ wide)

/-- The text is a canonical counter, a space and the command. -/
theorem commandText_iff (text cmdLine : Bytes) (counter : UInt64) :
    ¬ ((find space text).getD text.length = 0 ∨ (find space text).getD text.length ≥ text.length) ∧
        parseU64 (text.take ((find space text).getD text.length)) = some counter ∧
        text.drop ((find space text).getD text.length + 1) = cmdLine ↔
      text = Decimal.render counter.toNat ++ space :: cmdLine := by
  constructor
  · rintro ⟨inside,number,rfl⟩
    cases found : find space text with
    | none => simp [found] at inside
    | some sp =>
      simp only [found,Option.getD_some] at number ⊢
      obtain ⟨_,_,whole⟩ := find_split space text sp found
      rw [← (parseU64_some_iff _ _).mp number]
      exact whole
  · rintro rfl
    have digits := Decimal.render_length_pos counter.toNat
    rw [Decimal.find_space,Option.getD_some,List.take_left,Decimal.drop_space,List.length_append,List.length_cons]
    exact ⟨by omega,(parseU64_some_iff _ counter).mpr rfl,rfl⟩

/-- The sixteen characters spell the tag, in either case of the letters. -/
theorem tagHex_iff (hex claimed : Bytes) :
    hexToBytes hex 8 = some claimed ∧ claimed.length = 8 ↔
      hex.length = 16 ∧ claimed.length = 8 ∧ hex.map Hex.lower = macToHex (loadU64Le claimed) := by
  constructor
  · rintro ⟨decoded,eight⟩
    simp only [hexToBytes] at decoded
    split at decoded
    · cases decoded
    split at decoded
    · cases decoded
    next even fits =>
    rw [macToHex,Host.toLeBytes_loadU64Le _ eight]
    have spelled := (Hex.decode_some_iff _ _).mp decoded
    refine ⟨?_,eight,spelled⟩
    rw [← List.length_map Hex.lower,spelled,Hex.encode_length,eight]
  · rintro ⟨size,eight,spelled⟩
    rw [macToHex,Host.toLeBytes_loadU64Le _ eight] at spelled
    exact ⟨by simp [hexToBytes,size,(Hex.decode_some_iff hex claimed).mpr spelled],eight⟩

/-- The Nano reads from both ends of a line the parts the daemon reads, if the line is long enough. -/
theorem parseCommandFrame_ok_iff (line cmdLine claimed : Bytes) (counter : UInt64) :
    parseCommandFrame line = .ok (counter,cmdLine,claimed) ↔ 24 ≤ line.length ∧ claimed.length = 8 ∧
      Host.parseCommand line = .ok (counter,cmdLine,loadU64Le claimed) := by
  rw [Host.parseCommand_ok_iff]
  constructor
  · intro parsed
    obtain ⟨long,text,hex,size,rfl⟩ := parseCommandFrame_shape parsed
    obtain ⟨tag,fields⟩ := (parseCommandFrame_parts size long).mp parsed
    obtain ⟨_,eight,spelled⟩ := (tagHex_iff hex claimed).mp tag
    obtain rfl := (commandText_iff text cmdLine counter).mp fields
    exact ⟨long,eight,hex,by simp,spelled⟩
  · rintro ⟨long,eight,hex,rfl,spelled⟩
    have size : hex.length = 16 := by rw [← List.length_map Hex.lower,spelled,Host.length_macToHex]
    rw [List.append_assoc] at long ⊢
    exact (parseCommandFrame_parts size long).mpr
      ⟨(tagHex_iff hex claimed).mpr ⟨size,eight,spelled⟩,(commandText_iff _ cmdLine counter).mpr rfl⟩

/-- Whatever the Nano verifies carries the tag of its own counter and text. -/
theorem verifyCommandFrame_ok_iff (key : Key) (line : Bytes) (counter : UInt64) (cmdLine : Bytes) :
    verifyCommandFrame key line = .ok (counter,cmdLine) ↔
      ∃ claimed, parseCommandFrame line = .ok (counter,cmdLine,claimed) ∧
        ∃ computed, computeCmdMac key counter cmdLine = some computed ∧ macDiff claimed computed = 0 := by
  unfold verifyCommandFrame
  cases parsed : parseCommandFrame line with
  | error rc => simp
  | ok parts =>
    obtain ⟨c,t,claimed⟩ := parts
    simp only [Except.ok.injEq,Prod.mk.injEq]
    cases mac : computeCmdMac key c t with
    | none =>
      simp only [reduceCtorEq,false_iff]
      rintro ⟨_,⟨rfl,rfl,rfl⟩,computed,h,_⟩
      simp [mac] at h
    | some computed =>
      simp only [ne_eq,ite_not]
      constructor
      · intro h
        split at h
        next zero =>
          obtain ⟨rfl,rfl⟩ := Prod.mk.inj (Except.ok.inj h)
          exact ⟨claimed,⟨rfl,rfl,rfl⟩,computed,mac,zero⟩
        next => cases h
      · rintro ⟨_,⟨rfl,rfl,rfl⟩,other,h,zero⟩
        obtain rfl := Option.some.inj (mac.symm.trans h)
        rw [if_pos zero]

/-- The two verifiers agree, but for the Nano's bounds on the line and on the tag input. -/
theorem verifyCommandFrame_iff (key : Key) (line cmdLine : Bytes) (counter : UInt64) :
    verifyCommandFrame key line = .ok (counter,cmdLine) ↔ 24 ≤ line.length ∧
      (Decimal.render counter.toNat).length + cmdLine.length + 5 ≤ macBufferSize ∧
        Host.verifyCommand key line = .ok (counter,cmdLine) := by
  rw [verifyCommandFrame_ok_iff,Host.verifyCommand_ok_iff,computeCmdMac_eq]
  simp only [parseCommandFrame_ok_iff]
  constructor
  · rintro ⟨claimed,⟨long,eight,parsed⟩,computed,made,same⟩
    split at made
    next fits =>
      obtain rfl := Option.some.inj made
      obtain rfl := (macDiff_eq_zero_iff _ _ (eight.trans (toLeBytes_length _).symm)).mp same
      rw [loadU64Le_toLeBytes] at parsed
      exact ⟨long,fits,parsed⟩
    next => cases made
  · rintro ⟨long,fits,parsed⟩
    refine ⟨toLeBytes (Host.siphash24 key (Host.cmdMacInput counter cmdLine)),⟨long,toLeBytes_length _,?_⟩,_,
      if_pos fits,(macDiff_eq_zero_iff _ _ rfl).mpr rfl⟩
    rw [loadU64Le_toLeBytes]
    exact parsed

/-- What a line of the loop's size can hold always fits the tag buffer: `CMD ` and one blank
take less room than the leader and the suffix did. -/
theorem parseCommandFrame_fits (line cmdLine claimed : Bytes) (counter : UInt64) (short : line.length ≤ 127)
    (parsed : parseCommandFrame line = .ok (counter,cmdLine,claimed)) :
    (Decimal.render counter.toNat).length + cmdLine.length + 5 ≤ macBufferSize := by
  obtain ⟨_,_,host⟩ := (parseCommandFrame_ok_iff _ _ _ _).mp parsed
  obtain ⟨hex,rfl,spelled⟩ := (Host.parseCommand_ok_iff _ _ _ _).mp host
  have size : hex.length = 16 := by
    rw [← List.length_map Hex.lower,spelled,Host.length_macToHex]
  have leader : (ascii "C ").length = 2 := rfl
  have marker : (ascii " M ").length = 3 := rfl
  simp only [List.length_append,List.length_cons,size,leader,marker,macBufferSize] at short ⊢
  omega

/-- On every line the main loop passes on, the Nano accepts what the daemon's own verifier
accepts, and the tag buffer is never the reason of a refusal. -/
theorem parsers_agree (key : Key) (line : Bytes) (short : line.length ≤ 127) :
    (∀ counter cmdLine, verifyCommandFrame key line = .ok (counter,cmdLine) ↔
      24 ≤ line.length ∧ Host.verifyCommand key line = .ok (counter,cmdLine)) ∧
    ∀ counter cmdLine claimed, parseCommandFrame line = .ok (counter,cmdLine,claimed) →
      computeCmdMac key counter cmdLine ≠ none := by
  refine ⟨fun counter cmdLine => ?_,fun counter cmdLine claimed parsed => ?_⟩
  · rw [verifyCommandFrame_iff]
    refine ⟨fun ⟨long,_,accepted⟩ => ⟨long,accepted⟩,fun ⟨long,accepted⟩ => ⟨long,?_,accepted⟩⟩
    have parsed := (Host.verifyCommand_ok_iff _ _ _ _).mp accepted
    rw [← loadU64Le_toLeBytes (Host.siphash24 key (Host.cmdMacInput counter cmdLine))] at parsed
    exact parseCommandFrame_fits line cmdLine _ counter short
      ((parseCommandFrame_ok_iff _ _ _ _).mpr ⟨long,toLeBytes_length _,parsed⟩)
  · rw [computeCmdMac_eq,if_pos (parseCommandFrame_fits line cmdLine claimed counter short parsed)]
    exact Option.some_ne_none _

def plainKey : Key := ⟨List.replicate 16 1,by simp⟩

theorem parsers_agree_info :
    (Host.encodeCommand plainKey 7 (ascii "info")).length ≤ 127 ∧
      verifyCommandFrame plainKey (Host.encodeCommand plainKey 7 (ascii "info")) = .ok (7,ascii "info") := by
  have size : (Host.encodeCommand plainKey 7 (ascii "info")).length = 27 := by
    rw [encodeCommand_length]
    decide
  refine ⟨by rw [size]; decide,?_⟩
  exact ((parsers_agree plainKey _ (by rw [size]; decide)).1 7 (ascii "info")).mpr
    ⟨by rw [size]; decide,Host.verifyCommand_encodeCommand ..⟩

/-- A daemon frame whose tag input fits the Nano's buffer verifies with its own contents. -/
theorem verifyCommandFrame_encodeCommand (key : Key) (counter : UInt64) (cmdLine : Bytes)
    (nonempty : cmdLine ≠ [])
    (fits : (Decimal.render counter.toNat).length + cmdLine.length + 5 ≤ macBufferSize) :
    verifyCommandFrame key (Host.encodeCommand key counter cmdLine) = .ok (counter,cmdLine) := by
  have total := encodeCommand_length key counter cmdLine
  have digits := Decimal.render_length_pos counter.toNat
  have text := List.length_pos_iff.mpr nonempty
  exact (verifyCommandFrame_iff key _ cmdLine counter).mpr ⟨by omega,fits,Host.verifyCommand_encodeCommand ..⟩

/-- No daemon frame verifies as another counter or another text. -/
theorem verifyCommandFrame_encodeCommand_inv (key : Key) (counter c : UInt64) (cmdLine t : Bytes)
    (verified : verifyCommandFrame key (Host.encodeCommand key counter cmdLine) = .ok (c,t)) :
    c = counter ∧ t = cmdLine := by
  obtain ⟨_,_,accepted⟩ := (verifyCommandFrame_iff key _ t c).mp verified
  rw [Host.verifyCommand_encodeCommand] at accepted
  obtain ⟨rfl,rfl⟩ := Prod.mk.inj (Except.ok.inj accepted)
  exact ⟨rfl,rfl⟩

/-! ### Response frames -/

theorem put_some (outMax : Nat) (out piece : Bytes) (fits : out.length + piece.length ≤ outMax) :
    put outMax out piece = some (out ++ piece) := by
  simp [put,Nat.not_lt.mpr fits]

/-- The encoder agrees with the daemon's whenever the tag input fits its buffer, and
otherwise refuses: the 160-byte output buffer is never the tighter bound. -/
theorem encodeResponseFrame_eq (key : Key) (counter : UInt64) (seq : UInt32) (body : Bytes) :
    encodeResponseFrame key counter seq body 160 =
      if (Decimal.render counter.toNat).length + (Decimal.render seq.toNat).length +
          body.length ≤ 122 then some (Host.encodeResponse key counter seq body)
      else none := by
  have cDigits := counter_digits_le counter
  have sDigits := seq_digits_le seq
  rw [encodeResponseFrame,computeRespMac_eq,formatU64_eq,formatU32_eq]
  by_cases fits : (Decimal.render counter.toNat).length + (Decimal.render seq.toNat).length +
      body.length ≤ 122
  · rw [if_pos (by simp only [macBufferSize]; omega),if_pos fits]
    have r : (ascii "R ").length = 2 := rfl
    have m : (ascii " M ").length = 3 := rfl
    simp only [Option.bind_eq_bind,Option.bind_some]
    rw [put_some _ _ _ (by simp [r]),Option.bind_some,put_some _ _ _ (by simp [r]; omega),
      Option.bind_some,put_some _ _ _ (by simp [r]; omega),Option.bind_some,
      put_some _ _ _ (by simp [r]; omega),Option.bind_some,put_some _ _ _ (by simp [r]; omega),
      Option.bind_some,put_some _ _ _ (by simp [r]; omega),Option.bind_some,
      put_some _ _ _ (by simp [r,m]; omega),Option.bind_some,if_neg (by simp [r,m]; omega)]
    simp [Host.encodeResponse,macToHex]
  · rw [if_neg (by simp only [macBufferSize]; omega),if_neg fits]
    rfl

end R503.Firmware
