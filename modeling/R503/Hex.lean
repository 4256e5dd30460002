import R503.Text

/-! Hexadecimal text of bytes: two digits a byte, high digit first, lower case on
output and either case on input. -/
namespace Hex

open Text

def digit (n : UInt8) : UInt8 := if n < 10 then 48 + n else 87 + n

def nybble (c : UInt8) : Option UInt8 :=
  if 48 ≤ c ∧ c ≤ 57 then some (c - 48)
  else if 97 ≤ c ∧ c ≤ 102 then some (10 + (c - 97))
  else if 65 ≤ c ∧ c ≤ 70 then some (10 + (c - 65))
  else none

def encode (bytes : Bytes) : Bytes :=
  bytes.flatMap fun b => [digit (b >>> (4 : UInt8)),digit (b &&& 15)]

def decode : Bytes → Option Bytes
  | [] => some []
  | [_] => none
  | high :: low :: rest => do
    let h ← nybble high
    let l ← nybble low
    let tail ← decode rest
    return ((h <<< (4 : UInt8)) ||| l) :: tail

def lower (c : UInt8) : UInt8 := if 65 ≤ c ∧ c ≤ 90 then c + 32 else c

/-- A property of every byte is a finite check. -/
theorem forall_byte (P : UInt8 → Prop) (check : ∀ n : Fin 256, P (UInt8.ofFin n)) (b : UInt8) : P b := by
  have := check b.toFin
  simpa using this

/-- The two digits of a byte are read back as its halves, and neither is a separator or a control byte. -/
theorem digits_of_byte (b : UInt8) :
    (nybble (digit (b >>> (4 : UInt8))) = some (b >>> (4 : UInt8)) ∧ nybble (digit (b &&& 15)) = some (b &&& 15)) ∧
      ((b >>> (4 : UInt8)) <<< (4 : UInt8)) ||| (b &&& 15) = b ∧
      (48 ≤ digit (b >>> (4 : UInt8)) ∧ digit (b >>> (4 : UInt8)) < 128) ∧
      48 ≤ digit (b &&& 15) ∧ digit (b &&& 15) < 128 := by
  revert b; apply forall_byte; decide +kernel

theorem nybble_digit_high (b : UInt8) : nybble (digit (b >>> (4 : UInt8))) = some (b >>> (4 : UInt8)) :=
  (digits_of_byte b).1.1

theorem nybble_digit_low (b : UInt8) : nybble (digit (b &&& 15)) = some (b &&& 15) := (digits_of_byte b).1.2

theorem recombine (b : UInt8) : ((b >>> (4 : UInt8)) <<< (4 : UInt8)) ||| (b &&& 15) = b := (digits_of_byte b).2.1

/-- No hexadecimal digit is a separator or a control byte. -/
theorem digit_printable (b : UInt8) : (48 ≤ digit (b >>> (4 : UInt8)) ∧ digit (b >>> (4 : UInt8)) < 128) ∧
    48 ≤ digit (b &&& 15) ∧ digit (b &&& 15) < 128 := (digits_of_byte b).2.2

@[simp] theorem decode_encode (bytes : Bytes) : decode (encode bytes) = some bytes := by
  induction bytes with
  | nil => rfl
  | cons b bytes ih =>
    change decode (digit (b >>> (4 : UInt8)) :: digit (b &&& 15) :: encode bytes) = _
    simp [decode,nybble_digit_high,nybble_digit_low,recombine,ih]

theorem nybble_some (c n : UInt8) (digits : nybble c = some n) : n < 16 ∧ lower c = digit n := by
  have check : ∀ c : UInt8, (nybble c).all fun n => decide (n < 16 ∧ lower c = digit n) := by
    apply forall_byte; decide +kernel
  have holds := check c
  rw [digits] at holds
  exact of_decide_eq_true holds

theorem nybble_lower (c : UInt8) : nybble (lower c) = nybble c := by
  revert c; apply forall_byte; decide +kernel

theorem halves (h l : UInt8) (high : h < 16) (low : l < 16) :
    ((h <<< (4 : UInt8)) ||| l) >>> (4 : UInt8) = h ∧ ((h <<< (4 : UInt8)) ||| l) &&& 15 = l := by
  have check : ∀ h l : Fin 16, ((UInt8.ofNat h <<< (4 : UInt8)) ||| UInt8.ofNat l) >>> (4 : UInt8) = UInt8.ofNat h ∧
      ((UInt8.ofNat h <<< (4 : UInt8)) ||| UInt8.ofNat l) &&& 15 = UInt8.ofNat l := by decide +kernel
  have pair := check ⟨h.toNat,UInt8.lt_iff_toNat_lt.mp high⟩ ⟨l.toNat,UInt8.lt_iff_toNat_lt.mp low⟩
  simpa only [UInt8.ofNat_toNat] using pair

theorem encode_cons (b : UInt8) (bytes : Bytes) :
    encode (b :: bytes) = digit (b >>> (4 : UInt8)) :: digit (b &&& 15) :: encode bytes := rfl

/-- A text is read as the bytes it spells, in either case. -/
theorem decode_some_iff (s out : Bytes) : decode s = some out ↔ s.map lower = encode out := by
  constructor
  · intro decoded
    induction s using decode.induct generalizing out with
    | case1 =>
      obtain rfl := Option.some.inj decoded
      rfl
    | case2 c => cases decoded
    | case3 high low rest ih =>
      simp only [decode,Option.bind_eq_bind,Option.bind_eq_some_iff,Option.pure_def,
        Option.some.injEq] at decoded
      obtain ⟨h,first,l,second,tail,inner,rfl⟩ := decoded
      obtain ⟨hSmall,hDigit⟩ := nybble_some high h first
      obtain ⟨lSmall,lDigit⟩ := nybble_some low l second
      obtain ⟨top,bottom⟩ := halves h l hSmall lSmall
      rw [encode_cons,top,bottom,← ih tail inner,← hDigit,← lDigit]
      rfl
  · intro spelled
    have again := decode_encode out
    rw [← spelled] at again
    rw [← again]
    clear again spelled
    induction s using decode.induct with
    | case1 => rfl
    | case2 c => rfl
    | case3 high low rest ih => simp only [List.map_cons,decode,nybble_lower,ih]

theorem encode_length (bytes : Bytes) : (encode bytes).length = 2 * bytes.length := by
  induction bytes with
  | nil => rfl
  | cons b bytes ih =>
    change (encode bytes).length + 2 = _
    simp only [ih,List.length_cons]
    omega

theorem decode_length (s out : Bytes) (decoded : decode s = some out) : s.length = 2 * out.length := by
  induction s using decode.induct generalizing out with
  | case1 =>
    obtain rfl := Option.some.inj decoded
    rfl
  | case2 c => simp [decode] at decoded
  | case3 high low rest ih =>
    simp only [decode,Option.bind_eq_bind,Option.bind_eq_some_iff,Option.pure_def,
      Option.some.injEq] at decoded
    obtain ⟨h,_,l,_,tail,inner,rfl⟩ := decoded
    simp only [List.length_cons,ih tail inner]
    omega

theorem encode_printable (bytes : Bytes) : ∀ c ∈ encode bytes, 48 ≤ c ∧ c < 128 := by
  intro c member
  obtain ⟨b,_,digits⟩ := List.mem_flatMap.mp member
  have printable := digit_printable b
  rcases List.mem_pair.mp digits with rfl | rfl
  · exact printable.1
  · exact printable.2

end Hex
