import R503.CArray
import R503.FramedSession

/-! The response encoder and the line framer on their arrays (framing.h, r503fp.ino): what each call
writes where, with any contents the arrays had before. -/
namespace R503.Firmware.Buffers

open Text CArray

/-- What the arrays of one `encode_response_frame` hold before it writes them. -/
structure Stack where
  out : Vector UInt8 160
  buf : Vector UInt8 128
  /-- The `tmp` of each call of `format_u64`. -/
  tmp : Fin 4 → Vector UInt8 21

section

variable {m : Nat}

def digitLoop (n : UInt64) (i : Nat) (tmp : Vector UInt8 21) : Option (Nat × Vector UInt8 21) :=
  if n = 0 then some (i,tmp)
  else do
    let tmp ← store tmp i (48 + (n % 10).toUInt8)
    digitLoop (n / 10) (i + 1) tmp
termination_by n.toNat
decreasing_by
  rename_i positive
  have : n.toNat ≠ 0 := fun zero => positive (UInt64.toNat_inj.mp zero)
  rw [UInt64.toNat_div]
  exact Nat.div_lt_self (by omega) (by decide)

/-- Decimal text at `out + off` and a NUL after it; the length of the text. -/
def formatU64 (n : UInt64) (tmp : Vector UInt8 21) (out : Vector UInt8 m) (off : Nat) :
    Option (Vector UInt8 m × Nat) :=
  if n = 0 then do
    let out ← store out off 48
    let out ← store out (off + 1) 0
    return (out,1)
  else do
    let (i,tmp) ← digitLoop n 0 tmp
    let out ← (List.range i).foldlM (fun out j => do store out (off + j) (← load tmp (i - 1 - j))) out
    let out ← store out (off + i) 0
    return (out,i)

def formatU32 (n : UInt32) (tmp : Vector UInt8 21) (out : Vector UInt8 m) (off : Nat) :
    Option (Vector UInt8 m × Nat) := formatU64 n.toUInt64 tmp out off

def hexTable : Bytes := ascii "0123456789abcdef"

/-- Two characters for each byte at `out + off`, and a NUL after them. -/
def bytesToHex (bytes : Bytes) (out : Vector UInt8 m) (off : Nat) : Option (Vector UInt8 m) := do
  let out ← (List.range bytes.length).foldlM (fun out i => do
    let b ← bytes[i]?
    let out ← store out (off + i * 2) (← hexTable[(b >>> (4 : UInt8)).toNat]?)
    store out (off + (i * 2 + 1)) (← hexTable[(b &&& 0x0f).toNat]?)) out
  store out (off + bytes.length * 2) 0

/-- `none` inside is the refusal, outside it is an access past an array. -/
def computeRespMac (key : Key) (counter : UInt64) (seq : UInt32) (body : Vector UInt8 128) (bodyLen : Nat)
    (stack : Stack) : Option (Option Bytes) :=
  if 0 + 4 > 128 then some none
  else do
    let buf ← copy stack.buf 0 (ascii "RSP ")
    let off := 4
    let (buf,n) ← formatU64 counter (stack.tmp 0) buf off
    let off := off + n
    if off + 1 > 128 then some none
    else do
      let buf ← store buf off space
      let off := off + 1
      let (buf,n) ← formatU32 seq (stack.tmp 1) buf off
      let off := off + n
      if off + 1 > 128 then some none
      else do
        let buf ← store buf off space
        let off := off + 1
        if off + bodyLen > 128 then some none
        else do
          let buf ← copy buf off (← read body bodyLen)
          let off := off + bodyLen
          return some (toLeBytes (siphash24 key (← read buf off)))

/-- The array and the number of characters written, 0 on overflow. -/
def encodeResponseFrame (key : Key) (counter : UInt64) (seq : UInt32) (body : Vector UInt8 128) (bodyLen : Nat)
    (stack : Stack) (out : Vector UInt8 m) : Option (Vector UInt8 m × Nat) := do
  match ← computeRespMac key counter seq body bodyLen stack with
  | none => return (out,0)
  | some mac =>
    if 0 + 2 > m then return (out,0)
    else do
      let out ← store out 0 82
      let out ← store out 1 space
      let off := 2
      let (out,n) ← formatU64 counter (stack.tmp 2) out off
      if off + n > m then return (out,0)
      else do
        let off := off + n
        if off + 1 > m then return (out,0)
        else do
          let out ← store out off space
          let off := off + 1
          let (out,n) ← formatU32 seq (stack.tmp 3) out off
          if off + n > m then return (out,0)
          else do
            let off := off + n
            if off + 1 > m then return (out,0)
            else do
              let out ← store out off space
              let off := off + 1
              if off + bodyLen > m then return (out,0)
              else do
                let out ← copy out off (← read body bodyLen)
                let off := off + bodyLen
                if off + 3 > m then return (out,0)
                else do
                  let out ← store out off space
                  let out ← store out (off + 1) 77
                  let out ← store out (off + 2) space
                  let off := off + 3
                  if off + 16 + 1 > m then return (out,0)
                  else do
                    let out ← bytesToHex mac out off
                    return (out,off + 16)

/-! ### The helpers -/

theorem digitLoop_gives (n : UInt64) (i : Nat) (tmp : Vector UInt8 21) (digits : Bytes) (filled : Filled tmp i digits)
    (room : i + (Nat.digits 10 n.toNat).length ≤ 21) :
    Gives (digitLoop n i tmp) fun r => r.1 = i + (Nat.digits 10 n.toNat).length ∧
      Filled r.2 r.1 (digits ++ (Nat.digits 10 n.toNat).map Decimal.digit) := by
  induction size : n.toNat using Nat.strongRecOn generalizing n i tmp digits with
  | ind size_ ih =>
    rw [digitLoop]
    by_cases zero : n = 0
    · subst n
      obtain rfl : 0 = size_ := size
      rw [if_pos rfl]
      exact .pure (by simpa using filled)
    · have positive : 0 < n.toNat := Nat.pos_of_ne_zero fun none => zero (UInt64.toNat_inj.mp none)
      have quotient : (n / 10).toNat = n.toNat / 10 := by simp [UInt64.toNat_div]
      rw [if_neg zero]
      rw [Nat.digits_def' (by decide) positive,List.length_cons] at room
      subst size_
      refine (store_filled filled _ (by omega)).bind fun tmp more => ?_
      refine (ih (n / 10).toNat (by rw [quotient]; omega) (n / 10) (i + 1) tmp _ more
        (by rw [quotient]; omega) rfl).mono fun r both => ?_
      rw [quotient,low_digit] at both
      rw [Nat.digits_def' (by decide) positive,List.length_cons,List.map_cons]
      exact ⟨by omega,by simpa using both.2⟩

/-- The text and its NUL go in after what is there. -/
theorem formatU64_ends (n : UInt64) (tmp : Vector UInt8 21) (out : Vector UInt8 m) (off : Nat) (text : Bytes)
    (filled : Filled out off text) (room : off + (Decimal.render n.toNat).length + 1 ≤ m) :
    Gives (formatU64 n tmp out off) fun r => r.2 = (Decimal.render n.toNat).length ∧
      Filled r.1 (off + r.2 + 1) (text ++ Decimal.render n.toNat ++ [0]) := by
  unfold formatU64
  by_cases zero : n = 0
  · subst n
    have one : Decimal.render (0 : UInt64).toNat = [48] := rfl
    rw [one,List.length_singleton] at room ⊢
    rw [if_pos rfl]
    refine (store_filled filled 48 (by omega)).bind fun out more => ?_
    refine (store_filled more 0 (by omega)).bind fun out ends => ?_
    exact .pure ⟨rfl,ends⟩
  · have positive : n.toNat ≠ 0 := fun none => zero (UInt64.toNat_inj.mp none)
    have spelled : Decimal.render n.toNat = ((Nat.digits 10 n.toNat).map Decimal.digit).reverse := if_neg positive
    have size : (Decimal.render n.toNat).length = (Nat.digits 10 n.toNat).length := by rw [spelled]; simp
    have few := counter_digits_le n
    rw [if_neg zero]
    refine (digitLoop_gives n 0 tmp [] (filled_nil tmp) (by omega)).bind fun r found => ?_
    obtain ⟨i,tmp⟩ := r
    obtain ⟨count,digits⟩ := found
    simp only [Nat.zero_add,List.nil_append] at count digits
    rw [← size] at count
    subst i
    refine (gives_loop _ (fun j out => Filled out (off + j) (text ++ (Decimal.render n.toNat).take j)) _ out
      (by simpa using filled) fun j out small copied => ?_).bind fun out whole => ?_
    · have digit : load tmp ((Decimal.render n.toNat).length - 1 - j) = some (Decimal.render n.toNat)[j] := by
        apply digits.load
        rw [size] at small ⊢
        rw [← List.getElem?_eq_getElem,spelled,List.getElem?_reverse (by simpa using small)]
        simp
      refine (Gives.of_eq digit).bind fun x here => ?_
      subst here
      refine (store_filled copied _ (by omega)).mono fun out more => ?_
      rwa [List.append_assoc,List.take_append_getElem small] at more
    · rw [List.take_length] at whole
      refine (store_filled whole 0 (by omega)).bind fun out ends => ?_
      exact .pure ⟨rfl,ends⟩

theorem formatU64_gives (n : UInt64) (tmp : Vector UInt8 21) (out : Vector UInt8 m) (off : Nat) (text : Bytes)
    (filled : Filled out off text) (room : off + (Decimal.render n.toNat).length + 1 ≤ m) :
    Gives (formatU64 n tmp out off) fun r => r.2 = (Decimal.render n.toNat).length ∧
      Filled r.1 (off + r.2) (text ++ Decimal.render n.toNat) := by
  refine (formatU64_ends n tmp out off text filled room).mono fun r both => ?_
  obtain ⟨count,ends⟩ := both
  exact ⟨count,ends.trim (by rw [List.length_append,filled.next,count])⟩

theorem formatU32_gives (n : UInt32) (tmp : Vector UInt8 21) (out : Vector UInt8 m) (off : Nat) (text : Bytes)
    (filled : Filled out off text) (room : off + (Decimal.render n.toNat).length + 1 ≤ m) :
    Gives (formatU32 n tmp out off) fun r => r.2 = (Decimal.render n.toNat).length ∧
      Filled r.1 (off + r.2) (text ++ Decimal.render n.toNat) := by
  rw [← UInt32.toNat_toUInt64] at room ⊢
  exact formatU64_gives n.toUInt64 tmp out off text filled room

theorem hexTable_high (b : UInt8) : hexTable[(b >>> (4 : UInt8)).toNat]? = some (Hex.digit (b >>> (4 : UInt8))) := by
  revert b; apply Hex.forall_byte; decide +kernel

theorem hexTable_low (b : UInt8) : hexTable[(b &&& 0x0f).toNat]? = some (Hex.digit (b &&& 15)) := by
  revert b; apply Hex.forall_byte; decide +kernel

theorem bytesToHex_gives (bytes : Bytes) (out : Vector UInt8 m) (off : Nat) (text : Bytes)
    (filled : Filled out off text) (room : off + bytes.length * 2 + 1 ≤ m) :
    Gives (bytesToHex bytes out off) fun out =>
      Filled out (off + bytes.length * 2 + 1) (text ++ Hex.encode bytes ++ [0]) := by
  refine (gives_loop _ (fun i out => Filled out (off + i * 2) (text ++ Hex.encode (bytes.take i))) bytes.length out
    (by simpa [Hex.encode] using filled) fun i out small done => ?_).bind fun out whole => ?_
  · have pair : Hex.encode (bytes.take (i + 1)) = Hex.encode (bytes.take i) ++
        [Hex.digit (bytes[i] >>> (4 : UInt8))] ++ [Hex.digit (bytes[i] &&& 15)] := by
      rw [← List.take_append_getElem small,List.append_assoc]
      exact List.flatMap_append
    refine (Gives.of_eq (List.getElem?_eq_getElem small)).bind fun b here => ?_
    subst here
    refine (Gives.of_eq (hexTable_high _)).bind fun high here => ?_
    subst here
    refine (store_filled done _ (by omega)).bind fun out first => ?_
    refine (Gives.of_eq (hexTable_low _)).bind fun low here => ?_
    subst here
    refine (store_filled first _ (by omega)).mono fun out both => ?_
    rw [pair,← List.append_assoc,← List.append_assoc,Nat.succ_mul]
    exact both
  · rw [List.take_length] at whole
    exact store_filled whole 0 (by omega)

/-! ### The encoder -/

theorem computeRespMac_gives (key : Key) (counter : UInt64) (seq : UInt32) (body : Vector UInt8 128) (len : Nat)
    (text : Bytes) (holds : Filled body len text) (stack : Stack) :
    Gives (computeRespMac key counter seq body len stack) (· = Firmware.computeRespMac key counter seq text) := by
  have cDigits := counter_digits_le counter
  have sDigits := seq_digits_le seq
  have lead : (ascii "RSP ").length = 4 := rfl
  unfold computeRespMac
  rw [if_neg (by decide)]
  refine (copy_filled (filled_nil stack.buf) (ascii "RSP ") (by simp [lead])).bind fun buf written => ?_
  refine (formatU64_gives counter (stack.tmp 0) buf 4 _ written (by omega)).bind fun r written => ?_
  obtain ⟨buf,n⟩ := r
  obtain ⟨rfl,written⟩ := written
  dsimp only at written ⊢
  rw [if_neg (by omega)]
  refine (store_filled written space (by omega)).bind fun buf written => ?_
  refine (formatU32_gives seq (stack.tmp 1) buf _ _ written (by omega)).bind fun r written => ?_
  obtain ⟨buf,n⟩ := r
  obtain ⟨rfl,written⟩ := written
  dsimp only at written ⊢
  rw [if_neg (by omega)]
  refine (store_filled written space (by omega)).bind fun buf written => ?_
  obtain rfl := holds.next
  rw [computeRespMac_eq]
  by_cases fits : (Decimal.render counter.toNat).length + (Decimal.render seq.toNat).length + text.length + 6 ≤ macBufferSize
  · have small := fits
    simp only [macBufferSize] at small
    rw [if_pos fits,if_neg (by omega)]
    refine (Gives.of_eq holds.read).bind fun copied here => ?_
    rw [here]
    refine (copy_filled written text (by omega)).bind fun buf written => ?_
    refine (Gives.of_eq written.read).bind fun input here => ?_
    rw [here,siphash_agree]
    exact .pure (by simp [Host.rspMacInput])
  · have large := fits
    simp only [macBufferSize] at large
    rw [if_neg fits,if_pos (by omega)]
    exact .pure rfl

/-- What `encode_response_frame` leaves, with the frame it should have made. -/
def Framed (frame : Option Bytes) (r : Vector UInt8 m × Nat) : Prop :=
  match frame with
  | some frame => r.2 = frame.length ∧ Filled r.1 (frame.length + 1) (frame ++ [0])
  | none => r.2 = 0

theorem encodeResponseFrame_gives (key : Key) (counter : UInt64) (seq : UInt32) (body : Vector UInt8 128) (len : Nat)
    (text : Bytes) (holds : Filled body len text) (stack : Stack) (out : Vector UInt8 160) :
    Gives (encodeResponseFrame key counter seq body len stack out)
      (Framed (Firmware.encodeResponseFrame key counter seq text 160)) := by
  have cDigits := counter_digits_le counter
  have sDigits := seq_digits_le seq
  refine (computeRespMac_gives key counter seq body len text holds stack).bind fun mac made => ?_
  obtain rfl := holds.next
  rw [made,encodeResponseFrame_eq,computeRespMac_eq]
  by_cases fits : (Decimal.render counter.toNat).length + (Decimal.render seq.toNat).length + text.length ≤ 122
  · rw [if_pos (by simp only [macBufferSize]; omega),if_pos fits]
    dsimp only
    have tag := toLeBytes_length (Host.siphash24 key (Host.rspMacInput counter seq text))
    rw [if_neg (by decide)]
    refine (store_filled (filled_nil out) 82 (by decide)).bind fun out written => ?_
    refine (store_filled written space (by decide)).bind fun out written => ?_
    refine (formatU64_gives counter (stack.tmp 2) out 2 _ written (by omega)).bind fun r written => ?_
    obtain ⟨out,n⟩ := r
    obtain ⟨rfl,written⟩ := written
    dsimp only at written ⊢
    rw [if_neg (by omega),if_neg (by omega)]
    refine (store_filled written space (by omega)).bind fun out written => ?_
    refine (formatU32_gives seq (stack.tmp 3) out _ _ written (by omega)).bind fun r written => ?_
    obtain ⟨out,n⟩ := r
    obtain ⟨rfl,written⟩ := written
    dsimp only at written ⊢
    rw [if_neg (by omega),if_neg (by omega)]
    refine (store_filled written space (by omega)).bind fun out written => ?_
    rw [if_neg (by omega)]
    refine (Gives.of_eq holds.read).bind fun copied here => ?_
    rw [here]
    refine (copy_filled written text (by omega)).bind fun out written => ?_
    rw [if_neg (by omega)]
    refine (store_filled written space (by omega)).bind fun out written => ?_
    refine (store_filled written 77 (by omega)).bind fun out written => ?_
    refine (store_filled written space (by omega)).bind fun out written => ?_
    rw [if_neg (by omega)]
    refine (bytesToHex_gives _ out _ _ written (by rw [tag]; omega)).bind fun out written => ?_
    have leader : ascii "R " = [82,space] := rfl
    have marker : ascii " M " = [space,77,space] := rfl
    refine .pure ⟨?_,by simp,?_⟩
    · simp only [Host.encodeResponse,macToHex,leader,marker,List.length_append,List.length_cons,List.length_nil,
        Hex.encode_length,tag]
      omega
    · simpa [Host.encodeResponse,macToHex,leader,marker] using written.starts
  · rw [if_neg (by simp only [macBufferSize]; omega),if_neg fits]
    exact .pure rfl

end

end R503.Firmware.Buffers
