import R503.Hex
import Mathlib.Data.List.Chain

/-! UTF-8 texts as bytes: no continuation byte stands at the start of a text or after an ASCII
byte. The second half holds of every piece of a text, whether or not it is a text itself. -/
namespace Utf8

open Text

def encode (text : List Char) : Bytes := text.flatMap String.utf8EncodeChar

def continuation (b : UInt8) : Prop := 128 ≤ b ∧ b < 192

def Settled (s : Bytes) : Prop := s.IsChain fun a b => a < 128 → ¬ continuation b

theorem Settled.take {s : Bytes} (settled : Settled s) (n : Nat) : Settled (s.take n) := List.IsChain.take settled n

theorem Settled.drop {s : Bytes} (settled : Settled s) (n : Nat) : Settled (s.drop n) := List.IsChain.drop settled n

theorem Settled.after {s : Bytes} {i : Nat} {a b : UInt8} (settled : Settled s) (ascii : a < 128)
    (here : s[i]? = some a) (next : s[i + 1]? = some b) : ¬ continuation b := by
  obtain ⟨within,rfl⟩ := List.getElem?_eq_some_iff.mp here
  obtain ⟨below,rfl⟩ := List.getElem?_eq_some_iff.mp next
  exact List.isChain_iff_getElem.mp settled i below ascii

theorem Settled.append {a b : Bytes} (first : Settled a) (second : Settled b)
    (start : ∀ y ∈ b.head?, ¬ continuation y) : Settled (a ++ b) :=
  List.IsChain.append first second fun _ _ y member _ => start y member

theorem ascii_settled {s : Bytes} (small : ∀ b ∈ s, b < 128) : Settled s :=
  List.isChain_iff_getElem.mpr fun _ within _ next =>
    UInt8.not_lt.mpr next.1 (small _ (List.getElem_mem within))

theorem ascii_start {s : Bytes} (small : ∀ b ∈ s, b < 128) : ∀ y ∈ s.head?, ¬ continuation y :=
  fun y first next => UInt8.not_lt.mpr next.1 (small y (List.mem_of_head? first))

theorem toNat_small (n : Nat) (small : n < 256) : (UInt8.ofNat n).toNat = n := by
  rw [UInt8.toNat_ofNat',Nat.mod_eq_of_lt small]

theorem continuation_tail (n : Nat) : continuation (UInt8.ofNat (n % 64 + 128)) := by
  have value := toNat_small (n % 64 + 128) (by omega)
  refine ⟨UInt8.le_iff_toNat_le.mpr ?_,UInt8.lt_iff_toNat_lt.mpr ?_⟩
  · rw [value]
    exact Nat.le_add_left _ _
  · rw [value]
    exact Nat.add_lt_add_right (Nat.mod_lt n (by decide)) 128

theorem lead_high (n : Nat) (high : 192 ≤ n) (small : n < 256) : 192 ≤ UInt8.ofNat n := by
  rw [UInt8.le_iff_toNat_le,toNat_small n small]
  exact high

/-- A character is one ASCII byte, or a lead byte and continuation bytes. -/
theorem encodeChar_shape (c : Char) :
    (∃ b < 128, String.utf8EncodeChar c = [b]) ∨
      ∃ lead tail, 192 ≤ lead ∧ (∀ b ∈ tail, continuation b) ∧ String.utf8EncodeChar c = lead :: tail := by
  simp only [String.utf8EncodeChar]
  split
  next small =>
    refine .inl ⟨_,?_,rfl⟩
    rw [UInt8.lt_iff_toNat_lt,toNat_small _ (by omega)]
    exact Nat.lt_succ_of_le small
  split
  · exact .inr ⟨_,_,lead_high _ (by omega) (by omega),by simp only [List.mem_cons,forall_eq_or_imp,continuation_tail,List.not_mem_nil,
      false_implies,implies_true,and_self],rfl⟩
  split
  · exact .inr ⟨_,_,lead_high _ (by omega) (by omega),by simp only [List.mem_cons,forall_eq_or_imp,continuation_tail,List.not_mem_nil,
      false_implies,implies_true,and_self],rfl⟩
  · exact .inr ⟨_,_,lead_high _ (by omega) (by omega),by simp only [List.mem_cons,forall_eq_or_imp,continuation_tail,List.not_mem_nil,
      false_implies,implies_true,and_self],rfl⟩

theorem high_not_ascii {b : UInt8} (high : 128 ≤ b) : ¬ b < 128 := UInt8.not_lt.mpr high

theorem lead_not_continuation {b : UInt8} (high : 192 ≤ b) : ¬ continuation b :=
  fun inside => UInt8.not_lt.mpr high inside.2

theorem encode_head (text : List Char) : ∀ b ∈ (encode text).head?, ¬ continuation b := by
  cases text with
  | nil => simp [encode]
  | cons c text =>
    intro b first
    rw [encode,List.flatMap_cons] at first
    rcases encodeChar_shape c with ⟨a,small,shape⟩ | ⟨lead,tail,high,_,shape⟩
    · rw [shape] at first
      obtain rfl : a = b := by simpa using first
      exact fun inside => UInt8.not_lt.mpr inside.1 small
    · rw [shape] at first
      obtain rfl : lead = b := by simpa using first
      exact lead_not_continuation high

theorem encode_settled (text : List Char) : Settled (encode text) := by
  induction text with
  | nil => exact List.isChain_nil
  | cons c text ih =>
    rw [encode,List.flatMap_cons]
    refine List.IsChain.append ?_ ih fun _ _ b first _ => encode_head text b first
    rcases encodeChar_shape c with ⟨a,_,shape⟩ | ⟨lead,tail,high,inside,shape⟩
    · rw [shape]
      exact List.isChain_singleton a
    · rw [shape]
      -- every byte of the character is past ASCII, so no pair of them is constrained
      refine List.isChain_iff_getElem.mpr fun i within small => ?_
      have member : (lead :: tail)[i] ∈ lead :: tail := List.getElem_mem _
      rcases List.mem_cons.mp member with first | later
      · rw [first] at small
        exact absurd small (high_not_ascii (UInt8.le_trans (by decide) high))
      · exact absurd small (high_not_ascii (inside _ later).1)

end Utf8
