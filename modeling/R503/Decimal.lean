import R503.Text
import Mathlib.Data.Nat.Digits.Lemmas

/-! Canonical decimal numerals over bytes: no sign, no leading zero. The rendering
of a number and the canonical texts are in bijection through `value`. -/
namespace Decimal

open Text

def zero : UInt8 := 48

def isDigit (c : UInt8) : Bool := 48 ≤ c && c ≤ 57

def digit (d : Nat) : UInt8 := UInt8.ofNat (48 + d)

def digitValue (c : UInt8) : Nat := c.toNat - 48

def render (n : Nat) : Bytes :=
  if n = 0 then [zero] else ((Nat.digits 10 n).map digit).reverse

/-- Positional value of a digit text; other bytes are given no meaning. -/
def value (s : Bytes) : Nat := Nat.ofDigits 10 (s.reverse.map digitValue)

def Canonical (s : Bytes) : Prop :=
  s ≠ [] ∧ (∀ c ∈ s, isDigit c) ∧ (1 < s.length → s.head? ≠ some zero)

theorem isDigit_iff (c : UInt8) : isDigit c = true ↔ 48 ≤ c.toNat ∧ c.toNat ≤ 57 := by
  simp [isDigit,UInt8.le_iff_toNat_le]

theorem digit_isDigit (d : Nat) (small : d < 10) : isDigit (digit d) = true := by
  rw [isDigit_iff,digit,UInt8.toNat_ofNat_of_lt' (by change _ < 256; omega)]
  omega

theorem digitValue_digit (d : Nat) (small : d < 10) : digitValue (digit d) = d := by
  rw [digitValue,digit,UInt8.toNat_ofNat_of_lt' (by change _ < 256; omega)]
  omega

theorem digit_digitValue (c : UInt8) (numeric : isDigit c = true) : digit (digitValue c) = c := by
  obtain ⟨low,high⟩ := (isDigit_iff c).mp numeric
  rw [digit,digitValue,show 48 + (c.toNat - 48) = c.toNat by omega]
  exact UInt8.ofNat_toNat

theorem digitValue_lt (c : UInt8) (numeric : isDigit c = true) : digitValue c < 10 := by
  obtain ⟨low,high⟩ := (isDigit_iff c).mp numeric
  unfold digitValue
  omega

theorem value_nil : value [] = 0 := rfl

theorem value_cons (c : UInt8) (s : Bytes) :
    value (c :: s) = digitValue c * 10 ^ s.length + value s := by
  simp [value,Nat.ofDigits_append]
  ring

theorem render_digits (n : Nat) : ∀ c ∈ render n, isDigit c := by
  intro c member
  unfold render at member
  split at member
  · obtain rfl := List.mem_singleton.mp member
    rfl
  · obtain ⟨d,hd,rfl⟩ := List.mem_map.mp (List.mem_reverse.mp member)
    exact digit_isDigit d (Nat.digits_lt_base (by decide) hd)

theorem render_ne_nil (n : Nat) : render n ≠ [] := by
  unfold render
  split
  · simp
  · rename_i positive
    simpa using Nat.digits_ne_nil_iff_ne_zero.mpr positive

theorem value_render (n : Nat) : value (render n) = n := by
  unfold render
  split
  next h => subst n; rfl
  next h =>
    have same : ((Nat.digits 10 n).map digit).map digitValue = Nat.digits 10 n := by
      rw [List.map_map]
      refine (List.map_congr_left fun d hd => ?_).trans (List.map_id _)
      exact digitValue_digit d (Nat.digits_lt_base (by decide) hd)
    simp [value,same,Nat.ofDigits_digits]

theorem render_injective : Function.Injective render := by
  intro a b same
  rw [← value_render a,same,value_render]

theorem render_canonical (n : Nat) : Canonical (render n) := by
  refine ⟨render_ne_nil n,render_digits n,?_⟩
  intro long
  unfold render at long ⊢
  split
  next h => simp [h] at long
  next h =>
    have nonempty : Nat.digits 10 n ≠ [] := Nat.digits_ne_nil_iff_ne_zero.mpr h
    have top := Nat.getLast_digit_ne_zero 10 h
    have small := Nat.digits_lt_base (b := 10) (by decide) (List.getLast_mem nonempty)
    rw [List.head?_reverse,List.getLast?_map,List.getLast?_eq_some_getLast nonempty]
    intro isZero
    have value := congrArg digitValue (Option.some.inj isZero)
    rw [digitValue_digit _ small] at value
    exact top value

/-- A canonical text is the rendering of its value, so accepted texts are unique. -/
theorem render_value (s : Bytes) (canonical : Canonical s) : render (value s) = s := by
  obtain ⟨nonempty,numeric,lead⟩ := canonical
  obtain ⟨c,t,rfl⟩ := List.exists_cons_of_ne_nil nonempty
  have back : ((c :: t).map digitValue).map digit = c :: t := by
    rw [List.map_map]
    refine (List.map_congr_left fun d hd => ?_).trans (List.map_id _)
    exact digit_digitValue d (numeric d hd)
  by_cases isZero : c = zero
  · subst c
    have short : t = [] := by
      by_contra more
      exact lead (by simpa using List.length_pos_iff.mpr more) rfl
    subst t
    rfl
  · have leading : digitValue c ≠ 0 := by
      intro h
      have := digit_digitValue c (numeric c (by simp))
      rw [h] at this
      exact isZero this.symm
    have digits : Nat.digits 10 (value (c :: t)) = ((c :: t).map digitValue).reverse := by
      rw [value,List.map_reverse]
      apply Nat.digits_ofDigits 10 (by decide)
      · intro d member
        obtain ⟨x,hx,rfl⟩ := List.mem_map.mp (List.mem_reverse.mp member)
        exact digitValue_lt x (numeric x hx)
      · intro h
        simpa using leading
    have positive : value (c :: t) ≠ 0 := by
      intro h
      rw [h] at digits
      simp at digits
    rw [render,if_neg positive,digits,List.map_reverse,List.reverse_reverse,back]

theorem render_length_le (n k : Nat) (positive : 0 < k) (bound : n < 10 ^ k) :
    (render n).length ≤ k := by
  unfold render
  split
  · exact positive
  · rw [List.length_reverse,List.length_map]
    exact (Nat.digits_length_le_iff (by decide) n).mpr bound

theorem render_length_pos (n : Nat) : 0 < (render n).length :=
  List.length_pos_iff.mpr (render_ne_nil n)

theorem separator_not_mem (n : Nat) (c : UInt8) (other : isDigit c = false) : c ∉ render n := by
  intro member
  have := render_digits n c member
  simp [other] at this

theorem space_not_mem (n : Nat) : space ∉ render n := separator_not_mem n space rfl

@[simp] theorem find_space (n : Nat) (rest : Bytes) :
    find space (render n ++ space :: rest) = some (render n).length :=
  find_append _ _ _ (space_not_mem n)

@[simp] theorem drop_space (n : Nat) (rest : Bytes) :
    (render n ++ space :: rest).drop ((render n).length + 1) = rest := by
  simp

/-- A numeral ended by a space is found again whatever follows the space. -/
theorem render_space_injective (a b : Nat) (s t : Bytes)
    (same : render a ++ space :: s = render b ++ space :: t) : a = b ∧ s = t := by
  have lengths : (render a).length = (render b).length := by
    have := find_space a s
    rw [same,find_space] at this
    exact (Option.some.inj this).symm
  obtain ⟨numerals,rest⟩ := List.append_inj same lengths
  exact ⟨render_injective numerals,(List.cons.inj rest).2⟩

end Decimal
