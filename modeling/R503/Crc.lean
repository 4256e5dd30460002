import Mathlib.Data.BitVec
import Mathlib.Data.List.Nodup

/-! Bitwise CRC registers, highest bit first, and error patterns. A register is linear in what it absorbs,
so an error has a remainder of its own, whatever it hits. -/
namespace Crc

variable {w : Nat}

def shift (poly c : BitVec w) : BitVec w := if c.msb then c <<< 1 ^^^ poly else c <<< 1

def absorb (poly : BitVec w) (k : Nat) (c : BitVec w) (words : List (BitVec w)) : BitVec w :=
  words.foldl (fun c word => (shift poly)^[k] (c ^^^ word)) c

section
variable (poly a b : BitVec w)

/-- Four summands in the other order. -/
theorem xor_swap (c d : BitVec w) : (a ^^^ b) ^^^ (c ^^^ d) = (a ^^^ c) ^^^ (b ^^^ d) := by
  rw [BitVec.xor_assoc,BitVec.xor_assoc,← BitVec.xor_assoc b,← BitVec.xor_assoc c,BitVec.xor_comm b c]

theorem shift_xor : shift poly (a ^^^ b) = shift poly a ^^^ shift poly b := by
  unfold shift
  rw [BitVec.msb_xor,BitVec.shiftLeft_xor_distrib]
  cases a.msb <;> cases b.msb
  · rfl
  · exact BitVec.xor_assoc ..
  · exact (BitVec.xor_assoc ..).trans ((congrArg _ (BitVec.xor_comm ..)).trans (BitVec.xor_assoc ..).symm)
  · -- the polynomial is added twice
    have twice := xor_swap (a <<< 1) (b <<< 1) poly poly
    rw [BitVec.xor_self,BitVec.xor_zero] at twice
    exact twice

theorem shifts_xor (k : Nat) : (shift poly)^[k] (a ^^^ b) = (shift poly)^[k] a ^^^ (shift poly)^[k] b := by
  induction k generalizing a b with
  | zero => rfl
  | succ k ih => rw [Function.iterate_succ_apply,shift_xor,ih]; rfl

/-- The remainder of a sum is the sum of the remainders. -/
theorem absorb_xor (k : Nat) (first second : List (BitVec w)) (same : first.length = second.length) :
    absorb poly k (a ^^^ b) (List.zipWith (· ^^^ ·) first second) =
      absorb poly k a first ^^^ absorb poly k b second := by
  induction first generalizing a b second with
  | nil =>
    obtain rfl := List.length_eq_zero_iff.mp same.symm
    rfl
  | cons x first ih =>
    obtain ⟨y,second,rfl⟩ := List.exists_cons_of_length_eq_add_one same.symm
    have rest := ih ((shift poly)^[k] (a ^^^ x)) ((shift poly)^[k] (b ^^^ y)) second (by simpa using same)
    rw [← shifts_xor,xor_swap] at rest
    exact rest

end

/-! ### Error patterns -/

def parity (x : BitVec w) : Bool := (List.range w).foldr (fun i odd => x.getLsbD i ^^ odd) false

@[simp] theorem parity_zero : parity 0#w = false := by
  unfold parity
  generalize List.range w = bits
  induction bits with
  | nil => rfl
  | cons i bits ih => rw [List.foldr_cons,ih,BitVec.getLsbD_zero]; rfl

theorem parity_xor (a b : BitVec w) : parity (a ^^^ b) = (parity a ^^ parity b) := by
  unfold parity
  generalize List.range w = bits
  induction bits with
  | nil => rfl
  | cons i bits ih =>
    rw [List.foldr_cons,ih,BitVec.getLsbD_xor,List.foldr_cons,List.foldr_cons]
    simp only [Bool.xor_assoc,Bool.xor_left_comm]

def total {ι : Type} (syndrome : ι → BitVec w) (errors : List ι) : BitVec w :=
  errors.foldr (fun i sum => syndrome i ^^^ sum) 0#w

/-- If single errors have remainders of odd weight, all different, then no one, two or three of them
cancel. -/
theorem total_ne_zero {ι : Type} (syndrome : ι → BitVec w) (errors : List ι)
    (odd : ∀ i ∈ errors, parity (syndrome i) = true)
    (apart : ∀ i ∈ errors, ∀ j ∈ errors, syndrome i = syndrome j → i = j) (distinct : errors.Nodup)
    (some_ : errors ≠ []) (few : errors.length ≤ 3) : total syndrome errors ≠ 0#w := by
  intro cancelled
  have even := congrArg parity cancelled
  match errors with
  | [] => exact some_ rfl
  | [i] =>
    have one := odd i (by simp)
    simp [total,one] at even
  | [i,j] =>
    have different : i ≠ j := by simpa using distinct
    have sum : syndrome i ^^^ syndrome j = 0#w := by simpa [total] using cancelled
    exact different (apart i (by simp) j (by simp) (BitVec.xor_eq_zero_iff.mp sum))
  | [i,j,k] =>
    have first := odd i (by simp)
    have second := odd j (by simp)
    have third := odd k (by simp)
    simp [total,parity_xor,first,second,third] at even
  | _ :: _ :: _ :: _ :: _ =>
    simp only [List.length_cons] at few
    omega

end Crc
