import Mathlib.Data.Nat.Digits.Lemmas

/-! SipHash-c-d on 64-bit words: the message is padded with zeros and its length modulo 256
to whole little-endian words, and the words are absorbed one after the other. -/
namespace SipHash

abbrev Word := BitVec 64

structure State where
  v0 : Word
  v1 : Word
  v2 : Word
  v3 : Word
  deriving DecidableEq

/-- The ARX network: two half rounds on the pairs, the second with the pairs crossed. -/
def round (s : State) : State :=
  let v0 := s.v0 + s.v1
  let v2 := s.v2 + s.v3
  let v1 := s.v1.rotateLeft 13 ^^^ v0
  let v3 := s.v3.rotateLeft 16 ^^^ v2
  let v0 := v0.rotateLeft 32
  let v2 := v2 + v1
  let v0 := v0 + v3
  let v1 := v1.rotateLeft 17 ^^^ v2
  let v3 := v3.rotateLeft 21 ^^^ v0
  let v2 := v2.rotateLeft 32
  ⟨v0,v1,v2,v3⟩

def absorb (c : Nat) (s : State) (m : Word) : State :=
  let s := round^[c] { s with v3 := s.v3 ^^^ m }
  { s with v0 := s.v0 ^^^ m }

def finish (d : Nat) (s : State) : Word :=
  let s := round^[d] { s with v2 := s.v2 ^^^ 0xff }
  s.v0 ^^^ s.v1 ^^^ s.v2 ^^^ s.v3

/-- "somepseudorandomlygeneratedbytes" in four words, mixed with the two key words. -/
def start (k0 k1 : Word) : State :=
  ⟨k0 ^^^ 0x736f6d6570736575,k1 ^^^ 0x646f72616e646f6d,k0 ^^^ 0x6c7967656e657261,k1 ^^^ 0x7465646279746573⟩

def word (bytes : List UInt8) : Word := BitVec.ofNat 64 (Nat.ofDigits 256 (bytes.map UInt8.toNat))

def pad (msg : List UInt8) : List UInt8 :=
  msg ++ List.replicate (7 - msg.length % 8) 0 ++ [UInt8.ofNat (msg.length % 256)]

def words (bytes : List UInt8) : List Word :=
  (List.range (bytes.length / 8)).map fun i => word ((bytes.drop (8 * i)).take 8)

def hash (c d : Nat) (k0 k1 : Word) (msg : List UInt8) : Word :=
  finish d ((words (pad msg)).foldl (absorb c) (start k0 k1))

theorem pad_length (msg : List UInt8) : (pad msg).length = 8 * (msg.length / 8 + 1) := by
  simp only [pad,List.length_append,List.length_replicate,List.length_singleton]
  omega

/-- The padding only changes what follows the last whole word. -/
theorem words_pad (msg : List UInt8) :
    words (pad msg) = (List.range (msg.length / 8)).map (fun i => word ((msg.drop (8 * i)).take 8)) ++
      [word (msg.drop (8 * (msg.length / 8)) ++ List.replicate (7 - msg.length % 8) 0 ++
        [UInt8.ofNat (msg.length % 256)])] := by
  have last : ((pad msg).drop (8 * (msg.length / 8))).take 8 =
      msg.drop (8 * (msg.length / 8)) ++ List.replicate (7 - msg.length % 8) 0 ++ [UInt8.ofNat (msg.length % 256)] := by
    have within : 8 * (msg.length / 8) ≤ msg.length := Nat.mul_div_le _ _
    rw [List.take_of_length_le (by rw [List.length_drop,pad_length]; omega),pad,List.append_assoc,
      List.drop_append_of_le_length within,List.append_assoc]
  have whole (i : Nat) (member : i ∈ List.range (msg.length / 8)) :
      word (((pad msg).drop (8 * i)).take 8) = word ((msg.drop (8 * i)).take 8) := by
    have inside := List.mem_range.mp member
    rw [pad,List.append_assoc,List.drop_append_of_le_length (by omega),
      List.take_append_of_le_length (by rw [List.length_drop]; omega)]
  rw [words,pad_length,Nat.mul_div_cancel_left _ (by decide),List.range_succ,List.map_append,
    List.map_congr_left whole,List.map_singleton,last]

end SipHash
