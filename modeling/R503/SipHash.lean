import R503.Hex
import Mathlib.Data.Nat.Digits.Lemmas
import Mathlib.Tactic.IntervalCases

/-! SipHash-2-4 as each end computes it, and the little-endian word and tag texts.
The two programs share the round; they differ in how they gather the last block. -/
namespace R503

open Text

structure Key where
  bytes : Bytes
  size : bytes.length = 16
  deriving DecidableEq

@[ext] theorem Key.ext {a b : Key} (same : a.bytes = b.bytes) : a = b := by
  cases a; cases b; cases same; rfl

/-- `load_u64_le`: eight bytes, the last one shifted in first. -/
def loadU64Le (p : Bytes) : UInt64 :=
  (p.take 8).foldr (fun b r => (r <<< (8 : UInt64)) ||| b.toUInt64) 0

/-- `siphash_to_le_bytes` and `u64::to_le_bytes`. -/
def toLeBytes (mac : UInt64) : Bytes :=
  (List.range 8).map fun i => (mac >>> (UInt64.ofNat (i * 8))).toUInt8

def macToHex (mac : UInt64) : Bytes := Hex.encode (toLeBytes mac)

theorem shift_or_toNat (r : UInt64) (b : UInt8) (room : r.toNat < 2 ^ 56) :
    ((r <<< (8 : UInt64)) ||| b.toUInt64).toNat = b.toNat + 256 * r.toNat := by
  have small : b.toNat < 2 ^ 8 := b.toNat_lt
  have shifted : (r <<< (8 : UInt64)).toNat = r.toNat <<< 8 := by
    rw [UInt64.toNat_shiftLeft]
    simp only [UInt64.reduceToNat, Nat.reduceMod]
    rw [Nat.shiftLeft_eq]
    omega
  rw [UInt64.toNat_or,shifted,UInt8.toNat_toUInt64,← Nat.shiftLeft_add_eq_or_of_lt small,
    Nat.shiftLeft_eq]
  omega

theorem fold_toNat (p : Bytes) (short : p.length ≤ 8) :
    (p.foldr (fun b r => (r <<< (8 : UInt64)) ||| b.toUInt64) 0).toNat =
      Nat.ofDigits 256 (p.map UInt8.toNat) := by
  induction p with
  | nil => rfl
  | cons b p ih =>
    have inner := ih (by simp at short; omega)
    have bound := Nat.ofDigits_lt_base_pow_length (b := 256) (l := p.map UInt8.toNat) (by decide)
      (by
        intro d member
        obtain ⟨c,_,rfl⟩ := List.mem_map.mp member
        exact c.toNat_lt)
    have room : (256 : Nat) ^ p.length ≤ 256 ^ 7 :=
      Nat.pow_le_pow_right (by decide) (by simp at short; omega)
    rw [List.foldr_cons,shift_or_toNat _ _ (by rw [inner]; simp at bound; omega),inner]
    simp [Nat.ofDigits_cons]

/-- The low base-256 digits of a number. -/
theorem ofDigits_range (n k : Nat) :
    Nat.ofDigits 256 ((List.range k).map fun i => n / 256 ^ i % 256) = n % 256 ^ k := by
  induction k with
  | zero => rw [pow_zero,Nat.mod_one]; rfl
  | succ k ih =>
    rw [List.range_succ,List.map_append,Nat.ofDigits_append,ih,List.length_map,List.length_range,List.map_singleton,
      Nat.ofDigits_singleton,pow_succ,Nat.mod_mul]

theorem toLeBytes_digits (m : UInt64) :
    (toLeBytes m).map UInt8.toNat = (List.range 8).map fun i => m.toNat / 256 ^ i % 256 := by
  rw [toLeBytes,List.map_map]
  refine List.map_congr_left fun i inside => ?_
  have small := List.mem_range.mp inside
  have shift : (UInt64.ofNat (i * 8)).toNat % 64 = 8 * i := by
    rw [UInt64.toNat_ofNat']
    omega
  rw [Function.comp_apply,UInt64.toNat_toUInt8,UInt64.toNat_shiftRight,shift,Nat.shiftRight_eq_div_pow,pow_mul]
  rfl

/-- Writing a word little-endian and reading it back is the identity. -/
@[simp] theorem loadU64Le_toLeBytes (m : UInt64) : loadU64Le (toLeBytes m) = m := by
  apply UInt64.toNat_inj.mp
  rw [loadU64Le,fold_toNat _ (by simp),List.take_of_length_le (by simp [toLeBytes]),toLeBytes_digits,ofDigits_range]
  exact Nat.mod_eq_of_lt m.toNat_lt

@[simp] theorem toLeBytes_length (mac : UInt64) : (toLeBytes mac).length = 8 := by simp [toLeBytes]

/-- The value of a word is its bytes read as base-256 digits. -/
theorem loadU64Le_toNat (p : Bytes) :
    (loadU64Le p).toNat = Nat.ofDigits 256 ((p.take 8).map UInt8.toNat) :=
  fold_toNat _ (by simp)

theorem byte_digits (p : Bytes) : ∀ d ∈ p.map UInt8.toNat, d < 256 := by
  intro d member
  obtain ⟨b,_,rfl⟩ := List.mem_map.mp member
  exact b.toNat_lt

theorem loadU64Le_inj {p q : Bytes} (first : p.length = 8) (second : q.length = 8)
    (same : loadU64Le p = loadU64Le q) : p = q := by
  have digits := congrArg UInt64.toNat same
  rw [loadU64Le_toNat,loadU64Le_toNat,List.take_of_length_le first.le,
    List.take_of_length_le second.le] at digits
  have bytes := Nat.ofDigits_inj_of_len_eq (by decide) (by simp [first,second]) (byte_digits p)
    (byte_digits q) digits
  exact List.map_injective_iff.mpr (fun _ _ => UInt8.toNat_inj.mp) bytes

theorem take_splice (new old : Bytes) (k n : Nat) (same : new.length = old.length) :
    (new.take k ++ old.drop k).take n = (new.take n).take k ++ (old.take n).drop k := by
  rw [List.take_append,List.take_take,List.take_take,Nat.min_comm,List.drop_take,List.length_take]
  rcases le_total k new.length with within | beyond
  · rw [Nat.min_eq_left within]
  · rw [List.drop_eq_nil_of_le (same ▸ beyond),List.take_nil,List.take_nil]

/-- Low bytes of one word before the high bytes of another. -/
theorem loadU64Le_splice (new old : Bytes) (k : Nat) (same : new.length = old.length) :
    (loadU64Le (new.take k ++ old.drop k)).toNat =
      (loadU64Le new).toNat % 256 ^ k + 256 ^ k * ((loadU64Le old).toNat / 256 ^ k) := by
  rw [loadU64Le_toNat,loadU64Le_toNat,loadU64Le_toNat,take_splice _ _ _ _ same,List.map_append,Nat.ofDigits_append,
    Nat.ofDigits_mod_pow_eq_ofDigits_take k (by decide) _ (byte_digits _),
    Nat.ofDigits_div_pow_eq_ofDigits_drop k (by decide) _ (byte_digits _),List.map_take,List.map_drop,
    List.length_take,List.length_map,List.length_take]
  rcases le_total k (min 8 new.length) with within | beyond
  · rw [Nat.min_eq_left within]
  · rw [List.drop_eq_nil_of_le (by simpa [same] using beyond)]
    simp

theorem loadU64Le_splice_le (new old : Bytes) (k : Nat) (same : new.length = old.length)
    (older : loadU64Le old ≤ loadU64Le new) : loadU64Le (new.take k ++ old.drop k) ≤ loadU64Le new := by
  have high := Nat.mul_le_mul_left (256 ^ k) (Nat.div_le_div_right (c := 256 ^ k)
    (UInt64.le_iff_toNat_le.mp older))
  rw [UInt64.le_iff_toNat_le,loadU64Le_splice _ _ _ same]
  exact (Nat.add_le_add_left high _).trans (Nat.mod_add_div _ _).le

theorem le_loadU64Le_splice (new old : Bytes) (k : Nat) (same : new.length = old.length)
    (newer : loadU64Le new ≤ loadU64Le old) : loadU64Le new ≤ loadU64Le (new.take k ++ old.drop k) := by
  have high := Nat.mul_le_mul_left (256 ^ k) (Nat.div_le_div_right (c := 256 ^ k)
    (UInt64.le_iff_toNat_le.mp newer))
  rw [UInt64.le_iff_toNat_le,loadU64Le_splice _ _ _ same]
  exact (Nat.mod_add_div _ _).ge.trans (Nat.add_le_add_left high _)

def rotl64 (x : UInt64) (b : UInt64) : UInt64 := (x <<< b) ||| (x >>> (64 - b))

structure SipState where
  v0 : UInt64
  v1 : UInt64
  v2 : UInt64
  v3 : UInt64
  deriving DecidableEq

/-- `R503_SIPROUND` and `sipround!`: the same statements in both programs. -/
def sipRound (s : SipState) : SipState :=
  let v0 := s.v0 + s.v1
  let v1 := rotl64 s.v1 13
  let v1 := v1 ^^^ v0
  let v0 := rotl64 v0 32
  let v2 := s.v2 + s.v3
  let v3 := rotl64 s.v3 16
  let v3 := v3 ^^^ v2
  let v0 := v0 + v3
  let v3 := rotl64 v3 21
  let v3 := v3 ^^^ v0
  let v2 := v2 + v1
  let v1 := rotl64 v1 17
  let v1 := v1 ^^^ v2
  let v2 := rotl64 v2 32
  ⟨v0,v1,v2,v3⟩

def sipInit (key : Key) : SipState :=
  let k0 := loadU64Le key.bytes
  let k1 := loadU64Le (key.bytes.drop 8)
  ⟨k0 ^^^ 0x736f6d6570736575,k1 ^^^ 0x646f72616e646f6d,
    k0 ^^^ 0x6c7967656e657261,k1 ^^^ 0x7465646279746573⟩

def sipAbsorb (s : SipState) (m : UInt64) : SipState :=
  let s := { s with v3 := s.v3 ^^^ m }
  let s := sipRound (sipRound s)
  { s with v0 := s.v0 ^^^ m }

def sipFinish (s : SipState) : UInt64 :=
  let s := { s with v2 := s.v2 ^^^ 0xff }
  let s := sipRound (sipRound (sipRound (sipRound s)))
  s.v0 ^^^ s.v1 ^^^ s.v2 ^^^ s.v3

def sipBlocks (s : SipState) (msg : Bytes) : SipState :=
  (List.range (msg.length / 8)).foldl (fun s i => sipAbsorb s (loadU64Le (msg.drop (i * 8)))) s

namespace Firmware

/-- One rung of the `if` ladder: `if (left >= i + 1) b |= (uint64_t)tail[i] << (8 * i)`. -/
def rung (left : Nat) (tail : Bytes) (i : Nat) (b : UInt64) : UInt64 :=
  if left ≥ i + 1 then b ||| (tail.getD i 0).toUInt64 <<< (UInt64.ofNat (i * 8)) else b

/-- Final block of `siphash24` in siphash.h: the leftover bytes, highest first. -/
def lastBlock (msg : Bytes) : UInt64 :=
  let tail := msg.drop (msg.length / 8 * 8)
  let left := msg.length % 8
  let b := UInt64.ofNat (msg.length % 256) <<< (56 : UInt64)
  let b := rung left tail 6 b
  let b := rung left tail 5 b
  let b := rung left tail 4 b
  let b := rung left tail 3 b
  let b := rung left tail 2 b
  let b := rung left tail 1 b
  rung left tail 0 b

def siphash24 (key : Key) (msg : Bytes) : UInt64 :=
  sipFinish (sipAbsorb (sipBlocks (sipInit key) msg) (lastBlock msg))

end Firmware

namespace Host

/-- Final block of `siphash24` in crypto.rs: a loop over the tail. -/
def lastBlock (msg : Bytes) : UInt64 :=
  let tail := msg.drop (msg.length / 8 * 8)
  tail.zipIdx.foldl (fun b (byte,i) => b ||| byte.toUInt64 <<< (UInt64.ofNat (i * 8)))
    (UInt64.ofNat (msg.length % 256) <<< (56 : UInt64))

def siphash24 (key : Key) (msg : Bytes) : UInt64 :=
  sipFinish (sipAbsorb (sipBlocks (sipInit key) msg) (lastBlock msg))

end Host

/-- Both last blocks OR one shifted word for each leftover byte. -/
theorem loop_eq_range (before tail : Bytes) (high : UInt64) :
    (tail.zipIdx before.length).foldl
      (fun b (byte,i) => b ||| byte.toUInt64 <<< (UInt64.ofNat (i * 8))) high =
    (List.range' before.length tail.length).foldl
      (fun b i => b ||| ((before ++ tail).getD i 0).toUInt64 <<< (UInt64.ofNat (i * 8))) high := by
  induction tail generalizing before high with
  | nil => rfl
  | cons x tail ih =>
    have next := ih (before ++ [x]) (high ||| x.toUInt64 <<< (UInt64.ofNat (before.length * 8)))
    simp only [List.length_append,List.length_singleton,List.append_assoc,List.singleton_append]
      at next
    simp only [List.zipIdx_cons,List.foldl_cons,List.length_cons,List.range'_succ,next]
    simp

theorem rungs_eq_range (tail : Bytes) (high : UInt64) (n : Nat) (enough : tail.length ≤ n) :
    (List.range n).foldl (fun b i => Firmware.rung tail.length tail i b) high =
    (List.range tail.length).foldl
      (fun b i => b ||| (tail.getD i 0).toUInt64 <<< (UInt64.ofNat (i * 8))) high := by
  obtain ⟨k,rfl⟩ := Nat.exists_eq_add_of_le enough
  rw [List.range_add,List.foldl_append]
  have absent (b : UInt64) : ((List.range k).map (tail.length + ·)).foldl
      (fun b i => Firmware.rung tail.length tail i b) b = b := by
    clear enough
    induction k generalizing b with
    | zero => rfl
    | succ k ih =>
      rw [List.range_succ,List.map_append,List.foldl_append,ih]
      simp [Firmware.rung]
  rw [absent]
  refine List.foldl_ext _ _ _ fun b i member => ?_
  simp [Firmware.rung,List.mem_range.mp member]

theorem rung_comm (left : Nat) (tail : Bytes) (i j : Nat) (b : UInt64) :
    Firmware.rung left tail i (Firmware.rung left tail j b) =
      Firmware.rung left tail j (Firmware.rung left tail i b) := by
  unfold Firmware.rung
  split <;> split <;> first | rfl | rw [UInt64.or_assoc,UInt64.or_assoc,UInt64.or_comm (_ <<< _)]

/-- The ladder ORs the loop's bytes in the opposite order. -/
theorem lastBlock_agree (msg : Bytes) : Firmware.lastBlock msg = Host.lastBlock msg := by
  have left : msg.length % 8 = (msg.drop (msg.length / 8 * 8)).length := by
    rw [List.length_drop]
    omega
  have bound : msg.length % 8 < 8 := Nat.mod_lt _ (by decide)
  unfold Firmware.lastBlock Host.lastBlock
  rw [left] at bound ⊢
  generalize msg.drop (msg.length / 8 * 8) = tail at bound ⊢
  generalize UInt64.ofNat (msg.length % 256) <<< (56 : UInt64) = high
  have loop := loop_eq_range [] tail high
  have rungs := rungs_eq_range tail high 7 (by omega)
  simp only [List.length_nil,List.nil_append,← List.range_eq_range'] at loop
  rw [loop,← rungs]
  have order : List.Perm (List.range 7) (List.range 7).reverse := (List.reverse_perm _).symm
  exact (order.foldl_eq' (f := fun b i => Firmware.rung tail.length tail i b)
    (fun i _ j _ b => rung_comm _ tail j i b) high).symm

/-- The two implementations are one function, at every key and message. -/
theorem siphash_agree (key : Key) (msg : Bytes) :
    Firmware.siphash24 key msg = Host.siphash24 key msg := by
  rw [Firmware.siphash24,Host.siphash24,lastBlock_agree]

end R503
