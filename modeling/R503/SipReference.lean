import R503.SipHash
import R503.SipHashSpec

/-! Both implementations compute the reference SipHash-2-4. -/
namespace R503

open Text

def SipState.reference (s : SipState) : SipHash.State :=
  ⟨s.v0.toBitVec,s.v1.toBitVec,s.v2.toBitVec,s.v3.toBitVec⟩

/-- The shift-and-or of both programs is the rotation, away from the two ends. -/
theorem rotl64_toBitVec (x : UInt64) (n : Nat) (positive : 0 < n) (small : n < 64) :
    (rotl64 x (UInt64.ofNat n)).toBitVec = x.toBitVec.rotateLeft n := by
  have amount : (UInt64.ofNat n).toNat = n := UInt64.toNat_ofNat_of_lt' (by change n < 2 ^ 64; omega)
  have back : (18446744073709551616 - n) % 64 = 64 - n := by omega
  rw [BitVec.rotateLeft_def,Nat.mod_eq_of_lt small]
  apply BitVec.eq_of_toNat_eq
  simp [rotl64,amount,back,Nat.mod_eq_of_lt small]

theorem sipRound_reference (s : SipState) : (sipRound s).reference = SipHash.round s.reference := by
  have r13 (x : UInt64) := rotl64_toBitVec x 13 (by decide) (by decide)
  have r16 (x : UInt64) := rotl64_toBitVec x 16 (by decide) (by decide)
  have r17 (x : UInt64) := rotl64_toBitVec x 17 (by decide) (by decide)
  have r21 (x : UInt64) := rotl64_toBitVec x 21 (by decide) (by decide)
  have r32 (x : UInt64) := rotl64_toBitVec x 32 (by decide) (by decide)
  simp only [UInt64.reduceOfNat] at r13 r16 r17 r21 r32
  simp only [SipState.reference,sipRound,SipHash.round,UInt64.toBitVec_add,UInt64.toBitVec_xor,r13,r16,r17,r21,r32]

theorem rounds_reference (n : Nat) (s : SipState) : (sipRound^[n] s).reference = SipHash.round^[n] s.reference :=
  Function.Semiconj.iterate_right sipRound_reference n s

theorem sipAbsorb_reference (s : SipState) (m : UInt64) :
    (sipAbsorb s m).reference = SipHash.absorb 2 s.reference m.toBitVec := by
  have rounds := rounds_reference 2 { s with v3 := s.v3 ^^^ m }
  have start : SipState.reference { s with v3 := s.v3 ^^^ m } =
      { s.reference with v3 := s.reference.v3 ^^^ m.toBitVec } := rfl
  rw [start] at rounds
  rw [SipHash.absorb,← rounds]
  rfl

theorem sipFinish_reference (s : SipState) : (sipFinish s).toBitVec = SipHash.finish 4 s.reference := by
  have rounds := rounds_reference 4 { s with v2 := s.v2 ^^^ 0xff }
  have start : SipState.reference { s with v2 := s.v2 ^^^ 0xff } =
      { s.reference with v2 := s.reference.v2 ^^^ 0xff } := rfl
  rw [start] at rounds
  rw [SipHash.finish,← rounds]
  rfl

theorem sipInit_reference (key : Key) : (sipInit key).reference =
    SipHash.start (loadU64Le key.bytes).toBitVec (loadU64Le (key.bytes.drop 8)).toBitVec := rfl

theorem absorb_all (ms : List UInt64) (s : SipState) :
    (ms.foldl sipAbsorb s).reference = (ms.map UInt64.toBitVec).foldl (SipHash.absorb 2) s.reference := by
  induction ms generalizing s with
  | nil => rfl
  | cons m ms ih => rw [List.foldl_cons,ih,sipAbsorb_reference,List.map_cons,List.foldl_cons]

/-! ### Words -/

theorem loadU64Le_word (p : Bytes) : (loadU64Le p).toBitVec = SipHash.word (p.take 8) := by
  apply BitVec.eq_of_toNat_eq
  rw [SipHash.word,UInt64.toNat_toBitVec,loadU64Le_toNat,BitVec.toNat_ofNat,Nat.mod_eq_of_lt]
  rw [← loadU64Le_toNat]
  exact (loadU64Le p).toNat_lt

/-- A byte ORed in between a low and a high part is added at its place. -/
theorem or_between (b : UInt64) (byte : UInt8) (k low top : Nat) (room : k < 7) (below : low < 256 ^ k)
    (value : b.toNat = low + 2 ^ 56 * top) :
    (b ||| byte.toUInt64 <<< UInt64.ofNat (k * 8)).toNat = low + 256 ^ k * byte.toNat + 2 ^ 56 * top := by
  have power : (256 : Nat) ^ k = 2 ^ (k * 8) := by rw [Nat.mul_comm,Nat.pow_mul]
  have place : (UInt64.ofNat (k * 8)).toNat = k * 8 := UInt64.toNat_ofNat_of_lt' (by change _ < 2 ^ 64; omega)
  have byte_small : byte.toNat + 1 ≤ 256 := byte.toNat_lt
  have high : 2 ^ (k * 8) * 256 ≤ 2 ^ 56 := by
    have bound := Nat.pow_le_pow_right (n := 2) (by decide) (show k * 8 + 8 ≤ 56 by omega)
    rwa [Nat.pow_add] at bound
  rw [power] at below ⊢
  have within : 2 ^ (k * 8) * byte.toNat + low < 2 ^ 56 :=
    calc 2 ^ (k * 8) * byte.toNat + low < 2 ^ (k * 8) * byte.toNat + 2 ^ (k * 8) := Nat.add_lt_add_left below _
      _ = 2 ^ (k * 8) * (byte.toNat + 1) := (Nat.mul_succ _ _).symm
      _ ≤ 2 ^ (k * 8) * 256 := Nat.mul_le_mul_left _ byte_small
      _ ≤ 2 ^ 56 := high
  have shifted : (byte.toUInt64 <<< UInt64.ofNat (k * 8)).toNat = 2 ^ (k * 8) * byte.toNat := by
    rw [UInt64.toNat_shiftLeft,place,Nat.mod_eq_of_lt (show k * 8 < 64 by omega),UInt8.toNat_toUInt64,
      Nat.shiftLeft_eq,Nat.mul_comm]
    exact Nat.mod_eq_of_lt (by omega)
  rw [UInt64.toNat_or,value,shifted,Nat.add_comm low,Nat.two_pow_add_eq_or_of_lt (by omega),Nat.or_assoc,
    Nat.or_comm low,← Nat.two_pow_add_eq_or_of_lt below,← Nat.two_pow_add_eq_or_of_lt within]
  omega

/-- Each leftover byte lands between the bytes before it and the length in the top byte. -/
theorem tail_loop (tail : Bytes) (k low top : Nat) (b : UInt64) (short : k + tail.length ≤ 7)
    (below : low < 256 ^ k) (value : b.toNat = low + 2 ^ 56 * top) :
    ((tail.zipIdx k).foldl (fun b (byte,i) => b ||| byte.toUInt64 <<< (UInt64.ofNat (i * 8))) b).toNat =
      low + 256 ^ k * Nat.ofDigits 256 (tail.map UInt8.toNat) + 2 ^ 56 * top := by
  induction tail generalizing k low b with
  | nil => simpa using value
  | cons byte tail ih =>
    rw [List.length_cons] at short
    have byte_small : byte.toNat + 1 ≤ 256 := byte.toNat_lt
    have next : low + 256 ^ k * byte.toNat < 256 ^ (k + 1) :=
      calc low + 256 ^ k * byte.toNat < 256 ^ k + 256 ^ k * byte.toNat := Nat.add_lt_add_right below _
        _ = 256 ^ k * (byte.toNat + 1) := by rw [Nat.mul_succ,Nat.add_comm]
        _ ≤ 256 ^ k * 256 := Nat.mul_le_mul_left _ byte_small
        _ = 256 ^ (k + 1) := (pow_succ 256 k).symm
    have placed := or_between b byte k low top (by omega) below value
    rw [List.zipIdx_cons,List.foldl_cons,ih (k + 1) _ _ (by omega) next placed,List.map_cons,Nat.ofDigits_cons,
      pow_succ]
    ring

/-- The hand-rolled last block is the last word of the padded message. -/
theorem lastBlock_word (msg : Bytes) : (Host.lastBlock msg).toBitVec =
    SipHash.word (msg.drop (8 * (msg.length / 8)) ++ List.replicate (7 - msg.length % 8) 0 ++
      [UInt8.ofNat (msg.length % 256)]) := by
  have left : (msg.drop (msg.length / 8 * 8)).length = msg.length % 8 := by
    rw [List.length_drop]
    omega
  have small : msg.length % 8 < 8 := Nat.mod_lt _ (by decide)
  have top : msg.length % 256 < 256 := Nat.mod_lt _ (by decide)
  have high : (UInt64.ofNat (msg.length % 256) <<< (56 : UInt64)).toNat = 0 + 2 ^ 56 * (msg.length % 256) := by
    rw [UInt64.toNat_shiftLeft,UInt64.toNat_ofNat_of_lt' (by change _ < 2 ^ 64; omega),Nat.shiftLeft_eq,Nat.zero_add,
      Nat.mul_comm]
    exact Nat.mod_eq_of_lt (by simp; omega)
  have loop := tail_loop (msg.drop (msg.length / 8 * 8)) 0 0 _ _ (by omega) (by decide) high
  have pad_place : msg.length % 8 + (7 - msg.length % 8) = 7 := by omega
  have length_byte : (UInt8.ofNat (msg.length % 256)).toNat = msg.length % 256 :=
    UInt8.toNat_ofNat_of_lt' top
  apply BitVec.eq_of_toNat_eq
  rw [UInt64.toNat_toBitVec,Host.lastBlock,loop,SipHash.word,Nat.mul_comm 8,BitVec.toNat_ofNat,List.map_append,
    List.map_append,Nat.ofDigits_append,Nat.ofDigits_append,List.map_replicate,List.length_append,List.length_map,
    List.length_replicate,left,pad_place,List.map_singleton,length_byte,UInt8.toNat_zero,Nat.ofDigits_replicate_zero,
    Nat.ofDigits_singleton,Nat.mul_zero,Nat.add_zero]
  have whole : Nat.ofDigits 256 ((msg.drop (msg.length / 8 * 8)).map UInt8.toNat) < 256 ^ 7 :=
    (Nat.ofDigits_lt_base_pow_length (by decide) (byte_digits _)).trans_le
      (Nat.pow_le_pow_right (by decide) (by rw [List.length_map]; omega))
  generalize Nat.ofDigits 256 _ = low at whole ⊢
  clear loop high length_byte
  generalize msg.length % 256 = length at top ⊢
  rw [Nat.mod_eq_of_lt (by omega)]
  omega

theorem sipBlocks_words (s : SipState) (msg : Bytes) : sipBlocks s msg =
    ((List.range (msg.length / 8)).map fun i => loadU64Le (msg.drop (i * 8))).foldl sipAbsorb s := by
  rw [sipBlocks,List.foldl_map]

def referenceSipHash (key : Key) (msg : Bytes) : SipHash.Word :=
  SipHash.hash 2 4 (SipHash.word (key.bytes.take 8)) (SipHash.word ((key.bytes.drop 8).take 8)) msg

theorem siphash24_reference (key : Key) (msg : Bytes) :
    (Host.siphash24 key msg).toBitVec = referenceSipHash key msg := by
  have blocks : ((List.range (msg.length / 8)).map fun i => loadU64Le (msg.drop (i * 8))).map UInt64.toBitVec =
      (List.range (msg.length / 8)).map fun i => SipHash.word ((msg.drop (8 * i)).take 8) := by
    rw [List.map_map]
    refine List.map_congr_left fun i _ => ?_
    rw [Function.comp_apply,loadU64Le_word,Nat.mul_comm]
  rw [Host.siphash24,sipFinish_reference,sipAbsorb_reference,sipBlocks_words,absorb_all,sipInit_reference,blocks,
    lastBlock_word,loadU64Le_word,loadU64Le_word,referenceSipHash,SipHash.hash,SipHash.words_pad,List.foldl_append,
    List.foldl_cons,List.foldl_nil]

/-- Daemon and Nano compute the reference SipHash-2-4 of every message. -/
theorem siphash_right_on_both_ends (key : Key) (msg : Bytes) :
    Host.siphash24 key msg = Firmware.siphash24 key msg ∧
      (Host.siphash24 key msg).toBitVec = referenceSipHash key msg :=
  ⟨(siphash_agree key msg).symm,siphash24_reference key msg⟩

end R503
