import R503.Crc
import R503.TornWrites

/-! Flipped bits in a saved cell of the counter ring (eeprom.h). The stored CRC takes part with its bytes
swapped, which permutes its bits and leaves the distance of the code. -/
namespace R503.Firmware

open Text

/-- Bit `b` of the cell at an address flips, counted from the lowest bit of its first byte. -/
def flipBit (e : Eeprom) (address b : Nat) : Eeprom :=
  Function.update e (address + b / 8) (e (address + b / 8) ^^^ (1 : UInt8) <<< UInt8.ofNat (b % 8))

def rot (e : Eeprom) (address : Nat) (bits : List Nat) : Eeprom :=
  bits.foldl (fun e b => flipBit e address b) e

/-! ### The remainder of a cell -/

/-- `got_crc` of `ee_scan_ring`. -/
def storedCrc (cell : Bytes) : UInt16 := (cell.getD 8 0).toUInt16 ||| (cell.getD 9 0).toUInt16 <<< (8 : UInt16)

def remainder (cell : Bytes) : BitVec 16 := (storedCrc cell ^^^ crc16Ccitt (cell.take 8)).toBitVec

theorem cellCounter_none_iff (cell : Bytes) : cellCounter cell = none ↔ remainder cell ≠ 0#16 := by
  have zero : remainder cell = 0#16 ↔ storedCrc cell = crc16Ccitt (cell.take 8) := by
    rw [remainder,UInt16.toBitVec_xor,BitVec.xor_eq_zero_iff,UInt16.toBitVec_inj]
  change (if storedCrc cell ≠ crc16Ccitt (cell.take 8) then none else some (loadU64Le cell)) = none ↔ _
  refine Iff.trans ?_ (not_congr zero).symm
  split
  next differs => exact iff_of_true rfl differs
  next same => exact iff_of_false (Option.some_ne_none _) same

theorem crcBit_shift (c : UInt16) : (crcBit c).toBitVec = Crc.shift 0x1021#16 c.toBitVec := by
  have top : c &&& 0x8000 ≠ 0 ↔ c.toBitVec.msb = true := by
    have mask := BitVec.and_twoPow c.toBitVec 15
    rw [Ne,← UInt16.toBitVec_inj,UInt16.toBitVec_and,BitVec.msb_eq_getLsbD_last]
    change ¬ c.toBitVec &&& BitVec.twoPow 16 15 = 0#16 ↔ c.toBitVec.getLsbD 15 = true
    rw [mask]
    cases c.toBitVec.getLsbD 15 <;> decide
  unfold crcBit Crc.shift
  simp only [top]
  split <;> rfl

def words (p : Bytes) : List (BitVec 16) := p.map fun byte => (byte.toUInt16 <<< (8 : UInt16)).toBitVec

theorem crcBits_shift (k : Nat) (c : UInt16) :
    (crcBit^[k] c).toBitVec = (Crc.shift 0x1021#16)^[k] c.toBitVec := by
  induction k generalizing c with
  | zero => rfl
  | succ k ih => rw [Function.iterate_succ_apply,ih,crcBit_shift]; rfl

theorem crc16Ccitt_absorb (p : Bytes) : (crc16Ccitt p).toBitVec = Crc.absorb 0x1021#16 8 0xFFFF#16 (words p) := by
  have fold (c : UInt16) :
      (p.foldl (fun c byte => crcBit^[8] (c ^^^ byte.toUInt16 <<< (8 : UInt16))) c).toBitVec =
        Crc.absorb 0x1021#16 8 c.toBitVec (words p) := by
    induction p generalizing c with
    | nil => rfl
    | cons byte p ih =>
      rw [List.foldl_cons,ih,crcBits_shift]
      rfl
  exact fold 0xFFFF

/-- What a pattern adds to the remainder of any cell. -/
def added (pattern : Bytes) : BitVec 16 :=
  (storedCrc pattern).toBitVec ^^^ Crc.absorb 0x1021#16 8 0#16 (words (pattern.take 8))

theorem storedCrc_xor (a b c d : UInt8) :
    ((a ^^^ b).toUInt16 ||| (c ^^^ d).toUInt16 <<< (8 : UInt16)).toBitVec =
      (a.toUInt16 ||| c.toUInt16 <<< (8 : UInt16)).toBitVec ^^^
        (b.toUInt16 ||| d.toUInt16 <<< (8 : UInt16)).toBitVec := by
  ext i bound
  simp only [UInt16.toBitVec_or,UInt16.toBitVec_shiftLeft,UInt8.toBitVec_toUInt16,UInt8.toBitVec_xor]
  by_cases low : i < 8
  · simp [low]
  · have beyond (x : UInt8) : x.toBitVec.getLsbD i = false := BitVec.getLsbD_of_ge _ i (not_lt.mp low)
    simp [low,beyond]

theorem words_xor (p q : Bytes) :
    words (List.zipWith (· ^^^ ·) p q) = List.zipWith (· ^^^ ·) (words p) (words q) := by
  have byte (a b : UInt8) : ((a ^^^ b).toUInt16 <<< (8 : UInt16)).toBitVec =
      (a.toUInt16 <<< (8 : UInt16)).toBitVec ^^^ (b.toUInt16 <<< (8 : UInt16)).toBitVec := by
    have zero := storedCrc_xor 0 0 a b
    simpa using zero
  rw [words,List.map_zipWith,words,words,List.zipWith_map]
  simp only [byte]

/-- A pattern changes the remainder of every cell by the same amount. -/
theorem remainder_xor (cell pattern : Bytes) (size : cell.length = 10) (same : pattern.length = 10) :
    remainder (List.zipWith (· ^^^ ·) cell pattern) = remainder cell ^^^ added pattern := by
  have at_ (n : Nat) (bound : n < 10) :
      (List.zipWith (· ^^^ ·) cell pattern).getD n 0 = cell.getD n 0 ^^^ pattern.getD n 0 := by
    simp [List.getD,List.getElem?_zipWith,List.getElem?_eq_getElem (size.symm ▸ bound : n < cell.length),
      List.getElem?_eq_getElem (same.symm ▸ bound : n < pattern.length)]
  have stored : (storedCrc (List.zipWith (· ^^^ ·) cell pattern)).toBitVec =
      (storedCrc cell).toBitVec ^^^ (storedCrc pattern).toBitVec := by
    rw [storedCrc,at_ 8 (by decide),at_ 9 (by decide),storedCrc_xor]
    rfl
  have computed := Crc.absorb_xor 0x1021#16 0xFFFF#16 0#16 8 (words (cell.take 8)) (words (pattern.take 8)) (by
    simp [words,size,same])
  rw [BitVec.xor_zero,← words_xor,← List.take_zipWith,← crc16Ccitt_absorb,← crc16Ccitt_absorb] at computed
  rw [remainder,UInt16.toBitVec_xor,stored,computed,Crc.xor_swap]
  rfl

/-! ### Single bits -/

def oneBit (b : Nat) : Bytes := (List.replicate 10 0).set (b / 8) ((1 : UInt8) <<< UInt8.ofNat (b % 8))

def syndrome (b : Nat) : BitVec 16 := added (oneBit b)

theorem syndrome_odd : ∀ b < 80, Crc.parity (syndrome b) = true := by decide +kernel

theorem syndrome_apart : ((List.range 80).map syndrome).Nodup := by decide +kernel

/-! ### A rotten cell -/

section
variable (e : Eeprom) (i : Fin eeCounterRingCells)

theorem ringBytes_flipBit (b : Nat) (inside : b < 80) :
    ringBytes (flipBit e (cellAddr i) b) i = List.zipWith (· ^^^ ·) (ringBytes e i) (oneBit b) := by
  apply List.ext_getElem
  · simp [ringBytes,oneBit,eeCounterRingCellSize]
  · intro n bound _
    have place : b / 8 < 10 := by omega
    simp only [ringBytes,Store.read,List.getElem_map,List.getElem_range,List.getElem_zipWith,oneBit,
      List.getElem_set,List.getElem_replicate,flipBit]
    by_cases here : b / 8 = n
    · subst here
      rw [if_pos rfl,Function.update_self]
    · rw [if_neg here,Function.update_of_ne (by omega),UInt8.xor_zero]

theorem ringBytes_flipBit_other (j : Fin eeCounterRingCells) (other : j ≠ i) (b : Nat) (inside : b < 80) :
    ringBytes (flipBit e (cellAddr i) b) j = ringBytes e j := by
  refine Store.read_congr _ _ _ _ fun n bound => Function.update_of_ne ?_ _ _
  have different : j.val ≠ i.val := fun same => other (Fin.ext same)
  simp only [cellAddr,eeCounterRingCellSize] at bound ⊢
  omega

theorem remainder_rot (bits : List Nat) (inside : ∀ b ∈ bits, b < 80) :
    remainder (ringBytes (rot e (cellAddr i) bits) i) = remainder (ringBytes e i) ^^^ Crc.total syndrome bits := by
  induction bits generalizing e with
  | nil => exact (BitVec.xor_zero).symm
  | cons b bits ih =>
    obtain ⟨here,later⟩ := List.forall_mem_cons.mp inside
    have flipped := remainder_xor (ringBytes e i) (oneBit b) (by simp [ringBytes,eeCounterRingCellSize]) (by simp [oneBit])
    rw [← ringBytes_flipBit e i b here] at flipped
    have rest := ih (flipBit e (cellAddr i) b) later
    rw [flipped,BitVec.xor_assoc] at rest
    exact rest

theorem ringBytes_rot_other (j : Fin eeCounterRingCells) (other : j ≠ i) (bits : List Nat)
    (inside : ∀ b ∈ bits, b < 80) : ringBytes (rot e (cellAddr i) bits) j = ringBytes e j := by
  induction bits generalizing e with
  | nil => rfl
  | cons b bits ih =>
    obtain ⟨here,later⟩ := List.forall_mem_cons.mp inside
    exact (ih (flipBit e (cellAddr i) b) later).trans (ringBytes_flipBit_other e i j other b here)

end

/-- A cell that no longer checks takes its counter out of the ring, and nothing else. -/
theorem eeLoadCounter_dropped (e f : Eeprom) (i : Fin eeCounterRingCells) (invalid : ringCells f i = none)
    (kept : ∀ j, j ≠ i → ringCells f j = ringCells e j) : eeLoadCounter f ≤ eeLoadCounter e := by
  cases valid : (eeScanRing f).anyValid with
  | false =>
    rw [show eeLoadCounter f = 0 from ((scanned f).none valid).1]
    exact UInt64.le_iff_toNat_le.mpr (Nat.zero_le _)
  | true =>
    obtain ⟨j,_,_,held⟩ := (scanned f).place valid
    have other : j ≠ i := by
      rintro rfl
      cases invalid.symm.trans held
    rw [kept j other] at held
    exact (scanned e).bound j j.isLt _ held

/-- One, two or three flipped bits in a saved cell: the scan passes over the cell, so the ring never yields
a greater counter than before. -/
theorem bit_rot_detected (e : Eeprom) (i : Fin eeCounterRingCells) (newCounter : UInt64) (bits : List Nat)
    (saved : ringBytes e i = counterCell newCounter) (inside : ∀ b ∈ bits, b < 8 * eeCounterRingCellSize)
    (distinct : bits.Nodup) (some_ : bits ≠ []) (few : bits.length ≤ 3) :
    (∀ s, scanCell (rot e (cellAddr i) bits) s i = s) ∧
      eeLoadCounter (rot e (cellAddr i) bits) ≤ eeLoadCounter e := by
  have intact : remainder (ringBytes e i) = 0#16 := by
    by_contra differs
    have lost := (cellCounter_none_iff _).mpr differs
    rw [saved,cellCounter_counterCell] at lost
    cases lost
  have detected : Crc.total syndrome bits ≠ 0#16 := by
    refine Crc.total_ne_zero syndrome bits (fun b member => syndrome_odd b (inside b member)) ?_ distinct some_ few
    intro a first b second same
    exact List.inj_on_of_nodup_map syndrome_apart (List.mem_range.mpr (inside a first))
      (List.mem_range.mpr (inside b second)) same
  have invalid : ringCells (rot e (cellAddr i) bits) i = none := by
    refine (cellCounter_none_iff _).mpr ?_
    change remainder (ringBytes (rot e (cellAddr i) bits) i) ≠ 0#16
    rw [remainder_rot e i bits inside,intact,BitVec.zero_xor]
    exact detected
  refine ⟨fun s => ?_,eeLoadCounter_dropped e _ i invalid fun j other => ?_⟩
  · change cellCounter (Store.read (rot e (cellAddr i) bits) (cellAddr i) eeCounterRingCellSize) = none at invalid
    rw [scanCell,invalid]
  · exact congrArg cellCounter (ringBytes_rot_other e i j other bits inside)

def pairedRing : Eeprom := eeSavePairing (fun _ => 0) ⟨List.replicate 16 0xA5,rfl⟩

/-- The first save after a pairing, with the top bit of the first byte and the first bit of the CRC flipped. -/
theorem bit_rot_detected_first :
    (∀ s, scanCell (rot (eeSaveCounter pairedRing 3) (cellAddr (target pairedRing)) [7,64]) s (target pairedRing) = s) ∧
      eeLoadCounter (rot (eeSaveCounter pairedRing 3) (cellAddr (target pairedRing)) [7,64]) ≤
        eeLoadCounter (eeSaveCounter pairedRing 3) :=
  bit_rot_detected _ _ 3 _ (by rw [ringBytes_saveCounter,Function.update_self]) (by decide) (by decide) (by decide)
    (by decide)

end R503.Firmware
