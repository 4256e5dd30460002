import R503.SipHash
import R503.WearRing

/-! The Nano's persistent state (eeprom.h): pairing marker, key and counter ring.
A save or a wipe is the list of its byte updates, in the order the code makes them. -/
namespace R503.Firmware

open Text

/-- The order of counters. -/
instance counterOrder : LinearOrder UInt64 where
  le_refl _ := UInt64.le_refl _
  le_trans _ _ _ := UInt64.le_trans
  lt_iff_le_not_ge a b := by
    simp only [UInt64.lt_iff_toNat_lt,UInt64.le_iff_toNat_le]
    omega
  le_antisymm _ _ := UInt64.le_antisymm
  le_total := UInt64.le_total
  toDecidableLE := inferInstance
  min := min
  max := max
  min_def _ _ := rfl
  max_def _ _ := rfl

abbrev Eeprom := Nat → UInt8

def eeMagicAddr : Nat := 0
def eeMagic : Bytes := ascii "R503FPv2"
def eeFmtAddr : Nat := 8
def eeFormatVersion : UInt8 := 2
def eeKeyAddr : Nat := 9
def eeKeyLen : Nat := 16
def eeCounterRingAddr : Nat := 32
def eeCounterRingCells : Nat := 16
def eeCounterRingCellSize : Nat := 10
def eeEndAddr : Nat := eeCounterRingAddr + eeCounterRingCells * eeCounterRingCellSize

def crcBit (c : UInt16) : UInt16 :=
  if c &&& 0x8000 ≠ 0 then (c <<< (1 : UInt16)) ^^^ 0x1021 else c <<< (1 : UInt16)

def crc16Ccitt (p : Bytes) : UInt16 :=
  p.foldl (fun c byte => crcBit^[8] (c ^^^ byte.toUInt16 <<< (8 : UInt16))) 0xFFFF

def eeIsPaired (e : Eeprom) : Bool :=
  Store.read e eeMagicAddr eeMagic.length == eeMagic && e eeFmtAddr == eeFormatVersion

def eeLoadKey (e : Eeprom) : Option Key :=
  if eeIsPaired e then some ⟨Store.read e eeKeyAddr eeKeyLen,Store.length_read _ _ _⟩ else none

def eeSavePairingWrites (key : Key) : List (Nat × UInt8) :=
  Store.block eeMagicAddr eeMagic ++ [(eeFmtAddr,eeFormatVersion)] ++
    Store.block eeKeyAddr key.bytes ++
    Store.block eeCounterRingAddr (List.replicate (eeEndAddr - eeCounterRingAddr) 0xFF)

def eeSavePairing (e : Eeprom) (key : Key) : Eeprom := Store.apply e (eeSavePairingWrites key)

def eeWipeWrites : List (Nat × UInt8) := Store.block 0 (List.replicate eeEndAddr 0xFF)

def eeWipe (e : Eeprom) : Eeprom := Store.apply e eeWipeWrites

structure RingScan where
  maxCounter : UInt64
  maxCell : Int
  anyValid : Bool
  deriving DecidableEq

def cellAddr (i : Nat) : Nat := eeCounterRingAddr + i * eeCounterRingCellSize

def cellCounter (cell : Bytes) : Option UInt64 :=
  let wantCrc := crc16Ccitt (cell.take 8)
  let gotCrc := (cell.getD 8 0).toUInt16 ||| (cell.getD 9 0).toUInt16 <<< (8 : UInt16)
  if gotCrc ≠ wantCrc then none else some (loadU64Le cell)

def scanCell (e : Eeprom) (s : RingScan) (i : Nat) : RingScan :=
  match cellCounter (Store.read e (cellAddr i) eeCounterRingCellSize) with
  | none => s
  | some ctr => if ¬ s.anyValid ∨ ctr > s.maxCounter then ⟨ctr,i,true⟩ else s

def eeScanRing (e : Eeprom) : RingScan :=
  (List.range eeCounterRingCells).foldl (scanCell e) ⟨0,-1,false⟩

def eeLoadCounter (e : Eeprom) : UInt64 := (eeScanRing e).maxCounter

def nextCell (s : RingScan) : Nat :=
  if s.anyValid then ((s.maxCell + 1) % eeCounterRingCells).toNat else 0

def counterCell (newCounter : UInt64) : Bytes :=
  let cell := toLeBytes newCounter
  let crc := crc16Ccitt cell
  cell ++ [(crc &&& 0xff).toUInt8,(crc >>> (8 : UInt16)).toUInt8]

def eeSaveCounterWrites (e : Eeprom) (newCounter : UInt64) : List (Nat × UInt8) :=
  Store.block (cellAddr (nextCell (eeScanRing e))) (counterCell newCounter)

def eeSaveCounter (e : Eeprom) (newCounter : UInt64) : Eeprom :=
  Store.apply e (eeSaveCounterWrites e newCounter)

/-! ### Cells -/

theorem crc_halves (crc : UInt16) :
    (crc &&& 0xff).toUInt8.toUInt16 ||| (crc >>> (8 : UInt16)).toUInt8.toUInt16 <<< (8 : UInt16) =
      crc := by
  have range := crc.toNat_lt
  apply UInt16.toNat_inj.mp
  have low : ((crc &&& 0xff).toUInt8.toUInt16).toNat = crc.toNat % 2 ^ 8 := by
    have mask := Nat.and_two_pow_sub_one_eq_mod (crc.toNat % 2 ^ 8) 8
    simpa using mask
  have high : ((crc >>> (8 : UInt16)).toUInt8.toUInt16 <<< (8 : UInt16)).toNat =
      (crc.toNat / 2 ^ 8) <<< 8 := by
    simp [Nat.shiftRight_eq_div_pow]
    omega
  rw [UInt16.toNat_or,low,high,Nat.or_comm,← Nat.shiftLeft_add_eq_or_of_lt (Nat.mod_lt _ (by decide)),
    Nat.shiftLeft_eq]
  omega

@[simp] theorem length_counterCell (c : UInt64) : (counterCell c).length = eeCounterRingCellSize := by
  simp [counterCell,eeCounterRingCellSize]

/-- A written cell checks and carries its counter. -/
theorem cellCounter_counterCell (c : UInt64) : cellCounter (counterCell c) = some c := by
  have eight := toLeBytes_length c
  have word : (counterCell c).take 8 = toLeBytes c := by
    rw [counterCell,List.take_append_of_le_length (by omega),← eight,List.take_length]
  have low : (counterCell c).getD 8 0 = (crc16Ccitt (toLeBytes c) &&& 0xff).toUInt8 := by
    simp [counterCell,eight]
  have high : (counterCell c).getD 9 0 = (crc16Ccitt (toLeBytes c) >>> (8 : UInt16)).toUInt8 := by
    simp [counterCell,eight]
  have counter : loadU64Le (counterCell c) = c := by
    rw [loadU64Le,word]
    have back := loadU64Le_toLeBytes c
    rwa [loadU64Le,← eight,List.take_length] at back
  rw [cellCounter,word,low,high,crc_halves,if_neg (by simp),counter]

theorem cellCounter_blank : cellCounter (List.replicate eeCounterRingCellSize 0xFF) = none := by
  decide +kernel

/-! ### The ring -/

def ringCells (e : Eeprom) (i : Fin eeCounterRingCells) : Option UInt64 :=
  cellCounter (Store.read e (cellAddr i) eeCounterRingCellSize)

structure Scanned (e : Eeprom) (k : Nat) (s : RingScan) : Prop where
  none : s.anyValid = false → s.maxCounter = 0 ∧
    ∀ i : Fin eeCounterRingCells, i.val < k → ringCells e i = .none
  bound : ∀ i : Fin eeCounterRingCells, i.val < k → ∀ c, ringCells e i = some c →
    c ≤ s.maxCounter
  place : s.anyValid = true → ∃ i : Fin eeCounterRingCells, s.maxCell = i.val ∧ i.val < k ∧
    ringCells e i = some s.maxCounter

theorem scanned_start (e : Eeprom) : Scanned e 0 ⟨0,-1,false⟩ where
  none _ := ⟨rfl,fun _ impossible => absurd impossible (Nat.not_lt_zero _)⟩
  bound _ impossible := absurd impossible (Nat.not_lt_zero _)
  place impossible := by cases impossible

theorem scanned_step (e : Eeprom) (k : Nat) (s : RingScan) (room : k < eeCounterRingCells)
    (scanned : Scanned e k s) : Scanned e (k + 1) (scanCell e s k) := by
  have here : ringCells e ⟨k,room⟩ = cellCounter (Store.read e (cellAddr k) eeCounterRingCellSize) := rfl
  have split (i : Fin eeCounterRingCells) (lt : i.val < k + 1) : i.val < k ∨ i = ⟨k,room⟩ := by
    rcases Nat.lt_succ_iff_lt_or_eq.mp lt with before | same
    · exact Or.inl before
    · exact Or.inr (Fin.ext same)
  unfold scanCell
  rw [← here]
  cases held : ringCells e ⟨k,room⟩ with
  | none =>
    refine ⟨fun invalid => ⟨(scanned.none invalid).1,fun i lt => ?_⟩,fun i lt c hc => ?_,fun valid => ?_⟩
    · rcases split i lt with before | rfl
      · exact (scanned.none invalid).2 i before
      · exact held
    · rcases split i lt with before | rfl
      · exact scanned.bound i before c hc
      · simp [held] at hc
    · obtain ⟨i,home,lt,value⟩ := scanned.place valid
      exact ⟨i,home,Nat.lt_succ_of_lt lt,value⟩
  | some ctr =>
    by_cases take : ¬ s.anyValid = true ∨ ctr > s.maxCounter
    · simp only [if_pos take]
      refine ⟨fun impossible => (by cases impossible),fun i lt c hc => ?_,fun _ =>
        ⟨⟨k,room⟩,rfl,Nat.lt_succ_self k,held⟩⟩
      rcases split i lt with before | rfl
      · rcases take with invalid | greater
        · have empty := (scanned.none (by simpa using invalid)).2 i before
          simp [empty] at hc
        · exact (scanned.bound i before c hc).trans (le_of_lt greater)
      · exact (Option.some.inj (held.symm.trans hc)).ge
    · simp only [if_neg take]
      obtain ⟨valid,smaller⟩ := not_or.mp take
      refine ⟨fun invalid => absurd invalid (by simpa using valid),fun i lt c hc => ?_,fun valid => ?_⟩
      · rcases split i lt with before | rfl
        · exact scanned.bound i before c hc
        · obtain rfl := Option.some.inj (held.symm.trans hc)
          exact not_lt.mp (show ¬ s.maxCounter < ctr from smaller)
      · obtain ⟨i,home,lt,value⟩ := scanned.place valid
        exact ⟨i,home,Nat.lt_succ_of_lt lt,value⟩

theorem scanned_range (e : Eeprom) (k : Nat) (room : k ≤ eeCounterRingCells) :
    Scanned e k ((List.range k).foldl (scanCell e) ⟨0,-1,false⟩) := by
  induction k with
  | zero => exact scanned_start e
  | succ k ih =>
    rw [List.range_succ,List.foldl_append]
    exact scanned_step e k _ room (ih (Nat.le_of_succ_le room))

theorem scanned (e : Eeprom) : Scanned e eeCounterRingCells (eeScanRing e) :=
  scanned_range e eeCounterRingCells le_rfl

/-- The scan computes the newest valid counter of the ring. -/
theorem scan_isNewest (e : Eeprom) : MaxRing.IsNewest (ringCells e)
    (if (eeScanRing e).anyValid then some (eeLoadCounter e) else none) where
  bound i c held := by
    cases valid : (eeScanRing e).anyValid with
    | false =>
      have := ((scanned e).none valid).2 i i.isLt
      simp [this] at held
    | true => exact ⟨_,rfl,(scanned e).bound i i.isLt c held⟩
  held b isBest := by
    cases valid : (eeScanRing e).anyValid with
    | false => simp [valid] at isBest
    | true =>
      obtain ⟨i,_,_,value⟩ := (scanned e).place valid
      exact ⟨i,value.trans (by simpa [valid,eeLoadCounter] using isBest)⟩

/-- Whatever the ring holds, its newest counter is what is loaded. -/
theorem eeLoadCounter_of_newest (e : Eeprom) (best : Option UInt64)
    (newest : MaxRing.IsNewest (ringCells e) best) : eeLoadCounter e = best.getD 0 := by
  have same := (scan_isNewest e).unique newest
  cases valid : (eeScanRing e).anyValid with
  | false =>
    rw [← same,valid]
    exact ((scanned e).none valid).1
  | true =>
    rw [← same,valid]
    rfl

theorem nextCell_lt (e : Eeprom) : nextCell (eeScanRing e) < eeCounterRingCells := by
  unfold nextCell eeCounterRingCells
  split <;> omega

def ringBytes (e : Eeprom) (i : Fin eeCounterRingCells) : Bytes :=
  Store.read e (cellAddr i) eeCounterRingCellSize

theorem ringCells_eq (e : Eeprom) : ringCells e = cellCounter ∘ ringBytes e := rfl

/-- Some of the bytes of a cell: they stand before the rest of the old ones, the other cells stay. -/
theorem ringBytes_block (e : Eeprom) (i : Fin eeCounterRingCells) (data : Bytes)
    (size : data.length = eeCounterRingCellSize) (k : Nat) :
    ringBytes (Store.apply e (Store.block (cellAddr i) (data.take k))) =
      Function.update (ringBytes e) i (data.take k ++ (ringBytes e i).drop k) := by
  funext j
  by_cases same : j = i
  · subst j
    have back := Store.read_block_take e (cellAddr i) data k
    rw [size] at back
    rw [Function.update_self,ringBytes,back,ringBytes]
  · rw [Function.update_of_ne same,ringBytes,ringBytes]
    apply Store.read_congr
    intro n bound
    have different : j.val ≠ i.val := fun h => same (Fin.ext h)
    apply Store.block_outside
    rw [List.length_take,size]
    simp only [cellAddr,eeCounterRingCellSize] at bound ⊢
    omega

/-- The cell the next save goes to. -/
def target (e : Eeprom) : Fin eeCounterRingCells := ⟨nextCell (eeScanRing e),nextCell_lt e⟩

theorem eeSaveCounterWrites_take (e : Eeprom) (c : UInt64) (k : Nat) :
    (eeSaveCounterWrites e c).take k =
      Store.block (cellAddr (target e)) ((counterCell c).take k) := by
  rw [eeSaveCounterWrites,Store.take_block]
  rfl

theorem ringBytes_saveCounter (e : Eeprom) (c : UInt64) :
    ringBytes (eeSaveCounter e c) = Function.update (ringBytes e) (target e) (counterCell c) := by
  have whole := ringBytes_block e (target e) (counterCell c) (length_counterCell c) eeCounterRingCellSize
  have long := length_counterCell c
  rw [List.take_of_length_le long.le,List.drop_eq_nil_of_le (by simp [ringBytes]),
    List.append_nil] at whole
  exact whole

/-- A save replaces one cell and leaves the others. -/
theorem ringCells_saveCounter (e : Eeprom) (c : UInt64) :
    ringCells (eeSaveCounter e c) = Function.update (ringCells e) (target e) (some c) := by
  rw [ringCells_eq,ringBytes_saveCounter,Function.comp_update,cellCounter_counterCell,ringCells_eq]

/-- After a save of a greater counter the load returns it, wherever the ring stands. -/
theorem eeLoadCounter_saveCounter (e : Eeprom) (c : UInt64) (greater : eeLoadCounter e < c) :
    eeLoadCounter (eeSaveCounter e c) = c := by
  have newest := (scan_isNewest e).save (target e) c (by
    intro b isBest
    split at isBest
    · exact (Option.some.inj isBest) ▸ greater
    · cases isBest)
  rw [← ringCells_saveCounter] at newest
  exact eeLoadCounter_of_newest _ _ newest

/-! ### Frames and pairing -/

theorem eeSaveCounter_below (e : Eeprom) (c : UInt64) (x : Nat) (low : x < eeCounterRingAddr) :
    eeSaveCounter e c x = e x := by
  apply Store.block_outside
  left
  rw [cellAddr]
  omega

theorem eeIsPaired_congr (e f : Eeprom) (same : ∀ x, x < eeKeyAddr → e x = f x) :
    eeIsPaired e = eeIsPaired f := by
  have magic := Store.read_congr e f eeMagicAddr eeMagic.length fun i bound =>
    same _ (Nat.lt_of_lt_of_le (Nat.add_lt_add_left bound _) (by decide))
  rw [eeIsPaired,eeIsPaired,magic,same eeFmtAddr (by decide)]

theorem eeLoadKey_congr (e f : Eeprom) (same : ∀ x, x < eeCounterRingAddr → e x = f x) :
    eeLoadKey e = eeLoadKey f := by
  have key := Store.read_congr e f eeKeyAddr eeKeyLen fun i bound => same _ (by
    simp only [eeKeyAddr,eeKeyLen,eeCounterRingAddr] at bound ⊢
    omega)
  have paired := eeIsPaired_congr e f fun x low => same x (Nat.lt_trans low (by decide))
  simp only [eeLoadKey,paired,key]

@[simp] theorem eeIsPaired_saveCounter (e : Eeprom) (c : UInt64) :
    eeIsPaired (eeSaveCounter e c) = eeIsPaired e :=
  eeIsPaired_congr _ _ fun x low => eeSaveCounter_below e c x (Nat.lt_trans low (by decide))

@[simp] theorem eeLoadKey_saveCounter (e : Eeprom) (c : UInt64) :
    eeLoadKey (eeSaveCounter e c) = eeLoadKey e :=
  eeLoadKey_congr _ _ fun x low => eeSaveCounter_below e c x low

theorem eeLoadKey_isSome (e : Eeprom) : (eeLoadKey e).isSome = eeIsPaired e := by
  unfold eeLoadKey
  split <;> simp_all

theorem eeSavePairing_split (e : Eeprom) (key : Key) : eeSavePairing e key =
    Store.apply (Store.apply (Store.apply (Store.apply e (Store.block eeMagicAddr eeMagic))
      [(eeFmtAddr,eeFormatVersion)]) (Store.block eeKeyAddr key.bytes))
        (Store.block eeCounterRingAddr (List.replicate (eeEndAddr - eeCounterRingAddr) 0xFF)) := by
  simp only [eeSavePairing,eeSavePairingWrites,Store.apply_append]

theorem eeIsPaired_savePairing (e : Eeprom) (key : Key) : eeIsPaired (eeSavePairing e key) = true := by
  have magic := Store.read_block e eeMagicAddr eeMagic
  rw [eeIsPaired_congr (eeSavePairing e key)
    (Store.apply (Store.apply e (Store.block eeMagicAddr eeMagic)) [(eeFmtAddr,eeFormatVersion)])]
  · have marker := Store.read_congr (Store.apply (Store.apply e (Store.block eeMagicAddr eeMagic))
        [(eeFmtAddr,eeFormatVersion)]) (Store.apply e (Store.block eeMagicAddr eeMagic))
        eeMagicAddr eeMagic.length fun i bound => Store.apply_frame _ _ _ (by
      have eight : eeMagic.length = 8 := rfl
      simp only [eight] at bound
      simp only [List.mem_singleton,forall_eq,eeFmtAddr,eeMagicAddr]
      omega)
    rw [eeIsPaired,marker,magic]
    simp
  · intro x low
    rw [eeSavePairing_split,Store.block_outside,Store.block_outside]
    · exact Or.inl low
    · exact Or.inl (Nat.lt_trans low (by decide))

/-- The stored key is the one saved. -/
theorem eeLoadKey_savePairing (e : Eeprom) (key : Key) : eeLoadKey (eeSavePairing e key) = some key := by
  have long : eeKeyLen = key.bytes.length := key.size.symm
  rw [eeLoadKey,if_pos (eeIsPaired_savePairing e key)]
  refine congrArg some (Key.ext ?_)
  change Store.read (eeSavePairing e key) eeKeyAddr eeKeyLen = key.bytes
  rw [eeSavePairing_split]
  have kept := Store.read_congr _ _ eeKeyAddr eeKeyLen fun i bound =>
    Store.block_outside (Store.apply (Store.apply (Store.apply e (Store.block eeMagicAddr eeMagic))
      [(eeFmtAddr,eeFormatVersion)]) (Store.block eeKeyAddr key.bytes)) eeCounterRingAddr
        (List.replicate (eeEndAddr - eeCounterRingAddr) 0xFF) (eeKeyAddr + i) (Or.inl (by
          simp only [eeKeyLen,eeKeyAddr,eeCounterRingAddr] at bound ⊢
          omega))
  rw [kept,long]
  exact Store.read_block _ _ _

theorem ringBytes_savePairing (e : Eeprom) (key : Key) (i : Fin eeCounterRingCells) :
    ringBytes (eeSavePairing e key) i = List.replicate eeCounterRingCellSize 0xFF := by
  rw [ringBytes]
  apply List.ext_getElem
  · simp
  · intro j bound _
    have here := i.isLt
    simp only [Store.length_read] at bound
    have offset : cellAddr i + j = eeCounterRingAddr + (i * eeCounterRingCellSize + j) := by
      simp only [cellAddr]
      omega
    have inside : i * eeCounterRingCellSize + j < eeEndAddr - eeCounterRingAddr := by
      simp only [eeEndAddr,eeCounterRingAddr,eeCounterRingCells,eeCounterRingCellSize] at here bound ⊢
      omega
    simp only [Store.read,List.getElem_map,List.getElem_range,offset,List.getElem_replicate]
    rw [eeSavePairing_split,Store.block_inside _ _ _ _ (by simpa using inside)]
    simp

theorem ringCells_savePairing (e : Eeprom) (key : Key) (i : Fin eeCounterRingCells) :
    ringCells (eeSavePairing e key) i = none := by
  rw [ringCells_eq,Function.comp_apply,ringBytes_savePairing,cellCounter_blank]

/-- A pairing starts with no counter seen. -/
theorem eeLoadCounter_savePairing (e : Eeprom) (key : Key) : eeLoadCounter (eeSavePairing e key) = 0 :=
  eeLoadCounter_of_newest _ none (MaxRing.IsNewest.blank (ringCells_savePairing e key))

/-- The first byte of the marker alone decides that a Nano is unpaired. -/
theorem eeIsPaired_spoiled (e : Eeprom) (spoiled : e 0 = 0xFF) : eeIsPaired e = false := by
  rw [eeIsPaired,Bool.and_eq_false_iff]
  left
  refine beq_eq_false_iff_ne.mpr fun same => ?_
  have head := congrArg List.head? same
  have eight : eeMagic.length = 7 + 1 := rfl
  rw [Store.read,eight,List.range_succ_eq_map] at head
  simp only [List.map_cons,List.head?_cons,eeMagicAddr,Nat.add_zero,spoiled] at head
  exact absurd head (by decide)

theorem eeIsPaired_wipe (e : Eeprom) : eeIsPaired (eeWipe e) = false := by
  have inside : 0 < (List.replicate eeEndAddr (0xFF : UInt8)).length := by
    rw [List.length_replicate]
    decide
  have written := Store.block_inside e 0 _ 0 inside
  rw [List.getElem_replicate] at written
  exact eeIsPaired_spoiled _ written

end R503.Firmware
