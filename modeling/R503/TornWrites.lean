import R503.Eeprom
import R503.FirmwareFraming

/-! Power lost between the byte updates of a save, and what the next boot reads.
A cut save leaves the first bytes of the new record before the rest of the old one. -/
namespace R503.Firmware

open Text

/-! ### The ring after completed saves -/

def savedRing (e : Eeprom) (key : Key) (counters : List UInt64) : Eeprom :=
  counters.foldl eeSaveCounter (eeSavePairing e key)

theorem savedRing_append (e : Eeprom) (key : Key) (counters : List UInt64) (c : UInt64) :
    savedRing e key (counters ++ [c]) = eeSaveCounter (savedRing e key counters) c := by
  simp only [savedRing,List.foldl_append,List.foldl_cons,List.foldl_nil]

theorem eeLoadCounter_savedRing_append (e : Eeprom) (key : Key) (counters : List UInt64) (c : UInt64)
    (later : eeLoadCounter (savedRing e key counters) < c) :
    eeLoadCounter (savedRing e key (counters ++ [c])) = c := by
  rw [savedRing_append]
  exact eeLoadCounter_saveCounter _ c later

def blankCell : Bytes := List.replicate eeCounterRingCellSize 0xFF

/-- Cells are filled in order from blank; each filled one is a whole saved cell. -/
structure Wound (e : Eeprom) (counters : List UInt64) : Prop where
  next : (target e).val = counters.length % eeCounterRingCells
  blank : ∀ i : Fin eeCounterRingCells, counters.length ≤ i.val → ringBytes e i = blankCell
  filled : ∀ i : Fin eeCounterRingCells, i.val < counters.length →
    ∃ o ∈ counters, ringBytes e i = counterCell o

theorem Wound.held {e : Eeprom} {counters : List UInt64} (wound : Wound e counters)
    (i : Fin eeCounterRingCells) (o : UInt64) (holds : ringCells e i = some o) : o ∈ counters := by
  rw [ringCells_eq,Function.comp_apply] at holds
  rcases Nat.lt_or_ge i.val counters.length with filled | blank
  · obtain ⟨saved,member,bytes⟩ := wound.filled i filled
    rw [bytes,cellCounter_counterCell] at holds
    exact Option.some.inj holds ▸ member
  · rw [wound.blank i blank] at holds
    cases cellCounter_blank.symm.trans holds

/-- A newest counter found in one cell sends the next save to the cell after it. -/
theorem target_of_newest (e : Eeprom) (i : Fin eeCounterRingCells) (c : UInt64)
    (holds : ringCells e i = some c) (only : ∀ j o, ringCells e j = some o → j ≠ i → o < c) :
    (target e).val = (i.val + 1) % eeCounterRingCells := by
  have newest := scan_isNewest e
  obtain ⟨b,isBest,_⟩ := newest.bound i c holds
  cases valid : (eeScanRing e).anyValid with
  | false => simp [valid] at isBest
  | true =>
    obtain ⟨j,home,_,value⟩ := (scanned e).place valid
    have bound := (scanned e).bound i i.isLt c holds
    have same : j = i := by
      by_contra other
      exact absurd (only j _ value other) (not_lt.mpr bound)
    subst same
    have bound : j.val < 16 := j.isLt
    simp only [target,nextCell,valid,if_true,home,eeCounterRingCells]
    omega

theorem wound_pairing (e : Eeprom) (key : Key) : Wound (eeSavePairing e key) [] where
  next := by
    have none := ringCells_savePairing e key
    have best := (scan_isNewest (eeSavePairing e key)).unique (MaxRing.IsNewest.blank none)
    cases valid : (eeScanRing (eeSavePairing e key)).anyValid with
    | true => simp [valid] at best
    | false => simp [target,nextCell,valid]
  blank i _ := ringBytes_savePairing e key i
  filled _ impossible := absurd impossible (Nat.not_lt_zero _)

theorem wound_save {e : Eeprom} {counters : List UInt64} (wound : Wound e counters) (c : UInt64)
    (greater : ∀ o ∈ counters, o < c) : Wound (eeSaveCounter e c) (counters ++ [c]) where
  next := by
    have written : ringCells (eeSaveCounter e c) (target e) = some c := by
      rw [ringCells_saveCounter,Function.update_self]
    have moved := target_of_newest _ _ c written (by
      intro j o holds other
      rw [ringCells_saveCounter,Function.update_of_ne other] at holds
      exact greater o (wound.held j o holds))
    rw [moved,wound.next,List.length_append,List.length_singleton,Nat.mod_add_mod]
  blank i beyond := by
    rw [List.length_append,List.length_singleton] at beyond
    have small : counters.length % eeCounterRingCells ≤ counters.length := Nat.mod_le _ _
    have other : i ≠ target e := by
      intro same
      rw [same,wound.next] at beyond
      omega
    rw [ringBytes_saveCounter,Function.update_of_ne other]
    exact wound.blank i (by omega)
  filled i within := by
    rw [List.length_append,List.length_singleton] at within
    rw [ringBytes_saveCounter]
    by_cases same : i = target e
    · exact ⟨c,by simp,by rw [same,Function.update_self]⟩
    · rw [Function.update_of_ne same]
      have inside : i.val < counters.length := by
        rcases Nat.lt_succ_iff_lt_or_eq.mp within with inside | last
        · exact inside
        · have home := wound.next
          rw [← last,Nat.mod_eq_of_lt i.isLt] at home
          exact absurd (Fin.ext home.symm) same
      obtain ⟨o,member,bytes⟩ := wound.filled i inside
      exact ⟨o,List.mem_append_left _ member,bytes⟩

theorem wound_run (e : Eeprom) (key : Key) (counters : List UInt64) (increasing : counters.Pairwise (· < ·)) :
    Wound (savedRing e key counters) counters := by
  induction counters using List.reverseRecOn with
  | nil => exact wound_pairing e key
  | append_singleton counters c ih =>
    obtain ⟨before,_,later⟩ := List.pairwise_append.mp increasing
    rw [savedRing_append]
    exact wound_save (ih before) c fun o member => later o member c (by simp)

/-! ### A cut counter save -/

def tornSave (e : Eeprom) (c : UInt64) (k : Nat) : Eeprom :=
  Store.apply e ((eeSaveCounterWrites e c).take k)

def tornCell (e : Eeprom) (c : UInt64) (k : Nat) : Bytes :=
  (counterCell c).take k ++ (ringBytes e (target e)).drop k

theorem ringCells_tornSave (e : Eeprom) (c : UInt64) (k : Nat) :
    ringCells (tornSave e c k) =
      Function.update (ringCells e) (target e) (cellCounter (tornCell e c k)) := by
  rw [tornSave,eeSaveCounterWrites_take,ringCells_eq,
    ringBytes_block e (target e) (counterCell c) (length_counterCell c) k,Function.comp_update]
  rfl

/-- The newest counter is not in the cell the next save goes to. -/
theorem newest_elsewhere (e : Eeprom) (b : UInt64)
    (isBest : (if (eeScanRing e).anyValid then some (eeLoadCounter e) else none) = some b) :
    ∃ j, j ≠ target e ∧ ringCells e j = some b := by
  cases valid : (eeScanRing e).anyValid with
  | false => simp [valid] at isBest
  | true =>
    obtain ⟨i,home,_,value⟩ := (scanned e).place valid
    refine ⟨i,fun same => ?_,value.trans (by simpa [valid,eeLoadCounter] using isBest)⟩
    have bound : i.val < 16 := i.isLt
    have moved := congrArg Fin.val same
    simp only [target,nextCell,valid,if_true,home,eeCounterRingCells] at moved
    omega

/-- Whatever a cut save leaves in its cell, the load is the greater of that and what was loaded before. -/
theorem eeLoadCounter_tornSave (e : Eeprom) (c : UInt64) (k : Nat) :
    eeLoadCounter (tornSave e c k) = max (eeLoadCounter e) ((cellCounter (tornCell e c k)).getD 0) := by
  have newest := (scan_isNewest e).replace (target e) (newest_elsewhere e) (cellCounter (tornCell e c k))
  rw [← ringCells_tornSave] at newest
  rw [eeLoadCounter_of_newest _ _ newest]
  cases valid : (eeScanRing e).anyValid with
  | true => cases cellCounter (tornCell e c k) <;> simp
  | false =>
    have zero : eeLoadCounter e = 0 := ((scanned e).none valid).1
    cases cellCounter (tornCell e c k) <;> simp [zero]

/-- So a cut save stays in range exactly when its cell does not check with a greater counter. -/
theorem tornSave_within_iff (e : Eeprom) (c : UInt64) (k : Nat) (later : eeLoadCounter e < c) :
    (eeLoadCounter e ≤ eeLoadCounter (tornSave e c k) ∧ eeLoadCounter (tornSave e c k) ≤ c) ↔
      ∀ m, cellCounter (tornCell e c k) = some m → m ≤ c := by
  rw [eeLoadCounter_tornSave]
  constructor
  · rintro ⟨_,within⟩ m checks
    rw [checks] at within
    exact (le_max_right _ _).trans within
  · intro bound
    refine ⟨le_max_left _ _,max_le later.le ?_⟩
    cases checks : cellCounter (tornCell e c k) with
    | none => exact UInt64.le_iff_toNat_le.mpr (Nat.zero_le _)
    | some m => exact bound m checks

/-! ### When a cut cell checks -/

theorem cellCounter_some {cell : Bytes} {m : UInt64} (checks : cellCounter cell = some m) :
    loadU64Le cell = m := by
  simp only [cellCounter] at checks
  split at checks
  · cases checks
  · exact Option.some.inj checks

theorem loadU64Le_counterCell (c : UInt64) : loadU64Le (counterCell c) = c :=
  cellCounter_some (cellCounter_counterCell c)

/-- Over an older saved cell a cut one never checks with a greater counter. -/
theorem tornCell_filled {e : Eeprom} {c o : UInt64} (k : Nat) (filled : ringBytes e (target e) = counterCell o)
    (older : o ≤ c) (m : UInt64) (checks : cellCounter (tornCell e c k) = some m) : m ≤ c := by
  rw [tornCell,filled] at checks
  have mixed := loadU64Le_splice_le (counterCell c) (counterCell o) k
    (by rw [length_counterCell,length_counterCell])
    (by rw [loadU64Le_counterCell,loadU64Le_counterCell]; exact older)
  rwa [cellCounter_some checks,loadU64Le_counterCell] at mixed

/-- The counter bytes written before the cut, the rest as a blank cell has them. -/
def padded (c : UInt64) (k : Nat) : Bytes := (toLeBytes c).take k ++ List.replicate (8 - k) 0xFF

theorem length_padded (c : UInt64) (k : Nat) : (padded c k).length = 8 := by
  simp only [padded,List.length_append,List.length_take,toLeBytes_length,List.length_replicate]
  omega

theorem padded_whole (c : UInt64) (k : Nat) (written : 8 ≤ k) : padded c k = toLeBytes c := by
  rw [padded,List.take_of_length_le (by simpa using written),Nat.sub_eq_zero_of_le written]
  simp

theorem take_tornCell {e : Eeprom} (c : UInt64) (k : Nat) (blank : ringBytes e (target e) = blankCell) :
    (tornCell e c k).take 8 = padded c k := by
  have word : (counterCell c).take 8 = toLeBytes c := by
    rw [counterCell,List.take_append_of_le_length (by simp),← toLeBytes_length c,List.take_length]
  rw [tornCell,blank,take_splice _ _ _ _ (by simp [blankCell]),word,blankCell,List.take_replicate,
    List.drop_replicate]
  rfl

/-- A cell cut within the counter keeps the blank check bytes. -/
theorem cellCounter_tornCell {e : Eeprom} (c : UInt64) (k : Nat) (cut : k < 8)
    (blank : ringBytes e (target e) = blankCell) :
    cellCounter (tornCell e c k) =
      if crc16Ccitt (padded c k) = 0xFFFF then some (loadU64Le (padded c k)) else none := by
  have rest (i : Nat) (check : 8 ≤ i) (inside : i < 10) : (tornCell e c k).getD i 0 = 0xFF := by
    have start : ((counterCell c).take k).length = k := by
      rw [List.length_take,length_counterCell,eeCounterRingCellSize]
      omega
    have position : k + (i - k) < eeCounterRingCellSize := by
      rw [eeCounterRingCellSize]
      omega
    rw [tornCell,blank,List.getD_eq_getElem?_getD,List.getElem?_append_right (by omega),start,
      List.getElem?_drop,blankCell,List.getElem?_replicate_of_lt position]
    rfl
  have word := take_tornCell c k blank
  have counter : loadU64Le (tornCell e c k) = loadU64Le (padded c k) := by
    rw [loadU64Le,word,loadU64Le,List.take_of_length_le (length_padded c k).le]
  simp only [cellCounter,rest 8 (by decide) (by decide),rest 9 (by decide) (by decide),word,counter]
  by_cases collides : crc16Ccitt (padded c k) = 0xFFFF
  · rw [if_pos collides,collides]
    rfl
  · rw [if_neg collides,if_pos]
    exact fun same => collides same.symm

/-- Bytes left blank only make the counter greater. -/
theorem padded_greater (c : UInt64) (k : Nat) (different : padded c k ≠ toLeBytes c) :
    c < loadU64Le (padded c k) := by
  have top : loadU64Le (List.replicate 8 0xFF) = UInt64.ofNat (2 ^ 64 - 1) := by decide +kernel
  have above := le_loadU64Le_splice (toLeBytes c) (List.replicate 8 0xFF) k (by simp) (by
    rw [top,UInt64.le_iff_toNat_le]
    have bound := (loadU64Le (toLeBytes c)).toNat_lt
    exact Nat.le_sub_one_of_lt bound)
  rw [List.drop_replicate,loadU64Le_toLeBytes] at above
  refine lt_of_le_of_ne above fun same => different ?_
  exact loadU64Le_inj (length_padded c k) (toLeBytes_length c)
    ((show c = loadU64Le (padded c k) from same).symm.trans (loadU64Le_toLeBytes c).symm)

/-- Over a blank cell a cut counter checks with a greater one by a collision alone. -/
theorem tornCell_blank {e : Eeprom} (c : UInt64) (k : Nat) (blank : ringBytes e (target e) = blankCell) :
    (∀ m, cellCounter (tornCell e c k) = some m → m ≤ c) ↔
      ¬ (padded c k ≠ toLeBytes c ∧ crc16Ccitt (padded c k) = 0xFFFF) := by
  have value (m : UInt64) (checks : cellCounter (tornCell e c k) = some m) :
      m = loadU64Le (padded c k) := by
    rw [← cellCounter_some checks,loadU64Le,take_tornCell c k blank,loadU64Le,
      List.take_of_length_le (length_padded c k).le]
  constructor
  · rintro bound ⟨different,collides⟩
    have cut : k < 8 := by
      by_contra written
      exact different (padded_whole c k (by omega))
    have checks := cellCounter_tornCell c k cut blank
    rw [if_pos collides] at checks
    exact absurd (bound _ checks) (not_le.mpr (padded_greater c k different))
  · intro safe m checks
    by_cases same : padded c k = toLeBytes c
    · rw [value m checks,same,loadU64Le_toLeBytes]
    · have cut : k < 8 := by
        by_contra written
        exact same (padded_whole c k (by omega))
      rw [cellCounter_tornCell c k cut blank,if_neg fun collides => safe ⟨same,collides⟩] at checks
      cases checks

/-- A save cut over a ring built by increasing saves: the next boot reads a counter between the last one
and the new one, unless the ring is still in its first round and the padded counter collides. -/
theorem torn_save_iff (e : Eeprom) (key : Key) (counters : List UInt64) (c : UInt64) (k : Nat)
    (increasing : counters.Pairwise (· < ·)) (later : eeLoadCounter (savedRing e key counters) < c) :
    (eeLoadCounter (savedRing e key counters) ≤ eeLoadCounter (tornSave (savedRing e key counters) c k) ∧
        eeLoadCounter (tornSave (savedRing e key counters) c k) ≤ c) ↔
      ¬ (counters.length < eeCounterRingCells ∧ padded c k ≠ toLeBytes c ∧
        crc16Ccitt (padded c k) = 0xFFFF) := by
  have wound := wound_run e key counters increasing
  rw [tornSave_within_iff _ c k later]
  rcases Nat.lt_or_ge counters.length eeCounterRingCells with first | round
  · have home := wound.next
    rw [Nat.mod_eq_of_lt first] at home
    rw [tornCell_blank c k (wound.blank _ home.ge)]
    simp only [first,true_and]
  · have filled := (target (savedRing e key counters)).isLt.trans_le round
    obtain ⟨o,_,bytes⟩ := wound.filled _ filled
    have held : ringCells (savedRing e key counters) (target (savedRing e key counters)) = some o := by
      rw [ringCells_eq,Function.comp_apply,bytes,cellCounter_counterCell]
    have older : o ≤ c := ((scanned _).bound _ (Fin.isLt _) o held).trans later.le
    simp only [not_lt.mpr round,false_and,not_false_eq_true,iff_true]
    exact fun m checks => tornCell_filled k bytes older m checks

theorem torn_save_third : (5 : UInt64) ≤ eeLoadCounter (tornSave
    (savedRing (fun _ => 0xFF) ⟨List.replicate 16 0xA5,rfl⟩ [3,5]) 7 3) ∧
    eeLoadCounter (tornSave (savedRing (fun _ => 0xFF) ⟨List.replicate 16 0xA5,rfl⟩ [3,5]) 7 3) ≤ 7 := by
  have first : eeLoadCounter (savedRing (fun _ => 0xFF) ⟨List.replicate 16 0xA5,rfl⟩ [3]) = 3 :=
    eeLoadCounter_savedRing_append _ _ [] 3 (by rw [savedRing,List.foldl_nil,eeLoadCounter_savePairing]; decide)
  have loaded : eeLoadCounter (savedRing (fun _ => 0xFF) ⟨List.replicate 16 0xA5,rfl⟩ [3,5]) = 5 :=
    eeLoadCounter_savedRing_append _ _ [3] 5 (by rw [first]; decide)
  have within := (torn_save_iff (fun _ => 0xFF) ⟨List.replicate 16 0xA5,rfl⟩ [3,5] 7 3 (by decide)
    (by rw [loaded]; decide)).mpr (by decide +kernel)
  rwa [loaded] at within

/-- Two bytes of the first counter, and the blank cell around them checks: the next boot reads a counter
above the ceiling. -/
theorem torn_first_save :
    eeLoadCounter (savedRing (fun _ => 0xFF) ⟨List.replicate 16 0xA5,rfl⟩ []) < 44358 ∧
      (44358 : UInt64) < counterCeiling ∧ counterCeiling ≤ eeLoadCounter (tornSave
        (savedRing (fun _ => 0xFF) ⟨List.replicate 16 0xA5,rfl⟩ []) 44358 2) := by
  decide +kernel

/-! ### A cut pairing or wipe -/

/-- What a pairing writes from address 0 on: marker, version, key. -/
def marker : Bytes := eeMagic ++ [eeFormatVersion]

def tornPairing (e : Eeprom) (key : Key) (k : Nat) : Eeprom :=
  Store.apply e ((eeSavePairingWrites key).take k)

theorem tornPairing_eq (e : Eeprom) (key : Key) (k : Nat) : tornPairing e key k =
    Store.apply (Store.apply e (Store.block eeMagicAddr ((marker ++ key.bytes).take k)))
      (Store.block eeCounterRingAddr
        ((List.replicate (eeEndAddr - eeCounterRingAddr) 0xFF).take (k - 25))) := by
  have record : eeSavePairingWrites key = Store.block eeMagicAddr (marker ++ key.bytes) ++
      Store.block eeCounterRingAddr (List.replicate (eeEndAddr - eeCounterRingAddr) 0xFF) := by
    rw [Store.block_append,marker,Store.block_append]
    rfl
  have long : (Store.block eeMagicAddr (marker ++ key.bytes)).length = 25 := by
    rw [Store.length_block,List.length_append,key.size]
    rfl
  rw [tornPairing,record,List.take_append,long,Store.apply_append,Store.take_block,Store.take_block]

/-- Below the ring: the record up to the cut, then the old bytes. -/
theorem tornPairing_record (e : Eeprom) (key : Key) (k i : Nat) (bound : i < (marker ++ key.bytes).length) :
    tornPairing e key k i = if i < k then (marker ++ key.bytes)[i] else e i := by
  have low : i < eeCounterRingAddr := by
    rw [List.length_append,key.size] at bound
    exact bound.trans (by decide)
  have here := Store.block_take_apply e eeMagicAddr (marker ++ key.bytes) k i bound
  rw [eeMagicAddr,Nat.zero_add] at here
  rw [tornPairing_eq,Store.block_outside _ _ _ _ (Or.inl low),eeMagicAddr,here]

theorem tornPairing_ring (e : Eeprom) (key : Key) (k j : Nat) (inside : j < eeEndAddr - eeCounterRingAddr) :
    tornPairing e key k (eeCounterRingAddr + j) =
      if j < k - 25 then 0xFF else e (eeCounterRingAddr + j) := by
  rw [tornPairing_eq,Store.block_take_apply _ _ _ _ _ (by simpa using inside),List.getElem_replicate,
    Store.block_outside]
  right
  simp only [List.length_take,List.length_append,key.size,marker,eeMagicAddr,eeCounterRingAddr]
  have eight : eeMagic.length = 8 := rfl
  simp only [eight,List.length_singleton]
  omega

/-- A ring cell: blank up to the cut, then the old bytes. -/
theorem ringBytes_tornPairing (e : Eeprom) (key : Key) (k : Nat) (i : Fin eeCounterRingCells) :
    ringBytes (tornPairing e key k) i =
      blankCell.take (k - 25 - i * eeCounterRingCellSize) ++
        (ringBytes e i).drop (k - 25 - i * eeCounterRingCellSize) := by
  have long : blankCell.length = eeCounterRingCellSize := by simp [blankCell]
  have cut := Store.read_block_take e (cellAddr i) blankCell (k - 25 - i * eeCounterRingCellSize)
  rw [long] at cut
  rw [ringBytes,ringBytes,← cut]
  apply Store.read_congr
  intro j bound
  have cells : i.val < 16 := i.isLt
  have position : cellAddr i + j = eeCounterRingAddr + (i * eeCounterRingCellSize + j) := by
    rw [cellAddr,Nat.add_assoc]
  have inside : i * eeCounterRingCellSize + j < eeEndAddr - eeCounterRingAddr := by
    simp only [eeEndAddr,eeCounterRingAddr,eeCounterRingCells,eeCounterRingCellSize] at bound ⊢
    omega
  have here : i * eeCounterRingCellSize + j < k - 25 ↔ j < k - 25 - i * eeCounterRingCellSize := by omega
  rw [Store.block_take_apply _ _ _ _ _ (long ▸ bound),position,tornPairing_ring _ _ _ _ inside]
  simp only [here,blankCell,List.getElem_replicate]

/-! ### What the next boot reads -/

theorem eeIsPaired_iff (e : Eeprom) :
    eeIsPaired e = true ↔ ∀ i, (bound : i < marker.length) → e i = marker[i] := by
  have whole := Store.read_eq_iff e eeMagicAddr marker
  have parts : Store.read e eeMagicAddr marker.length =
      Store.read e eeMagicAddr eeMagic.length ++ [e eeFmtAddr] := Store.read_add _ _ _ 1
  have shifted : (∀ i, (bound : i < marker.length) → e (eeMagicAddr + i) = marker[i]) ↔
      ∀ i, (bound : i < marker.length) → e i = marker[i] := by
    simp only [eeMagicAddr,Nat.zero_add]
  rw [← shifted,← whole,parts,eeIsPaired,Bool.and_eq_true,beq_iff_eq,beq_iff_eq,marker]
  constructor
  · rintro ⟨magic,version⟩
    rw [magic,version]
  · intro same
    obtain ⟨magic,version⟩ := List.append_inj same (Store.length_read _ _ _)
    exact ⟨magic,List.head_eq_of_cons_eq version⟩

theorem eeLoadKey_iff (e : Eeprom) (key : Key) :
    eeLoadKey e = some key ↔ eeIsPaired e = true ∧ Store.read e eeKeyAddr eeKeyLen = key.bytes := by
  rw [eeLoadKey]
  constructor
  · intro loaded
    split at loaded
    · rename_i paired
      exact ⟨paired,congrArg Key.bytes (Option.some.inj loaded)⟩
    · cases loaded
  · rintro ⟨paired,same⟩
    rw [if_pos paired]
    exact congrArg some (Key.ext same)

theorem eeLoadCounter_zero_iff (e : Eeprom) :
    eeLoadCounter e = 0 ↔ ∀ i m, ringCells e i = some m → m = 0 := by
  constructor
  · intro zero i m holds
    have bound := (scanned e).bound i i.isLt m holds
    exact le_antisymm (bound.trans zero.le) (UInt64.le_iff_toNat_le.mpr (Nat.zero_le _))
  · intro silent
    cases valid : (eeScanRing e).anyValid with
    | false => exact ((scanned e).none valid).1
    | true =>
      obtain ⟨i,_,_,value⟩ := (scanned e).place valid
      exact silent i _ value

/-- A cut pairing is taken for one exactly when every marker byte it did not reach was there before. -/
theorem eeIsPaired_tornPairing (e : Eeprom) (key : Key) (k : Nat) : eeIsPaired (tornPairing e key k) = true ↔
    ∀ i, (bound : i < marker.length) → k ≤ i → e i = marker[i] := by
  rw [eeIsPaired_iff]
  refine forall_congr' fun i => forall_congr' fun bound => ?_
  have within : i < (marker ++ key.bytes).length := by
    rw [List.length_append]
    omega
  rw [tornPairing_record e key k i within,List.getElem_append_left bound]
  by_cases written : i < k
  · simp [written]
  · simp only [written,if_false,not_lt.mp written,true_imp_iff]

theorem eeLoadKey_tornPairing (e : Eeprom) (key : Key) (k : Nat) (paired : eeIsPaired (tornPairing e key k) = true) :
    eeLoadKey (tornPairing e key k) = some key ↔
      ∀ i, (bound : i < key.bytes.length) → k ≤ eeKeyAddr + i → e (eeKeyAddr + i) = key.bytes[i] := by
  have whole := Store.read_eq_iff (tornPairing e key k) eeKeyAddr key.bytes
  have long : eeKeyLen = key.bytes.length := key.size.symm
  simp only [eeLoadKey_iff,paired,true_and]
  rw [long,whole]
  refine forall_congr' fun i => forall_congr' fun bound => ?_
  have nine : eeKeyAddr = marker.length := rfl
  have within : eeKeyAddr + i < (marker ++ key.bytes).length := by
    rw [List.length_append,nine]
    omega
  rw [tornPairing_record e key k _ within,List.getElem_append_right (by omega)]
  simp only [nine,Nat.add_sub_cancel_left]
  by_cases written : marker.length + i < k
  · simp [written]
  · simp only [written,if_false,not_lt.mp written,true_imp_iff]

/-- The cut comes before a marker byte that was not there yet. -/
def MarkerMissing (e : Eeprom) (k : Nat) : Prop :=
  ∃ i, ∃ bound : i < marker.length, k ≤ i ∧ e i ≠ marker[i]

/-- The key bytes the cut left out were already those of the key. -/
def KeyThere (e : Eeprom) (key : Key) (k : Nat) : Prop :=
  ∀ i, (bound : i < key.bytes.length) → k ≤ eeKeyAddr + i → e (eeKeyAddr + i) = key.bytes[i]

/-- No cell, blank up to the cut and old after it, checks with a counter above zero. -/
def RingSilent (e : Eeprom) (k : Nat) : Prop :=
  ∀ (i : Fin eeCounterRingCells) (m : UInt64),
    cellCounter (blankCell.take (k - 25 - i * eeCounterRingCellSize) ++
      (ringBytes e i).drop (k - 25 - i * eeCounterRingCellSize)) = some m → m = 0

/-- A pairing commits in one piece only where the old contents fill in for what the cut left out. A wipe
always does. -/
theorem torn_pairing_iff (e : Eeprom) (key : Key) (k : Nat) :
    ((eeIsPaired (tornPairing e key k) = false ∨
        (eeLoadKey (tornPairing e key k) = some key ∧ eeLoadCounter (tornPairing e key k) = 0)) ↔
      (MarkerMissing e k ∨ (KeyThere e key k ∧ RingSilent e k))) ∧
    eeIsPaired (Store.apply e (eeWipeWrites.take (k + 1))) = false := by
  constructor
  · have missing : MarkerMissing e k ↔ eeIsPaired (tornPairing e key k) = false := by
      rw [← Bool.not_eq_true,eeIsPaired_tornPairing,MarkerMissing]
      simp only [not_forall,exists_prop]
    have silent : eeLoadCounter (tornPairing e key k) = 0 ↔ RingSilent e k := by
      rw [eeLoadCounter_zero_iff]
      simp only [ringCells_eq,Function.comp_apply,ringBytes_tornPairing,RingSilent]
    rw [missing,silent]
    cases paired : eeIsPaired (tornPairing e key k) with
    | false => simp
    | true => rw [eeLoadKey_tornPairing e key k paired,KeyThere]
  · apply eeIsPaired_spoiled
    have first : 0 < ((List.replicate eeEndAddr (0xFF : UInt8)).take (k + 1)).length := by
      rw [List.length_take,List.length_replicate]
      exact Nat.lt_min.mpr ⟨Nat.succ_pos k,by decide⟩
    have written := Store.block_inside e 0 _ 0 first
    rwa [List.getElem_take,List.getElem_replicate,← Store.take_block] at written

/-- The marker is written before the key, so a cut between them pairs a blank Nano with no one's key. -/
theorem pairing_without_key :
    eeIsPaired (fun _ => 0xFF) = false ∧
      eeIsPaired (tornPairing (fun _ => 0xFF) ⟨List.replicate 16 0xA5,rfl⟩ 9) = true ∧
        eeLoadKey (tornPairing (fun _ => 0xFF) ⟨List.replicate 16 0xA5,rfl⟩ 9) ≠
          some ⟨List.replicate 16 0xA5,rfl⟩ := by
  decide +kernel

end R503.Firmware
