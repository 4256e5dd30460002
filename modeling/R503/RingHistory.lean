import R503.TornWrites

/-! The counter ring over a run of whole saves (eeprom.h): it is written in turn, although the
next cell is looked up in the ring at every save. -/
namespace R503.Firmware

instance : NeZero eeCounterRingCells := ⟨by decide⟩

def savesTo (e : Eeprom) (key : Key) (counters : List UInt64) (cell : Fin eeCounterRingCells) : Nat :=
  counters.length.count fun i => target (savedRing e key (counters.take i)) = cell

section
variable {counters : List UInt64} (increasing : counters.Pairwise (· < ·)) (e : Eeprom) (key : Key)
include increasing

theorem target_savedRing :
    target (savedRing e key counters) = Fin.ofNat eeCounterRingCells counters.length :=
  Fin.ext (wound_run e key counters increasing).next

theorem target_take (i : Nat) (within : i ≤ counters.length) :
    target (savedRing e key (counters.take i)) = Fin.ofNat eeCounterRingCells i := by
  rw [target_savedRing (increasing.sublist (List.take_sublist i counters)),List.length_take_of_le within]

/-- The ring is the one written in turn. -/
theorem ringCells_savedRing :
    ringCells (savedRing e key counters) = TurnRing.cells eeCounterRingCells counters := by
  induction counters using List.reverseRecOn with
  | nil => exact funext (ringCells_savePairing e key)
  | append_singleton counters c ih =>
    have before := (List.pairwise_append.mp increasing).1
    rw [savedRing_append,ringCells_saveCounter,target_savedRing before,ih before,TurnRing.cells_append]

theorem getLast_newest :
    MaxRing.IsNewest (ringCells (savedRing e key counters)) counters.getLast? where
  bound i c held := by
    rw [ringCells_savedRing increasing] at held
    obtain ⟨j,there,_,_⟩ := TurnRing.cells_held counters i c held
    obtain ⟨within,rfl⟩ := List.getElem?_eq_some_iff.mp there
    have nonempty : counters ≠ [] := List.ne_nil_of_length_pos (by omega)
    refine ⟨counters.getLast nonempty,List.getLast?_eq_some_getLast nonempty,?_⟩
    rw [List.getLast_eq_getElem]
    rcases Nat.lt_or_ge j (counters.length - 1) with earlier | last
    · exact (List.pairwise_iff_getElem.mp increasing j _ within (by omega) earlier).le
    · exact le_of_eq (by congr; omega)
  held b last := by
    rw [List.getLast?_eq_getElem?] at last
    rw [ringCells_savedRing increasing]
    have positive := NeZero.pos eeCounterRingCells
    exact ⟨_,TurnRing.cells_recent counters _ b last (by omega)⟩

/-- One save of the run: the ten bytes of the cell whose turn it is, and no other byte. -/
theorem save_in_turn (i : Nat) (c : UInt64) (there : counters[i]? = some c) :
    eeSaveCounterWrites (savedRing e key (counters.take i)) c =
        Store.block (cellAddr (i % eeCounterRingCells)) (counterCell c) ∧
      savedRing e key (counters.take (i + 1)) =
        Store.apply (savedRing e key (counters.take i)) (Store.block (cellAddr (i % eeCounterRingCells)) (counterCell c)) := by
  have within := (List.getElem?_eq_some_iff.mp there).1
  have home := congrArg Fin.val (target_take increasing e key i within.le)
  have writes : eeSaveCounterWrites (savedRing e key (counters.take i)) c =
      Store.block (cellAddr (i % eeCounterRingCells)) (counterCell c) := by
    rw [eeSaveCounterWrites]
    exact congrArg (fun n => Store.block (cellAddr n) (counterCell c)) home
  refine ⟨writes,?_⟩
  rw [List.take_add_one,there,Option.toList_some,savedRing_append,eeSaveCounter,writes]

theorem savesTo_even (a b : Fin eeCounterRingCells) :
    savesTo e key counters a ≤ savesTo e key counters b + 1 := by
  have turns (cell : Fin eeCounterRingCells) : savesTo e key counters cell =
      counters.length.count fun i => Fin.ofNat eeCounterRingCells i = cell := by
    rw [savesTo,Nat.count_eq_card_filter_range,Nat.count_eq_card_filter_range]
    congr 1
    refine Finset.filter_congr fun i member => ?_
    rw [target_take increasing e key i (Finset.mem_range.mp member).le]
  rw [turns,turns]
  exact TurnRing.writes_even _ a b

end

/-- Over increasing saves after a pairing: the saves take turns, the ring holds the last sixteen
counters, each in its cell, and the load returns the last one. -/
theorem counter_ring_represents (e : Eeprom) (key : Key) (counters : List UInt64)
    (increasing : counters.Pairwise (· < ·)) :
    (∀ i c, counters[i]? = some c →
      eeSaveCounterWrites (savedRing e key (counters.take i)) c =
          Store.block (cellAddr (i % eeCounterRingCells)) (counterCell c) ∧
        ∀ x, x < cellAddr (i % eeCounterRingCells) ∨ cellAddr (i % eeCounterRingCells) + eeCounterRingCellSize ≤ x →
          savedRing e key (counters.take (i + 1)) x = savedRing e key (counters.take i) x) ∧
    (∀ a b, savesTo e key counters a ≤ savesTo e key counters b + 1) ∧
    (∀ c, (∃ i, ringCells (savedRing e key counters) i = some c) ↔
      c ∈ counters.drop (counters.length - eeCounterRingCells)) ∧
    (∀ j c, counters[j]? = some c → counters.length ≤ j + eeCounterRingCells →
      ringCells (savedRing e key counters) (Fin.ofNat eeCounterRingCells j) = some c) ∧
    eeLoadCounter (savedRing e key counters) = counters.getLast?.getD 0 := by
  refine ⟨fun i c there => ?_,savesTo_even increasing e key,fun c => ?_,fun j c there recent => ?_,?_⟩
  · obtain ⟨writes,after⟩ := save_in_turn increasing e key i c there
    refine ⟨writes,fun x outside => ?_⟩
    rw [after]
    exact Store.block_outside _ _ _ _ (by rwa [length_counterCell])
  · rw [ringCells_savedRing increasing]
    exact TurnRing.mem_cells_iff counters c
  · rw [ringCells_savedRing increasing]
    exact TurnRing.cells_recent counters j c there recent
  · exact eeLoadCounter_of_newest _ _ (getLast_newest increasing e key)

theorem counter_ring_two_saves :
    [(3 : UInt64),5].Pairwise (· < ·) ∧
      eeLoadCounter (savedRing (fun _ => 0) ⟨List.replicate 16 0xA5,rfl⟩ [3,5]) = 5 :=
  ⟨by decide,(counter_ring_represents (fun _ => 0) ⟨List.replicate 16 0xA5,rfl⟩ [3,5] (by decide)).2.2.2.2⟩

end R503.Firmware
