import Mathlib.Logic.Function.Basic
import Mathlib.Data.List.Basic
import Mathlib.Order.Defs.LinearOrder
import Mathlib.Order.Basic
import Mathlib.Data.Int.CardIntervalMod

/-! Storage written one cell at a time, and a ring whose meaning is its greatest valid
value. Neither knows how a value is encoded or checked. -/
namespace Store

def apply (e : Nat → β) (writes : List (Nat × β)) : Nat → β :=
  writes.foldl (fun e w => Function.update e w.1 w.2) e

def block (address : Nat) : List β → List (Nat × β)
  | [] => []
  | b :: data => (address,b) :: block (address + 1) data

def read (e : Nat → β) (address length : Nat) : List β :=
  (List.range length).map fun i => e (address + i)

@[simp] theorem apply_nil (e : Nat → β) : apply e [] = e := rfl

@[simp] theorem apply_cons (e : Nat → β) (w : Nat × β) (writes : List (Nat × β)) :
    apply e (w :: writes) = apply (Function.update e w.1 w.2) writes := rfl

theorem apply_append (e : Nat → β) (first second : List (Nat × β)) :
    apply e (first ++ second) = apply (apply e first) second := by
  simp [apply]

/-- An address no write names keeps its contents. -/
theorem apply_frame (e : Nat → β) (writes : List (Nat × β)) (x : Nat)
    (away : ∀ w ∈ writes, w.1 ≠ x) : apply e writes x = e x := by
  induction writes generalizing e with
  | nil => rfl
  | cons w writes ih =>
    have first := away w (by simp)
    rw [apply_cons,ih _ fun v hv => away v (List.mem_cons_of_mem _ hv),
      Function.update_of_ne first.symm]

theorem mem_block (address : Nat) (data : List β) (w : Nat × β) (member : w ∈ block address data) :
    address ≤ w.1 ∧ w.1 < address + data.length := by
  induction data generalizing address with
  | nil => cases member
  | cons b data ih =>
    rcases List.mem_cons.mp member with rfl | rest
    · simp
    · have := ih _ rest
      simp only [List.length_cons]
      omega

theorem block_outside (e : Nat → β) (address : Nat) (data : List β) (x : Nat)
    (outside : x < address ∨ address + data.length ≤ x) : apply e (block address data) x = e x := by
  apply apply_frame
  intro w member
  have := mem_block address data w member
  omega

theorem block_inside (e : Nat → β) (address : Nat) (data : List β) (i : Nat) (bound : i < data.length) :
    apply e (block address data) (address + i) = data[i] := by
  induction data generalizing e address i with
  | nil => cases bound
  | cons b data ih =>
    rw [block,apply_cons]
    cases i with
    | zero =>
      rw [block_outside _ _ _ _ (Or.inl (by omega))]
      simp
    | succ i =>
      have := ih (Function.update e address b) (address + 1) i (by simpa using bound)
      simpa [Nat.add_assoc,Nat.add_comm 1] using this

@[simp] theorem length_read (e : Nat → β) (address length : Nat) : (read e address length).length = length := by
  simp [read]

theorem read_add (e : Nat → β) (address first second : Nat) :
    read e address (first + second) = read e address first ++ read e (address + first) second := by
  simp [read,List.range_add,Nat.add_assoc]

theorem read_congr (e f : Nat → β) (address length : Nat)
    (same : ∀ i, i < length → e (address + i) = f (address + i)) :
    read e address length = read f address length :=
  List.map_congr_left fun i member => same i (List.mem_range.mp member)

theorem block_append (address : Nat) (first second : List β) :
    block address (first ++ second) = block address first ++ block (address + first.length) second := by
  induction first generalizing address with
  | nil => rfl
  | cons b first ih =>
    rw [List.cons_append,block,ih,block,List.cons_append,List.length_cons,Nat.add_assoc,Nat.add_comm 1]

theorem read_eq_iff (e : Nat → β) (address : Nat) (data : List β) :
    read e address data.length = data ↔ ∀ i, (bound : i < data.length) → e (address + i) = data[i] := by
  constructor
  · intro same i bound
    have here := List.getElem_of_eq same (by simpa using bound)
    simpa only [read,List.getElem_map,List.getElem_range] using here
  · intro each
    apply List.ext_getElem (by simp)
    intro i _ bound
    simpa only [read,List.getElem_map,List.getElem_range] using each i bound

/-- One cell of a block cut short. -/
theorem block_take_apply (e : Nat → β) (address : Nat) (data : List β) (k i : Nat) (bound : i < data.length) :
    apply e (block address (data.take k)) (address + i) = if i < k then data[i] else e (address + i) := by
  by_cases written : i < k
  · have inside : i < (data.take k).length := by
      rw [List.length_take]
      omega
    rw [if_pos written,block_inside _ _ _ _ inside,List.getElem_take]
  · rw [if_neg written,block_outside]
    rw [List.length_take]
    omega

/-- A block is read back as written. -/
theorem read_block (e : Nat → β) (address : Nat) (data : List β) :
    read (apply e (block address data)) address data.length = data := by
  apply List.ext_getElem
  · simp
  · intro i _ bound
    simp [read,block_inside e address data i bound]

/-- The first writes of a block are the block of the first cells. -/
theorem take_block (address : Nat) (data : List β) (k : Nat) :
    (block address data).take k = block address (data.take k) := by
  induction data generalizing address k with
  | nil => simp [block]
  | cons b data ih =>
    cases k with
    | zero => rfl
    | succ k => rw [block,List.take_succ_cons,ih,List.take_succ_cons,block]

@[simp] theorem length_block (address : Nat) (data : List β) : (block address data).length = data.length := by
  induction data generalizing address with
  | nil => rfl
  | cons b data ih => simp [block,ih]

/-- A block cut short leaves its first cells before the rest of the old ones. -/
theorem read_block_take (e : Nat → β) (address : Nat) (data : List β) (k : Nat) :
    read (apply e (block address (data.take k))) address data.length =
      data.take k ++ (read e address data.length).drop k := by
  apply List.ext_getElem
  · simp only [length_read,List.length_append,List.length_take,List.length_drop]
    omega
  intro i bound _
  rw [length_read] at bound
  simp only [read,List.getElem_map,List.getElem_range,block_take_apply e address data k i bound]
  split
  · rename_i written
    rw [List.getElem_append_left (by rw [List.length_take]; omega),List.getElem_take]
  · rename_i kept
    rw [List.getElem_append_right (by rw [List.length_take]; omega)]
    simp only [List.getElem_drop,List.getElem_map,List.getElem_range,List.length_take]
    congr 1
    omega

end Store

namespace MaxRing

variable {ι α : Type*} [LinearOrder α]

/-- `best` is the greatest value of the valid cells, or absent when no cell is valid. -/
structure IsNewest (cells : ι → Option α) (best : Option α) : Prop where
  bound : ∀ i c, cells i = some c → ∃ b, best = some b ∧ c ≤ b
  held : ∀ b, best = some b → ∃ i, cells i = some b

theorem IsNewest.unique {cells : ι → Option α} {a b : Option α} (first : IsNewest cells a)
    (second : IsNewest cells b) : a = b := by
  cases a with
  | none =>
    cases b with
    | none => rfl
    | some y =>
      obtain ⟨i,hi⟩ := second.held y rfl
      obtain ⟨_,impossible,_⟩ := first.bound i y hi
      cases impossible
  | some x =>
    obtain ⟨i,hi⟩ := first.held x rfl
    obtain ⟨y,rfl,le⟩ := second.bound i x hi
    obtain ⟨j,hj⟩ := second.held y rfl
    obtain ⟨z,hz,ge⟩ := first.bound j y hj
    obtain rfl := Option.some.inj hz
    rw [le_antisymm le ge]

theorem IsNewest.blank {cells : ι → Option α} (blank : ∀ i, cells i = none) : IsNewest cells none where
  bound i c held := by simp [blank i] at held
  held _ absent := by cases absent

variable [DecidableEq ι]

/-- Writing a greater value makes it the newest, whichever cell it replaces. -/
theorem IsNewest.save {cells : ι → Option α} {best : Option α} (newest : IsNewest cells best)
    (i : ι) (c : α) (greater : ∀ b, best = some b → b < c) :
    IsNewest (Function.update cells i (some c)) (some c) where
  bound j d held := by
    refine ⟨c,rfl,?_⟩
    by_cases same : j = i
    · subst j
      rw [Function.update_self] at held
      exact (Option.some.inj held).ge
    · rw [Function.update_of_ne same] at held
      obtain ⟨b,isBest,le⟩ := newest.bound j d held
      exact le.trans (greater b isBest).le
  held b isBest := ⟨i,by rw [Function.update_self,isBest]⟩

/-- Another cell holds the newest value, so it survives whatever replaces this one. -/
theorem IsNewest.replace {cells : ι → Option α} {best : Option α} (newest : IsNewest cells best) (i : ι)
    (kept : ∀ b, best = some b → ∃ j, j ≠ i ∧ cells j = some b) (new : Option α) :
    IsNewest (Function.update cells i new) (Option.merge max best new) where
  bound j d held := by
    by_cases same : j = i
    · subst j
      rw [Function.update_self] at held
      subst new
      cases best with
      | none => exact ⟨d,rfl,le_rfl⟩
      | some b => exact ⟨max b d,rfl,le_max_right b d⟩
    · rw [Function.update_of_ne same] at held
      obtain ⟨b,rfl,le⟩ := newest.bound j d held
      cases new with
      | none => exact ⟨b,rfl,le⟩
      | some c => exact ⟨max b c,rfl,le.trans (le_max_left b c)⟩
  held b isBest := by
    have old : best = some b → ∃ j, Function.update cells i new j = some b := by
      intro given
      obtain ⟨j,other,holds⟩ := kept b given
      exact ⟨j,by rw [Function.update_of_ne other,holds]⟩
    have fresh : new = some b → ∃ j, Function.update cells i new j = some b :=
      fun given => ⟨i,by rw [Function.update_self,given]⟩
    cases best with
    | none =>
      cases new with
      | none => cases isBest
      | some c => exact fresh isBest
    | some a =>
      cases new with
      | none => exact old isBest
      | some c =>
        rcases le_total c a with first | second
        · exact old (by rw [← Option.some.inj isBest,max_eq_left first])
        · exact fresh (by rw [← Option.some.inj isBest,max_eq_right second])

end MaxRing

/-! Values written in turn to a fixed number of cells. -/
namespace TurnRing

variable {α : Type*} {m : Nat} [NeZero m]

def cells (m : Nat) [NeZero m] (values : List α) : Fin m → Option α :=
  values.zipIdx.foldl (fun cells (v,i) => Function.update cells (Fin.ofNat m i) (some v)) fun _ => none

theorem cells_append (values : List α) (v : α) :
    cells m (values ++ [v]) = Function.update (cells m values) (Fin.ofNat m values.length) (some v) := by
  simp [cells,List.zipIdx_append]

/-- Fewer than `m` writes lie between two writes, so they go to different cells. -/
theorem ofNat_ne {i j : Nat} (before : i < j) (near : j < i + m) : Fin.ofNat m i ≠ Fin.ofNat m j := by
  intro same
  have residues : i % m = j % m := congrArg Fin.val same
  have period : m ∣ j - i := (Nat.modEq_iff_dvd' before.le).mp residues
  exact absurd (Nat.le_of_dvd (by omega) period) (by omega)

/-- Each of the last `m` values is in its cell. -/
theorem cells_recent (values : List α) (j : Nat) (v : α) (there : values[j]? = some v)
    (recent : values.length ≤ j + m) : cells m values (Fin.ofNat m j) = some v := by
  induction values using List.reverseRecOn with
  | nil => cases there
  | append_singleton values w ih =>
    rw [List.length_append,List.length_singleton] at recent
    have within := (List.getElem?_eq_some_iff.mp there).1
    rw [List.length_append,List.length_singleton] at within
    rw [cells_append]
    rcases Nat.lt_succ_iff_lt_or_eq.mp within with earlier | rfl
    · rw [Function.update_of_ne (ofNat_ne earlier (by omega))]
      exact ih (by rwa [List.getElem?_append_left earlier] at there) (by omega)
    · rw [List.getElem?_concat_length] at there
      rw [Function.update_self,there]

/-- A cell holds a value of the last `m` and nothing else. -/
theorem cells_held (values : List α) (i : Fin m) (v : α) (held : cells m values i = some v) :
    ∃ j, values[j]? = some v ∧ values.length ≤ j + m ∧ i = Fin.ofNat m j := by
  induction values using List.reverseRecOn with
  | nil => cases held
  | append_singleton values w ih =>
    rw [cells_append] at held
    by_cases last : i = Fin.ofNat m values.length
    · rw [last,Function.update_self] at held
      exact ⟨values.length,by rw [List.getElem?_concat_length,held],by
        have positive := NeZero.pos m
        rw [List.length_append,List.length_singleton]
        omega,last⟩
    · rw [Function.update_of_ne last] at held
      obtain ⟨j,there,recent,home⟩ := ih held
      have within := (List.getElem?_eq_some_iff.mp there).1
      refine ⟨j,by rwa [List.getElem?_append_left within],?_,home⟩
      -- a value `m` places back is in the cell just written
      have other : values.length ≠ j + m := by
        intro same
        apply last
        rw [home,same]
        exact Fin.ext (Nat.add_mod_right j m).symm
      rw [List.length_append,List.length_singleton]
      omega

theorem mem_cells_iff (values : List α) (v : α) :
    (∃ i, cells m values i = some v) ↔ v ∈ values.drop (values.length - m) := by
  rw [List.mem_iff_getElem?]
  constructor
  · rintro ⟨i,held⟩
    obtain ⟨j,there,recent,_⟩ := cells_held values i v held
    refine ⟨j - (values.length - m),?_⟩
    rw [List.getElem?_drop,Nat.add_sub_cancel' (by omega),there]
  · rintro ⟨j,there⟩
    rw [List.getElem?_drop] at there
    exact ⟨_,cells_recent values _ v there (by omega)⟩

/-- The writes are spread over the cells to within one. -/
theorem writes_even (n : Nat) (i j : Fin m) :
    n.count (fun k => Fin.ofNat m k = i) ≤ n.count (fun k => Fin.ofNat m k = j) + 1 := by
  have each (c : Fin m) : n.count (fun k => Fin.ofNat m k = c) = n / m + if c.val % m < n % m then 1 else 0 := by
    rw [← Nat.count_modEq_card n (NeZero.pos m)]
    congr 1
    funext k
    rw [Nat.ModEq,Nat.mod_eq_of_lt c.isLt,Fin.ext_iff]
    rfl
  rw [each,each]
  split <;> split <;> omega

end TurnRing
