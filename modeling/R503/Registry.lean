import Mathlib.Data.List.AList
import R503.RustText

/-! The registry of enrolled fingers (storage.rs), as it stands in memory. -/
namespace R503.Fprint

open Text

/-- `StorageInner` without its path. -/
structure Storage where
  capacity : UInt16
  users : AList fun _ : Bytes => AList fun _ : Bytes => UInt8

namespace Storage

variable (storage : Storage) (username finger : Bytes)

def getSlot : Option UInt8 := (storage.users.lookup username).bind (·.lookup finger)

/-- The entries of `get_user_slots`, in some order: the map has none of its own. -/
def getUserSlots : List (Bytes × UInt8) :=
  match storage.users.lookup username with
  | none => []
  | some fingers => fingers.entries.map fun row => (row.1,row.2)

def used : List UInt8 := storage.users.entries.flatMap fun user => user.2.entries.map (·.2)

/-- The lowest unused slot in [0, capacity). -/
def allocateSlot : Option UInt8 :=
  ((List.range (min storage.capacity.toNat (2 ^ 8))).map UInt8.ofNat).find? fun slot => slot ∉ storage.used

/-- The change `set_slot` makes under the write lock. -/
def setSlot (slot : UInt8) : Storage :=
  { storage with
    users := storage.users.insert username (((storage.users.lookup username).getD ∅).insert finger slot) }

def removeFinger : Storage :=
  match storage.users.lookup username with
  | none => storage
  | some fingers =>
    if (fingers.erase finger).entries = [] then { storage with users := storage.users.erase username }
    else { storage with users := storage.users.insert username (fingers.erase finger) }

variable {storage username finger}

theorem mem_getUserSlots {slot : UInt8} :
    (finger,slot) ∈ storage.getUserSlots username ↔ storage.getSlot username finger = some slot := by
  unfold getUserSlots getSlot
  cases storage.users.lookup username with
  | none => simp
  | some fingers =>
    simp only [List.mem_map,Prod.mk.injEq,Option.bind_some]
    constructor
    · rintro ⟨row,member,rfl,rfl⟩
      exact AList.mem_lookup_iff.mpr member
    · intro row
      exact ⟨⟨finger,slot⟩,AList.mem_lookup_iff.mp row,rfl,rfl⟩

theorem mem_used {slot : UInt8} (row : storage.getSlot username finger = some slot) : slot ∈ storage.used := by
  obtain ⟨fingers,user,inner⟩ := Option.bind_eq_some_iff.mp row
  exact List.mem_flatMap.mpr ⟨⟨username,fingers⟩,AList.mem_lookup_iff.mp user,
    List.mem_map.mpr ⟨⟨finger,slot⟩,AList.mem_lookup_iff.mp inner,rfl⟩⟩

/-- No row has the slot that `allocate_slot` gives. -/
theorem allocateSlot_unused {slot : UInt8} (given : storage.allocateSlot = some slot) :
    storage.getSlot username finger ≠ some slot := by
  intro row
  have unused := List.find?_some given
  exact absurd (mem_used row) (of_decide_eq_true unused)

variable (storage username finger)

@[simp] theorem getSlot_setSlot_same (slot : UInt8) :
    (storage.setSlot username finger slot).getSlot username finger = some slot := by
  simp [getSlot,setSlot]

theorem getSlot_setSlot_other (slot : UInt8) (u f : Bytes) (other : (u,f) ≠ (username,finger)) :
    (storage.setSlot username finger slot).getSlot u f = storage.getSlot u f := by
  unfold getSlot setSlot
  by_cases user : u = username
  · subst u
    have different : f ≠ finger := fun same => other (by rw [same])
    rw [AList.lookup_insert,Option.bind_some,AList.lookup_insert_ne different]
    cases storage.users.lookup username <;> simp
  · rw [AList.lookup_insert_ne user]

@[simp] theorem getSlot_removeFinger_same : (storage.removeFinger username finger).getSlot username finger = none := by
  unfold removeFinger getSlot
  cases user : storage.users.lookup username with
  | none => simp [user]
  | some fingers =>
    simp only
    split <;> simp

theorem getSlot_removeFinger_other (u f : Bytes) (other : (u,f) ≠ (username,finger)) :
    (storage.removeFinger username finger).getSlot u f = storage.getSlot u f := by
  unfold removeFinger getSlot
  cases user : storage.users.lookup username with
  | none => rfl
  | some fingers =>
    simp only
    by_cases same : u = username
    · subst u
      have different : f ≠ finger := fun h => other (by rw [h])
      have kept : (fingers.erase finger).lookup f = fingers.lookup f := AList.lookup_erase_ne different
      split
      next gone =>
        have absent : fingers.lookup f = none := by
          rw [← kept]
          exact congrArg (List.dlookup f) gone
        simp [user,absent]
      next => simp [user,kept]
    · split
      · rw [AList.lookup_erase_ne same]
      · rw [AList.lookup_insert_ne same]

def oneRow : Storage := (⟨200,∅⟩ : Storage).setSlot (ascii "mat") (ascii "right-thumb") 3

end Storage

end R503.Fprint
