import R503.FirmwareGate
import Mathlib.Data.Int.ModEq
import Mathlib.Data.List.TakeWhile

/-! The slot argument of `enroll` and `delete` (r503fp.ino): which texts a lenient parse and a narrowing
let through to the sensor. -/
namespace R503.Firmware

open Text

def leadingNumber (s : Bytes) : Int :=
  let s := s.dropWhile isSpace
  let negative := s.head? = some 45
  let s := if negative ∨ s.head? = some 43 then s.tail else s
  let v : Int := Decimal.value (s.takeWhile Decimal.isDigit)
  if negative then -v else v

section
variable (e : Eeprom) (lib : Library) (a : Bytes)

def SpellsSlot : Prop := ∃ n < lib.capacity.toNat, a = Decimal.render n

/-- As a 16-bit number, what the argument starts with is a slot of the sensor. -/
def LandsOnSlot : Prop := ∃ n : Nat, n < lib.capacity.toNat ∧ n < 2 ^ 15 ∧ leadingNumber a ≡ n [ZMOD 2 ^ 16]

/-- A template is stored or erased only in the slot the argument spells, and any other argument is refused
before the sensor is asked for anything. -/
structure SlotChecked (out : List Output) : Prop where
  spelled : ∀ slot, .sensor (.storeModel slot) ∈ out ∨ .sensor (.deleteModel slot) ∈ out →
    a = Decimal.render slot.toNat ∧ slot < lib.capacity
  refused : ¬ SpellsSlot lib a → out = say "ERR bad_args slot_out_of_range"

/-! ### The parse -/

theorem toInt_eq : toInt a = (leadingNumber a).bmod (2 ^ 32) := rfl

theorem slotArg_eq : slotArg a = (leadingNumber a).bmod (2 ^ 16) := by
  rw [slotArg,toInt_eq]
  exact Int.bmod_bmod_of_dvd (by decide)

/-- The range check passes exactly the arguments that land on a slot. -/
theorem landsOnSlot_iff : LandsOnSlot lib a ↔ ¬ (slotArg a < 0 ∨ slotArg a ≥ lib.capacity.toNat) := by
  rw [slotArg_eq,LandsOnSlot]
  constructor
  · rintro ⟨n,below,small,same⟩
    have narrowed : (leadingNumber a).bmod (2 ^ 16) = n :=
      (Int.bmod_eq_iff (by decide)).mpr ⟨by omega,by omega,Int.modEq_iff_dvd.mp same⟩
    omega
  · intro inside
    obtain ⟨_,upper,divides⟩ := (Int.bmod_eq_iff (by decide)).mp (rfl : (leadingNumber a).bmod (2 ^ 16) = _)
    refine ⟨((leadingNumber a).bmod (2 ^ 16)).toNat,by omega,by omega,?_⟩
    rw [Int.toNat_of_nonneg (by omega)]
    exact Int.modEq_iff_dvd.mpr divides

/-- What is skipped in front is no NUL. -/
theorem dropWhile_cString (p : UInt8 → Bool) (nul : p 0 = false) : (cString a).dropWhile p = cString (a.dropWhile p) := by
  induction a with
  | nil => rfl
  | cons c a ih =>
    by_cases ends : c = 0
    · simp [ends,nul,cString_cons]
    · by_cases skipped : p c = true <;> simp [cString_cons,ends,skipped,ih]

theorem takeWhile_cString (p : UInt8 → Bool) (nul : p 0 = false) : (cString a).takeWhile p = a.takeWhile p := by
  induction a with
  | nil => rfl
  | cons c a ih =>
    by_cases ends : c = 0
    · simp [ends,nul,cString_cons]
    · simp only [cString_cons,ends,if_false,List.takeWhile_cons,ih]

/-- The parse stops at a NUL anyway. -/
theorem leadingNumber_cString : leadingNumber (cString a) = leadingNumber a := by
  simp only [leadingNumber,dropWhile_cString a isSpace (by decide)]
  cases a.dropWhile isSpace with
  | nil => rfl
  | cons c s =>
    by_cases ends : c = 0
    · simp [ends,cString_cons,Decimal.isDigit]
    · have digits := takeWhile_cString (c :: s) Decimal.isDigit (by decide)
      have tail := takeWhile_cString s Decimal.isDigit (by decide)
      have kept : cString (c :: s) = c :: cString s := by rw [cString_cons,if_neg ends]
      rw [kept] at digits ⊢
      rw [List.head?_cons,List.head?_cons,List.tail_cons,List.tail_cons,apply_ite (List.takeWhile Decimal.isDigit),
        apply_ite (List.takeWhile Decimal.isDigit),tail,digits]

theorem slotArg_substring (left : Nat) : slotArg (substring a left) = slotArg (a.drop left) := by
  rw [slotArg_eq,slotArg_eq,substring,leadingNumber_cString]

theorem leadingNumber_render (n : Nat) : leadingNumber (Decimal.render n) = n := by
  have digits := Decimal.render_digits n
  have first {c : UInt8} (lead : (Decimal.render n).head? = some c) : Decimal.isDigit c = true :=
    digits c (List.mem_of_head? lead)
  have blanks : (Decimal.render n).dropWhile isSpace = Decimal.render n := by
    cases text : Decimal.render n with
    | nil => rfl
    | cons c rest =>
      have numeric := (Decimal.isDigit_iff c).mp (first (by rw [text]; rfl))
      refine List.dropWhile_cons_of_neg ?_
      simp only [isSpace,Bool.or_eq_true,beq_iff_eq,Bool.and_eq_true,decide_eq_true_eq,UInt8.le_iff_toNat_le,
        ← UInt8.toNat_inj,UInt8.reduceToNat]
      omega
  have unsigned : (Decimal.render n).head? ≠ some 45 ∧ (Decimal.render n).head? ≠ some 43 :=
    ⟨fun minus => absurd (first minus) (by decide),fun plus => absurd (first plus) (by decide)⟩
  have all : (Decimal.render n).takeWhile Decimal.isDigit = Decimal.render n := List.takeWhile_eq_self_iff.mpr digits
  simp only [leadingNumber,blanks,unsigned.1,unsigned.2,or_self,if_false,all,Decimal.value_render]

end

/-! ### The handlers -/

def Asks (P : SensorCall → Prop) (out : List Output) : Prop := ∀ call, .sensor call ∈ out → P call

section
variable {P : SensorCall → Prop} {out rest : List Output}

theorem asks_println (pieces : List Bytes) : Asks P (println pieces) := by
  induction pieces with
  | nil => simp [Asks,println]
  | cons piece pieces ih => simpa [Asks,println] using ih

theorem Asks.cons {call : SensorCall} (here : P call) (later : Asks P rest) : Asks P (.sensor call :: rest) := by
  intro other member
  rcases List.mem_cons.mp member with same | member
  · obtain rfl := Output.sensor.inj same
    exact here
  · exact later other member

theorem Asks.append (first : Asks P out) (later : Asks P rest) : Asks P (out ++ rest) := fun call member =>
  (List.mem_append.mp member).elim (first call) (later call)

theorem Asks.ite {c : Prop} [Decidable c] (yes : Asks P out) (no : Asks P rest) : Asks P (if c then out else rest) :=
  iteInduction (fun _ => yes) fun _ => no

end

def Only (slot : UInt16) (call : SensorCall) : Prop :=
  ∀ s, call = .storeModel s ∨ call = .deleteModel s → s = slot

section
variable (lib : Library) (slot : Int)

theorem handleEnroll_only (inside : ¬ (slot < 0 ∨ slot ≥ lib.capacity.toNat)) :
    Asks (Only (UInt16.ofInt slot)) (handleEnroll lib slot) := by
  rw [handleEnroll,if_neg inside]
  refine (asks_println _).append (.cons (by simp [Only]) (.ite (asks_println _) ?_))
  refine .cons (by simp [Only]) (.ite (asks_println _) ((asks_println _).append (.ite (asks_println _) ?_)))
  refine (asks_println _).append (.cons (by simp [Only]) (.ite (asks_println _) (.cons (by simp [Only]) ?_)))
  refine .ite (asks_println _) (.cons (by simp [Only]) (.ite (asks_println _) (.ite (asks_println _) ?_)))
  exact .cons (by simp [Only]) (.ite (asks_println _) (asks_println _))

theorem handleDelete_only (inside : ¬ (slot < 0 ∨ slot ≥ lib.capacity.toNat)) :
    Asks (Only (UInt16.ofInt slot)) (handleDelete lib slot) := by
  rw [handleDelete,if_neg inside]
  exact .cons (by simp [Only]) (.ite (asks_println _) (asks_println _))

/-- In range both begin with what is no refusal. -/
theorem handleEnroll_begins (inside : ¬ (slot < 0 ∨ slot ≥ lib.capacity.toNat)) :
    ∃ call, .sensor call ∈ handleEnroll lib slot := by
  rw [handleEnroll,if_neg inside]
  exact ⟨.capture,by simp⟩

theorem handleDelete_begins (inside : ¬ (slot < 0 ∨ slot ≥ lib.capacity.toNat)) :
    ∃ call, .sensor call ∈ handleDelete lib slot := by
  rw [handleDelete,if_neg inside]
  exact ⟨_,List.mem_cons_self⟩

/-- A handler that checks the range like these two meets the claim exactly for the slots spelt and the
arguments that land on none. -/
theorem slotChecked_iff (a : Bytes) (handler : Int → List Output)
    (outside : (slotArg a < 0 ∨ slotArg a ≥ lib.capacity.toNat) →
      handler (slotArg a) = say "ERR bad_args slot_out_of_range")
    (only : ¬ (slotArg a < 0 ∨ slotArg a ≥ lib.capacity.toNat) →
      Asks (Only (UInt16.ofInt (slotArg a))) (handler (slotArg a)))
    (begins : ¬ (slotArg a < 0 ∨ slotArg a ≥ lib.capacity.toNat) → ∃ call, .sensor call ∈ handler (slotArg a)) :
    SlotChecked lib a (handler (slotArg a)) ↔ SpellsSlot lib a ∨ ¬ LandsOnSlot lib a := by
  rw [landsOnSlot_iff,not_not]
  constructor
  · intro checked
    by_contra neither
    obtain ⟨other,inside⟩ := not_or.mp neither
    obtain ⟨call,asked⟩ := begins inside
    rw [checked.refused other] at asked
    exact asks_println (P := fun _ => False) _ call asked
  · intro either
    by_cases range : slotArg a < 0 ∨ slotArg a ≥ lib.capacity.toNat
    · refine ⟨fun slot asked => ?_,fun _ => outside range⟩
      rw [outside range] at asked
      exact (asked.elim (asks_println (P := fun _ => False) _ _) (asks_println (P := fun _ => False) _ _)).elim
    · obtain ⟨n,below,rfl⟩ := either.resolve_right range
      refine ⟨fun slot asked => ?_,fun other => absurd ⟨n,below,rfl⟩ other⟩
      have same : slot = UInt16.ofInt (slotArg (Decimal.render n)) := asked.elim
        (fun stored => only range _ stored slot (.inl rfl)) fun erased => only range _ erased slot (.inr rfl)
      have value : slotArg (Decimal.render n) = n := by
        obtain ⟨_,upper,divides⟩ := (Int.bmod_eq_iff (by decide)).mp (slotArg_eq (Decimal.render n)).symm
        rw [leadingNumber_render] at divides
        have room := lib.capacity.toNat_lt
        omega
      have small : n < 2 ^ 16 := below.trans lib.capacity.toNat_lt
      have kept : ((n : Int) % 2 ^ 16).toNat = n := by omega
      have slotValue : slot.toNat = n := by
        rw [same,value,UInt16.ofInt,kept,UInt16.toNat_ofNat_of_lt' small]
      exact ⟨by rw [slotValue],UInt16.lt_iff_toNat_lt.mpr (by rwa [slotValue])⟩

/-! ### The dispatch -/

theorem dispatch_enroll (e : Eeprom) (a : Bytes) :
    dispatch e lib (ascii "enroll " ++ a) = handleEnroll lib (slotArg a) := by
  have lead := startsWith_append "enroll " a
  have other {word : String} := not_equals_append word a (show 0 ∉ ascii "enroll " by decide)
  unfold dispatch
  rw [if_neg (other (by decide)),if_neg (other (by decide)),
    if_neg (not_or.mpr ⟨other (by decide),other (by decide)⟩),if_neg (other (by decide)),
    if_neg (other (by decide)),if_pos lead,slotArg_substring]
  rfl

theorem dispatch_delete (e : Eeprom) (a : Bytes) :
    dispatch e lib (ascii "delete " ++ a) = handleDelete lib (slotArg a) := by
  have lead := startsWith_append "delete " a
  have other {word : String} := not_equals_append word a (show 0 ∉ ascii "delete " by decide)
  have notEnroll : ¬ startsWith (ascii "delete " ++ a) "enroll " := Bool.false_ne_true
  unfold dispatch
  rw [if_neg (other (by decide)),if_neg (other (by decide)),
    if_neg (not_or.mpr ⟨other (by decide),other (by decide)⟩),if_neg (other (by decide)),
    if_neg (other (by decide)),if_neg notEnroll,if_pos lead,slotArg_substring]
  rfl

end

/-- `enroll` and `delete` keep to the slots their arguments spell, exactly for the arguments that spell one and
those that land on none. -/
theorem slot_arguments_checked (e : Eeprom) (lib : Library) (a : Bytes) :
    (SlotChecked lib a (dispatch e lib (ascii "enroll " ++ a)) ↔ SpellsSlot lib a ∨ ¬ LandsOnSlot lib a) ∧
      (SlotChecked lib a (dispatch e lib (ascii "delete " ++ a)) ↔ SpellsSlot lib a ∨ ¬ LandsOnSlot lib a) := by
  rw [dispatch_enroll,dispatch_delete]
  constructor
  · exact slotChecked_iff lib a (handleEnroll lib) (fun outside => by rw [handleEnroll,if_pos outside])
      (handleEnroll_only lib _) (handleEnroll_begins lib _)
  · exact slotChecked_iff lib a (handleDelete lib) (fun outside => by rw [handleDelete,if_pos outside])
      (handleDelete_only lib _) (handleDelete_begins lib _)

/-- `delete x` erases slot 0. -/
theorem garbage_erases_slot :
    dispatch (fun _ => 0xFF) allOk (ascii "delete " ++ ascii "x") =
        .sensor (.deleteModel 0) :: println [ascii "OK deleted=",ascii "0"] ∧
      ¬ SlotChecked allOk (ascii "x") (dispatch (fun _ => 0xFF) allOk (ascii "delete " ++ ascii "x")) := by
  have erased : dispatch (fun _ => 0xFF) allOk (ascii "delete " ++ ascii "x") =
      .sensor (.deleteModel 0) :: println [ascii "OK deleted=",ascii "0"] := by
    decide +kernel
  refine ⟨erased,fun checked => ?_⟩
  have spelled := (checked.spelled 0 (.inr (by rw [erased]; exact List.mem_cons_self))).1
  exact absurd spelled (by decide)

end R503.Firmware
