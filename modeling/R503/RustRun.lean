import Mathlib.Data.Nat.Digits.Lemmas

/-! Rust calls that may panic. Each operation panics where the language or the standard library
does; a call that returns is the total function it computes, embedded by `returns`. -/
namespace Rust

variable {ε α β σ : Type}

/-- A call returning `Result<α, ε>`; `none` is a panic. -/
abbrev Run (ε α : Type) : Type := ExceptT ε Option α

def panics : Run ε α := ExceptT.mk none

def returns (r : Except ε α) : Run ε α := ExceptT.mk (some r)

@[simp] theorem run_returns (r : Except ε α) : (returns r).run = some r := rfl

theorem panics_ne_returns (r : Except ε α) : (panics : Run ε α) ≠ returns r := fun same => by cases same

theorem returns_inj {r s : Except ε α} (same : returns r = returns s) : r = s := Option.some.inj same

theorem returns_pure (a : α) : (pure a : Run ε α) = returns (.ok a) := rfl

@[simp] theorem returns_bind_ok (a : α) (f : α → Run ε β) : returns (.ok a) >>= f = f a := rfl

@[simp] theorem returns_bind_error (e : ε) (f : α → Run ε β) : returns (.error e) >>= f = returns (.error e) := rfl

theorem ok_bind (a : α) (f : α → Except ε β) : (Except.ok a >>= f) = f a := rfl

/-- A call that goes on as the total program does returns what the total program returns. -/
theorem returns_bind (r : Except ε α) (f : α → Run ε β) (g : α → Except ε β)
    (next : ∀ a, r = .ok a → f a = returns (g a)) : returns r >>= f = returns (r >>= g) := by
  cases r with
  | error e => rfl
  | ok a => exact next a rfl

def okOr (o : Option α) (e : ε) : Run ε α := returns (match o with
  | none => .error e
  | some a => .ok a)

/-! ### Operations that panic -/

/-- `assert!` and `debug_assert!`. -/
def asserts (p : Prop) [Decidable p] : Run ε Unit := if p then returns (.ok ()) else panics

/-- `xs[i]` -/
def index (xs : List α) (i : Nat) : Run ε α :=
  match xs[i]? with
  | none => panics
  | some a => returns (.ok a)

def store (xs : List α) (i : Nat) (a : α) : Run ε (List α) :=
  if i < xs.length then returns (.ok (xs.set i a)) else panics

def slice (xs : List α) (a b : Nat) : Run ε (List α) :=
  if a ≤ b ∧ b ≤ xs.length then returns (.ok ((xs.take b).drop a)) else panics

def sliceFrom (xs : List α) (a : Nat) : Run ε (List α) :=
  if a ≤ xs.length then returns (.ok (xs.drop a)) else panics

/-- `try_into().unwrap()` to an array of `n`. -/
def toArray (n : Nat) (xs : List α) : Run ε (List α) := if xs.length = n then returns (.ok xs) else panics

/-- `usize` subtraction with overflow checks. -/
def minus (a b : Nat) : Run ε Nat := if b ≤ a then returns (.ok (a - b)) else panics

def addU8 (a b : UInt8) : Run ε UInt8 := if a.toNat + b.toNat < 256 then returns (.ok (a + b)) else panics

def subU8 (a b : UInt8) : Run ε UInt8 := if b ≤ a then returns (.ok (a - b)) else panics

def shlU64 (x : UInt64) (n : Nat) : Run ε UInt64 :=
  if n < 64 then returns (.ok (x <<< UInt64.ofNat n)) else panics

theorem asserts_eq (p : Prop) [Decidable p] (holds : p) : (asserts p : Run ε Unit) = returns (.ok ()) := if_pos holds

theorem index_eq (xs : List α) (i : Nat) (a : α) (there : xs[i]? = some a) :
    (index xs i : Run ε α) = returns (.ok a) := by
  simp [index,there]

theorem store_eq (xs : List α) (i : Nat) (a : α) (within : i < xs.length) :
    (store xs i a : Run ε (List α)) = returns (.ok (xs.set i a)) := if_pos within

theorem slice_eq (xs : List α) (a b : Nat) (order : a ≤ b) (within : b ≤ xs.length) :
    (slice xs a b : Run ε (List α)) = returns (.ok ((xs.take b).drop a)) := if_pos ⟨order,within⟩

theorem sliceFrom_eq (xs : List α) (a : Nat) (within : a ≤ xs.length) :
    (sliceFrom xs a : Run ε (List α)) = returns (.ok (xs.drop a)) := if_pos within

theorem toArray_eq (n : Nat) (xs : List α) (size : xs.length = n) :
    (toArray n xs : Run ε (List α)) = returns (.ok xs) := if_pos size

theorem minus_eq (a b : Nat) (order : b ≤ a) : (minus a b : Run ε Nat) = returns (.ok (a - b)) := if_pos order

theorem addU8_eq (a b : UInt8) (small : a.toNat + b.toNat < 256) :
    (addU8 a b : Run ε UInt8) = returns (.ok (a + b)) := if_pos small

theorem subU8_eq (a b : UInt8) (order : b ≤ a) : (subU8 a b : Run ε UInt8) = returns (.ok (a - b)) := if_pos order

theorem shlU64_eq (x : UInt64) (n : Nat) (small : n < 64) :
    (shlU64 x n : Run ε UInt64) = returns (.ok (x <<< UInt64.ofNat n)) := if_pos small

/-- A loop whose body always returns is a fold. -/
theorem foldlM_returns (body : σ → β → Run ε σ) (step : σ → β → σ) (xs : List β)
    (each : ∀ s, ∀ x ∈ xs, body s x = returns (.ok (step s x))) (s : σ) :
    xs.foldlM body s = returns (.ok (xs.foldl step s)) := by
  induction xs generalizing s with
  | nil => rfl
  | cons x xs ih =>
    rw [List.foldlM_cons,each s x List.mem_cons_self,returns_bind_ok,List.foldl_cons]
    exact ih (fun s y member => each s y (List.mem_cons_of_mem _ member)) _

/-! ### Parts of a list -/

theorem slice_middle (front middle rest : List α) :
    (slice (front ++ (middle ++ rest)) front.length (front.length + middle.length) : Run ε (List α)) =
      returns (.ok middle) := by
  rw [slice_eq _ _ _ (Nat.le_add_right _ _) (by simp),List.drop_take,List.drop_left,Nat.add_sub_cancel_left,
    List.take_left]

theorem slice_short (front rest : List α) (n : Nat) (short : rest.length < n) :
    (slice (front ++ rest) front.length (front.length + n) : Run ε (List α)) = panics :=
  if_neg (by rw [List.length_append]; omega)

theorem index_middle (front rest : List α) (a : α) :
    (index (front ++ a :: rest) front.length : Run ε α) = returns (.ok a) :=
  index_eq _ _ _ (by simp)

/-! ### Integers -/

def checkedAdd (a b : Nat) : Option Nat := if a + b < 2 ^ 64 then some (a + b) else none

theorem checkedAdd_eq (a b : Nat) (small : a + b < 2 ^ 64) : checkedAdd a b = some (a + b) := if_pos small

/-- `to_le_bytes` of an integer of `k` bytes, after `as` has cut it to that size. -/
def toLe : Nat → Nat → List UInt8
  | 0, _ => []
  | k + 1, n => UInt8.ofNat n :: toLe k (n / 256)

def fromLe (bytes : List UInt8) : Nat := Nat.ofDigits 256 (bytes.map UInt8.toNat)

@[simp] theorem toLe_length (k n : Nat) : (toLe k n).length = k := by
  induction k generalizing n with
  | zero => rfl
  | succ k ih => rw [toLe,List.length_cons,ih]

theorem fromLe_toLe (k n : Nat) (small : n < 256 ^ k) : fromLe (toLe k n) = n := by
  induction k generalizing n with
  | zero => simp_all [fromLe,toLe]
  | succ k ih =>
    have inner := ih (n / 256) (Nat.div_lt_of_lt_mul (by rwa [← pow_succ'] ))
    rw [fromLe] at inner
    rw [fromLe,toLe,List.map_cons,Nat.ofDigits_cons,inner,UInt8.toNat_ofNat']
    exact Nat.mod_add_div n 256

theorem toLe_fromLe (bytes : List UInt8) : toLe bytes.length (fromLe bytes) = bytes := by
  induction bytes with
  | nil => rfl
  | cons b bytes ih =>
    have small : b.toNat < 256 := b.toNat_lt
    have low : UInt8.ofNat (b.toNat + 256 * fromLe bytes) = b := by
      apply UInt8.toNat_inj.mp
      rw [UInt8.toNat_ofNat']
      simp only [Nat.reducePow]
      omega
    have high : (b.toNat + 256 * fromLe bytes) / 256 = fromLe bytes := by omega
    have value : fromLe (b :: bytes) = b.toNat + 256 * fromLe bytes := by
      rw [fromLe,List.map_cons,Nat.ofDigits_cons,fromLe]
    rw [List.length_cons,toLe,value,low,high,ih]

end Rust
