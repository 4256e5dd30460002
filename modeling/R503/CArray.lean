import Mathlib.Data.List.Basic
import Mathlib.Data.List.Infix

/-! C arrays of a fixed size. Every access is checked, and one outside of the array is `none`.
`Gives` is the total correctness of a program made of such accesses. -/
namespace CArray

variable {α β γ : Type} {n m : Nat}

/-- `a[i] = x` -/
def store (a : Vector α n) (i : Nat) (x : α) : Option (Vector α n) :=
  if inside : i < n then some (a.set i x inside) else none

def load (a : Vector α n) (i : Nat) : Option α := a[i]?

/-- The first `len` cells, as a function reads them that is given the array and a length. -/
def read (a : Vector α n) (len : Nat) : Option (List α) := if len ≤ n then some (a.toList.take len) else none

/-- `memcpy(a + off, ..)` of these values. -/
def copy (a : Vector α n) (off : Nat) : List α → Option (Vector α n)
  | [] => some a
  | x :: xs => (store a off x).bind fun a => copy a (off + 1) xs

/-- The C string in an array; one without a NUL is read past the end. -/
def string (a : Vector UInt8 n) : Option (List UInt8) :=
  if 0 ∈ a.toList then some (a.toList.takeWhile (· != 0)) else none

/-! ### Total correctness -/

/-- No access is outside an array, and the value has a property. -/
def Gives (x : Option β) (P : β → Prop) : Prop := ∃ b, x = some b ∧ P b

theorem Gives.pure {b : β} {P : β → Prop} (holds : P b) : Gives (some b) P := ⟨b,rfl,holds⟩

theorem Gives.of_eq {x : Option β} {b : β} (same : x = some b) : Gives x (· = b) := ⟨b,same,rfl⟩

theorem Gives.bind {x : Option β} {f : β → Option γ} {P : β → Prop} {Q : γ → Prop} (first : Gives x P)
    (next : ∀ b, P b → Gives (f b) Q) : Gives (x >>= f) Q := by
  obtain ⟨b,rfl,holds⟩ := first
  exact next b holds

theorem Gives.mono {x : Option β} {P Q : β → Prop} (gives : Gives x P) (weaker : ∀ b, P b → Q b) : Gives x Q := by
  obtain ⟨b,same,holds⟩ := gives
  exact ⟨b,same,weaker b holds⟩

/-- `for (i = 0; i < count; ++i)` with an invariant. -/
theorem gives_loop (body : β → Nat → Option β) (I : Nat → β → Prop) (count : Nat) (b : β) (start : I 0 b)
    (each : ∀ i b, i < count → I i b → Gives (body b i) (I (i + 1))) :
    Gives ((List.range count).foldlM body b) (I count) := by
  induction count with
  | zero => exact .pure start
  | succ count ih =>
    rw [List.range_succ,List.foldlM_append]
    refine (ih fun i b small holds => each i b (by omega) holds).bind fun b holds => ?_
    refine (each count b (by omega) holds).bind (f := fun b => some b) fun b done => .pure done

/-! ### The cells written so far -/

/-- The first `off` cells hold these values; what comes after them may be anything. -/
structure Filled (a : Vector α n) (off : Nat) (xs : List α) : Prop where
  next : off = xs.length
  starts : xs <+: a.toList

theorem filled_nil (a : Vector α n) : Filled a 0 [] := ⟨rfl,List.nil_prefix⟩

theorem Filled.le {a : Vector α n} {off : Nat} {xs : List α} (filled : Filled a off xs) : off ≤ n := by
  simpa [filled.next] using filled.starts.length_le

/-- An earlier offset. -/
theorem Filled.trim {a : Vector α n} {off later : Nat} {xs ys : List α} (filled : Filled a later (xs ++ ys))
    (next : off = xs.length) : Filled a off xs := ⟨next,(List.prefix_append xs ys).trans filled.starts⟩

theorem Filled.load {a : Vector α n} {off i : Nat} {xs : List α} {x : α} (filled : Filled a off xs)
    (there : xs[i]? = some x) : load a i = some x := by
  obtain ⟨rest,same⟩ := filled.starts
  obtain ⟨small,_⟩ := List.getElem?_eq_some_iff.mp there
  have cell : a.toList[i]? = some x := by rw [← same,List.getElem?_append_left small,there]
  simpa [CArray.load] using cell

theorem Filled.read {a : Vector α n} {off : Nat} {xs : List α} (filled : Filled a off xs) :
    read a off = some xs := by
  rw [CArray.read,if_pos filled.le,filled.next,← List.prefix_iff_eq_take.mp filled.starts]

theorem store_filled {a : Vector α n} {off : Nat} {xs : List α} (filled : Filled a off xs) (x : α) (room : off < n) :
    Gives (store a off x) fun b => Filled b (off + 1) (xs ++ [x]) := by
  refine ⟨_,dif_pos room,by simp [filled.next],?_⟩
  obtain ⟨next,rest,same⟩ := filled
  have size : xs.length + rest.length = n := by
    rw [← List.length_append,same]
    simp
  cases rest with
  | nil => simp at size; omega
  | cons y rest =>
    subst off
    refine ⟨rest,?_⟩
    rw [Vector.toList_set,← same,List.set_append_right _ _ le_rfl,Nat.sub_self,List.append_assoc]
    rfl

theorem copy_filled {a : Vector α n} {off : Nat} {xs : List α} (filled : Filled a off xs) (ys : List α)
    (room : off + ys.length ≤ n) : Gives (copy a off ys) fun b => Filled b (off + ys.length) (xs ++ ys) := by
  induction ys generalizing a xs off with
  | nil => exact .pure (by simpa using filled)
  | cons y ys ih =>
    simp only [List.length_cons] at room
    refine (store_filled filled y (by omega)).bind fun b more => ?_
    refine (ih more (by omega)).mono fun b all => ?_
    simpa [Nat.add_assoc,Nat.add_comm 1] using all

/-- A text and its NUL, whatever comes after. -/
theorem Filled.string {a : Vector UInt8 n} {off : Nat} {s : List UInt8} (filled : Filled a off (s ++ [0]))
    (clean : 0 ∉ s) : string a = some s := by
  obtain ⟨rest,same⟩ := filled.starts
  have ends : (0 : UInt8) ∈ a.toList := by simp [← same]
  rw [CArray.string,if_pos ends,← same,List.append_assoc,List.takeWhile_append_of_pos]
  · simp
  · exact fun c member => bne_iff_ne.mpr fun isNul => clean (isNul ▸ member)

end CArray
