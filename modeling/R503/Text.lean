import Mathlib.Data.List.Basic

/-! Byte strings and the few string operations that C++ and Rust code share.
A text is its bytes; positions are byte offsets on both sides. -/
namespace Text

abbrev Bytes := List UInt8

/-- Membership of a text in a list of texts is decided through this one instance. -/
instance lawfulBytes : LawfulBEq Bytes := inferInstance

/-- What is said of each byte of a text is decided along the text, not by all bytes there are. -/
instance decideEach (p : UInt8 → Prop) [DecidablePred p] (s : Bytes) : Decidable (∀ c ∈ s, p c) :=
  List.decidableBAll p s

def ascii (s : String) : Bytes := s.toList.map fun c => UInt8.ofNat c.toNat

def space : UInt8 := 32
def lineFeed : UInt8 := 10
def carriageReturn : UInt8 := 13

def find (c : UInt8) : Bytes → Option Nat
  | [] => none
  | x :: s => if x = c then some 0 else (find c s).map (· + 1)

theorem find_append (c : UInt8) (a b : Bytes) (fresh : c ∉ a) :
    find c (a ++ c :: b) = some a.length := by
  induction a with
  | nil => simp [find]
  | cons x a ih =>
    have different : x ≠ c := fun h => fresh (by simp [h])
    have rest : c ∉ a := fun h => fresh (List.mem_cons_of_mem _ h)
    simp [find,different,ih rest]

theorem find_none_iff (c : UInt8) (s : Bytes) : find c s = none ↔ c ∉ s := by
  induction s with
  | nil => simp [find]
  | cons x s ih =>
    by_cases same : x = c
    · simp [find,same]
    · simp [find,same,ih,Ne.symm same]

theorem find_split (c : UInt8) (s : Bytes) (i : Nat) (found : find c s = some i) :
    i < s.length ∧ c ∉ s.take i ∧ s = s.take i ++ c :: s.drop (i + 1) := by
  induction s generalizing i with
  | nil => simp [find] at found
  | cons x s ih =>
    by_cases same : x = c
    · subst x
      simp only [find, ↓reduceIte, Option.some.injEq] at found
      subst i
      simp
    · simp only [find, same, ↓reduceIte, Option.map_eq_some_iff] at found
      obtain ⟨j,hj,rfl⟩ := found
      obtain ⟨bound,fresh,split⟩ := ih j hj
      refine ⟨by simpa using bound,?_,?_⟩
      · simpa [Ne.symm same] using fresh
      · simpa using split

def stripPrefix (pre s : Bytes) : Option Bytes :=
  if pre.isPrefixOf s then some (s.drop pre.length) else none

theorem stripPrefix_some_iff (pre s rest : Bytes) :
    stripPrefix pre s = some rest ↔ s = pre ++ rest := by
  unfold stripPrefix
  split
  next h =>
    obtain ⟨t,rfl⟩ := List.isPrefixOf_iff_prefix.mp h
    simp
  next h =>
    constructor
    · intro impossible; cases impossible
    · rintro rfl
      exact absurd (List.isPrefixOf_iff_prefix.mpr (List.prefix_append _ _)) h

@[simp] theorem stripPrefix_append (pre rest : Bytes) : stripPrefix pre (pre ++ rest) = some rest :=
  (stripPrefix_some_iff _ _ _).mpr rfl

end Text
