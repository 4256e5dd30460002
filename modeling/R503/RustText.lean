import R503.Decimal

/-! String methods of the Rust standard library on UTF-8 bytes: splitting, trimming and
parsing unsigned integers. No character is whitespace inside another one's bytes. -/
namespace Text

/-- The characters with property White_Space. -/
def whitespace : List Bytes :=
  [[9],[10],[11],[12],[13],[32],[0xC2,0x85],[0xC2,0xA0],[0xE1,0x9A,0x80],[0xE2,0x80,0x80],
    [0xE2,0x80,0x81],[0xE2,0x80,0x82],[0xE2,0x80,0x83],[0xE2,0x80,0x84],[0xE2,0x80,0x85],
    [0xE2,0x80,0x86],[0xE2,0x80,0x87],[0xE2,0x80,0x88],[0xE2,0x80,0x89],[0xE2,0x80,0x8A],
    [0xE2,0x80,0xA8],[0xE2,0x80,0xA9],[0xE2,0x80,0xAF],[0xE2,0x81,0x9F],[0xE3,0x80,0x80]]

def whitespaceLen (s : Bytes) : Nat :=
  match whitespace.find? (·.isPrefixOf s) with
  | none => 0
  | some w => w.length

/-- `skip` bytes of a whitespace character are still to pass, `cur` is the word so far. -/
def splitWords : Bytes → (skip : Nat) → (cur : Bytes) → List Bytes
  | [], _, cur => if cur = [] then [] else [cur]
  | _ :: s, skip + 1, cur => splitWords s skip cur
  | c :: s, 0, cur =>
    match whitespaceLen (c :: s) with
    | 0 => splitWords s 0 (cur ++ [c])
    | n + 1 => (if cur = [] then [] else [cur]) ++ splitWords s n []

def splitWhitespace (s : Bytes) : List Bytes := splitWords s 0 []

def skipBlanks : Bytes → (skip : Nat) → Bytes
  | [], _ => []
  | _ :: s, skip + 1 => skipBlanks s skip
  | c :: s, 0 =>
    match whitespaceLen (c :: s) with
    | 0 => c :: s
    | n + 1 => skipBlanks s n

def trimStart (s : Bytes) : Bytes := skipBlanks s 0

def trimEnd : Bytes → Bytes
  | [] => []
  | c :: s => if trimStart (c :: s) = [] then [] else c :: trimEnd s

def trim (s : Bytes) : Bytes := trimEnd (trimStart s)

/-- `str::split_once` at a single byte. -/
def splitOnce (c : UInt8) (s : Bytes) : Option (Bytes × Bytes) :=
  (find c s).map fun i => (s.take i,s.drop (i + 1))

/-- `str::split` at a single byte: one piece more than there are separators. -/
def splitOn (sep : UInt8) : Bytes → (cur : Bytes) → List Bytes
  | [], cur => [cur]
  | c :: s, cur => if c = sep then cur :: splitOn sep s [] else splitOn sep s (cur ++ [c])

/-- `from_str` of an unsigned type with values below `bound`: an optional plus sign and digits. -/
def natFromStr (bound : Nat) (s : Bytes) : Option Nat :=
  let digits := if s.head? = some 43 then s.tail else s
  if digits ≠ [] ∧ digits.all Decimal.isDigit ∧ Decimal.value digits < bound then
    some (Decimal.value digits)
  else none

theorem natFromStr_render (bound n : Nat) (small : n < bound) :
    natFromStr bound (Decimal.render n) = some n := by
  have digits := Decimal.render_digits n
  have unsigned : (Decimal.render n).head? ≠ some 43 := by
    intro sign
    have numeric := digits 43 (List.mem_of_head? sign)
    revert numeric
    decide
  simp only [natFromStr,if_neg unsigned,Decimal.value_render]
  rw [if_pos ⟨Decimal.render_ne_nil n,List.all_eq_true.mpr digits,small⟩]

/-! ### Printable ASCII -/

/-- Printable ASCII other than the blank. -/
def Printable (c : UInt8) : Prop := 33 ≤ c ∧ c < 127

instance (c : UInt8) : Decidable (Printable c) := inferInstanceAs (Decidable (_ ∧ _))

theorem whitespaceLen_printable (c : UInt8) (s : Bytes) (printable : Printable c) :
    whitespaceLen (c :: s) = 0 := by
  have firsts : ∀ w ∈ whitespace, w.head?.any (fun d => !decide (Printable d)) = true := by decide +kernel
  have absent : whitespace.find? (·.isPrefixOf (c :: s)) = none := by
    refine List.find?_eq_none.mpr fun w member lead => ?_
    have other := firsts w member
    cases w with
    | nil => cases other
    | cons d w =>
      have same : d = c := (List.cons_prefix_cons.mp (List.isPrefixOf_iff_prefix.mp lead)).1
      subst d
      simp [printable] at other
  rw [whitespaceLen,absent]

theorem splitWords_word (word s cur : Bytes) (printable : ∀ c ∈ word, Printable c) :
    splitWords (word ++ s) 0 cur = splitWords s 0 (cur ++ word) := by
  induction word generalizing cur with
  | nil => simp
  | cons c word ih =>
    obtain ⟨first,others⟩ := List.forall_mem_cons.mp printable
    rw [List.cons_append,splitWords,whitespaceLen_printable c _ first]
    simp only [ih _ others,List.append_assoc,List.singleton_append]

theorem splitWhitespace_cons (word s : Bytes) (some : word ≠ []) (printable : ∀ c ∈ word, Printable c) :
    splitWhitespace (word ++ space :: s) = word :: splitWhitespace s := by
  have blank : whitespaceLen (space :: s) = 1 := rfl
  rw [splitWhitespace,splitWords_word word _ _ printable,List.nil_append,splitWords,blank]
  simp [some,splitWhitespace]

theorem trimStart_printable (c : UInt8) (s : Bytes) (printable : Printable c) :
    trimStart (c :: s) = c :: s := by
  rw [trimStart,skipBlanks,whitespaceLen_printable c s printable]

theorem trimEnd_word (word blanks : Bytes) (printable : ∀ c ∈ word, Printable c)
    (blank : trimEnd blanks = []) : trimEnd (word ++ blanks) = word := by
  induction word with
  | nil => exact blank
  | cons c word ih =>
    obtain ⟨first,others⟩ := List.forall_mem_cons.mp printable
    rw [List.cons_append,trimEnd,trimStart_printable c _ first,if_neg (by simp),ih others]

theorem trim_word (word blanks : Bytes) (some : word ≠ []) (printable : ∀ c ∈ word, Printable c)
    (blank : trimEnd blanks = []) : trim (word ++ blanks) = word := by
  cases word with
  | nil => exact absurd rfl some
  | cons c word =>
    rw [trim,List.cons_append,trimStart_printable c _ (printable c (by simp)),← List.cons_append]
    exact trimEnd_word (c :: word) blanks printable blank

theorem splitOnce_append (c : UInt8) (a b : Bytes) (fresh : c ∉ a) :
    splitOnce c (a ++ c :: b) = some (a,b) := by
  simp [splitOnce,find_append c a b fresh]

end Text
