import R503.PairingLink
import R503.SensorReply

/-! The fields of a response line: what the Nano prints as `key=value` words is what `expect_ok` and
`parse_kv` (sensor.rs) read back. -/
namespace R503.Fprint

open Text

def fields (kvs : List (Bytes × Bytes)) : Bytes := kvs.flatMap fun kv => space :: (kv.1 ++ 61 :: kv.2)

/-- A pair that `parse_kv` reads back. -/
def IsField (kv : Bytes × Bytes) : Prop := (∀ c ∈ kv.1, Text.Printable c) ∧ 61 ∉ kv.1 ∧ ∀ c ∈ kv.2, Text.Printable c

instance (kv : Bytes × Bytes) : Decidable (IsField kv) := inferInstanceAs (Decidable (_ ∧ _ ∧ _))

def Visible (line : Bytes) : Prop := ∀ c ∈ line, c = space ∨ Text.Printable c

instance (line : Bytes) : Decidable (Visible line) := inferInstanceAs (Decidable (∀ c ∈ line, _))

theorem trimStart_visible (s : Bytes) (c : UInt8) (visible : Visible s) (printable : Text.Printable c) :
    trimStart (s ++ [c]) ≠ [] := by
  induction s with
  | nil =>
    rw [List.nil_append,trimStart_printable c [] printable]
    exact List.cons_ne_nil _ _
  | cons d s ih =>
    obtain ⟨first,later⟩ := List.forall_mem_cons.mp visible
    rcases first with rfl | shown
    · exact ih later
    · rw [List.cons_append,trimStart_printable d _ shown]
      exact List.cons_ne_nil _ _

theorem trimEnd_visible (s : Bytes) (c : UInt8) (visible : Visible s) (printable : Text.Printable c) :
    trimEnd (s ++ [c]) = s ++ [c] := by
  induction s with
  | nil => exact trimEnd_word [c] [] (List.forall_mem_singleton.mpr printable) rfl
  | cons d s ih =>
    have shown := trimStart_visible (d :: s) c visible printable
    rw [List.cons_append] at shown ⊢
    rw [trimEnd,if_neg shown,ih (List.forall_mem_cons.mp visible).2]

theorem fields_cons (kv : Bytes × Bytes) (kvs : List (Bytes × Bytes)) :
    fields (kv :: kvs) = space :: (kv.1 ++ 61 :: kv.2 ++ fields kvs) := rfl

theorem field_word {kv : Bytes × Bytes} (field : IsField kv) : ∀ c ∈ kv.1 ++ 61 :: kv.2, Text.Printable c :=
  List.forall_mem_append.mpr ⟨field.1,List.forall_mem_cons.mpr ⟨by decide,field.2.2⟩⟩

theorem splitWhitespace_fields {kvs : List (Bytes × Bytes)} (good : ∀ kv ∈ kvs, IsField kv) :
    splitWhitespace (fields kvs) = kvs.map fun kv => kv.1 ++ 61 :: kv.2 := by
  induction kvs with
  | nil => rfl
  | cons kv kvs ih =>
    obtain ⟨here,later⟩ := List.forall_mem_cons.mp good
    have blank (s : Bytes) : splitWhitespace (space :: s) = splitWhitespace s := rfl
    have rest := ih later
    rw [fields_cons,blank]
    cases kvs with
    | nil =>
      have word := splitWords_word (kv.1 ++ 61 :: kv.2) [] [] (field_word here)
      rw [List.append_nil,List.nil_append] at word
      simp [fields,splitWhitespace,word,splitWords]
    | cons next kvs =>
      rw [fields_cons,splitWhitespace_cons _ _ (by simp) (field_word here)]
      rw [fields_cons,blank] at rest
      rw [rest]
      rfl

/-- What ends in a visible character keeps its end. -/
theorem trimEnd_fields (s : Bytes) (kv : Bytes × Bytes) (kvs : List (Bytes × Bytes)) (visible : Visible s)
    (good : ∀ x ∈ kv :: kvs, IsField x) :
    trimEnd (s ++ (kv.1 ++ 61 :: kv.2) ++ fields kvs) = s ++ (kv.1 ++ 61 :: kv.2) ++ fields kvs := by
  induction kvs generalizing s kv with
  | nil =>
    have word := field_word (List.forall_mem_singleton.mp good)
    obtain ⟨front,c,split⟩ := (List.eq_nil_or_concat (kv.1 ++ 61 :: kv.2)).resolve_left (by simp)
    rw [List.concat_eq_append] at split
    rw [split] at word ⊢
    obtain ⟨inner,ends⟩ := List.forall_mem_append.mp word
    have whole := trimEnd_visible (s ++ front) c
      (List.forall_mem_append.mpr ⟨visible,fun d member => .inr (inner d member)⟩) (List.forall_mem_singleton.mp ends)
    rw [fields,List.flatMap_nil,List.append_nil,← List.append_assoc]
    exact whole
  | cons next kvs ih =>
    obtain ⟨here,later⟩ := List.forall_mem_cons.mp good
    have longer : Visible (s ++ (kv.1 ++ 61 :: kv.2) ++ [space]) := List.forall_mem_append.mpr
      ⟨List.forall_mem_append.mpr ⟨visible,fun c member => .inr (field_word here c member)⟩,
        List.forall_mem_singleton.mpr (.inl rfl)⟩
    have rest := ih _ next longer later
    rw [fields_cons]
    simpa only [List.append_assoc,List.cons_append,List.nil_append] using rest

/-- The pairs of an `OK` line are read back as they were printed. -/
theorem expectOk_fields (kvs : List (Bytes × Bytes)) (good : ∀ kv ∈ kvs, IsField kv) :
    ∃ body, expectOk (ascii "OK" ++ fields kvs) = .ok body ∧ parseKv body = kvs := by
  have pairs : (kvs.map fun kv => kv.1 ++ 61 :: kv.2).filterMap (splitOnce 61) = kvs := by
    rw [List.filterMap_map]
    refine (List.filterMap_congr fun kv member => ?_).trans List.filterMap_some
    exact splitOnce_append 61 kv.1 kv.2 (good kv member).2.1
  have words := splitWhitespace_fields good
  refine ⟨trim (fields kvs),by rw [expectOk,stripPrefix_append],?_⟩
  cases kvs with
  | nil => rfl
  | cons kv kvs =>
    have whole := trimEnd_fields [] kv kvs (fun _ none => by cases none) good
    have first : trimStart (fields (kv :: kvs)) = kv.1 ++ 61 :: kv.2 ++ fields kvs := by
      have word := field_word (good kv List.mem_cons_self)
      change trimStart (kv.1 ++ 61 :: kv.2 ++ fields kvs) = _
      cases text : kv.1 ++ 61 :: kv.2 with
      | nil => simp at text
      | cons c rest =>
        rw [text] at word
        exact trimStart_printable c _ (word c List.mem_cons_self)
    rw [trim,first,← List.nil_append (kv.1 ++ 61 :: kv.2),whole,List.nil_append,parseKv]
    exact (congrArg _ words).trans pairs

end R503.Fprint
