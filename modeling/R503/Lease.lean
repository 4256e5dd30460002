import Mathlib.Data.List.Nodup

/-! A resource that is opened, used through its handle, and spoilt by a use that fails. -/
namespace Lease

variable {η : Type}

inductive Mark (η : Type) where
  | opened (handle : η)
  | used (handle : η) (spoilt : Bool)

def step (current : Option η) : Mark η → Option η
  | .opened handle => some handle
  | .used _ spoilt => if spoilt then none else current

def current (start : Option η) (marks : List (Mark η)) : Option η := marks.foldl step start

def Valid : Option η → List (Mark η) → Prop
  | _,[] => True
  | start,.opened handle :: marks => Valid (step start (.opened handle)) marks
  | start,.used handle spoilt :: marks => start = some handle ∧ Valid (step start (.used handle spoilt)) marks

theorem current_append (start : Option η) (a b : List (Mark η)) :
    current start (a ++ b) = current (current start a) b := List.foldl_append

theorem valid_append (start : Option η) (a b : List (Mark η)) :
    Valid start (a ++ b) ↔ Valid start a ∧ Valid (current start a) b := by
  induction a generalizing start with
  | nil => simp [Valid,current]
  | cons mark a ih =>
    cases mark with
    | opened handle => exact ih _
    | used handle spoilt => exact (and_congr_right' (ih _)).trans (and_assoc.symm)

/-- A handle in hand was there at the start or has been opened. -/
theorem opened_of_current {start : Option η} {marks : List (Mark η)} {handle : η}
    (holds : current start marks = some handle) : start = some handle ∨ .opened handle ∈ marks := by
  induction marks generalizing start with
  | nil => exact .inl holds
  | cons mark marks ih =>
    have after : current (step start mark) marks = some handle := holds
    rcases ih after with now | later
    · cases mark with
      | opened other =>
        obtain rfl := Option.some.inj now
        exact .inr List.mem_cons_self
      | used other spoilt =>
        cases spoilt with
        | true => cases now
        | false => exact .inl now
    · exact .inr (List.mem_cons_of_mem _ later)

def openings (marks : List (Mark η)) : List η :=
  marks.filterMap fun mark =>
    match mark with
    | .opened handle => some handle
    | .used _ _ => none

theorem mem_openings {marks : List (Mark η)} {handle : η} (member : .opened handle ∈ marks) :
    handle ∈ openings marks := List.mem_filterMap.mpr ⟨_,member,rfl⟩

/-- Between a use that spoils its handle and the next use, another handle is opened. -/
theorem reopened {before between after : List (Mark η)} {handle other : η} {spoilt : Bool}
    (valid : Valid none (before ++ .used handle true :: (between ++ .used other spoilt :: after)))
    (once : (openings (before ++ .used handle true :: (between ++ .used other spoilt :: after))).Nodup) :
    .opened other ∈ between ∧ other ≠ handle := by
  obtain ⟨_,first,rest⟩ := (valid_append none before _).mp valid
  obtain ⟨_,second,_⟩ := (valid_append _ between _).mp rest
  have fresh : .opened other ∈ between := (opened_of_current second).resolve_left fun none => by cases none
  have known : .opened handle ∈ before := (opened_of_current first).resolve_left fun none => by cases none
  refine ⟨fresh,?_⟩
  rintro rfl
  rw [openings,List.filterMap_append,List.filterMap_cons_none rfl,List.filterMap_append] at once
  exact (List.nodup_append.mp once).2.2 other (mem_openings known) other
    (List.mem_append_left _ (mem_openings fresh)) rfl

end Lease
