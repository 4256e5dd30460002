import Mathlib.Logic.Function.Basic
import Mathlib.Logic.Relation

/-! Rows that name slots of a template store, with at most one capture under way. A row is
written only for a finished capture; rows and templates may go away at any time, and in any
order. -/
namespace SlotLedger

/-- A capture for `key` into `slot`; `stored` says that it is known to have succeeded. -/
structure Capture (κ σ : Type*) where
  key : κ
  slot : σ
  stored : Bool

structure Ledger (κ σ : Type*) where
  rows : κ → Option σ
  /-- For whom the template in a slot was captured. -/
  templates : σ → Option κ
  capture : Option (Capture κ σ)

variable {κ σ : Type*} [DecidableEq κ] [DecidableEq σ]

inductive Step (l : Ledger κ σ) : Ledger κ σ → Prop where
  /-- The slot is the one that the key's own row names, or unused. -/
  | start (key : κ) (slot : σ) (free : l.rows key = some slot ∨ ∀ k, l.rows k ≠ some slot) :
      Step l { l with capture := some ⟨key,slot,false⟩ }
  | store (c : Capture κ σ) (stored : Bool) (current : l.capture = some c) :
      Step l { l with
        templates := Function.update l.templates c.slot (some c.key), capture := some { c with stored } }
  | commit (c : Capture κ σ) (current : l.capture = some c) (stored : c.stored = true) :
      Step l { l with rows := Function.update l.rows c.key (some c.slot), capture := none }
  | abandon : Step l { l with capture := none }
  | erase (slot : σ) : Step l { l with templates := Function.update l.templates slot none }
  | remove (key : κ) : Step l { l with rows := Function.update l.rows key none }

def Ledger.Own (l : Ledger κ σ) (key : κ) (slot : σ) : Prop :=
  l.templates slot = none ∨ l.templates slot = some key

structure Owned (l : Ledger κ σ) : Prop where
  distinct : ∀ k k' slot, l.rows k = some slot → l.rows k' = some slot → k = k'
  labelled : ∀ k slot, l.rows k = some slot → l.Own k slot
  /-- No other row names the slot of the capture. -/
  reserved : ∀ c, l.capture = some c → ∀ k, l.rows k = some c.slot → k = c.key
  kept : ∀ c, l.capture = some c → c.stored = true → l.Own c.key c.slot

variable {l l' : Ledger κ σ}

omit [DecidableEq κ] in
theorem own_update_none (key : κ) (slot other : σ) (own : l.Own key other) :
    Function.update l.templates slot none other = none ∨
      Function.update l.templates slot none other = some key := by
  by_cases same : other = slot
  · subst other
    exact .inl (Function.update_self _ _ _)
  · rw [Function.update_of_ne same]
    exact own

omit [DecidableEq κ] in
theorem Owned.store (owned : Owned l) (c : Capture κ σ) (stored : Bool) (current : l.capture = some c) :
    Owned { l with
      templates := Function.update l.templates c.slot (some c.key), capture := some { c with stored } } where
  distinct := owned.distinct
  labelled k slot row := by
    by_cases same : slot = c.slot
    · subst slot
      obtain rfl := owned.reserved c current k row
      exact .inr (Function.update_self _ _ _)
    · have before := owned.labelled k slot row
      simpa [Ledger.Own,Function.update_of_ne same] using before
  reserved d now k row := by
    obtain rfl := Option.some.inj now
    exact owned.reserved c current k row
  kept d now _ := by
    obtain rfl := Option.some.inj now
    exact .inr (Function.update_self _ _ _)

omit [DecidableEq σ] in
theorem Owned.commit (owned : Owned l) (c : Capture κ σ) (current : l.capture = some c)
    (stored : c.stored = true) :
    Owned { l with rows := Function.update l.rows c.key (some c.slot), capture := none } where
  distinct k k' slot row row' := by
    simp only [Function.update_apply] at row row'
    split at row <;> split at row'
    next first second => rw [first,second]
    next first _ =>
      obtain rfl := Option.some.inj row
      rw [first,owned.reserved c current k' row']
    next _ second =>
      obtain rfl := Option.some.inj row'
      rw [second,owned.reserved c current k row]
    next => exact owned.distinct k k' slot row row'
  labelled k slot row := by
    simp only [Function.update_apply] at row
    split at row
    next same =>
      subst k
      obtain rfl := Option.some.inj row
      exact owned.kept c current stored
    next => exact owned.labelled k slot row
  reserved d now := by cases now
  kept d now := by cases now

omit [DecidableEq σ] in
theorem Owned.remove (owned : Owned l) (key : κ) :
    Owned { l with rows := Function.update l.rows key none } := by
  have earlier : ∀ k slot, Function.update l.rows key none k = some slot → l.rows k = some slot := by
    intro k slot row
    rw [Function.update_apply] at row
    split at row
    · cases row
    · exact row
  constructor
  · exact fun k k' slot row row' => owned.distinct k k' slot (earlier k slot row) (earlier k' slot row')
  · exact fun k slot row => owned.labelled k slot (earlier k slot row)
  · exact fun c current k row => owned.reserved c current k (earlier k c.slot row)
  · exact owned.kept

theorem Owned.step (owned : Owned l) (moved : Step l l') : Owned l' := by
  cases moved with
  | start key slot free =>
    refine ⟨owned.distinct,owned.labelled,fun c current => ?_,fun c current stored => ?_⟩
    · obtain rfl := Option.some.inj current
      intro k row
      rcases free with own | unused
      · exact owned.distinct k key slot row own
      · exact absurd row (unused k)
    · obtain rfl := Option.some.inj current
      cases stored
  | store c stored current => exact owned.store c stored current
  | commit c current stored => exact owned.commit c current stored
  | abandon => exact ⟨owned.distinct,owned.labelled,(fun _ current => by cases current),
      (fun _ current => by cases current)⟩
  | erase slot =>
    exact ⟨owned.distinct,fun k other row => own_update_none k slot other (owned.labelled k other row),
      owned.reserved,fun c current stored => own_update_none c.key slot c.slot (owned.kept c current stored)⟩
  | remove key => exact owned.remove key

/-- Ownership survives every sequence of operations. -/
theorem Owned.steps (owned : Owned l) (moved : Relation.ReflTransGen Step l l') : Owned l' := by
  induction moved with
  | refl => exact owned
  | tail _ last ih => exact ih.step last

end SlotLedger
