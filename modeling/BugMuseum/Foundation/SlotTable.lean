import Mathlib.Logic.Function.Basic
import Mathlib.Data.List.Basic

namespace BugMuseum
namespace Foundation

/-!
# Tables with a fixed number of slots

Both servers number their objects by the slot of a fixed-size table.  A new
object takes the first free slot and has its number for good, so that no two slots
hold the same object.  A counter is meant to agree with the number of occupied
slots.  The two lemmas on `occupied` are the arithmetic of
that counter: filling a free slot adds one, clearing an occupied one takes it
away again.
-/

variable {Entry : Type}

/-- The first free slot, as a scan from slot 0 finds it, or none when the
table is full. -/
def firstFree (size : Nat) (slots : Nat -> Option Entry) : Option Nat :=
  (List.range size).find? fun index => (slots index).isNone

/-- The number of occupied slots, which the counters of the servers are to
agree with. -/
def occupied (size : Nat) (slots : Nat -> Option Entry) : Nat :=
  (List.range size).countP fun index => (slots index).isSome

/-- Some slot of the table holds the entry.  For a table of objects this says
that the object is in use. -/
def Held (size : Nat) (slots : Nat -> Option Entry) (entry : Entry) : Prop :=
  exists index, index < size ∧ slots index = some entry

instance [DecidableEq Entry] (size : Nat) (slots : Nat -> Option Entry) (entry : Entry) :
    Decidable (Held size slots entry) :=
  inferInstanceAs (Decidable (exists index, index < size ∧ slots index = some entry))

theorem firstFree_some {size index : Nat} {slots : Nat -> Option Entry}
    (found : firstFree size slots = some index) : index < size ∧ slots index = none := by
  constructor
  · exact List.mem_range.mp (List.mem_of_find?_eq_some found)
  · simpa using List.find?_some found

theorem not_held_none (size : Nat) (entry : Entry) : ¬ Held size (fun _ => none) entry :=
  fun ⟨_, _, impossible⟩ => nomatch impossible

/-- Filling a free slot adds exactly its entry to those that are held. -/
theorem held_fill {size index : Nat} {slots : Nat -> Option Entry} {entry other : Entry}
    (inside : index < size) (free : slots index = none) :
    Held size (Function.update slots index (some entry)) other ↔
      Held size slots other ∨ other = entry := by
  constructor
  · rintro ⟨position, bound, holds⟩
    by_cases same : position = index
    · subst same
      rw [Function.update_self] at holds
      exact Or.inr (Option.some.inj holds).symm
    · rw [Function.update_of_ne same] at holds
      exact Or.inl ⟨position, bound, holds⟩
  · rintro (⟨position, bound, holds⟩ | same)
    · have different : position ≠ index := fun same => by rw [same, free] at holds; cases holds
      exact ⟨position, bound, by rwa [Function.update_of_ne different]⟩
    · exact ⟨index, inside, by rw [same, Function.update_self]⟩

/-- Clearing the only slot of an entry takes exactly that entry away. -/
theorem held_clear {size index : Nat} {slots : Nat -> Option Entry} {entry other : Entry}
    (holds : slots index = some entry)
    (unique : forall position, slots position = some entry -> position = index) :
    Held size (Function.update slots index none) other ↔ Held size slots other ∧ other ≠ entry := by
  constructor
  · rintro ⟨position, bound, held⟩
    by_cases same : position = index
    · subst same
      rw [Function.update_self] at held
      cases held
    · rw [Function.update_of_ne same] at held
      exact ⟨⟨position, bound, held⟩, fun sameEntry => same (unique position (sameEntry ▸ held))⟩
  · rintro ⟨⟨position, bound, held⟩, different⟩
    have apart : position ≠ index := by
      intro same
      subst same
      exact different (Option.some.inj (held.symm.trans holds))
    exact ⟨position, bound, by rwa [Function.update_of_ne apart]⟩

/-- Every entry knows the slot that holds it.  The number is what clients call
the entry by. -/
def Numbered (size : Nat) (slots : Nat -> Option Entry) (number : Entry -> Int) : Prop :=
  forall index entry, slots index = some entry -> index < size ∧ number entry = index

namespace Numbered

variable {size index : Nat} {slots : Nat -> Option Entry} {number number' : Entry -> Int} {entry : Entry}

/-- Two slots never hold the same entry, since it has one number only. -/
theorem unique (numbered : Numbered size slots number) {other : Nat} (here : slots index = some entry)
    (there : slots other = some entry) : index = other := by
  have hereNumber := (numbered index entry here).2
  have thereNumber := (numbered other entry there).2
  exact Int.ofNat.inj (hereNumber.symm.trans thereNumber)

/-- Only the numbers of the entries in the table matter, so an update of
anything else keeps it. -/
theorem congr (numbered : Numbered size slots number)
    (same : forall entry, Held size slots entry -> number' entry = number entry) :
    Numbered size slots number' := by
  intro index entry holds
  have old := numbered index entry holds
  exact ⟨old.1, (same entry ⟨index, old.1, holds⟩).trans old.2⟩

theorem fill (numbered : Numbered size slots number) (inside : index < size) (named : number entry = index) :
    Numbered size (Function.update slots index (some entry)) number := by
  intro position other holds
  by_cases same : position = index
  · rw [same, Function.update_self] at holds
    rw [same, ← Option.some.inj holds]
    exact ⟨inside, named⟩
  · rw [Function.update_of_ne same] at holds
    exact numbered position other holds

theorem clear (numbered : Numbered size slots number) (index : Nat) :
    Numbered size (Function.update slots index none) number := by
  intro position other holds
  by_cases same : position = index
  · rw [same, Function.update_self] at holds
    cases holds
  · rw [Function.update_of_ne same] at holds
    exact numbered position other holds

/-- Clearing a slot takes exactly its entry away, as no other slot holds
it. -/
theorem held_clear (numbered : Numbered size slots number) (holds : slots index = some entry)
    (other : Entry) :
    Held size (Function.update slots index none) other ↔ Held size slots other ∧ other ≠ entry :=
  Foundation.held_clear holds fun _ held => numbered.unique held holds

end Numbered

theorem occupied_none (size : Nat) : occupied size (fun _ => (none : Option Entry)) = 0 := by
  simp [occupied]

theorem occupied_succ (size : Nat) (slots : Nat -> Option Entry) :
    occupied (size + 1) slots = occupied size slots + if (slots size).isSome then 1 else 0 := by
  simp only [occupied, List.range_succ, List.countP_append, List.countP_singleton]

/-- A slot outside the table does not count. -/
theorem occupied_update_outside {size index : Nat} (slots : Nat -> Option Entry)
    (entry : Option Entry) (outside : size ≤ index) :
    occupied size (Function.update slots index entry) = occupied size slots := by
  apply List.countP_congr
  intro other member
  have different : other ≠ index :=
    Nat.ne_of_lt (Nat.lt_of_lt_of_le (List.mem_range.mp member) outside)
  rw [Function.update_of_ne different]

theorem occupied_fill {size index : Nat} {slots : Nat -> Option Entry} (entry : Entry)
    (inside : index < size) (free : slots index = none) :
    occupied size (Function.update slots index (some entry)) = occupied size slots + 1 := by
  induction size with
  | zero => exact absurd inside (Nat.not_lt_zero index)
  | succ size inductionHypothesis =>
      rw [occupied_succ, occupied_succ]
      rcases Nat.lt_succ_iff_lt_or_eq.mp inside with earlier | last
      · have different : size ≠ index := Nat.ne_of_gt earlier
        rw [inductionHypothesis earlier, Function.update_of_ne different]
        omega
      · subst last
        rw [occupied_update_outside slots _ (Nat.le_refl _), Function.update_self, free]
        simp

theorem occupied_clear {size index : Nat} {slots : Nat -> Option Entry} {entry : Entry}
    (inside : index < size) (taken : slots index = some entry) :
    occupied size (Function.update slots index none) + 1 = occupied size slots := by
  have cleared : Function.update slots index none index = none := Function.update_self ..
  have refilled := occupied_fill entry inside cleared
  rw [Function.update_idem, ← taken, Function.update_eq_self] at refilled
  exact refilled.symm

end Foundation
end BugMuseum
