import Mathlib.Data.List.Basic

namespace BugMuseum
namespace Foundation

/-!
# Searching a list whose items may have no key

The first item with a key is wanted.  An item that has no key at all cannot be compared,
so the search ends there as well, without a result.
-/

inductive Sought (Item : Type) where
  | found (item : Item)
  | absent
  | keyless

variable {Item Key : Type} (keyOf : Item -> Option Key)

/-- All items have a key, and it is another one, so a search for this key ends
without a result and without trouble. -/
def Lacks (key : Key) (items : List Item) : Prop :=
  forall item, item ∈ items -> keyOf item ≠ none ∧ keyOf item ≠ some key

/-- An item without a key lies behind an item with this key, so that a search
for the key ends before it comes to one. -/
def Readable (key : Key) (items : List Item) : Prop :=
  forall before item after, items = before ++ item :: after -> keyOf item = none ->
    exists other, other ∈ before ∧ keyOf other = some key

theorem lacks_cons {key : Key} {item : Item} {rest : List Item} :
    Lacks keyOf key (item :: rest) ↔ (keyOf item ≠ none ∧ keyOf item ≠ some key) ∧ Lacks keyOf key rest :=
  List.forall_mem_cons

theorem readable_cons {key : Key} {item : Item} {rest : List Item} :
    Readable keyOf key (item :: rest) ↔
      keyOf item = some key ∨ (keyOf item ≠ none ∧ Readable keyOf key rest) := by
  constructor
  · intro readable
    by_cases same : keyOf item = some key
    · exact Or.inl same
    · right
      constructor
      · intro unkeyed
        rcases readable [] item rest rfl unkeyed with ⟨other, member, _⟩
        cases member
      · rintro before next after rfl unkeyed
        rcases readable (item :: before) next after rfl unkeyed with ⟨other, member, keyed⟩
        rcases List.mem_cons.mp member with rfl | later
        · exact absurd keyed same
        · exact ⟨other, later, keyed⟩
  · rintro (same | ⟨keyed, later⟩) before next after split unkeyed
    · cases before with
      | nil =>
          cases split
          rw [unkeyed] at same
          cases same
      | cons head before =>
          cases split
          exact ⟨item, List.mem_cons_self, same⟩
    · cases before with
      | nil =>
          cases split
          exact absurd unkeyed keyed
      | cons head before =>
          cases split
          rcases later before next after rfl unkeyed with ⟨other, member, own⟩
          exact ⟨other, List.mem_cons_of_mem item member, own⟩

variable [DecidableEq Key]

def seek (key : Key) : List Item -> Sought Item
  | [] => .absent
  | item :: rest =>
      match keyOf item with
      | none => .keyless
      | some own => if own = key then .found item else seek key rest

/-- The search as a search for the first item at which it ends, either because
it has the key or because it has none at all. -/
theorem seek_eq_find? {key : Key} {ends : Item -> Bool}
    (spec : forall item, ends item = true ↔ keyOf item = none ∨ keyOf item = some key) (items : List Item) :
    seek keyOf key items =
      match items.find? ends with
      | none => .absent
      | some item => if keyOf item = none then .keyless else .found item := by
  induction items with
  | nil => rfl
  | cons item rest inductionHypothesis =>
      rw [seek]
      cases keyed : keyOf item with
      | none =>
          rw [List.find?_cons_of_pos ((spec item).mpr (Or.inl keyed))]
          dsimp only
          rw [if_pos keyed]
      | some own =>
          dsimp only
          by_cases same : own = key
          · rw [if_pos same, List.find?_cons_of_pos ((spec item).mpr (Or.inr (keyed.trans (congrArg some same))))]
            dsimp only
            rw [keyed, if_neg (Option.some_ne_none own)]
          · have goesOn : ¬ ends item = true := by
              rw [spec, keyed]
              rintro (missing | equal)
              · cases missing
              · exact same (Option.some.inj equal)
            rw [if_neg same, List.find?_cons_of_neg goesOn]
            exact inductionHypothesis

theorem seek_found {key : Key} {items : List Item} {item : Item} (found : seek keyOf key items = .found item) :
    keyOf item = some key := by
  induction items with
  | nil => cases found
  | cons first rest inductionHypothesis =>
      rw [seek] at found
      cases keyed : keyOf first with
      | none =>
          rw [keyed] at found
          cases found
      | some own =>
          rw [keyed] at found
          dsimp only at found
          by_cases same : own = key
          · rw [if_pos same] at found
            cases found
            rw [keyed, same]
          · rw [if_neg same] at found
            exact inductionHypothesis found

theorem seek_eq_absent_iff {key : Key} {items : List Item} :
    seek keyOf key items = .absent ↔ Lacks keyOf key items := by
  induction items with
  | nil => exact iff_of_true rfl fun item member => absurd member List.not_mem_nil
  | cons first rest inductionHypothesis =>
      rw [seek, lacks_cons]
      cases keyed : keyOf first with
      | none => exact iff_of_false (fun absent => by cases absent) fun lacks => lacks.1.1 rfl
      | some own =>
          dsimp only
          by_cases same : own = key
          · rw [if_pos same]
            exact iff_of_false (fun absent => by cases absent) fun lacks => lacks.1.2 (congrArg some same)
          · rw [if_neg same, inductionHypothesis]
            refine (and_iff_right ⟨Option.some_ne_none own, ?_⟩).symm
            exact fun equal => same (Option.some.inj equal)

theorem seek_ne_keyless_iff {key : Key} {items : List Item} :
    seek keyOf key items ≠ .keyless ↔ Readable keyOf key items := by
  induction items with
  | nil =>
      refine iff_of_true (fun keyless => by cases keyless) ?_
      intro before item after split
      cases before <;> cases split
  | cons first rest inductionHypothesis =>
      rw [seek, readable_cons]
      cases keyed : keyOf first with
      | none =>
          refine iff_of_false (not_not_intro rfl) ?_
          rintro (same | ⟨present, _⟩)
          · cases same
          · exact present rfl
      | some own =>
          dsimp only
          by_cases same : own = key
          · rw [if_pos same]
            exact iff_of_true (fun keyless => by cases keyless) (Or.inl (congrArg some same))
          · have other : some own ≠ some key := fun equal => same (Option.some.inj equal)
            rw [if_neg same, inductionHypothesis, or_iff_right other, and_iff_right (Option.some_ne_none own)]

/-- Two searches end alike, and with a result, exactly when they look for the
same key and can read it, or when neither key is there. -/
theorem seek_agrees_iff {key other : Key} {items : List Item} :
    (seek keyOf other items = seek keyOf key items ∧ seek keyOf key items ≠ .keyless) ↔
      (other = key ∧ Readable keyOf key items) ∨ (Lacks keyOf key items ∧ Lacks keyOf other items) := by
  constructor
  · rintro ⟨same, read⟩
    cases outcome : seek keyOf key items with
    | found item =>
        left
        rw [outcome] at same
        have equal := (seek_found keyOf same).symm.trans (seek_found keyOf outcome)
        exact ⟨Option.some.inj equal, (seek_ne_keyless_iff keyOf).mp read⟩
    | absent =>
        right
        rw [outcome] at same
        exact ⟨(seek_eq_absent_iff keyOf).mp outcome, (seek_eq_absent_iff keyOf).mp same⟩
    | keyless => exact absurd outcome read
  · rintro (⟨rfl, readable⟩ | ⟨lacks, lacksOther⟩)
    · exact ⟨rfl, (seek_ne_keyless_iff keyOf).mpr readable⟩
    · have absent := (seek_eq_absent_iff keyOf).mpr lacks
      refine ⟨((seek_eq_absent_iff keyOf).mpr lacksOther).trans absent.symm, ?_⟩
      rw [absent]
      intro keyless
      cases keyless

end Foundation
end BugMuseum
