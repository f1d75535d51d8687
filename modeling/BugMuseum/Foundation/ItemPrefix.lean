import Mathlib.Data.List.Basic

namespace BugMuseum
namespace Foundation

/-!
# The complete items in front of a text

A text may start with written items, one behind the other, and go on with anything: with part
of an item, or with more items than are wanted.  If a reader inverts the way an item is written,
then the items it reads one by one, up to a number, are the longest list of items that the
text starts with.
-/

variable {Item Letter ε : Type} (encode : Item -> List Letter)

/-- The text starts with these items, at most so many, and with no longer list
of items.  There is at most one such list. -/
structure LongestFront (count : Nat) (body : List Letter) (items : List Item) : Prop where
  front : items.flatMap encode <+: body
  few : items.length ≤ count
  longest : forall others, others.flatMap encode <+: body -> others.length ≤ count -> others <+: items

/-- The reader takes what is written and nothing else: it succeeds exactly on
a text that starts with a written item, and leaves what stands behind it. -/
def Inverts (read : List Letter -> Except ε (Item × List Letter)) : Prop :=
  forall input item rest, read input = .ok (item, rest) ↔ input = encode item ++ rest

/-- The items in front, at most so many.  The first that cannot be read ends
them, whatever stands behind it. -/
def itemsIn (read : List Letter -> Except ε (Item × List Letter)) : Nat -> List Letter -> List Item
  | 0, _ => []
  | count + 1, body =>
      match read body with
      | .error _ => []
      | .ok (item, rest) => item :: itemsIn read count rest

variable {encode}

theorem LongestFront.unique {count : Nat} {body : List Letter} {items others : List Item}
    (longest : LongestFront encode count body items) (longestOther : LongestFront encode count body others) :
    items = others := by
  have first := longestOther.longest items longest.front longest.few
  have second := longest.longest others longestOther.front longestOther.few
  exact first.eq_of_length (Nat.le_antisymm first.length_le second.length_le)

theorem length_itemsIn (read : List Letter -> Except ε (Item × List Letter)) (count : Nat) (body : List Letter) :
    (itemsIn read count body).length ≤ count := by
  induction count generalizing body with
  | zero => exact Nat.le_refl _
  | succ count inductionHypothesis =>
      rw [itemsIn]
      split
      · exact Nat.zero_le _
      · exact Nat.succ_le_succ (inductionHypothesis _)

variable {read : List Letter -> Except ε (Item × List Letter)}

/-- What is read one by one is the longest list of items in front.  So a
reader that stops at the first failure loses nothing that could be had without
searching. -/
theorem Inverts.longestFront (inverts : Inverts encode read) (count : Nat) (body : List Letter) :
    LongestFront encode count body (itemsIn read count body) := by
  refine ⟨?_, length_itemsIn read count body, ?_⟩
  · induction count generalizing body with
    | zero => exact List.nil_prefix
    | succ count inductionHypothesis =>
        rw [itemsIn]
        split
        · exact List.nil_prefix
        · rename_i item rest taken
          rw [(inverts body item rest).mp taken, List.flatMap_cons]
          exact (List.prefix_append_right_inj _).mpr (inductionHypothesis rest)
  · induction count generalizing body with
    | zero =>
        intro others _ few
        rw [List.length_eq_zero_iff.mp (Nat.le_zero.mp few)]
        exact List.nil_prefix
    | succ count inductionHypothesis =>
        intro others front few
        cases others with
        | nil => exact List.nil_prefix
        | cons item later =>
            rcases front with ⟨rest, rfl⟩
            have taken : read ((item :: later).flatMap encode ++ rest) = .ok (item, later.flatMap encode ++ rest) := by
              rw [inverts, List.flatMap_cons, List.append_assoc]
            rw [itemsIn, taken]
            have further := inductionHypothesis (later.flatMap encode ++ rest) later (List.prefix_append ..)
              (Nat.le_of_succ_le_succ few)
            exact List.cons_prefix_cons.mpr ⟨rfl, further⟩

end Foundation
end BugMuseum
