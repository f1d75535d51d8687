import Mathlib.Data.List.Basic
import Mathlib.Logic.Function.Basic
import Mathlib.Order.MinMax

namespace BugMuseum
namespace Foundation

/-!
# Many copies of the front of one text

Each write copies as much of the front of one text as it likes to the front of a cell.
Two writes into the same cell are one write of the longer front, so what a cell holds in
the end depends on the longest write into it and on nothing else: neither the order of
the writes nor their repetition matters.
-/

variable {Key Letter : Type}

/-- The first `n` letters of a text, and what a cell held behind them. -/
def covered (text : List Letter) (n : Nat) (old : List Letter) : List Letter :=
  text.take n ++ old.drop n

theorem covered_zero (text old : List Letter) : covered text 0 old = old := by
  rw [covered, List.take_zero, List.drop_zero, List.nil_append]

theorem getElem?_covered {text : List Letter} {n : Nat} (fits : n ≤ text.length) (old : List Letter) (i : Nat) :
    (covered text n old)[i]? = if i < n then text[i]? else old[i]? := by
  have front : (text.take n).length = n := List.length_take_of_le fits
  rw [covered]
  by_cases inside : i < n
  · rw [if_pos inside, List.getElem?_append_left (front.symm ▸ inside), List.getElem?_take_of_lt inside]
  · rw [if_neg inside, List.getElem?_append_right (front.le.trans (Nat.not_lt.mp inside)), front,
      List.getElem?_drop, Nat.add_sub_cancel' (Nat.not_lt.mp inside)]

/-- The longer of two fronts hides the other, in whichever order they are
written. -/
theorem covered_covered {text : List Letter} {n m : Nat} (first : n ≤ text.length) (second : m ≤ text.length)
    (old : List Letter) : covered text m (covered text n old) = covered text (max n m) old := by
  ext1 i
  rw [getElem?_covered second, getElem?_covered first, getElem?_covered (Nat.max_le.mpr ⟨first, second⟩)]
  by_cases later : i < m
  · rw [if_pos later, if_pos (Nat.lt_of_lt_of_le later (Nat.le_max_right n m))]
  · rw [if_neg later]
    by_cases earlier : i < n
    · rw [if_pos earlier, if_pos (Nat.lt_of_lt_of_le earlier (Nat.le_max_left n m))]
    · rw [if_neg earlier, if_neg]
      exact Nat.not_lt.mpr (Nat.max_le.mpr ⟨Nat.not_lt.mp earlier, Nat.not_lt.mp later⟩)

section Writes

variable [DecidableEq Key]

/-- One write: a cell, and the length of the front.  The other cells keep what
they hold. -/
def writeFront (text : List Letter) (cell : Key -> List Letter) (write : Key × Nat) : Key -> List Letter :=
  Function.update cell write.1 (covered text write.2 (cell write.1))

/-- The length of the longest write into a cell, and zero for a cell that is
never written. -/
def reach (writes : List (Key × Nat)) (key : Key) : Nat :=
  writes.foldr (fun write longest => if write.1 = key then max write.2 longest else longest) 0

theorem lt_reach_iff {writes : List (Key × Nat)} {key : Key} {i : Nat} :
    i < reach writes key ↔ exists write, write ∈ writes ∧ write.1 = key ∧ i < write.2 := by
  induction writes with
  | nil => simp [reach]
  | cons write rest inductionHypothesis =>
      have unfolded : reach (write :: rest) key =
          if write.1 = key then max write.2 (reach rest key) else reach rest key := rfl
      rw [unfolded, List.exists_mem_cons_iff, ← inductionHypothesis]
      by_cases named : write.1 = key
      · rw [if_pos named, lt_max_iff, and_iff_right named]
      · rw [if_neg named]
        exact (or_iff_right fun here => named here.1).symm

/-- The longest write is one of the writes, so a limit on all of them is a
limit on it. -/
theorem reach_le {writes : List (Key × Nat)} {key : Key} {limit : Nat}
    (within : forall write, write ∈ writes -> write.1 = key -> write.2 ≤ limit) : reach writes key ≤ limit := by
  by_contra beyond
  rcases lt_reach_iff.mp (Nat.not_le.mp beyond) with ⟨write, member, named, longer⟩
  exact Nat.not_lt.mpr (within write member named) longer

theorem reach_congr {writes other : List (Key × Nat)}
    (same : forall write, write ∈ writes ↔ write ∈ other) (key : Key) : reach writes key = reach other key := by
  apply eq_of_forall_lt_iff
  intro i
  rw [lt_reach_iff, lt_reach_iff]
  exact exists_congr fun write => and_congr_left' (same write)

/-- After all writes a cell holds the longest front.  The right side does not
mention the order of the writes. -/
theorem foldl_writeFront {text : List Letter} {writes : List (Key × Nat)}
    (fits : forall write, write ∈ writes -> write.2 ≤ text.length) (cell : Key -> List Letter) (key : Key) :
    writes.foldl (writeFront text) cell key = covered text (reach writes key) (cell key) := by
  induction writes generalizing cell with
  | nil => exact (covered_zero text (cell key)).symm
  | cons write rest inductionHypothesis =>
      have fitsRest : forall later, later ∈ rest -> later.2 ≤ text.length := fun later member =>
        fits later (List.mem_cons_of_mem write member)
      have unfolded : reach (write :: rest) key =
          if write.1 = key then max write.2 (reach rest key) else reach rest key := rfl
      rw [List.foldl_cons, inductionHypothesis fitsRest, writeFront, unfolded]
      by_cases named : write.1 = key
      · rw [if_pos named, named, Function.update_self]
        exact covered_covered (fits write List.mem_cons_self)
          (reach_le fun later member _ => fitsRest later member) (cell key)
      · rw [if_neg named, Function.update_of_ne (Ne.symm named)]

end Writes

end Foundation
end BugMuseum
