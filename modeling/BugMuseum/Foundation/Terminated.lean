import Mathlib.Data.List.TakeWhile

namespace BugMuseum
namespace Foundation

/-!
# Strings that end at a terminator

A buffer holds the string in front of its first terminator.  What stands behind that does not
matter, and without a terminator the string goes on to the end of the buffer.
-/

variable {Letter : Type} [DecidableEq Letter] (nul : Letter)

/-- The string in a buffer, which may go on to its end.  It is the same notion
as for bytes, over letters of any kind. -/
def untilNul (buffer : List Letter) : List Letter :=
  buffer.takeWhile (· ≠ nul)

variable {nul}

theorem untilNul_cons_nul (rest : List Letter) : untilNul nul (nul :: rest) = [] :=
  List.takeWhile_cons_of_neg (by simp)

theorem untilNul_cons {letter : Letter} (other : letter ≠ nul) (rest : List Letter) :
    untilNul nul (letter :: rest) = letter :: untilNul nul rest :=
  List.takeWhile_cons_of_pos (decide_eq_true other)

theorem nul_not_mem_untilNul (buffer : List Letter) : nul ∉ untilNul nul buffer := by
  intro member
  have different := @List.mem_takeWhile_imp Letter (fun letter => decide (letter ≠ nul)) buffer nul member
  exact of_decide_eq_true different rfl

/-- A string goes on behind letters that are not the terminator. -/
theorem untilNul_append {text : List Letter} (clean : nul ∉ text) (rest : List Letter) :
    untilNul nul (text ++ rest) = text ++ untilNul nul rest := by
  apply List.takeWhile_append_of_pos
  intro letter member
  apply decide_eq_true
  rintro rfl
  exact clean member

theorem untilNul_clean {text : List Letter} (clean : nul ∉ text) : untilNul nul text = text := by
  have whole := untilNul_append clean []
  rwa [List.append_nil, show untilNul nul [] = [] from rfl, List.append_nil] at whole

/-- A buffer with a terminator consists of its string, the terminator and a
rest, of which nothing is known. -/
theorem eq_untilNul_append {buffer : List Letter} (terminated : nul ∈ buffer) :
    exists rest, buffer = untilNul nul buffer ++ nul :: rest := by
  induction buffer with
  | nil => cases terminated
  | cons letter later inductionHypothesis =>
      by_cases ends : letter = nul
      · rw [ends, untilNul_cons_nul]
        exact ⟨later, rfl⟩
      · have further := (List.mem_cons.mp terminated).resolve_left (Ne.symm ends)
        rcases inductionHypothesis further with ⟨rest, split⟩
        rw [untilNul_cons ends]
        exact ⟨rest, congrArg (letter :: ·) split⟩

/-- What stands behind a terminator does not matter to the string. -/
theorem untilNul_append_nul (text rest : List Letter) : untilNul nul (text ++ nul :: rest) = untilNul nul text := by
  induction text with
  | nil => exact untilNul_cons_nul rest
  | cons letter later inductionHypothesis =>
      rw [List.cons_append]
      by_cases ends : letter = nul
      · rw [ends, untilNul_cons_nul, untilNul_cons_nul]
      · rw [untilNul_cons ends, untilNul_cons ends, inductionHypothesis]

theorem untilNul_terminated {buffer : List Letter} (terminated : nul ∈ buffer) (behind : List Letter) :
    untilNul nul (buffer ++ behind) = untilNul nul buffer := by
  rcases List.append_of_mem terminated with ⟨front, rest, split⟩
  rw [split, List.append_assoc, List.cons_append, untilNul_append_nul, untilNul_append_nul]

theorem untilNul_length_le (buffer : List Letter) : (untilNul nul buffer).length ≤ buffer.length :=
  (List.takeWhile_prefix _).length_le

end Foundation
end BugMuseum
