import BugMuseum.Foundation.CheckedAccess
import BugMuseum.Foundation.Terminated

namespace BugMuseum
namespace Foundation

/-!
# Copies that are padded to a count

`strncpy` and its kin write exactly as many letters as they are told: the string up to its
terminator or up to the count, and terminators behind it.  The copy has a terminator of its own
only if the string is shorter than the count.
-/

variable {ε Letter : Type} (outside : ε) (nul : Letter)

/-- `while (left--) target[i++] = 0;`, with a check of the index in every
turn. -/
def fillFrom : Nat -> Nat -> List Letter -> Except ε (List Letter)
  | 0, _, target => .ok target
  | left + 1, i, target => do
      let filled ← put outside target i nul
      fillFrom left (i + 1) filled

theorem put_next {written behind : List Letter} (old letter : Letter) :
    put outside (written ++ old :: behind) written.length letter = .ok ((written ++ [letter]) ++ behind) := by
  have inside : written.length < (written ++ old :: behind).length := by
    rw [List.length_append, List.length_cons]
    omega
  rw [put_of_lt outside inside, List.set_append_right _ _ (Nat.le_refl _), Nat.sub_self, List.set_cons_zero,
    List.append_assoc]
  rfl

/-- Behind what has been written there must be room for the terminators;
otherwise the loop leaves the target. -/
theorem fillFrom_eq (written behind : List Letter) (left : Nat) :
    fillFrom outside nul left written.length (written ++ behind) =
      if left ≤ behind.length then .ok (written ++ (List.replicate left nul ++ behind.drop left))
      else .error outside := by
  induction left generalizing written behind with
  | zero => rfl
  | succ left inductionHypothesis =>
      rw [fillFrom]
      cases behind with
      | nil =>
          rw [List.append_nil, put_of_le outside (Nat.le_refl _)]
          exact (if_neg (Nat.not_succ_le_zero left)).symm
      | cons old rest =>
          have later := inductionHypothesis (written ++ [nul]) rest
          rw [List.length_append, List.length_singleton] at later
          rw [put_next outside old]
          dsimp only [bind, Except.bind]
          rw [later, List.length_cons, List.append_assoc, List.replicate_succ, List.drop_succ_cons]
          simp only [Nat.succ_le_succ_iff]
          rfl

variable [DecidableEq Letter]

/-- The loop of `strncpy` from an index on.  When it meets a terminator it
goes on with terminators up to the count. -/
def copyPaddedFrom (source : List Letter) : Nat -> Nat -> List Letter -> Except ε (List Letter)
  | 0, _, target => .ok target
  | left + 1, i, target => do
      let letter ← fetch outside source i
      if letter = nul then fillFrom outside nul (left + 1) i target
      else do
        let copied ← put outside target i letter
        copyPaddedFrom source left (i + 1) copied

/-- `strncpy(target, source, count)` -/
def copyPadded (source target : List Letter) (count : Nat) : Except ε (List Letter) :=
  copyPaddedFrom outside nul source count 0 target

/-- `strlen(buffer)`, or the error when the buffer ends before a
terminator. -/
def lengthToNul : List Letter -> Except ε Nat
  | [] => .error outside
  | letter :: rest => if letter = nul then .ok 0 else (lengthToNul rest).map (· + 1)

/-- The string up to the count, with terminators up to the count behind it.  A
string of `count` letters or more gets none. -/
def paddedTo (count : Nat) (buffer : List Letter) : List Letter :=
  (untilNul nul buffer).take count ++ List.replicate (count - (untilNul nul buffer).length) nul

variable {nul}

theorem lengthToNul_of_mem {buffer : List Letter} (terminated : nul ∈ buffer) :
    lengthToNul outside nul buffer = .ok (untilNul nul buffer).length := by
  induction buffer with
  | nil => cases terminated
  | cons letter later inductionHypothesis =>
      rw [lengthToNul]
      by_cases ends : letter = nul
      · rw [if_pos ends, ends, untilNul_cons_nul]
        rfl
      · have further := (List.mem_cons.mp terminated).resolve_left (Ne.symm ends)
        rw [if_neg ends, inductionHypothesis further, untilNul_cons ends]
        rfl

theorem paddedTo_cons {letter : Letter} (other : letter ≠ nul) (count : Nat) (rest : List Letter) :
    paddedTo nul (count + 1) (letter :: rest) = letter :: paddedTo nul count rest := by
  rw [paddedTo, untilNul_cons other, List.take_succ_cons, List.length_cons, Nat.succ_sub_succ]
  rfl

/-- The loop copies what is ahead in the source behind what it has written, if
the count fits there, and if the source has as many letters or a
terminator. -/
theorem copyPaddedFrom_eq (written ahead behind : List Letter) (left : Nat) :
    copyPaddedFrom outside nul (written ++ ahead) left written.length (written ++ behind) =
      if left ≤ behind.length ∧ (left ≤ ahead.length ∨ nul ∈ ahead) then
        .ok (written ++ (paddedTo nul left ahead ++ behind.drop left))
      else .error outside := by
  induction left generalizing written ahead behind with
  | zero =>
      rw [if_pos ⟨Nat.zero_le _, Or.inl (Nat.zero_le _)⟩, paddedTo, List.take_zero, Nat.zero_sub]
      rfl
  | succ left inductionHypothesis =>
      rw [copyPaddedFrom]
      cases ahead with
      | nil =>
          rw [List.append_nil, fetch_of_le outside (Nat.le_refl _), if_neg]
          · rfl
          · rintro ⟨_, enough | terminated⟩
            · exact Nat.not_succ_le_zero left enough
            · cases terminated
      | cons letter rest =>
          have read : (written ++ letter :: rest)[written.length]? = some letter := by
            rw [List.getElem?_append_right (Nat.le_refl _), Nat.sub_self, List.getElem?_cons_zero]
          rw [fetch_of_getElem? outside read]
          dsimp only [bind, Except.bind]
          by_cases ends : letter = nul
          · rw [if_pos ends, fillFrom_eq, ends, paddedTo, untilNul_cons_nul]
            simp only [List.mem_cons_self, or_true, and_true, List.take_nil, List.nil_append, List.length_nil,
              Nat.sub_zero]
          · rw [if_neg ends]
            cases behind with
            | nil =>
                rw [List.append_nil, put_of_le outside (Nat.le_refl _)]
                exact (if_neg fun both => Nat.not_succ_le_zero left both.1).symm
            | cons old after =>
                have later := inductionHypothesis (written ++ [letter]) rest after
                rw [List.length_append, List.length_singleton, List.append_assoc written [letter] rest,
                  List.append_assoc written [letter] (paddedTo nul left rest ++ _)] at later
                rw [put_next outside old]
                dsimp only
                rw [show written ++ letter :: rest = written ++ ([letter] ++ rest) from rfl, later,
                  paddedTo_cons ends, List.drop_succ_cons, List.length_cons, List.length_cons]
                simp only [Nat.succ_le_succ_iff, List.mem_cons, Ne.symm ends, false_or]
                rfl

/-- A copied string is the string of the target, if a terminator is copied
with it or stands behind the copy.  The second case depends on what the target
held. -/
theorem paddedTo_append {source behind : List Letter} {count : Nat} (fits : (untilNul nul source).length ≤ count)
    (closed : (untilNul nul source).length < count ∨ behind.head? = some nul) :
    exists rest, paddedTo nul count source ++ behind = untilNul nul source ++ nul :: rest := by
  rw [paddedTo, List.take_of_length_le fits, List.append_assoc]
  rcases Nat.eq_or_lt_of_le fits with full | shorter
  · have next := closed.resolve_left full.not_lt
    rcases List.head?_eq_some_iff.mp next with ⟨rest, split⟩
    rw [full, Nat.sub_self, split]
    exact ⟨rest, rfl⟩
  · rcases Nat.exists_eq_add_of_lt shorter with ⟨spare, padding⟩
    have zeros : count - (untilNul nul source).length = spare + 1 := by omega
    rw [zeros, List.replicate_succ, List.cons_append]
    exact ⟨_, rfl⟩

/-- The whole copy, with the two conditions under which it leaves neither
buffer. -/
theorem copyPadded_eq (source target : List Letter) (count : Nat) :
    copyPadded outside nul source target count =
      if count ≤ target.length ∧ (count ≤ source.length ∨ nul ∈ source) then
        .ok (paddedTo nul count source ++ target.drop count)
      else .error outside :=
  copyPaddedFrom_eq outside [] source target count

end Foundation
end BugMuseum
