import Mathlib.Data.List.TakeWhile

namespace BugMuseum
namespace Foundation

/-!
# Tokens

A tokenizer skips delimiters, takes the letters up to the next delimiter, and goes on behind
it.  Its tokens are the nonempty segments of the text, in their order.
-/

variable {Letter : Type} (delimiter : Letter -> Bool)

/-- One call of the tokenizer: the token, and what is left behind its
delimiter.  Delimiters in front of the token are skipped. -/
def nextToken (text : List Letter) : Option (List Letter × List Letter) :=
  match text.dropWhile delimiter with
  | [] => none
  | s@(_ :: _) => some (s.takeWhile (!delimiter ·), (s.dropWhile (!delimiter ·)).tail)

/-- The calls until there are no more tokens.  Each takes a letter at least,
so the length of the text is enough fuel. -/
def tokensAtFrom : Nat -> List Letter -> List (List Letter)
  | 0, _ => []
  | fuel + 1, text =>
      match nextToken delimiter text with
      | none => []
      | some (token, rest) => token :: tokensAtFrom fuel rest

def tokensAt (text : List Letter) : List (List Letter) :=
  tokensAtFrom delimiter (text.length + 1) text

/-- The segments between delimiters that are not empty.  This is what the
tokens are to be, stated without a loop. -/
def segments (text : List Letter) : List (List Letter) :=
  (text.splitOnP delimiter).filter (!·.isEmpty)

variable {delimiter}

theorem segments_delimiter {letter : Letter} (isDelimiter : delimiter letter = true) (rest : List Letter) :
    segments delimiter (letter :: rest) = segments delimiter rest := by
  rw [segments, List.splitOnP_cons_eq_if_modifyHead, if_pos isDelimiter]
  rfl

theorem segments_dropWhile (text : List Letter) :
    segments delimiter (text.dropWhile delimiter) = segments delimiter text := by
  induction text with
  | nil => rfl
  | cons letter rest inductionHypothesis =>
      rw [List.dropWhile_cons]
      split
      · rename_i isDelimiter
        rw [inductionHypothesis, segments_delimiter isDelimiter]
      · rfl

/-- The first segment goes up to the first delimiter, and the others are those
of the text behind it. -/
theorem segments_takeWhile {letter : Letter} (other : delimiter letter = false) (rest : List Letter) :
    segments delimiter (letter :: rest) =
      (letter :: rest).takeWhile (!delimiter ·) ::
        segments delimiter (((letter :: rest).dropWhile (!delimiter ·)).tail) := by
  have whole : (letter :: rest).takeWhile (!delimiter ·) ++ (letter :: rest).dropWhile (!delimiter ·) =
      letter :: rest := List.takeWhile_append_dropWhile
  have inside : forall x, x ∈ (letter :: rest).takeWhile (!delimiter ·) -> delimiter x = false := by
    intro x member
    have kept : (!delimiter x) = true := List.mem_takeWhile_imp (p := (!delimiter ·)) member
    simpa using kept
  have nonempty : (letter :: rest).takeWhile (!delimiter ·) ≠ [] := by
    rw [List.takeWhile_cons_of_pos (by simp [other])]
    exact List.cons_ne_nil _ _
  have stops := List.head?_dropWhile_not (!delimiter ·) (letter :: rest)
  generalize (letter :: rest).takeWhile (!delimiter ·) = front at whole inside nonempty ⊢
  have kept : [front].filter (!·.isEmpty) = [front] := by
    rw [List.filter_cons_of_pos (by simpa using nonempty), List.filter_nil]
  cases behind : (letter :: rest).dropWhile (!delimiter ·) with
  | nil =>
      rw [behind, List.append_nil] at whole
      rw [← whole, segments, List.splitOnP_eq_singleton inside, kept]
      rfl
  | cons separator later =>
      rw [behind] at whole stops
      have isDelimiter : delimiter separator = true := by simpa using stops
      rw [← whole, segments, List.splitOnP_append_cons _ _ isDelimiter, List.splitOnP_eq_singleton inside,
        List.filter_append, kept]
      rfl

theorem nextToken_segments (text : List Letter) :
    segments delimiter text =
      match nextToken delimiter text with
      | none => []
      | some (token, rest) => token :: segments delimiter rest := by
  rw [nextToken, ← segments_dropWhile]
  have starts := List.head?_dropWhile_not delimiter text
  cases skipped : text.dropWhile delimiter with
  | nil => rfl
  | cons letter rest =>
      rw [skipped] at starts
      exact segments_takeWhile starts rest

theorem nextToken_length {text token rest : List Letter} (next : nextToken delimiter text = some (token, rest)) :
    rest.length < text.length := by
  have shorter := (List.dropWhile_sublist delimiter (l := text)).length_le
  rw [nextToken] at next
  cases skipped : text.dropWhile delimiter with
  | nil =>
      rw [skipped] at next
      cases next
  | cons letter later =>
      rw [skipped] at next shorter
      cases next
      have starts := List.head?_dropWhile_not delimiter text
      rw [skipped] at starts
      have other : delimiter letter = false := starts
      have behind := (List.dropWhile_sublist (!delimiter ·) (l := later)).length_le
      rw [List.dropWhile_cons_of_pos (by simp [other]), List.length_tail]
      rw [List.length_cons] at shorter
      omega

/-- The tokens of a text are its nonempty segments, however many delimiters
stand between them. -/
theorem tokensAt_eq_segments (text : List Letter) : tokensAt delimiter text = segments delimiter text := by
  have enough : forall fuel text, text.length < fuel -> tokensAtFrom delimiter fuel text = segments delimiter text := by
    intro fuel
    induction fuel with
    | zero => exact fun text impossible => absurd impossible (Nat.not_lt_zero _)
    | succ fuel inductionHypothesis =>
        intro text inside
        rw [tokensAtFrom, nextToken_segments text]
        cases next : nextToken delimiter text with
        | none => rfl
        | some pair =>
            rcases pair with ⟨token, rest⟩
            have shorter := nextToken_length next
            dsimp only
            rw [inductionHypothesis rest (by omega)]
  exact enough _ text (Nat.lt_succ_self _)

end Foundation
end BugMuseum
