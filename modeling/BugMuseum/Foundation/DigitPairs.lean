import Mathlib.Data.List.Basic

namespace BugMuseum
namespace Foundation

/-!
# Values that are written with two letters

A text is read in pairs from the left, up to the first pair that stands for nothing.  A
last letter without a partner is not used.  Several pairs may stand for one value, as
those of upper and lower case do, so a value has many spellings but each of them is read
as that value.
-/

variable {Letter Value : Type} (pair : Letter -> Letter -> Option Value)

/-- The values of the leading pairs, up to the first pair without a value or
to the end of the text. -/
def decodePairs : List Letter -> List Value
  | high :: low :: rest =>
      match pair high low with
      | some value => value :: decodePairs rest
      | none => []
  | _ => []

/-- The last letter, if it has no partner.  It waits for a first letter of
what follows. -/
def unpaired : List Letter -> List Letter
  | _ :: _ :: rest => unpaired rest
  | short => short

/-- The text consists of pairs that stand for these values, one behind the
other, and of nothing else. -/
inductive Spells : List Letter -> List Value -> Prop where
  | nil : Spells [] []
  | cons {high low : Letter} {value : Value} {text : List Letter} {values : List Value}
      (first : pair high low = some value) (later : Spells text values) :
      Spells (high :: low :: text) (value :: values)

variable {pair}

theorem decodePairs_short {text : List Letter} (short : text.length < 2) : decodePairs pair text = [] := by
  match text, short with
  | [], _ => rfl
  | [_], _ => rfl

theorem decodePairs_cons {high low : Letter} {value : Value} (stands : pair high low = some value)
    (rest : List Letter) : decodePairs pair (high :: low :: rest) = value :: decodePairs pair rest := by
  rw [decodePairs, stands]

theorem decodePairs_stop {high low : Letter} (nothing : pair high low = none) (rest : List Letter) :
    decodePairs pair (high :: low :: rest) = [] := by
  rw [decodePairs, nothing]

/-- The pair at a position where two letters are left, in front of the letters
behind it. -/
theorem drop_eq_pair {text : List Letter} {i : Nat} (inside : i + 1 < text.length) :
    text.drop i = text[i] :: text[i + 1] :: text.drop (i + 2) := by
  rw [List.drop_eq_getElem_cons (Nat.lt_of_succ_lt inside), List.drop_eq_getElem_cons inside]

theorem length_decodePairs (text : List Letter) : 2 * (decodePairs pair text).length ≤ text.length := by
  match text with
  | [] => exact Nat.le_refl _
  | [_] => exact Nat.zero_le _
  | high :: low :: rest =>
      have shorter := length_decodePairs rest
      cases stands : pair high low with
      | none =>
          rw [decodePairs_stop stands]
          exact Nat.zero_le _
      | some value =>
          rw [decodePairs_cons stands, List.length_cons, List.length_cons, List.length_cons]
          omega

/-- Each value is the value of the pair in its place: the one at twice its
index. -/
theorem getElem?_decodePairs {text : List Letter} {k : Nat} {value : Value}
    (read : (decodePairs pair text)[k]? = some value) :
    exists high low, text[2 * k]? = some high ∧ text[2 * k + 1]? = some low ∧ pair high low = some value := by
  match text with
  | [] => cases read
  | [_] => cases read
  | high :: low :: rest =>
      cases stands : pair high low with
      | none =>
          rw [decodePairs_stop stands] at read
          cases read
      | some first =>
          rw [decodePairs_cons stands] at read
          cases k with
          | zero =>
              cases read
              exact ⟨high, low, rfl, rfl, stands⟩
          | succ k => exact @getElem?_decodePairs rest k value read

/-- Behind the last value there is no pair that stands for one.  So no shorter
list of values would be all that the text has in front. -/
theorem decodePairs_ends {text : List Letter} {high low : Letter}
    (first : text[2 * (decodePairs pair text).length]? = some high)
    (second : text[2 * (decodePairs pair text).length + 1]? = some low) : pair high low = none := by
  match text with
  | [] => cases first
  | [_] => cases second
  | front :: back :: rest =>
      cases stands : pair front back with
      | none =>
          rw [decodePairs_stop stands] at first second
          cases first
          cases second
          exact stands
      | some value =>
          rw [decodePairs_cons stands] at first second
          exact @decodePairs_ends rest high low first second

theorem unpaired_cases (text : List Letter) : unpaired text = [] ∨ exists letter, unpaired text = [letter] := by
  match text with
  | [] => exact Or.inl rfl
  | [letter] => exact Or.inr ⟨letter, rfl⟩
  | _ :: _ :: rest => exact unpaired_cases rest

/-- When every pair stands for a value, a letter without a partner is paired
with what follows.  So a text that is cut in two can be read in two parts. -/
theorem decodePairs_append (total : forall high low, pair high low ≠ none) (text more : List Letter) :
    decodePairs pair (text ++ more) = decodePairs pair text ++ decodePairs pair (unpaired text ++ more) := by
  match text with
  | [] => rfl
  | [_] => rfl
  | high :: low :: rest =>
      rcases Option.ne_none_iff_exists'.mp (total high low) with ⟨value, stands⟩
      rw [List.cons_append, List.cons_append, decodePairs_cons stands, decodePairs_cons stands,
        decodePairs_append total rest more]
      rfl

theorem Spells.decode {text : List Letter} {values : List Value} (spells : Spells pair text values) :
    decodePairs pair text = values := by
  induction spells with
  | nil => rfl
  | cons first _ inductionHypothesis => rw [decodePairs_cons first, inductionHypothesis]

theorem Spells.length {text : List Letter} {values : List Value} (spells : Spells pair text values) :
    text.length = 2 * values.length := by
  induction spells with
  | nil => rfl
  | cons _ _ inductionHypothesis =>
      rw [List.length_cons, List.length_cons, List.length_cons, inductionHypothesis]
      omega

/-- A text that is used up spells the values that are read.  Together with its
converse, reading inverts writing. -/
theorem spells_decodePairs {text : List Letter} (whole : text.length = 2 * (decodePairs pair text).length) :
    Spells pair text (decodePairs pair text) := by
  match text with
  | [] => exact .nil
  | [_] => exact absurd whole Nat.one_ne_zero
  | high :: low :: rest =>
      cases stands : pair high low with
      | none =>
          rw [decodePairs_stop stands] at whole
          cases whole
      | some value =>
          rw [decodePairs_cons stands] at whole ⊢
          refine .cons stands (spells_decodePairs ?_)
          rw [List.length_cons, List.length_cons, List.length_cons] at whole
          omega

/-- If the letters of a pair are determined up to a relation by its value,
then so is a text by the values that it spells.  For hexadecimal digits the
relation is equality up to the case of letters. -/
theorem Spells.determined {same : Letter -> Letter -> Prop}
    (letters : forall high low high' low' value, pair high low = some value -> pair high' low' = some value ->
      same high high' ∧ same low low')
    {text other : List Letter} {values : List Value} (spells : Spells pair text values)
    (spellsOther : Spells pair other values) : List.Forall₂ same text other := by
  induction spells generalizing other with
  | nil =>
      cases spellsOther
      exact .nil
  | cons first _ inductionHypothesis =>
      cases spellsOther with
      | cons second later =>
          have pairs := letters _ _ _ _ _ first second
          exact .cons pairs.1 (.cons pairs.2 (inductionHypothesis later))

end Foundation
end BugMuseum
