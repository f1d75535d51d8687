import Mathlib.Data.List.Basic

namespace BugMuseum
namespace Foundation

/-!
# Texts with placeholders

A placeholder is a name between an opening mark of two letters and the next closing
mark.  A text is read from left to right as letters that stand for themselves and names
that stand for something else; an opening mark without a closing mark behind it is two
letters like any others.
-/

/-- The marks around a name: two letters that open it and one that closes it.
A name runs up to the first closing mark. -/
structure Marks (Letter : Type) where
  first : Letter
  second : Letter
  closing : Letter

inductive Token (Letter : Type) where
  | letter (letter : Letter)
  | reference (name : List Letter)

variable {Letter : Type} [DecidableEq Letter] (marks : Marks Letter)

/-- What stands before the first closing mark, and what stands behind it, if
there is a closing mark at all. -/
def splitClosing : List Letter -> Option (List Letter × List Letter)
  | [] => none
  | letter :: rest =>
      if letter = marks.closing then some ([], rest)
      else (splitClosing rest).map fun parts => (letter :: parts.1, parts.2)

/-- The name of a placeholder at the start of a text, and what stands behind
it.  The name may be empty, and may contain opening marks. -/
def opened : List Letter -> Option (List Letter × List Letter)
  | first :: second :: rest =>
      if first = marks.first ∧ second = marks.second then splitClosing marks rest else none
  | _ => none

theorem splitClosing_length {text name after : List Letter} (closes : splitClosing marks text = some (name, after)) :
    text.length = name.length + (after.length + 1) := by
  induction text generalizing name with
  | nil => cases closes
  | cons letter rest inductionHypothesis =>
      rw [splitClosing] at closes
      split at closes
      · cases closes
        rw [List.length_cons, List.length_nil, Nat.zero_add]
      · rcases Option.map_eq_some_iff.mp closes with ⟨parts, later, equal⟩
        cases equal
        rw [List.length_cons, inductionHypothesis later, List.length_cons]
        omega

theorem opened_eq_some {text name after : List Letter} (opens : opened marks text = some (name, after)) :
    exists rest, text = marks.first :: marks.second :: rest ∧ splitClosing marks rest = some (name, after) := by
  unfold opened at opens
  split at opens
  · rename_i first second rest
    split at opens
    · rename_i same
      exact ⟨rest, by rw [same.1, same.2], opens⟩
    · cases opens
  · cases opens

theorem opened_shorter {text : List Letter} {parts : List Letter × List Letter}
    (opens : opened marks text = some parts) : parts.2.length < text.length := by
  rcases opened_eq_some marks opens with ⟨rest, rfl, closes⟩
  have length := splitClosing_length marks closes
  rw [List.length_cons, List.length_cons]
  omega

/-- The tokens of a text, read from the left.  An opening mark whose name is
never closed is two letters, and the text goes on behind the first. -/
def tokens : List Letter -> List (Token Letter)
  | [] => []
  | letter :: rest =>
      match _opens : opened marks (letter :: rest) with
      | some parts => .reference parts.1 :: tokens parts.2
      | none => .letter letter :: tokens rest
termination_by text => text.length
decreasing_by
  · exact opened_shorter marks _opens
  · exact Nat.lt_succ_self _

/-- What a token stands for, when the names have values.  A letter stands for
itself. -/
def Token.render (value : List Letter -> List Letter) : Token Letter -> List Letter
  | .letter sign => [sign]
  | .reference name => value name

/-- The text with every placeholder replaced by the value of its name.  Values
are not read for placeholders again. -/
def substitute (value : List Letter -> List Letter) (text : List Letter) : List Letter :=
  (tokens marks text).flatMap (Token.render value)

@[simp] theorem tokens_nil : tokens marks [] = [] := by
  rw [tokens]

theorem tokens_opened {text name after : List Letter} (opens : opened marks text = some (name, after)) :
    tokens marks text = .reference name :: tokens marks after := by
  cases text with
  | nil => cases opens
  | cons letter rest =>
      rw [tokens]
      split
      · rename_i parts found
        rw [found] at opens
        cases opens
        rfl
      · rename_i missing
        rw [missing] at opens
        cases opens

theorem tokens_plain {letter : Letter} {rest : List Letter} (plain : opened marks (letter :: rest) = none) :
    tokens marks (letter :: rest) = .letter letter :: tokens marks rest := by
  rw [tokens]
  split
  · rename_i parts found
    rw [found] at plain
    cases plain
  · rfl

end Foundation
end BugMuseum
