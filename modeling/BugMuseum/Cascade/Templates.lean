import BugMuseum.Cascade.Profile

namespace BugMuseum
namespace Cascade

open Foundation

/-!
# Templates

`CfgExpandTemplate` replaces each `${KEY}` of a template by the value of the first entry
with that name.  The text is built in a buffer of 512 bytes and passes through one
of 128 bytes on its way to the caller.
-/

/-- An access outside a buffer or through a null pointer.  What happens next
is not for the source to say. -/
inductive Mishap where
  | scratch (copied : Nat)    -- a blob that is too long for `scratch`
  | field                     -- a number that is too long for `field`
  | line (text : Bytes)       -- a text that is too long for `line`
  | norm (key : CStr)         -- a key that is too long for `norm`
  | nullName                  -- the name of an entry that has none

def resolvedSize : Nat := 512

def lineSize : Nat := 128

def dollar : UInt8 := 36
def openBrace : UInt8 := 123
def closeBrace : UInt8 := 125

/-- `while (j < n && s[j] != '}') j++;` -/
def closingFrom (s : Bytes) : Nat -> Nat -> Nat
  | 0, j => j
  | fuel + 1, j => if j < s.length ∧ s.getD j 0 ≠ closeBrace then closingFrom s fuel (j + 1) else j

/-- The loop from the index `i` on, with `resolved[0..w)`.  Every turn
advances the index, so the length of the value bounds the turns.  There is no
result when the search for a name meets an entry without one. -/
def resolveFrom (p : CfgProfile) (s : Bytes) : Nat -> Nat -> Bytes -> Option Bytes
  | 0, _, resolved => some resolved
  | fuel + 1, i, resolved =>
      if i < s.length ∧ resolved.length < resolvedSize - 1 then
        let j := closingFrom s s.length (i + 2)
        if (s.getD i 0 = dollar ∧ i + 1 < s.length ∧ s.getD (i + 1) 0 = openBrace) ∧ j < s.length then
          match findEntry p (slice s (i + 2) (j - (i + 2))) with
          | .nullName => none
          | .absent => resolveFrom p s fuel (j + 1) resolved
          | .found ref =>
              let room := resolvedSize - 1 - resolved.length
              resolveFrom p s fuel (j + 1) (resolved ++ (ref.value.getD []).take room)
        else resolveFrom p s fuel (i + 1) (resolved ++ [s.getD i 0])
      else some resolved

def resolve (p : CfgProfile) (s : Bytes) : Option Bytes :=
  resolveFrom p s s.length 0 []

/-- `strncpy(out, line, 255); out[255] = '\0';` -/
def deliver (text out : Bytes) : Bytes :=
  overwrite (overwrite out 0 (text.take 255 ++ List.replicate (255 - text.length) 0)) 255 [0]

/-- `CfgExpandTemplate`: the status and the caller's buffer, unless the text
does not fit in `line`. -/
def cfgExpandTemplate (p : CfgProfile) (e : CfgEntry) (out : Bytes) : Except Mishap (Int × Bytes) :=
  match e.value with
  | none => .ok (cfgEio, overwrite out 0 [0])
  | some s =>
      match resolve p s with
      | none => .error .nullName
      | some resolved =>
          let text := cString resolved
          if text.length < lineSize then .ok (cfgOk, deliver text out) else .error (.line text)

end Cascade
end BugMuseum
