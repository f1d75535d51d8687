import Mathlib.Data.List.GetD
import BugMuseum.Foundation.ByteReader
import BugMuseum.Foundation.PrefixWrites

namespace BugMuseum
namespace Foundation

/-!
# Access with a check of the bounds

The functions here read and write a buffer like the indexing of C, except that an index
outside the buffer gives an error instead of a byte.  A function that is written with them
and never gives that error never leaves its buffers.
-/

variable {ε Letter : Type} (outside : ε)

/-- `buffer[i]`, or the error when the index is outside. -/
def fetch (buffer : List Letter) (i : Nat) : Except ε Letter :=
  match buffer[i]? with
  | some letter => .ok letter
  | none => .error outside

/-- `buffer[i] = letter;`, or the error when the index is outside.  The buffer
keeps its length. -/
def put (buffer : List Letter) (i : Nat) (letter : Letter) : Except ε (List Letter) :=
  if i < buffer.length then .ok (buffer.set i letter) else .error outside

/-- The `length` bytes from an offset on, all of which must lie in the
buffer. -/
def fetchSlice (data : Bytes) (offset length : Nat) : Except ε Bytes :=
  if offset + length ≤ data.length then .ok (slice data offset length) else .error outside

/-- The first `length` bytes, as a field of that length. -/
def fetchField (data : Bytes) (length : Nat) : Except ε (Field length) :=
  if inside : length ≤ data.length then .ok ⟨data.take length, List.length_take_of_le inside⟩ else .error outside

/-- `for (i = 0; i < count; i++) target[i] = source[i];`, with a check of both
indices in every turn. -/
def copyRange (source target : List Letter) (count : Nat) : Except ε (List Letter) :=
  (List.range count).foldlM
    (fun buffer i => do
      let letter ← fetch outside source i
      put outside buffer i letter)
    target

/-- `strcpy(block, text);`, where the terminator of the text is copied as
well. -/
def putString (text block : Bytes) : Except ε Bytes :=
  copyRange outside (text ++ [0]) block (text.length + 1)

theorem fetch_of_getElem? {buffer : List Letter} {i : Nat} {letter : Letter} (stands : buffer[i]? = some letter) :
    fetch outside buffer i = .ok letter := by
  rw [fetch, stands]

theorem fetch_getD {buffer : List Letter} {i : Nat} (inside : i < buffer.length) (missing : Letter) :
    fetch outside buffer i = .ok (buffer.getD i missing) := by
  apply fetch_of_getElem?
  rw [List.getElem?_eq_getElem inside, List.getD_eq_getElem buffer missing inside]

theorem fetch_of_le {buffer : List Letter} {i : Nat} (beyond : buffer.length ≤ i) :
    fetch outside buffer i = .error outside := by
  rw [fetch, List.getElem?_eq_none beyond]

theorem put_of_lt {buffer : List Letter} {i : Nat} (inside : i < buffer.length) (letter : Letter) :
    put outside buffer i letter = .ok (buffer.set i letter) :=
  if_pos inside

theorem put_of_le {buffer : List Letter} {i : Nat} (beyond : buffer.length ≤ i) (letter : Letter) :
    put outside buffer i letter = .error outside :=
  if_neg (Nat.not_lt.mpr beyond)

theorem fetchSlice_of_le {data : Bytes} {offset length : Nat} (inside : offset + length ≤ data.length) :
    fetchSlice outside data offset length = .ok (slice data offset length) :=
  if_pos inside

theorem fetchField_append {length : Nat} (front : Field length) (behind : Bytes) :
    fetchField outside (front.1 ++ behind) length = .ok front := by
  have inside : length ≤ (front.1 ++ behind).length := by
    rw [List.length_append, front.2]
    exact Nat.le_add_right _ _
  rw [fetchField, dif_pos inside]
  exact congrArg Except.ok (Subtype.ext (List.take_left' front.2))

/-- The letter behind a front that has been copied makes that front longer by
one.  This is one turn of the copying loop. -/
theorem covered_set {source target : List Letter} {n : Nat} (inSource : n < source.length)
    (inTarget : n < target.length) : (covered source n target).set n source[n] = covered source (n + 1) target := by
  have front : (source.take n).length = n := List.length_take_of_le (Nat.le_of_lt inSource)
  have behind : target.drop n = target[n] :: target.drop (n + 1) := List.drop_eq_getElem_cons inTarget
  have longer : source.take (n + 1) = source.take n ++ [source[n]] := List.take_succ_eq_append_getElem inSource
  rw [covered, covered, behind, List.set_append_right _ _ front.le, front, Nat.sub_self, List.set_cons_zero, longer,
    List.append_assoc]
  rfl

/-- A write behind the part that is written makes that part longer.  The
invariant of a loop that fills a buffer is that its front is a text and the
rest is as it was. -/
theorem put_behind {text old : List Letter} (inside : text.length < old.length) (letter : Letter) :
    put outside (text ++ old.drop text.length) text.length letter =
      .ok ((text ++ [letter]) ++ old.drop (text ++ [letter]).length) := by
  have size : (text ++ old.drop text.length).length = old.length := by
    rw [List.length_append, List.length_drop, Nat.add_sub_cancel' (Nat.le_of_lt inside)]
  have behind : old.drop text.length = old[text.length] :: old.drop (text.length + 1) :=
    List.drop_eq_getElem_cons inside
  rw [put_of_lt outside (size.symm ▸ inside), List.set_append_right _ _ (Nat.le_refl _), Nat.sub_self, behind,
    List.set_cons_zero, List.length_append, List.length_singleton, List.append_assoc]
  rfl

/-- A text that is built up to a limit may be cut to the limit as it grows, or
at the end: the result is the same. -/
theorem take_append_cut {text : List Letter} {limit : Nat} (bound : text.length ≤ limit) (more rest : List Letter) :
    ((text ++ more.take (limit - text.length)) ++ rest).take limit = (text ++ (more ++ rest)).take limit := by
  by_cases fits : more.length ≤ limit - text.length
  · rw [List.take_of_length_le fits, List.append_assoc]
  · have short : limit - text.length ≤ more.length := Nat.le_of_not_le fits
    have full : (text ++ more.take (limit - text.length)).length = limit := by
      rw [List.length_append, List.length_take_of_le short, Nat.add_sub_cancel' bound]
    rw [List.take_append_of_le_length full.ge, List.take_of_length_le full.le, List.take_append,
      List.take_of_length_le bound, List.take_append_of_le_length short]

theorem covered_length {text old : List Letter} {n : Nat} (inText : n ≤ text.length) (inOld : n ≤ old.length) :
    (covered text n old).length = old.length := by
  rw [covered, List.length_append, List.length_take_of_le inText, List.length_drop, Nat.add_sub_cancel' inOld]

/-- The loop copies the front of the source, unless it leaves one of the two
buffers.  There is no third outcome. -/
theorem copyRange_eq (source target : List Letter) (count : Nat) :
    copyRange outside source target count =
      if count ≤ source.length ∧ count ≤ target.length then .ok (covered source count target)
      else .error outside := by
  induction count with
  | zero =>
      rw [if_pos ⟨Nat.zero_le _, Nat.zero_le _⟩, covered_zero]
      rfl
  | succ n inductionHypothesis =>
      have unfolded : copyRange outside source target (n + 1) = copyRange outside source target n >>= fun buffer =>
          fetch outside source n >>= fun letter => put outside buffer n letter := by
        rw [copyRange, List.range_succ, List.foldlM_append]
        exact bind_congr fun buffer => bind_pure _
      rw [unfolded, inductionHypothesis]
      by_cases earlier : n ≤ source.length ∧ n ≤ target.length
      · rw [if_pos earlier]
        by_cases inSource : n < source.length
        · have read := fetch_of_getElem? outside (List.getElem?_eq_getElem inSource)
          have kept := covered_length earlier.1 earlier.2
          by_cases inTarget : n < target.length
          · rw [if_pos ⟨inSource, inTarget⟩]
            dsimp only [bind, Except.bind]
            rw [read]
            dsimp only
            rw [put_of_lt outside (kept.symm ▸ inTarget), covered_set inSource inTarget]
          · rw [if_neg (fun both => inTarget both.2)]
            dsimp only [bind, Except.bind]
            rw [read]
            exact put_of_le outside (kept.trans_le (Nat.not_lt.mp inTarget)) _
        · rw [if_neg (fun both => inSource both.1)]
          dsimp only [bind, Except.bind]
          rw [fetch_of_le outside (Nat.not_lt.mp inSource)]
      · rw [if_neg earlier, if_neg (fun both => earlier ⟨Nat.le_of_succ_le both.1, Nat.le_of_succ_le both.2⟩)]
        rfl

/-- A string is copied with its terminator, so its length must be smaller than
that of the block, and what stood behind the terminator stays. -/
theorem putString_eq (text block : Bytes) :
    putString outside text block =
      if text.length < block.length then .ok (text ++ 0 :: block.drop (text.length + 1)) else .error outside := by
  have length : (text ++ [(0 : UInt8)]).length = text.length + 1 := List.length_append
  rw [putString, copyRange_eq]
  by_cases fits : text.length < block.length
  · rw [if_pos ⟨length.ge, fits⟩, if_pos fits, covered, List.take_of_length_le length.le, List.append_assoc]
    rfl
  · rw [if_neg fun both => fits both.2, if_neg fits]

end Foundation
end BugMuseum
