import BugMuseum.Foundation.BlockHeap
import BugMuseum.Foundation.Terminated

namespace BugMuseum
namespace Foundation

/-!
# Strings in memory

A C string is what a block holds up to its first NUL byte.  Texts that a
program formats are ASCII, so they are written here as string literals and
turned into bytes.
-/

/-- A buffer and its 32-bit length, as a request carries them.  That the
length fits the word is a field, so no function has to ask for it. -/
structure Payload where
  bytes : Bytes
  fits : bytes.length < 2 ^ 32

/-- The C string at the start of a block: its bytes up to the first NUL, or
all of them if there is none. -/
def cString (block : Bytes) : Bytes :=
  block.takeWhile (· ≠ 0)

/-- The bytes of an ASCII text, without a terminator. -/
def ascii (text : String) : Bytes :=
  text.toList.map fun letter => UInt8.ofNat letter.toNat

/-- `%u` or `%d`: the digits of a number, with a sign in front of a negative
one. -/
def decimal (value : Int) : Bytes :=
  ascii (toString value)

/-- `%02x`: the two digits of a byte, in lower case. -/
def hexByte (value : UInt8) : Bytes :=
  ascii (String.ofList [Nat.digitChar (value.toNat / 16), Nat.digitChar (value.toNat % 16)])

/-- `_snprintf`: print a text at an offset of a buffer, with a terminator only
when it fits, and return the number of characters, or a negative number when
the text was cut. -/
def snprintf (out : Bytes) (offset : Nat) (text : Bytes) : Bytes × Int :=
  let room := out.length - offset
  (overwrite out offset ((text ++ [0]).take room),
    if text.length ≤ room then (text.length : Int) else -1)

@[simp] theorem snprintf_length (out : Bytes) (offset : Nat) (text : Bytes) :
    (snprintf out offset text).1.length = out.length :=
  overwrite_length ..

/-- A text that fits is printed whole, with its terminator, and the rest of
the buffer is left. -/
theorem snprintf_whole {out text : Bytes} (fits : text.length < out.length) :
    snprintf out 0 text = (text ++ 0 :: out.drop (text.length + 1), (text.length : Int)) := by
  have length : (text ++ [(0 : UInt8)]).length = text.length + 1 := List.length_append
  have room : (text ++ [(0 : UInt8)]).length ≤ out.length := length.trans_le fits
  refine Prod.ext ?_ (if_pos fits.le)
  rw [snprintf, Nat.sub_zero, List.take_of_length_le room, overwrite_zero room, length, List.append_assoc,
    List.singleton_append]

/-- Printing behind a text continues it: the buffer holds what one call with
both texts would have printed. -/
theorem snprintf_behind {out front back : Bytes} (fits : front.length + back.length < out.length) :
    (snprintf (snprintf out 0 front).1 front.length back).1 = (snprintf out 0 (front ++ back)).1 := by
  have length : (back ++ [(0 : UInt8)]).length = back.length + 1 := List.length_append
  have size : (0 :: out.drop (front.length + 1)).length = out.length - front.length := by
    rw [List.length_cons, List.length_drop]
    omega
  have room : (back ++ [(0 : UInt8)]).length ≤ (0 :: out.drop (front.length + 1)).length := by omega
  rw [snprintf_whole (by omega : front.length < out.length), snprintf_whole (by rwa [List.length_append]), snprintf,
    List.length_append, Nat.add_sub_cancel_left, List.take_of_length_le room, overwrite_append room, length,
    List.drop_succ_cons, List.drop_drop, List.length_append]
  simp only [List.append_assoc, List.singleton_append]
  congr 4
  omega

/-- With a terminator in the last byte, the buffer starts with the text, cut
to its room.  This is the idiom of the sources, which clear the last byte
after each `_snprintf`. -/
theorem starts_snprintf {out : Bytes} (room : 0 < out.length) (text : Bytes) :
    text.take (out.length - 1) ++ [0] <+: (snprintf out 0 text).1.set (out.length - 1) 0 := by
  by_cases fits : text.length + 1 ≤ out.length
  · have length : (text ++ [(0 : UInt8)]).length = text.length + 1 := List.length_append
    have whole : text.take (out.length - 1) = text := List.take_of_length_le (by omega)
    have printed := overwrite_zero (length.trans_le fits)
    rw [snprintf, Nat.sub_zero, List.take_of_length_le (length.trans_le fits), printed, whole, List.append_assoc,
      List.set_append_right _ _ (by omega : text.length ≤ out.length - 1)]
    apply (List.prefix_append_right_inj text).mpr
    cases out.length - 1 - text.length with
    | zero => exact ⟨_, rfl⟩
    | succ _ => exact ⟨_, rfl⟩
  · have cut : (text ++ [(0 : UInt8)]).take out.length = text.take out.length :=
      List.take_append_of_le_length (by omega)
    have length : (text.take out.length).length = out.length := List.length_take_of_le (by omega)
    have printed := overwrite_zero length.le
    rw [length, List.drop_length, List.append_nil] at printed
    rw [snprintf, Nat.sub_zero, cut, printed, List.set_eq_take_append_cons_drop,
      if_pos (by omega : out.length - 1 < (text.take out.length).length), List.take_take,
      Nat.min_eq_left (Nat.sub_le _ _)]
    exact (List.prefix_append_right_inj _).mpr ⟨_, rfl⟩

theorem zero_not_mem_cString (block : Bytes) : (0 : UInt8) ∉ cString block :=
  nul_not_mem_untilNul block

/-- A string goes on behind bytes that are not the terminator.  So it has
these bytes in front, and then what the rest holds as a string. -/
theorem cString_append {text : Bytes} (clean : (0 : UInt8) ∉ text) (rest : Bytes) :
    cString (text ++ rest) = text ++ cString rest :=
  untilNul_append clean rest

theorem cString_zero (rest : Bytes) : cString (0 :: rest) = [] :=
  untilNul_cons_nul rest

theorem cString_append_zero {text : Bytes} (clean : (0 : UInt8) ∉ text) (rest : Bytes) :
    cString (text ++ 0 :: rest) = text := by
  rw [cString_append clean, cString_zero, List.append_nil]

/-- What is read from a buffer that was printed to and whose last byte was
cleared: the text, cut to the room of the buffer less the terminator. -/
theorem cString_snprintf {out text : Bytes} (room : 0 < out.length) (clean : (0 : UInt8) ∉ text) :
    cString (overwrite (snprintf out 0 text).1 (out.length - 1) [0]) = text.take (out.length - 1) := by
  have length := snprintf_length out 0 text
  have last : overwrite (snprintf out 0 text).1 (out.length - 1) [0] =
      (snprintf out 0 text).1.set (out.length - 1) 0 := by
    have inside : out.length - 1 < (snprintf out 0 text).1.length := by omega
    have behind : out.length - 1 + [(0 : UInt8)].length = (snprintf out 0 text).1.length := by
      rw [List.length_singleton]
      omega
    rw [overwrite, behind, List.drop_length, List.append_nil, List.set_eq_take_append_cons_drop, if_pos inside,
      List.drop_of_length_le (by omega), List.take_of_length_le]
    rw [List.length_append, List.length_take, List.length_singleton]
    omega
  rcases starts_snprintf room text with ⟨rest, starts⟩
  rw [last, ← starts, List.append_assoc]
  exact cString_append_zero (fun member => clean (List.mem_of_mem_take member)) rest

/-- A text that fits is read back whole from the buffer it was printed to. -/
theorem cString_printed {out text : Bytes} (clean : (0 : UInt8) ∉ text) (fits : text.length < out.length) :
    cString (overwrite (snprintf out 0 text).1 (out.length - 1) [0]) = text := by
  rw [cString_snprintf (Nat.zero_lt_of_lt fits) clean, List.take_of_length_le (Nat.le_sub_one_of_lt fits)]

theorem cString_clean {text : Bytes} (clean : (0 : UInt8) ∉ text) : cString text = text :=
  untilNul_clean clean

theorem ascii_repr_clean (n : Nat) : (0 : UInt8) ∉ ascii n.repr := by
  intro member
  rcases List.mem_map.mp member with ⟨letter, digit, zero⟩
  rw [Nat.toList_repr] at digit
  have bounds := Char.isDigit_iff_toNat.mp (Nat.isDigit_of_mem_toDigits (by decide) (by decide) digit)
  rw [show '0'.toNat = 48 from rfl, show '9'.toNat = 57 from rfl] at bounds
  have value := congrArg UInt8.toNat zero
  rw [UInt8.toNat_ofNat', UInt8.toNat_zero] at value
  omega

/-- A printed number has no terminator in it, so it is read back as it was
printed. -/
theorem decimal_clean (value : Int) : (0 : UInt8) ∉ decimal value := by
  rw [decimal, Int.toString_eq_repr, Int.repr_eq_if]
  split
  · exact ascii_repr_clean _
  · rw [ascii, String.toList_append, List.map_append, List.mem_append, not_or]
    exact ⟨by decide, ascii_repr_clean _⟩

/-- How many digits a number has: no more than `count` exactly when it is less
than ten to the power of `count`. -/
theorem decimal_length_le_iff {n count : Nat} (some : 0 < count) :
    (decimal (n : Int)).length ≤ count ↔ n < 10 ^ count := by
  rw [decimal, ascii, List.length_map, Int.toString_eq_repr, String.length_toList]
  exact Nat.length_repr_le_iff some

/-- A sum of bytes in a word of 32 bits stays in the word. -/
theorem wrappedSum_lt (bytes : Bytes) :
    bytes.foldl (fun sum byte => (sum + byte.toNat) % 2 ^ 32) 0 < 2 ^ 32 := by
  have kept : forall sum, sum < 2 ^ 32 ->
      bytes.foldl (fun sum byte => (sum + byte.toNat) % 2 ^ 32) sum < 2 ^ 32 := by
    induction bytes with
    | nil => exact fun _ small => small
    | cons byte rest inductionHypothesis =>
        intro sum _
        exact inductionHypothesis _ (Nat.mod_lt _ (by decide))
  exact kept 0 (by decide)

/-- A C string: bytes none of which is the terminator.  A key or a name that a
function takes as `const char *` is one of these. -/
abbrev CStr :=
  { text : Bytes // (0 : UInt8) ∉ text }

/-- The string that a block holds, with the proof that there is no terminator
in it. -/
def CStr.ofBlock (block : Bytes) : CStr :=
  ⟨cString block, zero_not_mem_cString block⟩

/-- A key below the limit is copied without its terminator, and the 32nd byte
of the target is cleared.  The memory from the target on is given and
returned; a key of more than 32 bytes is written past the target. -/
def copyTrimmed (limit : Nat) (raw : CStr) (memory : Nat -> UInt8) : Nat -> UInt8 :=
  let n := raw.1.length
  let copied := if n < limit then fun i => if i < n then raw.1.getD i 0 else memory i else memory
  Function.update copied 31 0

/-- The string in the first bytes of a memory.  Without a terminator it ends
with the last of these bytes. -/
def CStr.read (size : Nat) (memory : Nat -> UInt8) : CStr :=
  .ofBlock ((List.range size).map memory)

/-! ## What a trimmed copy holds -/

/-- A trimmed copy of the string reads as the string: the copy ends with the
terminator that is written at index 31, or a terminator stood behind it in the
target before. -/
def ReadBackWhole (raw : CStr) (memory : Nat -> UInt8) : Prop :=
  raw.1.length = 31 ∨ (raw.1.length < 31 ∧ memory raw.1.length = 0)

/-- A trimmed copy with this limit writes no byte behind a target of 32 bytes:
the string is short enough for the target, or it is so long that it is not
copied at all. -/
def CopyFits (limit : Nat) (raw : CStr) : Prop :=
  raw.1.length ≤ 32 ∨ limit ≤ raw.1.length

instance (raw : CStr) (memory : Nat -> UInt8) : Decidable (ReadBackWhole raw memory) :=
  inferInstanceAs (Decidable (_ ∨ _))

instance (limit : Nat) (raw : CStr) : Decidable (CopyFits limit raw) :=
  inferInstanceAs (Decidable (_ ∨ _))

section Trimmed

variable {limit : Nat} {raw : CStr} {memory : Nat -> UInt8}

theorem ReadBackWhole.copyFits (whole : ReadBackWhole raw memory) : CopyFits limit raw := by
  rcases whole with exactly | ⟨shorter, _⟩
  · exact Or.inl (exactly.trans_le (by decide))
  · exact Or.inl (by omega)

theorem copyTrimmed_last : copyTrimmed limit raw memory 31 = 0 :=
  Function.update_self (f := if raw.1.length < limit then
    fun i => if i < raw.1.length then raw.1.getD i 0 else memory i else memory) 31 0

theorem copyTrimmed_of_ne {i : Nat} (notLast : i ≠ 31) :
    copyTrimmed limit raw memory i =
      if raw.1.length < limit ∧ i < raw.1.length then raw.1.getD i 0 else memory i := by
  have other : copyTrimmed limit raw memory i =
      (if raw.1.length < limit then
        fun i => if i < raw.1.length then raw.1.getD i 0 else memory i else memory) i :=
    Function.update_of_ne notLast ..
  rw [other]
  by_cases short : raw.1.length < limit <;> by_cases copied : i < raw.1.length <;> simp [short, copied]

/-- The string that is read back has at most 31 bytes, because the 32nd one is
always a terminator. -/
theorem read_copyTrimmed_length (limit : Nat) (raw : CStr) (memory : Nat -> UInt8) :
    (CStr.read 32 (copyTrimmed limit raw memory)).1.length ≤ 31 := by
  have last : (List.range 32).map (copyTrimmed limit raw memory) =
      (List.range 31).map (copyTrimmed limit raw memory) ++ [0] := by
    rw [List.range_succ, List.map_append, List.map_singleton, copyTrimmed_last]
  have shape : (CStr.read 32 (copyTrimmed limit raw memory)).1 =
      cString ((List.range 31).map (copyTrimmed limit raw memory) ++ [0]) := congrArg cString last
  rw [shape, cString, List.takeWhile_append]
  split
  · rw [List.takeWhile_cons_of_neg (by simp), List.append_nil, List.length_map, List.length_range]
  · rw [← List.length_range (n := 31), ← List.length_map (copyTrimmed limit raw memory)]
    exact (List.takeWhile_prefix _).length_le

/-- A string that is copied whole is read back with what follows it: the bytes
that stood in the target behind it, up to the next terminator. -/
theorem read_copyTrimmed (memory : Nat -> UInt8) (short : raw.1.length < limit) (fits : raw.1.length ≤ 31) :
    (CStr.read 32 (copyTrimmed limit raw memory)).1 =
      raw.1 ++ cString ((List.range (32 - raw.1.length)).map fun i =>
        copyTrimmed limit raw memory (raw.1.length + i)) := by
  have front : (List.range raw.1.length).map (copyTrimmed limit raw memory) = raw.1 := by
    apply List.ext_getElem
    · rw [List.length_map, List.length_range]
    · intro i _ inside
      have notLast : i ≠ 31 := by omega
      rw [List.getElem_map, List.getElem_range, copyTrimmed_of_ne notLast, if_pos ⟨short, inside⟩,
        List.getD_eq_getElem?_getD, List.getElem?_eq_getElem inside, Option.getD_some]
  have sizes : 32 = raw.1.length + (32 - raw.1.length) := by omega
  have whole : (List.range 32).map (copyTrimmed limit raw memory) =
      raw.1 ++ (List.range (32 - raw.1.length)).map fun i =>
        copyTrimmed limit raw memory (raw.1.length + i) := by
    calc (List.range 32).map (copyTrimmed limit raw memory)
        = (List.range (raw.1.length + (32 - raw.1.length))).map (copyTrimmed limit raw memory) := by
          rw [← sizes]
      _ = _ := by
          rw [List.range_add, List.map_append, front, List.map_map]
          rfl
  calc (CStr.read 32 (copyTrimmed limit raw memory)).1
      = cString ((List.range 32).map (copyTrimmed limit raw memory)) := rfl
    _ = _ := by
        rw [whole, cString_append raw.2]

/-- It is read back as it was exactly when a terminator follows it.  The copy
itself writes none behind a string of fewer than 31 bytes. -/
theorem read_copyTrimmed_eq_iff (wide : 32 ≤ limit) :
    CStr.read 32 (copyTrimmed limit raw memory) = raw ↔ ReadBackWhole raw memory := by
  rw [ReadBackWhole]
  by_cases fits : raw.1.length ≤ 31
  · have parts := read_copyTrimmed memory (Nat.lt_of_lt_of_le (Nat.lt_succ_of_le fits) wide) fits
    have positive : 32 - raw.1.length = 31 - raw.1.length + 1 := by omega
    rw [Subtype.ext_iff, parts, List.append_right_eq_self, positive, List.range_succ_eq_map, List.map_cons,
      Nat.add_zero, cString]
    by_cases last : raw.1.length = 31
    · have terminated : copyTrimmed limit raw memory raw.1.length = 0 := last ▸ copyTrimmed_last
      rw [terminated, List.takeWhile_cons_of_neg (by simp)]
      exact iff_of_true rfl (Or.inl last)
    · rw [copyTrimmed_of_ne last, if_neg (fun copied => absurd copied.2 (Nat.lt_irrefl _))]
      by_cases terminated : memory raw.1.length = 0
      · rw [terminated, List.takeWhile_cons_of_neg (by simp)]
        exact iff_of_true rfl (Or.inr ⟨Nat.lt_of_le_of_ne fits last, rfl⟩)
      · rw [List.takeWhile_cons_of_pos (by simpa using terminated)]
        refine iff_of_false (List.cons_ne_nil _ _) ?_
        rintro (same | ⟨_, zero⟩)
        · exact last same
        · exact terminated zero
  · refine iff_of_false (fun same => ?_) ?_
    · have bound := read_copyTrimmed_length limit raw memory
      rw [same] at bound
      exact fits bound
    · omega

/-- The copy stays in a target of 32 bytes exactly for these lengths, whatever
the memory behind the target holds. -/
theorem copyTrimmed_inside_iff :
    (forall memory i, 32 ≤ i -> copyTrimmed limit raw memory i = memory i) ↔ CopyFits limit raw := by
  rw [CopyFits]
  constructor
  · intro inside
    by_contra outside
    rw [not_or, Nat.not_le, Nat.not_le] at outside
    have written : forall byte : UInt8, raw.1.getD 32 0 = byte := by
      intro byte
      have kept := inside (fun _ => byte) 32 (Nat.le_refl _)
      rwa [copyTrimmed_of_ne (by decide), if_pos ⟨outside.2, outside.1⟩] at kept
    exact absurd ((written 0).symm.trans (written 1)) (by decide)
  · intro fits memory i behind
    have notLast : i ≠ 31 := by omega
    rw [copyTrimmed_of_ne notLast, if_neg]
    rintro ⟨short, copied⟩
    omega

end Trimmed

end Foundation
end BugMuseum
