import BugMuseum.Avalanche.HexCodec

namespace BugMuseum
namespace Avalanche

open Foundation

/-!
# The id tag of a snapshot entry

`CacheDecodeId` copies one byte more than the id has, up to seventeen, into a block of
sixteen, and puts its terminator at the end of the block.  So a short id is read past its end
and goes on into what follows it, and a long one is written past the end of the block.
-/

/-- `CacheDecodeId`.  The id and the fresh block are given with whatever may
be accessed behind them, and an access past that is an error. -/
def cacheDecodeId (src : Bytes) (idLen : Nat) (fresh : Option Bytes) : Except Stray (Option Bytes) :=
  match fresh with
  | none => .ok none
  | some id => do
      let n := if idLen < 16 then idLen else 16
      let copied ← copyRange .outside src id (n + 1)
      let terminated ← put .outside copied 15 0
      return some terminated

/-- The string in the block that is returned. -/
def decodedText (block : Bytes) : Bytes :=
  cString (block.take 16)

/-- Nothing behind the id is read, as long as the block takes what is
copied. -/
def ReadsId (id : CStr) : Prop :=
  forall block : Bytes, 16 < block.length -> cacheDecodeId id.1 id.1.length (some block) ≠ .error .outside

/-- Nothing behind the sixteen bytes of the block is written, as long as the
source can be read. -/
def WritesBlock (id : CStr) : Prop :=
  forall (behind : Bytes) (block : Field 16), 16 < (id.1 ++ behind).length ->
    cacheDecodeId (id.1 ++ behind) id.1.length (some block.1) ≠ .error .outside

/-- The string is the front of the id, whatever stands behind the id and in
the fresh block. -/
def TagsId (id : CStr) : Prop :=
  forall behind block result : Bytes, 16 ≤ block.length ->
    cacheDecodeId (id.1 ++ behind) id.1.length (some block) = .ok (some result) -> decodedText result = id.1.take 15

/-- The decoding is in order: no byte is read or written outside, and the
string is that of the id. -/
structure IdDecoded (id : CStr) : Prop where
  reads : ReadsId id
  writes : WritesBlock id
  text : TagsId id

theorem cacheDecodeId_eq (src : Bytes) (idLen : Nat) {block : Bytes} (sized : 16 ≤ block.length) :
    cacheDecodeId src idLen (some block) =
      if min idLen 16 + 1 ≤ src.length ∧ min idLen 16 + 1 ≤ block.length then
        .ok (some ((covered src (min idLen 16 + 1) block).set 15 0))
      else .error .outside := by
  have count : (if idLen < 16 then idLen else 16) = min idLen 16 := by
    split <;> omega
  rw [cacheDecodeId, count, copyRange_eq]
  by_cases inside : min idLen 16 + 1 ≤ src.length ∧ min idLen 16 + 1 ≤ block.length
  · have kept := covered_length inside.1 inside.2
    rw [if_pos inside, if_pos inside]
    dsimp only [bind, Except.bind]
    rw [put_of_lt Stray.outside (by omega)]
    rfl
  · rw [if_neg inside, if_neg inside]
    rfl

theorem cacheDecodeId_error_iff {src block : Bytes} {idLen : Nat} (sized : 16 ≤ block.length) :
    cacheDecodeId src idLen (some block) = .error .outside ↔
      src.length ≤ min idLen 16 ∨ block.length ≤ min idLen 16 := by
  rw [cacheDecodeId_eq src idLen sized]
  split
  · rename_i inside
    exact iff_of_false (fun impossible => by cases impossible) (by omega)
  · rename_i outside
    exact iff_of_true rfl (by omega)

theorem readsId_iff (id : CStr) : ReadsId id ↔ 17 ≤ id.1.length := by
  constructor
  · intro reads
    by_contra short
    apply reads (List.replicate 17 0) (by rw [List.length_replicate]; omega)
    rw [cacheDecodeId_error_iff (by rw [List.length_replicate]; omega)]
    exact Or.inl (by omega)
  · intro long block sized
    rw [Ne, cacheDecodeId_error_iff (Nat.le_of_lt sized)]
    omega

theorem writesBlock_iff (id : CStr) : WritesBlock id ↔ id.1.length ≤ 15 := by
  constructor
  · intro writes
    by_contra long
    have enough : 16 < (id.1 ++ [0]).length := by
      rw [List.length_append, List.length_singleton]
      omega
    apply writes [0] ⟨List.replicate 16 0, List.length_replicate⟩ enough
    rw [cacheDecodeId_error_iff List.length_replicate.ge, List.length_replicate]
    exact Or.inr (by omega)
  · intro short behind block enough
    rw [Ne, cacheDecodeId_error_iff block.2.ge, block.2]
    omega

/-- The first bytes of the block, with the terminator in its last one,
whatever was copied to that place. -/
theorem take_terminated {copied : Bytes} (room : 16 ≤ copied.length) :
    (copied.set 15 0).take 16 = copied.take 15 ++ [0] := by
  have front : (copied.take 15).length = 15 := List.length_take_of_le (Nat.le_of_succ_le room)
  rw [List.set_eq_take_append_cons_drop, if_pos (show 15 < copied.length from room), List.take_append, front,
    List.take_of_length_le (front.le.trans (by decide))]
  rfl

/-- What is read back from the block is what was copied into its first 15
bytes, up to the first terminator of it. -/
theorem decodedText_covered {src block : Bytes} {count : Nat} (inSrc : count ≤ src.length)
    (inBlock : count ≤ block.length) (sized : 16 ≤ block.length) :
    decodedText ((covered src count block).set 15 0) =
      cString ((src.take count ++ block.drop count).take 15 ++ [0]) := by
  have kept := covered_length inSrc inBlock
  rw [decodedText, take_terminated (sized.trans kept.ge), covered]

/-- A byte that is no terminator behind a shorter id belongs to the string.
So the id has to fill the block. -/
theorem long_of_tagsId {id : CStr} (tags : TagsId id) : 15 ≤ id.1.length := by
  by_contra short
  have sized : (List.replicate 17 (0 : UInt8)).length = 17 := List.length_replicate
  have length : (id.1 ++ [1]).length = id.1.length + 1 := List.length_append
  have inBlock : id.1.length + 1 ≤ (List.replicate 17 (0 : UInt8)).length := by omega
  have decoded := cacheDecodeId_eq (id.1 ++ [1]) id.1.length (Nat.le_of_succ_le sized.ge)
  rw [Nat.min_eq_left (by omega), if_pos ⟨length.ge, inBlock⟩] at decoded
  have same := tags [1] (List.replicate 17 0) _ (Nat.le_of_succ_le sized.ge) decoded
  have all : (id.1 ++ [1]).take (id.1.length + 1) = id.1 ++ [1] := List.take_of_length_le length.le
  have front : (id.1 ++ [1]).take 15 = id.1 ++ [1] := List.take_of_length_le (by omega)
  have whole : id.1.take 15 = id.1 := List.take_of_length_le (by omega)
  rw [decodedText_covered length.ge inBlock (Nat.le_of_succ_le sized.ge), all, List.take_append, front,
    List.append_assoc, List.append_assoc, cString_append id.2, whole, List.append_right_eq_self] at same
  cases same

theorem tagsId_of_long {id : CStr} (long : 15 ≤ id.1.length) : TagsId id := by
  intro behind block result sized decoded
  rw [cacheDecodeId_eq _ _ sized] at decoded
  split at decoded
  · rename_i inside
    cases decoded
    have first : ((id.1 ++ behind).take (min id.1.length 16 + 1)).take 15 = id.1.take 15 := by
      rw [List.take_take, Nat.min_eq_left (by omega), List.take_append_of_le_length long]
    have size : 15 ≤ ((id.1 ++ behind).take (min id.1.length 16 + 1)).length := by
      rw [List.length_take]
      omega
    have clean : (0 : UInt8) ∉ id.1.take 15 := fun member => id.2 (List.mem_of_mem_take member)
    rw [decodedText_covered inside.1 inside.2 sized, List.take_append_of_le_length size, first,
      cString_append_zero clean]
  · cases decoded

theorem tagsId_iff (id : CStr) : TagsId id ↔ 15 ≤ id.1.length :=
  ⟨long_of_tagsId, tagsId_of_long⟩

/-- The id is not read past its end exactly from a length of 17 on, the block
is not written past its end exactly up to a length of 15, and the string is
that of the id exactly from 15 on.  So no id is decoded as it should be. -/
theorem cacheDecodeId_iff (id : CStr) :
    (ReadsId id ↔ 17 ≤ id.1.length) ∧ (WritesBlock id ↔ id.1.length ≤ 15) ∧ (TagsId id ↔ 15 ≤ id.1.length) ∧
      ¬ IdDecoded id := by
  refine ⟨readsId_iff id, writesBlock_iff id, tagsId_iff id, fun decoded => ?_⟩
  have long := (readsId_iff id).mp decoded.reads
  have short := (writesBlock_iff id).mp decoded.writes
  omega

/-- Two letters: the byte behind them is read. -/
theorem twoLetters_notDecoded : ¬ IdDecoded (.ofBlock [97, 98]) := by
  intro decoded
  have long := (readsId_iff _).mp decoded.reads
  revert long
  decide

end Avalanche
end BugMuseum
