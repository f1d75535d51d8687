import Mathlib.Algebra.Group.Nat.Defs
import Mathlib.Logic.Function.Basic
import Mathlib.Data.List.Basic

namespace BugMuseum
namespace Foundation

/-!
# A heap of blocks with an explicit record of releases

A block is named by its identity, not by its address: every allocation hands
out an identity that was never handed out before.  The heap keeps, for each
identity, what was last written to the block and how often it was released.
A release never erases the contents, so a program that follows a stale pointer
reads what the block last held, and the access is recorded as a fault.

One heap holds cells of one kind.  A program with several kinds of blocks has
one heap for each kind, so that an identity of one kind is never mistaken for
an identity of another.
-/

/-- The identity of an allocated block.  It is not an address: the identity of
a released block is never handed out again, so a stale pointer cannot come to
name a later block. -/
abbrev Block := Nat

abbrev Bytes := List UInt8

/-- An access that the allocator does not allow: to a block that is not live,
past the end of a block, or through the null pointer.  Nothing is assumed of
what such an access does to other memory; it is only recorded. -/
inductive Fault where
  | stale (block : Block)     -- the block was not live
  | overrun (block : Block)   -- bytes past the end of the block
  | null                      -- the null pointer
  deriving DecidableEq, Repr

@[ext]
structure Heap (Cell : Type) where
  next : Block                -- the identity of the next allocation
  cell : Block -> Cell
  releases : Block -> Nat
  faults : List Fault

namespace Heap

variable {Cell : Type}

def empty [Inhabited Cell] : Heap Cell :=
  { next := 0, cell := fun _ => default, releases := fun _ => 0, faults := [] }

/-- A live block has been handed out and not been released since.  This is
what a pointer must name for an access through it to be allowed. -/
def Live (heap : Heap Cell) (block : Block) : Prop :=
  block < heap.next ∧ heap.releases block = 0

instance (heap : Heap Cell) (block : Block) : Decidable (heap.Live block) :=
  inferInstanceAs (Decidable (_ ∧ _))

/-- Hand out the identity `heap.next` with these contents.  The identities in
use are exactly those below the counter, so the new block is none of the
blocks that are there. -/
def alloc (heap : Heap Cell) (value : Cell) : Heap Cell :=
  { heap with next := heap.next + 1, cell := Function.update heap.cell heap.next value }

/-- Record an access to a block.  The access to a live block leaves no trace;
one to any other block is a fault, and is added to the list. -/
def touch (heap : Heap Cell) (block : Block) : Heap Cell :=
  if heap.Live block then heap else { heap with faults := .stale block :: heap.faults }

/-- Access a block and change its contents.  A stale block is changed as well,
because the code writes through the pointer whatever has become of the block;
the fault is on record. -/
def modify (heap : Heap Cell) (block : Block) (change : Cell -> Cell) : Heap Cell :=
  { heap.touch block with cell := Function.update heap.cell block (change (heap.cell block)) }

/-- Record a fault that is not a stale access: a copy past the end of a block,
or a null pointer. -/
def flag (heap : Heap Cell) (fault : Fault) : Heap Cell :=
  { heap with faults := fault :: heap.faults }

def release (heap : Heap Cell) (block : Block) : Heap Cell :=
  { heap with releases := Function.update heap.releases block (heap.releases block + 1) }

/-- `free(p)`.  Releasing a null pointer has no effect, as the standard has
it. -/
def releaseAt (heap : Heap Cell) : Option Block -> Heap Cell
  | none => heap
  | some block => heap.release block

@[simp] theorem alloc_next (heap : Heap Cell) (value : Cell) :
    (heap.alloc value).next = heap.next + 1 := rfl

@[simp] theorem alloc_releases (heap : Heap Cell) (value : Cell) :
    (heap.alloc value).releases = heap.releases := rfl

@[simp] theorem alloc_faults (heap : Heap Cell) (value : Cell) :
    (heap.alloc value).faults = heap.faults := rfl

@[simp] theorem alloc_cell_next (heap : Heap Cell) (value : Cell) :
    (heap.alloc value).cell heap.next = value :=
  Function.update_self ..

theorem alloc_cell_of_ne (heap : Heap Cell) (value : Cell) {block : Block}
    (old : block ≠ heap.next) : (heap.alloc value).cell block = heap.cell block :=
  Function.update_of_ne old ..

@[simp] theorem touch_next (heap : Heap Cell) (block : Block) :
    (heap.touch block).next = heap.next := by
  unfold touch
  split <;> rfl

@[simp] theorem touch_cell (heap : Heap Cell) (block : Block) :
    (heap.touch block).cell = heap.cell := by
  unfold touch
  split <;> rfl

@[simp] theorem touch_releases (heap : Heap Cell) (block : Block) :
    (heap.touch block).releases = heap.releases := by
  unfold touch
  split <;> rfl

theorem touch_of_live {heap : Heap Cell} {block : Block} (live : heap.Live block) :
    heap.touch block = heap :=
  if_pos live

@[simp] theorem modify_next (heap : Heap Cell) (block : Block) (change : Cell -> Cell) :
    (heap.modify block change).next = heap.next :=
  touch_next heap block

@[simp] theorem modify_releases (heap : Heap Cell) (block : Block) (change : Cell -> Cell) :
    (heap.modify block change).releases = heap.releases :=
  touch_releases heap block

@[simp] theorem modify_cell_self (heap : Heap Cell) (block : Block) (change : Cell -> Cell) :
    (heap.modify block change).cell block = change (heap.cell block) :=
  Function.update_self ..

theorem modify_cell_of_ne (heap : Heap Cell) {block other : Block} (change : Cell -> Cell)
    (different : other ≠ block) : (heap.modify block change).cell other = heap.cell other :=
  Function.update_of_ne different ..

/-- Only the change of the contents at hand matters: two changes that agree on
what the block holds come to the same heap. -/
theorem modify_congr (heap : Heap Cell) {block : Block} {change other : Cell -> Cell}
    (same : change (heap.cell block) = other (heap.cell block)) :
    heap.modify block change = heap.modify block other := by
  rw [modify, modify, same]

/-- A field that the change keeps is as before in every block.  This is the
frame rule for structures of which one member is assigned. -/
theorem modify_field {Value : Type} (heap : Heap Cell) {block : Block} {change : Cell -> Cell}
    (field : Cell -> Value) (keeps : field (change (heap.cell block)) = field (heap.cell block))
    (other : Block) : field ((heap.modify block change).cell other) = field (heap.cell other) := by
  by_cases same : other = block
  · subst same
    rw [modify_cell_self, keeps]
  · rw [modify_cell_of_ne heap change same]

theorem modify_faults (heap : Heap Cell) (block : Block) (change : Cell -> Cell) :
    (heap.modify block change).faults = (heap.touch block).faults := rfl

@[simp] theorem flag_next (heap : Heap Cell) (fault : Fault) :
    (heap.flag fault).next = heap.next := rfl

@[simp] theorem flag_cell (heap : Heap Cell) (fault : Fault) :
    (heap.flag fault).cell = heap.cell := rfl

@[simp] theorem flag_releases (heap : Heap Cell) (fault : Fault) :
    (heap.flag fault).releases = heap.releases := rfl

@[simp] theorem release_next (heap : Heap Cell) (block : Block) :
    (heap.release block).next = heap.next := rfl

@[simp] theorem release_cell (heap : Heap Cell) (block : Block) :
    (heap.release block).cell = heap.cell := rfl

@[simp] theorem release_faults (heap : Heap Cell) (block : Block) :
    (heap.release block).faults = heap.faults := rfl

@[simp] theorem release_releases_self (heap : Heap Cell) (block : Block) :
    (heap.release block).releases block = heap.releases block + 1 :=
  Function.update_self ..

theorem release_releases_of_ne (heap : Heap Cell) {block other : Block}
    (different : other ≠ block) : (heap.release block).releases other = heap.releases other :=
  Function.update_of_ne different ..

@[simp] theorem releaseAt_next (heap : Heap Cell) (pointer : Option Block) :
    (heap.releaseAt pointer).next = heap.next := by
  cases pointer <;> rfl

@[simp] theorem releaseAt_cell (heap : Heap Cell) (pointer : Option Block) :
    (heap.releaseAt pointer).cell = heap.cell := by
  cases pointer <;> rfl

@[simp] theorem releaseAt_faults (heap : Heap Cell) (pointer : Option Block) :
    (heap.releaseAt pointer).faults = heap.faults := by
  cases pointer <;> rfl

theorem releaseAt_releases_congr {heap heap' : Heap Cell} (same : heap'.releases = heap.releases)
    (pointer : Option Block) :
    (heap'.releaseAt pointer).releases = (heap.releaseAt pointer).releases := by
  cases pointer with
  | none => exact same
  | some block => simp only [releaseAt, release, same]

/-! ## Liveness -/

/-- A block outlives the allocation of another one, since the counter only
goes up and nothing is released by it. -/
theorem Live.grow {heap heap' : Heap Cell} {block : Block} (live : heap.Live block)
    (next : heap'.next = heap.next + 1) (releases : heap'.releases = heap.releases) :
    heap'.Live block :=
  ⟨next ▸ Nat.lt_succ_of_lt live.1, releases ▸ live.2⟩

theorem live_grown {heap heap' : Heap Cell} (next : heap'.next = heap.next + 1)
    (releases : heap'.releases = heap.releases) (unused : heap.releases heap.next = 0) :
    heap'.Live heap.next :=
  ⟨next ▸ Nat.lt_succ_self _, releases ▸ unused⟩

theorem Live.alloc {heap : Heap Cell} {block : Block} (live : heap.Live block) (value : Cell) :
    (heap.alloc value).Live block :=
  live.grow rfl rfl

theorem Live.congr {heap heap' : Heap Cell} (sameNext : heap'.next = heap.next)
    (sameReleases : heap'.releases = heap.releases) {block : Block} :
    heap'.Live block ↔ heap.Live block := by
  simp only [Live, sameNext, sameReleases]

@[simp] theorem live_touch_iff (heap : Heap Cell) (touched block : Block) :
    (heap.touch touched).Live block ↔ heap.Live block := by
  simp [Live]

@[simp] theorem live_modify_iff (heap : Heap Cell) (changed block : Block)
    (change : Cell -> Cell) : (heap.modify changed change).Live block ↔ heap.Live block := by
  simp [Live]

theorem Live.release {heap : Heap Cell} {block other : Block} (live : heap.Live block)
    (different : block ≠ other) : (heap.release other).Live block :=
  ⟨live.1, (release_releases_of_ne heap different).trans live.2⟩

theorem Live.releaseAt {heap : Heap Cell} {block : Block} (live : heap.Live block)
    {pointer : Option Block} (different : pointer ≠ some block) :
    (heap.releaseAt pointer).Live block := by
  cases pointer with
  | none => exact live
  | some other => exact live.release fun same => different (congrArg some same.symm)

/-- The later heap records at least the releases of the earlier one.  It holds
between any two states of a run, as a release is never taken back, and so a
block that was released twice stays so. -/
def ReleasesLe (earlier later : Heap Cell) : Prop :=
  forall block, earlier.releases block ≤ later.releases block

theorem ReleasesLe.refl (heap : Heap Cell) : ReleasesLe heap heap :=
  fun _ => Nat.le_refl _

theorem ReleasesLe.trans {first second third : Heap Cell} (left : ReleasesLe first second)
    (right : ReleasesLe second third) : ReleasesLe first third :=
  fun block => Nat.le_trans (left block) (right block)

theorem releasesLe_of_eq {earlier later : Heap Cell}
    (same : later.releases = earlier.releases) : ReleasesLe earlier later :=
  fun block => Nat.le_of_eq (congrFun same block).symm

theorem releasesLe_release (heap : Heap Cell) (block : Block) :
    ReleasesLe heap (heap.release block) := by
  intro other
  by_cases same : other = block
  · subst other
    rw [release_releases_self]
    exact Nat.le_succ _
  · exact Nat.le_of_eq (release_releases_of_ne heap same).symm

/-- The later heap has one block more, holding `value`, and is otherwise the
earlier heap.  Writing to the new block is no fault when its identity has not
been released in advance, which an invariant of the program has to say. -/
structure Extends (heap heap' : Heap Cell) (value : Cell) : Prop where
  next : heap'.next = heap.next + 1
  releases : heap'.releases = heap.releases
  fresh : heap'.cell heap.next = value
  older : forall block, block ≠ heap.next -> heap'.cell block = heap.cell block
  faults : heap.releases heap.next = 0 -> heap'.faults = heap.faults

theorem alloc_extends (heap : Heap Cell) (value : Cell) : Extends heap (heap.alloc value) value where
  next := rfl
  releases := rfl
  fresh := alloc_cell_next heap value
  older := fun _ => alloc_cell_of_ne heap value
  faults := fun _ => rfl

variable {heap heap' : Heap Cell} {value : Cell}

theorem Extends.live (extended : Extends heap heap' value)
    (unused : heap.releases heap.next = 0) : heap'.Live heap.next :=
  live_grown extended.next extended.releases unused

theorem Extends.keeps (extended : Extends heap heap' value) {block : Block} (live : heap.Live block) :
    heap'.Live block :=
  live.grow extended.next extended.releases

theorem Extends.modify (extended : Extends heap heap' value) (change : Cell -> Cell) :
    Extends heap (heap'.modify heap.next change) (change value) where
  next := (modify_next ..).trans extended.next
  releases := (modify_releases ..).trans extended.releases
  fresh := (modify_cell_self ..).trans (congrArg change extended.fresh)
  older := fun block different =>
    (modify_cell_of_ne _ _ different).trans (extended.older block different)
  faults := fun unused => by
    rw [modify_faults, touch_of_live (extended.live unused)]
    exact extended.faults unused

/-- Every block handed out in between was released again, once, and the older
blocks are as they were.  This is what a call must leave behind when an
allocation in the middle of it fails. -/
structure RolledBack (heap heap' : Heap Cell) : Prop where
  next : heap.next ≤ heap'.next
  cells : forall block, block < heap.next -> heap'.cell block = heap.cell block
  kept : forall block, block < heap.next -> heap'.releases block = heap.releases block
  returned : forall block, heap.next ≤ block -> block < heap'.next ->
    heap'.releases block = heap.releases block + 1
  ahead : forall block, heap'.next ≤ block -> heap'.releases block = heap.releases block

namespace RolledBack

theorem of_same (next : heap'.next = heap.next) (releases : heap'.releases = heap.releases)
    (cell : heap'.cell = heap.cell) : heap.RolledBack heap' where
  next := Nat.le_of_eq next.symm
  cells := fun block _ => congrFun cell block
  kept := fun block _ => congrFun releases block
  returned := fun _ new old => absurd (next ▸ old) (Nat.not_lt.mpr new)
  ahead := fun block _ => congrFun releases block

theorem refl (heap : Heap Cell) : heap.RolledBack heap :=
  .of_same rfl rfl rfl

theorem alloc_release (heap : Heap Cell) (value : Cell) :
    heap.RolledBack ((heap.alloc value).release heap.next) where
  next := Nat.le_succ _
  cells := fun _ issued => alloc_cell_of_ne heap value (Nat.ne_of_lt issued)
  kept := fun _ issued => release_releases_of_ne _ (Nat.ne_of_lt issued)
  returned := fun block new old => by
    have same : block = heap.next := Nat.le_antisymm (Nat.lt_succ_iff.mp old) new
    subst same
    exact release_releases_self ..
  ahead := fun _ later => release_releases_of_ne _ (Nat.ne_of_gt later)

theorem trans {heap'' : Heap Cell} (left : heap.RolledBack heap') (right : heap'.RolledBack heap'') :
    heap.RolledBack heap'' where
  next := Nat.le_trans left.next right.next
  cells := fun block issued =>
    (right.cells block (Nat.lt_of_lt_of_le issued left.next)).trans (left.cells block issued)
  kept := fun block issued =>
    (right.kept block (Nat.lt_of_lt_of_le issued left.next)).trans (left.kept block issued)
  returned := fun block new old => by
    by_cases early : block < heap'.next
    · exact (right.kept block early).trans (left.returned block new early)
    · have late := Nat.not_lt.mp early
      rw [right.returned block late old, left.ahead block late]
  ahead := fun block later =>
    (right.ahead block later).trans (left.ahead block (Nat.le_trans right.next later))

end RolledBack

/-- The block holds the value now, and nothing else has changed: no identity
was handed out, nothing was released, and no fault was added. -/
structure Rewritten (heap heap' : Heap Cell) (block : Block) (value : Cell) : Prop where
  next : heap'.next = heap.next
  releases : heap'.releases = heap.releases
  here : heap'.cell block = value
  others : forall other, other ≠ block -> heap'.cell other = heap.cell other
  faults : heap'.faults = heap.faults

/-- A new block holds the value now, and the old one was released, however
often it had been before.  The rest of the heap is as it was, and the move
itself is no fault. -/
structure Moved (heap heap' : Heap Cell) (old : Block) (value : Cell) : Prop where
  next : heap'.next = heap.next + 1
  releases : forall block, block ≠ old -> heap'.releases block = heap.releases block
  fresh : heap'.cell heap.next = value
  older : forall block, block ≠ heap.next -> heap'.cell block = heap.cell block
  faults : heap'.faults = heap.faults

theorem modify_rewritten {block : Block} (live : heap.Live block) (change : Cell -> Cell) :
    heap.Rewritten (heap.modify block change) block (change (heap.cell block)) where
  next := modify_next ..
  releases := modify_releases ..
  here := modify_cell_self ..
  others := fun _ different => modify_cell_of_ne heap change different
  faults := (modify_faults ..).trans (congrArg Heap.faults (touch_of_live live))

theorem Rewritten.trans {heap'' : Heap Cell} {block : Block} {other : Cell}
    (first : heap.Rewritten heap' block value) (second : heap'.Rewritten heap'' block other) :
    heap.Rewritten heap'' block other where
  next := second.next.trans first.next
  releases := second.releases.trans first.releases
  here := second.here
  others := fun k different => (second.others k different).trans (first.others k different)
  faults := second.faults.trans first.faults

theorem Rewritten.live {block : Block} (rewritten : heap.Rewritten heap' block value)
    (other : Block) : heap'.Live other ↔ heap.Live other :=
  Live.congr rewritten.next rewritten.releases

/-- What an owner holds after a reallocation: the old block, or a new one for
which the old one was released.  In either case the owner's pointer is live if
it was live before. -/
structure Replaced (heap heap' : Heap Cell) (old block : Block) : Prop where
  next : heap.next ≤ heap'.next
  issued : old < heap.next -> block < heap'.next
  releases : forall other, other ≠ old -> heap'.releases other = heap.releases other
  either : block = old ∨ block = heap.next
  live : heap.Live old -> heap.releases heap.next = 0 -> heap'.Live block

theorem replaced_stays (old : Block) (next : heap'.next = heap.next)
    (releases : heap'.releases = heap.releases) : heap.Replaced heap' old old where
  next := Nat.le_of_eq next.symm
  issued := fun bound => next ▸ bound
  releases := fun other _ => congrFun releases other
  either := Or.inl rfl
  live := fun live _ => (Live.congr next releases).mpr live

theorem replaced_moves {old : Block} (next : heap'.next = heap.next + 1)
    (releases : heap'.releases = (heap.release old).releases) :
    heap.Replaced heap' old heap.next where
  next := next ▸ Nat.le_succ _
  issued := fun _ => next ▸ Nat.lt_succ_self _
  releases := fun other different => by rw [releases, release_releases_of_ne _ different]
  either := Or.inr rfl
  live := fun live unused =>
    ⟨next ▸ Nat.lt_succ_self _, by rw [releases, release_releases_of_ne _ (Nat.ne_of_gt live.1), unused]⟩

end Heap

/-! ## Blocks of bytes -/

/-- Replace the bytes from `offset` on, keeping the size of the block.  What
would go past the end is cut off here, and `write` records it as a fault. -/
def overwrite (old : Bytes) (offset : Nat) (bytes : Bytes) : Bytes :=
  (old.take offset ++ bytes ++ old.drop (offset + bytes.length)).take old.length

@[simp] theorem overwrite_length (old : Bytes) (offset : Nat) (bytes : Bytes) :
    (overwrite old offset bytes).length = old.length := by
  simp only [overwrite, List.length_take, List.length_append, List.length_drop]
  omega

theorem overwrite_nil (old : Bytes) (offset : Nat) : overwrite old offset [] = old := by
  simp [overwrite]

/-- Bytes that fit replace as many bytes of what stands there, and the rest of
the block behind them stays. -/
theorem overwrite_append {front back bytes : Bytes} (fits : bytes.length ≤ back.length) :
    overwrite (front ++ back) front.length bytes = front ++ (bytes ++ back.drop bytes.length) := by
  have size : (front ++ (bytes ++ back.drop bytes.length)).length = (front ++ back).length := by
    rw [List.length_append, List.length_append, List.length_append, List.length_drop, Nat.add_sub_cancel' fits]
  rw [overwrite, List.take_left, List.drop_append, Nat.add_sub_cancel_left,
    List.drop_of_length_le (Nat.le_add_right ..), List.nil_append, List.append_assoc, ← size, List.take_length]

theorem overwrite_zero {old bytes : Bytes} (fits : bytes.length ≤ old.length) :
    overwrite old 0 bytes = bytes ++ old.drop bytes.length :=
  @overwrite_append [] old bytes fits

/-- Bytes copied behind the text that a block starts with, if they fit: the
block then starts with the text and these bytes.  This is how an append is
read back. -/
theorem starts_overwrite {old text bytes : Bytes} (starts : text <+: old)
    (fits : text.length + bytes.length ≤ old.length) :
    text ++ bytes <+: overwrite old text.length bytes := by
  rcases starts with ⟨rest, rfl⟩
  rw [overwrite, List.take_left, List.prefix_take_iff]
  exact ⟨List.prefix_append _ _, by rwa [List.length_append]⟩

/-- The contents of a fresh block: whatever the memory held.  The residue is a
parameter of every allocation, so that nothing can be proved from a cleared
block where the code does not clear it. -/
def freshBytes (size : Nat) (residue : Nat -> UInt8) : Bytes :=
  (List.range size).map residue

@[simp] theorem freshBytes_length (size : Nat) (residue : Nat -> UInt8) :
    (freshBytes size residue).length = size := by
  simp [freshBytes]

theorem fresh_overwrite_length (size : Nat) (residue : Nat -> UInt8) (offset : Nat) (bytes : Bytes) :
    (overwrite (freshBytes size residue) offset bytes).length = size := by
  rw [overwrite_length, freshBytes_length]

/-- A fresh block starts with the bytes that are copied to its front, whatever
it held before. -/
theorem starts_fresh {bytes : Bytes} {size : Nat} (room : bytes.length ≤ size) (residue : Nat -> UInt8) :
    bytes <+: overwrite (freshBytes size residue) 0 bytes := by
  have fits : ([] : Bytes).length + bytes.length ≤ (freshBytes size residue).length := by
    rwa [freshBytes_length, List.length_nil, Nat.zero_add]
  exact starts_overwrite List.nil_prefix fits

/-- The contents after a change of size: the old bytes as far as they fit, and
behind them whatever the memory held there. -/
def resize (old : Bytes) (size : Nat) (residue : Nat -> UInt8) : Bytes :=
  (List.range size).map fun index => old.getD index (residue index)

@[simp] theorem resize_length (old : Bytes) (size : Nat) (residue : Nat -> UInt8) :
    (resize old size residue).length = size := by
  simp [resize]

/-- A block that grows still starts with its text.  Only the bytes behind the
old end are new. -/
theorem starts_resize {old text : Bytes} (starts : text <+: old) {size : Nat}
    (fits : text.length ≤ size) (residue : Nat -> UInt8) : text <+: resize old size residue := by
  rcases starts with ⟨rest, rfl⟩
  rw [List.prefix_iff_eq_take]
  apply List.ext_getElem
  · rw [List.length_take, resize_length, Nat.min_eq_left fits]
  · intro index inside later
    have old : (text ++ rest)[index]? = some text[index] := by
      rw [List.getElem?_append_left inside, List.getElem?_eq_getElem inside]
    simp [resize, old]

/-- What an allocation request gets: nothing, or a block with the given
residue of earlier use.  A call that allocates takes one for each of its
requests, so a statement for every grant covers every pattern of failures. -/
abbrev Grant := Option (Nat -> UInt8)

/-- Every request is granted, and the new blocks are cleared. -/
def generous : Nat -> Grant :=
  fun _ => some fun _ => 0

/-- The three outcomes of a reallocation: it fails, it leaves the block where
it is, or it moves it.  The bytes past the old end are whatever the memory
held. -/
inductive Realloc where
  | fails
  | inPlace (residue : Nat -> UInt8)
  | moves (residue : Nat -> UInt8)

def Realloc.relocates : Realloc -> Bool
  | .fails => false
  | .inPlace _ => false
  | .moves _ => true

def Realloc.succeeds : Realloc -> Bool
  | .fails => false
  | .inPlace _ => true
  | .moves _ => true

namespace Heap

/-- Copy bytes into a block.  A copy of no bytes is no access, and a copy past
the end of the block writes what lies inside and is recorded as an overrun. -/
def write (heap : Heap Bytes) (block : Block) (offset : Nat) (bytes : Bytes) : Heap Bytes :=
  if bytes.isEmpty then heap
  else if offset + bytes.length ≤ (heap.cell block).length then
    heap.modify block fun old => overwrite old offset bytes
  else (heap.modify block fun old => overwrite old offset bytes).flag (.overrun block)

@[simp] theorem write_next (heap : Heap Bytes) (block : Block) (offset : Nat) (bytes : Bytes) :
    (heap.write block offset bytes).next = heap.next := by
  unfold write
  split <;> [rfl; split] <;> simp

@[simp] theorem write_releases (heap : Heap Bytes) (block : Block) (offset : Nat)
    (bytes : Bytes) : (heap.write block offset bytes).releases = heap.releases := by
  unfold write
  split <;> [rfl; split] <;> simp

@[simp] theorem live_write_iff (heap : Heap Bytes) (written block : Block) (offset : Nat)
    (bytes : Bytes) : (heap.write written offset bytes).Live block ↔ heap.Live block := by
  simp [Live]

theorem write_cell_of_ne (heap : Heap Bytes) {block other : Block} (offset : Nat)
    (bytes : Bytes) (different : other ≠ block) :
    (heap.write block offset bytes).cell other = heap.cell other := by
  unfold write
  split
  · rfl
  · split
    · exact modify_cell_of_ne heap _ different
    · rw [flag_cell]
      exact modify_cell_of_ne heap _ different

theorem write_cell_length (heap : Heap Bytes) (block other : Block) (offset : Nat)
    (bytes : Bytes) :
    ((heap.write block offset bytes).cell other).length = (heap.cell other).length := by
  by_cases same : other = block
  · subst other
    unfold write
    split
    · rfl
    · split <;> simp
  · rw [write_cell_of_ne heap offset bytes same]

/-- A copy into a live block that stays inside the block records no fault.
With its converse for stale blocks, the list of faults tells exactly whether a
copy was allowed. -/
theorem write_faults_of_fits {heap : Heap Bytes} {block : Block} (live : heap.Live block)
    {offset : Nat} {bytes : Bytes} (fits : offset + bytes.length ≤ (heap.cell block).length) :
    (heap.write block offset bytes).faults = heap.faults := by
  by_cases nothing : bytes.isEmpty
  · rw [write, if_pos nothing]
  · rw [write, if_neg nothing, if_pos fits, modify_faults, touch_of_live live]

/-- A copy of at least one byte into a block that is no longer live is
recorded, whatever the offset. -/
theorem write_faults_of_stale {heap : Heap Bytes} {block : Block} (stale : ¬ heap.Live block) (offset : Nat)
    {bytes : Bytes} (something : bytes ≠ []) : (heap.write block offset bytes).faults ≠ heap.faults := by
  intro same
  have touched : (heap.touch block).faults = .stale block :: heap.faults := by
    rw [touch, if_neg stale]
  have longer := congrArg List.length same
  rw [write, if_neg (fun nothing => something (List.isEmpty_iff.mp nothing))] at longer
  split at longer
  · rw [modify_faults, touched, List.length_cons] at longer
    omega
  · rw [flag, List.length_cons, modify_faults, touched, List.length_cons] at longer
    omega

theorem write_cell_self {heap : Heap Bytes} {block : Block} {offset : Nat} {bytes : Bytes}
    (fits : offset + bytes.length ≤ (heap.cell block).length) :
    (heap.write block offset bytes).cell block = overwrite (heap.cell block) offset bytes := by
  by_cases nothing : bytes.isEmpty
  · rw [write, if_pos nothing, List.isEmpty_iff.mp nothing, overwrite_nil]
  · rw [write, if_neg nothing, if_pos fits, modify_cell_self]

theorem write_rewritten {heap : Heap Bytes} {block : Block} (live : heap.Live block) {offset : Nat}
    {bytes : Bytes} (fits : offset + bytes.length ≤ (heap.cell block).length) :
    heap.Rewritten (heap.write block offset bytes) block
      (overwrite (heap.cell block) offset bytes) where
  next := write_next ..
  releases := write_releases ..
  here := write_cell_self fits
  others := fun _ different => write_cell_of_ne heap offset bytes different
  faults := write_faults_of_fits live fits

theorem Extends.write {heap heap' : Heap Bytes} {value : Bytes}
    (extended : Extends heap heap' value) (offset : Nat) (bytes : Bytes)
    (fits : offset + bytes.length ≤ value.length) :
    Extends heap (heap'.write heap.next offset bytes) (overwrite value offset bytes) where
  next := (write_next ..).trans extended.next
  releases := (write_releases ..).trans extended.releases
  fresh := by
    rw [write_cell_self (extended.fresh.symm ▸ fits), extended.fresh]
  older := fun block different =>
    (write_cell_of_ne _ _ _ different).trans (extended.older block different)
  faults := fun unused => by
    rw [write_faults_of_fits (extended.live unused) (extended.fresh.symm ▸ fits)]
    exact extended.faults unused

/-- Access through a pointer that may be null.  The null pointer is a fault of
its own. -/
def touchAt (heap : Heap Bytes) : Option Block -> Heap Bytes
  | none => heap.flag .null
  | some block => heap.touch block

def writeAt (heap : Heap Bytes) (pointer : Option Block) (offset : Nat) (bytes : Bytes) : Heap Bytes :=
  match pointer with
  | none => if bytes.isEmpty then heap else heap.flag .null
  | some block => heap.write block offset bytes

@[simp] theorem touchAt_next (heap : Heap Bytes) (pointer : Option Block) :
    (heap.touchAt pointer).next = heap.next := by
  cases pointer <;> simp [touchAt]

@[simp] theorem touchAt_cell (heap : Heap Bytes) (pointer : Option Block) :
    (heap.touchAt pointer).cell = heap.cell := by
  cases pointer <;> simp [touchAt]

@[simp] theorem touchAt_releases (heap : Heap Bytes) (pointer : Option Block) :
    (heap.touchAt pointer).releases = heap.releases := by
  cases pointer <;> simp [touchAt]

@[simp] theorem writeAt_next (heap : Heap Bytes) (pointer : Option Block) (offset : Nat)
    (bytes : Bytes) : (heap.writeAt pointer offset bytes).next = heap.next := by
  cases pointer with
  | none => by_cases nothing : bytes.isEmpty <;> simp [writeAt, nothing]
  | some block => exact write_next heap block offset bytes

@[simp] theorem writeAt_releases (heap : Heap Bytes) (pointer : Option Block) (offset : Nat)
    (bytes : Bytes) : (heap.writeAt pointer offset bytes).releases = heap.releases := by
  cases pointer with
  | none => by_cases nothing : bytes.isEmpty <;> simp [writeAt, nothing]
  | some block => exact write_releases heap block offset bytes

theorem writeAt_cell_of_ne (heap : Heap Bytes) {pointer : Option Block} (offset : Nat)
    (bytes : Bytes) {block : Block} (different : pointer ≠ some block) :
    (heap.writeAt pointer offset bytes).cell block = heap.cell block := by
  cases pointer with
  | none => by_cases nothing : bytes.isEmpty <;> simp [writeAt, nothing]
  | some written =>
      exact write_cell_of_ne heap offset bytes fun same => different (congrArg some same.symm)

theorem writeAt_cell_length (heap : Heap Bytes) (pointer : Option Block) (offset : Nat)
    (bytes : Bytes) (block : Block) :
    ((heap.writeAt pointer offset bytes).cell block).length = (heap.cell block).length := by
  cases pointer with
  | none => by_cases nothing : bytes.isEmpty <;> simp [writeAt, nothing]
  | some written => exact write_cell_length heap written block offset bytes

/-- Reallocate a block: the new pointer, or nothing when the request fails.  A
block that moves gets a fresh identity and the old identity is released.
Reallocating the null pointer is an allocation. -/
def realloc (heap : Heap Bytes) (pointer : Option Block) (size : Nat) :
    Realloc -> Heap Bytes × Option Block
  | .fails => (heap, none)
  | .inPlace residue =>
      match pointer with
      | none => (heap.alloc (freshBytes size residue), some heap.next)
      | some block => (heap.modify block fun old => resize old size residue, some block)
  | .moves residue =>
      match pointer with
      | none => (heap.alloc (freshBytes size residue), some heap.next)
      | some block =>
          let moved := (heap.touch block).alloc (resize (heap.cell block) size residue)
          (moved.release block, some heap.next)

/-- The block of a reallocation has the requested size, and no other block has
changed.  The block is the old one or the one just handed out. -/
structure Resized (heap heap' : Heap Bytes) (old block : Block) (size : Nat) : Prop where
  next : heap.next ≤ heap'.next
  either : block = old ∨ block = heap.next
  issued : block < heap'.next
  size : (heap'.cell block).length = size
  others : forall other, other < heap.next -> other ≠ block -> heap'.cell other = heap.cell other

theorem realloc_some {heap heap' : Heap Bytes} {old block : Block} {size : Nat} {outcome : Realloc}
    (issued : old < heap.next)
    (result : heap.realloc (some old) size outcome = (heap', some block)) :
    heap.Resized heap' old block size := by
  cases outcome with
  | fails => cases (Prod.mk.inj result).2
  | inPlace residue =>
      rcases Prod.mk.inj result with ⟨rfl, same⟩
      rw [← Option.some.inj same]
      refine ⟨Nat.le_of_eq (modify_next ..).symm, Or.inl rfl, ?_, ?_, fun other _ different => ?_⟩
      · exact Nat.lt_of_lt_of_eq issued (modify_next ..).symm
      · rw [modify_cell_self, resize_length]
      · exact modify_cell_of_ne heap _ different
  | moves residue =>
      rcases Prod.mk.inj result with ⟨rfl, same⟩
      rw [← Option.some.inj same]
      have sameNext : (heap.touch old).next = heap.next := touch_next ..
      refine ⟨?_, Or.inr rfl, ?_, ?_, fun other inside _ => ?_⟩
      · rw [release_next, alloc_next, sameNext]
        exact Nat.le_succ _
      · rw [release_next, alloc_next, sameNext]
        exact Nat.lt_succ_self _
      · rw [release_cell, ← sameNext, alloc_cell_next, resize_length]
      · rw [release_cell, alloc_cell_of_ne, touch_cell]
        exact sameNext ▸ Nat.ne_of_lt inside

/-- A reallocation without a result has changed nothing, so the caller still
owns the old block with its contents. -/
theorem realloc_none {heap heap' : Heap Bytes} {pointer : Option Block} {size : Nat}
    {outcome : Realloc} (refused : heap.realloc pointer size outcome = (heap', none)) :
    heap' = heap := by
  cases outcome with
  | fails => exact (Prod.mk.inj refused).1.symm
  | inPlace residue =>
      cases pointer with
      | none => cases (Prod.mk.inj refused).2
      | some block => cases (Prod.mk.inj refused).2
  | moves residue =>
      cases pointer with
      | none => cases (Prod.mk.inj refused).2
      | some block => cases (Prod.mk.inj refused).2

end Heap

end Foundation
end BugMuseum
