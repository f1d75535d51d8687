import Mathlib.Data.List.Nodup
import Mathlib.Data.List.Perm.Basic
import BugMuseum.Foundation.BlockHeap

namespace BugMuseum
namespace Foundation

/-!
# The live blocks of a heap

A heap retains a list of blocks exactly when these are its live blocks, every other block that
it handed out has been released once, and no access was ever recorded as a fault.  So what is
listed is neither lost nor shared.  The rules below say how the list changes with each use of
the heap; a program whose objects name the listed blocks then leaks nothing, and releases
nothing twice.
-/

variable {Cell : Type}

structure Retains (heap : Heap Cell) (blocks : List Block) : Prop where
  nodup : blocks.Nodup
  live : forall block, block ∈ blocks -> heap.Live block
  returned : forall block, block < heap.next -> block ∉ blocks -> heap.releases block = 1
  unused : forall block, heap.next ≤ block -> heap.releases block = 0
  clean : heap.faults = []

theorem retains_empty [Inhabited Cell] : Retains (Heap.empty : Heap Cell) [] where
  nodup := .nil
  live := fun _ impossible => by cases impossible
  returned := fun block impossible _ => absurd impossible (Nat.not_lt_zero block)
  unused := fun _ _ => rfl
  clean := rfl

namespace Retains

variable {heap heap' : Heap Cell} {blocks other : List Block} {block : Block}

theorem perm (holds : Retains heap blocks) (same : blocks.Perm other) : Retains heap other where
  nodup := same.nodup_iff.mp holds.nodup
  live := fun block member => holds.live block (same.mem_iff.mpr member)
  returned := fun block issued absent => holds.returned block issued fun member => absent (same.mem_iff.mp member)
  unused := holds.unused
  clean := holds.clean

/-- Only the counters of the heap matter: what the blocks hold may change
freely. -/
theorem congr (holds : Retains heap blocks) (next : heap'.next = heap.next)
    (releases : heap'.releases = heap.releases) (faults : heap'.faults = heap.faults) : Retains heap' blocks where
  nodup := holds.nodup
  live := fun block member => (Heap.Live.congr next releases).mpr (holds.live block member)
  returned := fun block issued absent => by
    rw [releases]
    exact holds.returned block (next ▸ issued) absent
  unused := fun block beyond => by
    rw [releases]
    exact holds.unused block (next ▸ beyond)
  clean := faults.trans holds.clean

theorem touch_eq (holds : Retains heap blocks) (member : block ∈ blocks) : heap.touch block = heap :=
  Heap.touch_of_live (holds.live block member)

theorem modify (holds : Retains heap blocks) (member : block ∈ blocks) (change : Cell -> Cell) :
    Retains (heap.modify block change) blocks := by
  refine holds.congr (Heap.modify_next ..) (Heap.modify_releases ..) ?_
  rw [Heap.modify_faults, holds.touch_eq member]

theorem next_not_mem (holds : Retains heap blocks) : heap.next ∉ blocks := fun member =>
  Nat.lt_irrefl _ (holds.live _ member).1

/-- A new block is one block more.  It is not among the listed ones, since
they have been handed out before. -/
theorem alloc (holds : Retains heap blocks) (value : Cell) : Retains (heap.alloc value) (heap.next :: blocks) where
  nodup := List.nodup_cons.mpr ⟨holds.next_not_mem, holds.nodup⟩
  live := fun block member => by
    rcases List.mem_cons.mp member with rfl | old
    · exact Heap.live_grown rfl rfl (holds.unused _ (Nat.le_refl _))
    · exact (holds.live block old).alloc value
  returned := fun block issued absent => by
    have parts := not_or.mp (List.mem_cons.not.mp absent)
    exact holds.returned block (Nat.lt_of_le_of_ne (Nat.le_of_lt_succ issued) parts.1) parts.2
  unused := fun block beyond => holds.unused block (Nat.le_of_succ_le beyond)
  clean := holds.clean

/-- A released block is one block less.  It has to be listed, so a second
release is not possible. -/
theorem release (holds : Retains heap (block :: blocks)) : Retains (heap.release block) blocks where
  nodup := holds.nodup.of_cons
  live := fun other member => by
    have different : other ≠ block := fun same => (List.nodup_cons.mp holds.nodup).1 (same ▸ member)
    exact (holds.live other (List.mem_cons_of_mem _ member)).release different
  returned := fun other issued absent => by
    by_cases same : other = block
    · have live := holds.live block List.mem_cons_self
      rw [same, Heap.release_releases_self, live.2]
    · rw [Heap.release_releases_of_ne _ same]
      exact holds.returned other issued fun member => (List.mem_cons.mp member).elim same absent
  unused := fun other beyond => by
    have live := holds.live block List.mem_cons_self
    have different : other ≠ block := fun same => Nat.not_lt.mpr beyond (same ▸ live.1)
    rw [Heap.release_releases_of_ne _ different]
    exact holds.unused other beyond
  clean := holds.clean

/-- A pointer that is null or names a listed block can be released, and then
its block is not listed any more. -/
theorem releaseAt {pointer : Option Block} (holds : Retains heap (pointer.toList ++ blocks)) :
    Retains (heap.releaseAt pointer) blocks := by
  cases pointer with
  | none => exact holds
  | some block => exact Retains.release holds

/-- When nothing is held, every block was released exactly once: none is lost,
and none was released twice. -/
theorem all_returned (holds : Retains heap []) (issued : block < heap.next) : heap.releases block = 1 :=
  holds.returned block issued List.not_mem_nil

end Retains

/-- A copy that stays inside a listed block changes no counter and is no
fault. -/
theorem Retains.write {heap : Heap Bytes} {blocks : List Block} (holds : Retains heap blocks) {block : Block}
    (member : block ∈ blocks) {offset : Nat} {bytes : Bytes}
    (fits : offset + bytes.length ≤ (heap.cell block).length) : Retains (heap.write block offset bytes) blocks :=
  holds.congr (Heap.write_next ..) (Heap.write_releases ..) (Heap.write_faults_of_fits (holds.live block member) fits)

section Copies

variable {heap : Heap Bytes} {size : Nat} {bytes : Bytes}

/-- A copy to the front of a new block, as `malloc` and `memcpy` make it, is
one block more and no fault when the bytes fit. -/
theorem Retains.freshCopy {blocks : List Block} (holds : Retains heap blocks) (fits : bytes.length ≤ size)
    (residue : Nat -> UInt8) :
    Retains ((heap.alloc (freshBytes size residue)).write heap.next 0 bytes) (heap.next :: blocks) := by
  refine (holds.alloc _).write List.mem_cons_self ?_
  rw [Heap.alloc_cell_next, freshBytes_length, Nat.zero_add]
  exact fits

/-- The new block starts with the copy, and behind it stands what the memory
held before. -/
theorem freshCopy_cell (heap : Heap Bytes) (fits : bytes.length ≤ size) (residue : Nat -> UInt8) :
    ((heap.alloc (freshBytes size residue)).write heap.next 0 bytes).cell heap.next =
      bytes ++ (freshBytes size residue).drop bytes.length := by
  have room : bytes.length ≤ (freshBytes size residue).length := by
    rw [freshBytes_length]
    exact fits
  rw [Heap.write_cell_self (by rw [Heap.alloc_cell_next, Nat.zero_add]; exact room),
    Heap.alloc_cell_next, overwrite_zero room]

end Copies

end Foundation
end BugMuseum
