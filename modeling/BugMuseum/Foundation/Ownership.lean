import BugMuseum.Foundation.BlockHeap

namespace BugMuseum
namespace Foundation

/-!
# Exclusive ownership of heap blocks

A program keeps some objects, the holders, and each holder may own one block
of a heap.  Ownership is exclusive when every owned block is live, no two
holders own the same block, and no block was ever released twice.  This is
the discipline under which releasing a holder's block is always right, and
the rules below say how each use of the heap keeps it.

`Separate` is the part of it that reads and writes need, where a block that
nobody owns may have been released again and again.  `Accounted` adds the
converse: a block that is still live has an owner, so
together the two say that every block was released exactly once, or is owned
by exactly one holder.
-/

variable {Cell Holder : Type}

/-- Every owned block is live and no two holders own the same block.  How
often a block without an owner was released does not matter. -/
structure Separate (heap : Heap Cell) (holders : Holder -> Prop)
    (owns : Holder -> Option Block) : Prop where
  live : forall holder block, holders holder -> owns holder = some block -> heap.Live block
  sole : forall left right block, holders left -> holders right ->
    owns left = some block -> owns right = some block -> left = right
  unused : forall block, heap.next ≤ block -> heap.releases block = 0

structure Exclusive (heap : Heap Cell) (holders : Holder -> Prop)
    (owns : Holder -> Option Block) : Prop where
  live : forall holder block, holders holder -> owns holder = some block -> heap.Live block
  sole : forall left right block, holders left -> holders right ->
    owns left = some block -> owns right = some block -> left = right
  once : forall block, heap.releases block ≤ 1
  unused : forall block, heap.next ≤ block -> heap.releases block = 0

/-- Every block handed out and not released is owned.  It is the converse of
exclusive ownership, and says that nothing leaks. -/
def Accounted (heap : Heap Cell) (holders : Holder -> Prop) (owns : Holder -> Option Block) : Prop :=
  forall block, block < heap.next -> heap.releases block = 0 ->
    exists holder, holders holder ∧ owns holder = some block

theorem separate_empty [Inhabited Cell] {holders : Holder -> Prop} (owns : Holder -> Option Block)
    (nobody : forall holder, ¬ holders holder) : Separate (Heap.empty : Heap Cell) holders owns where
  live := fun holder _ holds _ => absurd holds (nobody holder)
  sole := fun left _ _ holds _ _ _ => absurd holds (nobody left)
  unused := fun _ _ => rfl

theorem accounted_empty [Inhabited Cell] (holders : Holder -> Prop)
    (owns : Holder -> Option Block) : Accounted (Heap.empty : Heap Cell) holders owns :=
  fun block impossible _ => absurd impossible (Nat.not_lt_zero block)

namespace Separate

variable {heap heap' : Heap Cell} {holders holders' : Holder -> Prop}
  {owns owns' : Holder -> Option Block}

theorem not_owned_next (separate : Separate heap holders owns) {holder : Holder}
    (holds : holders holder) : owns holder ≠ some heap.next := fun owned =>
  absurd (separate.live holder heap.next holds owned).1 (Nat.lt_irrefl _)

/-- Only the counters of the heap and the blocks of the remaining holders
matter, so contents may change and holders may leave without their blocks. -/
theorem transfer (separate : Separate heap holders owns)
    (sameNext : heap'.next = heap.next) (sameReleases : heap'.releases = heap.releases)
    (fewer : forall holder, holders' holder -> holders holder)
    (agree : forall holder, holders' holder -> owns' holder = owns holder) :
    Separate heap' holders' owns' where
  live := fun holder block holds owned => by
    have old := separate.live holder block (fewer holder holds) (agree holder holds ▸ owned)
    exact ⟨sameNext ▸ old.1, sameReleases ▸ old.2⟩
  sole := fun left right block leftHolds rightHolds leftOwns rightOwns =>
    separate.sole left right block (fewer left leftHolds) (fewer right rightHolds)
      (agree left leftHolds ▸ leftOwns) (agree right rightHolds ▸ rightOwns)
  unused := fun block beyond => sameReleases ▸ separate.unused block (sameNext ▸ beyond)

/-- A new holder takes the block that has just been allocated.  Nobody owned
it before, because it had not been handed out. -/
theorem extend (separate : Separate heap holders owns) {value : Cell}
    (extended : heap.Extends heap' value) (fresh : Holder)
    (owner : owns' fresh = some heap.next)
    (agree : forall holder, holders holder -> owns' holder = owns holder)
    (members : forall holder, holders' holder -> holders holder ∨ holder = fresh) :
    Separate heap' holders' owns' where
  live := fun holder block holds owned => by
    rcases members holder holds with old | new
    · exact extended.keeps (separate.live holder block old (agree holder old ▸ owned))
    · subst new
      have same : heap.next = block := Option.some.inj (owner.symm.trans owned)
      subst same
      exact extended.live (separate.unused _ (Nat.le_refl _))
  sole := fun left right block leftHolds rightHolds leftOwns rightOwns => by
    rcases members left leftHolds with leftOld | leftNew
    · rcases members right rightHolds with rightOld | rightNew
      · exact separate.sole left right block leftOld rightOld
          (agree left leftOld ▸ leftOwns) (agree right rightOld ▸ rightOwns)
      · subst rightNew
        have owned : owns left = some heap.next := by
          rw [← agree left leftOld, leftOwns, ← rightOwns, owner]
        exact absurd owned (separate.not_owned_next leftOld)
    · subst leftNew
      rcases members right rightHolds with rightOld | rightNew
      · have owned : owns right = some heap.next := by
          rw [← agree right rightOld, rightOwns, ← leftOwns, owner]
        exact absurd owned (separate.not_owned_next rightOld)
      · exact rightNew.symm
  unused := fun block beyond => by
    rw [extended.next] at beyond
    rw [extended.releases]
    exact separate.unused block (Nat.le_of_succ_le beyond)

/-- A holder leaves and its block is released, however often.  The other
blocks must not be released by it. -/
theorem vacate (separate : Separate heap holders owns) {gone : Holder} (holds : holders gone)
    (sameNext : heap'.next = heap.next)
    (releases : forall block, owns gone ≠ some block -> heap'.releases block = heap.releases block)
    (members : forall holder, holders' holder -> holders holder ∧ holder ≠ gone) :
    Separate heap' holders' owns where
  live := fun holder block stays owned => by
    have old := members holder stays
    have live := separate.live holder block old.1 owned
    have kept : heap'.releases block = heap.releases block :=
      releases block fun same => old.2 (separate.sole holder gone block old.1 holds owned same)
    exact ⟨sameNext ▸ live.1, kept.trans live.2⟩
  sole := fun left right block leftStays rightStays =>
    separate.sole left right block (members left leftStays).1 (members right rightStays).1
  unused := fun block beyond => by
    rw [sameNext] at beyond
    rw [releases block fun owned => ?_]
    · exact separate.unused block beyond
    · exact absurd (separate.live gone block holds owned).1 (Nat.not_lt.mpr beyond)

/-- The contents of a block move to a new one, and the holder owns the new one
from then on. -/
theorem move (separate : Separate heap holders owns) {holder : Holder} {old : Block} {value : Cell}
    (holds : holders holder) (owned : owns holder = some old) (moved : heap.Moved heap' old value)
    (owner : owns' holder = some heap.next)
    (agree : forall other, other ≠ holder -> owns' other = owns other) :
    Separate heap' holders owns' := by
  let vacated : Heap Cell := { heap' with next := heap.next, cell := heap.cell, faults := heap.faults }
  have left : Separate vacated (fun other => holders other ∧ other ≠ holder) owns := by
    refine separate.vacate holds rfl (fun block different => ?_) fun _ stays => stays
    exact moved.releases block fun same => different (same ▸ owned)
  have extended : vacated.Extends heap' value :=
    ⟨moved.next, rfl, moved.fresh, moved.older, fun _ => moved.faults⟩
  refine left.extend extended holder owner (fun other stays => agree other stays.2) fun other held => ?_
  by_cases same : other = holder
  · exact Or.inr same
  · exact Or.inl ⟨held, same⟩

end Separate

theorem Heap.releaseAt_releases_of_ne (heap : Heap Cell) {pointer : Option Block} {block : Block}
    (different : pointer ≠ some block) : (heap.releaseAt pointer).releases block = heap.releases block := by
  cases pointer with
  | none => rfl
  | some released =>
      exact Heap.release_releases_of_ne heap fun same => different (congrArg some same.symm)

namespace Exclusive

variable {heap heap' : Heap Cell} {holders holders' : Holder -> Prop}
  {owns owns' : Holder -> Option Block}

theorem separate (exclusive : Exclusive heap holders owns) : Separate heap holders owns :=
  ⟨exclusive.live, exclusive.sole, exclusive.unused⟩

theorem of_separate (separate : Separate heap holders owns)
    (once : forall block, heap.releases block ≤ 1) : Exclusive heap holders owns :=
  ⟨separate.live, separate.sole, once, separate.unused⟩

theorem not_owned_next (exclusive : Exclusive heap holders owns) {holder : Holder}
    (holds : holders holder) : owns holder ≠ some heap.next :=
  exclusive.separate.not_owned_next holds

theorem transfer (exclusive : Exclusive heap holders owns)
    (sameNext : heap'.next = heap.next) (sameReleases : heap'.releases = heap.releases)
    (fewer : forall holder, holders' holder -> holders holder)
    (agree : forall holder, holders' holder -> owns' holder = owns holder) :
    Exclusive heap' holders' owns' := by
  apply of_separate (exclusive.separate.transfer sameNext sameReleases fewer agree)
  exact fun block => sameReleases ▸ exclusive.once block

theorem extend (exclusive : Exclusive heap holders owns) {value : Cell}
    (extended : heap.Extends heap' value) (fresh : Holder)
    (owner : owns' fresh = some heap.next)
    (agree : forall holder, holders holder -> owns' holder = owns holder)
    (members : forall holder, holders' holder -> holders holder ∨ holder = fresh) :
    Exclusive heap' holders' owns' := by
  apply of_separate (exclusive.separate.extend extended fresh owner agree members)
  exact fun block => extended.releases ▸ exclusive.once block

/-- A block that is allocated and released again leaves the owners as they
are.  This is what a call does that fails at its second allocation. -/
theorem alloc_release (exclusive : Exclusive heap holders owns) (value : Cell) :
    Exclusive ((heap.alloc value).release heap.next) holders owns where
  live := fun holder block holds owned => by
    have old := exclusive.live holder block holds owned
    exact (old.alloc value).release (Nat.ne_of_lt old.1)
  sole := exclusive.sole
  once := fun block => by
    by_cases same : block = heap.next
    · subst same
      apply Nat.le_of_eq
      rw [Heap.release_releases_self, Heap.alloc_releases, exclusive.unused _ (Nat.le_refl _)]
    · rw [Heap.release_releases_of_ne _ same]
      exact exclusive.once block
  unused := fun block beyond => by
    have later : heap.next < block := beyond
    rw [Heap.release_releases_of_ne _ (Nat.ne_of_gt later)]
    exact exclusive.unused block (Nat.le_of_lt later)

/-- Releasing the block of a holder that leaves keeps ownership exclusive, as
nobody else had the block. -/
theorem releaseAt (exclusive : Exclusive heap holders owns) {gone : Holder}
    (holds : holders gone)
    (members : forall holder, holders' holder -> holders holder ∧ holder ≠ gone) :
    Exclusive (heap.releaseAt (owns gone)) holders' owns := by
  have released := exclusive.separate.vacate holds (heap.releaseAt_next (owns gone))
    (fun block different => heap.releaseAt_releases_of_ne different) members
  apply of_separate released
  intro block
  by_cases owned : owns gone = some block
  · have live := exclusive.live gone block holds owned
    rw [owned]
    exact Nat.le_of_eq ((Heap.release_releases_self heap block).trans (congrArg (· + 1) live.2))
  · rw [heap.releaseAt_releases_of_ne owned]
    exact exclusive.once block

end Exclusive

/-- Nobody owns a block of a heap that handed out none.  It is where every run
starts. -/
theorem exclusive_empty [Inhabited Cell] {holders : Holder -> Prop} (owns : Holder -> Option Block)
    (nobody : forall holder, ¬ holders holder) : Exclusive (Heap.empty : Heap Cell) holders owns :=
  .of_separate (separate_empty owns nobody) fun _ => Nat.zero_le 1

namespace Accounted

variable {heap heap' : Heap Cell} {holders holders' : Holder -> Prop}
  {owns owns' : Holder -> Option Block}

theorem transfer (accounted : Accounted heap holders owns)
    (sameNext : heap'.next = heap.next) (sameReleases : heap'.releases = heap.releases)
    (more : forall holder, holders holder -> holders' holder)
    (agree : forall holder, holders holder -> owns' holder = owns holder) :
    Accounted heap' holders' owns' := by
  intro block issued unreleased
  rcases accounted block (sameNext ▸ issued) (sameReleases ▸ unreleased) with ⟨holder, holds, owned⟩
  exact ⟨holder, more holder holds, (agree holder holds).trans owned⟩

theorem extend (accounted : Accounted heap holders owns) {value : Cell}
    (extended : heap.Extends heap' value) {fresh : Holder}
    (owner : owns' fresh = some heap.next) (holds : holders' fresh)
    (more : forall holder, holders holder -> holders' holder)
    (agree : forall holder, holders holder -> owns' holder = owns holder) :
    Accounted heap' holders' owns' := by
  intro block issued unreleased
  rw [extended.next] at issued
  rw [extended.releases] at unreleased
  rcases Nat.lt_succ_iff_lt_or_eq.mp issued with old | new
  · rcases accounted block old unreleased with ⟨holder, held, owned⟩
    exact ⟨holder, more holder held, (agree holder held).trans owned⟩
  · exact ⟨fresh, holds, new ▸ owner⟩

theorem releaseAt (accounted : Accounted heap holders owns) {gone : Holder}
    (members : forall holder, holders holder -> holder ≠ gone -> holders' holder) :
    Accounted (heap.releaseAt (owns gone)) holders' owns := by
  intro block issued unreleased
  rw [Heap.releaseAt_next] at issued
  cases released : owns gone with
  | none =>
      rw [released] at unreleased
      rcases accounted block issued unreleased with ⟨holder, held, owned⟩
      refine ⟨holder, members holder held fun same => ?_, owned⟩
      rw [same, released] at owned
      cases owned
  | some target =>
      rw [released] at unreleased
      change (heap.release target).releases block = 0 at unreleased
      have different : block ≠ target := by
        intro same
        subst same
        rw [Heap.release_releases_self] at unreleased
        exact Nat.succ_ne_zero _ unreleased
      rw [Heap.release_releases_of_ne _ different] at unreleased
      rcases accounted block issued unreleased with ⟨holder, held, owned⟩
      refine ⟨holder, members holder held fun same => ?_, owned⟩
      rw [same, released] at owned
      exact different (Option.some.inj owned).symm

end Accounted

end Foundation
end BugMuseum
