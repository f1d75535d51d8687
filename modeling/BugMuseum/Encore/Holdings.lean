import BugMuseum.Encore.TableRuns
import BugMuseum.Foundation.Ownership

namespace BugMuseum
namespace Encore

open Foundation

/-!
# The blocks a job holds

A job of the table holds its own block, a document buffer and perhaps a
metadata buffer.  `Holds s heap field` is exclusive ownership of the blocks
that the table jobs name through one of their fields.  A change that only
relinks the queue keeps it, a retirement releases one block and takes its
owner away, and entering a new job adds one owner.
-/

/-- A field of a job that does not depend on its queue link, such as the
document and the metadata. -/
def Unlinked (field : Job -> Option Block) : Prop :=
  forall job next, field { job with qnext := next } = field job

theorem unlinked_data : Unlinked Job.data := fun _ _ => rfl

theorem unlinked_metaBuf : Unlinked Job.metaBuf := fun _ _ => rfl

def Holds {Cell : Type} (s : Store) (heap : Heap Cell) (field : Job -> Option Block) : Prop :=
  Exclusive heap s.InTable fun j => field (s.job j)

theorem Unlinked.congr {field : Job -> Option Block} (unlinked : Unlinked field) {left right : Job}
    (same : { left with qnext := none } = { right with qnext := none }) :
    field left = field right := by
  rw [← unlinked left none, same, unlinked right none]

namespace Holds

variable {Cell : Type} {heap heap' : Heap Cell} {field : Job -> Option Block}
  {s s' : Store} {pumped : Option Block} {q : List Block}

/-- Only the counters of the heap and the fields of the table jobs matter. -/
theorem transfer (holds : Holds s heap field) (sameNext : heap'.next = heap.next)
    (sameReleases : heap'.releases = heap.releases)
    (fewer : forall j, s'.InTable j -> s.InTable j)
    (agree : forall j, s'.InTable j -> field (s'.job j) = field (s.job j)) :
    Holds s' heap' field :=
  Exclusive.transfer holds sameNext sameReleases fewer agree

/-- A retirement releases what the retired job holds, and the other jobs keep
what they hold. -/
theorem retire (holds : Holds s heap field) (unlinked : Unlinked field)
    (consistent : Consistent s pumped q) {index : Nat} {j : Block} (slot : s.slots index = some j) :
    Holds (retireHeld s index j) (heap.releaseAt (field (s.job j))) field := by
  have member := consistent.retireHeld_inTable slot
  have inTable : s.InTable j := ⟨index, (consistent.ids index j slot).1, slot⟩
  have released := Exclusive.releaseAt holds inTable (fun k stays => (member k).mp stays)
  exact released.transfer rfl rfl (fun _ stays => stays) fun k _ =>
    unlinked.congr (retireHeld_fields s index j k)

section Admission

variable {jobs : Heap Job} {docs metas : Heap Bytes} {id : Nat} {job : Job} {document : Bytes}

/-- The new job holds the block just allocated, which no other job holds. -/
theorem enter (holds : Holds s heap field) (unlinked : Unlinked field)
    (consistent : Consistent s pumped q) (admission : Admission s jobs docs id job document)
    (slot : firstFree spoolMax s.slots = some id) {value : Cell}
    (extended : heap.Extends heap' value) (owner : field job = some heap.next) :
    Holds (admitted s jobs docs metas id) heap' field := by
  refine Exclusive.extend holds extended s.jobs.next ?_ (fun k old => ?_) fun k => ?_
  · exact (unlinked.congr (admitted_new admission metas)).trans owner
  · exact unlinked.congr (admitted_old consistent admission metas old)
  · exact (admitted_inTable jobs docs metas slot k).mp

/-- The new job holds no block of this kind, as a job whose header block was
refused. -/
theorem enter_none (holds : Holds s heap field) (unlinked : Unlinked field)
    (consistent : Consistent s pumped q) (admission : Admission s jobs docs id job document)
    (slot : firstFree spoolMax s.slots = some id) (nothing : field job = none) :
    Holds (admitted s jobs docs metas id) heap field := by
  have member := admitted_inTable jobs docs metas slot
  have fresh : field ((admitted s jobs docs metas id).job s.jobs.next) = none :=
    (unlinked.congr (admitted_new admission metas)).trans nothing
  have older : forall k block, (admitted s jobs docs metas id).InTable k ->
      field ((admitted s jobs docs metas id).job k) = some block ->
      s.InTable k ∧ field (s.job k) = some block := by
    intro k block inTable owned
    rcases (member k).mp inTable with old | new
    · exact ⟨old, (unlinked.congr (admitted_old consistent admission metas old)).symm.trans owned⟩
    · subst new
      cases fresh.symm.trans owned
  constructor
  · intro k block inTable owned
    rcases older k block inTable owned with ⟨old, owns⟩
    exact holds.live k block old owns
  · intro left right block leftHolds rightHolds leftOwns rightOwns
    rcases older left block leftHolds leftOwns with ⟨leftOld, leftSame⟩
    rcases older right block rightHolds rightOwns with ⟨rightOld, rightSame⟩
    exact holds.sole left right block leftOld rightOld leftSame rightSame
  · exact holds.once
  · exact holds.unused

end Admission

end Holds

/-- A job of the table is live, and it is released at most once. -/
def JobsHeld (s : Store) : Prop :=
  Exclusive s.jobs s.InTable some

namespace JobsHeld

variable {s s' : Store} {pumped : Option Block} {q : List Block}

theorem live (held : JobsHeld s) {j : Block} (inTable : s.InTable j) : s.jobs.Live j :=
  Exclusive.live held j j inTable rfl

theorem transfer (held : JobsHeld s) (next : s'.jobs.next = s.jobs.next)
    (releases : s'.jobs.releases = s.jobs.releases) (fewer : forall j, s'.InTable j -> s.InTable j) :
    JobsHeld s' :=
  Exclusive.transfer held next releases fewer fun _ _ => rfl

theorem withdrawn (held : JobsHeld s) (value : Job) : JobsHeld (withdrawn s value) :=
  Exclusive.alloc_release held value

theorem enter (held : JobsHeld s) {jobs : Heap Job} {docs : Heap Bytes} (metas : Heap Bytes) {id : Nat}
    {job : Job} {document : Bytes} (admission : Admission s jobs docs id job document)
    (slot : firstFree spoolMax s.slots = some id) : JobsHeld (admitted s jobs docs metas id) := by
  rcases admitted_frame s jobs docs metas id with ⟨next, releases, _⟩
  have member := admitted_inTable jobs docs metas slot
  have extended : Exclusive jobs (admitted s jobs docs metas id).InTable some :=
    Exclusive.extend held admission.jobs s.jobs.next rfl (fun _ _ => rfl) fun k => (member k).mp
  exact extended.transfer next releases (fun _ inTable => inTable) fun _ _ => rfl

theorem retireHeld (held : JobsHeld s) (consistent : Consistent s pumped q) {index : Nat} {j : Block}
    (slot : s.slots index = some j) : JobsHeld (retireHeld s index j) := by
  have member := consistent.retireHeld_inTable slot
  have inTable : s.InTable j := ⟨index, (consistent.ids index j slot).1, slot⟩
  have released : Exclusive (s.jobs.release j) (Encore.retireHeld s index j).InTable some :=
    Exclusive.releaseAt held inTable fun k => (member k).mp
  exact released.transfer (retireHeld_next s index j) (retireHeld_releases s index j)
    (fun _ stays => stays) fun _ _ => rfl

theorem retireNamed (held : JobsHeld s) (consistent : Consistent s pumped q) {j : Block}
    (inTable : s.InTable j) : JobsHeld (jobRetire s (s.job j).id).1 := by
  rcases consistent.jobRetire_named inTable with ⟨index, slot, result⟩
  rw [result]
  exact held.retireHeld consistent slot

end JobsHeld

end Encore
end BugMuseum
