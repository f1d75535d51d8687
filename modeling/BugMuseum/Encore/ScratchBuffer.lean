import BugMuseum.Encore.Holdings

namespace BugMuseum
namespace Encore

open Foundation

/-!
# The recycled document buffer

`JobRecycle` keeps the buffer of a job in `g_scratch` without taking it from
the job, so the first recycle that finds a job gives the buffer a second
owner.  Two more calls release a document buffer twice: an append whose
reallocation moves the buffer, and a render through the filter that consumes
its document.  A run that avoids the three keeps the buffers exclusive.
-/

/-- The recycled buffer is no job's, and no buffer is released twice.  The
first part says that the store owns what it keeps for later. -/
structure ScratchOwned (s : Store) : Prop where
  scratch : forall data, s.gScratch = some data ->
    s.docs.Live data ∧ forall j, s.InTable j -> (s.job j).data ≠ some data
  once : forall data, s.docs.releases data ≤ 1

/-- The calls in question.  Duplication, cancelling and the pump play no part
in the life of the kept buffer. -/
def Op.recycling : Op -> Prop
  | .submit _ _ _ _ => True
  | .recycle _ => True
  | .render _ _ => True
  | .append _ _ _ => True
  | .retire _ => True
  | .dup _ _ => False
  | .cancel _ => False
  | .status _ _ => False
  | .flush => False

/-- A recycle finds no job, an append does not move its buffer, and a render
goes through a filter that borrows. -/
def KeepsOneOwner (s : Store) : Op -> Prop
  | .recycle id => s.lookup id = none
  | .append id arg outcome => forall j, s.lookup id = some j -> ¬ Relocates s j arg outcome
  | .render id _ => forall j, s.lookup id = some j -> (s.job j).filter.consumes = false
  | _ => True

/-- The discipline of the document heap: nothing is recycled, and every table
job owns its buffer. -/
structure DocumentsKept (s : Store) : Prop where
  table : exists q, Consistent s none q
  unrecycled : s.gScratch = none
  holds : Holds s s.docs Job.data
  allocated : forall j, s.InTable j -> exists data, (s.job j).data = some data

namespace DocumentsKept

variable {s s' : Store}

theorem scratchOwned (kept : DocumentsKept s) : ScratchOwned s where
  scratch := fun data named => by
    rw [kept.unrecycled] at named
    cases named
  once := kept.holds.once

theorem spoolNew : DocumentsKept spoolNew where
  table := ⟨[], consistent_spoolNew⟩
  unrecycled := rfl
  holds := exclusive_empty _ not_inTable_spoolNew
  allocated := fun j held => absurd held (not_inTable_spoolNew j)

/-- A change that keeps the table, its buffers and the counters of the heap
keeps the discipline. -/
theorem transfer (kept : DocumentsKept s) (table : exists q, Consistent s' none q)
    (inTable : forall j, s'.InTable j ↔ s.InTable j) (scratch : s'.gScratch = s.gScratch)
    (sameNext : s'.docs.next = s.docs.next) (sameReleases : s'.docs.releases = s.docs.releases)
    (fields : forall j, s.InTable j -> (s'.job j).data = (s.job j).data) :
    DocumentsKept s' where
  table := table
  unrecycled := scratch.trans kept.unrecycled
  holds := kept.holds.transfer sameNext sameReleases (fun j => (inTable j).mp)
    fun j held => fields j ((inTable j).mp held)
  allocated := fun j held => by
    rw [fields j ((inTable j).mp held)]
    exact kept.allocated j ((inTable j).mp held)

theorem frame (kept : DocumentsKept s) (frame : BufferFrame s s')
    (sameNext : s'.docs.next = s.docs.next) (sameReleases : s'.docs.releases = s.docs.releases)
    (fields : forall j, (s'.job j).data = (s.job j).data) : DocumentsKept s' := by
  rcases kept.table with ⟨q, consistent⟩
  exact kept.transfer ⟨q, consistent.skeleton frame.toSameSkeleton⟩ frame.inTable_iff frame.gScratch
    sameNext sameReleases fun j _ => fields j

theorem touchJob (kept : DocumentsKept s) (j : Block) : DocumentsKept (s.touchJob j) :=
  kept.frame (.touchJob s j) rfl rfl fun k => congrArg Job.data (s.touchJob_job j k)

theorem activate (kept : DocumentsKept s) {j : Block} (inTable : s.InTable j) :
    DocumentsKept { s with gActive := some j } := by
  rcases kept.table with ⟨q, consistent⟩
  exact kept.transfer ⟨q, consistent.activate inTable⟩ (fun _ => Iff.rfl) rfl rfl rfl fun _ _ => rfl

theorem retireHeld (kept : DocumentsKept s) {index : Nat} {j : Block}
    (slot : s.slots index = some j) : DocumentsKept (retireHeld s index j) := by
  rcases kept.table with ⟨q, consistent⟩
  have member := consistent.retireHeld_inTable slot
  refine ⟨⟨_, consistent.retireHeld slot alone_of_none⟩, ?_, ?_, fun k stays => ?_⟩
  · exact (retireHeld_gScratch s index j).trans kept.unrecycled
  · rw [retireHeld_docs]
    exact kept.holds.retire unlinked_data consistent slot
  · rw [unlinked_data.congr (retireHeld_fields s index j k)]
    exact kept.allocated k ((member k).mp stays).1

theorem retireNamed (kept : DocumentsKept s) {j : Block} (inTable : s.InTable j) :
    DocumentsKept (jobRetire s (s.job j).id).1 := by
  rcases kept.table with ⟨q, consistent⟩
  rcases consistent.jobRetire_named inTable with ⟨index, slot, result⟩
  rw [result]
  exact kept.retireHeld slot

theorem jobSubmit (kept : DocumentsKept s) (fmt : Int) (filter : Option Filter) (init : Payload)
    (grant : Nat -> Grant) : DocumentsKept (jobSubmit s fmt filter init grant).1 := by
  rcases kept.table with ⟨q, consistent⟩
  rcases jobSubmit_cases s fmt filter init grant with same | ⟨value, same⟩ |
    ⟨id, jobs, docs, metas, job, document, slot, admission, _, _, _, same⟩ <;> rw [same]
  · exact kept
  · refine kept.transfer ⟨q, consistent.withdrawn value⟩ (fun _ => Iff.rfl) rfl rfl rfl fun j held => ?_
    exact congrArg Job.data (Heap.alloc_cell_of_ne _ _ (Nat.ne_of_lt (consistent.issued j held)))
  · rcases admitted_frame s jobs docs metas id with ⟨_, _, sameDocs, _, sameScratch, _⟩
    have member := admitted_inTable jobs docs metas slot
    refine ⟨⟨_, consistent.enter admission slot metas⟩, sameScratch.trans kept.unrecycled, ?_, ?_⟩
    · rcases admission.docs with ⟨source, next, releases, _, extended⟩
      rw [sameDocs]
      have before := kept.holds.transfer next releases (fun _ held => held) fun _ _ => rfl
      exact before.enter unlinked_data consistent admission slot extended
        (admission.data.trans (congrArg some next.symm))
    · intro k inTable
      rcases (member k).mp inTable with old | new
      · rw [unlinked_data.congr (admitted_old consistent admission metas old)]
        exact kept.allocated k old
      · subst new
        rw [unlinked_data.congr (admitted_new admission metas)]
        exact ⟨_, admission.data⟩

theorem jobRetire (kept : DocumentsKept s) (id : Int) : DocumentsKept (jobRetire s id).1 := by
  exact jobRetire_keeps (P := DocumentsKept) id kept fun j slot => kept.retireHeld slot

theorem handled (kept : DocumentsKept s) {op : Op} {id : Int} (handled : op.jobId = some id)
    (offered : op.recycling) (condition : KeepsOneOwner s op) : DocumentsKept (step s op) := by
  rcases kept.table with ⟨q, consistent⟩
  cases found : s.lookup id with
  | none => rwa [step_absent handled found]
  | some j =>
      have inTable := consistent.lookup_inTable found
      have active := kept.activate inTable
      rw [step_found handled found]
      cases op with
      | render id out =>
          cases handled
          have frame := callFilter_frame { s with gActive := some j } j out
          have docs := callFilter_docs { s with gActive := some j } j out
          have borrowing : (Store.job { s with gActive := some j } j).filter.consumes = false :=
            condition j found
          rw [borrowing] at docs
          have filtered := active.frame frame docs.1 docs.2 fun k => congrArg Job.data (s.touchJob_job j k)
          exact (filtered.touchJob j).retireNamed ((frame.inTable_iff j).mpr inTable)
      | append id arg outcome =>
          cases handled
          rcases kept.allocated j inTable with ⟨data, buffer⟩
          rcases appendTo_stays (s := { s with gActive := some j }) buffer (condition j found) with
              ⟨sameNext, sameReleases, fields⟩
          exact active.frame (appendTo_frame _ j arg outcome) sameNext sameReleases fields
      | recycle id =>
          cases handled
          exact absurd (found.symm.trans condition) (Option.some_ne_none j)
      | cancel id => exact offered.elim
      | dup id grant => exact offered.elim
      | _ => cases handled

end DocumentsKept

section Breaking

variable {s : Store} (kept : DocumentsKept s)

include kept

/-- The recycled buffer is still the buffer of the job it came from, so it has
two owners at once. -/
theorem not_scratchOwned_of_recycle {id : Int} {j : Block} (found : s.lookup id = some j) :
    ¬ ScratchOwned (step s (.recycle id)) := by
  rcases kept.table with ⟨q, consistent⟩
  have inTable := consistent.lookup_inTable found
  rcases kept.allocated j inTable with ⟨data, buffer⟩
  intro owned
  simp only [step, perform, jobRecycle, jobGet_found found] at owned
  have fields : forall k, (Store.touchJob
      { s with gActive := some j, docs := s.docs.releaseAt s.gScratch } j).job k = s.job k :=
    fun k => Store.touchJob_job _ j k
  refine (owned.scratch data ?_).2 j inTable ?_
  · exact (congrArg Job.data (fields j)).trans buffer
  · exact (congrArg Job.data (fields j)).trans buffer

theorem not_scratchOwned_of_append {id : Int} {j : Block} {arg : Payload} {outcome : Realloc}
    (found : s.lookup id = some j) (moves : Relocates s j arg outcome) :
    ¬ ScratchOwned (step s (.append id arg outcome)) := by
  rcases kept.table with ⟨q, consistent⟩
  have inTable := consistent.lookup_inTable found
  rcases kept.allocated j inTable with ⟨data, buffer⟩
  have issued := (kept.holds.live j data inTable buffer).1
  intro owned
  simp only [step, perform, jobAppend, jobGet_found found] at owned
  have twice := appendTo_relocates (s := { s with gActive := some j }) buffer issued moves
  have once := owned.once data
  rw [twice] at once
  omega

/-- The text filter releases the document, and the retirement after it does
too. -/
theorem render_releases_twice {id : Int} {j : Block} (out : Bytes)
    (found : s.lookup id = some j) (consumed : (s.job j).filter.consumes = true) :
    exists data, 2 ≤ (step s (.render id out)).docs.releases data := by
  rcases kept.table with ⟨q, consistent⟩
  have inTable := consistent.lookup_inTable found
  rcases kept.allocated j inTable with ⟨data, buffer⟩
  have frame := callFilter_frame { s with gActive := some j } j out
  have docs := (callFilter_docs { s with gActive := some j } j out).2
  have sameJob : (Store.job { s with gActive := some j } j) = s.job j := rfl
  rw [sameJob, if_pos consumed, buffer] at docs
  have touched := frame.toSameSkeleton.trans (.touchJob _ j)
  obtain ⟨index, _, result⟩ := ((consistent.activate inTable).skeleton touched).jobRetire_named
    ((touched.inTable_iff j).mpr inTable)
  have field : (((callFilter { s with gActive := some j } j out).1.touchJob j).job j).data =
      some data := by
    rw [Store.touchJob_job]
    exact (congrArg Job.data (s.touchJob_job j j)).trans buffer
  refine ⟨data, ?_⟩
  simp only [step, perform, jobRender, jobGet_found found, result]
  rw [retireHeld_docs, field]
  change 2 ≤ ((callFilter { s with gActive := some j } j out).1.docs.release data).releases data
  rw [Heap.release_releases_self, docs]
  change 2 ≤ (s.docs.release data).releases data + 1
  rw [Heap.release_releases_self]
  omega

theorem not_scratchOwned_of_render {id : Int} {j : Block} (out : Bytes)
    (found : s.lookup id = some j) (consumed : (s.job j).filter.consumes = true) :
    ¬ ScratchOwned (step s (.render id out)) := by
  rcases render_releases_twice kept out found consumed with ⟨data, twice⟩
  exact fun owned => absurd (Nat.le_trans twice (owned.once data)) (by decide)

end Breaking

/-! ## Exactly the runs with exclusive buffers -/

theorem recycling_guard :
    ExactGuard step Op.recycling DocumentsKept ScratchOwned KeepsOneOwner where
  safe := fun _ kept => kept.scratchOwned
  keeps := fun s op kept offered condition => by
    cases op with
    | submit fmt filter init grant => exact kept.jobSubmit fmt filter init grant
    | recycle id => exact kept.handled rfl offered condition
    | render id out => exact kept.handled rfl offered condition
    | append id arg outcome => exact kept.handled rfl offered condition
    | retire id => exact kept.jobRetire id
    | dup _ _ => exact offered.elim
    | cancel _ => exact offered.elim
    | status _ _ => exact offered.elim
    | flush => exact offered.elim
  breaks := fun s op kept offered missed => by
    cases op with
    | recycle id =>
        rcases Option.ne_none_iff_exists'.mp missed with ⟨j, found⟩
        exact not_scratchOwned_of_recycle kept found
    | append id arg outcome =>
        simp only [KeepsOneOwner, not_forall, not_not] at missed
        rcases missed with ⟨j, found, moves⟩
        exact not_scratchOwned_of_append kept found moves
    | render id out =>
        simp only [KeepsOneOwner, not_forall, Bool.not_eq_false] at missed
        rcases missed with ⟨j, found, consumed⟩
        exact not_scratchOwned_of_render kept out found consumed
    | submit _ _ _ _ => exact absurd trivial missed
    | retire _ => exact absurd trivial missed
    | dup _ _ => exact offered.elim
    | cancel _ => exact offered.elim
    | status _ _ => exact offered.elim
    | flush => exact offered.elim

/-- The recycled buffer has one owner and no buffer is released twice exactly
in the runs that avoid the three calls.  A recycle that finds no job does no
harm. -/
theorem scratchOwned_iff_keepsOneOwner (ops : List Op)
    (offered : forall op, op ∈ ops -> op.recycling) :
    Throughout step ScratchOwned spoolNew ops ↔ Guarded step KeepsOneOwner spoolNew ops :=
  recycling_guard.throughout_iff DocumentsKept.spoolNew offered

def recycleTwice : List Op :=
  [.submit 7 (some .raster) helloPage generous, .recycle 0, .recycle 0, .retire 0]

theorem recycleTwice_released_twice : (forall op, op ∈ recycleTwice -> op.recycling) ∧
    ¬ Throughout step ScratchOwned spoolNew recycleTwice := by
  constructor
  · simp [recycleTwice, Op.recycling]
  · intro every
    have once := (throughout_end every).once 0
    revert once
    decide +kernel

def appendInPlace : List Op :=
  [.submit 7 (some .raster) helloPage generous, .append 0 helloPage .fails, .recycle 1, .render 0 []]

theorem appendInPlace_scratchOwned : Throughout step ScratchOwned spoolNew appendInPlace := by
  refine (scratchOwned_iff_keepsOneOwner appendInPlace ?_).mpr ⟨trivial, ?_, rfl, ?_, trivial⟩
  · simp [appendInPlace, Op.recycling]
  · intro j found moves
    exact Bool.false_ne_true moves.2.2.2
  · intro j found
    cases found
    rfl

end Encore
end BugMuseum
