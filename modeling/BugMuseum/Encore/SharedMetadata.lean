import BugMuseum.Encore.Holdings

namespace BugMuseum
namespace Encore

open Foundation

/-!
# Duplicates and their metadata block

`JobDup` copies the document but hands the duplicate the metadata block of the
original, and `free_job` releases that block for each of them.  Ownership of
metadata blocks is therefore exclusive exactly as long as no duplicate is made
of a job that has one.
-/

/-- Every metadata block handed out either has one owner in the table and was
not released, or has no owner and was released exactly once. -/
structure MetadataOwned (s : Store) : Prop where
  sole : forall left right header, s.InTable left -> s.InTable right ->
    (s.job left).metaBuf = some header -> (s.job right).metaBuf = some header -> left = right
  live : forall j header, s.InTable j -> (s.job j).metaBuf = some header -> s.metas.Live header
  released : forall header, header < s.metas.next ->
    s.metas.releases header = 1 ∨
      s.metas.releases header = 0 ∧ exists j, s.InTable j ∧ (s.job j).metaBuf = some header

/-- The calls in question.  Recycling, cancelling and the pump do not make
duplicates, and the status only reads. -/
def Op.duplicating : Op -> Prop
  | .submit _ _ _ _ => True
  | .dup _ _ => True
  | .render _ _ => True
  | .append _ _ _ => True
  | .retire _ => True
  | .cancel _ => False
  | .recycle _ => False
  | .status _ _ => False
  | .flush => False

/-- A duplicate of a job with metadata fails: the table is full, or the
allocator refuses the new job or its buffer. -/
def DuplicatesNoMetadata (s : Store) : Op -> Prop
  | .dup id grant => forall j, s.lookup id = some j -> (s.job j).metaBuf ≠ none ->
      firstFree spoolMax s.slots = none ∨ grant 0 = none ∨ grant 1 = none
  | _ => True

/-- The discipline of the metadata heap: each block has one owner in the
table, and none is lost. -/
structure MetadataKept (s : Store) : Prop where
  table : exists q, Consistent s none q
  holds : Holds s s.metas Job.metaBuf
  accounted : Accounted s.metas s.InTable fun j => (s.job j).metaBuf

namespace MetadataKept

variable {s s' : Store} {q : List Block}

theorem metadataOwned (kept : MetadataKept s) : MetadataOwned s where
  sole := kept.holds.sole
  live := kept.holds.live
  released := fun header issued => by
    have once := kept.holds.once header
    rcases Nat.le_one_iff_eq_zero_or_eq_one.mp once with unreleased | released
    · exact Or.inr ⟨unreleased, kept.accounted header issued unreleased⟩
    · exact Or.inl released

theorem spoolNew : MetadataKept spoolNew where
  table := ⟨[], consistent_spoolNew⟩
  holds := exclusive_empty _ not_inTable_spoolNew
  accounted := accounted_empty _ _

/-- A change that keeps the table, its metadata fields and the metadata heap
keeps the discipline. -/
theorem transfer (kept : MetadataKept s) (table : exists q, Consistent s' none q)
    (inTable : forall j, s'.InTable j ↔ s.InTable j) (metas : s'.metas = s.metas)
    (fields : forall j, s.InTable j -> (s'.job j).metaBuf = (s.job j).metaBuf) :
    MetadataKept s' where
  table := table
  holds := by
    rw [metas]
    exact kept.holds.transfer rfl rfl (fun j => (inTable j).mp)
      fun j held => fields j ((inTable j).mp held)
  accounted := by
    rw [metas]
    exact kept.accounted.transfer rfl rfl (fun j => (inTable j).mpr) fields

theorem frame (kept : MetadataKept s) (frame : BufferFrame s s') : MetadataKept s' := by
  rcases kept.table with ⟨q, consistent⟩
  exact kept.transfer ⟨q, consistent.skeleton frame.toSameSkeleton⟩ frame.inTable_iff frame.metas
    fun j _ => frame.metaBufs j

theorem activate (kept : MetadataKept s) {j : Block} (inTable : s.InTable j) :
    MetadataKept { s with gActive := some j } := by
  rcases kept.table with ⟨q, consistent⟩
  exact kept.transfer ⟨q, consistent.activate inTable⟩ (fun _ => Iff.rfl) rfl fun _ _ => rfl

theorem withdrawn (kept : MetadataKept s) (value : Job) : MetadataKept (withdrawn s value) := by
  rcases kept.table with ⟨q, consistent⟩
  refine kept.transfer ⟨q, consistent.withdrawn value⟩ (fun _ => Iff.rfl) rfl fun j inTable => ?_
  exact congrArg Job.metaBuf (Heap.alloc_cell_of_ne _ _ (Nat.ne_of_lt (consistent.issued j inTable)))

/-- A new job comes with a metadata block of its own, or with none. -/
theorem enter (kept : MetadataKept s) {jobs : Heap Job} {docs metas : Heap Bytes} {id : Nat}
    {job : Job} {document : Bytes} (admission : Admission s jobs docs id job document)
    (slot : firstFree spoolMax s.slots = some id)
    (header : (metas = s.metas ∧ job.metaBuf = none) ∨
      (exists value, s.metas.Extends metas value) ∧ job.metaBuf = some s.metas.next) :
    MetadataKept (admitted s jobs docs metas id) := by
  rcases kept.table with ⟨q, consistent⟩
  have sameMetas := (admitted_frame s jobs docs metas id).2.2.2.1
  have member := admitted_inTable jobs docs metas slot
  have older := fun j (old : s.InTable j) =>
    congrArg Job.metaBuf (admitted_old consistent admission metas old)
  refine ⟨⟨_, consistent.enter admission slot metas⟩, ?_, ?_⟩ <;> rw [sameMetas] <;>
    rcases header with ⟨rfl, nothing⟩ | ⟨⟨value, extended⟩, owner⟩
  · exact kept.holds.enter_none unlinked_metaBuf consistent admission slot nothing
  · exact kept.holds.enter unlinked_metaBuf consistent admission slot extended owner
  · exact kept.accounted.transfer rfl rfl (fun j old => (member j).mpr (Or.inl old)) older
  · have fresh := congrArg Job.metaBuf (admitted_new admission metas)
    exact kept.accounted.extend extended (fresh.trans owner) ((member _).mpr (Or.inr rfl))
      (fun j old => (member j).mpr (Or.inl old)) older

theorem retireHeld (kept : MetadataKept s) {index : Nat} {j : Block}
    (slot : s.slots index = some j) : MetadataKept (retireHeld s index j) := by
  rcases kept.table with ⟨q, consistent⟩
  have member := consistent.retireHeld_inTable slot
  refine ⟨⟨_, consistent.retireHeld slot alone_of_none⟩, ?_, ?_⟩ <;> rw [retireHeld_metas]
  · exact kept.holds.retire unlinked_metaBuf consistent slot
  · have released := kept.accounted.releaseAt
      fun k held different => (member k).mpr ⟨held, different⟩
    exact released.transfer rfl rfl (fun _ held => held) fun k _ =>
      unlinked_metaBuf.congr (retireHeld_fields s index j k)

theorem retireNamed (kept : MetadataKept s) {j : Block} (inTable : s.InTable j) :
    MetadataKept (jobRetire s (s.job j).id).1 := by
  rcases kept.table with ⟨q, consistent⟩
  rcases consistent.jobRetire_named inTable with ⟨index, slot, result⟩
  rw [result]
  exact kept.retireHeld slot

theorem jobSubmit (kept : MetadataKept s) (fmt : Int) (filter : Option Filter) (init : Payload)
    (grant : Nat -> Grant) : MetadataKept (jobSubmit s fmt filter init grant).1 := by
  rcases jobSubmit_cases s fmt filter init grant with same | ⟨value, same⟩ |
    ⟨id, jobs, docs, metas, job, document, slot, admission, _, _, header, same⟩ <;> rw [same]
  · exact kept
  · exact kept.withdrawn value
  · exact kept.enter admission slot header

theorem jobRetire (kept : MetadataKept s) (id : Int) : MetadataKept (jobRetire s id).1 := by
  exact jobRetire_keeps (P := MetadataKept) id kept fun j slot => kept.retireHeld slot

theorem dupOf (kept : MetadataKept s) {j : Block} (inTable : s.InTable j) (grant : Nat -> Grant)
    (condition : (s.job j).metaBuf ≠ none ->
      firstFree spoolMax s.slots = none ∨ grant 0 = none ∨ grant 1 = none) :
    MetadataKept (dupOf s j grant).1 := by
  rcases kept.table with ⟨q, consistent⟩
  have touched := kept.frame (.touchJob s j)
  by_cases nothing : (s.job j).metaBuf = none
  · rcases dupOf_cases (consistent.issued j inTable) grant with same | ⟨value, same⟩ |
      ⟨nid, jobs, docs, job, document, slot, admission, _, _, sameMeta, same⟩ <;> rw [same]
    · exact kept
    · exact touched.withdrawn value
    · exact touched.enter admission slot (Or.inl ⟨rfl, sameMeta.trans nothing⟩)
  · rcases (dupOf_failure (s := s) (j := j) (condition nothing)).2 with same | ⟨value, same⟩ <;> rw [same]
    · exact kept
    · exact touched.withdrawn value

theorem handled (kept : MetadataKept s) {op : Op} {id : Int} (handled : op.jobId = some id)
    (offered : op.duplicating) (condition : DuplicatesNoMetadata s op) : MetadataKept (step s op) := by
  rcases kept.table with ⟨q, consistent⟩
  cases found : s.lookup id with
  | none => rwa [step_absent handled found]
  | some j =>
      have inTable := consistent.lookup_inTable found
      have active := kept.activate inTable
      rw [step_found handled found]
      cases op with
      | render id out =>
          have frame := callFilter_frame { s with gActive := some j } j out
          have touched := (active.frame frame).frame (.touchJob _ j)
          exact touched.retireNamed ((frame.inTable_iff j).mpr inTable)
      | append id arg outcome => exact active.frame (appendTo_frame _ j arg outcome)
      | dup id grant =>
          cases handled
          exact active.dupOf inTable grant (condition j found)
      | cancel id => exact offered.elim
      | recycle id => exact offered.elim
      | _ => cases handled

end MetadataKept

/-- A duplicate of a job with metadata names the same block as the original,
so the block has two owners. -/
theorem not_metadataOwned_of_dup {s : Store} {q : List Block} (consistent : Consistent s none q)
    {op : Op} (shared : ¬ DuplicatesNoMetadata s op) : ¬ MetadataOwned (step s op) := by
  cases op with
  | dup id grant =>
      simp only [DuplicatesNoMetadata, not_forall, not_or, ← ne_eq,
        Option.ne_none_iff_exists'] at shared
      rcases shared with
          ⟨j, found, ⟨header, named⟩, ⟨nid, slot⟩, ⟨first, granted⟩, second, grantedData⟩
      have inTable := consistent.lookup_inTable found
      have issued := consistent.issued j inTable
      have active := consistent.activate inTable
      rcases dupOf_success (s := { s with gActive := some j }) issued slot granted grantedData with
          ⟨jobs, docs, job, document, admission, _, _, sameMeta, result⟩
      have after : step s (.dup id grant) =
          admitted (Store.touchJob { s with gActive := some j } j) jobs docs s.metas nid := by
        simp only [step, perform, jobDup, jobGet_found found, result]
        rfl
      have touched := active.skeleton (.touchJob _ j)
      have member := admitted_inTable (s := Store.touchJob { s with gActive := some j } j)
        jobs docs s.metas slot
      have original := congrArg Job.metaBuf (admitted_old touched admission s.metas inTable)
      have copy := congrArg Job.metaBuf (admitted_new admission s.metas)
      intro owned
      rw [after] at owned
      have same := owned.sole _ _ header ((member j).mpr (Or.inl inTable))
        ((member _).mpr (Or.inr rfl))
        (original.trans ((congrArg Job.metaBuf (Store.touchJob_job _ j j)).trans named))
        (copy.trans (sameMeta.trans named))
      exact touched.not_inTable_next (same ▸ inTable)
  | submit _ _ _ _ => exact absurd trivial shared
  | render _ _ => exact absurd trivial shared
  | append _ _ _ => exact absurd trivial shared
  | cancel _ => exact absurd trivial shared
  | recycle _ => exact absurd trivial shared
  | status _ _ => exact absurd trivial shared
  | flush => exact absurd trivial shared
  | retire _ => exact absurd trivial shared

/-! ## Exactly the runs with exclusive metadata -/

theorem duplication_guard :
    ExactGuard step Op.duplicating MetadataKept MetadataOwned DuplicatesNoMetadata where
  safe := fun _ kept => kept.metadataOwned
  keeps := fun s op kept offered condition => by
    cases op with
    | submit fmt filter init grant => exact kept.jobSubmit fmt filter init grant
    | dup id grant => exact kept.handled rfl offered condition
    | render id out => exact kept.handled rfl offered condition
    | append id arg outcome => exact kept.handled rfl offered condition
    | retire id => exact kept.jobRetire id
    | cancel _ => exact offered.elim
    | recycle _ => exact offered.elim
    | status _ _ => exact offered.elim
    | flush => exact offered.elim
  breaks := fun _ _ ⟨⟨_, consistent⟩, _, _⟩ _ => not_metadataOwned_of_dup consistent

/-- Metadata blocks have one owner and are released once exactly in the runs
that make no duplicate of a job with metadata.  The duplicate gets a copy of
the buffer, but the same pointer to the metadata. -/
theorem metadataOwned_iff_duplicatesNoMetadata (ops : List Op)
    (offered : forall op, op ∈ ops -> op.duplicating) :
    Throughout step MetadataOwned spoolNew ops ↔ Guarded step DuplicatesNoMetadata spoolNew ops :=
  duplication_guard.throughout_iff MetadataKept.spoolNew offered

def retireFamily : List Op :=
  [.submit 7 (some .raster) helloPage generous, .dup 0 generous, .retire 0, .retire 1]

theorem retireFamily_shares_metadata : (forall op, op ∈ retireFamily -> op.duplicating) ∧
    ¬ Throughout step MetadataOwned spoolNew retireFamily := by
  constructor
  · simp [retireFamily, Op.duplicating]
  · intro every
    have once := (throughout_end every).released 0
    have twice : (run step spoolNew retireFamily).metas.releases 0 = 2 := by decide +kernel
    rw [twice] at once
    simpa using once (by decide +kernel)

/-- The allocator refuses the metadata block of the original, so there is
nothing to share. -/
def withoutMetadata : List Op :=
  [.submit 7 (some .raster) helloPage fun request => if request = 2 then none else generous request,
    .dup 0 generous, .retire 0, .retire 1]

theorem withoutMetadata_metadataOwned : Throughout step MetadataOwned spoolNew withoutMetadata := by
  refine (metadataOwned_iff_duplicatesNoMetadata withoutMetadata ?_).mpr
    ⟨trivial, ?_, trivial, trivial, trivial⟩
  · simp [withoutMetadata, Op.duplicating]
  · intro j found named
    cases found
    exact absurd rfl named

end Encore
end BugMuseum
