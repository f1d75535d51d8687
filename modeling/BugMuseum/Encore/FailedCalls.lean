import BugMuseum.Encore.ActiveJob

namespace BugMuseum
namespace Encore

open Foundation

/-!
# A failed call leaves the store as it was

`SPOOL_ERR` has many sources: an id that names nothing, a full table, a missing
filter, a refused allocation, a document past the limit and a failed
reallocation.  Whatever the source, the call has either done nothing or undone
what it did.  The one trace it may leave is the most-recent cache, because the
lookup comes before the other checks.
-/

/-- The call left the slots, the queue, every job and every older block alone,
and returned each block that it had allocated.  The most-recent cache may name
another job of the table. -/
structure Intact (s s' : Store) : Prop where
  slots : s'.slots = s.slots
  count : s'.count = s.count
  qhead : s'.qhead = s.qhead
  qtail : s'.qtail = s.qtail
  gScratch : s'.gScratch = s.gScratch
  renders : s'.renders = s.renders
  job : forall j, j < s.jobs.next -> s'.job j = s.job j
  active : s'.gActive = s.gActive ∨ exists j, s'.gActive = some j ∧ s.InTable j
  jobs : s.jobs.RolledBack s'.jobs
  docs : s.docs.RolledBack s'.docs
  metas : s.metas.RolledBack s'.metas

/-- Whatever call comes next, if it fails then the store is intact.  The state
is arbitrary among those that the calls can reach. -/
def FailsIntact (s : Store) : Prop :=
  forall op, (perform s op).2 = spoolErr -> Intact s (step s op)

namespace Intact

theorem refl (s : Store) : Intact s s :=
  ⟨rfl, rfl, rfl, rfl, rfl, rfl, fun _ _ => rfl, Or.inl rfl, .refl _, .refl _, .refl _⟩

/-- The lookup has made a job of the table the active one, before the call
failed for another reason. -/
theorem activated {s s' : Store} {j : Block} (inTable : s.InTable j)
    (intact : Intact { s with gActive := some j } s') : Intact s s' where
  slots := intact.slots
  count := intact.count
  qhead := intact.qhead
  qtail := intact.qtail
  gScratch := intact.gScratch
  renders := intact.renders
  job := intact.job
  active := by
    rcases intact.active with same | other
    · exact Or.inr ⟨j, same, inTable⟩
    · exact Or.inr other
  jobs := intact.jobs
  docs := intact.docs
  metas := intact.metas

theorem touchJob (s : Store) (j : Block) : Intact s (s.touchJob j) where
  slots := rfl
  count := rfl
  qhead := rfl
  qtail := rfl
  gScratch := rfl
  renders := rfl
  job := fun k _ => s.touchJob_job j k
  active := Or.inl rfl
  jobs := .of_same (Heap.touch_next ..) (Heap.touch_releases ..) (Heap.touch_cell ..)
  docs := .refl _
  metas := .refl _

/-- A `Job` block that was released again before the call failed leaves an
identity used up and nothing else. -/
theorem withdrawn (s : Store) (value : Job) : Intact s (withdrawn s value) where
  slots := rfl
  count := rfl
  qhead := rfl
  qtail := rfl
  gScratch := rfl
  renders := rfl
  job := fun _ issued => s.jobs.alloc_cell_of_ne value (Nat.ne_of_lt issued)
  active := Or.inl rfl
  jobs := .alloc_release s.jobs value
  docs := .refl _
  metas := .refl _

theorem trans {first second third : Store} (left : Intact first second)
    (right : Intact second third) : Intact first third where
  slots := right.slots.trans left.slots
  count := right.count.trans left.count
  qhead := right.qhead.trans left.qhead
  qtail := right.qtail.trans left.qtail
  gScratch := right.gScratch.trans left.gScratch
  renders := right.renders.trans left.renders
  job := fun j issued =>
    (right.job j (Nat.lt_of_lt_of_le issued left.jobs.next)).trans (left.job j issued)
  active := by
    rcases right.active with same | ⟨j, named, inTable⟩
    · rw [same]
      exact left.active
    · rw [Store.InTable, left.slots] at inTable
      exact Or.inr ⟨j, named, inTable⟩
  jobs := left.jobs.trans right.jobs
  docs := left.docs.trans right.docs
  metas := left.metas.trans right.metas

end Intact

/-! ## Each operation -/

theorem spoolOk_ne_spoolErr : spoolOk ≠ spoolErr := by
  decide

/-- The ids that a call returns are no error code, so a result tells a failure
from a success. -/
theorem natCast_ne_spoolErr (id : Nat) : (id : Int) ≠ spoolErr := by
  rw [spoolErr]
  omega

theorem preview_ne_spoolErr (filter : Filter) (document out : Bytes) :
    (filter.preview document out).2 ≠ spoolErr := by
  have printed : forall count : Int, max count 0 ≠ spoolErr := by
    intro count
    rw [spoolErr]
    omega
  cases filter with
  | raster => exact printed _
  | pdfish => exact printed _
  | text =>
      unfold Filter.preview
      dsimp only
      split
      · exact natCast_ne_spoolErr 0
      · exact natCast_ne_spoolErr _

theorem jobSubmit_intact {s : Store} {fmt : Int} {filter : Option Filter} {init : Payload}
    {grant : Nat -> Grant} (failed : (jobSubmit s fmt filter init grant).2 = spoolErr) :
    Intact s (jobSubmit s fmt filter init grant).1 := by
  rcases jobSubmit_cases s fmt filter init grant with same | ⟨value, same⟩ |
    ⟨id, jobs, docs, metas, job, document, slot, admission, _, _, _, same⟩
  · rw [same]
    exact .refl s
  · rw [same]
    exact .withdrawn s value
  · rw [same] at failed
    exact absurd failed (natCast_ne_spoolErr id)

theorem dupOf_intact {s : Store} {j : Block} (issued : j < s.jobs.next) {grant : Nat -> Grant}
    (failed : (dupOf s j grant).2 = spoolErr) : Intact s (dupOf s j grant).1 := by
  rcases dupOf_cases issued grant with same | ⟨value, same⟩ |
    ⟨id, jobs, docs, job, document, slot, admission, _, _, _, same⟩
  · rw [same]
    exact .refl s
  · rw [same]
    exact (Intact.touchJob s j).trans (.withdrawn _ value)
  · rw [same] at failed
    exact absurd failed (natCast_ne_spoolErr id)

/-- An append that fails has only read the job.  The reallocation comes first
of all changes, and it changes nothing when it fails. -/
theorem appendTo_failure {s : Store} {j : Block} {arg : Payload} {outcome : Realloc}
    (failed : (appendTo s j arg outcome).2 = spoolErr) :
    (appendTo s j arg outcome).1 = s.touchJob j := by
  have appended := appendTo_appended s j arg outcome
  generalize appendTo s j arg outcome = after at appended failed ⊢
  cases appended with
  | refused _ => rfl
  | exhausted _ _ _ => rfl
  | written _ _ => exact absurd failed spoolOk_ne_spoolErr
  | grown _ _ _ => exact absurd failed spoolOk_ne_spoolErr

theorem jobRetire_intact {s : Store} {id : Int} (failed : (jobRetire s id).2 = spoolErr) :
    Intact s (jobRetire s id).1 := by
  unfold jobRetire at failed ⊢
  cases found : s.slotAt id with
  | none => exact .refl s
  | some j =>
      rw [found] at failed
      cases failed

/-- A call that has found its job, and fails behind the lookup for one of its
own reasons. -/
theorem found_intact {s : Store} {recent : Option Block} (exact : Exact s recent) {op : Op}
    {id : Int} {j : Block} (handled : op.jobId = some id) (found : s.lookup id = some j)
    (failed : (perform s op).2 = spoolErr) : Intact s (step s op) := by
  have inTable := exact.lookup_inTable found
  rw [step_found handled found]
  apply Intact.activated inTable
  cases op with
  | render id out =>
      cases handled
      simp only [perform, jobRender, jobGet_found found] at failed
      exact absurd failed (preview_ne_spoolErr _ _ _)
  | append id arg outcome =>
      cases handled
      simp only [perform, jobAppend, jobGet_found found] at failed
      rw [Op.act, appendTo_failure failed]
      exact .touchJob _ j
  | cancel id =>
      cases handled
      simp only [perform, jobCancel, jobGet_found found] at failed
      exact absurd failed spoolOk_ne_spoolErr
  | recycle id =>
      cases handled
      simp only [perform, jobRecycle, jobGet_found found] at failed
      exact absurd failed spoolOk_ne_spoolErr
  | dup id grant =>
      cases handled
      simp only [perform, jobDup, jobGet_found found] at failed
      exact dupOf_intact (s := { s with gActive := some j }) (exact.issued j inTable) failed
  | submit => cases handled
  | status => cases handled
  | flush => cases handled
  | retire => cases handled

theorem handled_intact {s : Store} {recent : Option Block} (exact : Exact s recent) {op : Op} {id : Int}
    (handled : op.jobId = some id) (failed : (perform s op).2 = spoolErr) :
    Intact s (step s op) := by
  cases found : s.lookup id with
  | none =>
      rw [step_absent handled found]
      exact .refl s
  | some j => exact found_intact exact handled found failed

/-- One call, whatever it is: if it fails, the store is intact. -/
theorem Exact.failsIntact {s : Store} {recent : Option Block} (exact : Exact s recent) :
    FailsIntact s := by
  intro op failed
  cases op with
  | submit fmt filter init grant => exact jobSubmit_intact failed
  | retire id => exact jobRetire_intact failed
  | render id out => exact handled_intact exact rfl failed
  | append id arg outcome => exact handled_intact exact rfl failed
  | cancel id => exact handled_intact exact rfl failed
  | recycle id => exact handled_intact exact rfl failed
  | dup id grant => exact handled_intact exact rfl failed
  | status verbose out =>
      have answered : (Encore.jobStatus s verbose out).2.2 = spoolOk := by
        unfold Encore.jobStatus
        dsimp only
        split
        · rfl
        · split <;> rfl
      exact absurd (answered.symm.trans failed) spoolOk_ne_spoolErr
  | flush => exact absurd failed spoolOk_ne_spoolErr

/-- In every state that the calls can reach, whichever operation fails next
and for whatever reason, the store stays intact, and the blocks that the
failed call had allocated are given back. -/
theorem failsIntact_throughout (calls : List Call) :
    Throughout Call.next FailsIntact spoolNew calls := by
  have keeps : forall s call, (exists recent, Exact s recent) -> True ->
      exists recent, Exact (Call.next s call) recent :=
    fun _ call ⟨_, exact⟩ _ => ⟨_, exact.next call⟩
  have every := throughout_of_invariant (fun _ => True) keeps ⟨none, exact_spoolNew⟩
    fun (call : Call) (_ : call ∈ calls) => trivial
  exact every.mono fun s ⟨_, exact⟩ => exact.failsIntact

end Encore
end BugMuseum
