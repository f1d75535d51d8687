import BugMuseum.Encore.Holdings

namespace BugMuseum
namespace Encore

open Foundation

/-!
# Cancelled jobs and the render pump

`JobWork` releases a cancelled job and then falls through to `JobRetire`,
which finds the job still in its slot and releases it again.  Every other way
out of the table releases a job once.  So a run keeps the discipline exactly
when no flush meets a cancelled job.
-/

/-- Every block of a job is released at most once, and no `Job` is accessed
after its release.  It speaks of the job structures, the documents and the
metadata. -/
structure ReleasedOnce (s : Store) : Prop where
  jobs : forall j, s.jobs.releases j ≤ 1
  docs : forall data, s.docs.releases data ≤ 1
  metas : forall header, s.metas.releases header ≤ 1
  accesses : s.jobs.faults = []

/-- The calls in question, with the filters that borrow the document.
Appends, recycling and duplication have defects of their own and are left
out. -/
def Op.cancelling : Op -> Prop
  | .submit _ filter _ _ => forall chosen, filter = some chosen -> chosen.consumes = false
  | .cancel _ => True
  | .render _ _ => True
  | .retire _ => True
  | .status _ _ => True
  | .flush => True
  | .append _ _ _ => False
  | .recycle _ => False
  | .dup _ _ => False

/-- No flush meets a cancelled job: when the pump runs, no job of the table is
marked. -/
def FlushesNoCancelled (s : Store) : Op -> Prop
  | .flush => forall j, s.InTable j -> (s.job j).state ≠ .cancelled
  | _ => True

/-- The discipline: a table job owns its block and its buffers, and only live
jobs were ever accessed. -/
structure Owned (s : Store) : Prop where
  jobs : Exclusive s.jobs s.InTable some
  docs : Holds s s.docs Job.data
  metas : Holds s s.metas Job.metaBuf
  accesses : s.jobs.faults = []
  borrowing : forall j, s.InTable j -> (s.job j).filter.consumes = false

theorem owned_spoolNew : Owned spoolNew where
  jobs := exclusive_empty some not_inTable_spoolNew
  docs := exclusive_empty _ not_inTable_spoolNew
  metas := exclusive_empty _ not_inTable_spoolNew
  accesses := rfl
  borrowing := fun j held => absurd held (not_inTable_spoolNew j)

/-- Two stores whose jobs hold the same blocks of heaps with the same
counters.  What the blocks contain does not matter. -/
structure SameHoldings (s s' : Store) : Prop where
  inTable : forall j, s'.InTable j ↔ s.InTable j
  jobs : s'.jobs.next = s.jobs.next ∧ s'.jobs.releases = s.jobs.releases
  docs : s'.docs.next = s.docs.next ∧ s'.docs.releases = s.docs.releases
  metas : s'.metas.next = s.metas.next ∧ s'.metas.releases = s.metas.releases
  accesses : s'.jobs.faults = s.jobs.faults
  fields : forall j, (s'.job j).data = (s.job j).data ∧ (s'.job j).metaBuf = (s.job j).metaBuf ∧
    (s'.job j).filter = (s.job j).filter

namespace SameHoldings

theorem modifyJob {s : Store} {j : Block} (live : s.jobs.Live j) (state : JobState) :
    SameHoldings s (s.modifyJob j fun job => { job with state }) where
  inTable := fun _ => Iff.rfl
  jobs := ⟨Heap.modify_next .., Heap.modify_releases ..⟩
  docs := ⟨rfl, rfl⟩
  metas := ⟨rfl, rfl⟩
  accesses := Store.modifyJob_faults live _
  fields := fun k => ⟨Store.modifyJob_field Job.data rfl k,
    Store.modifyJob_field Job.metaBuf rfl k, Store.modifyJob_field Job.filter rfl k⟩

theorem callFilter {s : Store} {j : Block} (live : s.jobs.Live j)
    (borrowing : (s.job j).filter.consumes = false) (out : Bytes) :
    SameHoldings s (callFilter s j out).1 where
  inTable := fun k => (callFilter_frame s j out).inTable_iff k
  jobs := ⟨Heap.touch_next .., Heap.touch_releases ..⟩
  docs := by
    have docs := callFilter_docs s j out
    rw [borrowing] at docs
    exact docs
  metas := ⟨rfl, rfl⟩
  accesses := congrArg Heap.faults (Heap.touch_of_live live)
  fields := fun k => by
    have same : (Encore.callFilter s j out).1.job k = s.job k := s.touchJob_job j k
    rw [same]
    exact ⟨rfl, rfl, rfl⟩

theorem dequeue {s : Store} (liveHead : forall head, s.qhead = some head -> s.jobs.Live head) :
    SameHoldings s (jobDequeue s).1 where
  inTable := fun k => by simp only [Store.InTable, (jobDequeue_frame s).slots]
  jobs := ⟨(jobDequeue_frame s).next, (jobDequeue_frame s).releases⟩
  docs := by rw [(jobDequeue_frame s).docs]; exact ⟨rfl, rfl⟩
  metas := by rw [(jobDequeue_frame s).metas]; exact ⟨rfl, rfl⟩
  accesses := jobDequeue_faults liveHead
  fields := fun k => ⟨(jobDequeue_frame s).data k, (jobDequeue_frame s).metaBuf k,
    (jobDequeue_frame s).filter k⟩

end SameHoldings

namespace Owned

variable {s s' : Store} {pumped : Option Block} {q : List Block}

theorem jobsHeld (owned : Owned s) : JobsHeld s :=
  owned.jobs

theorem live (owned : Owned s) {j : Block} (inTable : s.InTable j) : s.jobs.Live j :=
  owned.jobsHeld.live inTable

theorem transfer (owned : Owned s) (same : SameHoldings s s') : Owned s' where
  jobs := owned.jobs.transfer same.jobs.1 same.jobs.2 (fun j => (same.inTable j).mp) fun _ _ => rfl
  docs := owned.docs.transfer same.docs.1 same.docs.2 (fun j => (same.inTable j).mp)
    fun j _ => (same.fields j).1
  metas := owned.metas.transfer same.metas.1 same.metas.2 (fun j => (same.inTable j).mp)
    fun j _ => (same.fields j).2.1
  accesses := same.accesses.trans owned.accesses
  borrowing := fun j inTable =>
    (congrArg Filter.consumes (same.fields j).2.2).trans (owned.borrowing j ((same.inTable j).mp inTable))

theorem setActive (owned : Owned s) (active : Option Block) :
    Owned { s with gActive := active } :=
  owned.transfer ⟨fun _ => Iff.rfl, ⟨rfl, rfl⟩, ⟨rfl, rfl⟩, ⟨rfl, rfl⟩, rfl, fun _ => ⟨rfl, rfl, rfl⟩⟩

theorem withdrawn (owned : Owned s) (consistent : Consistent s pumped q) (value : Job) :
    Owned (withdrawn s value) := by
  have older : forall j, s.InTable j -> (Encore.withdrawn s value).job j = s.job j :=
    fun j inTable => Heap.alloc_cell_of_ne _ _ (Nat.ne_of_lt (consistent.issued j inTable))
  constructor
  · exact owned.jobsHeld.withdrawn value
  · exact owned.docs.transfer rfl rfl (fun _ held => held)
      fun j inTable => congrArg Job.data (older j inTable)
  · exact owned.metas.transfer rfl rfl (fun _ held => held)
      fun j inTable => congrArg Job.metaBuf (older j inTable)
  · exact owned.accesses
  · intro j inTable
    rw [older j inTable]
    exact owned.borrowing j inTable

theorem enter (owned : Owned s) (consistent : Consistent s none q) {jobs : Heap Job}
    {docs metas : Heap Bytes} {id : Nat} {job : Job} {document : Bytes}
    (admission : Admission s jobs docs id job document)
    (slot : firstFree spoolMax s.slots = some id)
    (header : (metas = s.metas ∧ job.metaBuf = none) ∨
      (exists value, s.metas.Extends metas value) ∧ job.metaBuf = some s.metas.next)
    (borrowing : job.filter.consumes = false) : Owned (admitted s jobs docs metas id) := by
  rcases admitted_frame s jobs docs metas id with ⟨_, _, sameDocs, sameMetas, _, _⟩
  have member := admitted_inTable jobs docs metas slot
  have unused := owned.jobs.unused s.jobs.next (Nat.le_refl _)
  constructor
  · exact owned.jobsHeld.enter metas admission slot
  · rcases admission.docs with ⟨source, next, releases, _, extended⟩
    rw [sameDocs]
    have before := owned.docs.transfer next releases (fun _ held => held) fun _ _ => rfl
    exact before.enter unlinked_data consistent admission slot extended
      (admission.data.trans (congrArg some next.symm))
  · rw [sameMetas]
    rcases header with ⟨same, nothing⟩ | ⟨⟨value, extended⟩, owner⟩
    · rw [same]
      exact owned.metas.enter_none unlinked_metaBuf consistent admission slot nothing
    · exact owned.metas.enter unlinked_metaBuf consistent admission slot extended owner
  · have liveTail : forall tail, s.qtail = some tail -> jobs.Live tail := by
      intro tail last
      have queued : tail ∈ q := List.mem_of_getLast? (consistent.queue.tail.symm.trans last)
      exact admission.jobs.keeps (owned.live ((consistent.held tail).mpr (Or.inr queued)))
    have entered := enqueue_faults
      (s := { s with
        jobs := jobs, docs := docs, metas := metas, count := s.count + 1
        slots := Function.update s.slots id (some s.jobs.next) })
      (admission.jobs.live unused) liveTail
    exact entered.trans ((admission.jobs.faults unused).trans owned.accesses)
  · intro k inTable
    rcases (member k).mp inTable with old | new
    · have same := congrArg Job.filter (admitted_old consistent admission metas old)
      exact (congrArg Filter.consumes same).trans (owned.borrowing k old)
    · subst new
      have same := congrArg Job.filter (admitted_new admission metas)
      exact (congrArg Filter.consumes same).trans borrowing

theorem retireHeld (owned : Owned s) (consistent : Consistent s pumped q) {index : Nat} {j : Block}
    (slot : s.slots index = some j) : Owned (retireHeld s index j) := by
  have member := consistent.retireHeld_inTable slot
  have inTable : s.InTable j := ⟨index, (consistent.ids index j slot).1, slot⟩
  have frame := unlinkQueue_frame s j
  constructor
  · exact owned.jobsHeld.retireHeld consistent slot
  · rw [retireHeld_docs]
    exact owned.docs.retire unlinked_data consistent slot
  · rw [retireHeld_metas]
    exact owned.metas.retire unlinked_metaBuf consistent slot
  · have queued : forall k, k ∈ q -> s.jobs.Live k :=
      fun k queued => owned.live ((consistent.held k).mpr (Or.inr queued))
    have unlinked := unlinkQueue_faults consistent.queue queued j
    have freed := freeJob_faults ((frame.live_iff j).mpr (owned.live inTable))
    exact freed.trans (unlinked.trans owned.accesses)
  · intro k stays
    have same := congrArg Job.filter (retireHeld_fields s index j k)
    exact (congrArg Filter.consumes same).trans (owned.borrowing k ((member k).mp stays).1)

theorem retireNamed (owned : Owned s) (consistent : Consistent s pumped q) {j : Block}
    (inTable : s.InTable j) : Owned (jobRetire s (s.job j).id).1 := by
  rcases consistent.jobRetire_named inTable with ⟨index, slot, result⟩
  rw [result]
  exact owned.retireHeld consistent slot

theorem jobRetire (owned : Owned s) (consistent : Consistent s pumped q) (id : Int) :
    Owned (jobRetire s id).1 := by
  exact jobRetire_keeps (P := Owned) id owned fun j slot => owned.retireHeld consistent slot

theorem jobSubmit (owned : Owned s) (consistent : Consistent s none q) (fmt : Int)
    {filter : Option Filter} (init : Payload) (grant : Nat -> Grant)
    (borrowing : forall chosen, filter = some chosen -> chosen.consumes = false) :
    Owned (jobSubmit s fmt filter init grant).1 := by
  rcases jobSubmit_cases s fmt filter init grant with same | ⟨value, same⟩ |
    ⟨id, jobs, docs, metas, job, document, slot, admission, _, chosen, header, same⟩ <;> rw [same]
  · exact owned
  · exact owned.withdrawn consistent value
  · exact owned.enter consistent admission slot header (borrowing _ chosen)

theorem handled (owned : Owned s) (consistent : Consistent s none q) {op : Op} {id : Int}
    (handled : op.jobId = some id) (offered : op.cancelling) : Owned (step s op) := by
  cases found : s.lookup id with
  | none => rwa [step_absent handled found]
  | some j =>
      have inTable := consistent.lookup_inTable found
      have active := owned.setActive (some j)
      rw [step_found handled found]
      cases op with
      | cancel id => exact active.transfer (.modifyJob (active.live inTable) .cancelled)
      | render id out =>
          have frame := callFilter_frame { s with gActive := some j } j out
          have filtered := active.transfer
            (.callFilter (active.live inTable) (active.borrowing j inTable) out)
          have still := (frame.inTable_iff j).mpr inTable
          simp only [Op.act, Store.touchJob_of_live (filtered.live still)]
          exact filtered.retireNamed ((consistent.activate inTable).skeleton frame.toSameSkeleton) still
      | append id arg outcome => exact offered.elim
      | recycle id => exact offered.elim
      | dup id grant => exact offered.elim
      | _ => cases handled

theorem jobStatus (owned : Owned s) (consistent : Consistent s none q) (verbose : Bool)
    (out : Bytes) : Owned (jobStatus s verbose out).1 := by
  apply jobStatus_keeps (P := Owned) verbose out owned
  intro j named
  rwa [Store.touchJob_of_live (owned.live (consistent.active j named))]

theorem jobWork {j : Block} (owned : Owned s) (consistent : Consistent s (some j) q)
    (alive : (s.job j).state ≠ .cancelled) : Owned (jobWork s j) := by
  have inTable : s.InTable j := (consistent.held j).mpr (Or.inl rfl)
  have live := owned.live inTable
  unfold Encore.jobWork
  simp only [Store.touchJob_of_live live, if_neg alive]
  have rendering := SameHoldings.modifyJob live .rendering
  have first := owned.transfer rendering
  have filtered := first.transfer (.callFilter (first.live inTable) (first.borrowing j inTable)
    (List.replicate 256 0))
  have done := filtered.transfer (.modifyJob (filtered.live inTable) .done)
  have skeleton := SameSkeleton.renderJob s j
  have retired := done.retireNamed (consistent.skeleton skeleton) inTable
  rwa [skeleton.ids] at retired

end Owned

theorem Owned.jobFlush {s : Store} {q : List Block} (owned : Owned s) (consistent : Consistent s none q)
    (alive : forall j, j ∈ q -> (s.job j).state ≠ .cancelled) : Owned (jobFlush s).1 := by
  refine (consistent.flushed
    (fun s q => Owned s ∧ forall j, j ∈ q -> (s.job j).state ≠ .cancelled)
    (fun s j rest table kept => ?_) ⟨owned, alive⟩).2.1
  have head : s.qhead = some j := table.queue.path.1
  have queued : s.InTable j := (table.held j).mpr (Or.inr List.mem_cons_self)
  have liveHead : forall k, s.qhead = some k -> s.jobs.Live k := by
    intro k same
    rw [head] at same
    exact Option.some.inj same ▸ kept.1.live queued
  have aliveHead : ((jobDequeue s).1.job j).state ≠ .cancelled := by
    rw [(jobDequeue_frame s).state]
    exact kept.2 j List.mem_cons_self
  refine ⟨(kept.1.transfer (.dequeue liveHead)).jobWork table.dequeue.2 aliveHead, ?_⟩
  intro k member
  rw [dequeue_state table member]
  exact kept.2 k (List.mem_cons_of_mem j member)

theorem jobRetire_releasesLe (s : Store) (id : Int) : s.jobs.ReleasesLe (jobRetire s id).1.jobs := by
  apply jobRetire_keeps (P := fun t => s.jobs.ReleasesLe t.jobs) id (.refl s.jobs)
  intro j _
  exact (Heap.releasesLe_release s.jobs j).trans
    (Heap.releasesLe_of_eq (retireHeld_releases s id.toNat j))

theorem jobWork_releasesLe (s : Store) (j : Block) : s.jobs.ReleasesLe (jobWork s j).jobs := by
  have touched : s.jobs.ReleasesLe (s.touchJob j).jobs :=
    Heap.releasesLe_of_eq (Heap.touch_releases ..)
  apply touched.trans
  unfold jobWork
  dsimp only
  split
  · have freed : (s.touchJob j).jobs.ReleasesLe (freeJob (s.touchJob j) j).jobs :=
      (Heap.releasesLe_release _ j).trans (Heap.releasesLe_of_eq (freeJob_releases _ j))
    exact freed.trans (jobRetire_releasesLe _ _)
  · refine Heap.ReleasesLe.trans (Heap.releasesLe_of_eq ?_) (jobRetire_releasesLe _ _)
    have filtered : forall t : Store,
        (callFilter t j (List.replicate 256 0)).1.jobs = t.jobs.touch j := fun _ => rfl
    simp only [Store.modifyJob, Heap.modify_releases, filtered, Heap.touch_releases]

theorem flushLoop_releasesLe (fuel : Nat) (s : Store) : s.jobs.ReleasesLe (flushLoop fuel s).jobs := by
  induction fuel generalizing s with
  | zero => exact .refl s.jobs
  | succ fuel inductionHypothesis =>
      have frame := jobDequeue_frame s
      unfold flushLoop
      rcases result : jobDequeue s with ⟨t, found⟩
      rw [result] at frame
      have dequeued : s.jobs.ReleasesLe t.jobs := Heap.releasesLe_of_eq frame.releases
      cases found with
      | none => exact dequeued
      | some j => exact (dequeued.trans (jobWork_releasesLe t j)).trans (inductionHypothesis _)

/-- The pump releases a cancelled job, and so does the retirement after it: at
least two releases are counted for its block. -/
theorem jobWork_cancelled {s : Store} {j : Block} {q : List Block}
    (consistent : Consistent s (some j) q) (cancelled : (s.job j).state = .cancelled) :
    2 ≤ (jobWork s j).jobs.releases j := by
  have inTable : s.InTable j := (consistent.held j).mpr (Or.inl rfl)
  have freed := (consistent.skeleton (.touchJob s j)).freeJob j
  have still : (freeJob (s.touchJob j) j).InTable j :=
    ((freeJob_skeleton _ j).inTable_iff j).mpr inTable
  rcases freed.jobRetire_named still with ⟨index, _, result⟩
  rw [freeJob_job] at result
  unfold jobWork
  simp only [Store.touchJob_job] at result ⊢
  rw [if_pos cancelled, result, retireHeld_releases, Heap.release_releases_self, freeJob_releases,
    Heap.release_releases_self]
  omega

theorem flushLoop_cancelled {s : Store} {q : List Block} {fuel : Nat} (enough : q.length ≤ fuel)
    (consistent : Consistent s none q) {j : Block} (queued : j ∈ q)
    (cancelled : (s.job j).state = .cancelled) :
    exists k, 2 ≤ (flushLoop fuel s).jobs.releases k := by
  induction fuel generalizing s q with
  | zero =>
      rw [List.eq_nil_of_length_eq_zero (Nat.le_zero.mp enough)] at queued
      cases queued
  | succ fuel inductionHypothesis =>
      cases q with
      | nil => cases queued
      | cons head rest =>
          rw [consistent.flushLoop_cons]
          rcases List.mem_cons.mp queued with first | behind
          · subst first
            refine ⟨j, Nat.le_trans ?_ (flushLoop_releasesLe fuel _ j)⟩
            exact jobWork_cancelled consistent.dequeue.2
              (((jobDequeue_frame s).state j).trans cancelled)
          · exact inductionHypothesis (Nat.le_of_succ_le_succ enough) consistent.turn behind
              ((dequeue_state consistent behind).trans cancelled)

/-! ## Exactly the runs that release once -/

/-- Between two calls the table is consistent and every block has its owner.
It is what a run keeps as long as no flush meets a cancelled job. -/
structure Disciplined (s : Store) : Prop where
  table : exists q, Consistent s none q
  owned : Owned s

theorem Disciplined.releasedOnce {s : Store} (disciplined : Disciplined s) : ReleasedOnce s where
  jobs := disciplined.owned.jobs.once
  docs := disciplined.owned.docs.once
  metas := disciplined.owned.metas.once
  accesses := disciplined.owned.accesses

theorem Disciplined.step {s : Store} (disciplined : Disciplined s) {op : Op}
    (offered : op.cancelling) (condition : FlushesNoCancelled s op) :
    Disciplined (step s op) := by
  rcases disciplined with ⟨⟨q, consistent⟩, owned⟩
  refine ⟨consistent.step op, ?_⟩
  cases op with
  | submit fmt filter init grant => exact owned.jobSubmit consistent fmt init grant offered
  | render id out => exact owned.handled consistent rfl offered
  | cancel id => exact owned.handled consistent rfl offered
  | status verbose out => exact owned.jobStatus consistent verbose out
  | retire id => exact owned.jobRetire consistent id
  | flush =>
      exact owned.jobFlush consistent fun j queued =>
        condition j ((consistent.held j).mpr (Or.inr queued))
  | append _ _ _ => exact offered.elim
  | recycle _ => exact offered.elim
  | dup _ _ => exact offered.elim

theorem not_releasedOnce_of_flush {s : Store} (disciplined : Disciplined s) {op : Op}
    (cancelled : ¬ FlushesNoCancelled s op) : ¬ ReleasedOnce (step s op) := by
  rcases disciplined with ⟨⟨q, consistent⟩, _⟩
  intro once
  cases op with
  | flush =>
      simp only [FlushesNoCancelled, not_forall, not_not] at cancelled
      rcases cancelled with ⟨j, inTable, state⟩
      have queued : j ∈ q := ((consistent.held j).mp inTable).resolve_left fun impossible =>
        nomatch impossible
      have enough := Nat.le_succ_of_le consistent.queue_length_le
      rcases flushLoop_cancelled enough consistent queued state with ⟨k, twice⟩
      exact absurd (Nat.le_trans twice (once.jobs k)) (by decide)
  | submit _ _ _ _ => exact cancelled trivial
  | render _ _ => exact cancelled trivial
  | append _ _ _ => exact cancelled trivial
  | cancel _ => exact cancelled trivial
  | recycle _ => exact cancelled trivial
  | dup _ _ => exact cancelled trivial
  | status _ _ => exact cancelled trivial
  | retire _ => exact cancelled trivial

theorem cancellation_guard :
    ExactGuard step Op.cancelling Disciplined ReleasedOnce FlushesNoCancelled where
  safe := fun _ disciplined => disciplined.releasedOnce
  keeps := fun _ _ disciplined offered condition => disciplined.step offered condition
  breaks := fun _ _ disciplined _ => not_releasedOnce_of_flush disciplined

/-- In a run with borrowing filters everything is released at most once, and
no job is accessed after its release, exactly when no flush meets a cancelled
job.  The condition is about the state in which each flush is called. -/
theorem releasedOnce_iff_flushesNoCancelled (ops : List Op)
    (offered : forall op, op ∈ ops -> op.cancelling) :
    Throughout step ReleasedOnce spoolNew ops ↔ Guarded step FlushesNoCancelled spoolNew ops :=
  cancellation_guard.throughout_iff ⟨⟨[], consistent_spoolNew⟩, owned_spoolNew⟩ offered

def cancelThenPump : List Op :=
  [.submit 7 (some .raster) helloPage generous, .cancel 0, .flush]

theorem cancelThenPump_released_twice : (forall op, op ∈ cancelThenPump -> op.cancelling) ∧
    ¬ Throughout step ReleasedOnce spoolNew cancelThenPump := by
  constructor
  · simp [cancelThenPump, Op.cancelling, Filter.consumes]
  · intro every
    have once := (throughout_end every).jobs 0
    revert once
    decide +kernel

def cancelThenRetire : List Op :=
  [.submit 7 (some .raster) helloPage generous, .cancel 0, .retire 0, .flush]

theorem cancelThenRetire_releasedOnce : Throughout step ReleasedOnce spoolNew cancelThenRetire := by
  refine (releasedOnce_iff_flushesNoCancelled cancelThenRetire ?_).mpr
    ⟨trivial, trivial, trivial, ?_, trivial⟩
  · simp [cancelThenRetire, Op.cancelling, Filter.consumes]
  · rintro j ⟨index, inside, holds⟩
    cases index with
    | zero => cases holds
    | succ index => cases holds

end Encore
end BugMuseum
