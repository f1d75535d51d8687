import BugMuseum.Encore.Calls
import BugMuseum.Foundation.Runs

namespace BugMuseum
namespace Encore

open Foundation

/-!
# The table stays consistent

Every operation keeps `Consistent`.  Submit and duplicate append the new job
to the queue, a retirement erases its job from the queue wherever it stands,
and the pump consumes the queue from the front, on the cancelled branch as on
the other.  The last theorem restates the invariant in the terms of the
structures themselves, for every run from `SpoolNew`.
-/

theorem not_inTable_spoolNew (j : Block) : ¬ spoolNew.InTable j :=
  not_held_none spoolMax j

theorem consistent_spoolNew : Consistent spoolNew none [] where
  queue := ⟨rfl, rfl, List.nodup_nil⟩
  apart := fun _ impossible => nomatch impossible
  ids := fun _ _ impossible => nomatch impossible
  counted := congrArg Int.ofNat (occupied_none spoolMax).symm
  held := fun j => by simp [not_inTable_spoolNew]
  issued := fun j held => absurd held (not_inTable_spoolNew j)
  active := fun _ impossible => nomatch impossible

/-- A rendering by the pump touches neither the table nor the queue. -/
theorem SameSkeleton.renderJob (s : Store) (j : Block) :
    SameSkeleton s ((callFilter (s.modifyJob j fun job => { job with state := .rendering }) j
      (List.replicate 256 0)).1.modifyJob j fun job => { job with state := .done }) :=
  ((SameSkeleton.setState s j .rendering).trans (callFilter_frame _ j _).toSameSkeleton).trans
    (.setState _ j .done)

namespace Consistent

variable {s : Store} {pumped : Option Block} {q : List Block}

theorem withdrawn (consistent : Consistent s pumped q) (value : Job) :
    Consistent (withdrawn s value) pumped q :=
  (consistent.extendJobs (Heap.alloc_extends s.jobs value) s.docs s.metas).releaseJob s.jobs.next

theorem not_inTable_next (consistent : Consistent s pumped q) : ¬ s.InTable s.jobs.next :=
  fun inTable => Nat.lt_irrefl _ (consistent.issued _ inTable)

theorem enter (consistent : Consistent s none q) {jobs : Heap Job} {docs : Heap Bytes}
    {id : Nat} {job : Job} {document : Bytes} (admission : Admission s jobs docs id job document)
    (slot : firstFree spoolMax s.slots = some id) (metas : Heap Bytes) :
    Consistent (Encore.enterJob { s with jobs := jobs, docs := docs, metas := metas } id s.jobs.next)
      none (q ++ [s.jobs.next]) := by
  rcases firstFree_some slot with ⟨inside, free⟩
  apply (consistent.extendJobs admission.jobs docs metas).enterJob inside free
  · exact consistent.not_inTable_next
  · exact (congrArg Job.id admission.jobs.fresh).trans admission.id
  · exact admission.jobs.next ▸ Nat.lt_succ_self _

/-- The queue gets the new job at its end, and none if the call fails. -/
theorem jobSubmit (consistent : Consistent s none q) (fmt : Int) (filter : Option Filter)
    (init : Payload) (grant : Nat -> Grant) :
    Consistent (jobSubmit s fmt filter init grant).1 none
      (q ++ (entered (Encore.jobSubmit s fmt filter init grant)).toList) := by
  rcases jobSubmit_cases s fmt filter init grant with same | ⟨value, same⟩ |
    ⟨id, jobs, docs, metas, job, document, slot, admission, _, _, _, same⟩
  · rw [same, entered_refused rfl, Option.toList_none, List.append_nil]
    exact consistent
  · rw [same, entered_refused rfl, Option.toList_none, List.append_nil]
    exact consistent.withdrawn value
  · rw [same, entered_admitted jobs docs metas slot]
    exact consistent.enter admission slot metas

theorem dupOf (consistent : Consistent s none q) {j : Block} (inTable : s.InTable j)
    (grant : Nat -> Grant) :
    Consistent (dupOf s j grant).1 none (q ++ (entered (Encore.dupOf s j grant)).toList) := by
  have touched := consistent.skeleton (.touchJob s j)
  rcases dupOf_cases (consistent.issued j inTable) grant with same | ⟨value, same⟩ |
    ⟨id, jobs, docs, job, document, slot, admission, _, _, _, result⟩
  · rw [same, entered_refused rfl, Option.toList_none, List.append_nil]
    exact consistent
  · rw [same, entered_refused rfl, Option.toList_none, List.append_nil]
    exact touched.withdrawn value
  · have named : Encore.dupOf s j grant = (admitted (s.touchJob j) jobs docs s.metas id, (id : Int)) :=
      result
    have kept : firstFree spoolMax (s.touchJob j).slots = some id := slot
    rw [named, entered_admitted jobs docs s.metas kept]
    exact touched.enter admission slot s.metas

theorem jobDup (consistent : Consistent s none q) (id : Int) (grant : Nat -> Grant) :
    Consistent (jobDup s id grant).1 none (q ++ (entered (Encore.jobDup s id grant)).toList) := by
  rw [Encore.jobDup]
  cases found : s.lookup id with
  | none =>
      have refused : entered (s, spoolErr) = none := entered_refused rfl
      simp only [jobGet_absent found, refused, Option.toList_none, List.append_nil]
      exact consistent
  | some j =>
      have inTable := consistent.lookup_inTable found
      rw [jobGet_found found]
      exact (consistent.activate inTable).dupOf inTable grant

/-- Retiring by id the job that the table holds under that id is retiring that
job. -/
theorem jobRetire_named (consistent : Consistent s pumped q) {j : Block} (inTable : s.InTable j) :
    exists index, s.slots index = some j ∧
      Encore.jobRetire s (s.job j).id = (Encore.retireHeld s index j, spoolOk) := by
  rcases Store.slotAt_id consistent.numbered inTable with ⟨index, named, holds, found⟩
  refine ⟨index, holds, ?_⟩
  simp only [Encore.jobRetire, found]
  rw [named, Int.toNat_natCast]

theorem jobRetire (consistent : Consistent s none q) (id : Int) :
    exists q', Consistent (jobRetire s id).1 none q' ∧ q'.Sublist q := by
  apply jobRetire_keeps (P := fun s => exists q', Consistent s none q' ∧ q'.Sublist q) id
  · exact ⟨q, consistent, List.Sublist.refl q⟩
  · intro j slot
    exact ⟨_, consistent.retireHeld slot alone_of_none, List.erase_sublist⟩

theorem retireNamed (consistent : Consistent s pumped q) {j : Block} (inTable : s.InTable j)
    (alone : forall k, pumped = some k -> k = j) :
    Consistent (Encore.jobRetire s (s.job j).id).1 none (q.erase j) := by
  rcases consistent.jobRetire_named inTable with ⟨index, holds, result⟩
  rw [result]
  exact consistent.retireHeld holds alone

/-- The pump takes the head of the queue; the job stays in the table until it
is retired. -/
theorem dequeue {j : Block} {rest : List Block} (consistent : Consistent s none (j :: rest)) :
    (jobDequeue s).2 = some j ∧ Consistent (jobDequeue s).1 (some j) rest := by
  rcases jobDequeue_cons consistent.queue with ⟨taken, queue⟩
  have frame := jobDequeue_frame s
  have member : forall k, (jobDequeue s).1.InTable k ↔ s.InTable k := fun k => by
    simp only [Store.InTable, frame.slots]
  refine ⟨taken, queue, ?_, ?_, ?_, ?_, ?_, ?_⟩
  · intro k same inRest
    rw [← Option.some.inj same] at inRest
    exact (List.nodup_cons.mp consistent.queue.nodup).1 inRest
  · intro index k holds
    rw [frame.slots] at holds
    rw [frame.id]
    exact consistent.ids index k holds
  · rw [frame.count, frame.slots]
    exact consistent.counted
  · intro k
    rw [member, consistent.held k]
    simp [eq_comm]
  · intro k inTable
    rw [frame.next]
    exact consistent.issued k ((member k).mp inTable)
  · intro k named
    exact (member k).mpr (consistent.active k (frame.gActive ▸ named))

/-- Both branches of the pump end in one retirement of the pumped job, so the
table is consistent behind it. -/
theorem jobWork {j : Block} (consistent : Consistent s (some j) q) :
    Consistent (jobWork s j) none q := by
  have inTable : s.InTable j := (consistent.held j).mpr (Or.inl rfl)
  have alone : forall k, some j = some k -> k = j := fun k same => (Option.some.inj same).symm
  have unqueued : q.erase j = q := List.erase_of_not_mem (consistent.apart j rfl)
  have touched := consistent.skeleton (.touchJob s j)
  unfold Encore.jobWork
  dsimp only
  split
  · have freed := touched.freeJob j
    have still : (Encore.freeJob (s.touchJob j) j).InTable j :=
      ((freeJob_skeleton _ j).inTable_iff j).mpr inTable
    have retired := freed.retireNamed still alone
    rwa [freeJob_job, unqueued] at retired
  · have done := SameSkeleton.renderJob (s.touchJob j) j
    have retired := (touched.skeleton done).retireNamed ((done.inTable_iff j).mpr inTable) alone
    rwa [done.ids, unqueued] at retired

/-- One turn of the pump: the head of the queue is worked on, and the rest of
it is the queue. -/
theorem turn {j : Block} {rest : List Block} (consistent : Consistent s none (j :: rest)) :
    Consistent (Encore.jobWork (jobDequeue s).1 j) none rest :=
  consistent.dequeue.2.jobWork

theorem flushLoop_nil (consistent : Consistent s none []) (fuel : Nat) :
    Encore.flushLoop fuel s = s := by
  cases fuel with
  | zero => rfl
  | succ fuel => simp only [Encore.flushLoop, jobDequeue_nil consistent.queue]

theorem flushLoop_cons {j : Block} {rest : List Block} (consistent : Consistent s none (j :: rest))
    (fuel : Nat) :
    Encore.flushLoop (fuel + 1) s = Encore.flushLoop fuel (Encore.jobWork (jobDequeue s).1 j) := by
  have taken := consistent.dequeue.1
  rcases result : jobDequeue s with ⟨t, found⟩
  rw [result] at taken
  subst taken
  simp only [Encore.flushLoop, result]

/-- The pump consumes the queue from the front, and what every turn keeps is
kept.  The invariant may speak of the queue that is left. -/
theorem flushLoop (invariant : Store -> List Block -> Prop)
    (turns : forall s j rest, Consistent s none (j :: rest) -> invariant s (j :: rest) ->
      invariant (Encore.jobWork (jobDequeue s).1 j) rest)
    (fuel : Nat) (consistent : Consistent s none q) (holds : invariant s q) :
    Consistent (flushLoop fuel s) none (q.drop fuel) ∧ invariant (Encore.flushLoop fuel s) (q.drop fuel) := by
  induction fuel generalizing s q with
  | zero => exact ⟨consistent, holds⟩
  | succ fuel inductionHypothesis =>
      cases q with
      | nil =>
          rw [consistent.flushLoop_nil]
          exact ⟨consistent, holds⟩
      | cons j rest =>
          rw [consistent.flushLoop_cons]
          exact inductionHypothesis consistent.turn (turns s j rest consistent holds)

/-- No more jobs are queued than were ever made, which bounds the turns of a
flush. -/
theorem queue_length_le (consistent : Consistent s pumped q) : q.length ≤ s.jobs.next :=
  length_le_of_bounded consistent.queue.nodup
    fun j member => consistent.issued j ((consistent.held j).mpr (Or.inr member))

/-- The fuel of `jobFlush` is enough: a flush leaves no job behind, and it
keeps what every turn keeps. -/
theorem flushed (invariant : Store -> List Block -> Prop)
    (turns : forall s j rest, Consistent s none (j :: rest) -> invariant s (j :: rest) ->
      invariant (Encore.jobWork (jobDequeue s).1 j) rest)
    (consistent : Consistent s none q) (holds : invariant s q) :
    Consistent (jobFlush s).1 none [] ∧ invariant (Encore.jobFlush s).1 [] := by
  have finished := consistent.flushLoop invariant turns (s.jobs.next + 1) holds
  rwa [List.drop_eq_nil_of_le (Nat.le_succ_of_le consistent.queue_length_le)] at finished

theorem jobFlush (consistent : Consistent s none q) : Consistent (jobFlush s).1 none [] :=
  (consistent.flushed (fun _ _ => True) (fun _ _ _ _ _ => trivial) trivial).1

/-- A call with the job it has found, unless it makes another one, leaves a
part of the queue. -/
theorem act (consistent : Consistent s none q) {j : Block} (inTable : s.InTable j) {op : Op}
    (makesNone : forall id grant, op ≠ .dup id grant) :
    exists q', Consistent (op.act s j) none q' ∧ q'.Sublist q := by
  cases op with
  | render id out =>
      have same := (callFilter_frame s j out).toSameSkeleton.trans (.touchJob _ j)
      have still := (same.inTable_iff j).mpr inTable
      exact ⟨_, (consistent.skeleton same).retireNamed still alone_of_none, List.erase_sublist⟩
  | append id arg outcome =>
      have same := (appendTo_frame s j arg outcome).toSameSkeleton
      exact ⟨q, consistent.skeleton same, List.Sublist.refl q⟩
  | cancel id => exact ⟨q, consistent.skeleton (.setState s j .cancelled), List.Sublist.refl q⟩
  | recycle id =>
      have released := (SameSkeleton.refl s).buffers (s.docs.releaseAt s.gScratch) s.metas s.gScratch
        s.renders
      exact ⟨q, consistent.skeleton ((released.trans (.touchJob _ j)).buffers _ _ _ _),
        List.Sublist.refl q⟩
  | dup id grant => exact absurd rfl (makesNone id grant)
  | _ => exact ⟨q, consistent, List.Sublist.refl q⟩

theorem handled (consistent : Consistent s none q) {op : Op} {id : Int} (handled : op.jobId = some id)
    (makesNone : forall id grant, op ≠ .dup id grant) :
    exists q', Consistent (Encore.step s op) none q' ∧ q'.Sublist q := by
  cases found : s.lookup id with
  | none =>
      rw [step_absent handled found]
      exact ⟨q, consistent, List.Sublist.refl q⟩
  | some j =>
      have inTable := consistent.lookup_inTable found
      rw [step_found handled found]
      exact (consistent.activate inTable).act inTable makesNone

theorem jobStatus (consistent : Consistent s none q) (verbose : Bool) (out : Bytes) :
    Consistent (jobStatus s verbose out).1 none q := by
  exact jobStatus_keeps (P := fun s => Consistent s none q) verbose out consistent fun j _ =>
    consistent.skeleton (.touchJob s j)

/-- One call, whatever it is: no queued job overtakes another, and only the
job that the call has made comes behind them. -/
theorem step_queue (consistent : Consistent s none q) (op : Op) :
    exists q', Consistent (step s op) none q' ∧ q'.Sublist (q ++ (op.created s).toList) := by
  have behind : forall {t : Store}, (exists q', Consistent t none q' ∧ q'.Sublist q) ->
      exists q', Consistent t none q' ∧ q'.Sublist (q ++ (op.created s).toList) := by
    rintro t ⟨q', kept, sublist⟩
    exact ⟨q', kept, sublist.trans (List.sublist_append_left q _)⟩
  cases op with
  | submit fmt filter init grant =>
      exact ⟨_, consistent.jobSubmit fmt filter init grant, List.Sublist.refl _⟩
  | dup id grant => exact ⟨_, consistent.jobDup id grant, List.Sublist.refl _⟩
  | render id out => exact behind (consistent.handled rfl nofun)
  | append id arg outcome => exact behind (consistent.handled rfl nofun)
  | cancel id => exact behind (consistent.handled rfl nofun)
  | recycle id => exact behind (consistent.handled rfl nofun)
  | status verbose out => exact behind ⟨q, consistent.jobStatus verbose out, List.Sublist.refl q⟩
  | flush => exact behind ⟨[], consistent.jobFlush, List.nil_sublist q⟩
  | retire id => exact behind (consistent.jobRetire id)

theorem step (consistent : Consistent s none q) (op : Op) :
    exists q', Consistent (step s op) none q' := by
  rcases consistent.step_queue op with ⟨q', kept, _⟩
  exact ⟨q', kept⟩

end Consistent

/-- A retirement changes no state of a job, not even that of the one it
retires. -/
theorem jobRetire_state (s : Store) (id : Int) (k : Block) :
    ((jobRetire s id).1.job k).state = (s.job k).state := by
  apply jobRetire_keeps (P := fun t => (t.job k).state = (s.job k).state) id rfl
  intro j _
  have same := congrArg Job.state (retireHeld_fields s id.toNat j k)
  exact same

theorem jobWork_state (s : Store) {j k : Block} (different : k ≠ j) :
    ((jobWork s j).job k).state = (s.job k).state := by
  unfold jobWork
  dsimp only
  split
  · rw [jobRetire_state, freeJob_job, Store.touchJob_job]
  · rw [jobRetire_state, Store.modifyJob_job_of_ne _ _ different]
    apply (congrArg Job.state (Store.touchJob_job _ j k)).trans
    rw [Store.modifyJob_job_of_ne _ _ different, Store.touchJob_job]

/-- One turn of the pump keeps the jobs behind the head as they were. -/
theorem dequeue_state {s : Store} {j : Block} {rest : List Block}
    (consistent : Consistent s none (j :: rest)) {k : Block} (later : k ∈ rest) :
    ((jobWork (jobDequeue s).1 j).job k).state = (s.job k).state := by
  have different : k ≠ j := fun same =>
    (List.nodup_cons.mp consistent.queue.nodup).1 (same ▸ later)
  exact (jobWork_state _ different).trans ((jobDequeue_frame s).state k)

/-! ## Every run -/

/-- The slots, the counter, the linked queue and its tail describe the same
jobs.  Every slot holds the job of its number, and no job is queued that is
not in the table. -/
structure TableAgrees (s : Store) : Prop where
  ids : forall index j, s.slots index = some j -> (s.job j).id = index
  counted : s.count = occupied spoolMax s.slots
  queue : exists q, Path s.link s.qhead q none ∧ q.Nodup ∧ s.qtail = q.getLast? ∧
    forall j, j ∈ q ↔ s.InTable j

theorem Consistent.tableAgrees {s : Store} {q : List Block} (consistent : Consistent s none q) :
    TableAgrees s where
  ids := fun index j holds => (consistent.ids index j holds).2
  counted := consistent.counted
  queue := ⟨q, consistent.queue.path, consistent.queue.nodup, consistent.queue.tail,
    fun j => by simp [consistent.held j]⟩

theorem consistent_throughout (ops : List Op) :
    Throughout step (fun s => exists q, Consistent s none q) spoolNew ops :=
  throughout_of_invariant (fun _ => True)
    (fun _ op ⟨_, consistent⟩ _ => consistent.step op) ⟨[], consistent_spoolNew⟩
    fun _ _ => trivial

/-- The table, the counter and the queue agree between any two calls of any
run, whichever allocations fail and whatever ids are passed: the same jobs are
in the slots, in the count and in the queue. -/
theorem tableAgrees_throughout (ops : List Op) : Throughout step TableAgrees spoolNew ops :=
  (consistent_throughout ops).mono fun _ ⟨_, consistent⟩ => consistent.tableAgrees

end Encore
end BugMuseum
