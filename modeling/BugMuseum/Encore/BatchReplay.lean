import BugMuseum.Encore.Holdings
import BugMuseum.Encore.Spoolc

namespace BugMuseum
namespace Encore

open Foundation

/-!
# Replaying a batch

The client and the server read the same records and stop at the same one.  What they do
with a record differs in small ways.  The client offers the text filter and the server
does not.  The server shows the active job on the pipe only.  The output buffer of the
server is new for each request, while the client keeps one.  None of this reaches the
store as long as no submit names the text filter: the status only reads a
job that is live, and a filter call depends on the output buffer through its size.
-/

/-- A record that both programs carry out: the operations that the client
knows, except for a submit to the text filter, and the op bytes that neither
knows. -/
def Request.shared (r : Request) : Prop :=
  (r.op = opSubmit ∧ r.fmt &&& filterIdMask ≠ 1) ∨ r.op = opRender ∨ r.op = opAppend ∨
    r.op = opCancel ∨ r.op = opStatus ∨ r.op > opFlush

theorem Filter.preview_length (filter : Filter) (document out : Bytes) :
    (filter.preview document out).1.length = out.length := by
  cases filter with
  | raster => exact snprintf_length ..
  | text =>
      rw [Filter.preview]
      split
      · rfl
      · exact overwrite_length ..
  | pdfish => exact snprintf_length ..

theorem jobRender_out_length (s : Store) (id : Int) (out : Bytes) :
    (jobRender s id out).2.1.length = out.length := by
  rw [jobRender]
  split
  · rfl
  · exact Filter.preview_length ..

theorem jobStatus_out_length (s : Store) (verbose : Bool) (out : Bytes) :
    (jobStatus s verbose out).2.1.length = out.length := by
  rw [jobStatus]
  split
  · exact (overwrite_length ..).trans (snprintf_length ..)
  · split
    · exact (overwrite_length ..).trans ((snprintf_length ..).trans (snprintf_length ..))
    · exact (overwrite_length ..).trans (snprintf_length ..)

/-- A filter call depends on the size of the output buffer only, so the client
may keep one buffer while the server has a new one for each request. -/
theorem jobRender_store {out out' : Bytes} (s : Store) (id : Int) (sized : out.length = out'.length) :
    (jobRender s id out).1 = (jobRender s id out').1 := by
  rw [jobRender, jobRender]
  cases jobGet s id with
  | mk t found =>
      cases found with
      | none => rfl
      | some j =>
          have filtered : (callFilter t j out).1 = (callFilter t j out').1 := by
            rw [callFilter, callFilter, sized]
          dsimp only
          rw [filtered]

/-- The table is consistent, and its jobs are live.  It is what makes the
status of the server a read without a trace. -/
structure Tidy (s : Store) : Prop where
  table : exists q, Consistent s none q
  jobs : JobsHeld s

theorem tidy_spoolNew : Tidy spoolNew where
  table := ⟨[], consistent_spoolNew⟩
  jobs := exclusive_empty some not_inTable_spoolNew

/-- An append changes no counter of the job structures, only those of the
documents. -/
theorem appendTo_releases (s : Store) (j : Block) (arg : Payload) (outcome : Realloc) :
    (appendTo s j arg outcome).1.jobs.releases = s.jobs.releases := by
  have touched : (s.touchJob j).jobs.releases = s.jobs.releases := Heap.touch_releases ..
  have appended := appendTo_appended s j arg outcome
  generalize appendTo s j arg outcome = after at appended ⊢
  cases appended with
  | refused _ => exact touched
  | exhausted _ _ _ => exact touched
  | written _ _ => exact (Heap.modify_releases ..).trans touched
  | grown _ _ _ => exact (Heap.modify_releases ..).trans touched

namespace Tidy

variable {s : Store}

theorem activate (tidy : Tidy s) {j : Block} (inTable : s.InTable j) : Tidy { s with gActive := some j } := by
  rcases tidy.table with ⟨q, consistent⟩
  exact ⟨⟨q, consistent.activate inTable⟩, tidy.jobs.transfer rfl rfl fun _ held => held⟩

/-- The status leaves the store as it is, because the job that it reads is
live. -/
theorem jobStatus (tidy : Tidy s) (verbose : Bool) (out : Bytes) : (jobStatus s verbose out).1 = s := by
  rcases tidy.table with ⟨q, consistent⟩
  apply jobStatus_keeps (P := fun t => t = s) verbose out rfl
  intro j named
  exact Store.touchJob_of_live (tidy.jobs.live (consistent.active j named))

theorem jobSubmit (tidy : Tidy s) (fmt : Int) (filter : Option Filter) (init : Payload)
    (grant : Nat -> Grant) : Tidy (jobSubmit s fmt filter init grant).1 := by
  rcases tidy.table with ⟨q, consistent⟩
  refine ⟨⟨_, consistent.jobSubmit fmt filter init grant⟩, ?_⟩
  rcases jobSubmit_cases s fmt filter init grant with same | ⟨value, same⟩ |
    ⟨id, jobs, docs, metas, job, document, slot, admission, _, _, _, same⟩ <;> rw [same]
  · exact tidy.jobs
  · exact tidy.jobs.withdrawn value
  · exact tidy.jobs.enter metas admission slot

/-- A render, an append or a cancel keeps the store tidy. -/
theorem handled (tidy : Tidy s) {op : Op} {id : Int} (handled : op.jobId = some id)
    (makesNone : forall id grant, op ≠ .dup id grant) : Tidy (step s op) := by
  rcases tidy.table with ⟨q, consistent⟩
  rcases consistent.handled handled makesNone with ⟨q', kept, _⟩
  refine ⟨⟨q', kept⟩, ?_⟩
  cases found : s.lookup id with
  | none =>
      rw [step_absent handled found]
      exact tidy.jobs
  | some j =>
      have inTable := consistent.lookup_inTable found
      have active := tidy.activate inTable
      rw [step_found handled found]
      cases op with
      | render id out =>
          have same := (callFilter_frame { s with gActive := some j } j out).toSameSkeleton.trans (.touchJob _ j)
          have still := (same.inTable_iff j).mpr inTable
          have filtered : JobsHeld ((callFilter { s with gActive := some j } j out).1.touchJob j) := by
            apply active.jobs.transfer same.next ?_ fun k => (same.inTable_iff k).mp
            exact (Heap.touch_releases ..).trans (Heap.touch_releases ..)
          exact filtered.retireNamed ((consistent.activate inTable).skeleton same) still
      | append id arg outcome =>
          have same := (appendTo_frame { s with gActive := some j } j arg outcome).toSameSkeleton
          exact active.jobs.transfer same.next (appendTo_releases _ j arg outcome)
            fun k => (same.inTable_iff k).mp
      | cancel id =>
          exact active.jobs.transfer (Heap.modify_next ..) (Heap.modify_releases ..) fun _ held => held
      | recycle id =>
          exact active.jobs.transfer (Heap.touch_next ..) (Heap.touch_releases ..) fun _ held => held
      | dup id grant => exact absurd rfl (makesNone id grant)
      | _ => cases handled

end Tidy

/-! ## One record -/

/-- The filters differ in the text filter only, which the client offers and
the server does not. -/
theorem filterFor_shared (found : Filter -> Bool) {id : UInt8} (other : id ≠ 1) :
    filterFor (loadFilters found) id = filterFor (loadEveryFilter found) id := by
  have differs : id.toNat ≠ 1 := fun same => other (UInt8.toNat_inj.mp same)
  rw [filterFor, filterFor]
  split
  · match id.toNat, differs with
    | 0, _ => rfl
    | 1, impossible => exact absurd rfl impossible
    | 2, _ => rfl
    | _ + 3, _ => rfl
  · rfl

/-- Between two records the stores are the same, and the output buffer has its
size.  The next record is then handled alike on both sides. -/
structure InStep (v : Attended) (p : Replay) : Prop where
  store : v.store = p.store
  tidy : Tidy p.store
  out : p.out.length = 256

section Record

variable {found : Filter -> Bool} {isTcp : Bool} {answers : Nat -> Answers} {i : Nat} {v : Attended}
  {p : Replay} {r : Request}

theorem replayRecord_beyond {filters : Nat -> Option Filter} {grant : Nat -> Grant} {outcome : Realloc}
    (beyond : r.op > opFlush) : replayRecord filters p r grant outcome = p := by
  have differs : forall op, op ≤ opFlush -> r.op ≠ op := by
    intro op small same
    exact UInt8.not_le.mpr beyond (same ▸ small)
  rw [replayRecord, if_neg (differs opSubmit (by decide)), if_neg (differs opRender (by decide)),
    if_neg (differs opAppend (by decide)), if_neg (differs opCancel (by decide)),
    if_neg (differs opStatus (by decide))]

theorem attend_store (accepted : ¬ r.op > opFlush) :
    (attend (loadFilters found) isTcp answers i v r).store =
      (dispatch (loadFilters found) v.store isTcp r (answers i).grant (answers i).outcome).1 := by
  rw [attend, if_neg accepted]

/-- One request and one record, both carried out: the stores are the same
again. -/
theorem InStep.record (inStep : InStep v p) (shared : r.shared) :
    InStep (attend (loadFilters found) isTcp answers i v r)
      (carryOut (loadEveryFilter found) answers i p r) := by
  rw [carryOut]
  have accepted : forall op, r.op = op -> op ≤ opFlush -> ¬ r.op > opFlush :=
    fun op same small => UInt8.not_lt.mpr (same ▸ small)
  rcases inStep with ⟨store, tidy, sized⟩
  rcases shared with ⟨submit, other⟩ | render | append | cancel | status | beyond
  · have submitted := tidy.jobSubmit (r.fmt &&& filterIdMask).toNat
      (filterFor (loadEveryFilter found) (r.fmt &&& filterIdMask)) r.arg (answers i).grant
    rw [replayRecord, if_pos submit]
    refine ⟨?_, submitted, sized⟩
    rw [attend_store (accepted _ submit (by decide)), dispatch, if_pos submit, hSubmit,
      filterFor_shared found other, store]
    dsimp only
    split
    · rfl
    · rfl
  · have rendered := tidy.handled (rfl : (Op.render r.id p.out).jobId = some r.id)
      fun _ _ impossible => nomatch impossible
    have sameOut : (List.replicate 256 (0 : UInt8)).length = p.out.length := List.length_replicate.trans sized.symm
    rw [replayRecord, render]
    refine ⟨?_, rendered, (jobRender_out_length ..).trans sized⟩
    rw [attend_store (accepted _ render (by decide)), dispatch, render]
    show (hRender v.store r).1 = (jobRender p.store r.id p.out).1
    rw [hRender, store, ← jobRender_store p.store r.id sameOut]
    split
    · rfl
    · rfl
  · have appended := tidy.handled (rfl : (Op.append r.id r.arg (answers i).outcome).jobId = some r.id)
      fun _ _ impossible => nomatch impossible
    rw [replayRecord, append]
    refine ⟨?_, appended, sized⟩
    rw [attend_store (accepted _ append (by decide)), dispatch, append]
    show (hAppend v.store r (answers i).outcome).1 = (jobAppend p.store r.id r.arg (answers i).outcome).1
    rw [hAppend, store]
    split
    · rfl
    · rfl
  · have cancelled := tidy.handled (rfl : (Op.cancel r.id).jobId = some r.id)
      fun _ _ impossible => nomatch impossible
    rw [replayRecord, cancel]
    refine ⟨?_, cancelled, sized⟩
    rw [attend_store (accepted _ cancel (by decide)), dispatch, cancel]
    show (jobCancel v.store r.id).1 = (jobCancel p.store r.id).1
    rw [store]
  · rw [replayRecord, status]
    have unchanged := tidy.jobStatus (decide (r.fmt &&& flagVerbose ≠ 0)) p.out
    refine ⟨?_, ?_, (jobStatus_out_length ..).trans sized⟩
    · rw [attend_store (accepted _ status (by decide)), dispatch, status]
      show (hStatus v.store isTcp r).1 = (Encore.jobStatus p.store _ p.out).1
      rw [unchanged, hStatus, store]
      exact tidy.jobStatus _ _
    · show Tidy (Encore.jobStatus p.store _ p.out).1
      rw [unchanged]
      exact tidy
  · rw [replayRecord_beyond beyond, attend, if_pos beyond]
    exact ⟨store, tidy, sized⟩

end Record

theorem hangUp_store (v : Attended) (stop : Stop) : (hangUp v stop).store = v.store := by
  rw [hangUp]
  split
  · rfl
  · rfl

/-- Replaying a batch leaves the store as the server leaves a fresh one that
gets the bytes of its records on one connection, on either transport and in
any pieces.  The batch may be cut off or announce more records than it has. -/
theorem spoolc_serve (found : Filter -> Bool) (answers : Nat -> Answers) (residue : Field 256)
    (batch : Batch) (shared : forall r, r ∈ batch.records -> r.shared) (isTcp : Bool) (s : Stream)
    (bytes : s.input = batch.bytes) :
    exists replay, spoolc found answers residue batch.file = .ok replay ∧
      (serve (loadFilters found) answers spoolNew isTcp s).store = replay.store := by
  refine ⟨_, spoolc_file found answers residue batch, ?_⟩
  obtain ⟨records, rest, frames⟩ : exists records rest,
      requestFormat.Frames (fun i => (answers i).argument) 0 records rest s.input :=
    RecordFormat.Frames.exist _ 0 s.input
  rcases RecordFormat.serve_eq_handleAll (attend (loadFilters found) isTcp answers) hangUp (accepted spoolNew)
    frames (Nat.lt_succ_self _) with ⟨stop, _, served⟩
  rw [bytes] at frames
  have replayed : recordFormat.replay (fun i => (answers i).argument) (carryOut (loadEveryFilter found) answers)
        batch.count 0 (started residue) batch.body =
      RecordFormat.handleAll (carryOut (loadEveryFilter found) answers) 0 (started residue) records ∧
        forall r, r ∈ records -> r ∈ batch.records :=
    RecordFormat.Frames.replayed (started residue) frames
  have inStep : InStep
      (RecordFormat.handleAll (attend (loadFilters found) isTcp answers) 0 (accepted spoolNew) records)
      (RecordFormat.handleAll (carryOut (loadEveryFilter found) answers) 0 (started residue) records) :=
    RecordFormat.handleAll_lockstep 0 ⟨rfl, tidy_spoolNew, residue.2⟩
      fun _ _ _ r member inStep => inStep.record (shared r (replayed.2 r member))
  rw [serve, served, hangUp_store, inStep.store, replayed.1]

/-- Every allocation succeeds and nothing moves. -/
def granting : Answers where
  argument := true
  grant := fun _ => some fun _ => 0
  outcome := .inPlace fun _ => 0

/-- A page is submitted to the raster filter and rendered. -/
def helloRecords : List Request :=
  [{ op := opSubmit, fmt := 0, job := 0, arg := helloPage }, { op := opRender, fmt := 0, job := 0, arg := helloPage }]

def helloBatch : Batch where
  count := 2
  body := helloRecords.flatMap recordFormat.encode
  bounded := by decide

/-- The server gets the batch on a pipe, byte by byte. -/
theorem helloBatch_replays : exists replay,
    spoolc (fun _ => true) (fun _ => granting) (.ofNat 256 0) helloBatch.file = .ok replay ∧
      (serve (loadFilters fun _ => true) (fun _ => granting) spoolNew false
        (.of helloBatch.bytes fun _ => 0)).store = replay.store := by
  apply spoolc_serve (fun _ => true) (fun _ => granting) (.ofNat 256 0) helloBatch ?_ false _ rfl
  have fits : forall r, r ∈ helloRecords -> recordFormat.Fits true r := by
    intro r member
    rcases List.mem_pair.mp member with rfl | rfl <;> exact ⟨by decide, Or.inr rfl⟩
  have written : helloBatch.records = helloRecords :=
    (congrArg (recordFormat.recordsIn 2) (List.append_nil _).symm).trans
      (recordFormat.recordsIn_encoded fits []).1
  rw [written]
  intro r member
  rcases List.mem_pair.mp member with rfl | rfl
  · exact Or.inl ⟨rfl, by decide⟩
  · exact Or.inr (Or.inl rfl)

end Encore
end BugMuseum
