import BugMuseum.Encore.JobTable

namespace BugMuseum
namespace Encore

open Foundation

/-!
# What each call can do

One statement for each operation of the store says what the call does to it.
`JobSubmit` and `JobDup` either fail, at most leaving a `Job` block that was
allocated and released again, or enter one new job; `Admission` records what
the new job brings along.  `JobAppend` and the filter call change buffers and
the job they work on, never the table.
-/

/-- The heaps just before a new job is entered in the table: one `Job` block
more, one document more, and perhaps a metadata block.  Nothing of the older
jobs has changed. -/
structure Admission (s : Store) (jobs : Heap Job) (docs : Heap Bytes) (id : Nat) (job : Job)
    (document : Bytes) : Prop where
  jobs : s.jobs.Extends jobs job
  docs : exists source : Heap Bytes, source.next = s.docs.next ∧
    source.releases = s.docs.releases ∧ source.cell = s.docs.cell ∧ source.Extends docs document
  id : job.id = id
  state : job.state = .queued
  data : job.data = some s.docs.next

/-- The text that a job and its document buffer start out with.  The buffer
has at least 32 bytes, and what is behind the text in it is arbitrary. -/
structure Carries (before docs : Heap Bytes) (job : Job) (document text : Bytes) : Prop where
  len : job.len = text.length
  cap : job.cap = max 32 text.length
  size : document.length = job.cap
  starts : text <+: document
  accesses : before.releases before.next = 0 -> docs.faults = before.faults

theorem jobGet_absent {s : Store} {id : Int} (absent : s.lookup id = none) :
    jobGet s id = (s, none) := by
  unfold Store.lookup at absent
  unfold jobGet
  split at absent
  · rw [if_pos ‹_›, absent]
  · rw [if_neg ‹_›, absent]

/-- A lookup that finds a job makes it the active one, and changes nothing
else. -/
theorem jobGet_found {s : Store} {id : Int} {j : Block} (found : s.lookup id = some j) :
    jobGet s id = ({ s with gActive := some j }, some j) := by
  unfold Store.lookup at found
  unfold jobGet
  split at found
  · rw [if_pos ‹_›, ← found]
  · rw [if_neg ‹_›, found]

/-- The id that a call looks up, which may be the reserved one. -/
def Op.jobId : Op -> Option Int
  | .render id _ => some id
  | .append id _ _ => some id
  | .cancel id => some id
  | .recycle id => some id
  | .dup id _ => some id
  | .submit _ _ _ _ => none
  | .status _ _ => none
  | .flush => none
  | .retire _ => none

/-- What such a call does with the job it has found, so that the lookup is
treated once for all of them. -/
def Op.act (s : Store) (j : Block) : Op -> Store
  | .render _ out =>
      let s := (callFilter s j out).1.touchJob j
      (jobRetire s (s.job j).id).1
  | .append _ arg outcome => (appendTo s j arg outcome).1
  | .cancel _ => s.modifyJob j fun job => { job with state := .cancelled }
  | .recycle _ =>
      let s := Store.touchJob { s with docs := s.docs.releaseAt s.gScratch } j
      { s with gScratch := (s.job j).data }
  | .dup _ grant => (dupOf s j grant).1
  | _ => s

theorem step_absent {s : Store} {op : Op} {id : Int} (handled : op.jobId = some id)
    (absent : s.lookup id = none) : step s op = s := by
  cases op <;> cases handled <;>
    simp only [step, perform, jobRender, jobAppend, jobCancel, jobRecycle, jobDup, jobGet_absent absent]

theorem step_found {s : Store} {op : Op} {id : Int} {j : Block} (handled : op.jobId = some id)
    (found : s.lookup id = some j) : step s op = op.act { s with gActive := some j } j := by
  cases op <;> cases handled <;>
    simp only [step, perform, jobRender, jobAppend, jobCancel, jobRecycle, jobDup, jobGet_found found,
      Op.act]

/-- A `Job` block was allocated and released again before the call failed.
The identity is used up, but nothing else is different. -/
def withdrawn (s : Store) (value : Job) : Store :=
  { s with jobs := (s.jobs.alloc value).release s.jobs.next }

/-- A submit that fails has allocated nothing, or has released what it
allocated.  The four reasons are the checks of the code in their order. -/
theorem jobSubmit_failure {s : Store} {fmt : Int} {filter : Option Filter} {init : Payload}
    {grant : Nat -> Grant}
    (refused : filter = none ∨ firstFree spoolMax s.slots = none ∨ grant 0 = none ∨
      grant 1 = none) :
    (jobSubmit s fmt filter init grant).2 = spoolErr ∧
      ((jobSubmit s fmt filter init grant).1 = s ∨
        exists value, (jobSubmit s fmt filter init grant).1 = withdrawn s value) := by
  cases chosen : filter with
  | none => simp [jobSubmit]
  | some filter =>
      cases slot : firstFree spoolMax s.slots with
      | none => simp [jobSubmit, slot]
      | some id =>
          cases first : grant 0 with
          | none => simp [jobSubmit, slot, first]
          | some residue =>
              cases second : grant 1 with
              | none =>
                  simp only [jobSubmit, slot, first, second]
                  exact ⟨trivial, Or.inr ⟨_, rfl⟩⟩
              | some other => simp [chosen, slot, first, second] at refused

/-- A submit that succeeds enters one new job, with a header block if the
allocator granted one.  The missing header is no failure. -/
theorem jobSubmit_success {s : Store} (fmt : Int) (filter : Filter) (init : Payload)
    {grant : Nat -> Grant} {id : Nat} {first second : Nat -> UInt8}
    (slot : firstFree spoolMax s.slots = some id) (granted : grant 0 = some first)
    (grantedData : grant 1 = some second) :
    exists jobs docs metas job document, Admission s jobs docs id job document ∧
      Carries s.docs docs job document (init.bytes.take encMaxDoc) ∧ job.filter = filter ∧
      ((metas = s.metas ∧ job.metaBuf = none) ∨
        (exists header, s.metas.Extends metas header) ∧ job.metaBuf = some s.metas.next) ∧
      jobSubmit s fmt (some filter) init grant =
        (enterJob { s with jobs := jobs, docs := docs, metas := metas } id s.jobs.next, (id : Int)) := by
  obtain ⟨len, lenEq⟩ : exists len, len =
    if init.bytes.length > encMaxDoc then encMaxDoc else init.bytes.length := ⟨_, rfl⟩
  obtain ⟨cap, capEq⟩ : exists cap, cap = if len < 32 then 32 else len := ⟨_, rfl⟩
  have lenMin : len = min encMaxDoc init.bytes.length := by
    rw [lenEq]
    split <;> omega
  have capMax : cap = max 32 (init.bytes.take encMaxDoc).length := by
    rw [capEq, List.length_take, lenMin]
    split <;> omega
  have sameText : init.bytes.take len = init.bytes.take encMaxDoc := by
    rw [lenMin, ← List.take_take, List.take_length]
  have roomy : (init.bytes.take len).length ≤ cap := by
    rw [capMax, sameText]
    exact Nat.le_max_right _ _
  have starts : init.bytes.take encMaxDoc <+: overwrite (freshBytes cap second) 0 (init.bytes.take len) := by
    rw [← sameText]
    exact starts_fresh roomy second
  have textLen : len = (init.bytes.take encMaxDoc).length := by
    rw [lenMin, List.length_take]
  have size := fresh_overwrite_length cap second 0 (init.bytes.take len)
  have made := Heap.alloc_extends s.jobs { (default : Job) with id := id, fmt, filter, cap }
  have filled := made.modify fun job =>
    { job with data := some s.docs.next, len := len, metaLen := 16 }
  have written := (Heap.alloc_extends s.docs (freshBytes cap second)).write
    0 (init.bytes.take len) (by simpa using roomy)
  cases third : grant 2 with
  | none =>
      refine ⟨_, _, s.metas, _, _, ⟨filled, ⟨s.docs, rfl, rfl, rfl, written⟩, rfl, rfl, rfl⟩,
        ⟨textLen, capMax, size, starts, written.faults⟩, rfl, Or.inl ⟨rfl, rfl⟩, ?_⟩
      simp only [jobSubmit, slot, granted, grantedData, third, ← lenEq, ← capEq]
      rfl
  | some residue =>
      have labelled := filled.modify fun job => { job with metaBuf := some s.metas.next }
      have zeroed := (Heap.alloc_extends s.metas (freshBytes 16 residue)).write
        0 (List.replicate 16 0) (by simp)
      have stamped := zeroed.write 0 [UInt8.ofNat (fmt % 256).toNat] (by simp)
      refine ⟨_, _, _, _, _, ⟨labelled, ⟨s.docs, rfl, rfl, rfl, written⟩, rfl, rfl, rfl⟩,
        ⟨textLen, capMax, size, starts, written.faults⟩, rfl, Or.inr ⟨⟨_, stamped⟩, rfl⟩, ?_⟩
      simp only [jobSubmit, slot, granted, grantedData, third, ← lenEq, ← capEq]
      rfl

/-- A submit changes nothing, withdraws a job, or enters one.  Every invariant
of the table is proved from these three. -/
theorem jobSubmit_cases (s : Store) (fmt : Int) (filter : Option Filter) (init : Payload)
    (grant : Nat -> Grant) :
    jobSubmit s fmt filter init grant = (s, spoolErr) ∨
      (exists value, jobSubmit s fmt filter init grant = (withdrawn s value, spoolErr)) ∨
      exists id jobs docs metas job document, firstFree spoolMax s.slots = some id ∧
        Admission s jobs docs id job document ∧ Carries s.docs docs job document (init.bytes.take encMaxDoc) ∧
        filter = some job.filter ∧
        ((metas = s.metas ∧ job.metaBuf = none) ∨
          (exists header, s.metas.Extends metas header) ∧ job.metaBuf = some s.metas.next) ∧
        jobSubmit s fmt filter init grant =
          (enterJob { s with jobs := jobs, docs := docs, metas := metas } id s.jobs.next, (id : Int)) := by
  by_cases refused : filter = none ∨ firstFree spoolMax s.slots = none ∨ grant 0 = none ∨
      grant 1 = none
  · rcases jobSubmit_failure refused with ⟨failed, same | ⟨value, same⟩⟩
    · exact Or.inl (Prod.ext same failed)
    · exact Or.inr (Or.inl ⟨value, Prod.ext same failed⟩)
  · simp only [not_or, ← ne_eq, Option.ne_none_iff_exists'] at refused
    rcases refused with ⟨⟨filter, rfl⟩, ⟨id, slot⟩, ⟨first, granted⟩, second, grantedData⟩
    rcases jobSubmit_success fmt filter init slot granted grantedData with
        ⟨jobs, docs, metas, job, document, admission, carries, sameFilter, header, result⟩
    exact Or.inr (Or.inr ⟨id, jobs, docs, metas, job, document, slot, admission, carries,
      congrArg some sameFilter.symm, header, result⟩)

theorem dupOf_failure {s : Store} {j : Block} {grant : Nat -> Grant}
    (refused : firstFree spoolMax s.slots = none ∨ grant 0 = none ∨ grant 1 = none) :
    (dupOf s j grant).2 = spoolErr ∧
      ((dupOf s j grant).1 = s ∨
        exists value, (dupOf s j grant).1 = withdrawn (s.touchJob j) value) := by
  cases slot : firstFree spoolMax s.slots with
  | none => simp [dupOf, slot]
  | some id =>
      cases first : grant 0 with
      | none => simp [dupOf, slot, first]
      | some residue =>
          cases second : grant 1 with
          | none =>
              simp only [dupOf, slot, first, second]
              exact ⟨trivial, Or.inr ⟨_, rfl⟩⟩
          | some other => simp [slot, first, second] at refused

/-- The duplicate has its own document buffer and the metadata block of the
original, pointer for pointer. -/
theorem dupOf_success {s : Store} {j : Block} {grant : Nat -> Grant} {id : Nat}
    {first second : Nat -> UInt8} (issued : j < s.jobs.next)
    (slot : firstFree spoolMax s.slots = some id) (granted : grant 0 = some first)
    (grantedData : grant 1 = some second) :
    exists jobs docs job document, Admission (s.touchJob j) jobs docs id job document ∧
      (document.length = job.cap ∧
        ((s.document j).length = (s.job j).len -> s.docs.touchAt (s.job j).data = s.docs ->
          Carries s.docs docs job document (s.document j))) ∧
      job.filter = (s.job j).filter ∧ job.metaBuf = (s.job j).metaBuf ∧
      dupOf s j grant =
        (enterJob { s.touchJob j with jobs := jobs, docs := docs } id (s.touchJob j).jobs.next,
          (id : Int)) := by
  have older : j ≠ (s.jobs.touch j).next := by
    rw [Heap.touch_next]
    exact Nat.ne_of_lt issued
  obtain ⟨cap, capEq⟩ :
    exists cap, cap = if (s.job j).len < 32 then 32 else (s.job j).len := ⟨_, rfl⟩
  obtain ⟨source, sourceEq⟩ : exists source, source =
    if (s.job j).len = 0 then s.docs else s.docs.touchAt (s.job j).data := ⟨_, rfl⟩
  have sameSource : source.next = s.docs.next ∧ source.releases = s.docs.releases ∧
      source.cell = s.docs.cell := by
    rw [sourceEq]
    split <;> simp
  have roomy : (s.document j).length ≤ cap := by
    have short := s.document_short j
    rw [capEq]
    split <;> omega
  have starts := starts_fresh roomy second
  have size := fresh_overwrite_length cap second 0 (s.document j)
  have made := Heap.alloc_extends (s.jobs.touch j)
    { (default : Job) with id := id, fmt := (s.job j).fmt, filter := (s.job j).filter, cap }
  have filled := made.modify fun copy =>
    { copy with data := some s.docs.next, len := (s.job j).len, metaBuf := (s.job j).metaBuf,
                metaLen := (s.job j).metaLen }
  have written : source.Extends
      ((source.alloc (freshBytes cap second)).write s.docs.next 0 (s.document j))
      (overwrite (freshBytes cap second) 0 (s.document j)) := by
    rw [← sameSource.1]
    exact (Heap.alloc_extends source _).write 0 _ (by simpa using roomy)
  have sameDocument : (s.touchJob j).document j = s.document j := by
    simp only [Store.document, Store.touchJob_job]
    rfl
  refine ⟨_, _, _, _, ⟨filled, ⟨source, sameSource.1, sameSource.2.1, sameSource.2.2, written⟩,
    rfl, rfl, rfl⟩, ⟨size, fun whole live => ⟨whole.symm, ?_, size, starts, ?_⟩⟩, rfl, rfl, ?_⟩
  · change cap = max 32 (s.document j).length
    rw [capEq, whole]
    split <;> omega
  · have unchanged : source = s.docs := by
      rw [sourceEq, live, ite_self]
    rw [unchanged] at written
    rw [unchanged]
    exact written.faults
  simp only [dupOf, slot, granted, grantedData, Store.touchJob_job, sameDocument, ← capEq]
  rw [sourceEq]
  rfl

theorem dupOf_cases {s : Store} {j : Block} (issued : j < s.jobs.next) (grant : Nat -> Grant) :
    dupOf s j grant = (s, spoolErr) ∨
      (exists value, dupOf s j grant = (withdrawn (s.touchJob j) value, spoolErr)) ∨
      exists id jobs docs job document, firstFree spoolMax s.slots = some id ∧
        Admission (s.touchJob j) jobs docs id job document ∧
        (document.length = job.cap ∧
          ((s.document j).length = (s.job j).len -> s.docs.touchAt (s.job j).data = s.docs ->
            Carries s.docs docs job document (s.document j))) ∧
        job.filter = (s.job j).filter ∧ job.metaBuf = (s.job j).metaBuf ∧
        dupOf s j grant =
          (enterJob { s.touchJob j with jobs := jobs, docs := docs } id (s.touchJob j).jobs.next,
            (id : Int)) := by
  by_cases refused : firstFree spoolMax s.slots = none ∨ grant 0 = none ∨ grant 1 = none
  · rcases dupOf_failure (j := j) refused with ⟨failed, same | ⟨value, same⟩⟩
    · exact Or.inl (Prod.ext same failed)
    · exact Or.inr (Or.inl ⟨value, Prod.ext same failed⟩)
  · simp only [not_or, ← ne_eq, Option.ne_none_iff_exists'] at refused
    rcases refused with ⟨⟨id, slot⟩, ⟨first, granted⟩, second, grantedData⟩
    rcases dupOf_success issued slot granted grantedData with
        ⟨jobs, docs, job, document, admission, carries, sameFilter, sameMeta, result⟩
    exact Or.inr (Or.inr ⟨id, jobs, docs, job, document, slot, admission, carries, sameFilter,
      sameMeta, result⟩)

/-! ## The job that enters -/

section Admission

variable {s : Store} {pumped : Option Block} {q : List Block} {jobs : Heap Job} {docs : Heap Bytes}
  {id : Nat} {job : Job} {document : Bytes}

/-- A submit or a duplicate enters its new job in this state: it takes its
slot, the tail of the queue and the cache. -/
abbrev admitted (s : Store) (jobs : Heap Job) (docs metas : Heap Bytes) (id : Nat) : Store :=
  enterJob { s with jobs := jobs, docs := docs, metas := metas } id s.jobs.next

theorem admitted_frame (s : Store) (jobs : Heap Job) (docs metas : Heap Bytes) (id : Nat) :
    (admitted s jobs docs metas id).jobs.next = jobs.next ∧
      (admitted s jobs docs metas id).jobs.releases = jobs.releases ∧
      (admitted s jobs docs metas id).docs = docs ∧
      (admitted s jobs docs metas id).metas = metas ∧
      (admitted s jobs docs metas id).gScratch = s.gScratch ∧
      (admitted s jobs docs metas id).renders = s.renders := by
  have frame := enqueue_frame
    { s with
      jobs := jobs, docs := docs, metas := metas, count := s.count + 1
      slots := Function.update s.slots id (some s.jobs.next) }
    s.jobs.next
  exact ⟨frame.next, frame.releases, frame.docs, frame.metas, frame.gScratch, frame.renders⟩

theorem admitted_fields (s : Store) (jobs : Heap Job) (docs metas : Heap Bytes) (id : Nat)
    (k : Block) :
    { (admitted s jobs docs metas id).job k with qnext := none } =
      { jobs.cell k with qnext := none } :=
  (enqueue_frame
    { s with
      jobs := jobs, docs := docs, metas := metas, count := s.count + 1
      slots := Function.update s.slots id (some s.jobs.next) }
    s.jobs.next).fields k

theorem admitted_slots (s : Store) (jobs : Heap Job) (docs metas : Heap Bytes) (id : Nat) :
    (admitted s jobs docs metas id).slots = Function.update s.slots id (some s.jobs.next) :=
  (enqueue_frame
    { s with
      jobs := jobs, docs := docs, metas := metas, count := s.count + 1
      slots := Function.update s.slots id (some s.jobs.next) }
    s.jobs.next).slots

/-- The returned id names the new job, until that job is retired. -/
theorem admitted_slotAt (jobs : Heap Job) (docs metas : Heap Bytes)
    (slot : firstFree spoolMax s.slots = some id) :
    (admitted s jobs docs metas id).slotAt id = some s.jobs.next := by
  have inside := (firstFree_some slot).1
  rw [Store.slotAt, if_neg (by omega), admitted_slots, Int.toNat_natCast, Function.update_self]

theorem admitted_inTable (jobs : Heap Job) (docs metas : Heap Bytes)
    (slot : firstFree spoolMax s.slots = some id) (k : Block) :
    (admitted s jobs docs metas id).InTable k ↔ s.InTable k ∨ k = s.jobs.next := by
  rcases firstFree_some slot with ⟨inside, free⟩
  exact enterJob_inTable (s := { s with jobs := jobs, docs := docs, metas := metas }) inside free _ k

/-- The fields of the older jobs are as they were, except that the last one of
the queue may get a link to the new job. -/
theorem admitted_old (consistent : Consistent s pumped q)
    (admission : Admission s jobs docs id job document) (metas : Heap Bytes) {k : Block}
    (old : s.InTable k) :
    { (admitted s jobs docs metas id).job k with qnext := none } =
      { s.job k with qnext := none } := by
  rw [admitted_fields, admission.jobs.older k (Nat.ne_of_lt (consistent.issued k old))]
  rfl

theorem admitted_new (admission : Admission s jobs docs id job document) (metas : Heap Bytes) :
    { (admitted s jobs docs metas id).job s.jobs.next with qnext := none } =
      { job with qnext := none } := by
  rw [admitted_fields, admission.jobs.fresh]

end Admission

/-- The new job of a submit or a duplication, from the id it returns.  A
negative id stands for a failure. -/
def entered (result : Store × Int) : Option Block :=
  if result.2 < 0 then none else result.1.slotAt result.2

theorem entered_refused {result : Store × Int} (failed : result.2 = spoolErr) : entered result = none := by
  rw [entered, failed, if_pos (by decide)]

theorem entered_admitted {s : Store} {id : Nat} (jobs : Heap Job) (docs metas : Heap Bytes)
    (slot : firstFree spoolMax s.slots = some id) :
    entered (admitted s jobs docs metas id, (id : Int)) = some s.jobs.next := by
  rw [entered, if_neg (by omega)]
  exact admitted_slotAt jobs docs metas slot

/-- A new job is a new block, so it is none of the jobs that were there. -/
theorem entered_jobSubmit {s : Store} {fmt : Int} {filter : Option Filter} {init : Payload}
    {grant : Nat -> Grant} {k : Block} (new : entered (jobSubmit s fmt filter init grant) = some k) :
    k = s.jobs.next := by
  rcases jobSubmit_cases s fmt filter init grant with same | ⟨value, same⟩ |
    ⟨id, jobs, docs, metas, job, document, slot, _, _, _, _, same⟩
  · rw [same, entered_refused rfl] at new
    cases new
  · rw [same, entered_refused rfl] at new
    cases new
  · rw [same, entered_admitted jobs docs metas slot] at new
    exact (Option.some.inj new).symm

theorem entered_dupOf {s : Store} {j k : Block} {grant : Nat -> Grant} (issued : j < s.jobs.next)
    (new : entered (dupOf s j grant) = some k) : k = s.jobs.next := by
  rcases dupOf_cases issued grant with same | ⟨value, same⟩ |
    ⟨id, jobs, docs, job, document, slot, _, _, _, _, result⟩
  · rw [same, entered_refused rfl] at new
    cases new
  · rw [same, entered_refused rfl] at new
    cases new
  · have named : dupOf s j grant = (admitted (s.touchJob j) jobs docs s.metas id, (id : Int)) := result
    have slot_kept : firstFree spoolMax (s.touchJob j).slots = some id := slot
    rw [named, entered_admitted jobs docs s.metas slot_kept] at new
    exact (Option.some.inj new).symm.trans (Heap.touch_next ..)

/-- The job that a call makes, which only submits and duplications do. -/
def Op.created (s : Store) : Op -> Option Block
  | .submit fmt filter init grant => entered (jobSubmit s fmt filter init grant)
  | .dup id grant => entered (jobDup s id grant)
  | .render _ _ => none
  | .append _ _ _ => none
  | .cancel _ => none
  | .recycle _ => none
  | .status _ _ => none
  | .flush => none
  | .retire _ => none

theorem freeJob_docs (s : Store) (j : Block) :
    (freeJob s j).docs = s.docs.releaseAt (s.job j).data := by
  unfold freeJob
  by_cases named : s.gActive = some j <;> simp [named, Store.touchJob, Store.job]

theorem freeJob_metas (s : Store) (j : Block) :
    (freeJob s j).metas = s.metas.releaseAt (s.job j).metaBuf := by
  unfold freeJob
  by_cases named : s.gActive = some j <;> simp [named, Store.touchJob, Store.job]

theorem freeJob_releases (s : Store) (j : Block) :
    (freeJob s j).jobs.releases = (s.jobs.release j).releases := by
  unfold freeJob
  by_cases named : s.gActive = some j <;> simp [named, Store.touchJob, Heap.release]

theorem freeJob_faults {s : Store} {j : Block} (live : s.jobs.Live j) :
    (freeJob s j).jobs.faults = s.jobs.faults := by
  unfold freeJob
  by_cases named : s.gActive = some j <;>
    simp [named, Store.touchJob, Heap.touch_of_live live]

/-- What a retirement does to the documents: it releases the block of the job,
if the job has one, and touches no other. -/
theorem retireHeld_docs (s : Store) (index : Nat) (j : Block) :
    (retireHeld s index j).docs = s.docs.releaseAt (s.job j).data := by
  have frame := unlinkQueue_frame s j
  rw [← frame.docs, ← frame.data]
  exact freeJob_docs _ j

theorem retireHeld_metas (s : Store) (index : Nat) (j : Block) :
    (retireHeld s index j).metas = s.metas.releaseAt (s.job j).metaBuf := by
  have frame := unlinkQueue_frame s j
  rw [← frame.metas, ← frame.metaBuf]
  exact freeJob_metas _ j

theorem retireHeld_releases (s : Store) (index : Nat) (j : Block) :
    (retireHeld s index j).jobs.releases = (s.jobs.release j).releases := by
  have freed := freeJob_releases (unlinkQueue s j) j
  simp only [Heap.release, (unlinkQueue_frame s j).releases] at freed
  exact freed

theorem retireHeld_next (s : Store) (index : Nat) (j : Block) :
    (retireHeld s index j).jobs.next = s.jobs.next :=
  (freeJob_skeleton (unlinkQueue s j) j).next.trans (unlinkQueue_frame s j).next

theorem retireHeld_gScratch (s : Store) (index : Nat) (j : Block) :
    (retireHeld s index j).gScratch = s.gScratch := by
  have freed : (freeJob (unlinkQueue s j) j).gScratch = (unlinkQueue s j).gScratch := by
    unfold freeJob
    by_cases named : (unlinkQueue s j).gActive = some j <;> simp [named, Store.touchJob]
  exact freed.trans (unlinkQueue_frame s j).gScratch

theorem freeJob_renders (s : Store) (j : Block) : (freeJob s j).renders = s.renders := by
  unfold freeJob
  by_cases named : s.gActive = some j <;> simp [named, Store.touchJob]

theorem retireHeld_renders (s : Store) (index : Nat) (j : Block) :
    (retireHeld s index j).renders = s.renders :=
  (freeJob_renders (unlinkQueue s j) j).trans (unlinkQueue_frame s j).renders

theorem retireHeld_fields (s : Store) (index : Nat) (j k : Block) :
    { (retireHeld s index j).job k with qnext := none } = { s.job k with qnext := none } :=
  (congrArg (fun job : Job => { job with qnext := none })
    (freeJob_job (unlinkQueue s j) j k)).trans ((unlinkQueue_frame s j).fields k)

/-! ## Calls that change buffers and one job -/

/-- Nothing but document buffers, the render log and the document fields of
jobs has changed.  So the table, the queue and the metadata are as they
were. -/
structure BufferFrame (s s' : Store) : Prop extends SameSkeleton s s' where
  metas : s'.metas = s.metas
  gScratch : s'.gScratch = s.gScratch
  metaBufs : forall j, (s'.job j).metaBuf = (s.job j).metaBuf
  filters : forall j, (s'.job j).filter = (s.job j).filter

namespace BufferFrame

theorem touchJob (s : Store) (j : Block) : BufferFrame s (s.touchJob j) :=
  ⟨.touchJob s j, rfl, rfl, fun _ => congrArg Job.metaBuf (s.touchJob_job ..),
    fun _ => congrArg Job.filter (s.touchJob_job ..)⟩

variable {s s' : Store}

theorem documents (frame : BufferFrame s s') (docs : Heap Bytes) (renders : List Render) :
    BufferFrame s { s' with docs := docs, renders := renders } :=
  ⟨frame.toSameSkeleton.buffers docs s'.metas s'.gScratch renders, frame.metas, frame.gScratch,
    frame.metaBufs, frame.filters⟩

/-- New values for the document fields of a job stay within the frame. -/
theorem setDocument (frame : BufferFrame s s') (j : Block) (data : Job -> Option Block)
    (cap : Job -> Nat) (len : Nat) :
    BufferFrame s (s'.modifyJob j fun job => { job with data := data job, cap := cap job, len }) where
  toSameSkeleton := frame.toSameSkeleton.trans
    (.modifyJob s' j _ (fun _ => rfl) fun _ => rfl)
  metas := frame.metas
  gScratch := frame.gScratch
  metaBufs := fun k => (Store.modifyJob_field Job.metaBuf rfl k).trans (frame.metaBufs k)
  filters := fun k => (Store.modifyJob_field Job.filter rfl k).trans (frame.filters k)

end BufferFrame

theorem callFilter_frame (s : Store) (j : Block) (out : Bytes) :
    BufferFrame s (callFilter s j out).1 :=
  (BufferFrame.touchJob s j).documents _ _

/-- Only the text filter releases the document.  The others borrow it, as the
contract of the filters has it for all. -/
theorem callFilter_docs (s : Store) (j : Block) (out : Bytes) :
    (callFilter s j out).1.docs.next = s.docs.next ∧
      (callFilter s j out).1.docs.releases =
        if (s.job j).filter.consumes then (s.docs.releaseAt (s.job j).data).releases
        else s.docs.releases := by
  obtain ⟨read, readEq⟩ : exists read, read =
    if (s.job j).filter.bytesRead (s.job j).len out.length = 0 then s.docs
    else s.docs.touchAt (s.job j).data := ⟨_, rfl⟩
  have same : read.next = s.docs.next ∧ read.releases = s.docs.releases := by
    rw [readEq]
    split <;> simp
  unfold callFilter
  dsimp only
  rw [← readEq]
  by_cases consumed : (s.job j).filter.consumes
  · simp only [if_pos consumed, Heap.releaseAt_next]
    exact ⟨same.1, Heap.releaseAt_releases_congr same.2 _⟩
  · simp only [if_neg consumed]
    exact same

/-- A filter that borrows leaves a live document as it is, and the heap with
it. -/
theorem callFilter_borrows {s : Store} {j data : Block} (borrowing : (s.job j).filter.consumes = false)
    (owned : (s.job j).data = some data) (live : s.docs.Live data) (out : Bytes) :
    (callFilter s j out).1.docs = s.docs := by
  unfold callFilter
  simp only [borrowing, owned, Heap.touchAt, Heap.touch_of_live live, ite_self, Bool.false_eq_true,
    if_false]

/-- A filter may release the document, but it does not write to it. -/
theorem callFilter_cell (s : Store) (j : Block) (out : Bytes) :
    (callFilter s j out).1.docs.cell = s.docs.cell := by
  unfold callFilter
  dsimp only
  split <;> split <;> simp

/-- The status reads the active job, or no job.  A property that such a read
keeps is kept by the status. -/
theorem jobStatus_keeps {P : Store -> Prop} {s : Store} (verbose : Bool) (out : Bytes) (kept : P s)
    (read : forall j, s.gActive = some j -> P (s.touchJob j)) : P (jobStatus s verbose out).1 := by
  rw [jobStatus]
  cases named : s.gActive with
  | none => exact kept
  | some j =>
      dsimp only
      split
      · exact read j named
      · exact kept

/-- What an append that needs so many bytes can come to: it is refused, it
gets no memory, it writes into the buffer at hand, or it writes into the grown
one. -/
inductive Appended (s : Store) (j : Block) (arg : Payload) (outcome : Realloc) (need : Nat) : Store × Int -> Prop where
  | refused (limit : arg.bytes.length > encMaxDoc ∨ need > encMaxDoc) :
      Appended s j arg outcome need (s.touchJob j, spoolErr)
  | exhausted (within : ¬ (arg.bytes.length > encMaxDoc ∨ need > encMaxDoc)) (grows : need > (s.job j).cap)
      (failed : s.docs.realloc (s.job j).data need outcome = (s.docs, none)) :
      Appended s j arg outcome need (s.touchJob j, spoolErr)
  | written (within : ¬ (arg.bytes.length > encMaxDoc ∨ need > encMaxDoc)) (room : ¬ need > (s.job j).cap) :
      Appended s j arg outcome need
        (Store.modifyJob { s.touchJob j with docs := s.docs.writeAt (s.job j).data (s.job j).len arg.bytes } j
          fun job => { job with len := need }, spoolOk)
  | grown {docs : Heap Bytes} {grown : Block} (within : ¬ (arg.bytes.length > encMaxDoc ∨ need > encMaxDoc))
      (grows : need > (s.job j).cap) (result : s.docs.realloc (s.job j).data need outcome = (docs, some grown)) :
      Appended s j arg outcome need
        (Store.modifyJob
          { s.touchJob j with
            docs :=
              let copied := docs.writeAt (some grown) (s.job j).len arg.bytes
              if some grown ≠ (s.job j).data then copied.releaseAt (s.job j).data else copied } j
          fun job => { job with data := some grown, cap := need, len := need }, spoolOk)

theorem appendTo_appended (s : Store) (j : Block) (arg : Payload) (outcome : Realloc) :
    Appended s j arg outcome (((s.job j).len + arg.bytes.length) % 2 ^ 32) (appendTo s j arg outcome) := by
  obtain ⟨need, needEq⟩ : exists need, need = ((s.job j).len + arg.bytes.length) % 2 ^ 32 := ⟨_, rfl⟩
  unfold appendTo
  dsimp only
  rw [Store.touchJob_job, ← needEq]
  by_cases limit : arg.bytes.length > encMaxDoc ∨ need > encMaxDoc
  · rw [if_pos limit]
    exact .refused limit
  · rw [if_neg limit]
    by_cases grows : need > (s.job j).cap
    · rw [if_pos grows]
      rcases result : s.docs.realloc (s.job j).data need outcome with ⟨docs, _ | grown⟩
      · have unchanged := Heap.realloc_none result
        subst unchanged
        have same : (s.touchJob j).docs.realloc (s.job j).data need outcome = (s.docs, none) := result
        rw [same]
        exact .exhausted limit grows result
      · have same : (s.touchJob j).docs.realloc (s.job j).data need outcome = (docs, some grown) := result
        rw [same]
        have appended := Appended.grown limit grows result
        dsimp only at appended ⊢
        by_cases moved : some grown ≠ (s.job j).data
        · rw [if_pos moved] at appended ⊢
          exact appended
        · rw [if_neg moved] at appended ⊢
          exact appended
    · rw [if_neg grows]
      exact .written limit grows

theorem appendTo_frame (s : Store) (j : Block) (arg : Payload) (outcome : Realloc) :
    BufferFrame s (appendTo s j arg outcome).1 := by
  have touched := BufferFrame.touchJob s j
  have appended := appendTo_appended s j arg outcome
  generalize appendTo s j arg outcome = after at appended ⊢
  cases appended with
  | refused _ => exact touched
  | exhausted _ _ _ => exact touched
  | written _ _ => exact (touched.documents _ _).setDocument j Job.data Job.cap _
  | grown _ _ _ => exact (touched.documents _ _).setDocument j (fun _ => some _) (fun _ => _) _

/-- An append changes no other field than those of the document, and calls no
filter. -/
theorem appendTo_field {Value : Type} (field : Job -> Value)
    (keeps : forall (job : Job) data cap len, field { job with data, cap, len } = field job)
    (s : Store) (j : Block) (arg : Payload) (outcome : Realloc) (k : Block) :
    field ((appendTo s j arg outcome).1.job k) = field (s.job k) ∧
      (appendTo s j arg outcome).1.renders = s.renders := by
  have touched : field ((s.touchJob j).job k) = field (s.job k) :=
    congrArg field (s.touchJob_job j k)
  have appended := appendTo_appended s j arg outcome
  generalize appendTo s j arg outcome = after at appended ⊢
  cases appended with
  | refused _ => exact ⟨touched, rfl⟩
  | exhausted _ _ _ => exact ⟨touched, rfl⟩
  | written _ _ => exact ⟨(Store.modifyJob_field field (keeps _ _ _ _) k).trans touched, rfl⟩
  | grown _ _ _ => exact ⟨(Store.modifyJob_field field (keeps _ _ _ _) k).trans touched, rfl⟩

/-- The append outgrows its buffer and the allocator moves the buffer.  The
need is formed in 32 bits, and both limits have been passed. -/
def Relocates (s : Store) (j : Block) (arg : Payload) (outcome : Realloc) : Prop :=
  let need := ((s.job j).len + arg.bytes.length) % 2 ^ 32
  arg.bytes.length ≤ encMaxDoc ∧ need ≤ encMaxDoc ∧ need > (s.job j).cap ∧ outcome.relocates

instance (s : Store) (j : Block) (arg : Payload) (outcome : Realloc) :
    Decidable (Relocates s j arg outcome) :=
  inferInstanceAs (Decidable (_ ∧ _ ∧ _ ∧ _))

/-- Unless the buffer moves, every job keeps its buffer and nothing is
released. -/
theorem appendTo_stays {s : Store} {j old : Block} {arg : Payload} {outcome : Realloc}
    (buffer : (s.job j).data = some old) (stays : ¬ Relocates s j arg outcome) :
    (appendTo s j arg outcome).1.docs.next = s.docs.next ∧
      (appendTo s j arg outcome).1.docs.releases = s.docs.releases ∧
      forall k, ((appendTo s j arg outcome).1.job k).data = (s.job k).data := by
  have same : forall k, ((s.touchJob j).job k).data = (s.job k).data :=
    fun k => congrArg Job.data (s.touchJob_job j k)
  have appended := appendTo_appended s j arg outcome
  generalize appendTo s j arg outcome = after at appended ⊢
  cases appended with
  | refused _ => exact ⟨rfl, rfl, same⟩
  | exhausted _ _ _ => exact ⟨rfl, rfl, same⟩
  | written _ _ =>
      exact ⟨Heap.writeAt_next .., Heap.writeAt_releases ..,
        fun k => (Store.modifyJob_field Job.data rfl k).trans (same k)⟩
  | grown within grows result =>
      rw [buffer] at result
      cases outcome with
      | fails => cases result
      | inPlace residue =>
          cases result
          dsimp only
          rw [if_neg (not_not.mpr buffer.symm)]
          refine ⟨?_, ?_, fun k => (Store.modifyJob_field Job.data ?_ k).trans (same k)⟩
          · exact (Heap.writeAt_next ..).trans (Heap.modify_next ..)
          · exact (Heap.writeAt_releases ..).trans (Heap.modify_releases ..)
          · exact buffer.symm.trans (same j).symm
      | moves residue =>
          rw [not_or, Nat.not_lt, Nat.not_lt] at within
          exact absurd ⟨within.1, within.2, grows, rfl⟩ stays

/-- A buffer that moves is released by the allocator and once more by the
append, so it has two releases more than before. -/
theorem appendTo_relocates {s : Store} {j old : Block} {arg : Payload} {outcome : Realloc}
    (buffer : (s.job j).data = some old) (issued : old < s.docs.next)
    (moves : Relocates s j arg outcome) :
    (appendTo s j arg outcome).1.docs.releases old = s.docs.releases old + 2 := by
  rcases moves with ⟨short, allowed, grows, relocates⟩
  have appended := appendTo_appended s j arg outcome
  generalize appendTo s j arg outcome = after at appended ⊢
  cases appended with
  | refused limit =>
      rcases limit with long | long
      · exact absurd short (Nat.not_le.mpr long)
      · exact absurd allowed (Nat.not_le.mpr long)
  | exhausted _ _ failed =>
      rw [buffer] at failed
      cases outcome with
      | fails => cases relocates
      | inPlace residue => cases relocates
      | moves residue => cases (Prod.mk.inj failed).2
  | written _ room => exact absurd grows room
  | grown _ _ result =>
      rw [buffer] at result
      cases outcome with
      | fails => cases relocates
      | inPlace residue => cases relocates
      | moves residue =>
          cases result
          have different : some s.docs.next ≠ (s.job j).data := by
            intro same
            exact Nat.ne_of_gt issued (Option.some.inj (same.trans buffer))
          dsimp only
          rw [if_pos different, buffer]
          simp only [Store.modifyJob, Heap.releaseAt, Heap.release_releases_self, Heap.writeAt_releases,
            Heap.alloc_releases, Heap.touch_releases]

end Encore
end BugMuseum
