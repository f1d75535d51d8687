import BugMuseum.Encore.ActiveJob

namespace BugMuseum
namespace Encore

open Foundation

/-!
# The document that a filter receives

A history is kept here beside the store: for each job, the text that its submit
or its duplication gave it, followed by what the appends that succeeded have
added.  It is computed from the calls and their results alone, and the document
buffers are compared with it.

A buffer may be released again when nobody owns it any more, by the append that
moved it or by the pump.  What matters is that the buffer of a job of the table
is live, is the buffer of no other job, and starts with the text of its job.
-/

/-- Every call but a recycle, with the filters that borrow the document.  A
filter that consumes it and a recycle both leave a job with a released
buffer. -/
def Op.borrowing : Op -> Prop
  | .submit _ filter _ _ => forall chosen, filter = some chosen -> chosen.consumes = false
  | .recycle _ => False
  | .render _ _ => True
  | .append _ _ _ => True
  | .cancel _ => True
  | .dup _ _ => True
  | .status _ _ => True
  | .flush => True
  | .retire _ => True

/-- The texts of the jobs after a call in the store `s`.  Only the arguments
and the results of the call are used, never a buffer. -/
def Op.texts (s : Store) (texts : Block -> Bytes) : Op -> Block -> Bytes
  | .submit fmt filter init grant =>
      (entered (jobSubmit s fmt filter init grant)).elim texts fun j =>
        Function.update texts j (init.bytes.take encMaxDoc)
  | .append id arg outcome =>
      (s.lookup id).elim texts fun j =>
        if (jobAppend s id arg outcome).2 = spoolOk then
          Function.update texts j (texts j ++ arg.bytes)
        else texts
  | .dup id grant =>
      (s.lookup id).elim texts fun j =>
        (entered (jobDup s id grant)).elim texts fun copy => Function.update texts copy (texts j)
  | _ => texts

/-- The store with the texts of its jobs. -/
abbrev Archived := Store × (Block -> Bytes)

def archive (history : Archived) (op : Op) : Archived :=
  (step history.1 op, op.texts history.1 history.2)

/-- Every filter was handed the text of its job, and the documents of the
table are the texts of their jobs, within their buffers, with sums of lengths
that do not wrap, and with no access out of place. -/
structure DocumentsExact (history : Archived) : Prop where
  rendered : forall r, r ∈ history.1.renders -> r.document = history.2 r.job
  documents : forall j, history.1.InTable j ->
    history.1.document j = history.2 j ∧ (history.1.document j).length = (history.1.job j).len
  bounds : forall j, history.1.InTable j ->
    (history.1.job j).len ≤ (history.1.job j).cap ∧ 32 ≤ (history.1.job j).cap ∧
      (history.1.job j).cap ≤ encMaxDoc
  sums : forall j (arg : Payload) outcome, history.1.InTable j ->
    appendTo history.1 j arg outcome = (history.1.touchJob j, spoolErr) ∨
      ((history.1.job j).len + arg.bytes.length) % 2 ^ 32 = (history.1.job j).len + arg.bytes.length
  others : forall op j, op.borrowing -> history.1.InTable j -> (step history.1 op).InTable j ->
    (forall id arg outcome, op = .append id arg outcome -> history.1.lookup id ≠ some j) ->
    (step history.1 op).document j = history.1.document j
  accesses : history.1.docs.faults = []

/-- What a job says about its document: the buffer, the length, the capacity
and the filter. -/
def Job.sheet (job : Job) : Option Block × Nat × Nat × Filter :=
  (job.data, job.len, job.cap, job.filter)

theorem sheet_of_fields {left right : Job}
    (same : { left with qnext := none } = { right with qnext := none }) : left.sheet = right.sheet := by
  change Job.sheet { left with qnext := none } = Job.sheet { right with qnext := none }
  rw [same]

/-- The buffer of the job starts with the text, and has the size that the job
records, between 32 bytes and the limit. -/
structure Fair (docs : Heap Bytes) (job : Job) (text : Bytes) : Prop where
  buffer : exists data, job.data = some data ∧ (docs.cell data).length = job.cap ∧
    text <+: docs.cell data
  len : job.len = text.length
  roomy : 32 ≤ job.cap
  bounded : job.cap ≤ encMaxDoc
  borrowing : job.filter.consumes = false

namespace Fair

variable {docs docs' : Heap Bytes} {job job' : Job} {text : Bytes}

theorem transfer (fair : Fair docs job text) (sheet : job'.sheet = job.sheet)
    (cells : forall data, job.data = some data -> docs'.cell data = docs.cell data) :
    Fair docs' job' text := by
  simp only [Job.sheet, Prod.mk.injEq] at sheet
  rcases sheet with ⟨sameData, sameLen, sameCap, sameFilter⟩
  rcases fair.buffer with ⟨data, owned, size, starts⟩
  constructor
  · refine ⟨data, sameData.trans owned, ?_, ?_⟩
    · rw [cells data owned, sameCap]
      exact size
    · rw [cells data owned]
      exact starts
  · exact sameLen.trans fair.len
  · exact sameCap ▸ fair.roomy
  · exact sameCap ▸ fair.bounded
  · exact sameFilter ▸ fair.borrowing

theorem short (fair : Fair docs job text) : text.length ≤ job.cap := by
  rcases fair.buffer with ⟨data, _, size, starts⟩
  exact size ▸ starts.length_le

end Fair

theorem Fair.document {s : Store} {j : Block} {text : Bytes} (fair : Fair s.docs (s.job j) text) :
    s.document j = text := by
  rcases fair.buffer with ⟨data, owned, _, starts⟩
  rw [Store.document, owned, fair.len]
  exact (List.prefix_iff_eq_take.mp starts).symm

/-- The buffer holds the value, in its old place or in a new block.  In the
second case the old block was released, however often. -/
def Regrown (docs docs' : Heap Bytes) (old grown : Block) (value : Bytes) : Prop :=
  (grown = old ∧ docs.Rewritten docs' old value) ∨ (grown = docs.next ∧ docs.Moved docs' old value)

/-- A buffer that is not replaced keeps its place and its size, so only the
length of the job is new. -/
theorem sameBuffer {job : Job} {data : Option Block} {cap : Nat} (sameData : job.data = data)
    (sameCap : job.cap = cap) (len : Nat) :
    { job with len := len } = { job with data := data, cap := cap, len := len } := by
  rw [← sameData, ← sameCap]

/-- The bytes stand behind the text in a buffer that has grown for them. -/
theorem starts_grown {content text bytes : Bytes} (starts : text <+: content) (need : Nat)
    (residue : Nat -> UInt8) (room : text.length + bytes.length ≤ need) :
    text ++ bytes <+: overwrite (resize content need residue) text.length bytes := by
  have before : text.length ≤ need := Nat.le_trans (Nat.le_add_right _ _) room
  exact starts_overwrite (starts_resize starts before residue) (by rwa [resize_length])

theorem grown_length (content bytes : Bytes) (need : Nat) (residue : Nat -> UInt8) (offset : Nat) :
    (overwrite (resize content need residue) offset bytes).length = need := by
  rw [overwrite_length, resize_length]

/-- The buffer has grown in its place, and the bytes are copied behind the
text. -/
theorem resized_regrown {docs : Heap Bytes} {old : Block} {text : Bytes} (live : docs.Live old)
    (need : Nat) (residue : Nat -> UInt8) (bytes : Bytes) (room : text.length + bytes.length ≤ need) :
    Regrown docs ((docs.modify old fun old => resize old need residue).write old text.length bytes)
      old old (overwrite (resize (docs.cell old) need residue) text.length bytes) := by
  have resized := Heap.modify_rewritten live fun old => resize old need residue
  have fits : text.length + bytes.length ≤
      ((docs.modify old fun old => resize old need residue).cell old).length := by
    rwa [resized.here, resize_length]
  have copied := Heap.write_rewritten ((resized.live old).mpr live) fits
  rw [resized.here] at copied
  exact Or.inl ⟨rfl, resized.trans copied⟩

/-- The buffer has moved, the bytes are copied behind the text, and the append
releases the old block, as the allocator did. -/
theorem moved_regrown {docs : Heap Bytes} {old : Block} {text : Bytes} (live : docs.Live old)
    (unused : docs.releases docs.next = 0) (need : Nat) (residue : Nat -> UInt8) (bytes : Bytes)
    (room : text.length + bytes.length ≤ need) :
    Regrown docs
      (((((docs.touch old).alloc (resize (docs.cell old) need residue)).release old).write docs.next
        text.length bytes).release old) old docs.next
      (overwrite (resize (docs.cell old) need residue) text.length bytes) := by
  have different : docs.next ≠ old := Nat.ne_of_gt live.1
  rw [Heap.touch_of_live live]
  obtain ⟨grown, grownEq⟩ : exists grown, grown =
    (docs.alloc (resize (docs.cell old) need residue)).release old := ⟨_, rfl⟩
  have fresh : grown.cell docs.next = resize (docs.cell old) need residue := by
    rw [grownEq]
    exact Heap.alloc_cell_next ..
  have liveNew : grown.Live docs.next := by
    rw [grownEq]
    exact ⟨Nat.lt_succ_self _, (Heap.release_releases_of_ne _ different).trans unused⟩
  have fits : text.length + bytes.length ≤ (grown.cell docs.next).length := by
    rwa [fresh, resize_length]
  have written := Heap.write_rewritten liveNew fits
  rw [fresh] at written
  rw [← grownEq]
  refine Or.inr ⟨rfl, ⟨?_, fun block other => ?_, written.here, fun block other => ?_, ?_⟩⟩
  · rw [Heap.release_next, written.next, grownEq]
    rfl
  · rw [Heap.release_releases_of_ne _ other, written.releases, grownEq]
    exact Heap.release_releases_of_ne _ other
  · rw [Heap.release_cell, written.others block other, grownEq]
    exact Heap.alloc_cell_of_ne docs _ other
  · rw [Heap.release_faults, written.faults, grownEq]
    rfl

/-- An append is refused, or the text grows by its bytes.  In the second case
the sum of the lengths is a sum, as the limit keeps it far below the word. -/
theorem appendTo_outcome {s : Store} {j old : Block} {text : Bytes} (arg : Payload) (outcome : Realloc)
    (owned : (s.job j).data = some old) (live : s.docs.Live old)
    (unused : s.docs.releases s.docs.next = 0) (fair : Fair s.docs (s.job j) text) :
    appendTo s j arg outcome = (s.touchJob j, spoolErr) ∨
      ((s.job j).len + arg.bytes.length) % 2 ^ 32 = (s.job j).len + arg.bytes.length ∧
      exists docs grown cap value, Regrown s.docs docs old grown value ∧
        text ++ arg.bytes <+: value ∧ value.length = cap ∧ 32 ≤ cap ∧ cap ≤ encMaxDoc ∧
        appendTo s j arg outcome =
          (Store.modifyJob { s.touchJob j with docs := docs } j fun job =>
            { job with data := some grown, cap := cap, len := (text ++ arg.bytes).length }, spoolOk) := by
  have size : (s.docs.cell old).length = (s.job j).cap ∧ text <+: s.docs.cell old := by
    rcases fair.buffer with ⟨data, same, size, starts⟩
    rw [owned] at same
    cases same
    exact ⟨size, starts⟩
  have short := fair.short
  have bounded := fair.bounded
  have roomy := fair.roomy
  have sum : (s.job j).len + arg.bytes.length = (text ++ arg.bytes).length := by
    rw [fair.len, List.length_append]
  have appended := appendTo_appended s j arg outcome
  generalize appendTo s j arg outcome = after at appended ⊢
  obtain ⟨need, needEq⟩ : exists need, need = ((s.job j).len + arg.bytes.length) % 2 ^ 32 := ⟨_, rfl⟩
  rw [← needEq] at appended ⊢
  have exactNeed : ¬ (arg.bytes.length > encMaxDoc ∨ need > encMaxDoc) -> need = (text ++ arg.bytes).length := by
    intro within
    rw [needEq, sum, List.length_append, Nat.mod_eq_of_lt]
    rw [encMaxDoc] at bounded within
    omega
  cases appended with
  | refused _ => exact Or.inl rfl
  | exhausted _ _ _ => exact Or.inl rfl
  | written within room =>
      have exactLength := exactNeed within
      have fits : text.length + arg.bytes.length ≤ (s.docs.cell old).length := by
        rw [size.1, ← List.length_append, ← exactLength]
        exact Nat.le_of_not_gt room
      refine Or.inr ⟨exactLength.trans sum.symm, s.docs.write old text.length arg.bytes, old, (s.job j).cap,
        overwrite (s.docs.cell old) text.length arg.bytes, ?_, ?_, ?_, roomy, bounded, ?_⟩
      · exact Or.inl ⟨rfl, Heap.write_rewritten live fits⟩
      · exact starts_overwrite size.2 fits
      · rw [overwrite_length, size.1]
      · rw [owned, fair.len, exactLength]
        have same := s.touchJob_job j j
        refine Prod.ext (Store.modifyJob_congr ?_) rfl
        exact sameBuffer ((congrArg Job.data same).trans owned) (congrArg Job.cap same) _
  | grown within grows result =>
      have exactLength := exactNeed within
      have room : text.length + arg.bytes.length ≤ need := by
        rw [exactLength, List.length_append]
      have accepted : 32 ≤ need ∧ need ≤ encMaxDoc := by omega
      rw [owned] at result
      cases outcome with
      | fails => cases result
      | inPlace residue =>
          cases result
          refine Or.inr ⟨exactLength.trans sum.symm, _, old, need, _,
            resized_regrown live need residue arg.bytes room, starts_grown size.2 need residue room,
            grown_length _ _ need residue _, accepted.1, accepted.2, ?_⟩
          dsimp only
          rw [if_neg (not_not.mpr owned.symm), fair.len, ← exactLength]
          rfl
      | moves residue =>
          cases result
          have different : some s.docs.next ≠ (s.job j).data := by
            intro same
            exact Nat.ne_of_gt live.1 (Option.some.inj (same.trans owned))
          refine Or.inr ⟨exactLength.trans sum.symm, _, s.docs.next, need, _,
            moved_regrown live unused need residue arg.bytes room, starts_grown size.2 need residue room,
            grown_length _ _ need residue _, accepted.1, accepted.2, ?_⟩
          dsimp only
          rw [if_pos different, owned, fair.len, ← exactLength]
          rfl

/-! ## The invariant -/

/-- The buffers hold the texts.  A job that is being printed is still in the
table, and it is the only one of the table whose filter has been called. -/
structure Filed (s : Store) (texts : Block -> Bytes) (printing : Option Block) : Prop where
  apart : Separate s.docs s.InTable fun j => (s.job j).data
  fair : forall j, s.InTable j -> Fair s.docs (s.job j) (texts j)
  rendered : forall r, r ∈ s.renders -> r.document = texts r.job ∧ r.job < s.jobs.next ∧
    (s.InTable r.job -> printing = some r.job)
  accesses : s.docs.faults = []

/-- A change of the store that no document notices: it may relink the queue,
change states and take jobs out of the table. -/
structure SameDocuments (s s' : Store) : Prop where
  next : s.jobs.next ≤ s'.jobs.next
  inTable : forall j, s'.InTable j -> s.InTable j
  sheets : forall j, s.InTable j -> (s'.job j).sheet = (s.job j).sheet
  docs : s'.docs = s.docs
  renders : s'.renders = s.renders

/-- A job leaves the table and its buffer is released, however often.  No
other buffer is released or written. -/
structure Vacates (s s' : Store) (j : Block) : Prop where
  next : s.jobs.next ≤ s'.jobs.next
  inTable : forall k, s'.InTable k -> s.InTable k ∧ k ≠ j
  sheets : forall k, (s'.job k).sheet = (s.job k).sheet
  docsNext : s'.docs.next = s.docs.next
  releases : forall data, (s.job j).data ≠ some data -> s'.docs.releases data = s.docs.releases data
  cells : s'.docs.cell = s.docs.cell
  faults : s'.docs.faults = s.docs.faults
  renders : s'.renders = s.renders

/-- A job gets another buffer, or more text in its buffer, and all other jobs
are as they were. -/
structure Replaces (s s' : Store) (j : Block) (docs : Heap Bytes) (grown : Block) (cap len : Nat) :
    Prop where
  next : s'.jobs.next = s.jobs.next
  inTable : forall k, s'.InTable k ↔ s.InTable k
  here : (s'.job j).sheet = (some grown, len, cap, (s.job j).filter)
  others : forall k, k ≠ j -> (s'.job k).sheet = (s.job k).sheet
  docs : s'.docs = docs
  renders : s'.renders = s.renders

theorem Replaces.modifyJob (s : Store) (j : Block) (docs : Heap Bytes) (grown : Block) (cap len : Nat) :
    Replaces s (Store.modifyJob { s.touchJob j with docs := docs } j fun job =>
      { job with data := some grown, cap := cap, len := len }) j docs grown cap len where
  next := (Heap.modify_next ..).trans (Heap.touch_next ..)
  inTable := fun _ => Iff.rfl
  here := by
    rw [Store.modifyJob_job_self]
    change (some grown, len, cap, ((s.touchJob j).job j).filter) = _
    rw [s.touchJob_job]
  others := fun k different => by
    rw [Store.modifyJob_job_of_ne _ _ different]
    exact congrArg Job.sheet (s.touchJob_job j k)
  docs := rfl
  renders := rfl

theorem LinkFrame.sameDocuments {s s' : Store} (frame : LinkFrame s s') : SameDocuments s s' where
  next := Nat.le_of_eq frame.next.symm
  inTable := fun j => by
    rw [Store.InTable, frame.slots]
    exact fun inTable => inTable
  sheets := fun j _ => sheet_of_fields (frame.fields j)
  docs := frame.docs
  renders := frame.renders

namespace SameDocuments

theorem touchJob (s : Store) (j : Block) : SameDocuments s (s.touchJob j) :=
  (LinkFrame.touchJob s j).sameDocuments

theorem setState (s : Store) (j : Block) (state : JobState) :
    SameDocuments s (s.modifyJob j fun job => { job with state }) where
  next := Nat.le_of_eq (Heap.modify_next ..).symm
  inTable := fun _ inTable => inTable
  sheets := fun k _ => Store.modifyJob_field Job.sheet rfl k
  docs := rfl
  renders := rfl

theorem setActive (s : Store) (active : Option Block) :
    SameDocuments s { s with gActive := active } :=
  ⟨Nat.le_refl _, fun _ inTable => inTable, fun _ _ => rfl, rfl, rfl⟩

theorem withdrawn {s : Store} {pumped : Option Block} {q : List Block}
    (consistent : Consistent s pumped q) (value : Job) : SameDocuments s (withdrawn s value) where
  next := Nat.le_succ _
  inTable := fun _ inTable => inTable
  sheets := fun j inTable =>
    congrArg Job.sheet (Heap.alloc_cell_of_ne _ _ (Nat.ne_of_lt (consistent.issued j inTable)))
  docs := rfl
  renders := rfl

end SameDocuments

namespace Vacates

variable {s : Store} {pumped : Option Block} {q : List Block}

theorem retireHeld (consistent : Consistent s pumped q) {index : Nat} {j : Block}
    (holds : s.slots index = some j) : Vacates s (retireHeld s index j) j where
  next := Nat.le_of_eq (retireHeld_next s index j).symm
  inTable := fun k => (consistent.retireHeld_inTable holds k).mp
  sheets := fun k => sheet_of_fields (retireHeld_fields s index j k)
  docsNext := by rw [retireHeld_docs, Heap.releaseAt_next]
  releases := fun data different => by
    rw [retireHeld_docs, Heap.releaseAt_releases_of_ne _ different]
  cells := by rw [retireHeld_docs, Heap.releaseAt_cell]
  faults := by rw [retireHeld_docs, Heap.releaseAt_faults]
  renders := retireHeld_renders s index j

/-- The pump releases a cancelled job before the retirement does, which is
twice in all, but the job leaves. -/
theorem discard {j : Block} (consistent : Consistent s pumped q) (inTable : s.InTable j) :
    Vacates s (jobRetire (freeJob s j) (s.job j).id).1 j := by
  have frame := freeJob_skeleton s j
  have still : (freeJob s j).InTable j := (frame.inTable_iff j).mpr inTable
  have sameJob := freeJob_job s j
  have docs := freeJob_docs s j
  rcases (consistent.freeJob j).jobRetire_named still with ⟨index, holds, result⟩
  rw [sameJob] at result
  have vacated := retireHeld (consistent.freeJob j) holds
  rw [result]
  constructor
  · exact Nat.le_trans (Nat.le_of_eq frame.next.symm) vacated.next
  · intro k stays
    rcases vacated.inTable k stays with ⟨before, different⟩
    exact ⟨(frame.inTable_iff k).mp before, different⟩
  · exact fun k => (vacated.sheets k).trans (congrArg Job.sheet (sameJob k))
  · rw [vacated.docsNext, docs, Heap.releaseAt_next]
  · intro data different
    rw [vacated.releases data (by rwa [sameJob]), docs, Heap.releaseAt_releases_of_ne _ different]
  · rw [vacated.cells, docs, Heap.releaseAt_cell]
  · rw [vacated.faults, docs, Heap.releaseAt_faults]
  · rw [vacated.renders, freeJob_renders]

end Vacates

namespace Filed

variable {s s' : Store} {texts : Block -> Bytes} {printing : Option Block} {pumped : Option Block}
  {q : List Block}

theorem transfer (filed : Filed s texts printing) (same : SameDocuments s s') :
    Filed s' texts printing where
  apart := by
    rw [same.docs]
    refine filed.apart.transfer rfl rfl same.inTable fun j held => ?_
    exact congrArg Prod.fst (same.sheets j (same.inTable j held))
  fair := fun j held => by
    have before := same.inTable j held
    refine (filed.fair j before).transfer (same.sheets j before) fun data _ => ?_
    rw [same.docs]
  rendered := fun r member => by
    rw [same.renders] at member
    rcases filed.rendered r member with ⟨text, issued, held⟩
    exact ⟨text, Nat.lt_of_lt_of_le issued same.next, fun stays => held (same.inTable r.job stays)⟩
  accesses := by
    rw [same.docs]
    exact filed.accesses

/-- The printed job leaves, or any other job, and the texts of the others
stand. -/
theorem vacate (filed : Filed s texts printing) {j : Block} (inTable : s.InTable j)
    (only : forall k, printing = some k -> k = j) (vacates : Vacates s s' j) :
    Filed s' texts none where
  apart := by
    have left := filed.apart.vacate inTable vacates.docsNext vacates.releases vacates.inTable
    exact left.transfer rfl rfl (fun _ stays => stays)
      fun k _ => congrArg Prod.fst (vacates.sheets k)
  fair := fun k stays => by
    refine (filed.fair k (vacates.inTable k stays).1).transfer (vacates.sheets k) fun data _ => ?_
    rw [vacates.cells]
  rendered := fun r member => by
    rw [vacates.renders] at member
    rcases filed.rendered r member with ⟨text, issued, held⟩
    refine ⟨text, Nat.lt_of_lt_of_le issued vacates.next, fun stays => ?_⟩
    rcases vacates.inTable r.job stays with ⟨before, different⟩
    exact absurd (only r.job (held before)) different
  accesses := vacates.faults.trans filed.accesses

/-- A filter that borrows is handed the text of the job, and the log says
so. -/
theorem callFilter (filed : Filed s texts none) {j : Block} (inTable : s.InTable j)
    (issued : j < s.jobs.next) (out : Bytes) :
    Filed (callFilter s j out).1 texts (some j) := by
  have fair := filed.fair j inTable
  rcases fair.buffer with ⟨data, owned, _, _⟩
  have live := filed.apart.live j data inTable owned
  have sameJob : forall k, (Encore.callFilter s j out).1.job k = s.job k := s.touchJob_job j
  have sameDocs := callFilter_borrows fair.borrowing owned live out
  have sameRenders : (Encore.callFilter s j out).1.renders =
      s.renders ++ [⟨j, (s.job j).filter, s.document j⟩] := rfl
  constructor
  · rw [sameDocs]
    exact filed.apart.transfer rfl rfl (fun _ held => held) fun k _ => congrArg Job.data (sameJob k)
  · intro k held
    rw [sameDocs, sameJob]
    exact filed.fair k held
  · intro r member
    rw [sameRenders] at member
    have sameNext : (Encore.callFilter s j out).1.jobs.next = s.jobs.next := Heap.touch_next ..
    rw [sameNext]
    rcases List.mem_append.mp member with old | new
    · rcases filed.rendered r old with ⟨text, issued, held⟩
      exact ⟨text, issued, fun stays => by cases held stays⟩
    · rw [List.mem_singleton.mp new]
      exact ⟨fair.document, issued, fun _ => rfl⟩
  · rw [sameDocs]
    exact filed.accesses

theorem enter (filed : Filed s texts none) (consistent : Consistent s none q) {jobs : Heap Job}
    {docs metas : Heap Bytes} {id : Nat} {job : Job} {document text : Bytes}
    (admission : Admission s jobs docs id job document) (carries : Carries s.docs docs job document text)
    (slot : firstFree spoolMax s.slots = some id) (chosen : job.filter.consumes = false)
    (short : text.length ≤ encMaxDoc) :
    Filed (admitted s jobs docs metas id) (Function.update texts s.jobs.next text) none := by
  rcases admitted_frame s jobs docs metas id with ⟨sameNext, _, sameDocs, _, _, sameRenders⟩
  have member := admitted_inTable jobs docs metas slot
  have oldSheet : forall k, s.InTable k ->
      ((admitted s jobs docs metas id).job k).sheet = (s.job k).sheet :=
    fun k old => sheet_of_fields (admitted_old consistent admission metas old)
  have newSheet : ((admitted s jobs docs metas id).job s.jobs.next).sheet = job.sheet :=
    sheet_of_fields (admitted_new admission metas)
  have newer : forall k, s.InTable k -> k ≠ s.jobs.next :=
    fun k old => Nat.ne_of_lt (consistent.issued k old)
  rcases admission.docs with ⟨source, next, releases, cells, extended⟩
  constructor
  · have before := filed.apart.transfer next releases (fun _ held => held) fun _ _ => rfl
    rw [sameDocs]
    refine before.extend extended s.jobs.next ?_ (fun k old => ?_) fun k => (member k).mp
    · rw [next]
      exact (congrArg Prod.fst newSheet).trans admission.data
    · exact congrArg Prod.fst (oldSheet k old)
  · intro k held
    rw [sameDocs]
    rcases (member k).mp held with old | new
    · rw [Function.update_of_ne (newer k old)]
      refine (filed.fair k old).transfer (oldSheet k old) fun data owned => ?_
      have live := filed.apart.live k data old owned
      rw [extended.older data (by rw [next]; exact Nat.ne_of_lt live.1), cells]
    · rw [new, Function.update_self]
      have fresh : docs.cell s.docs.next = document := by
        rw [← next]
        exact extended.fresh
      have fair : Fair docs job text := by
        refine ⟨⟨s.docs.next, admission.data, ?_, ?_⟩, carries.len, ?_, ?_, chosen⟩
        · rw [fresh]
          exact carries.size
        · rw [fresh]
          exact carries.starts
        · rw [carries.cap]
          exact Nat.le_max_left _ _
        · rw [carries.cap]
          exact Nat.max_le.mpr ⟨by decide, short⟩
      exact fair.transfer newSheet fun _ _ => rfl
  · intro r printed
    rw [sameRenders] at printed
    rcases filed.rendered r printed with ⟨text_eq, issued, held⟩
    have older : r.job ≠ s.jobs.next := Nat.ne_of_lt issued
    rw [Function.update_of_ne older, sameNext, admission.jobs.next]
    refine ⟨text_eq, Nat.lt_succ_of_lt issued, fun stays => ?_⟩
    exact held (((member r.job).mp stays).resolve_right older)
  · rw [sameDocs, carries.accesses (filed.apart.unused _ (Nat.le_refl _))]
    exact filed.accesses

/-- What the blocks of the other jobs hold does not change when one buffer
grows, since they have other blocks. -/
theorem regrown_cell (filed : Filed s texts printing) {j k old grown data : Block} {docs : Heap Bytes}
    {value : Bytes} (regrown : Regrown s.docs docs old grown value) (inTable : s.InTable j)
    (owned : (s.job j).data = some old) (other : s.InTable k) (different : k ≠ j)
    (otherOwned : (s.job k).data = some data) : docs.cell data = s.docs.cell data := by
  rcases regrown with ⟨_, rewritten⟩ | ⟨_, moved⟩
  · apply rewritten.others data
    rintro rfl
    exact different (filed.apart.sole k j data other inTable otherOwned owned)
  · exact moved.older data (Nat.ne_of_lt (filed.apart.live k data other otherOwned).1)

theorem replace (filed : Filed s texts none) {j old grown : Block} {docs : Heap Bytes} {cap : Nat}
    {text value : Bytes} (inTable : s.InTable j) (owned : (s.job j).data = some old)
    (regrown : Regrown s.docs docs old grown value)
    (replaces : Replaces s s' j docs grown cap text.length) (starts : text <+: value)
    (size : value.length = cap) (roomy : 32 ≤ cap) (bounded : cap ≤ encMaxDoc) :
    Filed s' (Function.update texts j text) none := by
  have here := replaces.here
  have others := replaces.others
  constructor
  · rw [replaces.docs]
    have owner : (s'.job j).data = some grown := congrArg Prod.fst here
    have agree : forall k, k ≠ j -> (s'.job k).data = (s.job k).data :=
      fun k different => congrArg Prod.fst (others k different)
    rcases regrown with ⟨same, rewritten⟩ | ⟨new, moved⟩
    · refine filed.apart.transfer rewritten.next rewritten.releases (fun k => (replaces.inTable k).mp) ?_
      intro k _
      by_cases self : k = j
      · rw [self, owner, owned, same]
      · exact agree k self
    · have separate : Separate docs s.InTable fun k => (s'.job k).data :=
        filed.apart.move inTable owned moved (owner.trans (congrArg some new)) agree
      exact separate.transfer rfl rfl (fun k => (replaces.inTable k).mp) fun _ _ => rfl
  · intro k held
    rw [replaces.docs]
    by_cases self : k = j
    · rw [self, Function.update_self]
      have sameValue : docs.cell grown = value := by
        rcases regrown with ⟨same, rewritten⟩ | ⟨new, moved⟩
        · rw [same]
          exact rewritten.here
        · rw [new]
          exact moved.fresh
      simp only [Job.sheet, Prod.mk.injEq] at here
      rcases here with ⟨data, len, newCap, filter⟩
      have borrowing := (filed.fair j inTable).borrowing
      refine ⟨⟨grown, data, ?_, ?_⟩, len, newCap ▸ roomy, newCap ▸ bounded, filter ▸ borrowing⟩
      · rw [sameValue, newCap]
        exact size
      · rw [sameValue]
        exact starts
    · rw [Function.update_of_ne self]
      have before := (replaces.inTable k).mp held
      exact (filed.fair k before).transfer (others k self) fun data otherOwned =>
        filed.regrown_cell regrown inTable owned before self otherOwned
  · intro r printed
    rw [replaces.renders] at printed
    rcases filed.rendered r printed with ⟨text, issued, gone⟩
    have different : r.job ≠ j := by
      intro same
      cases gone (same ▸ inTable)
    rw [Function.update_of_ne different, replaces.next]
    exact ⟨text, issued, fun stays => gone ((replaces.inTable r.job).mp stays)⟩
  · rw [replaces.docs]
    rcases regrown with ⟨_, rewritten⟩ | ⟨_, moved⟩
    · exact rewritten.faults.trans filed.accesses
    · exact moved.faults.trans filed.accesses

theorem appendTo (filed : Filed s texts none) {j : Block} (inTable : s.InTable j) (arg : Payload)
    (outcome : Realloc) :
    Filed (appendTo s j arg outcome).1
      (if (Encore.appendTo s j arg outcome).2 = spoolOk then
        Function.update texts j (texts j ++ arg.bytes) else texts) none := by
  have fair := filed.fair j inTable
  rcases fair.buffer with ⟨old, owned, _, _⟩
  have live := filed.apart.live j old inTable owned
  have unused := filed.apart.unused s.docs.next (Nat.le_refl _)
  rcases appendTo_outcome arg outcome owned live unused fair with refused |
    ⟨_, docs, grown, cap, value, regrown, starts, size, roomy, bounded, result⟩
  · have failed : (Encore.appendTo s j arg outcome).2 ≠ spoolOk := by
      rw [refused]
      exact (by decide : spoolErr ≠ spoolOk)
    rw [if_neg failed, refused]
    exact filed.transfer (.touchJob s j)
  · rw [result, if_pos rfl]
    exact filed.replace inTable owned regrown (.modifyJob s j docs grown cap _) starts size roomy bounded

theorem retireNamed (filed : Filed s texts printing) (consistent : Consistent s pumped q) {j : Block}
    (inTable : s.InTable j) (only : forall k, printing = some k -> k = j) :
    Filed (jobRetire s (s.job j).id).1 texts none := by
  rcases consistent.jobRetire_named inTable with ⟨index, holds, result⟩
  rw [result]
  exact filed.vacate inTable only (.retireHeld consistent holds)

theorem jobRetire (filed : Filed s texts none) (consistent : Consistent s pumped q) (id : Int) :
    Filed (jobRetire s id).1 texts none := by
  apply jobRetire_keeps (P := fun s => Filed s texts none) id filed
  intro j slot
  have inTable : s.InTable j := ⟨id.toNat, (consistent.ids _ j slot).1, slot⟩
  exact filed.vacate inTable (fun k impossible => by cases impossible) (.retireHeld consistent slot)

theorem jobRender (filed : Filed s texts none) (consistent : Consistent s pumped q) {j : Block}
    (inTable : s.InTable j) (id : Int) (out : Bytes) :
    Filed (Op.act s j (.render id out)) texts none := by
  have printed := filed.callFilter inTable (consistent.issued j inTable) out
  have touched := printed.transfer (.touchJob _ j)
  have same := (callFilter_frame s j out).toSameSkeleton.trans (.touchJob _ j)
  have still := (same.inTable_iff j).mpr inTable
  exact touched.retireNamed (consistent.skeleton same) still fun k named => (Option.some.inj named).symm

theorem jobWork {j : Block} (filed : Filed s texts none) (consistent : Consistent s (some j) q) :
    Filed (jobWork s j) texts none := by
  have inTable : s.InTable j := (consistent.held j).mpr (Or.inl rfl)
  have touched := filed.transfer (.touchJob s j)
  have table := consistent.skeleton (.touchJob s j)
  rw [Encore.jobWork]
  dsimp only
  split
  · exact touched.vacate inTable (fun k impossible => by cases impossible) (.discard table inTable)
  · have same := SameSkeleton.renderJob (s.touchJob j) j
    have still := (same.inTable_iff j).mpr inTable
    have rendering := touched.transfer (.setState _ j .rendering)
    have issued := (table.skeleton (.setState _ j .rendering)).issued j inTable
    have printed := rendering.callFilter inTable issued (List.replicate 256 0)
    have done := printed.transfer (.setState _ j .done)
    have retired := done.retireNamed (table.skeleton same) still
      fun k named => (Option.some.inj named).symm
    rwa [same.ids] at retired

theorem jobFlush (filed : Filed s texts none) (consistent : Consistent s none q) :
    Filed (jobFlush s).1 texts none := by
  refine (consistent.flushed (fun s _ => Filed s texts none) (fun s j rest table kept => ?_) filed).2
  exact (kept.transfer (jobDequeue_frame s).sameDocuments).jobWork table.dequeue.2

theorem jobSubmit (filed : Filed s texts none) (consistent : Consistent s none q) (fmt : Int)
    {filter : Option Filter} (init : Payload) (grant : Nat -> Grant)
    (borrowing : forall chosen, filter = some chosen -> chosen.consumes = false) :
    Filed (jobSubmit s fmt filter init grant).1 ((Op.submit fmt filter init grant).texts s texts)
      none := by
  rw [Op.texts]
  rcases jobSubmit_cases s fmt filter init grant with same | ⟨value, same⟩ |
    ⟨id, jobs, docs, metas, job, document, slot, admission, carries, chosen, _, same⟩
  · rw [same, entered_refused rfl]
    exact filed
  · rw [same, entered_refused rfl]
    exact filed.transfer (.withdrawn consistent value)
  · rw [same, entered_admitted jobs docs metas slot]
    exact filed.enter consistent admission carries slot (borrowing _ chosen) (List.length_take_le _ _)

theorem dupOf (filed : Filed s texts none) (consistent : Consistent s none q) {j : Block}
    (inTable : s.InTable j) (grant : Nat -> Grant) :
    Filed (dupOf s j grant).1
      ((entered (Encore.dupOf s j grant)).elim texts fun copy =>
        Function.update texts copy (texts j)) none := by
  have touched := filed.transfer (.touchJob s j)
  have table := consistent.skeleton (.touchJob s j)
  rcases dupOf_cases (consistent.issued j inTable) grant with same | ⟨value, same⟩ |
    ⟨id, jobs, docs, job, document, slot, admission, carries, sameFilter, _, result⟩
  · rw [same, entered_refused rfl]
    exact filed
  · rw [same, entered_refused rfl]
    exact touched.transfer (.withdrawn table value)
  · have fair := filed.fair j inTable
    rcases fair.buffer with ⟨data, owned, _, _⟩
    have live : s.docs.touchAt (s.job j).data = s.docs := by
      rw [owned]
      exact Heap.touch_of_live (filed.apart.live j data inTable owned)
    have copied := carries.2 (by rw [fair.document, fair.len]) live
    rw [fair.document] at copied
    have named : Encore.dupOf s j grant =
      (Encore.admitted (s.touchJob j) jobs docs s.metas id, (id : Int)) := result
    have new : entered (Encore.admitted (s.touchJob j) jobs docs s.metas id, (id : Int)) =
      some (s.touchJob j).jobs.next := entered_admitted jobs docs s.metas slot
    rw [named, new]
    exact touched.enter table admission copied slot (sameFilter ▸ fair.borrowing)
      (Nat.le_trans fair.short fair.bounded)

theorem handled (filed : Filed s texts none) (consistent : Consistent s none q) {op : Op} {id : Int}
    (handled : op.jobId = some id) (absent : s.lookup id = none -> op.texts s texts = texts)
    (acts : forall j, s.lookup id = some j -> Filed { s with gActive := some j } texts none ->
      Consistent { s with gActive := some j } none q -> Store.InTable { s with gActive := some j } j ->
      Filed (op.act { s with gActive := some j } j) (op.texts s texts) none) :
    Filed (step s op) (op.texts s texts) none := by
  cases found : s.lookup id with
  | none =>
      rw [step_absent handled found, absent found]
      exact filed
  | some j =>
      have inTable := consistent.lookup_inTable found
      rw [step_found handled found]
      exact acts j found (filed.transfer (.setActive s (some j))) (consistent.activate inTable) inTable

theorem jobStatus (filed : Filed s texts none) (verbose : Bool) (out : Bytes) :
    Filed (jobStatus s verbose out).1 texts none := by
  exact jobStatus_keeps (P := fun s => Filed s texts none) verbose out filed fun j _ =>
    filed.transfer (.touchJob s j)

theorem step (filed : Filed s texts none) (consistent : Consistent s none q) {op : Op}
    (offered : op.borrowing) : Filed (step s op) (op.texts s texts) none := by
  cases op with
  | submit fmt filter init grant => exact filed.jobSubmit consistent fmt init grant offered
  | render id out =>
      exact filed.handled consistent rfl (fun _ => rfl) fun j _ kept table inTable =>
        kept.jobRender table inTable id out
  | append id arg outcome =>
      refine filed.handled consistent rfl (fun absent => ?_) fun j found kept table inTable => ?_
      · rw [Op.texts, absent, Option.elim_none]
      · rw [Op.texts, found, Option.elim_some]
        simp only [jobAppend, jobGet_found found]
        exact kept.appendTo inTable arg outcome
  | cancel id =>
      exact filed.handled consistent rfl (fun _ => rfl) fun j _ kept _ _ =>
        kept.transfer (.setState _ j .cancelled)
  | dup id grant =>
      refine filed.handled consistent rfl (fun absent => ?_) fun j found kept table inTable => ?_
      · rw [Op.texts, absent, Option.elim_none]
      · rw [Op.texts, found, Option.elim_some]
        simp only [jobDup, jobGet_found found]
        exact kept.dupOf table inTable grant
  | status verbose out => exact filed.jobStatus verbose out
  | flush => exact filed.jobFlush consistent
  | retire id => exact filed.jobRetire consistent id
  | recycle id => exact offered.elim

end Filed

/-! ## Every run -/

/-- A job keeps its text unless the call appends to it.  So the frame part of
the property follows from the history. -/
theorem texts_kept {s : Store} {texts : Block -> Bytes} {q : List Block}
    (consistent : Consistent s none q) {op : Op} {j : Block} (inTable : s.InTable j)
    (others : forall id arg outcome, op = .append id arg outcome -> s.lookup id ≠ some j) :
    op.texts s texts j = texts j := by
  have old : j ≠ s.jobs.next := Nat.ne_of_lt (consistent.issued j inTable)
  cases op with
  | submit fmt filter init grant =>
      rw [Op.texts]
      cases new : entered (jobSubmit s fmt filter init grant) with
      | none => rfl
      | some k => exact Function.update_of_ne (entered_jobSubmit new ▸ old) ..
  | append id arg outcome =>
      rw [Op.texts]
      cases found : s.lookup id with
      | none => rfl
      | some k =>
          have different : j ≠ k := fun same => others id arg outcome rfl (same ▸ found)
          rw [Option.elim_some]
          split
          · exact Function.update_of_ne different ..
          · rfl
  | dup id grant =>
      rw [Op.texts]
      cases found : s.lookup id with
      | none => rfl
      | some k =>
          have issued := consistent.issued k (consistent.lookup_inTable found)
          rw [Option.elim_some, jobDup, jobGet_found found]
          cases new : entered (dupOf { s with gActive := some k } k grant) with
          | none => rfl
          | some copy =>
              have later : copy = s.jobs.next :=
                entered_dupOf (s := { s with gActive := some k }) issued new
              exact Function.update_of_ne (later ▸ old) ..
  | render id out => rfl
  | cancel id => rfl
  | recycle id => rfl
  | status verbose out => rfl
  | flush => rfl
  | retire id => rfl

/-- The documents agree with the history, and the table is consistent.  The
history records what was submitted and appended under each job, as the calls
brought it. -/
structure Archive (history : Archived) : Prop where
  table : exists q, Consistent history.1 none q
  filed : Filed history.1 history.2 none

namespace Archive

variable {history : Archived}

theorem archive (kept : Archive history) {op : Op} (offered : op.borrowing) :
    Archive (archive history op) := by
  rcases kept.table with ⟨q, consistent⟩
  exact ⟨consistent.step op, kept.filed.step consistent offered⟩

theorem documentsExact (kept : Archive history) : DocumentsExact history := by
  rcases kept.table with ⟨q, consistent⟩
  have filed := kept.filed
  constructor
  · exact fun r printed => (filed.rendered r printed).1
  · intro j inTable
    have fair := filed.fair j inTable
    rw [fair.document, fair.len]
    exact ⟨rfl, rfl⟩
  · intro j inTable
    have fair := filed.fair j inTable
    exact ⟨fair.len ▸ fair.short, fair.roomy, fair.bounded⟩
  · intro j arg outcome inTable
    have fair := filed.fair j inTable
    rcases fair.buffer with ⟨old, owned, _, _⟩
    have live := filed.apart.live j old inTable owned
    have unused := filed.apart.unused _ (Nat.le_refl _)
    rcases appendTo_outcome arg outcome owned live unused fair with refused | ⟨unwrapped, _⟩
    · exact Or.inl refused
    · exact Or.inr unwrapped
  · intro op j offered inTable stays others
    have later := filed.step consistent offered
    rw [(later.fair j stays).document, (filed.fair j inTable).document]
    exact texts_kept consistent inTable others
  · exact filed.accesses

end Archive

theorem archive_spoolNew : Archive (spoolNew, fun _ => []) where
  table := ⟨[], consistent_spoolNew⟩
  filed :=
    { apart := separate_empty _ not_inTable_spoolNew
      fair := fun j inTable => absurd inTable (not_inTable_spoolNew j)
      rendered := fun _ printed => absurd printed List.not_mem_nil
      accesses := rfl }

/-- Every filter receives exactly what was submitted and appended, in every
run of calls with filters that borrow, whichever allocations fail and wherever
buffers move. -/
theorem documentsExact_throughout (ops : List Op) (offered : forall op, op ∈ ops -> op.borrowing) :
    Throughout archive DocumentsExact (spoolNew, fun _ => []) ops := by
  have kept : Throughout archive Archive (spoolNew, fun _ => []) ops :=
    throughout_of_invariant Op.borrowing (fun _ _ kept offered => kept.archive offered)
      archive_spoolNew offered
  exact kept.mono fun _ => Archive.documentsExact

def submitThenDup : List Op :=
  [.submit 7 (some .raster) helloPage generous, .dup 0 generous, .append 1 helloPage (.inPlace fun _ => 0),
    .flush]

theorem submitThenDup_documents : Throughout archive DocumentsExact (spoolNew, fun _ => []) submitThenDup := by
  apply documentsExact_throughout
  intro op member
  simp only [submitThenDup, List.mem_cons, List.not_mem_nil, or_false] at member
  rcases member with rfl | rfl | rfl | rfl
  · intro chosen same
    rw [← Option.some.inj same]
    rfl
  · trivial
  · trivial
  · trivial

end Encore
end BugMuseum
