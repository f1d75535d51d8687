import BugMuseum.Encore.Documents
import BugMuseum.Encore.FailedCalls

namespace BugMuseum
namespace Encore

open Foundation

/-!
# One live block behind each append

A document buffer is as long as the `cap` of its job says, in every state that the
calls can reach, whatever has been released by then.  So what an append can get
wrong is only the release: it hands the old block to `realloc`, which releases it
when the block moves, and then releases it once more itself.
-/

/-- One live block backs the job after the append, with the recorded size, and
no block was released a second time.  A refused append leaves the buffer of
the job as it was. -/
structure AppendSound (s s' : Store) (j : Block) (code : Int) : Prop where
  backed : exists data, (s'.job j).data = some data ∧ s'.docs.Live data ∧
    (s'.docs.cell data).length = (s'.job j).cap
  sole : forall data, (s.job j).data = some data ∨ s.docs.next ≤ data -> s'.docs.Live data ->
    (s'.job j).data = some data
  once : forall data, s'.docs.releases data ≤ max 1 (s.docs.releases data)
  refused : code = spoolErr -> (s'.job j).data = (s.job j).data ∧ (s'.job j).len = (s.job j).len ∧
    (s'.job j).cap = (s.job j).cap

/-- The next call is sound, if it is an append that finds its job: one live
block of the recorded size backs the job after it, and no block has been
released twice.  The lookup may go through the reserved id. -/
def AppendsSoundly (s : Store) : Op -> Prop
  | .append id arg outcome => forall j, s.lookup id = some j ->
      AppendSound s (jobAppend s id arg outcome).1 j (jobAppend s id arg outcome).2
  | _ => True

/-- The buffer of the job is live, and the append does not make it move.  The
second part is that it fits, is refused, or grows in place. -/
def AppendStays (s : Store) : Op -> Prop
  | .append id arg outcome => forall j, s.lookup id = some j ->
      (exists data, (s.job j).data = some data ∧ s.docs.Live data) ∧ ¬ Relocates s j arg outcome
  | _ => True

/-- Every job of the table has a buffer of its own, as long as the job says.
That the buffer is live is not part of it, since a filter or a flush may have
released it. -/
structure Buffered (s : Store) : Prop where
  buffer : forall j, s.InTable j -> exists data, (s.job j).data = some data ∧ data < s.docs.next ∧
    (s.docs.cell data).length = (s.job j).cap
  sole : forall left right data, s.InTable left -> s.InTable right ->
    (s.job left).data = some data -> (s.job right).data = some data -> left = right

/-- A change that moves no buffer and resizes none.  Jobs may leave the table
by it. -/
structure KeepsBuffers (s s' : Store) : Prop where
  inTable : forall j, s'.InTable j -> s.InTable j
  fields : forall j, s.InTable j -> (s'.job j).data = (s.job j).data ∧ (s'.job j).cap = (s.job j).cap
  next : s.docs.next ≤ s'.docs.next
  sizes : forall data, data < s.docs.next -> (s'.docs.cell data).length = (s.docs.cell data).length

/-- One job gets another buffer, or its buffer another size, and all other
jobs keep theirs. -/
structure Rebuffers (s s' : Store) (j : Block) : Prop where
  inTable : forall k, s'.InTable k -> s.InTable k
  others : forall k, k ≠ j -> (s'.job k).data = (s.job k).data ∧ (s'.job k).cap = (s.job k).cap
  next : s.docs.next ≤ s'.docs.next
  here : exists data, (s'.job j).data = some data ∧ ((s.job j).data = some data ∨ data = s.docs.next) ∧
    data < s'.docs.next ∧ (s'.docs.cell data).length = (s'.job j).cap ∧
    forall other, other < s.docs.next -> other ≠ data ->
      (s'.docs.cell other).length = (s.docs.cell other).length

theorem sheet_buffer {left right : Job} (same : left.sheet = right.sheet) :
    left.data = right.data ∧ left.cap = right.cap := by
  simp only [Job.sheet, Prod.mk.injEq] at same
  exact ⟨same.1, same.2.2.1⟩

theorem SameDocuments.keepsBuffers {s s' : Store} (same : SameDocuments s s') : KeepsBuffers s s' where
  inTable := same.inTable
  fields := fun j inTable => sheet_buffer (same.sheets j inTable)
  next := by rw [same.docs]
  sizes := fun data _ => by rw [same.docs]

theorem Vacates.keepsBuffers {s s' : Store} {j : Block} (vacates : Vacates s s' j) :
    KeepsBuffers s s' where
  inTable := fun k stays => (vacates.inTable k stays).1
  fields := fun k _ => sheet_buffer (vacates.sheets k)
  next := Nat.le_of_eq vacates.docsNext.symm
  sizes := fun data _ => by rw [vacates.cells]

theorem callFilter_keepsBuffers (s : Store) (j : Block) (out : Bytes) :
    KeepsBuffers s (callFilter s j out).1 where
  inTable := fun _ inTable => inTable
  fields := fun k _ => by
    have same : (callFilter s j out).1.job k = s.job k := s.touchJob_job j k
    rw [same]
    exact ⟨rfl, rfl⟩
  next := Nat.le_of_eq (callFilter_docs s j out).1.symm
  sizes := fun data _ => by rw [callFilter_cell]

/-- The job takes the block of a reallocation, and the bytes are copied into
it. -/
theorem rebuffers_of_resized {s t : Store} {j old grown : Block} {docs : Heap Bytes} {need : Nat}
    (owned : (s.job j).data = some old) (resized : s.docs.Resized docs old grown need)
    (slots : t.slots = s.slots)
    (jobs : t.jobs = (s.touchJob j).jobs.modify j fun job =>
      { job with data := some grown, cap := need, len := need })
    (next : t.docs.next = docs.next)
    (lengths : forall data, (t.docs.cell data).length = (docs.cell data).length) :
    Rebuffers s t j := by
  have here : t.job j = { s.job j with data := some grown, cap := need, len := need } := by
    rw [Store.job, jobs, Heap.modify_cell_self]
    exact congrArg (fun job : Job => { job with data := some grown, cap := need, len := need })
      (s.touchJob_job j j)
  refine ⟨fun k held => ?_, fun k different => ?_, ?_, grown, ?_, ?_, ?_, ?_, fun other inside apart => ?_⟩
  · rwa [Store.InTable, slots] at held
  · have same : t.job k = s.job k := by
      rw [Store.job, jobs, Heap.modify_cell_of_ne _ _ different]
      exact s.touchJob_job j k
    rw [same]
    exact ⟨rfl, rfl⟩
  · rw [next]
    exact resized.next
  · rw [here]
  · rcases resized.either with stayed | new
    · exact Or.inl (stayed ▸ owned)
    · exact Or.inr new
  · rw [next]
    exact resized.issued
  · rw [lengths, here]
    exact resized.size
  · rw [lengths, resized.others other inside apart]

/-- An append leaves the buffers alone, or takes what the reallocation
returns.  The release of the old block behind it changes no buffer. -/
theorem appendTo_buffers {s : Store} {j old : Block} (owned : (s.job j).data = some old)
    (issued : old < s.docs.next) (arg : Payload) (outcome : Realloc) :
    KeepsBuffers s (appendTo s j arg outcome).1 ∨ Rebuffers s (appendTo s j arg outcome).1 j := by
  have unchanged := (SameDocuments.touchJob s j).keepsBuffers
  have appended := appendTo_appended s j arg outcome
  generalize appendTo s j arg outcome = after at appended ⊢
  cases appended with
  | refused _ => exact Or.inl unchanged
  | exhausted _ _ _ => exact Or.inl unchanged
  | written _ _ =>
      refine Or.inl ⟨fun _ held => held, fun k _ => ?_, ?_, fun data _ => ?_⟩
      · have touched := s.touchJob_job j k
        exact ⟨(Store.modifyJob_field Job.data rfl k).trans (congrArg Job.data touched),
          (Store.modifyJob_field Job.cap rfl k).trans (congrArg Job.cap touched)⟩
      · exact Nat.le_of_eq (Heap.writeAt_next ..).symm
      · exact Heap.writeAt_cell_length ..
  | @grown docs grown _ _ result =>
      rw [owned] at result
      have resized := Heap.realloc_some issued result
      have copied := docs.writeAt_cell_length (some grown) (s.job j).len arg.bytes
      have next := docs.writeAt_next (some grown) (s.job j).len arg.bytes
      have released : forall data, (((docs.writeAt (some grown) (s.job j).len arg.bytes).releaseAt
          (s.job j).data).cell data).length = (docs.cell data).length := by
        intro data
        rw [Heap.releaseAt_cell]
        exact copied data
      dsimp only
      split
      · exact Or.inr (rebuffers_of_resized owned resized rfl rfl ((Heap.releaseAt_next ..).trans next) released)
      · exact Or.inr (rebuffers_of_resized owned resized rfl rfl next copied)

namespace Buffered

variable {s s' : Store} {pumped : Option Block} {q : List Block}

theorem keep (buffered : Buffered s) (kept : KeepsBuffers s s') : Buffered s' where
  buffer := fun j stays => by
    have before := kept.inTable j stays
    rcases buffered.buffer j before with ⟨data, owned, issued, size⟩
    rcases kept.fields j before with ⟨sameData, sameCap⟩
    refine ⟨data, sameData.trans owned, Nat.lt_of_lt_of_le issued kept.next, ?_⟩
    rw [kept.sizes data issued, sameCap]
    exact size
  sole := fun left right data leftStays rightStays leftOwns rightOwns => by
    have leftBefore := kept.inTable left leftStays
    have rightBefore := kept.inTable right rightStays
    rw [(kept.fields left leftBefore).1] at leftOwns
    rw [(kept.fields right rightBefore).1] at rightOwns
    exact buffered.sole left right data leftBefore rightBefore leftOwns rightOwns

/-- The new buffer of the job is no other job's, because it is the old one or
has just been handed out. -/
theorem rebuffer (buffered : Buffered s) {j : Block} (inTable : s.InTable j)
    (replaced : Rebuffers s s' j) : Buffered s' := by
  rcases replaced.here with ⟨grown, owned, origin, issued, size, others⟩
  have apart : forall k data, s.InTable k -> k ≠ j -> (s.job k).data = some data -> data ≠ grown := by
    rintro k data held different otherOwned rfl
    rcases origin with stayed | new
    · exact different (buffered.sole k j data held inTable otherOwned stayed)
    · rcases buffered.buffer k held with ⟨named, sameOwned, inside, _⟩
      have same : named = data := Option.some.inj (sameOwned.symm.trans otherOwned)
      rw [same, new] at inside
      exact Nat.lt_irrefl _ inside
  have elsewhere : forall k data, s'.InTable k -> k ≠ j -> (s'.job k).data = some data ->
      (s.job k).data = some data ∧ data ≠ grown := by
    intro k data stays different otherOwned
    rw [(replaced.others k different).1] at otherOwned
    exact ⟨otherOwned, apart k data (replaced.inTable k stays) different otherOwned⟩
  constructor
  · intro k stays
    by_cases self : k = j
    · rw [self]
      exact ⟨grown, owned, issued, size⟩
    · have before := replaced.inTable k stays
      rcases buffered.buffer k before with ⟨data, otherOwned, inside, otherSize⟩
      rcases replaced.others k self with ⟨sameData, sameCap⟩
      refine ⟨data, sameData.trans otherOwned, Nat.lt_of_lt_of_le inside replaced.next, ?_⟩
      rw [others data inside (apart k data before self otherOwned), sameCap]
      exact otherSize
  · intro left right data leftStays rightStays leftOwns rightOwns
    by_cases leftSelf : left = j
    · by_cases rightSelf : right = j
      · exact leftSelf.trans rightSelf.symm
      · rw [leftSelf, owned] at leftOwns
        exact absurd (Option.some.inj leftOwns).symm (elsewhere right data rightStays rightSelf rightOwns).2
    · have leftOld := elsewhere left data leftStays leftSelf leftOwns
      by_cases rightSelf : right = j
      · rw [rightSelf, owned] at rightOwns
        exact absurd (Option.some.inj rightOwns).symm leftOld.2
      · have rightOld := elsewhere right data rightStays rightSelf rightOwns
        exact buffered.sole left right data (replaced.inTable left leftStays)
          (replaced.inTable right rightStays) leftOld.1 rightOld.1

/-- The new job brings a new buffer along, of the size that it records. -/
theorem enter (buffered : Buffered s) (consistent : Consistent s none q) {jobs : Heap Job}
    {docs metas : Heap Bytes} {id : Nat} {job : Job} {document : Bytes}
    (admission : Admission s jobs docs id job document) (slot : firstFree spoolMax s.slots = some id)
    (size : document.length = job.cap) : Buffered (admitted s jobs docs metas id) := by
  have sameDocs := (admitted_frame s jobs docs metas id).2.2.1
  have member := admitted_inTable jobs docs metas slot
  rcases admission.docs with ⟨source, next, _, cells, extended⟩
  have grown : docs.next = s.docs.next + 1 := extended.next.trans (congrArg (· + 1) next)
  have older : forall k, s.InTable k -> ((admitted s jobs docs metas id).job k).data = (s.job k).data ∧
      ((admitted s jobs docs metas id).job k).cap = (s.job k).cap := fun k old =>
    sheet_buffer (sheet_of_fields (admitted_old consistent admission metas old))
  have newer := sheet_buffer (sheet_of_fields (admitted_new admission metas))
  have separate : forall k data, s.InTable k -> (s.job k).data = some data -> data ≠ s.docs.next := by
    intro k data old otherOwned
    rcases buffered.buffer k old with ⟨named, sameOwned, inside, _⟩
    rw [← Option.some.inj (sameOwned.symm.trans otherOwned)]
    exact Nat.ne_of_lt inside
  constructor
  · intro k held
    rw [sameDocs, grown]
    rcases (member k).mp held with old | new
    · rcases buffered.buffer k old with ⟨data, otherOwned, inside, otherSize⟩
      refine ⟨data, (older k old).1.trans otherOwned, Nat.lt_succ_of_lt inside, ?_⟩
      rw [extended.older data (next ▸ Nat.ne_of_lt inside), cells, (older k old).2]
      exact otherSize
    · rw [new]
      refine ⟨s.docs.next, newer.1.trans admission.data, Nat.lt_succ_self _, ?_⟩
      rw [newer.2, ← next, extended.fresh]
      exact size
  · intro left right data leftHeld rightHeld leftOwns rightOwns
    rcases (member left).mp leftHeld with leftOld | leftNew
    · rw [(older left leftOld).1] at leftOwns
      rcases (member right).mp rightHeld with rightOld | rightNew
      · rw [(older right rightOld).1] at rightOwns
        exact buffered.sole left right data leftOld rightOld leftOwns rightOwns
      · rw [rightNew, newer.1, admission.data] at rightOwns
        exact absurd (Option.some.inj rightOwns).symm (separate left data leftOld leftOwns)
    · rw [leftNew, newer.1, admission.data] at leftOwns
      rcases (member right).mp rightHeld with rightOld | rightNew
      · rw [(older right rightOld).1] at rightOwns
        exact absurd (Option.some.inj leftOwns).symm (separate right data rightOld rightOwns)
      · exact leftNew.trans rightNew.symm

theorem jobSubmit (buffered : Buffered s) (consistent : Consistent s none q) (fmt : Int)
    (filter : Option Filter) (init : Payload) (grant : Nat -> Grant) :
    Buffered (jobSubmit s fmt filter init grant).1 := by
  rcases jobSubmit_cases s fmt filter init grant with same | ⟨value, same⟩ |
    ⟨id, jobs, docs, metas, job, document, slot, admission, carries, _, _, same⟩ <;> rw [same]
  · exact buffered
  · exact buffered.keep (SameDocuments.withdrawn consistent value).keepsBuffers
  · exact buffered.enter consistent admission slot carries.size

theorem dupOf (buffered : Buffered s) (consistent : Consistent s none q) {j : Block}
    (inTable : s.InTable j) (grant : Nat -> Grant) : Buffered (dupOf s j grant).1 := by
  have touched := buffered.keep (SameDocuments.touchJob s j).keepsBuffers
  have table := consistent.skeleton (.touchJob s j)
  rcases dupOf_cases (consistent.issued j inTable) grant with same | ⟨value, same⟩ |
    ⟨id, jobs, docs, job, document, slot, admission, carries, _, _, same⟩ <;> rw [same]
  · exact buffered
  · exact touched.keep (SameDocuments.withdrawn table value).keepsBuffers
  · exact touched.enter table admission slot carries.1

theorem retireNamed (buffered : Buffered s) (consistent : Consistent s pumped q) {j : Block}
    (inTable : s.InTable j) : Buffered (jobRetire s (s.job j).id).1 := by
  rcases consistent.jobRetire_named inTable with ⟨index, holds, result⟩
  rw [result]
  exact buffered.keep (Vacates.retireHeld consistent holds).keepsBuffers

theorem jobRetire (buffered : Buffered s) (consistent : Consistent s pumped q) (id : Int) :
    Buffered (jobRetire s id).1 := by
  apply jobRetire_keeps (P := Buffered) id buffered
  intro j slot
  exact buffered.keep (Vacates.retireHeld consistent slot).keepsBuffers

theorem jobWork {j : Block} (buffered : Buffered s) (consistent : Consistent s (some j) q) :
    Buffered (jobWork s j) := by
  have inTable : s.InTable j := (consistent.held j).mpr (Or.inl rfl)
  have touched := buffered.keep (SameDocuments.touchJob s j).keepsBuffers
  have table := consistent.skeleton (.touchJob s j)
  rw [Encore.jobWork]
  dsimp only
  split
  · exact touched.keep (Vacates.discard table inTable).keepsBuffers
  · have same := SameSkeleton.renderJob (s.touchJob j) j
    have rendering := touched.keep (SameDocuments.setState _ j .rendering).keepsBuffers
    have printed := rendering.keep (callFilter_keepsBuffers _ j (List.replicate 256 0))
    have done := printed.keep (SameDocuments.setState _ j .done).keepsBuffers
    have retired := done.retireNamed (table.skeleton same) ((same.inTable_iff j).mpr inTable)
    rwa [same.ids] at retired

theorem jobFlush (buffered : Buffered s) (consistent : Consistent s none q) :
    Buffered (jobFlush s).1 := by
  refine (consistent.flushed (fun s _ => Buffered s) (fun s j rest table kept => ?_) buffered).2
  exact (kept.keep (jobDequeue_frame s).sameDocuments.keepsBuffers).jobWork table.dequeue.2

theorem appendTo (buffered : Buffered s) {j : Block} (inTable : s.InTable j) (arg : Payload)
    (outcome : Realloc) : Buffered (appendTo s j arg outcome).1 := by
  rcases buffered.buffer j inTable with ⟨old, owned, issued, _⟩
  rcases appendTo_buffers owned issued arg outcome with kept | replaced
  · exact buffered.keep kept
  · exact buffered.rebuffer inTable replaced

/-- A call with the job it has found keeps the sizes of all buffers. -/
theorem act (buffered : Buffered s) (consistent : Consistent s none q) {j : Block}
    (inTable : s.InTable j) (op : Op) : Buffered (op.act s j) := by
  cases op with
  | render id out =>
      have printed := buffered.keep (callFilter_keepsBuffers s j out)
      have touched := printed.keep (SameDocuments.touchJob _ j).keepsBuffers
      have same := (callFilter_frame s j out).toSameSkeleton.trans (.touchJob _ j)
      exact touched.retireNamed (consistent.skeleton same) ((same.inTable_iff j).mpr inTable)
  | append id arg outcome => exact buffered.appendTo inTable arg outcome
  | cancel id => exact buffered.keep (SameDocuments.setState s j .cancelled).keepsBuffers
  | recycle id =>
      refine buffered.keep ⟨fun _ held => held, fun k _ => ?_, ?_, fun data _ => ?_⟩
      · have same := Store.touchJob_job { s with docs := s.docs.releaseAt s.gScratch } j k
        exact ⟨congrArg Job.data same, congrArg Job.cap same⟩
      · exact Nat.le_of_eq (Heap.releaseAt_next ..).symm
      · exact congrArg List.length (congrFun (Heap.releaseAt_cell ..) data)
  | dup id grant => exact buffered.dupOf consistent inTable grant
  | _ => exact buffered

theorem handled (buffered : Buffered s) (consistent : Consistent s none q) {op : Op} {id : Int}
    (handled : op.jobId = some id) : Buffered (step s op) := by
  cases found : s.lookup id with
  | none =>
      rw [step_absent handled found]
      exact buffered
  | some j =>
      have inTable := consistent.lookup_inTable found
      have active := buffered.keep (SameDocuments.setActive s (some j)).keepsBuffers
      rw [step_found handled found]
      exact active.act (consistent.activate inTable) inTable op

theorem step (buffered : Buffered s) (consistent : Consistent s none q) (op : Op) :
    Buffered (step s op) := by
  cases op with
  | submit fmt filter init grant => exact buffered.jobSubmit consistent fmt filter init grant
  | render id out => exact buffered.handled consistent rfl
  | append id arg outcome => exact buffered.handled consistent rfl
  | cancel id => exact buffered.handled consistent rfl
  | recycle id => exact buffered.handled consistent rfl
  | dup id grant => exact buffered.handled consistent rfl
  | status verbose out =>
      unfold Encore.step perform jobStatus
      dsimp only
      split
      · exact buffered
      · split
        · exact buffered.keep (SameDocuments.touchJob s _).keepsBuffers
        · exact buffered
  | flush => exact buffered.jobFlush consistent
  | retire id => exact buffered.jobRetire consistent id

end Buffered

/-! ## Exactly the appends that are sound -/

/-- A buffer that stays where it is backs its job after the append, and
nothing is released. -/
theorem appendSound_of_stays {s : Store} (buffered : Buffered s) {j data : Block} (inTable : s.InTable j)
    (owned : (s.job j).data = some data) (live : s.docs.Live data) {arg : Payload} {outcome : Realloc}
    (stays : ¬ Relocates s j arg outcome) :
    AppendSound s (appendTo s j arg outcome).1 j (appendTo s j arg outcome).2 := by
  rcases appendTo_stays owned stays with ⟨sameNext, sameReleases, sameData⟩
  have still := ((appendTo_frame s j arg outcome).inTable_iff j).mpr inTable
  rcases (buffered.appendTo inTable arg outcome).buffer j still with ⟨named, namedOwned, _, size⟩
  have same : named = data := Option.some.inj (namedOwned.symm.trans ((sameData j).trans owned))
  subst same
  refine ⟨⟨named, namedOwned, ?_, size⟩, fun other origin lives => ?_, fun other => ?_, fun failed => ?_⟩
  · exact (Heap.Live.congr sameNext sameReleases).mpr live
  · rcases origin with before | new
    · rw [sameData, before]
    · exact absurd (sameNext ▸ lives.1) (Nat.not_lt.mpr new)
  · rw [sameReleases]
    exact Nat.le_max_right _ _
  · rw [appendTo_failure failed, Store.touchJob_job]
    exact ⟨rfl, rfl, rfl⟩

theorem stays_of_appendSound {s : Store} {j data : Block} (owned : (s.job j).data = some data)
    (issued : data < s.docs.next) {arg : Payload} {outcome : Realloc}
    (sound : AppendSound s (appendTo s j arg outcome).1 j (appendTo s j arg outcome).2) :
    s.docs.Live data ∧ ¬ Relocates s j arg outcome := by
  have stays : ¬ Relocates s j arg outcome := by
    intro moves
    have twice := appendTo_relocates owned issued moves
    have once := sound.once data
    rw [twice] at once
    omega
  rcases appendTo_stays owned stays with ⟨sameNext, sameReleases, sameData⟩
  rcases sound.backed with ⟨named, namedOwned, live, _⟩
  have same : named = data := Option.some.inj (namedOwned.symm.trans ((sameData j).trans owned))
  subst same
  exact ⟨(Heap.Live.congr sameNext sameReleases).mp live, stays⟩

theorem appendsSoundly_iff {s : Store} {q : List Block} (consistent : Consistent s none q)
    (buffered : Buffered s) (op : Op) : AppendsSoundly s op ↔ AppendStays s op := by
  cases op with
  | append id arg outcome =>
      apply forall_congr'
      intro j
      apply imp_congr_right
      intro found
      have inTable := consistent.lookup_inTable found
      rcases buffered.buffer j inTable with ⟨data, owned, issued, _⟩
      have active := buffered.keep (SameDocuments.setActive s (some j)).keepsBuffers
      simp only [jobAppend, jobGet_found found]
      constructor
      · intro sound
        have stays := stays_of_appendSound (s := { s with gActive := some j }) owned issued
          ⟨sound.backed, sound.sole, sound.once, sound.refused⟩
        exact ⟨⟨data, owned, stays.1⟩, stays.2⟩
      · rintro ⟨⟨named, namedOwned, live⟩, stays⟩
        have sound := appendSound_of_stays active inTable namedOwned live stays
        exact ⟨sound.backed, sound.sole, sound.once, sound.refused⟩
  | submit fmt filter init grant => exact Iff.rfl
  | render id out => exact Iff.rfl
  | cancel id => exact Iff.rfl
  | recycle id => exact Iff.rfl
  | dup id grant => exact Iff.rfl
  | status verbose out => exact Iff.rfl
  | flush => exact Iff.rfl
  | retire id => exact Iff.rfl

/-- The table is consistent, and the buffers have the recorded sizes.  This
holds in every state that the calls can reach. -/
structure Sized (s : Store) : Prop where
  table : exists q, Consistent s none q
  buffered : Buffered s

theorem Sized.step {s : Store} (sized : Sized s) (op : Op) : Sized (step s op) := by
  rcases sized with ⟨⟨q, consistent⟩, buffered⟩
  exact ⟨consistent.step op, buffered.step consistent op⟩

theorem sized_spoolNew : Sized spoolNew where
  table := ⟨[], consistent_spoolNew⟩
  buffered :=
    { buffer := fun j held => absurd held (not_inTable_spoolNew j)
      sole := fun left _ _ held => absurd held (not_inTable_spoolNew left) }

/-- In every state that the calls can reach, an append leaves one live block
behind its job exactly when that block was live before and does not have to
move.  This holds for each append after a run, and so for all appends of a
run. -/
theorem appendsSoundly_iff_appendStays (ops : List Op) :
    (Guarded step AppendsSoundly spoolNew ops ↔ Guarded step AppendStays spoolNew ops) ∧
      forall op, AppendsSoundly (run step spoolNew ops) op ↔ AppendStays (run step spoolNew ops) op := by
  have keeps : forall s op, Sized s -> True -> Sized (step s op) := fun _ op sized _ => sized.step op
  have same : forall s op, Sized s -> True -> (AppendsSoundly s op ↔ AppendStays s op) := by
    rintro s op ⟨⟨q, consistent⟩, buffered⟩ _
    exact appendsSoundly_iff consistent buffered op
  constructor
  · exact guarded_iff_of_invariant (fun _ => True) keeps same sized_spoolNew fun _ _ => trivial
  · intro op
    have every := throughout_of_invariant (fun _ => True) keeps sized_spoolNew
      fun (op : Op) (_ : op ∈ ops) => trivial
    exact same _ op (throughout_end every) trivial

def appendThrice : List Op :=
  [.submit 7 (some .raster) helloPage generous, .append 0 helloPage .fails, .append 0 helloPage .fails]

/-- The fourth page does not fit, and the allocator moves the document.  The
append then releases the old block, which `realloc` has released already. -/
theorem appendThrice_released_twice : ¬ AppendsSoundly (run step spoolNew appendThrice)
    (.append 0 helloPage (.moves fun _ => 0)) := by
  intro sound
  have found : (run step spoolNew appendThrice).lookup 0 = some 0 := by decide +kernel
  have once := (sound 0 found).once 0
  revert once
  decide +kernel

end Encore
end BugMuseum
