import BugMuseum.Encore.Documents
import BugMuseum.Encore.ScratchBuffer

namespace BugMuseum
namespace Encore

open Foundation

/-!
# Filters that consume their input

The text filter disposes of the document it is handed; the other two borrow it.
`JobRender` retires the job after the filter call in either case, and the retirement
releases the document.  So in the runs of the batch client every document is released
exactly once, and never accessed afterwards, as long as no render goes through the
consuming filter.
-/

/-- Every document of a rendered job was released exactly once, the documents
of the table are live, and nothing was accessed after its release. -/
structure ContractKept (s : Store) : Prop where
  rendered : forall r, r ∈ s.renders ->
    exists data, (s.job r.job).data = some data ∧ s.docs.releases data = 1
  held : forall j, s.InTable j -> exists data, (s.job j).data = some data ∧ s.docs.Live data
  once : forall data, s.docs.releases data ≤ 1
  accesses : s.docs.faults = []

/-- The calls that the batch client makes, with an append that fits in the
buffer of its job or is refused.  An append that grows its buffer has a defect
of its own. -/
def BatchCall (s : Store) : Op -> Prop
  | .submit _ _ _ _ => True
  | .render _ _ => True
  | .append id arg _ => forall j, s.lookup id = some j ->
      let need := ((s.job j).len + arg.bytes.length) % 2 ^ 32
      arg.bytes.length > encMaxDoc ∨ need > encMaxDoc ∨ need ≤ (s.job j).cap
  | .cancel _ => True
  | .status _ _ => True
  | .recycle _ => False
  | .dup _ _ => False
  | .flush => False
  | .retire _ => False

/-- A render goes through a filter that borrows.  The filter is that of the
job that the id names. -/
def RendersBorrowing (s : Store) : Op -> Prop
  | .render id _ => forall j, s.lookup id = some j -> (s.job j).filter.consumes = false
  | _ => True

/-- The text of a job fits in its buffer, which has the size that the job
records. -/
structure Fits (docs : Heap Bytes) (job : Job) : Prop where
  size : forall data, job.data = some data -> (docs.cell data).length = job.cap
  short : job.len ≤ job.cap
  bounded : job.cap ≤ encMaxDoc

/-- The documents are kept, and so are those that were released.  This is the
invariant behind the contract. -/
structure ContractHeld (s : Store) : Prop where
  documents : DocumentsKept s
  fits : forall j, s.InTable j -> Fits s.docs (s.job j)
  rendered : forall r, r ∈ s.renders -> r.job < s.jobs.next ∧
    exists data, (s.job r.job).data = some data ∧ data < s.docs.next ∧ s.docs.releases data = 1
  accesses : s.docs.faults = []

theorem Fits.congr {docs docs' : Heap Bytes} {job job' : Job} (fits : Fits docs job)
    (sheet : job'.sheet = job.sheet)
    (cells : forall data, job.data = some data -> docs'.cell data = docs.cell data) : Fits docs' job' := by
  simp only [Job.sheet, Prod.mk.injEq] at sheet
  rcases sheet with ⟨sameData, sameLen, sameCap, _⟩
  refine ⟨fun data owned => ?_, ?_, sameCap ▸ fits.bounded⟩
  · rw [sameData] at owned
    rw [cells data owned, sameCap]
    exact fits.size data owned
  · rw [sameLen, sameCap]
    exact fits.short

namespace ContractHeld

variable {s s' : Store}

theorem contractKept (kept : ContractHeld s) : ContractKept s where
  rendered := fun r member => by
    rcases (kept.rendered r member).2 with ⟨data, owned, _, once⟩
    exact ⟨data, owned, once⟩
  held := fun j inTable => by
    rcases kept.documents.allocated j inTable with ⟨data, owned⟩
    exact ⟨data, owned, kept.documents.holds.live j data inTable owned⟩
  once := kept.documents.holds.once
  accesses := kept.accesses

theorem issued (kept : ContractHeld s) {j : Block} (inTable : s.InTable j) : j < s.jobs.next := by
  rcases kept.documents.table with ⟨q, consistent⟩
  exact consistent.issued j inTable

/-- A change that no document and no render notices keeps the contract. -/
theorem keep (kept : ContractHeld s) (documents : DocumentsKept s')
    (next : s.jobs.next ≤ s'.jobs.next) (inTable : forall j, s'.InTable j -> s.InTable j)
    (sheets : forall j, j < s.jobs.next -> (s'.job j).sheet = (s.job j).sheet)
    (docs : s'.docs = s.docs) (renders : s'.renders = s.renders) : ContractHeld s' where
  documents := documents
  fits := fun j held => by
    rw [docs]
    exact (kept.fits j (inTable j held)).congr (sheets j (kept.issued (inTable j held))) fun _ _ => rfl
  rendered := fun r member => by
    rw [renders] at member
    rcases kept.rendered r member with ⟨issued, data, owned, inside, once⟩
    rw [docs]
    have same := congrArg Prod.fst (sheets r.job issued)
    exact ⟨Nat.lt_of_lt_of_le issued next, data, same.trans owned, inside, once⟩
  accesses := by
    rw [docs]
    exact kept.accesses

theorem touchJob (kept : ContractHeld s) (j : Block) : ContractHeld (s.touchJob j) :=
  kept.keep (kept.documents.touchJob j) (Nat.le_of_eq (Heap.touch_next ..).symm) (fun _ held => held)
    (fun k _ => congrArg Job.sheet (s.touchJob_job j k)) rfl rfl

theorem activate (kept : ContractHeld s) {j : Block} (inTable : s.InTable j) :
    ContractHeld { s with gActive := some j } :=
  kept.keep (kept.documents.activate inTable) (Nat.le_refl _) (fun _ held => held) (fun _ _ => rfl) rfl rfl

theorem jobSubmit (kept : ContractHeld s) (fmt : Int) (filter : Option Filter) (init : Payload)
    (grant : Nat -> Grant) : ContractHeld (jobSubmit s fmt filter init grant).1 := by
  have documents := kept.documents.jobSubmit fmt filter init grant
  rcases jobSubmit_cases s fmt filter init grant with same | ⟨value, same⟩ |
    ⟨id, jobs, docs, metas, job, document, slot, admission, carries, _, _, same⟩ <;>
      rw [same] at documents ⊢
  · exact kept
  · exact kept.keep documents (Nat.le_succ _) (fun _ held => held)
      (fun k issued => congrArg Job.sheet (s.jobs.alloc_cell_of_ne value (Nat.ne_of_lt issued))) rfl rfl
  · rcases admitted_frame s jobs docs metas id with ⟨sameNext, _, sameDocs, _, _, sameRenders⟩
    rcases admission.docs with ⟨source, next, releases, cells, extended⟩
    have sheets : forall k, ((admitted s jobs docs metas id).job k).sheet = (jobs.cell k).sheet :=
      fun k => sheet_of_fields (admitted_fields s jobs docs metas id k)
    have older : forall k, k < s.jobs.next ->
        ((admitted s jobs docs metas id).job k).sheet = (s.job k).sheet := fun k issued =>
      (sheets k).trans (congrArg Job.sheet (admission.jobs.older k (Nat.ne_of_lt issued)))
    refine ⟨documents, fun k inTable => ?_, fun r member => ?_, ?_⟩
    · change Fits (admitted s jobs docs metas id).docs _
      rw [sameDocs]
      rcases (admitted_inTable jobs docs metas slot k).mp inTable with old | new
      · refine (kept.fits k old).congr (older k (kept.issued old)) fun data owned => ?_
        have inside := (kept.documents.holds.live k data old owned).1
        rw [extended.older data (by rw [next]; exact Nat.ne_of_lt inside), cells]
      · rw [new]
        have fresh : Fits docs job := by
          refine ⟨fun data owned => ?_, ?_, ?_⟩
          · rw [admission.data, ← next] at owned
            rw [← Option.some.inj owned, extended.fresh]
            exact carries.size
          · rw [carries.len, carries.cap]
            exact Nat.le_max_right _ _
          · rw [carries.cap]
            exact Nat.max_le.mpr ⟨by decide, List.length_take_le _ _⟩
        exact fresh.congr ((sheets _).trans (congrArg Job.sheet admission.jobs.fresh)) fun _ _ => rfl
    · change r ∈ (admitted s jobs docs metas id).renders at member
      rw [sameRenders] at member
      rcases kept.rendered r member with ⟨issued, data, owned, inside, once⟩
      have same := congrArg Prod.fst (older r.job issued)
      change r.job < (admitted s jobs docs metas id).jobs.next ∧ exists data, _ ∧
        data < (admitted s jobs docs metas id).docs.next ∧
        (admitted s jobs docs metas id).docs.releases data = 1
      rw [sameNext, admission.jobs.next, sameDocs, extended.next, extended.releases, releases, next]
      exact ⟨Nat.lt_succ_of_lt issued, data, same.trans owned, Nat.lt_succ_of_lt inside, once⟩
    · change (admitted s jobs docs metas id).docs.faults = []
      rw [sameDocs, carries.accesses (kept.documents.holds.unused _ (Nat.le_refl _))]
      exact kept.accesses

/-- The text grows inside its buffer, or the append is refused; in neither
case is anything released. -/
theorem appendTo (kept : ContractHeld s) {j : Block} (inTable : s.InTable j) {arg : Payload}
    {outcome : Realloc} (documents : DocumentsKept (appendTo s j arg outcome).1)
    (within : arg.bytes.length > encMaxDoc ∨
      ((s.job j).len + arg.bytes.length) % 2 ^ 32 > encMaxDoc ∨
      ((s.job j).len + arg.bytes.length) % 2 ^ 32 ≤ (s.job j).cap) :
    ContractHeld (appendTo s j arg outcome).1 := by
  have fits := kept.fits j inTable
  rcases kept.documents.allocated j inTable with ⟨old, owned⟩
  have live := kept.documents.holds.live j old inTable owned
  have frame := appendTo_frame s j arg outcome
  have sameRenders := (appendTo_field Job.id (fun _ _ _ _ => rfl) s j arg outcome j).2
  have appended := appendTo_appended s j arg outcome
  generalize Encore.appendTo s j arg outcome = after at documents frame sameRenders appended ⊢
  cases appended with
  | refused _ => exact kept.touchJob j
  | exhausted _ _ _ => exact kept.touchJob j
  | grown allowed grows _ =>
      rcases within with long | long | room
      · exact absurd (Or.inl long) allowed
      · exact absurd (Or.inr long) allowed
      · exact absurd room (Nat.not_le.mpr grows)
  | written allowed room =>
      have sum : ((s.job j).len + arg.bytes.length) % 2 ^ 32 = (s.job j).len + arg.bytes.length := by
        have short := fits.short
        have bounded := fits.bounded
        apply Nat.mod_eq_of_lt
        rw [encMaxDoc] at bounded allowed
        omega
      have stays : (s.job j).len + arg.bytes.length ≤ (s.docs.cell old).length := by
        rw [fits.size old owned, ← sum]
        exact Nat.not_lt.mp room
      have written := Heap.write_rewritten live stays
      rw [owned, sum] at documents frame sameRenders ⊢
      rw [sum] at room
      obtain ⟨after, result⟩ : exists after, after =
          Store.modifyJob { s.touchJob j with docs := s.docs.writeAt (some old) (s.job j).len arg.bytes } j
            fun job => { job with len := (s.job j).len + arg.bytes.length } := ⟨_, rfl⟩
      rw [← result] at documents frame sameRenders ⊢
      have here : after.job j = { s.job j with len := (s.job j).len + arg.bytes.length } := by
        rw [result, Store.modifyJob_job_self]
        exact congrArg (fun job : Job => { job with len := (s.job j).len + arg.bytes.length })
          (s.touchJob_job j j)
      have others : forall k, k ≠ j -> after.job k = s.job k := by
        intro k different
        rw [result, Store.modifyJob_job_of_ne _ _ different]
        exact s.touchJob_job j k
      have sameDocs : after.docs = s.docs.write old (s.job j).len arg.bytes := by
        rw [result]
        rfl
      refine ⟨documents, fun k held => ?_, fun r member => ?_, ?_⟩
      · rw [sameDocs]
        by_cases self : k = j
        · rw [self, here]
          refine ⟨fun data named => ?_, Nat.not_lt.mp room, fits.bounded⟩
          rw [Heap.write_cell_length]
          exact fits.size data named
        · have before : s.InTable k := (frame.inTable_iff k).mp held
          rw [others k self]
          have fitsThere := kept.fits k before
          refine ⟨fun data named => ?_, fitsThere.short, fitsThere.bounded⟩
          rw [Heap.write_cell_length]
          exact fitsThere.size data named
      · rw [sameRenders] at member
        rcases kept.rendered r member with ⟨issued, data, named, inside, once⟩
        have sameData : (after.job r.job).data = (s.job r.job).data := by
          by_cases self : r.job = j
          · rw [self, here]
          · rw [others r.job self]
        rw [frame.next, sameDocs, Heap.write_next, Heap.write_releases]
        exact ⟨issued, data, sameData.trans named, inside, once⟩
      · rw [sameDocs]
        exact written.faults.trans kept.accesses

/-- A render through a filter that borrows: the retirement is what releases
the document, and it does so once. -/
theorem render (kept : ContractHeld s) {j : Block} (inTable : s.InTable j) {id : Int} {out : Bytes}
    (documents : DocumentsKept (Op.act s j (.render id out)))
    (borrowing : (s.job j).filter.consumes = false) : ContractHeld (Op.act s j (.render id out)) := by
  rcases kept.documents.table with ⟨q, consistent⟩
  rcases kept.documents.allocated j inTable with ⟨data, owned⟩
  have live := kept.documents.holds.live j data inTable owned
  have same := (callFilter_frame s j out).toSameSkeleton.trans (.touchJob _ j)
  have sameDocs : ((callFilter s j out).1.touchJob j).docs = s.docs :=
    callFilter_borrows borrowing owned live out
  have sameJobs : forall k, ((callFilter s j out).1.touchJob j).job k = s.job k := fun k =>
    (Store.touchJob_job _ j k).trans (s.touchJob_job j k)
  have log : ((callFilter s j out).1.touchJob j).renders =
    s.renders ++ [⟨j, (s.job j).filter, s.document j⟩] := rfl
  have still := (same.inTable_iff j).mpr inTable
  rcases (consistent.skeleton same).jobRetire_named still with ⟨index, holds, result⟩
  have vacates := Vacates.retireHeld (consistent.skeleton same) holds
  have act : Op.act s j (.render id out) = Encore.retireHeld ((callFilter s j out).1.touchJob j) index j :=
    congrArg Prod.fst result
  have sheets : forall k, ((Op.act s j (.render id out)).job k).sheet = (s.job k).sheet := by
    intro k
    rw [act, vacates.sheets k, sameJobs]
  have sameNext : (Op.act s j (.render id out)).jobs.next = s.jobs.next := by
    rw [act, retireHeld_next]
    exact same.next
  have released : (Op.act s j (.render id out)).docs = s.docs.release data := by
    rw [act, retireHeld_docs, sameJobs, sameDocs, owned]
    rfl
  refine ⟨documents, fun k held => ?_, fun r member => ?_, ?_⟩
  · rw [act] at held
    have before := (vacates.inTable k held).1
    rw [released]
    exact (kept.fits k ((same.inTable_iff k).mp before)).congr (sheets k) fun _ _ => rfl
  · rw [act, vacates.renders, log] at member
    rw [sameNext, released]
    rcases List.mem_append.mp member with old | new
    · rcases kept.rendered r old with ⟨issued, block, blockOwned, inside, once⟩
      have apart : block ≠ data := by
        intro same
        rw [same, live.2] at once
        cases once
      refine ⟨issued, block, (congrArg Prod.fst (sheets r.job)).trans blockOwned, inside, ?_⟩
      rw [Heap.release_releases_of_ne _ apart]
      exact once
    · rw [List.mem_singleton.mp new]
      refine ⟨kept.issued inTable, data, (congrArg Prod.fst (sheets j)).trans owned, live.1, ?_⟩
      rw [Heap.release_releases_self, live.2]
  · rw [released, Heap.release_faults]
    exact kept.accesses

theorem cancel (kept : ContractHeld s) (j : Block) :
    ContractHeld (s.modifyJob j fun job => { job with state := .cancelled }) := by
  rcases kept.documents.table with ⟨q, consistent⟩
  have documents : DocumentsKept (s.modifyJob j fun job => { job with state := .cancelled }) :=
    kept.documents.transfer ⟨q, consistent.skeleton (.setState s j .cancelled)⟩ (fun _ => Iff.rfl) rfl
      rfl rfl fun k _ => Store.modifyJob_field Job.data rfl k
  exact kept.keep documents (Nat.le_of_eq (Heap.modify_next ..).symm) (fun _ held => held)
    (fun k _ => Store.modifyJob_field Job.sheet rfl k) rfl rfl

theorem jobStatus (kept : ContractHeld s) (verbose : Bool) (out : Bytes) :
    ContractHeld (jobStatus s verbose out).1 := by
  exact jobStatus_keeps (P := ContractHeld) verbose out kept fun j _ => kept.touchJob j

theorem handled (kept : ContractHeld s) {op : Op} {id : Int} (handled : op.jobId = some id)
    (acts : forall j, s.lookup id = some j -> ContractHeld { s with gActive := some j } ->
      Store.InTable { s with gActive := some j } j ->
      ContractHeld (op.act { s with gActive := some j } j)) : ContractHeld (step s op) := by
  cases found : s.lookup id with
  | none =>
      rw [step_absent handled found]
      exact kept
  | some j =>
      rcases kept.documents.table with ⟨q, consistent⟩
      have inTable := consistent.lookup_inTable found
      rw [step_found handled found]
      exact acts j found (kept.activate inTable) inTable

/-- One call of the batch client keeps the contract, if it is no render
through the consuming filter. -/
theorem step (kept : ContractHeld s) {op : Op} (offered : BatchCall s op)
    (condition : RendersBorrowing s op) : ContractHeld (step s op) := by
  cases op with
  | submit fmt filter init grant => exact kept.jobSubmit fmt filter init grant
  | status verbose out => exact kept.jobStatus verbose out
  | render id out =>
      have documents : DocumentsKept (Encore.step s (.render id out)) :=
        kept.documents.handled rfl trivial condition
      refine kept.handled rfl fun j found active inTable => ?_
      rw [step_found rfl found] at documents
      exact active.render inTable documents (condition j found)
  | append id arg outcome =>
      have stays : KeepsOneOwner s (.append id arg outcome) := by
        intro j found moves
        rcases offered j found with long | long | room
        · exact Nat.not_lt.mpr moves.1 long
        · exact Nat.not_lt.mpr moves.2.1 long
        · exact Nat.not_lt.mpr room moves.2.2.1
      have documents : DocumentsKept (Encore.step s (.append id arg outcome)) :=
        kept.documents.handled rfl trivial stays
      refine kept.handled rfl fun j found active inTable => ?_
      rw [step_found rfl found] at documents
      exact active.appendTo inTable documents (offered j found)
  | cancel id => exact kept.handled rfl fun j _ active _ => active.cancel j
  | recycle id => exact offered.elim
  | dup id grant => exact offered.elim
  | flush => exact offered.elim
  | retire id => exact offered.elim

end ContractHeld

theorem contractHeld_spoolNew : ContractHeld spoolNew where
  documents := .spoolNew
  fits := fun j held => absurd held (not_inTable_spoolNew j)
  rendered := fun _ impossible => absurd impossible List.not_mem_nil
  accesses := rfl

/-! ## Exactly the runs that respect the contract -/

/-- A render through the consuming filter releases a document twice: the
filter does, and the retirement behind it. -/
theorem not_contractKept_of_missed {s : Store} (kept : ContractHeld s) {op : Op}
    (missed : ¬ RendersBorrowing s op) : ¬ ContractKept (step s op) := by
  cases op with
  | render id out =>
      simp only [RendersBorrowing, not_forall, Bool.not_eq_false] at missed
      rcases missed with ⟨j, found, consumed⟩
      rcases render_releases_twice kept.documents out found consumed with ⟨data, twice⟩
      exact fun contract => absurd (Nat.le_trans twice (contract.once data)) (by decide)
  | submit fmt filter init grant => exact absurd trivial missed
  | append id arg outcome => exact absurd trivial missed
  | cancel id => exact absurd trivial missed
  | recycle id => exact absurd trivial missed
  | dup id grant => exact absurd trivial missed
  | status verbose out => exact absurd trivial missed
  | flush => exact absurd trivial missed
  | retire id => exact absurd trivial missed

/-- In the runs of the batch client every document is released once, by the
filter or by the store, exactly when no render goes through the filter that
consumes its input. -/
theorem contractKept_iff_rendersBorrowing (ops : List Op) (offered : Guarded step BatchCall spoolNew ops) :
    Throughout step ContractKept spoolNew ops ↔ Guarded step RendersBorrowing spoolNew ops := by
  have keeps : forall s op, ContractHeld s -> BatchCall s op -> RendersBorrowing s op ->
      ContractHeld (step s op) := fun _ _ kept within condition => kept.step within condition
  have breaks : forall s op, ContractHeld s -> BatchCall s op -> ¬ RendersBorrowing s op ->
      ¬ ContractKept (step s op) := fun _ _ kept _ missed => not_contractKept_of_missed kept missed
  exact throughout_iff_of_within (fun _ => ContractHeld.contractKept) keeps breaks
    contractHeld_spoolNew offered

def printText : List Op :=
  [.submit 1 (some .text) helloPage generous, .render 0 (List.replicate 256 0)]

theorem printText_released_twice : Guarded step BatchCall spoolNew printText ∧
    ¬ Throughout step ContractKept spoolNew printText := by
  refine ⟨⟨trivial, trivial, trivial⟩, fun every => ?_⟩
  have once := (throughout_end every).once 0
  revert once
  decide +kernel

def printRaster : List Op :=
  [.submit 0 (some .raster) helloPage generous, .append 0 helloPage .fails,
    .render 0 (List.replicate 256 0)]

theorem printRaster_contractKept : Throughout step ContractKept spoolNew printRaster := by
  refine (contractKept_iff_rendersBorrowing printRaster ⟨trivial, ?_, trivial, trivial⟩).mpr
    ⟨trivial, trivial, ?_, trivial⟩
  · intro j found
    cases found
    exact Or.inr (Or.inr (by decide +kernel))
  · intro j found
    cases found
    rfl

end Encore
end BugMuseum
