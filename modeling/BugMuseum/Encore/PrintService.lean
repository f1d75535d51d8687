import BugMuseum.Encore.AppendRealloc
import BugMuseum.Encore.Cancellation
import BugMuseum.Encore.FlushOrder
import BugMuseum.Encore.Spoold

namespace BugMuseum
namespace Encore

open Foundation

/-!
# What the spooler is for

A client of `spoold` sees a table of jobs that wait in the order in which they came.  A
submit takes the lowest free id, an append makes the document longer, a render prints one
job and answers with its preview, and a flush prints what is waiting and not cancelled.
This module states that service without any memory, and what it means that a store holds
its jobs.  Each call of `spoolcore` does to such a store what the service says, unless it
runs into one of the four mistakes in the ownership of buffers.
-/

/-! ## The service -/

/-- A job that waits to be printed, with the capacity of its buffer, which
only the refusal of an append depends on. -/
structure Entry where
  filter : Filter
  text : Bytes
  cap : Nat
  state : JobState

namespace Entry

/-- A job that is submitted with this text, cut to the limit of a document. -/
def submitted (filter : Filter) (init : Bytes) : Entry where
  filter := filter
  text := init.take encMaxDoc
  cap := max 32 (init.take encMaxDoc).length
  state := .queued

variable (e : Entry)

/-- The text may grow by the bytes, and there is room for them or the
allocator makes room. -/
def Accepts (arg : Bytes) (outcome : Realloc) : Prop :=
  e.text.length + arg.length ≤ encMaxDoc ∧
    (e.text.length + arg.length ≤ e.cap ∨ outcome.succeeds)

instance (arg : Bytes) (outcome : Realloc) : Decidable (e.Accepts arg outcome) :=
  inferInstanceAs (Decidable (_ ∧ _))

def append (arg : Bytes) : Entry :=
  { e with text := e.text ++ arg, cap := max e.cap (e.text.length + arg.length) }

/-- The buffer does not move: either there is room in it, or it grows in
place, or the allocation fails. -/
def Stays (arg : Bytes) (outcome : Realloc) : Prop :=
  e.text.length + arg.length ≤ encMaxDoc -> e.cap < e.text.length + arg.length -> outcome.relocates = false

instance (arg : Bytes) (outcome : Realloc) : Decidable (e.Stays arg outcome) :=
  inferInstanceAs (Decidable (_ -> _ -> _))

end Entry

/-- What a filter makes of a document, in a buffer of 256 bytes.  The spooler
answers a render with it. -/
def Filter.answer : Filter -> Bytes -> Bytes
  | .raster, document =>
      ascii "raster: " ++ decimal document.length ++ ascii " cells, ink=" ++ decimal (ink document)
  | .text, document => document.take 255
  | .pdfish, document =>
      ascii "%PDF-1.4 preview: " ++ decimal document.length ++ ascii " bytes, head=0x" ++
        hexByte (document.headD 0)

structure Spooler where
  jobs : Nat -> Option Entry
  queue : List Nat              -- the ids of the jobs, in the order in which they came
  active : Option Nat           -- the job that was touched last
  printed : List (Filter × Bytes)

namespace Spooler

def start : Spooler where
  jobs := fun _ => none
  queue := []
  active := none
  printed := []

variable (p : Spooler)

/-- The job that a request names: the active one for the reserved id, and
otherwise the one with that id. -/
def find (job : UInt16) : Option (Nat × Entry) :=
  (if job = 0xFFFF then p.active else some job.toNat).bind fun id => (p.jobs id).map fun e => (id, e)

def submit (filter : Option Filter) (init : Bytes) (granted : Bool) : Spooler × Bytes :=
  match filter, firstFree spoolMax p.jobs, granted with
  | some filter, some id, true =>
      ({ p with
         jobs := Function.update p.jobs id (some (.submitted filter init))
         queue := p.queue ++ [id]
         active := some id },
        ascii "OK job=" ++ decimal id ++ ascii "\n")
  | _, _, _ => (p, ascii "ERR submit\n")

/-- A job is printed, and leaves.  Nothing is active behind it, as it was
touched last itself. -/
def print (id : Nat) (e : Entry) : Spooler where
  jobs := Function.update p.jobs id none
  queue := p.queue.erase id
  active := none
  printed := p.printed ++ [(e.filter, e.text)]

/-- A job is touched, and changed.  It keeps its id and its place in the
queue. -/
def put (id : Nat) (e : Entry) : Spooler :=
  { p with jobs := Function.update p.jobs id (some e), active := some id }

def append (id : Nat) (e : Entry) (arg : Bytes) (outcome : Realloc) : Spooler × Bytes :=
  if e.Accepts arg outcome then (p.put id (e.append arg), ascii "OK\n")
  else ({ p with active := some id }, ascii "ERR\n")

/-- What the status says is what the spooler says, and it leaves the store as
it is. -/
def status (verbose : Bool) : Bytes :=
  let summary := ascii "jobs=" ++ decimal (occupied spoolMax p.jobs)
  match if verbose then p.find 0xFFFF else none with
  | none => summary ++ ascii "\n"
  | some (id, e) =>
      summary ++ (ascii " active=#" ++ decimal id ++ ascii " len=" ++ decimal e.text.length ++ ascii " state=" ++
        decimal e.state.code) ++ ascii "\n"

/-- What waits is printed in order, the cancelled jobs left out, and the
spooler is empty. -/
def flush : Spooler where
  jobs := fun _ => none
  queue := []
  active := none
  printed := p.printed ++
    ((p.queue.filterMap p.jobs).filter fun e => e.state ≠ .cancelled).map fun e => (e.filter, e.text)

/-- Both allocations without which a submit fails.  The header block may be
missing. -/
def granted (grant : Nat -> Grant) : Bool :=
  (grant 0).isSome && (grant 1).isSome

def serve (filters : Nat -> Option Filter) (isTcp : Bool) (r : Request) (answers : Answers) : Spooler × Bytes :=
  if r.op = opSubmit then
    p.submit (filterFor filters (r.fmt &&& filterIdMask)) r.arg.bytes (granted answers.grant)
  else if r.op = opRender then
    match p.find r.job with
    | none => (p, ascii "ERR\n")
    | some (id, e) => (p.print id e, e.filter.answer e.text ++ ascii "\n")
  else if r.op = opAppend then
    match p.find r.job with
    | none => (p, ascii "ERR\n")
    | some (id, e) => p.append id e r.arg.bytes answers.outcome
  else if r.op = opCancel then
    match p.find r.job with
    | none => (p, ascii "OK\n")
    | some (id, e) => (p.put id { e with state := .cancelled }, ascii "OK\n")
  else if r.op = opStatus then (p, p.status (decide (r.fmt &&& flagVerbose ≠ 0) && !isTcp))
  else if r.op = opRecycle then (p, ascii "ERR local-only\n")
  else if r.op = opDup then (p, ascii "ERR net-only\n")
  else if isTcp then (p.flush, ascii "OK\n")
  else (p, ascii "ERR net-only\n")

/-- The requests that leave every buffer with one owner: no append whose
buffer moves, no flush of a cancelled job, and the transport refuses to
recycle and to duplicate. -/
def Offers (isTcp : Bool) (r : Request) (answers : Answers) : Prop :=
  (r.op = opAppend -> forall found, found ∈ p.find r.job -> found.2.Stays r.arg.bytes answers.outcome) ∧
    (r.op = opRecycle -> isTcp = true) ∧ (r.op = opDup -> isTcp = false) ∧
    (r.op = opFlush -> isTcp = true -> forall id, id ∈ p.queue -> forall e, e ∈ p.jobs id -> e.state ≠ .cancelled)

instance (isTcp : Bool) (r : Request) (answers : Answers) : Decidable (p.Offers isTcp r answers) :=
  inferInstanceAs (Decidable (_ ∧ _ ∧ _ ∧ _))

end Spooler

/-! ## The table in memory -/

/-- What a job says apart from its document: its id, its filter, its capacity
and its state. -/
def Job.face (job : Job) : Int × Filter × Nat × JobState :=
  (job.id, job.filter, job.cap, job.state)

theorem face_of_fields {left right : Job}
    (same : { left with qnext := none } = { right with qnext := none }) : left.face = right.face := by
  change Job.face { left with qnext := none } = Job.face { right with qnext := none }
  rw [same]

namespace Store

variable (s : Store)

def entry (j : Block) : Entry where
  filter := (s.job j).filter
  text := s.document j
  cap := (s.job j).cap
  state := (s.job j).state

/-- The jobs by their ids, as the service sees them. -/
def table : Nat -> Option Entry := fun index =>
  (s.slots index).map s.entry

def number (j : Block) : Nat :=
  (s.job j).id.toNat

/-- What a status adds to the number of jobs when it is asked for more and
there is an active job. -/
def preview (verbose : Bool) : Bytes :=
  match if verbose then s.gActive else none with
  | none => []
  | some j =>
      ascii " active=#" ++ decimal (s.job j).id ++ ascii " len=" ++ decimal (s.job j).len ++ ascii " state=" ++
        decimal (s.job j).state.code

/-- The calls of the filters, with the documents that they were handed. -/
def printed : List (Filter × Bytes) :=
  s.renders.map fun r => (r.filter, r.document)

theorem firstFree_table : firstFree spoolMax s.table = firstFree spoolMax s.slots := by
  simp [firstFree, table]

theorem occupied_table : occupied spoolMax s.table = occupied spoolMax s.slots := by
  simp [occupied, table]

variable {s}

theorem entry_eq {s' : Store} {k : Block} (face : (s'.job k).face = (s.job k).face)
    (document : s'.document k = s.document k) : s'.entry k = s.entry k := by
  simp only [Job.face, Prod.mk.injEq] at face
  simp only [entry, document, face]

theorem number_eq {s' : Store} {k : Block} (face : (s'.job k).face = (s.job k).face) : s'.number k = s.number k :=
  congrArg (fun face => face.1.toNat) face

/-- One slot is written, and the jobs of the others stay as they are. -/
theorem table_update {s' : Store} {index : Nat} {held : Option Block}
    (slots : s'.slots = Function.update s.slots index held)
    (others : forall other k, other ≠ index -> s.slots other = some k -> s'.entry k = s.entry k) :
    s'.table = Function.update s.table index (held.map s'.entry) := by
  funext other
  rw [table, slots]
  by_cases same : other = index
  · subst same
    rw [Function.update_self, Function.update_self]
  · rw [Function.update_of_ne same, Function.update_of_ne same, table]
    cases slot : s.slots other with
    | none => rfl
    | some k => exact congrArg some (others other k same slot)

end Store

/-- The store holds the jobs of the spooler, and each block of it has one
owner.  The queue of the spooler is the linked queue, read as ids. -/
structure Represents (s : Store) (p : Spooler) : Prop where
  jobs : s.table = p.jobs
  queue : exists q, Consistent s none q ∧ q.map s.number = p.queue
  active : s.gActive.map s.number = p.active
  printed : s.printed = p.printed
  filed : exists texts, Filed s texts none
  owned : Owned s

namespace Represents

variable {s : Store} {p : Spooler}

theorem start : Represents spoolNew .start where
  jobs := rfl
  queue := ⟨[], consistent_spoolNew, rfl⟩
  active := rfl
  printed := rfl
  filed := ⟨fun _ => [], archive_spoolNew.filed⟩
  owned := owned_spoolNew

/-- A job of the table stands in the slot with its number. -/
theorem slot (represents : Represents s p) {j : Block} (inTable : s.InTable j) : s.slots (s.number j) = some j := by
  rcases represents.queue with ⟨q, consistent, _⟩
  rcases Store.slotAt_id consistent.numbered inTable with ⟨index, named, holds, _⟩
  rw [Store.number, named]
  exact holds

theorem entry (represents : Represents s p) {j : Block} (inTable : s.InTable j) :
    p.jobs (s.number j) = some (s.entry j) := by
  rw [← represents.jobs, Store.table, represents.slot inTable]
  rfl

/-- An id of the wire names the same job to the store and to the spooler, the
reserved id included. -/
theorem find (represents : Represents s p) (job : UInt16) :
    p.find job = (s.lookup job.toNat).map fun j => (s.number j, s.entry j) := by
  rcases represents.queue with ⟨q, consistent, _⟩
  rw [Spooler.find, Store.lookup]
  by_cases recent : job = 0xFFFF
  · have reserved : (job.toNat : Int) = spoolRecent := by
      rw [recent]
      rfl
    rw [if_pos recent, if_pos reserved, ← represents.active]
    cases named : s.gActive with
    | none => rfl
    | some j => simp [represents.entry (consistent.active j named)]
  · have ordinary : (job.toNat : Int) ≠ spoolRecent := by
      intro same
      apply recent
      rw [← UInt16.toNat_inj]
      exact Int.ofNat.inj same
    rw [if_neg recent, if_neg ordinary, Store.slotAt, Int.toNat_natCast, ← represents.jobs]
    split
    · cases slot : s.slots job.toNat with
      | none => simp [Store.table, slot]
      | some j =>
          have inside := (consistent.ids _ j slot).1
          omega
    · cases slot : s.slots job.toNat with
      | none => simp [Store.table, slot]
      | some j =>
          have number : s.number j = job.toNat := by
            rw [Store.number, (consistent.ids _ j slot).2, Int.toNat_natCast]
          simp [Store.table, slot, number]

/-- A job keeps its document unless the call appends to it.  The law of the
documents says so for every run. -/
theorem document_kept (represents : Represents s p) (op : Op) (offered : op.borrowing) {k : Block}
    (inTable : s.InTable k) (stays : (step s op).InTable k)
    (others : forall id arg outcome, op = .append id arg outcome -> s.lookup id ≠ some k) :
    (step s op).document k = s.document k := by
  rcases represents.queue with ⟨q, consistent, _⟩
  rcases represents.filed with ⟨texts, filed⟩
  rw [((filed.step consistent offered).fair k stays).document, (filed.fair k inTable).document]
  exact texts_kept consistent inTable others

theorem step_withdrawn (represents : Represents s p) (value : Job) : Represents (withdrawn s value) p := by
  rcases represents.queue with ⟨q, consistent, ids⟩
  rcases represents.filed with ⟨texts, filed⟩
  have same : forall k, s.InTable k -> (withdrawn s value).job k = s.job k :=
    fun k inTable => Heap.alloc_cell_of_ne _ _ (Nat.ne_of_lt (consistent.issued k inTable))
  have number : forall k, s.InTable k -> (withdrawn s value).number k = s.number k :=
    fun k inTable => congrArg (fun job : Job => job.id.toNat) (same k inTable)
  have filed' := filed.transfer (.withdrawn consistent value)
  refine ⟨?_, ⟨q, consistent.withdrawn value, ?_⟩, ?_, represents.printed, ⟨texts, filed'⟩,
    represents.owned.withdrawn consistent value⟩
  · rw [← represents.jobs]
    funext index
    rw [Store.table, Store.table]
    cases slot : s.slots index with
    | none => simp [withdrawn, slot]
    | some k =>
        have inTable : s.InTable k := ⟨index, (consistent.ids index k slot).1, slot⟩
        have document : (withdrawn s value).document k = s.document k :=
          (filed'.fair k inTable).document.trans (filed.fair k inTable).document.symm
        have entry := Store.entry_eq (congrArg Job.face (same k inTable)) document
        simp [withdrawn, slot, ← entry]
  · rw [← ids]
    apply List.map_congr_left
    intro k queued
    exact number k ((consistent.held k).mpr (Or.inr queued))
  · rw [← represents.active]
    change s.gActive.map _ = _
    cases named : s.gActive with
    | none => rfl
    | some k => exact congrArg some (number k (consistent.active k named))

/-- The new job of a submit. -/
theorem enter (represents : Represents s p) {fmt : Int} {filter : Filter} {init : Payload} {grant : Nat -> Grant}
    {jobs : Heap Job} {docs metas : Heap Bytes} {id : Nat} {job : Job} {document : Bytes}
    (admission : Admission s jobs docs id job document)
    (carries : Carries s.docs docs job document (init.bytes.take encMaxDoc)) (sameFilter : job.filter = filter)
    (slot : firstFree spoolMax s.slots = some id) (borrowing : filter.consumes = false)
    (result : jobSubmit s fmt (some filter) init grant = (admitted s jobs docs metas id, (id : Int))) :
    Represents (admitted s jobs docs metas id)
      { p with
        jobs := Function.update p.jobs id (some (.submitted filter init.bytes))
        queue := p.queue ++ [id]
        active := some id } := by
  rcases represents.queue with ⟨q, consistent, ids⟩
  rcases represents.filed with ⟨texts, filed⟩
  have offered : (Op.submit fmt (some filter) init grant).borrowing := by
    rintro _ ⟨⟩
    exact borrowing
  have stepped : step s (.submit fmt (some filter) init grant) = admitted s jobs docs metas id :=
    congrArg Prod.fst result
  have member := admitted_inTable jobs docs metas slot
  have newer : (admitted s jobs docs metas id).InTable s.jobs.next := (member _).mpr (Or.inr rfl)
  have consistent' := consistent.jobSubmit fmt (some filter) init grant
  rw [result, entered_admitted jobs docs metas slot] at consistent'
  have filed' := filed.step consistent offered
  have owned' := represents.owned.jobSubmit consistent fmt init grant offered
  rw [result] at owned'
  rw [stepped] at filed'
  have face : forall k, s.InTable k -> ((admitted s jobs docs metas id).job k).face = (s.job k).face :=
    fun k old => face_of_fields (admitted_old consistent admission metas old)
  have newFace : ((admitted s jobs docs metas id).job s.jobs.next).face = job.face :=
    face_of_fields (admitted_new admission metas)
  have older : q.map (admitted s jobs docs metas id).number = p.queue := by
    rw [← ids]
    apply List.map_congr_left
    intro k queued
    exact Store.number_eq (face k ((consistent.held k).mpr (Or.inr queued)))
  simp only [Job.face, Prod.mk.injEq] at newFace
  have newNumber : (admitted s jobs docs metas id).number s.jobs.next = id := by
    rw [Store.number, newFace.1, admission.id, Int.toNat_natCast]
  have text : (admitted s jobs docs metas id).document s.jobs.next = init.bytes.take encMaxDoc := by
    rw [(filed'.fair _ newer).document, Op.texts, result, entered_admitted jobs docs metas slot, Option.elim_some,
      Function.update_self]
  have entry : (admitted s jobs docs metas id).entry s.jobs.next = .submitted filter init.bytes := by
    simp only [Store.entry, text, newFace, sameFilter, carries.cap, admission.state]
    rfl
  refine ⟨?_, ⟨q ++ [s.jobs.next], consistent', ?_⟩, ?_, ?_, ⟨_, filed'⟩, owned'⟩
  · rw [← represents.jobs, Store.table_update (admitted_slots s jobs docs metas id), Option.map_some, entry]
    intro other k _ holds
    have old : s.InTable k := ⟨other, (consistent.ids other k holds).1, holds⟩
    have stays : (step s (.submit fmt (some filter) init grant)).InTable k := by
      rw [stepped]
      exact (member k).mpr (Or.inl old)
    have document := represents.document_kept _ offered old stays (by rintro _ _ _ ⟨⟩)
    rw [stepped] at document
    exact Store.entry_eq (face k old) document
  · rw [List.map_append, older, List.map_singleton, newNumber]
  · exact congrArg some newNumber
  · rw [← represents.printed, Store.printed, (admitted_frame s jobs docs metas id).2.2.2.2.2]
    rfl

theorem jobReply_printed {id : Nat} (inside : id < spoolMax) :
    jobReply id = ascii "OK job=" ++ decimal id ++ ascii "\n" := by
  have digits : (decimal id).length ≤ 3 := by
    rw [decimal_length_le_iff (by decide)]
    exact inside.trans (by decide)
  have clean : (0 : UInt8) ∉ ascii "OK job=" ++ decimal id ++ ascii "\n" := by
    simp only [List.mem_append, not_or]
    exact ⟨⟨by decide, decimal_clean _⟩, by decide⟩
  have words : (ascii "OK job=").length = 7 ∧ (ascii "\n").length = 1 := by decide
  have fits : (ascii "OK job=" ++ decimal id ++ ascii "\n").length < (List.replicate 40 (0 : UInt8)).length := by
    simp only [List.length_append, List.length_replicate]
    omega
  have printed := cString_printed clean fits
  rw [List.length_replicate] at printed
  exact printed

/-- A new job stands at the end of the queue, and the reply names its id.
Where the submit fails, it fails on both sides. -/
theorem submit (represents : Represents s p) (fmt : Int) (filter : Option Filter) (init : Payload)
    (grant : Nat -> Grant) (borrowing : forall chosen, filter = some chosen -> chosen.consumes = false) :
    Represents (jobSubmit s fmt filter init grant).1 (p.submit filter init.bytes (Spooler.granted grant)).1 ∧
      (if (jobSubmit s fmt filter init grant).2 < 0 then ascii "ERR submit\n"
        else jobReply (jobSubmit s fmt filter init grant).2) =
          (p.submit filter init.bytes (Spooler.granted grant)).2 := by
  have free : firstFree spoolMax p.jobs = firstFree spoolMax s.slots := by
    rw [← represents.jobs, s.firstFree_table]
  by_cases refused : filter = none ∨ firstFree spoolMax s.slots = none ∨ grant 0 = none ∨ grant 1 = none
  · have failed : (jobSubmit s fmt filter init grant).2 = spoolErr ∧ _ := jobSubmit_failure refused
    have nothing : p.submit filter init.bytes (Spooler.granted grant) = (p, ascii "ERR submit\n") := by
      unfold Spooler.submit Spooler.granted
      rw [free]
      rcases refused with same | same | same | same
      · rw [same]
      · rw [same]
        cases filter <;> rfl
      · rw [same]
        cases filter <;> cases firstFree spoolMax s.slots <;> rfl
      · rw [same, Option.isSome_none, Bool.and_false]
        cases filter <;> cases firstFree spoolMax s.slots <;> rfl
    rw [nothing, failed.1]
    refine ⟨?_, rfl⟩
    rcases failed.2 with same | ⟨value, same⟩
    · rw [same]
      exact represents
    · rw [same]
      exact represents.step_withdrawn value
  · simp only [not_or, ← ne_eq, Option.ne_none_iff_exists'] at refused
    rcases refused with ⟨⟨filter, rfl⟩, ⟨id, slot⟩, ⟨first, one⟩, second, two⟩
    have accepted : p.submit (some filter) init.bytes (Spooler.granted grant) =
        ({ p with
           jobs := Function.update p.jobs id (some (.submitted filter init.bytes))
           queue := p.queue ++ [id]
           active := some id }, ascii "OK job=" ++ decimal id ++ ascii "\n") := by
      simp [Spooler.submit, Spooler.granted, free, slot, one, two]
    rcases jobSubmit_success fmt filter init slot one two with
      ⟨jobs, docs, metas, job, document, admission, carries, sameFilter, header, result⟩
    rw [accepted, result, if_neg (Int.not_lt.mpr (Int.natCast_nonneg id))]
    exact ⟨represents.enter admission carries sameFilter slot (borrowing filter rfl) result,
      jobReply_printed (firstFree_some slot).1⟩

/-- A job is touched, and is the active one on both sides. -/
theorem activate (represents : Represents s p) {j : Block} (inTable : s.InTable j) :
    Represents { s with gActive := some j } { p with active := some (s.number j) } where
  jobs := represents.jobs
  queue := by
    rcases represents.queue with ⟨q, consistent, ids⟩
    exact ⟨q, consistent.activate inTable, ids⟩
  active := rfl
  printed := represents.printed
  filed := by
    rcases represents.filed with ⟨texts, filed⟩
    exact ⟨texts, filed.transfer (.setActive s _)⟩
  owned := represents.owned.setActive (some j)

/-- No two jobs have one number, so the spooler and the store mean the same
job. -/
theorem unique (represents : Represents s p) {j k : Block} (inTable : s.InTable j) (other : s.InTable k)
    (same : s.number k = s.number j) : k = j := by
  have here := represents.slot inTable
  rw [← same, represents.slot other] at here
  exact Option.some.inj here

/-- The job of a render is printed and leaves, and so it does from the table
of the spooler. -/
theorem render (represents : Represents s p) {id : Int} {j : Block} (found : s.lookup id = some j) (out : Bytes) :
    Represents (step s (.render id out)) (p.print (s.number j) (s.entry j)) := by
  rcases represents.queue with ⟨q, consistent, ids⟩
  rcases represents.filed with ⟨texts, filed⟩
  have inTable := consistent.lookup_inTable found
  have active := consistent.activate inTable
  obtain ⟨t, tEq⟩ : exists t, t = (callFilter { s with gActive := some j } j out).1.touchJob j := ⟨_, rfl⟩
  have jobs : forall k, t.job k = s.job k := by
    intro k
    rw [tEq, Store.touchJob_job]
    exact s.touchJob_job j k
  have same : SameSkeleton { s with gActive := some j } t := by
    rw [tEq]
    exact (callFilter_frame _ j out).toSameSkeleton.trans (.touchJob _ j)
  have renders : t.renders = s.renders ++ [s.print j] := by
    rw [tEq]
    rfl
  have table := active.skeleton same
  have still : t.InTable j := (same.inTable_iff j).mpr inTable
  rcases table.jobRetire_named still with ⟨index, holds, result⟩
  have handled : (Op.render id out).jobId = some id := rfl
  have stepped : step s (.render id out) = retireHeld t index j := by
    rw [step_found handled found, Op.act, ← tEq, result]
  have slot : s.slots index = some j := by
    rw [← holds, same.slots]
  have number : s.number j = index := by
    rw [Store.number, (consistent.ids index j slot).2, Int.toNat_natCast]
  have face : forall k, ((retireHeld t index j).job k).face = (s.job k).face := by
    intro k
    rw [← jobs k]
    exact face_of_fields (retireHeld_fields t index j k)
  have offered : (Op.render id out).borrowing := trivial
  have filed' := filed.step consistent offered
  have owned' := represents.owned.handled consistent handled trivial
  have consistent' := table.retireHeld holds fun k impossible => absurd impossible.symm (Option.some_ne_none k)
  have member := table.retireHeld_inTable holds
  rw [stepped] at filed' owned' ⊢
  rw [number]
  refine ⟨?_, ⟨q.erase j, consistent', ?_⟩, ?_, ?_, ⟨_, filed'⟩, owned'⟩
  · have cleared : (retireHeld t index j).slots = Function.update s.slots index none := by
      rw [retireHeld_slots, same.slots]
    rw [Store.table_update cleared, represents.jobs]
    · rfl
    intro other k apart standing
    have old : s.InTable k := ⟨other, (consistent.ids other k standing).1, standing⟩
    have different : k ≠ j := by
      intro equal
      rw [equal] at standing
      exact apart (consistent.numbered.unique standing slot)
    have stays : (step s (.render id out)).InTable k := by
      rw [stepped]
      exact (member k).mpr ⟨(same.inTable_iff k).mpr old, different⟩
    have document := represents.document_kept _ offered old stays (by rintro _ _ _ ⟨⟩)
    rw [stepped] at document
    exact Store.entry_eq (face k) document
  · have numbers : (q.erase j).map (retireHeld t index j).number = (q.erase j).map s.number :=
      List.map_congr_left fun k _ => Store.number_eq (face k)
    have only : forall k, k ∈ q -> s.number k = s.number j -> k = j :=
      fun k queued => represents.unique inTable ((consistent.held k).mpr (Or.inr queued))
    rw [numbers, map_erase_of_unique only, ids, number]
    rfl
  · rw [retireHeld_gActive, same.gActive, if_pos rfl]
    rfl
  · rw [Store.printed, retireHeld_renders, renders, List.map_append]
    exact congrArg (· ++ [((s.job j).filter, s.document j)]) represents.printed

/-- A call that touches one job of the table and changes it, and nothing else,
is a `put` of the spooler. -/
theorem put (represents : Represents s p) {j : Block} (inTable : s.InTable j) (op : Op) (offered : op.borrowing)
    (skeleton : SameSkeleton { s with gActive := some j } (step s op))
    (others : forall k, k ≠ j -> ((step s op).job k).face = (s.job k).face)
    (documents : forall k, k ≠ j -> s.InTable k -> (step s op).document k = s.document k)
    (renders : (step s op).renders = s.renders) (owned : Owned (step s op)) :
    Represents (step s op) (p.put (s.number j) ((step s op).entry j)) := by
  rcases represents.queue with ⟨q, consistent, ids⟩
  rcases represents.filed with ⟨texts, filed⟩
  have number : forall k, (step s op).number k = s.number k :=
    fun k => congrArg Int.toNat (skeleton.ids k)
  have slot := represents.slot inTable
  refine ⟨?_, ⟨q, (consistent.activate inTable).skeleton skeleton, ?_⟩, ?_, ?_,
    ⟨_, filed.step consistent offered⟩, owned⟩
  · have slots : (step s op).slots = Function.update s.slots (s.number j) (some j) := by
      rw [← slot, Function.update_eq_self]
      exact skeleton.slots
    rw [Store.table_update slots, represents.jobs]
    · rfl
    intro other k apart standing
    have different : k ≠ j := by
      intro equal
      rw [equal] at standing
      exact apart (consistent.numbered.unique standing slot)
    have old : s.InTable k := ⟨other, (consistent.ids other k standing).1, standing⟩
    exact Store.entry_eq (others k different) (documents k different old)
  · exact (List.map_congr_left fun k _ => number k).trans ids
  · rw [skeleton.gActive]
    exact congrArg some (number j)
  · rw [Store.printed, renders]
    exact represents.printed

theorem cancel (represents : Represents s p) {id : Int} {j : Block} (found : s.lookup id = some j) :
    Represents (step s (.cancel id)) (p.put (s.number j) { s.entry j with state := .cancelled }) := by
  rcases represents.queue with ⟨q, consistent, _⟩
  have inTable := consistent.lookup_inTable found
  have handled : (Op.cancel id).jobId = some id := rfl
  have stepped : step s (.cancel id) = Store.modifyJob { s with gActive := some j } j
      fun job => { job with state := .cancelled } := step_found handled found
  have skeleton : SameSkeleton { s with gActive := some j } (step s (.cancel id)) := by
    rw [stepped]
    exact .setState _ j .cancelled
  have others : forall k, k ≠ j -> (step s (.cancel id)).job k = s.job k := by
    intro k different
    rw [stepped, Store.modifyJob_job_of_ne _ _ different]
    rfl
  have document : forall k, s.InTable k -> (step s (.cancel id)).document k = s.document k := by
    intro k old
    exact represents.document_kept (.cancel id) trivial old ((skeleton.inTable_iff k).mpr old) nofun
  have renders : (step s (.cancel id)).renders = s.renders := by
    rw [stepped]
    rfl
  have owned := represents.owned.handled consistent handled trivial
  have put := represents.put inTable (.cancel id) trivial skeleton
    (fun k different => congrArg Job.face (others k different)) (fun k _ => document k) renders owned
  have entry : (step s (.cancel id)).entry j = { s.entry j with state := .cancelled } := by
    have here : (step s (.cancel id)).job j = { s.job j with state := .cancelled } := by
      rw [stepped, Store.modifyJob_job_self]
      rfl
    simp only [Store.entry, document j inTable, here]
  rwa [entry] at put

/-- Whether an append is accepted, and how large the buffer is then.  The
conditions of the service are those of the code, without the words that
wrap. -/
theorem appendTo_accepts {s : Store} {j : Block} (fair : Fair s.docs (s.job j) (s.document j)) (arg : Payload)
    (outcome : Realloc) :
    ((s.entry j).Accepts arg.bytes outcome -> (appendTo s j arg outcome).2 = spoolOk ∧
      ((appendTo s j arg outcome).1.job j).cap =
        max (s.job j).cap ((s.document j).length + arg.bytes.length)) ∧
    (¬ (s.entry j).Accepts arg.bytes outcome -> appendTo s j arg outcome = (s.touchJob j, spoolErr)) := by
  rcases fair.buffer with ⟨old, owned, _, _⟩
  have short := fair.short
  have bounded := fair.bounded
  obtain ⟨sum, sumEq⟩ : exists sum, sum = (s.document j).length + arg.bytes.length := ⟨_, rfl⟩
  obtain ⟨need, needEq⟩ : exists need, need = ((s.job j).len + arg.bytes.length) % 2 ^ 32 := ⟨_, rfl⟩
  have wraps : need = sum % 2 ^ 32 := by rw [needEq, fair.len, sumEq]
  have whole : ¬ (arg.bytes.length > encMaxDoc ∨ need > encMaxDoc) -> need = sum := by
    intro within
    rw [wraps, Nat.mod_eq_of_lt]
    rw [encMaxDoc] at bounded within
    omega
  have appended := appendTo_appended s j arg outcome
  generalize appendTo s j arg outcome = after at appended ⊢
  rw [← needEq] at appended
  simp only [Entry.Accepts, Store.entry, ← sumEq]
  cases appended with
  | refused limit =>
      have beyond : ¬ sum ≤ encMaxDoc := by
        have le := Nat.mod_le sum (2 ^ 32)
        omega
      exact ⟨fun accepted => absurd accepted.1 beyond, fun _ => rfl⟩
  | exhausted within grows failed =>
      have full : ¬ sum ≤ (s.job j).cap := by
        rw [← whole within]
        exact Nat.not_le.mpr grows
      have fails : outcome.succeeds = false := by
        rw [owned] at failed
        cases outcome with
        | fails => rfl
        | inPlace residue => cases (Prod.mk.inj failed).2
        | moves residue => cases (Prod.mk.inj failed).2
      rw [fails]
      refine ⟨fun accepted => ?_, fun _ => rfl⟩
      rcases accepted.2 with room | impossible
      · exact absurd room full
      · cases impossible
  | written within room =>
      have fits := whole within
      refine ⟨fun _ => ⟨rfl, ?_⟩, fun refused => absurd ?_ refused⟩
      · rw [Store.modifyJob_job_self, ← fits, Nat.max_eq_left (Nat.le_of_not_gt room)]
        have same : ((s.touchJob j).job j).cap = (s.job j).cap := congrArg Job.cap (s.touchJob_job j j)
        exact same
      · exact ⟨by omega, Or.inl (by omega)⟩
  | grown within grows result =>
      have fits := whole within
      have succeeds : outcome.succeeds := by
        cases outcome with
        | fails => cases (Prod.mk.inj result).2
        | inPlace residue => rfl
        | moves residue => rfl
      refine ⟨fun _ => ⟨rfl, ?_⟩, fun refused => absurd ?_ refused⟩
      · rw [Store.modifyJob_job_self, ← fits, Nat.max_eq_right (Nat.le_of_lt grows)]
      · exact ⟨by omega, Or.inr succeeds⟩

theorem appendTo_others {s : Store} {j k : Block} (different : k ≠ j) (arg : Payload) (outcome : Realloc) :
    (appendTo s j arg outcome).1.job k = s.job k := by
  have touched := s.touchJob_job j k
  have appended := appendTo_appended s j arg outcome
  generalize appendTo s j arg outcome = after at appended ⊢
  cases appended with
  | refused _ => exact touched
  | exhausted _ _ _ => exact touched
  | written _ _ => exact (Store.modifyJob_job_of_ne _ _ different).trans touched
  | grown _ _ _ => exact (Store.modifyJob_job_of_ne _ _ different).trans touched

/-- An append to a live job counts no release of a job, and no access to a
released one. -/
theorem appendTo_jobs {s : Store} {j : Block} (live : s.jobs.Live j) (arg : Payload) (outcome : Realloc) :
    (appendTo s j arg outcome).1.jobs.releases = s.jobs.releases ∧
      (appendTo s j arg outcome).1.jobs.faults = s.jobs.faults := by
  have appended := appendTo_appended s j arg outcome
  generalize appendTo s j arg outcome = after at appended ⊢
  have same := Store.touchJob_of_live live
  cases appended with
  | refused _ => rw [same]; exact ⟨rfl, rfl⟩
  | exhausted _ _ _ => rw [same]; exact ⟨rfl, rfl⟩
  | written _ _ => rw [same]; exact ⟨Heap.modify_releases .., Store.modifyJob_faults live _⟩
  | grown _ _ _ => rw [same]; exact ⟨Heap.modify_releases .., Store.modifyJob_faults live _⟩

/-- An append whose buffer stays where it is changes no owner of a block. -/
theorem appendTo_holdings {s : Store} {j old : Block} (live : s.jobs.Live j) (owned : (s.job j).data = some old)
    {arg : Payload} {outcome : Realloc} (stays : ¬ Relocates s j arg outcome) :
    SameHoldings s (appendTo s j arg outcome).1 := by
  have frame := appendTo_frame s j arg outcome
  have jobs := appendTo_jobs live arg outcome
  rcases appendTo_stays owned stays with ⟨next, releases, data⟩
  refine ⟨frame.toSameSkeleton.inTable_iff, ⟨frame.next, jobs.1⟩, ⟨next, releases⟩, ?_, jobs.2, ?_⟩
  · rw [frame.metas]
    exact ⟨rfl, rfl⟩
  · exact fun k => ⟨data k, frame.metaBufs k, frame.filters k⟩

theorem append (represents : Represents s p) {id : Int} {j : Block} (found : s.lookup id = some j) {arg : Payload}
    {outcome : Realloc} (stays : (s.entry j).Stays arg.bytes outcome) :
    Represents (jobAppend s id arg outcome).1 (p.append (s.number j) (s.entry j) arg.bytes outcome).1 ∧
      (if (jobAppend s id arg outcome).2 ≠ spoolOk then ascii "ERR\n" else ascii "OK\n") =
        (p.append (s.number j) (s.entry j) arg.bytes outcome).2 := by
  rcases represents.queue with ⟨q, consistent, _⟩
  rcases represents.filed with ⟨texts, filed⟩
  have inTable := consistent.lookup_inTable found
  have fair := filed.fair j inTable
  rcases fair.buffer with ⟨old, buffer, _, _⟩
  have text := fair.document
  rw [← text] at fair
  have active := represents.activate inTable
  have live := active.owned.live inTable
  have handled : (Op.append id arg outcome).jobId = some id := rfl
  have called : jobAppend s id arg outcome = appendTo { s with gActive := some j } j arg outcome := by
    rw [jobAppend, jobGet_found found]
  have accepts := appendTo_accepts (s := { s with gActive := some j }) fair arg outcome
  rw [← called] at accepts
  rw [Spooler.append]
  by_cases accepted : (s.entry j).Accepts arg.bytes outcome
  · rcases accepts.1 accepted with ⟨returned, cap⟩
    rw [if_pos accepted, returned, if_neg (not_not.mpr rfl)]
    refine ⟨?_, rfl⟩
    have offered : (Op.append id arg outcome).borrowing := trivial
    have stepped : step s (.append id arg outcome) = (appendTo { s with gActive := some j } j arg outcome).1 :=
      step_found handled found
    have capacity : ((step s (.append id arg outcome)).job j).cap =
        max (s.job j).cap ((s.document j).length + arg.bytes.length) := cap
    have frame := appendTo_frame { s with gActive := some j } j arg outcome
    have fields : forall k, (step s (.append id arg outcome)).renders = s.renders ∧
        ((step s (.append id arg outcome)).job k).filter = (s.job k).filter ∧
        ((step s (.append id arg outcome)).job k).state = (s.job k).state := by
      intro k
      rw [stepped]
      have filter := appendTo_field Job.filter (fun _ _ _ _ => rfl) { s with gActive := some j } j arg outcome k
      have state := appendTo_field Job.state (fun _ _ _ _ => rfl) { s with gActive := some j } j arg outcome k
      exact ⟨filter.2, filter.1, state.1⟩
    have relocates : ¬ Relocates { s with gActive := some j } j arg outcome := by
      rintro ⟨_, _, grows, moves⟩
      have sum : (s.job j).len + arg.bytes.length = (s.entry j).text.length + arg.bytes.length :=
        congrArg (· + arg.bytes.length) fair.len
      have whole : (s.entry j).text.length + arg.bytes.length < 2 ^ 32 :=
        Nat.lt_of_le_of_lt accepted.1 (by decide)
      change ((s.job j).len + arg.bytes.length) % 2 ^ 32 > (s.entry j).cap at grows
      rw [sum, Nat.mod_eq_of_lt whole] at grows
      exact Bool.false_ne_true ((stays accepted.1 grows).symm.trans moves)
    have owned' := active.owned.transfer (appendTo_holdings live buffer relocates)
    rw [← stepped] at frame owned'
    have put := represents.put inTable (.append id arg outcome) trivial frame.toSameSkeleton ?_ ?_ (fields j).1 owned'
    · have entry : (step s (.append id arg outcome)).entry j = (s.entry j).append arg.bytes := by
        have still := (frame.toSameSkeleton.inTable_iff j).mpr inTable
        have longer : (step s (.append id arg outcome)).document j = s.document j ++ arg.bytes := by
          rw [((filed.step consistent offered).fair j still).document, Op.texts, found, Option.elim_some,
            if_pos returned, Function.update_self, text]
        simp only [Store.entry, Entry.append, longer, fields j, capacity]
      rw [entry] at put
      exact put
    · intro k different
      rw [stepped, appendTo_others different]
      rfl
    · intro k different old
      refine represents.document_kept _ offered old ((frame.toSameSkeleton.inTable_iff k).mpr old) ?_
      rintro _ _ _ ⟨⟩ other
      exact different (Option.some.inj (other.symm.trans found))
  · rw [if_neg accepted, accepts.2 accepted, Store.touchJob_of_live live]
    exact ⟨active, rfl⟩

theorem flush (represents : Represents s p)
    (alive : forall id, id ∈ p.queue -> forall e, e ∈ p.jobs id -> e.state ≠ .cancelled) :
    Represents (jobFlush s).1 p.flush := by
  rcases represents.queue with ⟨q, consistent, ids⟩
  rcases represents.filed with ⟨texts, filed⟩
  have entries : forall j, j ∈ q -> p.jobs (s.number j) = some (s.entry j) :=
    fun j queued => represents.entry ((consistent.held j).mpr (Or.inr queued))
  have living : forall j, j ∈ q -> (s.job j).state ≠ .cancelled := by
    intro j queued
    exact alive (s.number j) (ids ▸ List.mem_map_of_mem queued) (s.entry j) (entries j queued)
  have emptied := consistent.jobFlush.emptied
  refine ⟨?_, ⟨[], consistent.jobFlush, rfl⟩, ?_, ?_, ⟨texts, filed.jobFlush consistent⟩,
    represents.owned.jobFlush consistent living⟩
  · funext index
    rw [Store.table, emptied.slots]
    rfl
  · rw [emptied.gActive]
    rfl
  · have waiting : p.queue.filterMap p.jobs = q.map s.entry := by
      rw [← ids, List.filterMap_map, ← List.filterMap_eq_map]
      exact List.filterMap_congr entries
    rw [Store.printed, jobFlush_renders consistent, List.map_append, Spooler.flush, waiting, List.filter_map,
      List.map_map, Store.prints, List.map_map]
    exact congrArg (· ++ _) represents.printed

/-- The status prints one text, in two pieces: the number of jobs, and behind
it the preview of the active one. -/
theorem jobStatus_printed {s : Store} {verbose : Bool} {out : Bytes}
    (fits : (ascii "jobs=" ++ decimal s.count).length + (s.preview verbose).length < out.length) :
    (jobStatus s verbose out).2.1 =
      overwrite (snprintf out 0 (ascii "jobs=" ++ decimal s.count ++ s.preview verbose)).1 (out.length - 1) [0] := by
  have summary : (snprintf out 0 (ascii "jobs=" ++ decimal s.count)).2 =
      ((ascii "jobs=" ++ decimal s.count).length : Int) :=
    congrArg Prod.snd (snprintf_whole (Nat.lt_of_le_of_lt (Nat.le_add_right _ _) fits))
  unfold jobStatus Store.preview at *
  cases named : s.gActive with
  | none =>
      simp only [ite_self, List.append_nil, snprintf_length]
  | some j =>
      cases verbose with
      | false => simp
      | true =>
          rw [named] at fits
          have behind := snprintf_behind fits
          have room : (ascii "jobs=" ++ decimal s.count).length < out.length :=
            Nat.lt_of_le_of_lt (Nat.le_add_right _ _) fits
          simp only [if_true, true_and, summary, Int.max_eq_left (Int.natCast_nonneg _), Int.toNat_natCast, if_pos room,
            snprintf_length]
          exact congrArg (fun printed => overwrite printed (out.length - 1) [0]) behind

theorem preview_bounds (represents : Represents s p) (verbose : Bool) :
    (0 : UInt8) ∉ s.preview verbose ∧ (s.preview verbose).length ≤ 32 := by
  rcases represents.queue with ⟨q, consistent, _⟩
  rcases represents.filed with ⟨texts, filed⟩
  unfold Store.preview
  cases verbose with
  | false => exact ⟨List.not_mem_nil, Nat.zero_le _⟩
  | true =>
      rw [if_pos rfl]
      cases named : s.gActive with
      | none => exact ⟨List.not_mem_nil, Nat.zero_le _⟩
      | some j =>
          have inTable := consistent.active j named
          have fair := filed.fair j inTable
          have id : (decimal (s.job j).id).length ≤ 3 := by
            rcases Store.slotAt_id consistent.numbered inTable with ⟨index, same, holds, _⟩
            have inside := (consistent.ids index j holds).1
            rw [same, decimal_length_le_iff (by decide)]
            exact inside.trans (by decide)
          have len : (decimal (s.job j).len).length ≤ 7 := by
            have short := fair.short.trans fair.bounded
            rw [fair.len, decimal_length_le_iff (by decide)]
            exact short.trans_lt (by decide)
          have state : (decimal (s.job j).state.code).length = 1 := by
            cases (s.job j).state <;> decide
          have words : (ascii " active=#").length = 9 ∧ (ascii " len=").length = 5 ∧
              (ascii " state=").length = 7 := by
            decide
          constructor
          · simp only [List.mem_append, not_or]
            exact ⟨⟨⟨⟨⟨by decide, decimal_clean _⟩, by decide⟩, decimal_clean _⟩, by decide⟩, decimal_clean _⟩
          · simp only [List.length_append]
            omega

/-- What the status says. -/
theorem status (represents : Represents s p) (verbose : Bool) :
    (jobStatus s verbose (List.replicate 256 0)).1 = s ∧
      cString (jobStatus s verbose (List.replicate 256 0)).2.1 ++ ascii "\n" = p.status verbose := by
  rcases represents.queue with ⟨q, consistent, _⟩
  rcases represents.filed with ⟨texts, filed⟩
  rcases represents.preview_bounds verbose with ⟨clean, short⟩
  have counted : s.count = (occupied spoolMax p.jobs : Int) := by
    rw [consistent.counted, ← represents.jobs, s.occupied_table]
  have digits : (decimal (occupied spoolMax p.jobs)).length ≤ 3 := by
    have few : occupied spoolMax p.jobs ≤ spoolMax := List.countP_le_length.trans_eq List.length_range
    rw [decimal_length_le_iff (by decide)]
    exact few.trans_lt (by decide)
  have five : (ascii "jobs=").length = 5 := by decide
  have fits : (ascii "jobs=" ++ decimal s.count).length + (s.preview verbose).length <
      (List.replicate 256 (0 : UInt8)).length := by
    rw [counted, List.length_append, List.length_replicate]
    omega
  have noZero : (0 : UInt8) ∉ ascii "jobs=" ++ decimal s.count ++ s.preview verbose := by
    simp only [List.mem_append, not_or]
    exact ⟨⟨by decide, decimal_clean _⟩, clean⟩
  constructor
  · apply jobStatus_keeps (P := fun t => t = s) verbose _ rfl
    intro j named
    exact Store.touchJob_of_live (represents.owned.live (consistent.active j named))
  · rw [jobStatus_printed fits, cString_printed noZero (by rwa [List.length_append]), counted, Spooler.status,
      Store.preview]
    have recent := represents.find 0xFFFF
    have reserved : s.lookup ((0xFFFF : UInt16).toNat) = s.gActive := if_pos rfl
    rw [recent, reserved]
    cases verbose with
    | false => simp
    | true =>
        cases named : s.gActive with
        | none => simp
        | some j =>
            have inTable := consistent.active j named
            have fair := filed.fair j inTable
            have id : (s.job j).id = (s.number j : Int) := by
              rcases Store.slotAt_id consistent.numbered inTable with ⟨index, same, _, _⟩
              rw [Store.number, same, Int.toNat_natCast]
            have len : (s.job j).len = (s.entry j).text.length := by
              rw [Store.entry, fair.document, fair.len]
            simp only [if_true, Option.map_some, id, len]
            rfl

end Represents

end Encore
end BugMuseum
