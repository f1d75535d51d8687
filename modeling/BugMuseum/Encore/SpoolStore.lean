import BugMuseum.Foundation.ByteStrings
import BugMuseum.Foundation.SlotTable

namespace BugMuseum
namespace Encore

open Foundation

/-!
# The job store of the Encore spooler

`Store` is everything that `spoolcore.dll` keeps between two calls: the job
table with its ready queue, the two globals `g_active` and `g_scratch`, and
the heap.  The heap is split by what a block is allocated for, so there is one
for `Job` structures, one for document buffers and one for metadata buffers.

The render log is not part of the program.  It lists the calls of the filter
plug-ins with the bytes each of them was handed.
-/

inductive JobState where
  | queued
  | rendering
  | done
  | cancelled
  deriving DecidableEq, Repr

/-- `%d` of a job state. -/
def JobState.code : JobState -> Int
  | .queued => 0
  | .rendering => 1
  | .done => 2
  | .cancelled => 3

/-- The three filter plug-ins.  They are in libraries of their own, and a job
has a pointer to one of them. -/
inductive Filter where
  | raster
  | text
  | pdfish
  deriving DecidableEq, Repr

/-- `Job`, with the blocks that its pointers name. -/
structure Job where
  id : Int
  fmt : Int
  state : JobState
  filter : Filter
  data : Option Block
  len : Nat
  cap : Nat
  metaBuf : Option Block
  metaLen : Nat
  qnext : Option Block

instance : Inhabited Job :=
  ⟨⟨0, 0, .queued, .raster, none, 0, 0, none, 0, none⟩⟩

/-- One call of a filter plug-in, with the bytes it was handed. -/
structure Render where
  job : Block
  filter : Filter
  document : Bytes
  deriving DecidableEq

def spoolMax : Nat := 256

def spoolRecent : Int := 0xFFFF

def encMaxDoc : Nat := 2 ^ 20

def spoolOk : Int := 0

def spoolErr : Int := -1

structure Store where
  jobs : Heap Job
  docs : Heap Bytes           -- document buffers
  metas : Heap Bytes          -- metadata buffers
  slots : Nat -> Option Block
  qhead : Option Block
  qtail : Option Block
  count : Int
  gActive : Option Block
  gScratch : Option Block
  renders : List Render

/-- `SpoolNew` in a fresh process: the globals are null and nothing has been
allocated for a job. -/
def spoolNew : Store where
  jobs := .empty
  docs := .empty
  metas := .empty
  slots := fun _ => none
  qhead := none
  qtail := none
  count := 0
  gActive := none
  gScratch := none
  renders := []

def helloPage : Payload :=
  ⟨ascii "hello page", by decide⟩

namespace Store

def job (s : Store) (j : Block) : Job :=
  s.jobs.cell j

def touchJob (s : Store) (j : Block) : Store :=
  { s with jobs := s.jobs.touch j }

def modifyJob (s : Store) (j : Block) (change : Job -> Job) : Store :=
  { s with jobs := s.jobs.modify j change }

/-- The `qnext` links of all jobs, as the queue follows them. -/
def link (s : Store) (j : Block) : Option Block :=
  (s.job j).qnext

/-- `data[0..len)` of a job.  A job without a buffer has no document. -/
def document (s : Store) (j : Block) : Bytes :=
  match (s.job j).data with
  | none => []
  | some data => (s.docs.cell data).take (s.job j).len

theorem document_short (s : Store) (j : Block) : (s.document j).length ≤ (s.job j).len := by
  unfold document
  cases (s.job j).data with
  | none => exact Nat.zero_le _
  | some data => exact List.length_take_le _ _

/-- The slot a job id names, for the ids that pass the range check. -/
def slotAt (s : Store) (id : Int) : Option Block :=
  if id < 0 ∨ id ≥ spoolMax then none else s.slots id.toNat

/-- The job an id names: the active one for the reserved id, and the one in
its slot for any other. -/
def lookup (s : Store) (id : Int) : Option Block :=
  if id = spoolRecent then s.gActive else s.slotAt id

/-- A job is in the table when some slot holds it.  Such a job is what the ids
of clients name. -/
def InTable (s : Store) (j : Block) : Prop :=
  Held spoolMax s.slots j

@[simp] theorem modifyJob_qhead (s : Store) (j : Block) (change : Job -> Job) :
    (s.modifyJob j change).qhead = s.qhead := rfl

@[simp] theorem modifyJob_qtail (s : Store) (j : Block) (change : Job -> Job) :
    (s.modifyJob j change).qtail = s.qtail := rfl

@[simp] theorem touchJob_qhead (s : Store) (j : Block) : (s.touchJob j).qhead = s.qhead := rfl

@[simp] theorem touchJob_qtail (s : Store) (j : Block) : (s.touchJob j).qtail = s.qtail := rfl

@[simp] theorem touchJob_job (s : Store) (touched j : Block) :
    (s.touchJob touched).job j = s.job j := by
  simp [job, touchJob]

@[simp] theorem modifyJob_job_self (s : Store) (j : Block) (change : Job -> Job) :
    (s.modifyJob j change).job j = change (s.job j) :=
  Heap.modify_cell_self ..

theorem modifyJob_job_of_ne (s : Store) {j other : Block} (change : Job -> Job)
    (different : other ≠ j) : (s.modifyJob j change).job other = s.job other :=
  Heap.modify_cell_of_ne _ _ different

/-- Only the change of the job at hand matters, whatever else the two changes
would do. -/
theorem modifyJob_congr {s : Store} {j : Block} {change other : Job -> Job}
    (same : change (s.job j) = other (s.job j)) : s.modifyJob j change = s.modifyJob j other := by
  rw [modifyJob, modifyJob, s.jobs.modify_congr same]

/-- A field that the change keeps is as before in every job. -/
theorem modifyJob_field {Value : Type} {s : Store} {j : Block} {change : Job -> Job}
    (field : Job -> Value) (keeps : field (change (s.job j)) = field (s.job j)) (k : Block) :
    field ((s.modifyJob j change).job k) = field (s.job k) :=
  s.jobs.modify_field field keeps k

theorem touchJob_of_live {s : Store} {j : Block} (live : s.jobs.Live j) : s.touchJob j = s := by
  rw [touchJob, Heap.touch_of_live live]

theorem modifyJob_faults {s : Store} {j : Block} (live : s.jobs.Live j) (change : Job -> Job) :
    (s.modifyJob j change).jobs.faults = s.jobs.faults :=
  (Heap.modify_faults ..).trans (congrArg Heap.faults (Heap.touch_of_live live))

@[simp] theorem live_modifyJob_iff (s : Store) (j k : Block) (change : Job -> Job) :
    (s.modifyJob j change).jobs.Live k ↔ s.jobs.Live k :=
  Heap.live_modify_iff ..

theorem slotAt_some {s : Store} {id : Int} {j : Block} (found : s.slotAt id = some j) :
    (id.toNat : Int) = id ∧ id.toNat < spoolMax ∧ s.slots id.toNat = some j := by
  unfold slotAt at found
  split at found
  · cases found
  · exact ⟨by omega, by omega, found⟩

theorem slotAt_inTable {s : Store} {id : Int} {j : Block} (found : s.slotAt id = some j) :
    s.InTable j :=
  ⟨id.toNat, (slotAt_some found).2⟩

/-- Where the jobs are numbered, a job of the table is found under its id. -/
theorem slotAt_id {s : Store} (numbered : Numbered spoolMax s.slots fun j => (s.job j).id) {j : Block}
    (inTable : s.InTable j) :
    exists index : Nat, (s.job j).id = index ∧ s.slots index = some j ∧ s.slotAt (s.job j).id = some j := by
  rcases inTable with ⟨index, inside, holds⟩
  have named := (numbered index j holds).2
  refine ⟨index, named, holds, ?_⟩
  dsimp only at named
  rw [named, slotAt, if_neg (by omega)]
  exact holds

end Store

/-! ## The filter plug-ins -/

namespace Filter

/-- How many document bytes a filter reads.  A filter that reads none does not
access the buffer. -/
def bytesRead : Filter -> Nat -> Nat -> Nat
  | .raster, len, _ => len
  | .text, len, outCap => if outCap = 0 then 0 else min len (outCap - 1)
  | .pdfish, len, _ => min len 1

/-- The text filter releases the document buffer; the others borrow it. -/
def consumes : Filter -> Bool
  | .text => true
  | .raster => false
  | .pdfish => false

/-- `unsigned long ink`, a 32-bit sum of the bytes. -/
def ink (document : Bytes) : Nat :=
  document.foldl (fun ink cell => (ink + cell.toNat) % 2 ^ 32) 0

/-- The preview in the caller's buffer and the returned count.  What does not
fit the buffer is cut off. -/
def preview : Filter -> Bytes -> Bytes -> Bytes × Int
  | .raster, document, out =>
      let printed := snprintf out 0
        (ascii "raster: " ++ decimal document.length ++ ascii " cells, ink=" ++
          decimal (ink document))
      (printed.1, max printed.2 0)
  | .text, document, out =>
      if out.length = 0 then (out, 0)
      else
        let n := min document.length (out.length - 1)
        (overwrite out 0 (document.take n ++ [0]), n)
  | .pdfish, document, out =>
      let head := document.headD 0
      let printed := snprintf out 0
        (ascii "%PDF-1.4 preview: " ++ decimal document.length ++ ascii " bytes, head=0x" ++
          hexByte head)
      (printed.1, max printed.2 0)

end Filter

end Encore
end BugMuseum
