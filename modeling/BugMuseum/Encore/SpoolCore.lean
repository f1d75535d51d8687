import BugMuseum.Encore.SpoolStore

namespace BugMuseum
namespace Encore

open Foundation

/-!
# The operations of `spoolcore.c`

Each operation is a function from the store before the call to the store after
it and the value returned.  A call that allocates takes the answers of the
allocator: `grant 0` is the answer to its first request, `grant 1` to its
second, and so on.  The table pointer is the one `SpoolNew` returned, so its
null checks always pass and are not written out.

Every access to a `Job` goes through `touchJob` or `modifyJob`, which record
an access to a job that is no longer live.
-/

/-- `enqueue`: the job is linked behind the tail of the ready queue, or
becomes its head. -/
def enqueue (s : Store) (j : Block) : Store :=
  let s := s.modifyJob j fun job => { job with qnext := none }
  let s := match s.qtail with
    | some tail => s.modifyJob tail fun job => { job with qnext := some j }
    | none => { s with qhead := some j }
  { s with qtail := some j }

/-- `JobDequeue`: the head of the ready queue, which stays in the table. -/
def jobDequeue (s : Store) : Store × Option Block :=
  match s.qhead with
  | none => (s, none)
  | some j =>
      let head := s.link j
      let s := { s.touchJob j with qhead := head }
      let s := if head = none then { s with qtail := none } else s
      (s.modifyJob j fun job => { job with qnext := none }, some j)

/-- The loop of `unlink_queue` at the node `c`, with `prev` the node before
it.  The fuel bounds the number of nodes visited. -/
def unlinkFrom (j : Block) : Nat -> Option Block -> Option Block -> Store -> Store
  | 0, _, _, s => s
  | _ + 1, _, none, s => s
  | fuel + 1, prev, some c, s =>
      if c = j then
        let after := s.link c
        let s := s.touchJob c
        let s := match prev with
          | some previous => s.modifyJob previous fun job => { job with qnext := after }
          | none => { s with qhead := after }
        if s.qtail = some c then { s with qtail := prev } else s
      else unlinkFrom j fuel (some c) (s.link c) (s.touchJob c)

/-- `unlink_queue`.  No queue is longer than the number of jobs ever made, so
this much fuel never runs out. -/
def unlinkQueue (s : Store) (j : Block) : Store :=
  unlinkFrom j (s.jobs.next + 1) none s.qhead s

/-- `free_job`: the document, the metadata and the job itself are released,
and the cache is cleared if it names the job.  The slot is left to the
caller. -/
def freeJob (s : Store) (j : Block) : Store :=
  let s := if s.gActive = some j then { s with gActive := none } else s
  let s := s.touchJob j
  { s with
    metas := s.metas.releaseAt (s.job j).metaBuf
    docs := s.docs.releaseAt (s.job j).data
    jobs := s.jobs.release j }

/-- The last lines of `JobSubmit` and `JobDup`: enter the new job in the table
and in the queue, and remember it as the active one. -/
def enterJob (s : Store) (id : Nat) (j : Block) : Store :=
  let s := { s with slots := Function.update s.slots id (some j), count := s.count + 1 }
  { enqueue s j with gActive := some j }

/-- `JobSubmit`: a job with a copy of the text, cut to the limit of a
document, and with a header block if there is memory for one. -/
def jobSubmit (s : Store) (fmt : Int) (filter : Option Filter) (init : Payload)
    (grant : Nat -> Grant) : Store × Int :=
  match filter with
  | none => (s, spoolErr)
  | some filter =>
  match firstFree spoolMax s.slots with
  | none => (s, spoolErr)
  | some id =>
  let len := if init.bytes.length > encMaxDoc then encMaxDoc else init.bytes.length
  match grant 0 with
  | none => (s, spoolErr)
  | some _ =>
  let j := s.jobs.next
  let cap := if len < 32 then 32 else len
  let s := { s with jobs := s.jobs.alloc { (default : Job) with id, fmt, filter, cap } }
  match grant 1 with
  | none => ({ s with jobs := s.jobs.release j }, spoolErr)
  | some residue =>
  let data := s.docs.next
  let s := { s with
    docs := (s.docs.alloc (freshBytes cap residue)).write data 0 (init.bytes.take len) }
  let s := s.modifyJob j fun job => { job with data := some data, len, metaLen := 16 }
  let s := match grant 2 with
    | none => s
    | some residue =>
        let header := s.metas.next
        let metas := (s.metas.alloc (freshBytes 16 residue)).write header 0 (List.replicate 16 0)
        let s := { s with metas := metas.write header 0 [UInt8.ofNat (fmt % 256).toNat] }
        s.modifyJob j fun job => { job with metaBuf := some header }
  (enterJob s id j, id)

/-- `JobGet`.  The reserved id is the active job, and any other job that is
found becomes the active one. -/
def jobGet (s : Store) (id : Int) : Store × Option Block :=
  if id = spoolRecent then (s, s.gActive)
  else match s.slotAt id with
    | none => (s, none)
    | some j => ({ s with gActive := some j }, some j)

/-- `JobRetire` once the slot is known to hold a job: it leaves the queue, is
released, and leaves the table. -/
def retireHeld (s : Store) (id : Nat) (j : Block) : Store :=
  let s := freeJob (unlinkQueue s j) j
  { s with slots := Function.update s.slots id none, count := s.count - 1 }

/-- `JobRetire` -/
def jobRetire (s : Store) (id : Int) : Store × Int :=
  match s.slotAt id with
  | none => (s, spoolErr)
  | some j => (retireHeld s id.toNat j, spoolOk)

/-- `j->filter(j->data, j->len, out, out_cap)`.  The log notes what the filter
was handed, and the filter that consumes its document releases it. -/
def callFilter (s : Store) (j : Block) (out : Bytes) : Store × Bytes × Int :=
  let job := s.job j
  let document := s.document j
  let docs := if job.filter.bytesRead job.len out.length = 0 then s.docs
    else s.docs.touchAt job.data
  let docs := if job.filter.consumes then docs.releaseAt job.data else docs
  let renders := s.renders ++ [⟨j, job.filter, document⟩]
  ({ s.touchJob j with docs, renders }, job.filter.preview document out)

/-- `JobRender`: the filter is called, whatever the state of the job, and then
the job is retired. -/
def jobRender (s : Store) (id : Int) (out : Bytes) : Store × Bytes × Int :=
  match jobGet s id with
  | (s, none) => (s, out, spoolErr)
  | (s, some j) =>
      let (s, out, rc) := callFilter s j out
      let s := s.touchJob j
      ((jobRetire s (s.job j).id).1, out, rc)

/-- `JobAppend` once the job is known.  The limit is compared with both the
argument and the wrapped sum, and a grown buffer is followed by a release of
the old pointer when the two differ. -/
def appendTo (s : Store) (j : Block) (arg : Payload) (outcome : Realloc) : Store × Int :=
  let s := s.touchJob j
  let job := s.job j
  let need := (job.len + arg.bytes.length) % 2 ^ 32
  if arg.bytes.length > encMaxDoc ∨ need > encMaxDoc then (s, spoolErr)
  else if need > job.cap then
    match s.docs.realloc job.data need outcome with
    | (docs, none) => ({ s with docs }, spoolErr)
    | (docs, some grown) =>
        let s := { s with docs := docs.writeAt (some grown) job.len arg.bytes }
        let s := s.modifyJob j fun job => { job with data := some grown, cap := need, len := need }
        if some grown ≠ job.data then
          ({ s with docs := s.docs.releaseAt job.data }, spoolOk)
        else (s, spoolOk)
  else
    let s := { s with docs := s.docs.writeAt job.data job.len arg.bytes }
    (s.modifyJob j fun job => { job with len := need }, spoolOk)

def jobAppend (s : Store) (id : Int) (arg : Payload) (outcome : Realloc) : Store × Int :=
  match jobGet s id with
  | (s, none) => (s, spoolErr)
  | (s, some j) => appendTo s j arg outcome

/-- `JobCancel` only marks the job; the pump is to discard it. -/
def jobCancel (s : Store) (id : Int) : Store × Int :=
  match jobGet s id with
  | (s, none) => (s, spoolErr)
  | (s, some j) => (s.modifyJob j fun job => { job with state := .cancelled }, spoolOk)

/-- `JobRecycle`: the buffer of the job is kept in `g_scratch`, and what was
kept before is released.  The job keeps its pointer. -/
def jobRecycle (s : Store) (id : Int) : Store × Int :=
  match jobGet s id with
  | (s, none) => (s, spoolErr)
  | (s, some j) =>
      let s := { s with docs := s.docs.releaseAt s.gScratch }
      let s := s.touchJob j
      ({ s with gScratch := (s.job j).data }, spoolOk)

/-- `JobDup` once the original is known.  The document is copied, and the
metadata pointer is. -/
def dupOf (s : Store) (j : Block) (grant : Nat -> Grant) : Store × Int :=
  match firstFree spoolMax s.slots with
  | none => (s, spoolErr)
  | some nid =>
  match grant 0 with
  | none => (s, spoolErr)
  | some _ =>
  let s := s.touchJob j
  let job := s.job j
  let document := s.document j
  let nj := s.jobs.next
  let cap := if job.len < 32 then 32 else job.len
  let s := { s with
    jobs := s.jobs.alloc
      { (default : Job) with id := nid, fmt := job.fmt, filter := job.filter, cap } }
  match grant 1 with
  | none => ({ s with jobs := s.jobs.release nj }, spoolErr)
  | some residue =>
  let source := if job.len = 0 then s.docs else s.docs.touchAt job.data
  let data := s.docs.next
  let s := { s with docs := (source.alloc (freshBytes cap residue)).write data 0 document }
  -- the metadata block is shared, not copied
  let s := s.modifyJob nj fun copy =>
    { copy with data := some data, len := job.len, metaBuf := job.metaBuf, metaLen := job.metaLen }
  (enterJob s nid nj, nid)

def jobDup (s : Store) (id : Int) (grant : Nat -> Grant) : Store × Int :=
  match jobGet s id with
  | (s, none) => (s, spoolErr)
  | (s, some j) => dupOf s j grant

/-- `JobStatus`: the number of jobs, and in the verbose form what the active
job says of itself. -/
def jobStatus (s : Store) (verbose : Bool) (out : Bytes) : Store × Bytes × Int :=
  let summary := snprintf out 0 (ascii "jobs=" ++ decimal s.count)
  let w := (max summary.2 0).toNat
  let finish (out : Bytes) := overwrite out (out.length - 1) [0]
  match s.gActive with
  | none => (s, finish summary.1, spoolOk)
  | some j =>
      if verbose ∧ w < out.length then
        let job := s.job j
        let detail := ascii " active=#" ++ decimal job.id ++ ascii " len=" ++ decimal job.len ++
          ascii " state=" ++ decimal job.state.code
        (s.touchJob j, finish (snprintf summary.1 w detail).1, spoolOk)
      else (s, finish summary.1, spoolOk)

/-- `JobWork`.  The pump drops the preview, and it reads the job's id before
anything else happens to the job.  A cancelled job is released here and again
by the retirement. -/
def jobWork (s : Store) (j : Block) : Store :=
  let s := s.touchJob j
  let id := (s.job j).id
  if (s.job j).state = .cancelled then
    (jobRetire (freeJob s j) id).1
  else
    let s := s.modifyJob j fun job => { job with state := .rendering }
    let s := (callFilter s j (List.replicate 256 0)).1
    let s := s.modifyJob j fun job => { job with state := .done }
    (jobRetire s id).1

/-- The loop of `JobFlush`.  The fuel bounds the number of jobs pumped. -/
def flushLoop : Nat -> Store -> Store
  | 0, s => s
  | fuel + 1, s =>
      match jobDequeue s with
      | (s, none) => s
      | (s, some j) => flushLoop fuel (jobWork s j)

/-- `JobFlush`.  Every turn takes a job from the queue for good, so this much
fuel is enough. -/
def jobFlush (s : Store) : Store × Int :=
  (flushLoop (s.jobs.next + 1) s, spoolOk)

/-! ## Runs of calls -/

/-- A call of the store with the answers of the allocator, and with the
contents of the buffer that a render or a status is to print to. -/
inductive Op where
  | submit (fmt : Int) (filter : Option Filter) (init : Payload) (grant : Nat -> Grant)
  | render (id : Int) (out : Bytes)
  | append (id : Int) (arg : Payload) (outcome : Realloc)
  | cancel (id : Int)
  | recycle (id : Int)
  | dup (id : Int) (grant : Nat -> Grant)
  | status (verbose : Bool) (out : Bytes)
  | flush
  | retire (id : Int)

/-- The store after a call and the value it returns. -/
def perform (s : Store) : Op -> Store × Int
  | .submit fmt filter init grant => jobSubmit s fmt filter init grant
  | .render id out => ((jobRender s id out).1, (jobRender s id out).2.2)
  | .append id arg outcome => jobAppend s id arg outcome
  | .cancel id => jobCancel s id
  | .recycle id => jobRecycle s id
  | .dup id grant => jobDup s id grant
  | .status verbose out => ((jobStatus s verbose out).1, (jobStatus s verbose out).2.2)
  | .flush => jobFlush s
  | .retire id => jobRetire s id

/-- The store after a call. -/
def step (s : Store) (op : Op) : Store :=
  (perform s op).1

end Encore
end BugMuseum
