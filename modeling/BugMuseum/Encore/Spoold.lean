import BugMuseum.Encore.SpoolCore
import BugMuseum.Foundation.Framing

namespace BugMuseum
namespace Encore

open Foundation

/-!
# The spooler server

`spoold` serves requests from named-pipe and TCP connections.  All operations reach it
on both, but `RECYCLE` is refused on TCP, and `DUP` and `FLUSH` are refused on the
pipe.  The text filter is not loaded, so a submit that names it fails.
-/

/-- `spool_request` and its payload; `arg_len` is the number of its bytes. -/
structure Request where
  op : UInt8
  fmt : UInt8
  job : UInt16
  arg : Payload

def opSubmit : UInt8 := 0
def opRender : UInt8 := 1
def opAppend : UInt8 := 2
def opCancel : UInt8 := 3
def opStatus : UInt8 := 4
def opRecycle : UInt8 := 5
def opDup : UInt8 := 6
def opFlush : UInt8 := 7

def filterIdMask : UInt8 := 0x0F

def flagVerbose : UInt8 := 0x40

def encMaxArg : Nat := 2 ^ 20

def nfilters : Nat := 3

/-- `load_filters`, given which of the libraries could be loaded.  The server
does not load the text filter. -/
def loadFilters (found : Filter -> Bool) : Nat -> Option Filter
  | 0 => if found .raster then some .raster else none
  | 2 => if found .pdfish then some .pdfish else none
  | _ => none

def filterFor (filters : Nat -> Option Filter) (id : UInt8) : Option Filter :=
  if id.toNat < nfilters then filters id.toNat else none

def Request.id (r : Request) : Int :=
  r.job.toNat

/-- The store after a request, and the reply. -/
abbrev Served := Store × Bytes

/-- `_snprintf(msg, sizeof msg, "OK job=%d\n", id);` -/
def jobReply (id : Int) : Bytes :=
  let printed := snprintf (List.replicate 40 0) 0 (ascii "OK job=" ++ decimal id ++ ascii "\n")
  cString (overwrite printed.1 39 [0])

/-- `h_submit` -/
def hSubmit (filters : Nat -> Option Filter) (s : Store) (r : Request) (grant : Nat -> Grant) : Served :=
  let fmt := r.fmt &&& filterIdMask
  let result := jobSubmit s fmt.toNat (filterFor filters fmt) r.arg grant
  if result.2 < 0 then (result.1, ascii "ERR submit\n") else (result.1, jobReply result.2)

/-- `h_render` -/
def hRender (s : Store) (r : Request) : Served :=
  let result := jobRender s r.id (List.replicate 256 0)
  if result.2.2 < 0 then (result.1, ascii "ERR\n")
  else (result.1, result.2.1.take result.2.2.toNat ++ ascii "\n")

/-- `h_append` -/
def hAppend (s : Store) (r : Request) (outcome : Realloc) : Served :=
  let result := jobAppend s r.id r.arg outcome
  if result.2 ≠ spoolOk then (result.1, ascii "ERR\n") else (result.1, ascii "OK\n")

/-- `h_cancel` answers the same whether it found a job or not. -/
def hCancel (s : Store) (r : Request) : Served :=
  ((jobCancel s r.id).1, ascii "OK\n")

/-- `h_status`.  The active preview is a local feature, so the flag counts on
the pipe only. -/
def hStatus (s : Store) (isTcp : Bool) (r : Request) : Served :=
  let verbose : Bool := decide (r.fmt &&& flagVerbose ≠ 0) && !isTcp
  let result := jobStatus s verbose (List.replicate 256 0)
  (result.1, cString result.2.1 ++ ascii "\n")

/-- `h_recycle`, which is refused on TCP. -/
def hRecycle (s : Store) (isTcp : Bool) (r : Request) : Served :=
  if isTcp then (s, ascii "ERR local-only\n") else ((jobRecycle s r.id).1, ascii "OK\n")

/-- `h_dup`, which is refused on the pipe. -/
def hDup (s : Store) (isTcp : Bool) (r : Request) (grant : Nat -> Grant) : Served :=
  if isTcp then
    let result := jobDup s r.id grant
    if result.2 < 0 then (result.1, ascii "ERR dup\n") else (result.1, jobReply result.2)
  else (s, ascii "ERR net-only\n")

/-- `h_flush`, which is refused on the pipe. -/
def hFlush (s : Store) (isTcp : Bool) : Served :=
  if isTcp then ((jobFlush s).1, ascii "OK\n") else (s, ascii "ERR net-only\n")

/-- `g_ops[req.op]`, for the ops within the table. -/
def dispatch (filters : Nat -> Option Filter) (s : Store) (isTcp : Bool) (r : Request) (grant : Nat -> Grant)
    (outcome : Realloc) : Served :=
  if r.op = opSubmit then hSubmit filters s r grant
  else if r.op = opRender then hRender s r
  else if r.op = opAppend then hAppend s r outcome
  else if r.op = opCancel then hCancel s r
  else if r.op = opStatus then hStatus s isTcp r
  else if r.op = opRecycle then hRecycle s isTcp r
  else if r.op = opDup then hDup s isTcp r grant
  else hFlush s isTcp

/-! ## Connections -/

/-- Why a reader stops. -/
inductive Stop where
  | short     -- the input ends
  | big       -- the announced payload is too long
  | memory    -- no memory for the payload
  deriving DecidableEq, Repr

/-- A request as a packed record, of a limited size.  The server and the
client have the same limit. -/
def packed (limit : Nat) : RecordFormat Request Stop where
  make := fun op fmt job arg => { op, fmt, job, arg }
  kind := Request.op
  flags := Request.fmt
  number := Request.job
  payload := Request.arg
  limit := limit
  short := .short
  big := .big
  memory := .memory
  make_parts := fun _ => rfl
  parts_make := fun _ _ _ _ => ⟨rfl, rfl, rfl, rfl⟩

def requestFormat : RecordFormat Request Stop :=
  packed encMaxArg

/-- The outcomes of the allocations for one request: of the buffer for its
argument, in a call that makes a job, and of a reallocation. -/
structure Answers where
  argument : Bool
  grant : Nat -> Grant
  outcome : Realloc

/-- What has come of a connection, with the requests that were dispatched in
their order. -/
structure Attended where
  store : Store
  sent : Bytes
  dispatched : List Request

/-- One turn of the loop in `serve`, behind the reads.  A request beyond the
table is answered and goes no further. -/
def attend (filters : Nat -> Option Filter) (isTcp : Bool) (answers : Nat -> Answers) (i : Nat) (v : Attended)
    (r : Request) : Attended :=
  if r.op > opFlush then { v with sent := v.sent ++ ascii "ERR op\n" }
  else
    let served := dispatch filters v.store isTcp r (answers i).grant (answers i).outcome
    { store := served.1, sent := v.sent ++ served.2, dispatched := v.dispatched ++ [r] }

/-- The loop is left; only a request that is too long is answered. -/
def hangUp (v : Attended) (stop : Stop) : Attended :=
  if stop = .big then { v with sent := v.sent ++ ascii "ERR big\n" } else v

/-- A connection is accepted, and nothing has been sent on it. -/
def accepted (store : Store) : Attended where
  store := store
  sent := []
  dispatched := []

/-- `serve`, on one connection that has the store for itself. -/
def serve (filters : Nat -> Option Filter) (answers : Nat -> Answers) (store : Store) (isTcp : Bool)
    (s : Stream) : Attended :=
  requestFormat.serve (fun i => (answers i).argument) (attend filters isTcp answers) hangUp
    (s.input.length + 1) 0 (accepted store) s

/-- The request is in the table of operations. -/
def Request.known (r : Request) : Prop :=
  ¬ r.op > opFlush

instance (r : Request) : Decidable r.known :=
  inferInstanceAs (Decidable (¬ _))

/-- The table is called for the requests in front of the input, whatever the
pieces, and the store and the replies are those of the turns for these
requests. -/
theorem serve_keepsFrames (filters : Nat -> Option Filter) (answers : Nat -> Answers) (store : Store)
    (isTcp : Bool) :
    requestFormat.KeepsFrames (fun i => (answers i).argument) Request.known
      (attend filters isTcp answers) hangUp (accepted store) (serve filters answers store isTcp)
      Attended.dispatched := by
  apply requestFormat.keepsFrames _ (accepted store)
  · intro i v r
    by_cases listed : r.known
    · rw [attend, if_neg listed, if_pos listed]
    · rw [attend, if_pos (not_not.mp listed), if_neg listed, List.append_nil]
  · intro v stop
    rw [hangUp]
    split
    · rfl
    · rfl
  · rfl

end Encore
end BugMuseum
