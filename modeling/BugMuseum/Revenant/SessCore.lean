import BugMuseum.Revenant.SessStore

namespace BugMuseum
namespace Revenant

open Foundation

/-!
# The operations of `sesscore.c`

Each operation is a function from the store before the call to the store after
it and the value returned.  The table pointer is the one `SessNew` returned,
so its null checks always pass and are not written out.

Every access to a `Session` goes through `touchSession` or `modifySession`,
which record an access to a session that is no longer live; every access to a
buffer goes through the heap of buffers, which records it likewise.
-/

/-- `free_session`: the buffer and the session are released. -/
def freeSession (s : Store) (x : Block) : Store :=
  let s := s.touchSession x
  { s with
    buffers := s.buffers.releaseAt (s.session x).data
    sessions := s.sessions.release x }

/-- `SessOpen`: the text is cut to the limit, the session takes the lowest
free slot, and it becomes the recent one. -/
def sessOpen (s : Store) (type : Int) (handler : Option Handler) (init : Payload)
    (grant : Nat -> Grant) : Store × Int :=
  match handler with
  | none => (s, sessErr)
  | some handler =>
  match firstFree sessMax s.slots with
  | none => (s, sessErr)
  | some id =>
  let len := if init.bytes.length > sessMaxData then sessMaxData else init.bytes.length
  match grant 0 with
  | none => (s, sessErr)
  | some _ =>
  let x := s.sessions.next
  let cap := if len < 32 then 32 else len
  let s := { s with
    sessions := s.sessions.alloc { (default : Session) with id, type, handler, cap } }
  match grant 1 with
  | none => ({ s with sessions := s.sessions.release x }, sessErr)
  | some residue =>
  let data := s.buffers.next
  let s := { s with
    buffers := (s.buffers.alloc (freshBytes cap residue)).write data 0 (init.bytes.take len) }
  let s := s.modifySession x fun session => { session with data := some data, len }
  ({ s with slots := Function.update s.slots id (some x), count := s.count + 1, gRecent := some x },
    id)

/-- `SessGet`.  The reserved handle is the recent session, and any other
session that is found becomes the recent one. -/
def sessGet (s : Store) (id : Int) : Store × Option Block :=
  if id = sessRecent then (s, s.gRecent)
  else match s.slotAt id with
    | none => (s, none)
    | some x => ({ s with gRecent := some x }, some x)

/-- `s->handler(arg, len, out, out_cap)`, noted in the log of uses. -/
def runSession (s : Store) (x : Block) (arg : Payload) (out : Bytes) : Store × Bytes × Int :=
  let result := (s.session x).handler.call arg.bytes out
  ({ s.touchSession x with uses := s.uses ++ [Use.run x] }, result.1, result.2)

/-- `SessUseRun` -/
def sessUseRun (s : Store) (id : Int) (arg : Payload) (out : Bytes) : Store × Bytes × Int :=
  match sessGet s id with
  | (s, none) => (s, out, sessErr)
  | (s, some x) => runSession s x arg out

/-- Write the argument over the front of the buffer, as far as it fits, and
take that for the length. -/
def setSession (s : Store) (x : Block) (arg : Payload) : Store :=
  let session := s.session x
  let n := if arg.bytes.length < session.cap then arg.bytes.length else session.cap
  let s := { s with
    buffers := s.buffers.writeAt session.data 0 (arg.bytes.take n), uses := s.uses ++ [Use.write x] }
  s.modifySession x fun session => { session with len := n }

/-- `SessUseSet` -/
def sessUseSet (s : Store) (id : Int) (arg : Payload) : Store × Int :=
  match sessGet s id with
  | (s, none) => (s, sessErr)
  | (s, some x) => (setSession s x arg, sessOk)

/-- `s->data = grown; s->cap = need;` -/
def adoptBuffer (s : Store) (x grown : Block) (need : Nat) : Store :=
  s.modifySession x fun session => { session with data := some grown, cap := need }

/-- `memcpy(old + s->len, arg, len); s->len = need;` -/
def copyBehind (s : Store) (x : Block) (old : Option Block) (arg : Payload) (need : Nat) : Store :=
  let s := { s with
    buffers := s.buffers.writeAt old (s.session x).len arg.bytes, uses := s.uses ++ [Use.write x] }
  s.modifySession x fun session => { session with len := need }

/-- `SessUseAppend` once the session is known.  The copy goes to the buffer
the session had at the start, even when the buffer has moved since.  The sum
of the lengths is one of 32 bits, and it is compared with the capacity
only. -/
def appendSession (s : Store) (x : Block) (arg : Payload) (outcome : Realloc) : Store × Int :=
  let s := s.touchSession x
  let old := (s.session x).data
  let need := ((s.session x).len + arg.bytes.length) % 2 ^ 32
  if need > (s.session x).cap then
    match s.buffers.realloc old need outcome with
    | (buffers, none) => ({ s with buffers }, sessErr)
    | (buffers, some grown) =>
        (copyBehind (adoptBuffer { s with buffers } x grown need) x old arg need, sessOk)
  else (copyBehind s x old arg need, sessOk)

/-- `SessUseAppend` -/
def sessUseAppend (s : Store) (id : Int) (arg : Payload) (outcome : Realloc) : Store × Int :=
  match sessGet s id with
  | (s, none) => (s, sessErr)
  | (s, some x) => appendSession s x arg outcome

/-- `SessClose` once the slot is known to hold a session.  Neither `g_recent`
nor the batch is touched. -/
def closeHeld (s : Store) (id : Nat) (x : Block) : Store :=
  let s := freeSession s x
  { s with slots := Function.update s.slots id none, count := s.count - 1 }

/-- `SessClose` -/
def sessClose (s : Store) (id : Int) : Store × Int :=
  match s.slotAt id with
  | none => (s, sessErr)
  | some x => (closeHeld s id.toNat x, sessOk)

/-- `SessStat`: the number of sessions, and in the verbose form a preview of
the recent one. -/
def sessStat (s : Store) (verbose : Bool) (out : Bytes) : Store × Bytes × Int :=
  let summary := snprintf out 0 (ascii "sessions=" ++ decimal s.count)
  let w := (max summary.2 0).toNat
  let finish (out : Bytes) := overwrite out (out.length - 1) [0]
  match s.gRecent with
  | none => (s, finish summary.1, sessOk)
  | some x =>
      if verbose ∧ w < out.length then
        let session := s.session x
        let detail := ascii " recent=#" ++ decimal session.id ++ ascii " len=" ++ decimal session.len
        (s.touchSession x, finish (snprintf summary.1 w detail).1, sessOk)
      else (s, finish summary.1, sessOk)

/-- `SessDefer`: the buffer and the length of the session are captured as they
are, if the batch has room. -/
def sessDefer (s : Store) (id : Int) : Store :=
  match sessGet s id with
  | (s, none) => s
  | (s, some x) =>
      if s.batch.length ≥ deferMax then s
      else
        let s := s.touchSession x
        { s with batch := s.batch ++ [((s.session x).data, (s.session x).len)] }

/-- `memcpy(g_batch.data[i], arg, n)` for one entry. -/
def flushEntry (arg : Payload) (buffers : Heap Bytes) (entry : Option Block × Nat) : Heap Bytes :=
  let n := if arg.bytes.length < entry.2 then arg.bytes.length else entry.2
  buffers.writeAt entry.1 0 (arg.bytes.take n)

/-- `SessFlush` copies the front of one argument to every captured pointer and
empties the batch.  It calls no handler. -/
def sessFlush (s : Store) (arg : Payload) : Store × Int :=
  ({ s with buffers := s.batch.foldl (flushEntry arg) s.buffers, batch := [] }, sessOk)

/-! ## Runs of calls -/

/-- A call of the store with the answers of the allocator, and with the
contents of the buffer that a run or a status is to print to. -/
inductive Op where
  | opening (type : Int) (handler : Option Handler) (init : Payload) (grant : Nat -> Grant)
  | get (id : Int)
  | useRun (id : Int) (arg : Payload) (out : Bytes)
  | useSet (id : Int) (arg : Payload)
  | useAppend (id : Int) (arg : Payload) (outcome : Realloc)
  | close (id : Int)
  | stat (verbose : Bool) (out : Bytes)
  | defer (id : Int)
  | flush (arg : Payload)

/-- The store after a call. -/
def step (s : Store) : Op -> Store
  | .opening type handler init grant => (sessOpen s type handler init grant).1
  | .get id => (sessGet s id).1
  | .useRun id arg out => (sessUseRun s id arg out).1
  | .useSet id arg => (sessUseSet s id arg).1
  | .useAppend id arg outcome => (sessUseAppend s id arg outcome).1
  | .close id => (sessClose s id).1
  | .stat verbose out => (sessStat s verbose out).1
  | .defer id => sessDefer s id
  | .flush arg => (sessFlush s arg).1

end Revenant
end BugMuseum
