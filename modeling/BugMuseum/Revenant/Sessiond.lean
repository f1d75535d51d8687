import BugMuseum.Revenant.SessCore

namespace BugMuseum
namespace Revenant

open Foundation

/-!
# The session server

`sessiond` serves requests from named-pipe and TCP connections.  A request is
executed under `g_lock`, so the server is a state machine whose events are the
connects, the requests and the disconnects of all connections in some order.

A read that fails, or an argument buffer that cannot be allocated, ends the
connection without touching the store: it is a disconnect.
-/

/-- `conn`, without the operating-system handles.  The current session is used
on a pipe only. -/
structure Conn where
  isTcp : Bool
  cur : Option Block

/-- `sess_request` and its argument bytes; `arg_len` is their number. -/
structure Request where
  op : UInt8
  type : UInt8
  handle : UInt16
  arg : Payload

structure Daemon where
  store : Store
  plugins : Nat -> Option Handler     -- `g_plugins`
  conns : Nat -> Option Conn

def opOpen : UInt8 := 0
def opUseRun : UInt8 := 1
def opUseSet : UInt8 := 2
def opUseAppend : UInt8 := 3
def opClose : UInt8 := 4
def opStat : UInt8 := 5
def opFlush : UInt8 := 6

def handlerIdMask : UInt8 := 0x0F

def flagDefer : UInt8 := 0x80

def flagVerbose : UInt8 := 0x40

def sessMaxArg : Nat := 2 ^ 20

def nplugins : Nat := 16

/-- `load_plugins`, given which of the two libraries could be loaded. -/
def loadPlugins (found : Handler -> Bool) : Nat -> Option Handler
  | 0 => if found .echo then some .echo else none
  | 1 => if found .calc then some .calc else none
  | _ => none

def sessiondNew (found : Handler -> Bool) : Daemon where
  store := sessNew
  plugins := loadPlugins found
  conns := fun _ => none

def pluginFor (plugins : Nat -> Option Handler) (id : UInt8) : Option Handler :=
  if id.toNat < nplugins then plugins id.toNat else none

def Request.id (r : Request) : Int :=
  r.handle.toNat

/-- The request goes through the connection's own current session, and so past
the table. -/
def cached (c : Conn) (r : Request) : Prop :=
  c.isTcp = false ∧ r.id = sessRecent

instance (c : Conn) (r : Request) : Decidable (cached c r) :=
  inferInstanceAs (Decidable (_ ∧ _))

/-! ## Operation handlers -/

/-- The store and the connection after a request, and the reply. -/
abbrev Served := Store × Conn × Bytes

/-- `h_open`.  A pipe connection remembers the session as its current one. -/
def hOpen (plugins : Nat -> Option Handler) (s : Store) (c : Conn) (r : Request)
    (grant : Nat -> Grant) : Served :=
  let type := r.type &&& handlerIdMask
  let result := sessOpen s type.toNat (pluginFor plugins type) r.arg grant
  if result.2 < 0 then (result.1, c, ascii "ERR open\n")
  else
    let printed := snprintf (List.replicate 40 0) 0 (ascii "OK handle=" ++ decimal result.2 ++ ascii "\n")
    let msg := cString (overwrite printed.1 39 [0])
    if c.isTcp then (result.1, c, msg)
    else
      let current := sessGet result.1 result.2
      (current.1, { c with cur := current.2 }, msg)

/-- `if (r->type & FLAG_DEFER) SessDefer(g_table, (int)r->handle);` -/
def deferFlagged (s : Store) (r : Request) : Store :=
  if r.type &&& flagDefer ≠ 0 then sessDefer s r.id else s

/-- The last lines of `h_use_run`, once the handler has returned. -/
def finishRun (c : Conn) (r : Request) (result : Store × Bytes × Int) : Served :=
  if result.2.2 < 0 then (result.1, c, ascii "ERR\n")
  else (deferFlagged result.1 r, c, result.2.1.take result.2.2.toNat ++ ascii "\n")

/-- `h_use_run`.  With the reserved handle, a pipe calls the handler of its
current session. -/
def hUseRun (s : Store) (c : Conn) (r : Request) : Served :=
  let out := List.replicate 256 0
  if cached c r then
    match c.cur with
    | none => (s, c, ascii "ERR no current\n")
    | some x => finishRun c r (runSession s x r.arg out)
  else finishRun c r (sessUseRun s r.id r.arg out)

/-- `h_use_set`.  With the reserved handle, a pipe writes to its current
session. -/
def hUseSet (s : Store) (c : Conn) (r : Request) : Served :=
  if cached c r then
    match c.cur with
    | none => (s, c, ascii "ERR no current\n")
    | some x => (deferFlagged (setSession s x r.arg) r, c, ascii "OK\n")
  else
    let result := sessUseSet s r.id r.arg
    if result.2 ≠ sessOk then (result.1, c, ascii "ERR\n")
    else (deferFlagged result.1 r, c, ascii "OK\n")

/-- `h_use_append`, which looks at neither the flag nor the current
session. -/
def hUseAppend (s : Store) (c : Conn) (r : Request) (outcome : Realloc) : Served :=
  let result := sessUseAppend s r.id r.arg outcome
  if result.2 ≠ sessOk then (result.1, c, ascii "ERR\n") else (result.1, c, ascii "OK\n")

/-- `h_close` answers the same whether it found a session or not.  The current
session of the connection is not updated. -/
def hClose (s : Store) (c : Conn) (r : Request) : Served :=
  ((sessClose s r.id).1, c, ascii "OK\n")

/-- `h_stat`.  The preview is a local feature, so the flag counts on the pipe
only. -/
def hStat (s : Store) (c : Conn) (r : Request) : Served :=
  let verbose : Bool := decide (r.type &&& flagVerbose ≠ 0) && !c.isTcp
  let result := sessStat s verbose (List.replicate 256 0)
  (result.1, c, cString result.2.1 ++ ascii "\n")

/-- `h_flush` -/
def hFlush (s : Store) (c : Conn) (r : Request) : Served :=
  ((sessFlush s r.arg).1, c, ascii "OK\n")

/-- `g_ops[req.op]`, for the ops within the table. -/
def dispatch (plugins : Nat -> Option Handler) (s : Store) (c : Conn) (r : Request)
    (grant : Nat -> Grant) (outcome : Realloc) : Served :=
  if r.op = opOpen then hOpen plugins s c r grant
  else if r.op = opUseRun then hUseRun s c r
  else if r.op = opUseSet then hUseSet s c r
  else if r.op = opUseAppend then hUseAppend s c r outcome
  else if r.op = opClose then hClose s c r
  else if r.op = opStat then hStat s c r
  else hFlush s c r

section Dispatch

variable (plugins : Nat -> Option Handler) (s : Store) (c : Conn) {r : Request} (grant : Nat -> Grant)
  (outcome : Realloc)

theorem dispatch_useRun (running : r.op = opUseRun) : dispatch plugins s c r grant outcome = hUseRun s c r := by
  rw [dispatch, running]
  rfl

theorem dispatch_useSet (setting : r.op = opUseSet) : dispatch plugins s c r grant outcome = hUseSet s c r := by
  rw [dispatch, setting]
  rfl

theorem dispatch_useAppend (appending : r.op = opUseAppend) :
    dispatch plugins s c r grant outcome = hUseAppend s c r outcome := by
  rw [dispatch, appending]
  rfl

theorem dispatch_close (closing : r.op = opClose) : dispatch plugins s c r grant outcome = hClose s c r := by
  rw [dispatch, closing]
  rfl

end Dispatch

/-- One turn of the loop in `serve`: the reply, and what is left of the
connection. -/
def serveRequest (d : Daemon) (k : Nat) (c : Conn) (r : Request) (grant : Nat -> Grant)
    (outcome : Realloc) : Daemon × Bytes :=
  if r.arg.bytes.length > sessMaxArg then
    ({ d with conns := Function.update d.conns k none }, ascii "ERR big\n")
  else if r.op > opFlush then (d, ascii "ERR op\n")
  else
    let served := dispatch d.plugins d.store c r grant outcome
    ({ d with store := served.1, conns := Function.update d.conns k (some served.2.1) }, served.2.2)

/-- What happens to the server: a connection comes, makes a request, or goes.
The connections are numbered. -/
inductive Event where
  | connect (conn : Nat) (isTcp : Bool)
  | request (conn : Nat) (r : Request) (grant : Nat -> Grant) (outcome : Realloc)
  | disconnect (conn : Nat)

/-- The server after an event.  An event of a connection that is not there
changes nothing. -/
def daemonStep (d : Daemon) : Event -> Daemon
  | .connect k isTcp =>
      match d.conns k with
      | none => { d with conns := Function.update d.conns k (some { isTcp, cur := none }) }
      | some _ => d
  | .request k r grant outcome =>
      match d.conns k with
      | none => d
      | some c => (serveRequest d k c r grant outcome).1
  | .disconnect k => { d with conns := Function.update d.conns k none }

end Revenant
end BugMuseum
