import BugMuseum.Foundation.ByteStrings
import BugMuseum.Foundation.SlotTable

namespace BugMuseum
namespace Revenant

open Foundation

/-!
# The session store of Revenant

`Store` is everything that `sesscore.dll` keeps between two calls: the handle
table, the global `g_recent`, the deferred batch, and the heap.  The heap is
split in two, one heap for `Session` structures and one for their buffers.

The log of uses is not part of the program.  It lists the sessions whose
handler was called and the sessions whose buffer was written.
-/

/-- The two handler plug-ins.  They are in libraries of their own, and a
session has a pointer to one of them. -/
inductive Handler where
  | echo
  | calc
  deriving DecidableEq, Repr

/-- `Session`, with the block that its pointer names. -/
structure Session where
  id : Int
  type : Int
  handler : Handler
  data : Option Block
  len : Nat
  cap : Nat

instance : Inhabited Session :=
  ⟨⟨0, 0, .echo, none, 0, 0⟩⟩

/-- What was done with a session, and which one it was. -/
inductive Use where
  | run (session : Block)
  | write (session : Block)
  deriving DecidableEq, Repr

def Use.session : Use -> Block
  | .run session => session
  | .write session => session

def sessMax : Nat := 256

def sessRecent : Int := 0xFFFF

def sessMaxData : Nat := 2 ^ 20

def sessOk : Int := 0

def sessErr : Int := -1

def deferMax : Nat := 64

structure Store where
  sessions : Heap Session
  buffers : Heap Bytes
  slots : Nat -> Option Block
  count : Int
  gRecent : Option Block
  batch : List (Option Block × Nat)   -- `g_batch.data[k]` and `g_batch.len[k]`
  uses : List Use

/-- `SessNew` in a fresh process: no session was opened, and nothing is
deferred. -/
def sessNew : Store where
  sessions := .empty
  buffers := .empty
  slots := fun _ => none
  count := 0
  gRecent := none
  batch := []
  uses := []

def hello : Payload :=
  ⟨ascii "hello", by decide⟩

namespace Store

def session (s : Store) (x : Block) : Session :=
  s.sessions.cell x

def touchSession (s : Store) (x : Block) : Store :=
  { s with sessions := s.sessions.touch x }

def modifySession (s : Store) (x : Block) (change : Session -> Session) : Store :=
  { s with sessions := s.sessions.modify x change }

/-- The slot a handle names, for the handles that pass the range check. -/
def slotAt (s : Store) (id : Int) : Option Block :=
  if id < 0 ∨ id ≥ sessMax then none else s.slots id.toNat

/-- The session a handle names: the recent one for the reserved handle, and
the one in its slot for any other. -/
def lookup (s : Store) (id : Int) : Option Block :=
  if id = sessRecent then s.gRecent else s.slotAt id

/-- A session is open when some slot holds it.  Such a session is what the
handles of clients name. -/
def Open (s : Store) (x : Block) : Prop :=
  Held sessMax s.slots x

@[simp] theorem touchSession_session (s : Store) (touched x : Block) :
    (s.touchSession touched).session x = s.session x := by
  simp [session, touchSession]

@[simp] theorem modifySession_session_self (s : Store) (x : Block)
    (change : Session -> Session) :
    (s.modifySession x change).session x = change (s.session x) :=
  Heap.modify_cell_self ..

theorem modifySession_session_of_ne (s : Store) {x other : Block} (change : Session -> Session)
    (different : other ≠ x) : (s.modifySession x change).session other = s.session other :=
  Heap.modify_cell_of_ne _ _ different

/-- A field that the change keeps is as before in every session. -/
theorem modifySession_field {Value : Type} {s : Store} {x : Block} {change : Session -> Session}
    (field : Session -> Value) (keeps : field (change (s.session x)) = field (s.session x))
    (y : Block) : field ((s.modifySession x change).session y) = field (s.session y) :=
  s.sessions.modify_field field keeps y

theorem touchSession_of_live {s : Store} {x : Block} (live : s.sessions.Live x) :
    s.touchSession x = s := by
  rw [touchSession, Heap.touch_of_live live]

theorem slotAt_some {s : Store} {id : Int} {x : Block} (found : s.slotAt id = some x) :
    (id.toNat : Int) = id ∧ id.toNat < sessMax ∧ s.slots id.toNat = some x := by
  unfold slotAt at found
  split at found
  · cases found
  · exact ⟨by omega, by omega, found⟩

theorem slotAt_open {s : Store} {id : Int} {x : Block} (found : s.slotAt id = some x) :
    s.Open x :=
  ⟨id.toNat, (slotAt_some found).2⟩

theorem slotAt_natCast (s : Store) {index : Nat} (inside : index < sessMax) :
    s.slotAt index = s.slots index := by
  rw [slotAt, if_neg (by omega), Int.toNat_natCast]

end Store

/-! ## The handler plug-ins -/

/-- `unsigned long sum`, a 32-bit sum of the bytes. -/
def byteSum (input : Bytes) : Nat :=
  input.foldl (fun sum byte => (sum + byte.toNat) % 2 ^ 32) 0

/-- The caller's buffer after the call and the returned count.  Neither
handler touches the session. -/
def Handler.call : Handler -> Bytes -> Bytes -> Bytes × Int
  | .echo, input, out =>
      let n := if input.length < out.length then input.length else out.length
      (overwrite out 0 (input.take n), n)
  | .calc, input, out =>
      let printed := snprintf out 0 (ascii "sum=" ++ decimal (byteSum input))
      (printed.1, max printed.2 0)

end Revenant
end BugMuseum
