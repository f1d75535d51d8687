import BugMuseum.Foundation.LiveBlocks
import BugMuseum.Revenant.AppendText
import BugMuseum.Revenant.PlainHandles

namespace BugMuseum
namespace Revenant

open Foundation

/-!
# What the plain path is for

A client of `sessiond` that uses ordinary handles sees a table of sessions.  An open takes
the lowest free handle, a run answers with what its handler makes of the argument, a set
and an append change the text of one session, and a close frees the handle.  This module
states that service without any memory, and shows that the server is it, for any number
of connections and any interleaving of their requests.
-/

/-- An open session, as its client sees it.  The capacity is part of it, since
a set is cut to it. -/
structure Entry where
  handler : Handler
  text : Bytes
  cap : Nat

/-- A session that is opened with this text, cut to the limit, in a buffer of
32 bytes at least. -/
def Entry.opened (handler : Handler) (init : Bytes) : Entry where
  handler := handler
  text := init.take sessMaxData
  cap := max 32 (min init.length sessMaxData)

abbrev Table := Nat -> Option Entry

/-- What a handler answers in a buffer of 256 bytes. -/
def Handler.answer : Handler -> Bytes -> Bytes
  | .echo, input => input.take 256
  | .calc, input => ascii "sum=" ++ decimal (byteSum input)

namespace Table

variable (t : Table)

def openWith (handler : Option Handler) (init : Bytes) (granted : Bool) : Table × Bytes :=
  match handler, firstFree sessMax t, granted with
  | some handler, some id, true =>
      (Function.update t id (some (.opened handler init)), ascii "OK handle=" ++ decimal id ++ ascii "\n")
  | _, _, _ => (t, ascii "ERR open\n")

/-- A change of the entry that a handle names.  A handle that names none is
answered with an error. -/
def change (handle : Nat) (f : Entry -> Entry) : Table × Bytes :=
  match t handle with
  | none => (t, ascii "ERR\n")
  | some e => (Function.update t handle (some (f e)), ascii "OK\n")

/-- A plain request of an operation that the server knows.  A close is
answered the same whether the handle names a session or not. -/
def serve (plugins : Nat -> Option Handler) (r : Request) (granted : Bool) : Table × Bytes :=
  let handle := r.handle.toNat
  if r.op = opOpen then t.openWith (pluginFor plugins (r.type &&& handlerIdMask)) r.arg.bytes granted
  else if r.op = opUseRun then
    match t handle with
    | none => (t, ascii "ERR\n")
    | some e => (t, e.handler.answer r.arg.bytes ++ ascii "\n")
  else if r.op = opUseSet then t.change handle fun e => { e with text := r.arg.bytes.take e.cap }
  else if r.op = opUseAppend then t.change handle fun e => { e with text := e.text ++ r.arg.bytes }
  else if r.op = opClose then (Function.update t handle none, ascii "OK\n")
  else (t, ascii "sessions=" ++ decimal (occupied sessMax t) ++ ascii "\n")

end Table

/-- The table, and which connections there are.  For plain requests a
connection is no more than that. -/
structure SessionService where
  table : Table
  connected : Nat -> Bool

namespace SessionService

def start : SessionService where
  table := fun _ => none
  connected := fun _ => false

/-- Both allocations of an open succeed. -/
def granted (grant : Nat -> Grant) : Bool :=
  (grant 0).isSome && (grant 1).isSome

/-- An event, and the reply to its connection.  A request that is too long
ends its connection, and one beyond the table is refused. -/
def step (plugins : Nat -> Option Handler) (p : SessionService) : Event -> SessionService × Bytes
  | .connect k _ => ({ p with connected := Function.update p.connected k true }, [])
  | .disconnect k => ({ p with connected := Function.update p.connected k false }, [])
  | .request k r grant _ =>
      if p.connected k then
        if r.arg.bytes.length > sessMaxArg then
          ({ p with connected := Function.update p.connected k false }, ascii "ERR big\n")
        else if r.op > opFlush then (p, ascii "ERR op\n")
        else
          let served := p.table.serve plugins r (granted grant)
          ({ p with table := served.1 }, served.2)
      else (p, [])

/-- The requests of the plain path: an ordinary handle, no deferring, no
flush, no preview, and an append that fits.  An append fits when the text of
the session and the argument together are no longer than the capacity that the
session was opened with. -/
def Offers (p : SessionService) : Event -> Prop
  | .request _ r _ _ =>
      r.handle ≠ 0xFFFF ∧ r.type &&& flagDefer = 0 ∧ r.op ≠ opFlush ∧
        (r.op = opStat -> r.type &&& flagVerbose = 0) ∧
        (r.op = opUseAppend -> forall e, e ∈ p.table r.handle.toNat ->
          e.text.length + r.arg.bytes.length ≤ e.cap)
  | .connect _ _ => True
  | .disconnect _ => True

instance (p : SessionService) (event : Event) : Decidable (p.Offers event) :=
  match event with
  | .request _ _ _ _ => inferInstanceAs (Decidable (_ ∧ _ ∧ _ ∧ _ ∧ _))
  | .connect _ _ => inferInstanceAs (Decidable True)
  | .disconnect _ => inferInstanceAs (Decidable True)

end SessionService

/-- The reply to the connection of an event.  A connect and a disconnect have
none. -/
def daemonReply (d : Daemon) : Event -> Bytes
  | .request k r grant outcome =>
      match d.conns k with
      | none => []
      | some c => (serveRequest d k c r grant outcome).2
  | .connect _ _ => []
  | .disconnect _ => []

def daemonTurn (d : Daemon) (event : Event) : Daemon × Bytes :=
  (daemonStep d event, daemonReply d event)

/-! ## The table in memory -/

namespace Store

variable (s : Store)

def entry (x : Block) : Entry where
  handler := (s.session x).handler
  text := s.text x
  cap := (s.session x).cap

/-- The open sessions by their handles, as the service sees them. -/
def table : Table := fun index =>
  (s.slots index).map s.entry

theorem firstFree_table : firstFree sessMax s.table = firstFree sessMax s.slots := by
  simp [firstFree, table]

theorem occupied_table : occupied sessMax s.table = occupied sessMax s.slots := by
  simp [occupied, table]

variable {s}

/-- A wire handle is looked up in the table, since an ordinary one is never
the reserved one. -/
theorem table_handle (sound : Sound s) (r : Request) : s.table r.handle.toNat = (s.slotAt r.id).map s.entry := by
  have id : r.id.toNat = r.handle.toNat := Int.toNat_natCast _
  rw [slotAt, id, table]
  split
  · rename_i beyond
    have large : sessMax ≤ r.handle.toNat := by
      rw [Request.id] at beyond
      omega
    cases slot : s.slots r.handle.toNat with
    | none => rfl
    | some x => exact absurd (sound.ids _ x slot).1 (Nat.not_lt.mpr large)
  · rfl

end Store

section Frames

variable {s s' : Store}

/-- A session that a call does not reach has the same entry. -/
theorem Reaches.entry {target : Option Block} (reaches : Reaches s s' target) {y : Block} (known : Known s y)
    (other : target ≠ some y) : s'.entry y = s.entry y := by
  rcases reaches.others y known other with ⟨session, cells⟩
  rcases known.2 with ⟨data, owned⟩
  simp only [Store.entry, Store.text, session, owned, cells data owned]

/-- A call with a target leaves the entries of the other handles as they
are. -/
theorem Reaches.elsewhere {index other : Nat} {x : Block} (reaches : Reaches s s' (some x)) (sound : Sound s)
    (slot : s.slots index = some x) (apart : other ≠ index) : (s.slots other).map s'.entry = s.table other := by
  rw [Store.table]
  cases at_ : s.slots other with
  | none => rfl
  | some y =>
      have different : some x ≠ some y := by
        intro same
        cases same
        exact apart (sound.numbered.unique at_ slot)
      have isOpen : s.Open y := ⟨other, (sound.ids other y at_).1, at_⟩
      exact congrArg some (reaches.entry (sound.known isOpen) different)

/-- A call that keeps the slots changes the entry of its target only. -/
theorem Reaches.table {index : Nat} {x : Block} (reaches : Reaches s s' (some x)) (sound : Sound s)
    (slots : s'.slots = s.slots) (slot : s.slots index = some x) :
    s'.table = Function.update s.table index (some (s'.entry x)) := by
  funext other
  rw [Store.table, slots]
  by_cases same : other = index
  · subst same
    rw [slot, Function.update_self]
    rfl
  · rw [Function.update_of_ne same]
    exact reaches.elsewhere sound slot same

/-- A call without a target leaves the entries in the table as they are. -/
theorem Reaches.slots_map (reaches : Reaches s s' none) (sound : Sound s) (index : Nat) :
    (s.slots index).map s'.entry = s.table index := by
  rw [Store.table]
  cases at_ : s.slots index with
  | none => rfl
  | some y =>
      have isOpen : s.Open y := ⟨index, (sound.ids index y at_).1, at_⟩
      exact congrArg some (reaches.entry (sound.known isOpen) nofun)

end Frames

section Open

variable {s : Store} {closed : List Block}

/-- The new session of an open is the one that the service enters, in the
lowest free slot. -/
theorem sessOpen_entry {type : Int} {handler : Handler} {init : Payload} {grant : Nat -> Grant} {id : Nat}
    {first second : Nat -> UInt8} (slot : firstFree sessMax s.slots = some id) (one : grant 0 = some first)
    (two : grant 1 = some second) :
    (sessOpen s type (some handler) init grant).2 = id ∧
      (sessOpen s type (some handler) init grant).1.slots = Function.update s.slots id (some s.sessions.next) ∧
      (sessOpen s type (some handler) init grant).1.entry s.sessions.next = .opened handler init.bytes := by
  have len : (if init.bytes.length > sessMaxData then sessMaxData else init.bytes.length) =
      min init.bytes.length sessMaxData := by
    split <;> omega
  have cap : (if min init.bytes.length sessMaxData < 32 then 32 else min init.bytes.length sessMaxData) =
      max 32 (min init.bytes.length sessMaxData) := by
    split <;> omega
  have text : init.bytes.take (min init.bytes.length sessMaxData) = init.bytes.take sessMaxData := by
    rw [List.take_eq_take_iff]
    omega
  have length : (init.bytes.take sessMaxData).length = min init.bytes.length sessMaxData := by
    rw [List.length_take]
    omega
  have cell := freshCopy_cell s.buffers (length.le.trans (le_max_right 32 _)) second
  simp only [sessOpen, slot, one, two, len, cap, text]
  refine ⟨trivial, rfl, ?_⟩
  simp only [Store.entry, Store.text, Store.session, Store.modifySession, Heap.modify_cell_self,
    Heap.alloc_cell_next, Entry.opened]
  rw [cell, ← length, List.take_left]

theorem sessOpen_table (tidy : Tidy s closed) (type : Int) (handler : Option Handler) (init : Payload)
    (grant : Nat -> Grant) :
    ((sessOpen s type handler init grant).1.table,
        if (sessOpen s type handler init grant).2 < 0 then ascii "ERR open\n"
        else ascii "OK handle=" ++ decimal (sessOpen s type handler init grant).2 ++ ascii "\n") =
      s.table.openWith handler init.bytes (SessionService.granted grant) := by
  have reaches := (tidy.sessOpen type handler init grant).2
  have refused : sessErr < 0 := by decide
  unfold Table.openWith SessionService.granted
  rw [s.firstFree_table]
  cases handler with
  | none => rfl
  | some handler =>
      cases slot : firstFree sessMax s.slots with
      | none => simp [sessOpen, slot, refused]
      | some id =>
          cases one : grant 0 with
          | none => simp [sessOpen, slot, one, refused]
          | some first =>
              cases two : grant 1 with
              | none =>
                  have table : (sessOpen s type (some handler) init grant).1.table = s.table := by
                    funext index
                    rw [← reaches.slots_map tidy.sound index]
                    simp only [sessOpen, slot, one, two]
                    rfl
                  have returned : (sessOpen s type (some handler) init grant).2 = sessErr := by
                    simp only [sessOpen, slot, one, two]
                  rw [table, returned, if_pos refused]
                  rfl
              | some second =>
                  rcases sessOpen_entry (s := s) slot one two with ⟨returned, slots, entry⟩
                  have accepted : ¬ (id : Int) < 0 := by omega
                  rw [returned, if_neg accepted]
                  refine Prod.ext ?_ rfl
                  funext index
                  change Option.map _ (Store.slots _ index) =
                    Function.update s.table id (some (.opened handler init.bytes)) index
                  rw [slots]
                  by_cases same : index = id
                  · subst same
                    rw [Function.update_self, Function.update_self]
                    exact congrArg some entry
                  · rw [Function.update_of_ne same, Function.update_of_ne same]
                    exact reaches.slots_map tidy.sound index

end Open

/-- What a handler leaves in the buffer of the server is its answer. -/
theorem Handler.call_answer (handler : Handler) (input : Bytes) :
    (handler.call input (List.replicate 256 0)).1.take (handler.call input (List.replicate 256 0)).2.toNat =
      handler.answer input := by
  cases handler
  · have length : (if input.length < (List.replicate 256 (0 : UInt8)).length then input.length
        else (List.replicate 256 (0 : UInt8)).length) = min input.length 256 := by
      rw [List.length_replicate]
      split <;> omega
    have taken : input.take (min input.length 256) = input.take 256 := by
      rw [List.take_eq_take_iff]
      omega
    have short : (input.take 256).length = min input.length 256 := by
      rw [List.length_take]
      omega
    have fits : (input.take 256).length ≤ (List.replicate 256 (0 : UInt8)).length := by
      rw [short, List.length_replicate]
      omega
    simp only [Handler.call, Handler.answer, length, Int.toNat_natCast, taken]
    rw [overwrite_zero fits, ← short, List.take_left]
  · have digits : (decimal (byteSum input)).length ≤ 10 := by
      rw [decimal_length_le_iff (by decide)]
      exact (wrappedSum_lt input).trans (by decide)
    have fits : (ascii "sum=" ++ decimal (byteSum input)).length < (List.replicate 256 (0 : UInt8)).length := by
      have four : (ascii "sum=").length = 4 := by decide
      rw [List.length_append, List.length_replicate]
      omega
    simp only [Handler.call, Handler.answer]
    rw [snprintf_whole fits, Int.max_eq_left (Int.natCast_nonneg _), Int.toNat_natCast, List.take_left]

section Requests

variable {s : Store} {closed : List Block} {r : Request}

/-- A run changes no entry, as handlers have no access to the session. -/
theorem runSession_table (s : Store) (x : Block) (arg : Payload) (out : Bytes) :
    (runSession s x arg out).1.table = s.table := by
  have session : forall y, (runSession s x arg out).1.session y = s.session y :=
    fun y => s.touchSession_session x y
  have entry : (runSession s x arg out).1.entry = s.entry := by
    funext y
    simp only [Store.entry, Store.text, session]
    rfl
  funext index
  exact congrArg (fun entry => (s.slots index).map entry) entry

theorem finishRun_ok {c : Conn} {result : Store × Bytes × Int} (unflagged : r.type &&& flagDefer = 0)
    (succeeded : 0 ≤ result.2.2) :
    finishRun c r result = (result.1, c, result.2.1.take result.2.2.toNat ++ ascii "\n") := by
  rw [finishRun, if_neg (Int.not_lt.mpr succeeded), deferFlagged_unflagged unflagged]

theorem hUseRun_serves (c : Conn) (sound : Sound s) (plain : PlainRequest s r) :
    ((hUseRun s c r).1.table, (hUseRun s c r).2.2) =
      match s.table r.handle.toNat with
      | none => (s.table, ascii "ERR\n")
      | some e => (s.table, e.handler.answer r.arg.bytes ++ ascii "\n") := by
  have direct : ¬ cached c r := fun through => plain.handle through.2
  have lookup := lookup_ordinary (s := s) plain.handle
  rw [hUseRun, if_neg direct, sessUseRun, Store.table_handle sound]
  cases found : s.slotAt r.id with
  | none =>
      rw [found] at lookup
      rw [sessGet_absent lookup]
      rfl
  | some x =>
      rw [found] at lookup
      rw [sessGet_found lookup]
      have succeeded := (s.session x).handler.call_nonneg r.arg.bytes (List.replicate 256 0)
      have answer := (s.session x).handler.call_answer r.arg.bytes
      dsimp only
      rw [finishRun_ok plain.undeferred succeeded, runSession_table]
      exact Prod.ext rfl (congrArg (· ++ ascii "\n") answer)

/-- A write to the front of a session, with the length set to what was
written, makes it the text. -/
theorem writeSession_text {x : Block} (sound : Sound s) (isOpen : s.Open x) {bytes : Bytes}
    (fits : bytes.length ≤ (s.session x).cap) : (writeSession s x 0 bytes bytes.length).text x = bytes := by
  rcases sound.backed isOpen with ⟨data, backed⟩
  have cell : ((writeSession s x 0 bytes bytes.length).buffers.cell data) =
      overwrite (s.buffers.cell data) 0 bytes := by
    simp only [writeSession, Store.modifySession, backed.owned]
    exact Heap.write_cell_self (by rw [backed.size, Nat.zero_add]; exact fits)
  have session : (writeSession s x 0 bytes bytes.length).session x = { s.session x with len := bytes.length } :=
    Store.modifySession_session_self ..
  simp only [Store.text, session, backed.owned, cell]
  rw [overwrite_zero (backed.size ▸ fits), List.take_left]

/-- A write changes the entry that it writes, and no other one. -/
theorem writeSession_table {x : Block} {index offset len : Nat} {bytes text : Bytes} (sound : Sound s)
    (slot : s.slots index = some x) (written : (writeSession s x offset bytes len).text x = text) :
    (writeSession s x offset bytes len).table =
      Function.update s.table index (some { s.entry x with text := text }) := by
  have isOpen : s.Open x := ⟨index, (sound.ids index x slot).1, slot⟩
  have session : (writeSession s x offset bytes len).session x = { s.session x with len := len } :=
    Store.modifySession_session_self ..
  have entry : (writeSession s x offset bytes len).entry x = { s.entry x with text := text } := by
    simp only [Store.entry, session, written]
  rw [(writeSession_reaches (sound.known isOpen) sound).table sound rfl slot, entry]

/-- The slot that a wire handle names. -/
theorem slot_of_slotAt {x : Block} (found : s.slotAt r.id = some x) : s.slots r.handle.toNat = some x :=
  (Store.slotAt_some found).2.2

theorem hUseSet_serves (c : Conn) (sound : Sound s) (plain : PlainRequest s r) :
    ((hUseSet s c r).1.table, (hUseSet s c r).2.2) =
      s.table.change r.handle.toNat fun e => { e with text := r.arg.bytes.take e.cap } := by
  have direct : ¬ cached c r := fun through => plain.handle through.2
  have lookup := lookup_ordinary (s := s) plain.handle
  rw [hUseSet, if_neg direct, sessUseSet, Table.change, Store.table_handle sound]
  cases found : s.slotAt r.id with
  | none =>
      rw [found] at lookup
      rw [sessGet_absent lookup]
      rfl
  | some x =>
      rw [found] at lookup
      rw [sessGet_found lookup]
      have slot := slot_of_slotAt found
      have isOpen := Store.slotAt_open found
      have sound' := sound.setRecent (sound.known isOpen)
      have cut : r.arg.bytes.take (min r.arg.bytes.length (s.session x).cap) = r.arg.bytes.take (s.session x).cap := by
        rw [List.take_eq_take_iff]
        omega
      have length : (r.arg.bytes.take (s.session x).cap).length = min r.arg.bytes.length (s.session x).cap := by
        rw [List.length_take]
        omega
      have written := writeSession_text sound' isOpen (length.le.trans (Nat.min_le_right _ _))
      have table := writeSession_table sound' slot written
      have set : setSession { s with gRecent := some x } x r.arg =
          writeSession { s with gRecent := some x } x 0 (r.arg.bytes.take (s.session x).cap)
            (r.arg.bytes.take (s.session x).cap).length := by
        rw [setSession_eq, length, ← cut]
        rfl
      dsimp only
      rw [if_neg (not_not.mpr rfl), deferFlagged_unflagged plain.undeferred, set, table]
      rfl

theorem hUseAppend_serves (c : Conn) (tidy : Tidy s closed) (plain : PlainRequest s r)
    (appending : r.op = opUseAppend) (outcome : Realloc) :
    ((hUseAppend s c r outcome).1.table, (hUseAppend s c r outcome).2.2) =
      s.table.change r.handle.toNat fun e => { e with text := e.text ++ r.arg.bytes } := by
  have sound := tidy.sound
  have lookup := lookup_ordinary (s := s) plain.handle
  rw [Table.change, Store.table_handle sound]
  cases found : s.slotAt r.id with
  | none =>
      rw [found] at lookup
      rw [hUseAppend, sessUseAppend, sessGet_absent lookup]
      rfl
  | some x =>
      rw [found] at lookup
      have slot := slot_of_slotAt found
      have isOpen := Store.slotAt_open found
      have sound' := sound.setRecent (sound.known isOpen)
      have fits := plain.fits appending x found
      rcases sound'.backed isOpen with ⟨data, backed⟩
      have written := (backed.copyBehind r.arg fits).text rfl
      rw [copyBehind, ← backed.owned] at written
      have appended : sessUseAppend s r.id r.arg outcome =
          (writeSession { s with gRecent := some x } x (s.session x).len r.arg.bytes
            ((s.session x).len + r.arg.bytes.length), sessOk) := by
        rw [sessUseAppend, sessGet_found lookup]
        exact appendSession_eq backed.live fits (tidy.bounded x (sound.known isOpen)) outcome
      rw [hUseAppend, appended, if_neg (not_not.mpr rfl)]
      exact Prod.ext (writeSession_table sound' slot written) rfl

theorem hClose_serves (c : Conn) (sound : Sound s) :
    ((hClose s c r).1.table, (hClose s c r).2.2) =
      (Function.update s.table r.handle.toNat none, ascii "OK\n") := by
  refine Prod.ext ?_ rfl
  have named := Store.table_handle sound r
  rw [hClose, sessClose]
  cases found : s.slotAt r.id with
  | none =>
      rw [found] at named
      exact (Function.update_eq_self r.handle.toNat s.table).symm.trans (by rw [named]; rfl)
  | some x =>
      have slot := slot_of_slotAt found
      have reaches := closeHeld_reaches s r.handle.toNat x
      funext other
      change (Function.update s.slots r.handle.toNat none other).map (closeHeld s r.handle.toNat x).entry =
        Function.update s.table r.handle.toNat none other
      by_cases same : other = r.handle.toNat
      · subst same
        rw [Function.update_self, Function.update_self]
        rfl
      · rw [Function.update_of_ne same, Function.update_of_ne same]
        exact reaches.elsewhere sound slot same

theorem occupied_le (size : Nat) (slots : Nat -> Option Block) : occupied size slots ≤ size :=
  List.countP_le_length.trans_eq List.length_range

/-- The status of a tidy store shows the number of open sessions. -/
theorem sessStat_terse (tidy : Tidy s closed) {out : Bytes} (size : out.length = 256) :
    (sessStat s false out).1 = s ∧
      cString (sessStat s false out).2.1 = ascii "sessions=" ++ decimal (occupied sessMax s.slots) := by
  have digits : (decimal (occupied sessMax s.slots)).length ≤ 3 := by
    rw [decimal_length_le_iff (by decide)]
    exact (occupied_le sessMax s.slots).trans_lt (by decide)
  have clean : (0 : UInt8) ∉ ascii "sessions=" ++ decimal (occupied sessMax s.slots) := by
    rw [List.mem_append, not_or]
    exact ⟨by decide, decimal_clean _⟩
  have short : (ascii "sessions=" ++ decimal (occupied sessMax s.slots)).length ≤ out.length - 1 := by
    have nine : (ascii "sessions=").length = 9 := by decide
    rw [List.length_append]
    omega
  have printed := cString_snprintf (size ▸ (by decide : 0 < 256)) clean
  rw [List.take_of_length_le short, ← tidy.counted, ← snprintf_length out 0] at printed
  rw [← tidy.counted, sessStat]
  cases s.gRecent with
  | none => exact ⟨rfl, printed⟩
  | some x => exact ⟨rfl, printed⟩

theorem hStat_serves (c : Conn) (tidy : Tidy s closed) (terse : r.type &&& flagVerbose = 0) :
    ((hStat s c r).1.table, (hStat s c r).2.2) =
      (s.table, ascii "sessions=" ++ decimal (occupied sessMax s.table) ++ ascii "\n") := by
  have silent : (decide (r.type &&& flagVerbose ≠ 0) && !c.isTcp) = false := by
    rw [terse]
    rfl
  have status := sessStat_terse tidy (List.length_replicate (n := 256) (a := (0 : UInt8)))
  rw [hStat, silent, s.occupied_table]
  exact Prod.ext (congrArg Store.table status.1) (congrArg (· ++ ascii "\n") status.2)

/-- The handle in the reply to an open is printed whole. -/
theorem openReply {id : Nat} (inside : id < sessMax) :
    cString (overwrite (snprintf (List.replicate 40 0) 0 (ascii "OK handle=" ++ decimal id ++ ascii "\n")).1 39 [0]) =
      ascii "OK handle=" ++ decimal id ++ ascii "\n" := by
  have digits : (decimal id).length ≤ 3 := by
    rw [decimal_length_le_iff (by decide)]
    exact inside.trans (by decide)
  have clean : (0 : UInt8) ∉ ascii "OK handle=" ++ decimal id ++ ascii "\n" := by
    simp only [List.mem_append, not_or]
    exact ⟨⟨by decide, decimal_clean _⟩, by decide⟩
  have short : (ascii "OK handle=" ++ decimal id ++ ascii "\n").length ≤ 39 := by
    have ten : (ascii "OK handle=").length = 10 := by decide
    have one : (ascii "\n").length = 1 := by decide
    simp only [List.length_append]
    omega
  have room : 0 < (List.replicate 40 (0 : UInt8)).length := by decide
  have printed := cString_snprintf room clean
  rw [List.length_replicate] at printed
  exact printed.trans (List.take_of_length_le short)

theorem hOpen_serves (plugins : Nat -> Option Handler) (c : Conn) (tidy : Tidy s closed) (grant : Nat -> Grant) :
    ((hOpen plugins s c r grant).1.table, (hOpen plugins s c r grant).2.2) =
      s.table.openWith (pluginFor plugins (r.type &&& handlerIdMask)) r.arg.bytes (SessionService.granted grant) := by
  rw [← sessOpen_table tidy (r.type &&& handlerIdMask).toNat]
  have cases := sessOpen_cases s (r.type &&& handlerIdMask).toNat (pluginFor plugins (r.type &&& handlerIdMask))
    r.arg grant
  rw [hOpen]
  generalize sessOpen s (r.type &&& handlerIdMask).toNat (pluginFor plugins (r.type &&& handlerIdMask)) r.arg
    grant = result at cases ⊢
  by_cases refused : result.2 < 0
  · rw [if_pos refused, if_pos refused]
  · rw [if_neg refused, if_neg refused]
    have printed : exists id : Nat, id < sessMax ∧ result.2 = id := by
      rcases cases with rfl | ⟨_, _, _, rfl⟩ | ⟨id, _, _, opened, _, returned⟩
      · exact absurd (by decide : sessErr < 0) refused
      · exact absurd (by decide : sessErr < 0) refused
      · exact ⟨id, (firstFree_some opened.slot).1, returned⟩
    rcases printed with ⟨id, inside, returned⟩
    have table : (sessGet result.1 id).1.table = result.1.table := by
      rw [sessGet]
      split
      · rfl
      · split <;> rfl
    rw [returned]
    split
    · exact Prod.ext rfl (openReply inside)
    · exact Prod.ext table (openReply inside)

/-- A plain request is served as the table says: the same reply, and the table
that the service has behind it. -/
theorem dispatch_serves (plugins : Nat -> Option Handler) (c : Conn) (tidy : Tidy s closed)
    (plain : PlainRequest s r) (accepted : ¬ r.op > opFlush) (grant : Nat -> Grant) (outcome : Realloc) :
    ((dispatch plugins s c r grant outcome).1.table, (dispatch plugins s c r grant outcome).2.2) =
      s.table.serve plugins r (SessionService.granted grant) := by
  unfold dispatch Table.serve
  dsimp only
  by_cases opening : r.op = opOpen
  · rw [if_pos opening, if_pos opening]
    exact hOpen_serves plugins c tidy grant
  by_cases running : r.op = opUseRun
  · rw [if_neg opening, if_neg opening, if_pos running, if_pos running]
    exact hUseRun_serves c tidy.sound plain
  by_cases setting : r.op = opUseSet
  · rw [if_neg opening, if_neg opening, if_neg running, if_neg running, if_pos setting, if_pos setting]
    exact hUseSet_serves c tidy.sound plain
  by_cases appending : r.op = opUseAppend
  · rw [if_neg opening, if_neg opening, if_neg running, if_neg running, if_neg setting, if_neg setting,
      if_pos appending, if_pos appending]
    exact hUseAppend_serves c tidy plain appending outcome
  rw [if_neg opening, if_neg opening, if_neg running, if_neg running, if_neg setting, if_neg setting,
    if_neg appending, if_neg appending]
  by_cases closing : r.op = opClose
  · rw [if_pos closing, if_pos closing]
    exact hClose_serves c tidy.sound
  have status : r.op = opStat := by
    rcases op_cases accepted with h | h | h | h | h | h | h
    · exact absurd h opening
    · exact absurd h running
    · exact absurd h setting
    · exact absurd h appending
    · exact absurd h closing
    · exact h
    · exact absurd h plain.unflushed
  rw [if_neg closing, if_neg closing, if_pos status]
  exact hStat_serves c tidy (plain.terse status)

end Requests

/-! ## The server is the service -/

/-- The server has this table and these connections, and its store is tidy,
with some history of closes. -/
structure Represents (plugins : Nat -> Option Handler) (d : Daemon) (p : SessionService) : Prop where
  table : d.store.table = p.table
  conns : forall k, (d.conns k).isSome = p.connected k
  plugins : d.plugins = plugins
  tidy : exists closed, Tidy d.store closed

namespace Represents

variable {plugins : Nat -> Option Handler} {d : Daemon} {p : SessionService}

theorem start (found : Handler -> Bool) : Represents (loadPlugins found) (sessiondNew found) .start where
  table := rfl
  conns := fun _ => rfl
  plugins := rfl
  tidy := ⟨[], tidy_sessNew⟩

/-- What the service offers is a plain request of the server. -/
theorem plain (represents : Represents plugins d p) {event : Event} (offered : p.Offers event) :
    PlainEvent d event := by
  cases event with
  | connect k isTcp => exact trivial
  | disconnect k => exact trivial
  | request k r grant outcome =>
      rcases offered with ⟨ordinary, undeferred, unflushed, terse, fits⟩
      rcases represents.tidy with ⟨closed, tidy⟩
      refine ⟨?_, undeferred, unflushed, terse, ?_⟩
      · intro recent
        apply ordinary
        rw [← UInt16.toNat_inj]
        exact Int.ofNat.inj recent
      · intro appending x found
        have named := Store.table_handle tidy.sound r
        rw [found, represents.table] at named
        have room := fits appending _ named
        rcases tidy.sound.backed (Store.slotAt_open found) with ⟨data, backed⟩
        rw [← backed.text_length]
        exact room

/-- A connection comes or goes, or stays, on both sides. -/
theorem conns_update (conns : forall k, (d.conns k).isSome = p.connected k) (k : Nat) (c : Option Conn) :
    forall other, (Function.update d.conns k c other).isSome =
      Function.update p.connected k c.isSome other := by
  intro other
  by_cases same : other = k
  · subst same
    rw [Function.update_self, Function.update_self]
  · rw [Function.update_of_ne same, Function.update_of_ne same]
    exact conns other

/-- Each event has the reply of the service, and the server has its table
again.  It is the step of the induction over a run. -/
theorem turn (represents : Represents plugins d p) {event : Event} (offered : p.Offers event) :
    (daemonTurn d event).2 = (p.step plugins event).2 ∧
      Represents plugins (daemonTurn d event).1 (p.step plugins event).1 := by
  have plain := represents.plain offered
  rcases represents with ⟨table, conns, rfl, closed, tidy⟩
  have kept : Tidy (closingStep (d, closed) event).1.store (closingStep (d, closed) event).2 :=
    Tidy.event tidy plain
  have after : exists closed, Tidy (daemonStep d event).store closed := ⟨_, kept⟩
  cases event with
  | connect k isTcp =>
      refine ⟨rfl, ?_⟩
      rw [daemonTurn, SessionService.step]
      rw [daemonStep] at after ⊢
      cases at_ : d.conns k with
      | none => exact ⟨table, conns_update conns k (some { isTcp, cur := none }), rfl, closed, tidy⟩
      | some c =>
          have already := conns k
          rw [at_] at already
          have same : Function.update p.connected k true = p.connected := by
            rw [show true = p.connected k from already, Function.update_eq_self]
          exact ⟨table, fun other => (conns other).trans (congrFun same.symm other), rfl, closed, tidy⟩
  | disconnect k => exact ⟨rfl, table, conns_update conns k none, rfl, closed, tidy⟩
  | request k r grant outcome =>
      have connected := conns k
      rw [daemonTurn, daemonReply, SessionService.step]
      rw [daemonStep] at after ⊢
      cases at_ : d.conns k with
      | none =>
          rw [at_] at connected
          rw [← connected, if_neg (by decide)]
          exact ⟨rfl, table, conns, rfl, closed, tidy⟩
      | some c =>
          rw [at_] at connected after
          rw [← connected, if_pos (by rfl)]
          dsimp only at after ⊢
          rw [serveRequest] at after ⊢
          by_cases long : r.arg.bytes.length > sessMaxArg
          · rw [if_pos long, if_pos long]
            exact ⟨rfl, table, conns_update conns k none, rfl, closed, tidy⟩
          rw [if_neg long] at after ⊢
          rw [if_neg long]
          by_cases unknown : r.op > opFlush
          · rw [if_pos unknown, if_pos unknown]
            exact ⟨rfl, table, conns, rfl, closed, tidy⟩
          rw [if_neg unknown] at after ⊢
          rw [if_neg unknown]
          have served := dispatch_serves d.plugins c tidy plain unknown grant outcome
          rw [table] at served
          have stays := conns_update conns k (some (dispatch d.plugins d.store c r grant outcome).2.1)
          have same : Function.update p.connected k true = p.connected := by
            rw [show true = p.connected k from connected, Function.update_eq_self]
          rw [Option.isSome_some, same] at stays
          exact ⟨congrArg Prod.snd served, congrArg Prod.fst served, stays, rfl, after⟩

end Represents

/-- In every interleaving of plain requests, on any number of connections and
whichever allocations of an open fail, the server gives the replies of the
table of sessions and holds that table.  The appends among them fit the
capacity of their session, so they never ask the allocator for more. -/
theorem plain_refines (found : Handler -> Bool) (events : List Event)
    (offered : Guarded (fun p event => (SessionService.step (loadPlugins found) p event).1)
      SessionService.Offers .start events) :
    replies daemonTurn (sessiondNew found) events =
        replies (SessionService.step (loadPlugins found)) .start events ∧
      Represents (loadPlugins found) (run daemonStep (sessiondNew found) events)
        (run (fun p event => (SessionService.step (loadPlugins found) p event).1) .start events) := by
  have simulates : forall d p event, Represents (loadPlugins found) d p -> p.Offers event ->
      (daemonTurn d event).2 = (p.step (loadPlugins found) event).2 ∧
        Represents (loadPlugins found) (daemonTurn d event).1 (p.step (loadPlugins found) event).1 :=
    fun _ _ _ represents now => represents.turn now
  exact replies_of_guarded simulates (Represents.start found) offered

/-- A session is opened on a pipe, enlarged over TCP, run, and closed
again. -/
def openAppendClose : List Event :=
  [.connect 0 false, .connect 1 true, .request 0 (helloRequest opOpen 0) generous .fails,
    .request 1 (helloRequest opUseAppend 0) generous .fails, .request 0 (helloRequest opUseRun 0) generous .fails,
    .request 1 (helloRequest opClose 0) generous .fails, .request 0 (helloRequest opUseRun 0) generous .fails]

theorem openAppendClose_replies :
    replies daemonTurn (sessiondNew fun _ => true) openAppendClose =
      [[], [], ascii "OK handle=0\n", ascii "OK\n", ascii "hello\n", ascii "OK\n", ascii "ERR\n"] := by
  have served := (plain_refines (fun _ => true) openAppendClose (by decide)).1
  exact served.trans (by decide)

end Revenant
end BugMuseum
