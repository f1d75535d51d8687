import BugMuseum.Revenant.Sessiond
import BugMuseum.Revenant.SessTable

namespace BugMuseum
namespace Revenant

open Foundation

/-!
# The current session of a pipe connection

A pipe connection remembers the session it opened last, and a close updates no
connection.  The remembered session is therefore valid exactly as long as no
connection closes a session that some pipe connection remembers.
-/

/-- What a request does to the sessions that a caller must not reach: it runs,
logs and changes open sessions and their buffers only. -/
structure UsesOpen (s s' : Store) : Prop where
  logged : forall use, use ∈ s'.uses.drop s.uses.length -> s.Open use.session
  sessions : forall x, s'.session x ≠ s.session x -> s.Open x
  buffers : forall block, s'.buffers.cell block ≠ s.buffers.cell block ->
    exists x, s.Open x ∧ (s.session x).data = some block

/-- The current session of every pipe connection is held in the slot its id
names, and a run or a set through it reaches open sessions only. -/
structure CurrentHeld (d : Daemon) : Prop where
  held : forall k c x, d.conns k = some c -> c.isTcp = false -> c.cur = some x ->
    d.store.slotAt (d.store.session x).id = some x
  reaches : forall k c r grant outcome, d.conns k = some c -> cached c r ->
    r.op = opUseRun ∨ r.op = opUseSet ->
    UsesOpen d.store (daemonStep d (.request k r grant outcome)).store

/-- No connection closes a session that some pipe connection remembers, its
own one included. -/
def ClosesNoCurrent (d : Daemon) : Event -> Prop
  | .request k r _ _ => d.conns k ≠ none -> r.op = opClose -> r.arg.bytes.length ≤ sessMaxArg ->
      forall x other c, d.store.slotAt r.id = some x -> d.conns other = some c ->
        c.isTcp = false -> c.cur ≠ some x
  | _ => True

/-- The discipline: what a pipe connection remembers is open.  A close that
names the current session of some connection ends it. -/
structure CurrentKept (d : Daemon) : Prop where
  sound : Sound d.store
  opened : forall k c x, d.conns k = some c -> c.isTcp = false -> c.cur = some x -> d.store.Open x

/-- The calls that neither open nor close a session. -/
def Op.keepsTable : Op -> Prop
  | .opening _ _ _ _ => False
  | .close _ => False
  | .get _ => True
  | .useRun _ _ _ => True
  | .useSet _ _ => True
  | .useAppend _ _ _ => True
  | .stat _ _ => True
  | .defer _ => True
  | .flush _ => True

/-- They leave the slots alone, so whatever is open stays open. -/
theorem step_slots {s : Store} (sound : Sound s) {op : Op} (keeps : op.keepsTable) :
    (step s op).slots = s.slots := by
  cases handled : op.handle with
  | some id =>
      cases found : s.lookup id with
      | none => rw [step_absent handled found]
      | some x =>
          have known : Known { s with gRecent := some x } x := sound.lookup_known found
          rw [step_found handled found]
          exact (known.act_table op).1
  | none =>
      cases op with
      | opening type handler init grant => exact keeps.elim
      | close id => exact keeps.elim
      | stat verbose out =>
          rcases sessStat_frame s verbose out with same | ⟨x, _, same⟩ <;> rw [step, same]
          rfl
      | flush arg => rfl
      | _ => cases handled

/-- The laws of the store survive, and so do the open sessions.  Every request
but a close advances the store in this sense. -/
structure Advances (s s' : Store) : Prop where
  sound : Sound s -> Sound s'
  opened : Sound s -> forall x, s.Open x -> s'.Open x

namespace Advances

variable {first second third s s' : Store}

theorem trans (left : Advances first second) (right : Advances second third) :
    Advances first third where
  sound := fun sound => right.sound (left.sound sound)
  opened := fun sound x isOpen => right.opened (left.sound sound) x (left.opened sound x isOpen)

theorem refl (s : Store) : Advances s s where
  sound := fun sound => sound
  opened := fun _ _ isOpen => isOpen

theorem shape (frame : ShapeFrame s s') : Advances s s' where
  sound := fun sound => sound.shape frame
  opened := fun _ x isOpen => (frame.open_iff x).mpr isOpen

/-- A call that neither opens nor closes a session advances the store. -/
theorem step (s : Store) (op : Op) (keeps : op.keepsTable) : Advances s (step s op) where
  sound := fun sound => sound.step op
  opened := fun sound x isOpen => by
    rw [Store.Open, step_slots sound keeps]
    exact isOpen

/-- Deferring reads the session but changes neither sessions nor buffers. -/
theorem deferFlagged (s : Store) (r : Request) : Advances s (deferFlagged s r) := by
  unfold Revenant.deferFlagged
  split
  · exact Advances.step _ (.defer r.id) trivial
  · exact .refl s

/-- An open keeps what is open, and adds the session of the returned
handle. -/
theorem sessOpen (s : Store) (type : Int) (handler : Option Handler) (init : Payload)
    (grant : Nat -> Grant) : Advances s (sessOpen s type handler init grant).1 := by
  refine ⟨fun sound => sound.step (.opening type handler init grant), fun sound x isOpen => ?_⟩
  rcases sessOpen_cases s type handler init grant with result | ⟨id, chosen, cap, result⟩ |
    ⟨id, session, content, opened, _⟩
  · rwa [result]
  · rw [result]
    exact isOpen
  · exact (opened.open_iff x).mpr (Or.inl isOpen)

end Advances

theorem finishRun_store (c : Conn) (r : Request) (result : Store × Bytes × Int) :
    (finishRun c r result).1 = result.1 ∨
      (finishRun c r result).1 = deferFlagged result.1 r := by
  unfold finishRun
  split
  · exact Or.inl rfl
  · exact Or.inr rfl

theorem finishRun_conn (c : Conn) (r : Request) (result : Store × Bytes × Int) :
    (finishRun c r result).2.1 = c := by
  unfold finishRun
  split <;> rfl

theorem hUseRun_conn (s : Store) (c : Conn) (r : Request) : (hUseRun s c r).2.1 = c := by
  unfold hUseRun
  split
  · split
    · rfl
    · exact finishRun_conn ..
  · exact finishRun_conn ..

theorem hUseSet_conn (s : Store) (c : Conn) (r : Request) : (hUseSet s c r).2.1 = c := by
  unfold hUseSet
  split
  · split <;> rfl
  · dsimp only
    split <;> rfl

theorem Advances.finishRun {s : Store} {c : Conn} {r : Request} {result : Store × Bytes × Int}
    (advances : Advances s result.1) : Advances s (finishRun c r result).1 := by
  rcases finishRun_store c r result with same | same <;> rw [same]
  · exact advances
  · exact advances.trans (.deferFlagged _ r)

theorem Advances.hUseRun (s : Store) (c : Conn) (r : Request) : Advances s (hUseRun s c r).1 := by
  unfold Revenant.hUseRun
  split
  · split
    · exact .refl s
    · exact (Advances.shape (runSession_frame s _ r.arg _)).finishRun
  · have used := Advances.step s (.useRun r.id r.arg (List.replicate 256 0)) trivial
    exact used.finishRun

theorem Advances.hUseSet (s : Store) (c : Conn) (r : Request) : Advances s (hUseSet s c r).1 := by
  unfold Revenant.hUseSet
  split
  · split
    · exact .refl s
    · exact (Advances.shape (setSession_frame s _ r.arg)).trans (.deferFlagged _ r)
  · have used := Advances.step s (.useSet r.id r.arg) trivial
    dsimp only
    split
    · exact used
    · exact used.trans (.deferFlagged _ r)

/-- A pipe connection comes to remember the session it opens, and a TCP
connection remembers none. -/
theorem hOpen_conn (plugins : Nat -> Option Handler) (s : Store) (c : Conn) (r : Request)
    (grant : Nat -> Grant) :
    (hOpen plugins s c r grant).2.1.isTcp = c.isTcp ∧
      forall x, (hOpen plugins s c r grant).2.1.cur = some x ->
        c.cur = some x ∨ (hOpen plugins s c r grant).1.Open x := by
  unfold hOpen
  dsimp only
  split
  · exact ⟨rfl, fun x named => Or.inl named⟩
  · split
    · exact ⟨rfl, fun x named => Or.inl named⟩
    · rename_i accepted _
      refine ⟨rfl, fun x named => Or.inr ?_⟩
      rcases sessOpen_cases s (r.type &&& handlerIdMask).toNat
        (pluginFor plugins (r.type &&& handlerIdMask)) r.arg grant with
        result | ⟨id, chosen, cap, result⟩ | ⟨id, session, content, opened, _, returned⟩
      · rw [result] at accepted
        exact absurd (show sessErr < 0 by decide) accepted
      · rw [result] at accepted
        exact absurd (show sessErr < 0 by decide) accepted
      · rcases firstFree_some opened.slot with ⟨inside, _⟩
        have held : (sessOpen s (r.type &&& handlerIdMask).toNat
            (pluginFor plugins (r.type &&& handlerIdMask)) r.arg grant).1.lookup id =
              some s.sessions.next := by
          rw [Store.lookup, if_neg (by simp only [sessMax, sessRecent] at inside ⊢; omega),
            Store.slotAt_natCast _ inside, opened.slots, Function.update_self]
        simp only [returned, sessGet_found held] at named ⊢
        cases named
        exact (opened.open_iff _).mpr (Or.inr rfl)

theorem Advances.hOpen (plugins : Nat -> Option Handler) (s : Store) (c : Conn) (r : Request)
    (grant : Nat -> Grant) : Advances s (hOpen plugins s c r grant).1 := by
  have opening := Advances.sessOpen s (r.type &&& handlerIdMask).toNat
    (pluginFor plugins (r.type &&& handlerIdMask)) r.arg grant
  unfold Revenant.hOpen
  dsimp only
  split
  · exact opening
  · split
    · exact opening
    · exact opening.trans (Advances.step _ (.get _) trivial)

/-- Every request but a close keeps what is open. -/
theorem Advances.dispatch (plugins : Nat -> Option Handler) (s : Store) (c : Conn) {r : Request}
    (grant : Nat -> Grant) (outcome : Realloc) (notClose : r.op ≠ opClose) :
    Advances s (dispatch plugins s c r grant outcome).1 := by
  unfold Revenant.dispatch
  split
  · exact .hOpen plugins s c r grant
  · split
    · exact .hUseRun s c r
    · split
      · exact .hUseSet s c r
      · split
        · have used := Advances.step s (.useAppend r.id r.arg outcome) trivial
          unfold hUseAppend
          dsimp only
          split <;> exact used
        · split
          · exact Advances.step _ (.stat _ _) trivial
          · exact Advances.step _ (.flush r.arg) trivial

/-- The laws of the store hold whatever the connections do, in any order and
with any bytes. -/
theorem Sound.event {d : Daemon} (sound : Sound d.store) (event : Event) :
    Sound (daemonStep d event).store := by
  cases event with
  | connect k isTcp =>
      rw [daemonStep]
      split <;> exact sound
  | disconnect k => exact sound
  | request k r grant outcome =>
      rw [daemonStep]
      split
      · exact sound
      · rename_i c _
        rw [serveRequest]
        split
        · exact sound
        · split
          · exact sound
          · by_cases closing : r.op = opClose
            · have closed : (dispatch d.plugins d.store c r grant outcome).1 =
                  Revenant.step d.store (.close r.id) := by
                rw [dispatch_close _ _ _ _ _ closing]
                rfl
              dsimp only
              rw [closed]
              exact sound.step (.close r.id)
            · exact (Advances.dispatch d.plugins d.store c grant outcome closing).sound sound

theorem sound_run (found : Handler -> Bool) (events : List Event) :
    Sound (run daemonStep (sessiondNew found) events).store := by
  have every : Throughout daemonStep (fun d => Sound d.store) (sessiondNew found) events :=
    throughout_of_invariant (fun _ => True) (fun _ event sound _ => Sound.event sound event) sound_sessNew
      fun _ _ => trivial
  exact throughout_end every

theorem dispatch_conn (plugins : Nat -> Option Handler) (s : Store) (c : Conn) (r : Request)
    (grant : Nat -> Grant) (outcome : Realloc) :
    (dispatch plugins s c r grant outcome).2.1.isTcp = c.isTcp ∧
      forall x, (dispatch plugins s c r grant outcome).2.1.cur = some x ->
        c.cur = some x ∨ (dispatch plugins s c r grant outcome).1.Open x := by
  have kept : forall served : Served, served.2.1 = c ->
      served.2.1.isTcp = c.isTcp ∧ forall x, served.2.1.cur = some x -> c.cur = some x ∨ served.1.Open x := by
    intro served same
    rw [same]
    exact ⟨rfl, fun x named => Or.inl named⟩
  unfold dispatch
  split
  · exact hOpen_conn plugins s c r grant
  · split
    · exact kept _ (hUseRun_conn s c r)
    · split
      · exact kept _ (hUseSet_conn s c r)
      · split
        · apply kept
          unfold hUseAppend
          dsimp only
          split <;> rfl
        · split
          · exact kept _ rfl
          · split <;> exact kept _ rfl

/-! ## Requests through the current session -/

namespace UsesOpen

variable {s s' : Store}

theorem refl (s : Store) : UsesOpen s s where
  logged := fun use member => by simp at member
  sessions := fun _ changed => absurd rfl changed
  buffers := fun _ changed => absurd rfl changed

theorem run {x : Block} (isOpen : s.Open x) (arg : Payload) (out : Bytes) :
    UsesOpen s (runSession s x arg out).1 where
  logged := fun use member => by
    simp only [runSession, List.drop_left, List.mem_singleton] at member
    exact member ▸ isOpen
  sessions := fun y changed => absurd (s.touchSession_session x y) changed
  buffers := fun _ changed => absurd rfl changed

theorem set {x : Block} (isOpen : s.Open x) (arg : Payload) : UsesOpen s (setSession s x arg) where
  logged := fun use member => by
    simp only [setSession, Store.modifySession, List.drop_left, List.mem_singleton] at member
    exact member ▸ isOpen
  sessions := fun y changed => by
    by_cases same : y = x
    · exact same ▸ isOpen
    · exact absurd (Store.modifySession_session_of_ne _ _ same) changed
  buffers := fun block changed => by
    refine ⟨x, isOpen, ?_⟩
    by_contra different
    exact changed (Heap.writeAt_cell_of_ne s.buffers _ _ different)

/-- Deferring reads the session but changes neither sessions nor buffers. -/
theorem deferFlagged (used : UsesOpen s s') (r : Request) : UsesOpen s (deferFlagged s' r) := by
  have same : (Revenant.deferFlagged s' r).uses = s'.uses ∧
      (Revenant.deferFlagged s' r).buffers = s'.buffers ∧
      forall y, (Revenant.deferFlagged s' r).session y = s'.session y := by
    unfold Revenant.deferFlagged
    split
    · cases found : s'.lookup r.id with
      | none =>
          simp only [sessDefer, sessGet_absent found]
          exact ⟨trivial, trivial, fun _ => trivial⟩
      | some x =>
          simp only [sessDefer, sessGet_found found]
          split
          · exact ⟨rfl, rfl, fun _ => rfl⟩
          · exact ⟨rfl, rfl, fun y => Store.touchSession_session { s' with gRecent := some x } x y⟩
    · exact ⟨rfl, rfl, fun _ => rfl⟩
  rcases same with ⟨uses, buffers, sessions⟩
  refine ⟨fun use member => ?_, fun y changed => ?_, fun block changed => ?_⟩
  · exact used.logged use (uses ▸ member)
  · exact used.sessions y (sessions y ▸ changed)
  · exact used.buffers block (buffers ▸ changed)

end UsesOpen

namespace CurrentKept

variable {d : Daemon}

theorem reaches (kept : CurrentKept d) {k : Nat} {c : Conn} {r : Request} (grant : Nat -> Grant)
    (outcome : Realloc) (connected : d.conns k = some c) (through : cached c r)
    (kind : r.op = opUseRun ∨ r.op = opUseSet) :
    UsesOpen d.store (daemonStep d (.request k r grant outcome)).store := by
  simp only [daemonStep, connected, serveRequest]
  split
  · exact .refl d.store
  · split
    · exact .refl d.store
    · rcases kind with running | setting
      · simp only [dispatch_useRun _ _ _ _ _ running, hUseRun, if_pos through]
        cases current : c.cur with
        | none => exact .refl d.store
        | some x =>
            have isOpen := kept.opened k c x connected through.1 current
            have used := UsesOpen.run isOpen r.arg (List.replicate 256 0)
            rcases finishRun_store c r (runSession d.store x r.arg (List.replicate 256 0)) with
              same | same <;> simp only [same]
            · exact used
            · exact used.deferFlagged r
      · simp only [dispatch_useSet _ _ _ _ _ setting, hUseSet, if_pos through]
        cases current : c.cur with
        | none => exact .refl d.store
        | some x =>
            have isOpen := kept.opened k c x connected through.1 current
            exact (UsesOpen.set isOpen r.arg).deferFlagged r

theorem currentHeld (kept : CurrentKept d) : CurrentHeld d where
  held := fun k c x connected pipe current =>
    kept.sound.open_known_slot (kept.opened k c x connected pipe current)
  reaches := fun _ _ _ grant outcome connected through kind =>
    kept.reaches grant outcome connected through kind

/-- One connection is replaced, and what the others remember stays open. -/
theorem replace {k : Nat} {conn : Option Conn} {store : Store} (sound : Sound store)
    (remembers : forall c x, conn = some c -> c.isTcp = false -> c.cur = some x -> store.Open x)
    (stays : forall other c x, d.conns other = some c -> c.isTcp = false -> c.cur = some x ->
      store.Open x) :
    CurrentKept { d with store := store, conns := Function.update d.conns k conn } := by
  refine ⟨sound, fun other c x now pipe current => ?_⟩
  dsimp only at now
  by_cases same : other = k
  · subst same
    rw [Function.update_self] at now
    exact remembers c x now pipe current
  · rw [Function.update_of_ne same] at now
    exact stays other c x now pipe current

theorem connect (kept : CurrentKept d) (k : Nat) (isTcp : Bool) :
    CurrentKept (daemonStep d (.connect k isTcp)) := by
  cases present : d.conns k with
  | some c =>
      simp only [daemonStep, present]
      exact kept
  | none =>
      simp only [daemonStep, present]
      apply replace kept.sound _ kept.opened
      intro c x new pipe current
      cases new
      cases current

theorem disconnect (kept : CurrentKept d) (k : Nat) :
    CurrentKept { d with conns := Function.update d.conns k none } := by
  apply replace kept.sound _ kept.opened
  intro c x gone
  cases gone

/-- A request whose remembered sessions stay open keeps the discipline for its
own connection and for the others. -/
theorem served {k : Nat} {c c' : Conn} {store : Store}
    (connected : d.conns k = some c) (sound : Sound store) (kind : c'.isTcp = c.isTcp)
    (remembers : forall x, c'.cur = some x -> c.cur = some x ∨ store.Open x)
    (stays : forall other conn x, d.conns other = some conn -> conn.isTcp = false ->
      conn.cur = some x -> store.Open x) :
    CurrentKept { d with store := store, conns := Function.update d.conns k (some c') } := by
  apply replace sound _ stays
  intro conn x now pipe current
  cases now
  rcases remembers x current with before | isOpen
  · exact stays k c x connected (kind.symm.trans pipe) before
  · exact isOpen

theorem request (kept : CurrentKept d) {k : Nat} {r : Request} {grant : Nat -> Grant}
    {outcome : Realloc} (condition : ClosesNoCurrent d (.request k r grant outcome)) :
    CurrentKept (daemonStep d (.request k r grant outcome)) := by
  cases connected : d.conns k with
  | none =>
      simp only [daemonStep, connected]
      exact kept
  | some c =>
      simp only [daemonStep, connected, serveRequest]
      split
      · exact kept.disconnect k
      · rename_i short
        split
        · exact kept
        · have conn := dispatch_conn d.plugins d.store c r grant outcome
          by_cases closing : r.op = opClose
          · have closed : (dispatch d.plugins d.store c r grant outcome).1 =
                (sessClose d.store r.id).1 := by
              rw [dispatch_close _ _ _ _ _ closing, hClose]
            have after := kept.sound.step (.close r.id)
            apply served connected (closed ▸ after) conn.1 conn.2
            intro other remembering x present pipe current
            have isOpen := kept.opened other remembering x present pipe current
            rw [closed]
            cases found : d.store.slotAt r.id with
            | none => simpa only [sessClose, found] using isOpen
            | some y =>
                have different := condition (by simp [connected]) closing (Nat.le_of_not_lt short) y
                  other remembering found present pipe
                simp only [sessClose, found]
                refine (kept.sound.closeHeld_open (Store.slotAt_some found).2.2 x).mpr ⟨isOpen, ?_⟩
                exact fun same => different (same ▸ current)
          · have advanced := Advances.dispatch d.plugins d.store c grant outcome closing
            apply served connected (advanced.sound kept.sound) conn.1 conn.2
            exact fun other remembering x present pipe current =>
              advanced.opened kept.sound x (kept.opened other remembering x present pipe current)

end CurrentKept

/-- The connection still remembers the session that was closed, because a
close updates no connection. -/
theorem not_currentHeld_of_close {d : Daemon} (kept : CurrentKept d) {event : Event}
    (missed : ¬ ClosesNoCurrent d event) : ¬ CurrentHeld (daemonStep d event) := by
  cases event with
  | request k r grant outcome =>
      simp only [ClosesNoCurrent, not_forall, not_not] at missed
      rcases missed with ⟨present, closing, short, x, other, c, found, remembering, pipe, current⟩
      rcases Option.ne_none_iff_exists'.mp present with ⟨closer, connected⟩
      have slot := (Store.slotAt_some found).2.2
      have accepted : ¬ r.op > opFlush := by rw [closing]; decide
      have served : dispatch d.plugins d.store closer r grant outcome =
          (closeHeld d.store r.id.toNat x, closer, ascii "OK\n") := by
        rw [dispatch_close _ _ _ _ _ closing, hClose]
        simp only [sessClose, found]
      have unchanged : Function.update d.conns k (some closer) = d.conns := by
        rw [← connected, Function.update_eq_self]
      have after : daemonStep d (.request k r grant outcome) =
          { d with store := closeHeld d.store r.id.toNat x } := by
        simp only [daemonStep, connected, serveRequest, if_neg (Nat.not_lt.mpr short),
          if_neg accepted, served, unchanged]
      intro held
      rw [after] at held
      have stillOpen := Store.slotAt_open (held.held other c x remembering pipe current)
      exact ((kept.sound.closeHeld_open slot x).mp stillOpen).2 rfl
  | connect _ _ => exact absurd trivial missed
  | disconnect _ => exact absurd trivial missed

/-! ## Exactly the runs whose current sessions are held -/

theorem current_guard :
    ExactGuard daemonStep (fun _ => True) CurrentKept CurrentHeld ClosesNoCurrent where
  safe := fun _ kept => kept.currentHeld
  keeps := fun _ event kept _ condition => by
    cases event with
    | connect k isTcp => exact kept.connect k isTcp
    | request k r grant outcome => exact kept.request condition
    | disconnect k => exact kept.disconnect k
  breaks := fun _ _ kept _ missed => not_currentHeld_of_close kept missed

/-- Whatever the libraries found at start, and whatever the connections do,
every pipe connection remembers an open session exactly in the runs that never
close a session which some pipe connection remembers. -/
theorem currentHeld_iff_closesNoCurrent (found : Handler -> Bool) (events : List Event) :
    Throughout daemonStep CurrentHeld (sessiondNew found) events ↔
      Guarded daemonStep ClosesNoCurrent (sessiondNew found) events :=
  current_guard.throughout_iff ⟨sound_sessNew, fun _ _ _ impossible => by cases impossible⟩
    fun _ _ => trivial

def helloRequest (op : UInt8) (handle : UInt16) : Request :=
  ⟨op, 0, handle, hello⟩

def closedByAnother : List Event :=
  [.connect 0 false, .connect 1 true, .request 0 (helloRequest opOpen 0) generous .fails,
    .request 1 (helloRequest opClose 0) generous .fails]

theorem closedByAnother_current_closed :
    ¬ Throughout daemonStep CurrentHeld (sessiondNew fun _ => true) closedByAnother := by
  intro every
  have current : ((run daemonStep (sessiondNew fun _ => true) closedByAnother).conns 0).map
      (fun c => (c.isTcp, c.cur)) = some (false, some 0) := by decide +kernel
  have cleared : (run daemonStep (sessiondNew fun _ => true) closedByAnother).store.slotAt
      ((run daemonStep (sessiondNew fun _ => true) closedByAnother).store.session 0).id = none := by
    decide +kernel
  rcases Option.map_eq_some_iff.mp current with ⟨c, connected, fields⟩
  rw [Prod.mk.injEq] at fields
  have held := (throughout_end every).held 0 c 0 connected fields.1 fields.2
  rw [cleared] at held
  cases held

end Revenant
end BugMuseum
