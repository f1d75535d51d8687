import BugMuseum.Revenant.Requests

namespace BugMuseum
namespace Revenant

open Foundation

/-!
# Stores that a caller cannot tell apart

The log of stale accesses to sessions is not part of the program, and it is the
one thing that the optional part of the status line leaves behind.  Two stores
are in the same state when they agree in everything else: the table, the
sessions, the buffers, the recent session, the batch, and what was done with
which session.

No operation reads the log, so operations take stores in the same state to
stores in the same state.
-/

structure SameState (s s' : Store) : Prop where
  slots : s'.slots = s.slots
  count : s'.count = s.count
  gRecent : s'.gRecent = s.gRecent
  batch : s'.batch = s.batch
  sessions : s'.sessions.cell = s.sessions.cell
  next : s'.sessions.next = s.sessions.next
  releases : s'.sessions.releases = s.sessions.releases
  buffers : s'.buffers = s.buffers
  uses : s'.uses = s.uses

namespace SameState

variable {s s' : Store}

theorem refl (s : Store) : SameState s s :=
  ⟨rfl, rfl, rfl, rfl, rfl, rfl, rfl, rfl, rfl⟩

theorem trans {s'' : Store} (left : SameState s s') (right : SameState s' s'') : SameState s s'' :=
  ⟨right.slots.trans left.slots, right.count.trans left.count, right.gRecent.trans left.gRecent,
    right.batch.trans left.batch, right.sessions.trans left.sessions, right.next.trans left.next,
    right.releases.trans left.releases, right.buffers.trans left.buffers, right.uses.trans left.uses⟩

theorem symm (same : SameState s s') : SameState s' s :=
  ⟨same.slots.symm, same.count.symm, same.gRecent.symm, same.batch.symm, same.sessions.symm,
    same.next.symm, same.releases.symm, same.buffers.symm, same.uses.symm⟩

/-- The second store is the first one with another log. -/
theorem eq_relogged (same : SameState s s') :
    s' = { s with sessions := { s.sessions with faults := s'.sessions.faults } } := by
  rcases s with ⟨⟨next, cell, releases, faults⟩, buffers, slots, count, gRecent, batch, uses⟩
  rcases s' with ⟨⟨next', cell', releases', faults'⟩, buffers', slots', count', gRecent', batch', uses'⟩
  rcases same with ⟨rfl, rfl, rfl, rfl, rfl, rfl, rfl, rfl, rfl⟩
  rfl

theorem relogged (s : Store) (faults : List Fault) :
    SameState s { s with sessions := { s.sessions with faults := faults } } :=
  ⟨rfl, rfl, rfl, rfl, rfl, rfl, rfl, rfl, rfl⟩

theorem session (same : SameState s s') (x : Block) : s'.session x = s.session x :=
  congrFun same.sessions x

theorem slotAt (same : SameState s s') (id : Int) : s'.slotAt id = s.slotAt id := by
  rw [Store.slotAt, Store.slotAt, same.slots]

theorem lookup (same : SameState s s') (id : Int) : s'.lookup id = s.lookup id := by
  rw [Store.lookup, Store.lookup, same.slotAt, same.gRecent]

theorem touchSession (s : Store) (x : Block) : SameState s (s.touchSession x) where
  slots := rfl
  count := rfl
  gRecent := rfl
  batch := rfl
  sessions := Heap.touch_cell ..
  next := Heap.touch_next ..
  releases := Heap.touch_releases ..
  buffers := rfl
  uses := rfl

theorem modifySession (same : SameState s s') (x : Block) (change : Session -> Session) :
    SameState (s.modifySession x change) (s'.modifySession x change) where
  slots := same.slots
  count := same.count
  gRecent := same.gRecent
  batch := same.batch
  sessions := by
    ext y
    by_cases changed : y = x
    · subst changed
      exact ((Heap.modify_cell_self ..).trans (congrArg change (same.session y))).trans
        (Heap.modify_cell_self ..).symm
    · exact ((Heap.modify_cell_of_ne _ _ changed).trans (same.session y)).trans
        (Heap.modify_cell_of_ne _ _ changed).symm
  next := ((Heap.modify_next ..).trans same.next).trans (Heap.modify_next ..).symm
  releases := ((Heap.modify_releases ..).trans same.releases).trans (Heap.modify_releases ..).symm
  buffers := same.buffers
  uses := same.uses

theorem touched (same : SameState s s') (x : Block) : SameState (s.touchSession x) (s'.touchSession x) :=
  ((touchSession s x).symm.trans same).trans (touchSession s' x)

theorem setRecent (same : SameState s s') (x : Block) :
    SameState { s with gRecent := some x } { s' with gRecent := some x } :=
  ⟨same.slots, same.count, rfl, same.batch, same.sessions, same.next, same.releases, same.buffers,
    same.uses⟩

theorem setBuffers (same : SameState s s') (buffers : Heap Bytes) :
    SameState { s with buffers := buffers } { s' with buffers := buffers } :=
  ⟨same.slots, same.count, same.gRecent, same.batch, same.sessions, same.next, same.releases, rfl,
    same.uses⟩

/-- A write through a pointer, with its entry in the log of uses. -/
theorem written (same : SameState s s') (pointer : Option Block) (offset : Nat) (bytes : Bytes) (use : Use) :
    SameState { s with buffers := s.buffers.writeAt pointer offset bytes, uses := s.uses ++ [use] }
      { s' with buffers := s'.buffers.writeAt pointer offset bytes, uses := s'.uses ++ [use] } :=
  ⟨same.slots, same.count, same.gRecent, same.batch, same.sessions, same.next, same.releases,
    by rw [same.buffers], by rw [same.uses]⟩

/-- A session is entered in a slot and becomes the recent one. -/
theorem entered (same : SameState s s') (id : Nat) (x : Block) :
    SameState
      { s with slots := Function.update s.slots id (some x), count := s.count + 1, gRecent := some x }
      { s' with slots := Function.update s'.slots id (some x), count := s'.count + 1, gRecent := some x } where
  slots := congrArg (Function.update · id (some x)) same.slots
  count := congrArg (· + 1) same.count
  gRecent := rfl
  batch := same.batch
  sessions := same.sessions
  next := same.next
  releases := same.releases
  buffers := same.buffers
  uses := same.uses

/-! ## Calls -/

theorem runSession (same : SameState s s') (x : Block) (arg : Payload) (out out' : Bytes) :
    SameState (runSession s x arg out).1 (runSession s' x arg out').1 := by
  have touched := same.touched x
  exact ⟨touched.slots, touched.count, touched.gRecent, touched.batch, touched.sessions, touched.next,
    touched.releases, touched.buffers, congrArg (· ++ [Use.run x]) same.uses⟩

theorem setSession (same : SameState s s') (x : Block) (arg : Payload) :
    SameState (setSession s x arg) (setSession s' x arg) := by
  rw [Revenant.setSession, Revenant.setSession, same.session x]
  exact (same.written _ 0 _ _).modifySession x _

theorem copyBehind (same : SameState s s') (x : Block) (old : Option Block) (arg : Payload) (need : Nat) :
    SameState (copyBehind s x old arg need) (copyBehind s' x old arg need) := by
  rw [Revenant.copyBehind, Revenant.copyBehind, same.session x]
  exact (same.written old _ _ _).modifySession x _

theorem appendSession (same : SameState s s') (x : Block) (arg : Payload) (outcome : Realloc) :
    SameState (appendSession s x arg outcome).1 (appendSession s' x arg outcome).1 := by
  have touched := same.touched x
  rw [Revenant.appendSession, Revenant.appendSession]
  simp only [Store.touchSession_session, same.session x, touched.buffers]
  split
  · split
    · exact touched.setBuffers _
    · exact ((touched.setBuffers _).modifySession x _).copyBehind x _ arg _
  · exact touched.copyBehind x _ arg _

theorem act (same : SameState s s') (x : Block) (op : Op) : SameState (op.act s x) (op.act s' x) := by
  cases op with
  | useRun id arg out => exact same.runSession x arg out out
  | useSet id arg => exact same.setSession x arg
  | useAppend id arg outcome => exact same.appendSession x arg outcome
  | defer id =>
      have touched := same.touched x
      rw [Op.act, Op.act, same.batch]
      split
      · exact same
      · refine ⟨touched.slots, touched.count, touched.gRecent, ?_, touched.sessions, touched.next,
          touched.releases, touched.buffers, touched.uses⟩
        have entry : ((s'.touchSession x).session x) = (s.touchSession x).session x := touched.session x
        show s'.batch ++ [_] = s.batch ++ [_]
        rw [same.batch, entry]
  | _ => exact same

theorem handled (same : SameState s s') {op : Op} {id : Int} (handled : op.handle = some id) :
    SameState (Revenant.step s op) (Revenant.step s' op) := by
  have looked := same.lookup id
  cases found : s.lookup id with
  | none =>
      rw [step_absent handled found, step_absent handled (looked.trans found)]
      exact same
  | some x =>
      rw [step_found handled found, step_found handled (looked.trans found)]
      exact (same.setRecent x).act x op

theorem sessOpen (same : SameState s s') (type : Int) (handler : Option Handler) (init : Payload)
    (grant : Nat -> Grant) :
    SameState (sessOpen s type handler init grant).1 (sessOpen s' type handler init grant).1 := by
  rw [same.eq_relogged]
  cases handler with
  | none => exact .relogged s _
  | some handler =>
      unfold Revenant.sessOpen
      cases firstFree sessMax s.slots with
      | none => exact .relogged s _
      | some id =>
          cases grant 0 with
          | none => exact .relogged s _
          | some _ =>
              cases grant 1 with
              | none => exact .relogged _ s'.sessions.faults
              | some residue =>
                  exact ((SameState.relogged _ s'.sessions.faults).modifySession s.sessions.next _).entered id _

theorem closeHeld (same : SameState s s') (id : Nat) (x : Block) :
    SameState (closeHeld s id x) (closeHeld s' id x) := by
  have touched := same.touched x
  have released : ((s'.touchSession x).sessions.release x).releases =
      ((s.touchSession x).sessions.release x).releases := by
    rw [Heap.release, Heap.release, touched.releases]
  have vacated : Function.update s'.slots id none = Function.update s.slots id none := by rw [same.slots]
  have counted : s'.count - 1 = s.count - 1 := by rw [same.count]
  have freed : s'.buffers.releaseAt ((s'.touchSession x).session x).data =
      s.buffers.releaseAt ((s.touchSession x).session x).data := by
    rw [same.buffers, touched.session x]
  exact ⟨vacated, counted, touched.gRecent, touched.batch, touched.sessions, touched.next, released, freed,
    touched.uses⟩

/-- The status leaves no trace but in the log. -/
theorem sessStat (s : Store) (verbose : Bool) (out : Bytes) : SameState s (sessStat s verbose out).1 := by
  rcases sessStat_frame s verbose out with kept | ⟨x, _, touched⟩
  · rw [kept]
    exact .refl s
  · rw [touched]
    exact .touchSession s x

theorem step (same : SameState s s') (op : Op) : SameState (step s op) (step s' op) := by
  cases op with
  | opening type handler init grant => exact same.sessOpen type handler init grant
  | get id => exact same.handled rfl
  | useRun id arg out => exact same.handled rfl
  | useSet id arg => exact same.handled rfl
  | useAppend id arg outcome => exact same.handled rfl
  | defer id => exact same.handled rfl
  | close id =>
      rw [Revenant.step, Revenant.step, sessClose, sessClose, same.slotAt]
      cases s.slotAt id with
      | none => exact same
      | some x => exact same.closeHeld id.toNat x
  | stat verbose out => exact ((sessStat s verbose out).symm.trans same).trans (sessStat s' verbose out)
  | flush arg =>
      refine ⟨same.slots, same.count, same.gRecent, rfl, same.sessions, same.next, same.releases, ?_,
        same.uses⟩
      rw [Revenant.step, Revenant.step, sessFlush, sessFlush, same.batch, same.buffers]

theorem deferFlagged (same : SameState s s') (r : Request) :
    SameState (deferFlagged s r) (deferFlagged s' r) := by
  rw [Revenant.deferFlagged, Revenant.deferFlagged]
  split
  · exact same.step (.defer r.id)
  · exact same

end SameState

end Revenant
end BugMuseum
