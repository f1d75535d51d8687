import BugMuseum.Revenant.SessCore

namespace BugMuseum
namespace Revenant

open Foundation

/-!
# What the uses of a session change

A lookup changes `g_recent` only.  Running a handler, setting the contents and
reading the status leave the shape of the store alone: the table, the batch,
and which session has which buffer of which size.  An append either does the
same, or gives its session a larger buffer; `Regrown` says which.
-/

theorem sessGet_absent {s : Store} {id : Int} (absent : s.lookup id = none) :
    sessGet s id = (s, none) := by
  unfold Store.lookup at absent
  unfold sessGet
  split at absent
  · rw [if_pos ‹_›, absent]
  · rw [if_neg ‹_›, absent]

/-- A lookup that finds a session makes it the recent one, and changes nothing
else. -/
theorem sessGet_found {s : Store} {id : Int} {x : Block} (found : s.lookup id = some x) :
    sessGet s id = ({ s with gRecent := some x }, some x) := by
  unfold Store.lookup at found
  unfold sessGet
  split at found
  · rw [if_pos ‹_›, ← found]
  · rw [if_neg ‹_›, found]

/-- The handle that a call looks up, which may be the reserved one. -/
def Op.handle : Op -> Option Int
  | .get id => some id
  | .useRun id _ _ => some id
  | .useSet id _ => some id
  | .useAppend id _ _ => some id
  | .defer id => some id
  | .opening _ _ _ _ => none
  | .close _ => none
  | .stat _ _ => none
  | .flush _ => none

/-- What such a call does with the session it has found, so that the lookup is
treated once for all of them. -/
def Op.act (s : Store) (x : Block) : Op -> Store
  | .useRun _ arg out => (runSession s x arg out).1
  | .useSet _ arg => setSession s x arg
  | .useAppend _ arg outcome => (appendSession s x arg outcome).1
  | .defer _ =>
      if s.batch.length ≥ deferMax then s
      else
        let s := s.touchSession x
        { s with batch := s.batch ++ [((s.session x).data, (s.session x).len)] }
  | _ => s

theorem step_absent {s : Store} {op : Op} {id : Int} (handled : op.handle = some id)
    (absent : s.lookup id = none) : step s op = s := by
  cases op <;> cases handled <;>
    simp only [step, sessUseRun, sessUseSet, sessUseAppend, sessDefer, sessGet_absent absent]

theorem step_found {s : Store} {op : Op} {id : Int} {x : Block} (handled : op.handle = some id)
    (found : s.lookup id = some x) : step s op = op.act { s with gRecent := some x } x := by
  cases op <;> cases handled <;>
    simp only [step, sessUseRun, sessUseSet, sessUseAppend, sessDefer, sessGet_found found, Op.act]

/-- The table and the two globals are the same, and so are the counters of the
sessions.  What a use may change is the text of a session, and its buffer. -/
structure TableFrame (s s' : Store) : Prop where
  slots : s'.slots = s.slots
  count : s'.count = s.count
  gRecent : s'.gRecent = s.gRecent
  batch : s'.batch = s.batch
  next : s'.sessions.next = s.sessions.next
  releases : s'.sessions.releases = s.sessions.releases
  ids : forall x, (s'.session x).id = (s.session x).id

namespace TableFrame

variable {first second third s s' : Store}

theorem refl (s : Store) : TableFrame s s :=
  ⟨rfl, rfl, rfl, rfl, rfl, rfl, fun _ => rfl⟩

theorem trans (left : TableFrame first second) (right : TableFrame second third) :
    TableFrame first third where
  slots := right.slots.trans left.slots
  count := right.count.trans left.count
  gRecent := right.gRecent.trans left.gRecent
  batch := right.batch.trans left.batch
  next := right.next.trans left.next
  releases := right.releases.trans left.releases
  ids := fun x => (right.ids x).trans (left.ids x)

theorem touchSession (s : Store) (x : Block) : TableFrame s (s.touchSession x) :=
  ⟨rfl, rfl, rfl, rfl, Heap.touch_next .., Heap.touch_releases ..,
    fun _ => congrArg Session.id (s.touchSession_session ..)⟩

theorem modifySession (s : Store) (x : Block) (change : Session -> Session)
    (keepsId : forall session, (change session).id = session.id) :
    TableFrame s (s.modifySession x change) where
  slots := rfl
  count := rfl
  gRecent := rfl
  batch := rfl
  next := Heap.modify_next ..
  releases := Heap.modify_releases ..
  ids := Store.modifySession_field Session.id (keepsId _)

theorem buffers (frame : TableFrame s s') (buffers : Heap Bytes) (uses : List Use) :
    TableFrame s { s' with buffers := buffers, uses := uses } :=
  ⟨frame.slots, frame.count, frame.gRecent, frame.batch, frame.next, frame.releases, frame.ids⟩

theorem open_iff (frame : TableFrame s s') (x : Block) : s'.Open x ↔ s.Open x := by
  simp only [Store.Open, frame.slots]

theorem live_iff (frame : TableFrame s s') (x : Block) :
    s'.sessions.Live x ↔ s.sessions.Live x := by
  simp only [Heap.Live, frame.next, frame.releases]

end TableFrame

/-- Moreover, every session has the same buffer, of the same size.  Texts and
lengths may change within it. -/
structure ShapeFrame (s s' : Store) : Prop extends TableFrame s s' where
  data : forall x, (s'.session x).data = (s.session x).data
  cap : forall x, (s'.session x).cap = (s.session x).cap
  within : forall x, (s'.session x).len = (s.session x).len ∨ (s'.session x).len ≤ (s.session x).cap
  nextBuffer : s'.buffers.next = s.buffers.next
  releasedBuffers : s'.buffers.releases = s.buffers.releases
  sizes : forall block, (s'.buffers.cell block).length = (s.buffers.cell block).length

namespace ShapeFrame

variable {s s' : Store}

theorem refl (s : Store) : ShapeFrame s s where
  toTableFrame := .refl s
  data := fun _ => rfl
  cap := fun _ => rfl
  within := fun _ => Or.inl rfl
  nextBuffer := rfl
  releasedBuffers := rfl
  sizes := fun _ => rfl

/-- Writing into the buffers and logging it leaves the shape of the store
alone. -/
theorem buffers (frame : ShapeFrame s s') {buffers : Heap Bytes} (uses : List Use)
    (next : buffers.next = s'.buffers.next) (releases : buffers.releases = s'.buffers.releases)
    (sizes : forall block, (buffers.cell block).length = (s'.buffers.cell block).length) :
    ShapeFrame s { s' with buffers := buffers, uses := uses } where
  toTableFrame := frame.toTableFrame.buffers buffers uses
  data := frame.data
  cap := frame.cap
  within := frame.within
  nextBuffer := next.trans frame.nextBuffer
  releasedBuffers := releases.trans frame.releasedBuffers
  sizes := fun block => (sizes block).trans (frame.sizes block)

theorem touchSession (s : Store) (x : Block) : ShapeFrame s (s.touchSession x) where
  toTableFrame := .touchSession s x
  data := fun _ => congrArg Session.data (s.touchSession_session ..)
  cap := fun _ => congrArg Session.cap (s.touchSession_session ..)
  within := fun _ => Or.inl (congrArg Session.len (s.touchSession_session ..))
  nextBuffer := rfl
  releasedBuffers := rfl
  sizes := fun _ => rfl

theorem setLen (frame : ShapeFrame s s') (x : Block) {len : Nat} (fits : len ≤ (s.session x).cap) :
    ShapeFrame s (s'.modifySession x fun session => { session with len }) where
  toTableFrame := frame.toTableFrame.trans (.modifySession s' x _ fun _ => rfl)
  data := fun y => (Store.modifySession_field Session.data rfl y).trans (frame.data y)
  cap := fun y => (Store.modifySession_field Session.cap rfl y).trans (frame.cap y)
  within := fun y => by
    by_cases same : y = x
    · subst same
      rw [Store.modifySession_session_self]
      exact Or.inr fits
    · rw [Store.modifySession_session_of_ne _ _ same]
      exact frame.within y
  nextBuffer := frame.nextBuffer
  releasedBuffers := frame.releasedBuffers
  sizes := frame.sizes

/-- A copy into a buffer, a log entry and a new length that fits. -/
theorem write (frame : ShapeFrame s s') (pointer : Option Block) (offset : Nat) (bytes : Bytes)
    (uses : List Use) (x : Block) {len : Nat} (fits : len ≤ (s.session x).cap) :
    ShapeFrame s
      (Store.modifySession
        { s' with buffers := s'.buffers.writeAt pointer offset bytes, uses := uses } x
        fun session => { session with len := len }) := by
  apply ShapeFrame.setLen _ x fits
  apply frame.buffers
  · exact Heap.writeAt_next ..
  · exact Heap.writeAt_releases ..
  · exact Heap.writeAt_cell_length _ _ _ _

end ShapeFrame

theorem runSession_frame (s : Store) (x : Block) (arg : Payload) (out : Bytes) :
    ShapeFrame s (runSession s x arg out).1 :=
  (ShapeFrame.touchSession s x).buffers _ rfl rfl fun _ => rfl

theorem setSession_frame (s : Store) (x : Block) (arg : Payload) :
    ShapeFrame s (setSession s x arg) := by
  apply (ShapeFrame.refl s).write _ _ _ _ x
  split <;> omega

theorem sessStat_frame (s : Store) (verbose : Bool) (out : Bytes) :
    (sessStat s verbose out).1 = s ∨
      exists x, s.gRecent = some x ∧ (sessStat s verbose out).1 = s.touchSession x := by
  unfold sessStat
  dsimp only
  cases named : s.gRecent with
  | none => exact Or.inl rfl
  | some x =>
      dsimp only
      split
      · exact Or.inr ⟨x, rfl, rfl⟩
      · exact Or.inl rfl

/-! ## Append -/

theorem ShapeFrame.copyBehind {s s' : Store} (frame : ShapeFrame s s') (x : Block)
    (old : Option Block) (arg : Payload) {need : Nat} (fits : need ≤ (s.session x).cap) :
    ShapeFrame s (copyBehind s' x old arg need) :=
  frame.write old _ arg.bytes _ x fits

/-- The session `x` now has the buffer `block` of `need` bytes, and nothing
else about the sessions has changed. -/
structure Regrown (s s' : Store) (x block : Block) (need : Nat) : Prop extends TableFrame s s' where
  data : (s'.session x).data = some block
  cap : (s'.session x).cap = need
  within : (s'.session x).len = (s.session x).len ∨ (s'.session x).len ≤ need
  others : forall y, y ≠ x -> s'.session y = s.session y
  larger : (s.session x).cap < need
  size : (s'.buffers.cell block).length = need
  sizes : forall other, other ≠ block ->
    (s'.buffers.cell other).length = (s.buffers.cell other).length

theorem Regrown.adoptBuffer {s s' : Store} {x block : Block} {need : Nat} (frame : ShapeFrame s s')
    (same : forall y, s'.session y = s.session y) (larger : (s.session x).cap < need)
    {buffers : Heap Bytes} (size : (buffers.cell block).length = need)
    (sizes : forall other, other ≠ block ->
      (buffers.cell other).length = (s.buffers.cell other).length) :
    Regrown s (adoptBuffer { s' with buffers := buffers } x block need) x block need where
  toTableFrame := (frame.toTableFrame.buffers buffers s'.uses).trans (.modifySession _ x _ fun _ => rfl)
  data := congrArg Session.data (Store.modifySession_session_self ..)
  cap := congrArg Session.cap (Store.modifySession_session_self ..)
  within := by
    have length := congrArg Session.len (same x)
    rw [Revenant.adoptBuffer, Store.modifySession_session_self]
    exact Or.inl length
  others := fun y different => (Store.modifySession_session_of_ne _ _ different).trans (same y)
  larger := larger
  size := size
  sizes := sizes

theorem Regrown.copyBehind {s s' : Store} {x block : Block} {need : Nat}
    (regrown : Regrown s s' x block need) (old : Option Block) (arg : Payload) :
    Regrown s (copyBehind s' x old arg need) x block need where
  toTableFrame := (regrown.toTableFrame.buffers _ _).trans (.modifySession _ x _ fun _ => rfl)
  data := (congrArg Session.data (Store.modifySession_session_self ..)).trans regrown.data
  cap := (congrArg Session.cap (Store.modifySession_session_self ..)).trans regrown.cap
  within := Or.inr (Nat.le_of_eq (congrArg Session.len (Store.modifySession_session_self ..)))
  others := fun y different =>
    (Store.modifySession_session_of_ne _ _ different).trans (regrown.others y different)
  larger := regrown.larger
  size := (Heap.writeAt_cell_length ..).trans regrown.size
  sizes := fun other different =>
    (Heap.writeAt_cell_length ..).trans (regrown.sizes other different)

/-- The append outgrows its buffer and the allocator moves it.  The need is
formed in 32 bits. -/
def Relocates (s : Store) (x : Block) (arg : Payload) (outcome : Realloc) : Prop :=
  (s.session x).cap < ((s.session x).len + arg.bytes.length) % 2 ^ 32 ∧ outcome.relocates

instance (s : Store) (x : Block) (arg : Payload) (outcome : Realloc) :
    Decidable (Relocates s x arg outcome) :=
  inferInstanceAs (Decidable (_ ∧ _))

section Append

variable {s : Store} {x old : Block} {arg : Payload} {outcome : Realloc}
  (buffer : (s.session x).data = some old)

include buffer

/-- Unless its buffer moves, the session keeps it, and nothing is released. -/
theorem appendSession_stays (stays : ¬ Relocates s x arg outcome) :
    ShapeFrame s (appendSession s x arg outcome).1 ∨
      exists need, Regrown s (appendSession s x arg outcome).1 x old need ∧
        (appendSession s x arg outcome).1.buffers.next = s.buffers.next ∧
        (appendSession s x arg outcome).1.buffers.releases = s.buffers.releases := by
  have touched := ShapeFrame.touchSession s x
  rcases (⟨_, rfl⟩ : exists need, need = ((s.session x).len + arg.bytes.length) % 2 ^ 32) with
    ⟨need, needEq⟩
  rw [Relocates, ← needEq] at stays
  unfold appendSession
  simp only [Store.touchSession_session, buffer, ← needEq]
  by_cases grows : need > (s.session x).cap
  · rw [if_pos grows]
    cases outcome with
    | fails => exact Or.inl touched
    | inPlace residue =>
        refine Or.inr ⟨need, (Regrown.adoptBuffer touched (s.touchSession_session x) grows ?_ ?_).copyBehind
          (some old) arg, ?_, ?_⟩
        · rw [Heap.modify_cell_self]
          exact resize_length ..
        · intro other different
          rw [Heap.modify_cell_of_ne _ _ different]
          rfl
        · exact (Heap.writeAt_next ..).trans (Heap.modify_next ..)
        · exact (Heap.writeAt_releases ..).trans (Heap.modify_releases ..)
    | moves residue => exact absurd ⟨grows, rfl⟩ stays
  · rw [if_neg grows]
    exact Or.inl (touched.copyBehind x (some old) arg (Nat.le_of_not_lt grows))

/-- A buffer that moves is released, and the session has a fresh one. -/
theorem appendSession_relocates (moves : Relocates s x arg outcome) :
    exists need, Regrown s (appendSession s x arg outcome).1 x s.buffers.next need ∧
      (appendSession s x arg outcome).1.buffers.next = s.buffers.next + 1 ∧
      (appendSession s x arg outcome).1.buffers.releases = (s.buffers.release old).releases := by
  have touched := ShapeFrame.touchSession s x
  rcases (⟨_, rfl⟩ : exists need, need = ((s.session x).len + arg.bytes.length) % 2 ^ 32) with
    ⟨need, needEq⟩
  rw [Relocates, ← needEq] at moves
  cases outcome with
  | fails => cases moves.2
  | inPlace residue => cases moves.2
  | moves residue =>
      unfold appendSession
      simp only [Store.touchSession_session, buffer, ← needEq]
      rw [if_pos moves.1]
      have fresh := Heap.alloc_cell_next (s.buffers.touch old)
        (resize (s.buffers.cell old) need residue)
      rw [Heap.touch_next] at fresh
      refine ⟨need, (Regrown.adoptBuffer touched (s.touchSession_session x) moves.1 ?_ ?_).copyBehind
        (some old) arg, ?_, ?_⟩
      · exact (congrArg List.length fresh).trans (resize_length ..)
      · intro other different
        apply congrArg List.length
        have older : other ≠ (s.buffers.touch old).next := (Heap.touch_next ..).symm ▸ different
        exact (Heap.alloc_cell_of_ne _ _ older).trans (congrFun (Heap.touch_cell ..) other)
      · apply (Heap.writeAt_next ..).trans
        exact congrArg (· + 1) (Heap.touch_next s.buffers old)
      · apply (Heap.writeAt_releases ..).trans
        exact Heap.releaseAt_releases_congr (Heap.touch_releases s.buffers old) (some old)

/-- In every case the table and the two globals are left alone. -/
theorem appendSession_frame : TableFrame s (appendSession s x arg outcome).1 := by
  by_cases moves : Relocates s x arg outcome
  · rcases appendSession_relocates buffer moves with ⟨_, regrown, _, _⟩
    exact regrown.toTableFrame
  · rcases appendSession_stays buffer moves with frame | ⟨_, regrown, _, _⟩
    · exact frame.toTableFrame
    · exact regrown.toTableFrame

end Append

section Lengths

variable {s : Store} {x : Block} {arg : Payload} {outcome : Realloc}

theorem copyBehind_session (t : Store) (old : Option Block) (need : Nat) :
    (copyBehind t x old arg need).session x = { t.session x with len := need } :=
  Store.modifySession_session_self ..

/-- The length that an append asks for, a 32-bit sum. -/
def appendNeed (s : Store) (x : Block) (arg : Payload) : Nat :=
  ((s.session x).len + arg.bytes.length) % 2 ^ 32

/-- An append that fits its buffer sets the length and nothing else of the
session. -/
theorem appendSession_fits (fits : appendNeed s x arg ≤ (s.session x).cap) :
    (appendSession s x arg outcome).2 = sessOk ∧
      (appendSession s x arg outcome).1.session x =
        { s.session x with len := appendNeed s x arg } := by
  rw [appendSession]
  simp only [Store.touchSession_session]
  rw [appendNeed] at fits
  rw [if_neg (Nat.not_lt.mpr fits)]
  exact ⟨rfl, (copyBehind_session ..).trans (by rw [Store.touchSession_session, appendNeed])⟩

/-- An append that outgrows its buffer sets the capacity as well, whatever the
limit says. -/
theorem appendSession_grows (grows : (s.session x).cap < appendNeed s x arg)
    (granted : outcome ≠ .fails) :
    (appendSession s x arg outcome).2 = sessOk ∧
      exists data, (appendSession s x arg outcome).1.session x =
        { s.session x with data := data, cap := appendNeed s x arg, len := appendNeed s x arg } := by
  have adopted : forall buffers grown old,
      (copyBehind (adoptBuffer { s.touchSession x with buffers := buffers } x grown (appendNeed s x arg))
        x old arg (appendNeed s x arg)).session x =
        { s.session x with data := some grown, cap := appendNeed s x arg, len := appendNeed s x arg } := by
    intro buffers grown old
    have same : Store.session { s.touchSession x with buffers := buffers } x = s.session x :=
      s.touchSession_session x x
    rw [copyBehind_session, adoptBuffer, Store.modifySession_session_self, same]
  rw [appendSession]
  simp only [Store.touchSession_session]
  rw [appendNeed] at grows
  rw [if_pos grows]
  cases outcome with
  | fails => exact absurd rfl granted
  | inPlace residue =>
      cases (s.session x).data with
      | none => exact ⟨rfl, _, adopted _ _ _⟩
      | some old => exact ⟨rfl, _, adopted _ _ _⟩
  | moves residue =>
      cases (s.session x).data with
      | none => exact ⟨rfl, _, adopted _ _ _⟩
      | some old => exact ⟨rfl, _, adopted _ _ _⟩

/-- Only the session at hand changes; the copy may go astray, but not to
another session. -/
theorem appendSession_others {y : Block} (different : y ≠ x) :
    (appendSession s x arg outcome).1.session y = s.session y := by
  have copied : forall (t : Store) old need, (copyBehind t x old arg need).session y = t.session y :=
    fun _ _ _ => Store.modifySession_session_of_ne _ _ different
  have adopted : forall (t : Store) grown need, (adoptBuffer t x grown need).session y = t.session y :=
    fun _ _ _ => Store.modifySession_session_of_ne _ _ different
  have touched : forall buffers, Store.session { s.touchSession x with buffers := buffers } y =
      s.session y := fun _ => s.touchSession_session x y
  rw [appendSession]
  split
  · split
    · exact touched _
    · rw [copied, adopted, touched]
  · rw [copied, Store.touchSession_session]

end Lengths

end Revenant
end BugMuseum
