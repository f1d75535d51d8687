import BugMuseum.Revenant.Uses
import BugMuseum.Foundation.Runs

namespace BugMuseum
namespace Revenant

open Foundation

/-!
# What always holds of the session store

Some laws hold along every run, whatever the caller does with stale handles.
An open session is live, is held in the slot its id names, and has a live
buffer; no two sessions, open or closed, ever have the same buffer; and a
buffer has exactly the size its session records.  The later modules use
`Sound` to say which calls lose the laws that do not always hold.
-/

/-- A session that was opened at some time.  It may have been closed since,
and a stale handle may still lead to it. -/
def Known (s : Store) (x : Block) : Prop :=
  x < s.sessions.next ∧ exists data, (s.session x).data = some data

theorem ShapeFrame.known_iff {s s' : Store} (frame : ShapeFrame s s') (x : Block) :
    Known s' x ↔ Known s x := by
  rw [Known, Known, frame.next, frame.data]

theorem Known.appendSession_frame {s : Store} {x : Block} (known : Known s x) (arg : Payload)
    (outcome : Realloc) : TableFrame s (appendSession s x arg outcome).1 := by
  rcases known with ⟨_, _, buffer⟩
  exact Revenant.appendSession_frame buffer

/-- A call that takes a handle changes no slot and no more of `g_recent` than
the lookup has done. -/
theorem Known.act_table {s : Store} {x : Block} (known : Known s x) (op : Op) :
    (op.act s x).slots = s.slots ∧ (op.act s x).gRecent = s.gRecent := by
  cases op with
  | useAppend id arg outcome =>
      have frame := known.appendSession_frame arg outcome
      exact ⟨frame.slots, frame.gRecent⟩
  | defer id =>
      rw [Op.act]
      split <;> exact ⟨rfl, rfl⟩
  | _ => exact ⟨rfl, rfl⟩

structure Sound (s : Store) : Prop where
  ids : forall index x, s.slots index = some x -> index < sessMax ∧ (s.session x).id = index
  live : forall x, s.Open x -> s.sessions.Live x
  unused : forall x, s.sessions.next ≤ x -> s.sessions.releases x = 0
  recent : forall x, s.gRecent = some x -> Known s x
  buffered : forall x, s.Open x -> exists data, (s.session x).data = some data ∧ s.buffers.Live data
  sole : forall x y data, x < s.sessions.next -> y < s.sessions.next ->
    (s.session x).data = some data -> (s.session y).data = some data -> x = y
  issued : forall x data, x < s.sessions.next -> (s.session x).data = some data ->
    data < s.buffers.next
  sized : forall x data, x < s.sessions.next -> (s.session x).data = some data ->
    (s.buffers.cell data).length = (s.session x).cap
  within : forall x, x < s.sessions.next -> (s.session x).len ≤ (s.session x).cap
  pristine : forall block, s.buffers.next ≤ block -> s.buffers.releases block = 0

theorem not_open_sessNew (x : Block) : ¬ sessNew.Open x :=
  not_held_none sessMax x

theorem sound_sessNew : Sound sessNew where
  ids := fun _ _ impossible => nomatch impossible
  live := fun x isOpen => absurd isOpen (not_open_sessNew x)
  unused := fun _ _ => rfl
  recent := fun _ impossible => nomatch impossible
  buffered := fun x isOpen => absurd isOpen (not_open_sessNew x)
  sole := fun x _ _ impossible => absurd impossible (Nat.not_lt_zero x)
  issued := fun x _ impossible => absurd impossible (Nat.not_lt_zero x)
  sized := fun x _ impossible => absurd impossible (Nat.not_lt_zero x)
  within := fun x impossible => absurd impossible (Nat.not_lt_zero x)
  pristine := fun _ _ => rfl

/-! ## The calls -/

/-- One new session with one new buffer, entered in a free slot.  The buffer
has the recorded size and the text fits into it. -/
structure Opened (s s' : Store) (id : Nat) (session : Session) (content : Bytes) : Prop where
  slot : firstFree sessMax s.slots = some id
  sessions : s.sessions.Extends s'.sessions session
  buffers : s.buffers.Extends s'.buffers content
  slots : s'.slots = Function.update s.slots id (some s.sessions.next)
  gRecent : s'.gRecent = some s.sessions.next
  batch : s'.batch = s.batch
  named : session.id = id
  data : session.data = some s.buffers.next
  cap : content.length = session.cap
  within : session.len ≤ session.cap

/-- A `Session` block was allocated and released again before the call
failed. -/
def withdrawn (s : Store) (id : Nat) (type : Int) (handler : Handler) (cap : Nat) : Store :=
  { s with
    sessions := (s.sessions.alloc { (default : Session) with id, type, handler, cap }).release
      s.sessions.next }

theorem sessOpen_cases (s : Store) (type : Int) (handler : Option Handler) (init : Payload)
    (grant : Nat -> Grant) :
    sessOpen s type handler init grant = (s, sessErr) ∨
      (exists id chosen cap,
        sessOpen s type handler init grant = (withdrawn s id type chosen cap, sessErr)) ∨
      exists id session content, Opened s (sessOpen s type handler init grant).1 id session content ∧
        session.cap ≤ sessMaxData ∧ (sessOpen s type handler init grant).2 = id := by
  cases chosen : handler with
  | none => exact Or.inl rfl
  | some handler =>
      unfold sessOpen
      cases slot : firstFree sessMax s.slots with
      | none => exact Or.inl rfl
      | some id =>
          cases first : grant 0 with
          | none => exact Or.inl rfl
          | some residue =>
              cases second : grant 1 with
              | none => exact Or.inr (Or.inl ⟨id, handler, _, rfl⟩)
              | some residue =>
                  obtain ⟨len, lenEq⟩ : exists len, len =
                    if init.bytes.length > sessMaxData then sessMaxData else init.bytes.length :=
                      ⟨_, rfl⟩
                  obtain ⟨cap, capEq⟩ : exists cap, cap = if len < 32 then 32 else len := ⟨_, rfl⟩
                  simp only [← lenEq, ← capEq]
                  have fits : len ≤ cap := by rw [capEq]; split <;> omega
                  have roomy : (init.bytes.take len).length ≤ cap :=
                    Nat.le_trans (List.length_take_le ..) fits
                  have made := (Heap.alloc_extends s.sessions
                    { (default : Session) with id := id, type, handler, cap }).modify
                      fun session => { session with data := some s.buffers.next, len }
                  have written := (Heap.alloc_extends s.buffers (freshBytes cap residue)).write
                    0 (init.bytes.take len) (by simpa using roomy)
                  have bounded : cap ≤ sessMaxData := by
                    rw [capEq, lenEq, sessMaxData]
                    split <;> split <;> omega
                  refine Or.inr (Or.inr ⟨id, _, _,
                    ⟨slot, made, written, rfl, rfl, rfl, rfl, rfl, ?_, ?_⟩, bounded, rfl⟩)
                  · exact fresh_overwrite_length ..
                  · exact fits

namespace Opened

variable {s s' : Store} {id : Nat} {session : Session} {content : Bytes}

theorem open_iff (opened : Opened s s' id session content) (y : Block) :
    s'.Open y ↔ s.Open y ∨ y = s.sessions.next := by
  have free := firstFree_some opened.slot
  rw [Store.Open, opened.slots]
  exact held_fill free.1 free.2

theorem old (opened : Opened s s' id session content) {y : Block} (older : y < s.sessions.next) :
    s'.session y = s.session y :=
  opened.sessions.older y (Nat.ne_of_lt older)

theorem new (opened : Opened s s' id session content) : s'.session s.sessions.next = session :=
  opened.sessions.fresh

end Opened

namespace Sound

variable {s s' : Store}

theorem known (sound : Sound s) {x : Block} (isOpen : s.Open x) : Known s x := by
  rcases sound.buffered x isOpen with ⟨data, named, _⟩
  exact ⟨(sound.live x isOpen).1, data, named⟩

theorem lookup_known (sound : Sound s) {id : Int} {x : Block} (found : s.lookup id = some x) :
    Known s x := by
  unfold Store.lookup at found
  split at found
  · exact sound.recent x found
  · exact sound.known (Store.slotAt_open found)

theorem numbered (sound : Sound s) : Numbered sessMax s.slots fun x => (s.session x).id :=
  sound.ids

theorem open_known_slot (sound : Sound s) {x : Block} (isOpen : s.Open x) :
    s.slotAt (s.session x).id = some x := by
  rcases isOpen with ⟨index, inside, holds⟩
  rw [(sound.ids index x holds).2, Store.slotAt_natCast s inside]
  exact holds

theorem shape (sound : Sound s) (frame : ShapeFrame s s') : Sound s' where
  ids := by
    rw [frame.slots]
    exact sound.numbered.congr fun x _ => frame.ids x
  live := fun x isOpen => (frame.live_iff x).mpr (sound.live x ((frame.open_iff x).mp isOpen))
  unused := fun x beyond => by
    rw [frame.next] at beyond
    rw [frame.releases]
    exact sound.unused x beyond
  recent := fun x named => by
    rw [frame.gRecent] at named
    rw [Known, frame.next, frame.data]
    exact sound.recent x named
  buffered := fun x isOpen => by
    rcases sound.buffered x ((frame.open_iff x).mp isOpen) with ⟨data, named, live⟩
    refine ⟨data, (frame.data x).trans named, ?_⟩
    exact (Heap.Live.congr frame.nextBuffer frame.releasedBuffers).mpr live
  sole := fun x y data => by
    rw [frame.next, frame.data, frame.data]
    exact sound.sole x y data
  issued := fun x data => by
    rw [frame.next, frame.data, frame.nextBuffer]
    exact sound.issued x data
  sized := fun x data => by
    rw [frame.next, frame.data, frame.sizes, frame.cap]
    exact sound.sized x data
  within := fun x old => by
    rw [frame.next] at old
    rw [frame.cap]
    rcases frame.within x with same | within
    · exact same ▸ sound.within x old
    · exact within
  pristine := fun block beyond => by
    rw [frame.nextBuffer] at beyond
    rw [frame.releasedBuffers]
    exact sound.pristine block beyond

theorem setRecent (sound : Sound s) {x : Block} (known : Known s x) :
    Sound { s with gRecent := some x } :=
  ⟨sound.ids, sound.live, sound.unused, fun _ same => Option.some.inj same ▸ known,
    sound.buffered, sound.sole, sound.issued, sound.sized, sound.within, sound.pristine⟩

theorem setBatch (sound : Sound s) (batch : List (Option Block × Nat)) :
    Sound { s with batch := batch } :=
  ⟨sound.ids, sound.live, sound.unused, sound.recent, sound.buffered, sound.sole, sound.issued,
    sound.sized, sound.within, sound.pristine⟩

/-- A failed open leaves a released session without a buffer behind, and the
laws hold of it. -/
theorem withdrawn (sound : Sound s) (id : Nat) (type : Int) (handler : Handler) (cap : Nat) :
    Sound (withdrawn s id type handler cap) := by
  have older : forall x, x ≠ s.sessions.next ->
      (Revenant.withdrawn s id type handler cap).session x = s.session x :=
    fun x different => Heap.alloc_cell_of_ne s.sessions _ different
  have fresh : (Revenant.withdrawn s id type handler cap).session s.sessions.next =
      { (default : Session) with id := id, type, handler, cap } :=
    Heap.alloc_cell_next s.sessions _
  have opened : forall x, s.Open x -> x ≠ s.sessions.next :=
    fun x isOpen => Nat.ne_of_lt (sound.live x isOpen).1
  have owner : forall x data, x < s.sessions.next + 1 ->
      ((Revenant.withdrawn s id type handler cap).session x).data = some data ->
      x < s.sessions.next ∧ (s.session x).data = some data := by
    intro x data bound named
    rcases Nat.lt_succ_iff_lt_or_eq.mp bound with old | new
    · rw [older x (Nat.ne_of_lt old)] at named
      exact ⟨old, named⟩
    · rw [new, fresh] at named
      cases named
  constructor
  · exact sound.numbered.congr fun x isOpen => congrArg Session.id (older x (opened x isOpen))
  · intro x isOpen
    exact ((sound.live x isOpen).alloc _).release (opened x isOpen)
  · intro x beyond
    have later : s.sessions.next < x := beyond
    apply (Heap.release_releases_of_ne _ (Nat.ne_of_gt later)).trans
    exact sound.unused x (Nat.le_of_lt later)
  · intro x named
    rcases sound.recent x named with ⟨old, data, owned⟩
    exact ⟨Nat.lt_succ_of_lt old, data, by rw [older x (Nat.ne_of_lt old), owned]⟩
  · intro x isOpen
    rw [older x (opened x isOpen)]
    exact sound.buffered x isOpen
  · intro x y data xBound yBound xOwns yOwns
    have left := owner x data xBound xOwns
    have right := owner y data yBound yOwns
    exact sound.sole x y data left.1 right.1 left.2 right.2
  · intro x data bound owns
    have old := owner x data bound owns
    exact sound.issued x data old.1 old.2
  · intro x data bound owns
    have old := owner x data bound owns
    rw [older x (Nat.ne_of_lt old.1)]
    exact sound.sized x data old.1 old.2
  · intro x bound
    rcases Nat.lt_succ_iff_lt_or_eq.mp bound with old | new
    · rw [older x (Nat.ne_of_lt old)]
      exact sound.within x old
    · rw [new, fresh]
      exact Nat.zero_le _
  · exact sound.pristine

theorem opened (sound : Sound s) {id : Nat} {session : Session} {content : Bytes}
    (opened : Opened s s' id session content) : Sound s' := by
  have next : s'.sessions.next = s.sessions.next + 1 := opened.sessions.next
  have owner : forall x data, x < s'.sessions.next -> (s'.session x).data = some data ->
      (x < s.sessions.next ∧ s'.session x = s.session x ∧ (s.session x).data = some data) ∨
        (x = s.sessions.next ∧ data = s.buffers.next) := by
    intro x data bound named
    rw [next] at bound
    rcases Nat.lt_succ_iff_lt_or_eq.mp bound with old | new
    · have same := opened.old old
      exact Or.inl ⟨old, same, same ▸ named⟩
    · subst new
      rw [opened.new, opened.data] at named
      exact Or.inr ⟨rfl, (Option.some.inj named).symm⟩
  have liveBuffer : forall data, s.buffers.Live data -> s'.buffers.Live data :=
    fun data live => opened.buffers.keeps live
  constructor
  · rw [opened.slots]
    have older := sound.numbered.congr fun x isOpen =>
      congrArg Session.id (opened.old (sound.live x isOpen).1)
    exact older.fill (firstFree_some opened.slot).1 ((congrArg Session.id opened.new).trans opened.named)
  · intro x isOpen
    rcases (opened.open_iff x).mp isOpen with old | new
    · exact opened.sessions.keeps (sound.live x old)
    · subst new
      exact opened.sessions.live (sound.unused _ (Nat.le_refl _))
  · intro x beyond
    rw [next] at beyond
    rw [opened.sessions.releases]
    exact sound.unused x (Nat.le_of_succ_le beyond)
  · intro x named
    rw [opened.gRecent] at named
    cases named
    exact ⟨next ▸ Nat.lt_succ_self _, _, (congrArg Session.data opened.new).trans opened.data⟩
  · intro x isOpen
    rcases (opened.open_iff x).mp isOpen with old | new
    · rcases sound.buffered x old with ⟨data, named, live⟩
      rw [opened.old (sound.live x old).1]
      exact ⟨data, named, liveBuffer data live⟩
    · subst new
      rw [opened.new]
      exact ⟨_, opened.data, opened.buffers.live (sound.pristine _ (Nat.le_refl _))⟩
  · intro x y data xBound yBound xOwns yOwns
    rcases owner x data xBound xOwns with ⟨xOld, _, xNamed⟩ | ⟨xNew, xData⟩
    · rcases owner y data yBound yOwns with ⟨yOld, _, yNamed⟩ | ⟨yNew, yData⟩
      · exact sound.sole x y data xOld yOld xNamed yNamed
      · exact absurd (yData ▸ sound.issued x data xOld xNamed) (Nat.lt_irrefl _)
    · rcases owner y data yBound yOwns with ⟨yOld, _, yNamed⟩ | ⟨yNew, yData⟩
      · exact absurd (xData ▸ sound.issued y data yOld yNamed) (Nat.lt_irrefl _)
      · exact xNew.trans yNew.symm
  · intro x data bound owns
    rw [opened.buffers.next]
    rcases owner x data bound owns with ⟨old, _, named⟩ | ⟨_, new⟩
    · exact Nat.lt_succ_of_lt (sound.issued x data old named)
    · exact new ▸ Nat.lt_succ_self _
  · intro x data bound owns
    rcases owner x data bound owns with ⟨old, same, named⟩ | ⟨new, newData⟩
    · rw [same, opened.buffers.older data (Nat.ne_of_lt (sound.issued x data old named))]
      exact sound.sized x data old named
    · rw [newData, opened.buffers.fresh, new, opened.new]
      exact opened.cap
  · intro x bound
    rw [next] at bound
    rcases Nat.lt_succ_iff_lt_or_eq.mp bound with old | new
    · rw [opened.old old]
      exact sound.within x old
    · rw [new, opened.new]
      exact opened.within
  · intro block beyond
    rw [opened.buffers.next] at beyond
    rw [opened.buffers.releases]
    exact sound.pristine block (Nat.le_of_succ_le beyond)

/-- The buffers of the other sessions are neither the old one nor the one in
its place, even where the others are closed. -/
theorem apart_of_replaced (sound : Sound s) {x old block : Block} {buffers : Heap Bytes}
    (bound : x < s.sessions.next) (buffer : (s.session x).data = some old)
    (replaced : s.buffers.Replaced buffers old block) {y data : Block} (different : y ≠ x)
    (yBound : y < s.sessions.next) (owns : (s.session y).data = some data) : data ≠ old ∧ data ≠ block := by
  have notOld : data ≠ old := fun same => different (sound.sole y x data yBound bound owns (same ▸ buffer))
  rcases replaced.either with same | fresh
  · exact ⟨notOld, same ▸ notOld⟩
  · exact ⟨notOld, fresh ▸ Nat.ne_of_lt (sound.issued y data yBound owns)⟩

/-- Enlarging a buffer where it is, or giving the session a fresh one, keeps
the laws. -/
theorem regrown (sound : Sound s) {x old block : Block} {need : Nat} (bound : x < s.sessions.next)
    (buffer : (s.session x).data = some old) (regrown : Regrown s s' x block need)
    (replaced : s.buffers.Replaced s'.buffers old block) : Sound s' := by
  have oldIssued := sound.issued x old bound buffer
  have newIssued := replaced.issued oldIssued
  have apart : forall y data, y ≠ x -> y < s.sessions.next -> (s.session y).data = some data ->
      data ≠ old ∧ data ≠ block :=
    fun y data => sound.apart_of_replaced bound buffer replaced
  have owner : forall y data, (s'.session y).data = some data ->
      (y = x ∧ data = block) ∨ (y ≠ x ∧ (s.session y).data = some data) := by
    intro y data owns
    by_cases same : y = x
    · subst same
      rw [regrown.data] at owns
      exact Or.inl ⟨rfl, (Option.some.inj owns).symm⟩
    · rw [regrown.others y same] at owns
      exact Or.inr ⟨same, owns⟩
  constructor
  · rw [regrown.slots]
    exact sound.numbered.congr fun y _ => regrown.ids y
  · intro y isOpen
    exact (regrown.live_iff y).mpr (sound.live y ((regrown.open_iff y).mp isOpen))
  · intro y beyond
    rw [regrown.next] at beyond
    rw [regrown.releases]
    exact sound.unused y beyond
  · intro y named
    rw [regrown.gRecent] at named
    have known := sound.recent y named
    refine ⟨regrown.next ▸ known.1, ?_⟩
    by_cases same : y = x
    · exact ⟨block, same ▸ regrown.data⟩
    · rw [regrown.others y same]
      exact known.2
  · intro y isOpen
    rcases sound.buffered y ((regrown.open_iff y).mp isOpen) with ⟨data, owns, live⟩
    by_cases same : y = x
    · subst same
      have sameData : old = data := Option.some.inj (buffer.symm.trans owns)
      have unused := sound.pristine s.buffers.next (Nat.le_refl _)
      exact ⟨block, regrown.data, replaced.live (sameData ▸ live) unused⟩
    · have yBound := (sound.live y ((regrown.open_iff y).mp isOpen)).1
      refine ⟨data, (congrArg Session.data (regrown.others y same)).trans owns, ?_, ?_⟩
      · exact Nat.lt_of_lt_of_le live.1 replaced.next
      · rw [replaced.releases data (apart y data same yBound owns).1]
        exact live.2
  · intro y z data yBound zBound yOwns zOwns
    rw [regrown.next] at yBound zBound
    rcases owner y data yOwns with ⟨ySame, yData⟩ | ⟨yOther, yNamed⟩
    · rcases owner z data zOwns with ⟨zSame, _⟩ | ⟨zOther, zNamed⟩
      · exact ySame.trans zSame.symm
      · exact absurd yData (apart z data zOther zBound zNamed).2
    · rcases owner z data zOwns with ⟨_, zData⟩ | ⟨_, zNamed⟩
      · exact absurd zData (apart y data yOther yBound yNamed).2
      · exact sound.sole y z data yBound zBound yNamed zNamed
  · intro y data yBound owns
    rw [regrown.next] at yBound
    rcases owner y data owns with ⟨_, same⟩ | ⟨_, named⟩
    · exact same ▸ newIssued
    · exact Nat.lt_of_lt_of_le (sound.issued y data yBound named) replaced.next
  · intro y data yBound owns
    rw [regrown.next] at yBound
    rcases owner y data owns with ⟨same, sameData⟩ | ⟨other, named⟩
    · rw [same, sameData, regrown.size, regrown.cap]
    · rw [regrown.others y other, regrown.sizes data (apart y data other yBound named).2]
      exact sound.sized y data yBound named
  · intro y yBound
    rw [regrown.next] at yBound
    by_cases same : y = x
    · subst same
      rw [regrown.cap]
      rcases regrown.within with unchanged | within
      · rw [unchanged]
        exact Nat.le_trans (sound.within y yBound) (Nat.le_of_lt regrown.larger)
      · exact within
    · rw [regrown.others y same]
      exact sound.within y yBound
  · intro other beyond
    have later : s.buffers.next ≤ other := Nat.le_trans replaced.next beyond
    rw [replaced.releases other (Nat.ne_of_gt (Nat.lt_of_lt_of_le oldIssued later))]
    exact sound.pristine other later

theorem appendSession (sound : Sound s) {x : Block} (known : Known s x) (arg : Payload)
    (outcome : Realloc) : Sound (appendSession s x arg outcome).1 := by
  rcases known with ⟨bound, old, buffer⟩
  by_cases moves : Relocates s x arg outcome
  · rcases appendSession_relocates buffer moves with ⟨need, regrown, next, releases⟩
    exact sound.regrown bound buffer regrown (Heap.replaced_moves next releases)
  · rcases appendSession_stays buffer moves with frame | ⟨need, regrown, next, releases⟩
    · exact sound.shape frame
    · exact sound.regrown bound buffer regrown (Heap.replaced_stays _ next releases)

end Sound

theorem closeHeld_session (s : Store) (index : Nat) (x y : Block) :
    (closeHeld s index x).session y = s.session y :=
  s.touchSession_session x y

theorem closeHeld_buffers (s : Store) (index : Nat) (x : Block) :
    (closeHeld s index x).buffers = s.buffers.releaseAt (s.session x).data := by
  rw [← s.touchSession_session x x]
  rfl

theorem closeHeld_next (s : Store) (index : Nat) (x : Block) :
    (closeHeld s index x).sessions.next = s.sessions.next :=
  Heap.touch_next ..

theorem closeHeld_releases (s : Store) (index : Nat) (x : Block) :
    (closeHeld s index x).sessions.releases = (s.sessions.release x).releases :=
  Heap.releaseAt_releases_congr (Heap.touch_releases ..) (some x)

namespace Sound

variable {s : Store}

theorem closeHeld_open (sound : Sound s) {index : Nat} {x : Block} (slot : s.slots index = some x)
    (y : Block) : (closeHeld s index x).Open y ↔ s.Open y ∧ y ≠ x :=
  sound.numbered.held_clear slot y

theorem closeHeld (sound : Sound s) {index : Nat} {x : Block} (slot : s.slots index = some x) :
    Sound (closeHeld s index x) := by
  have isOpen : s.Open x := ⟨index, (sound.ids index x slot).1, slot⟩
  have bound := (sound.live x isOpen).1
  have stays := sound.closeHeld_open slot
  rcases sound.buffered x isOpen with ⟨data, owned, _⟩
  have buffers := closeHeld_buffers s index x
  rw [owned] at buffers
  constructor
  · exact (sound.numbered.clear index).congr fun y _ => congrArg Session.id (closeHeld_session s index x y)
  · intro y opened
    have old := (stays y).mp opened
    refine ⟨(closeHeld_next ..).symm ▸ (sound.live y old.1).1, ?_⟩
    rw [closeHeld_releases, Heap.release_releases_of_ne _ old.2]
    exact (sound.live y old.1).2
  · intro y beyond
    rw [closeHeld_next] at beyond
    rw [closeHeld_releases,
      Heap.release_releases_of_ne _ (Nat.ne_of_gt (Nat.lt_of_lt_of_le bound beyond))]
    exact sound.unused y beyond
  · intro y named
    rw [Known, closeHeld_next, closeHeld_session]
    exact sound.recent y named
  · intro y opened
    have old := (stays y).mp opened
    rcases sound.buffered y old.1 with ⟨other, owns, live⟩
    refine ⟨other, (congrArg Session.data (closeHeld_session ..)).trans owns, ?_⟩
    rw [buffers]
    apply live.release
    intro same
    exact old.2 (sound.sole y x other (sound.live y old.1).1 bound owns (same ▸ owned))
  · intro y z other
    rw [closeHeld_next, closeHeld_session, closeHeld_session]
    exact sound.sole y z other
  · intro y other
    rw [closeHeld_next, closeHeld_session, buffers]
    exact sound.issued y other
  · intro y other
    rw [closeHeld_next, closeHeld_session, buffers]
    exact sound.sized y other
  · intro y
    rw [closeHeld_next, closeHeld_session]
    exact sound.within y
  · intro block beyond
    rw [buffers] at beyond ⊢
    have later : s.buffers.next ≤ block := beyond
    have different : block ≠ data :=
      Nat.ne_of_gt (Nat.lt_of_lt_of_le (sound.issued x data bound owned) later)
    exact (Heap.release_releases_of_ne _ different).trans (sound.pristine block later)

end Sound

/-! ## Every run -/

/-- A flush copies into buffers and nothing else: their number, their releases
and their sizes stay. -/
theorem foldl_flushEntry_frame (arg : Payload) (entries : List (Option Block × Nat))
    (buffers : Heap Bytes) :
    (entries.foldl (flushEntry arg) buffers).next = buffers.next ∧
      (entries.foldl (flushEntry arg) buffers).releases = buffers.releases ∧
      forall block, ((entries.foldl (flushEntry arg) buffers).cell block).length =
        (buffers.cell block).length := by
  induction entries generalizing buffers with
  | nil => exact ⟨rfl, rfl, fun _ => rfl⟩
  | cons entry rest inductionHypothesis =>
      rcases inductionHypothesis (flushEntry arg buffers entry) with ⟨next, releases, sizes⟩
      refine ⟨?_, ?_, fun block => ?_⟩
      · exact next.trans (Heap.writeAt_next ..)
      · exact releases.trans (Heap.writeAt_releases ..)
      · exact (sizes block).trans (Heap.writeAt_cell_length ..)

theorem sessFlush_frame (s : Store) (arg : Payload) :
    ShapeFrame s { (sessFlush s arg).1 with batch := s.batch } := by
  rcases foldl_flushEntry_frame arg s.batch s.buffers with ⟨next, releases, sizes⟩
  exact (ShapeFrame.refl s).buffers s.uses next releases sizes

namespace Sound

variable {s : Store}

theorem act (sound : Sound s) {x : Block} (known : Known s x) (op : Op) : Sound (op.act s x) := by
  cases op with
  | useRun id arg out => exact sound.shape (runSession_frame s x arg out)
  | useSet id arg => exact sound.shape (setSession_frame s x arg)
  | useAppend id arg outcome => exact sound.appendSession known arg outcome
  | defer id =>
      rw [Op.act]
      split
      · exact sound
      · exact (sound.shape (.touchSession s x)).setBatch _
  | _ => exact sound

theorem handled (sound : Sound s) {op : Op} {id : Int} (handled : op.handle = some id) :
    Sound (step s op) := by
  cases found : s.lookup id with
  | none => rwa [step_absent handled found]
  | some x =>
      have known := sound.lookup_known found
      rw [step_found handled found]
      exact (sound.setRecent known).act known op

/-- One call, whatever it is, and whatever stale handle it is given, keeps the
laws. -/
theorem step (sound : Sound s) (op : Op) : Sound (step s op) := by
  cases op with
  | opening type handler init grant =>
      rcases sessOpen_cases s type handler init grant with same | ⟨id, chosen, cap, same⟩ |
        ⟨id, session, content, opened, _⟩
      · rwa [Revenant.step, same]
      · rw [Revenant.step, same]
        exact sound.withdrawn id type chosen cap
      · exact sound.opened opened
  | get id => exact sound.handled rfl
  | useRun id arg out => exact sound.handled rfl
  | useSet id arg => exact sound.handled rfl
  | useAppend id arg outcome => exact sound.handled rfl
  | defer id => exact sound.handled rfl
  | close id =>
      cases found : s.slotAt id with
      | none => simpa only [Revenant.step, sessClose, found] using sound
      | some x =>
          simpa only [Revenant.step, sessClose, found] using
            sound.closeHeld (Store.slotAt_some found).2.2
  | stat verbose out =>
      rcases sessStat_frame s verbose out with same | ⟨x, _, same⟩
      · rwa [Revenant.step, same]
      · rw [Revenant.step, same]
        exact sound.shape (.touchSession s x)
  | flush arg => exact (sound.shape (sessFlush_frame s arg)).setBatch []

end Sound

end Revenant
end BugMuseum
