import BugMuseum.Revenant.SessTable

namespace BugMuseum
namespace Revenant

open Foundation

/-!
# The deferred batch

The batch keeps the buffer pointers it captured.  A close and an append that
moves the buffer leave such a pointer behind, and a lookup through a stale
recent session lets the batch capture a pointer that is stale already.  A run
that avoids the three flushes into current buffers of open sessions only.
-/

/-- An entry that names the buffer of an open session, within its capacity.
The session may have changed its text since, but not its buffer. -/
def Current (s : Store) (entry : Option Block × Nat) : Prop :=
  exists x data, s.Open x ∧ (s.session x).data = some data ∧ entry.1 = some data ∧
    entry.2 ≤ (s.session x).cap

/-- Every entry is current, so a flush writes into buffers of open sessions
only and inside their bounds.  The second and the third part say so of the
flush itself, for every argument. -/
structure BatchValid (s : Store) : Prop where
  entries : forall entry, entry ∈ s.batch -> Current s entry
  bounds : forall arg, (sessFlush s arg).1.buffers.faults = s.buffers.faults
  targets : forall arg block,
    (sessFlush s arg).1.buffers.cell block ≠ s.buffers.cell block ->
    exists x, s.Open x ∧ (s.session x).data = some block

/-- The buffers the batch names. -/
def Store.batched (s : Store) (buffer : Option Block) : Prop :=
  exists entry, entry ∈ s.batch ∧ entry.1 = buffer

/-- A close, or an append that moves its buffer, is of a session whose buffer
is not in the batch, and a deferred session is open.  A full batch defers
nothing. -/
def KeepsBatch (s : Store) : Op -> Prop
  | .close id => forall x, s.slotAt id = some x -> ¬ s.batched (s.session x).data
  | .useAppend id arg outcome => forall x, s.lookup id = some x -> Relocates s x arg outcome ->
      ¬ s.batched (s.session x).data
  | .defer id => forall x, s.lookup id = some x -> s.batch.length < deferMax -> s.Open x
  | _ => True

/-- The discipline of the batch: the laws of the store hold, and every entry
is current.  Any call that the condition forbids breaks it for some entry. -/
structure BatchKept (s : Store) : Prop where
  sound : Sound s
  current : forall entry, entry ∈ s.batch -> Current s entry

theorem flushEntry_faults {arg : Payload} {buffers : Heap Bytes} {entry : Option Block × Nat}
    {data : Block} (named : entry.1 = some data) (live : buffers.Live data)
    (within : entry.2 ≤ (buffers.cell data).length) :
    (flushEntry arg buffers entry).faults = buffers.faults := by
  unfold flushEntry
  rw [named]
  apply Heap.write_faults_of_fits live
  rw [List.length_take]
  split <;> omega

theorem foldl_flushEntry_faults (arg : Payload) (entries : List (Option Block × Nat))
    (buffers : Heap Bytes)
    (valid : forall entry, entry ∈ entries -> exists data, entry.1 = some data ∧
      buffers.Live data ∧ entry.2 ≤ (buffers.cell data).length) :
    (entries.foldl (flushEntry arg) buffers).faults = buffers.faults := by
  induction entries generalizing buffers with
  | nil => rfl
  | cons entry rest inductionHypothesis =>
      rcases valid entry List.mem_cons_self with ⟨data, named, live, within⟩
      refine (inductionHypothesis (flushEntry arg buffers entry) ?_).trans
        (flushEntry_faults named live within)
      intro later member
      rcases valid later (List.mem_cons_of_mem entry member) with ⟨other, otherNamed, otherLive, fits⟩
      refine ⟨other, otherNamed, ?_, ?_⟩
      · exact (Heap.Live.congr (Heap.writeAt_next ..) (Heap.writeAt_releases ..)).mpr otherLive
      · exact fits.trans (Nat.le_of_eq (Heap.writeAt_cell_length ..).symm)

/-- A flush leaves the buffers alone that the batch does not name. -/
theorem foldl_flushEntry_cell (arg : Payload) (entries : List (Option Block × Nat))
    (buffers : Heap Bytes) {block : Block}
    (absent : forall entry, entry ∈ entries -> entry.1 ≠ some block) :
    (entries.foldl (flushEntry arg) buffers).cell block = buffers.cell block := by
  induction entries generalizing buffers with
  | nil => rfl
  | cons entry rest inductionHypothesis =>
      have later := inductionHypothesis (flushEntry arg buffers entry) fun other member =>
        absent other (List.mem_cons_of_mem entry member)
      exact later.trans (Heap.writeAt_cell_of_ne _ _ _ (absent entry List.mem_cons_self))

namespace BatchKept

variable {s s' : Store}

theorem batchValid (kept : BatchKept s) : BatchValid s where
  entries := kept.current
  bounds := fun arg => by
    apply foldl_flushEntry_faults
    intro entry member
    rcases kept.current entry member with ⟨x, data, isOpen, owned, named, within⟩
    rcases kept.sound.buffered x isOpen with ⟨other, otherOwned, live⟩
    have same : data = other := Option.some.inj (owned.symm.trans otherOwned)
    refine ⟨data, named, same ▸ live, ?_⟩
    rw [kept.sound.sized x data (kept.sound.live x isOpen).1 owned]
    exact within
  targets := fun arg block changed => by
    by_contra missing
    apply changed
    apply foldl_flushEntry_cell
    intro entry member named
    rcases kept.current entry member with ⟨x, data, isOpen, owned, sameName, _⟩
    exact missing ⟨x, isOpen, owned.trans (sameName.symm.trans named)⟩

/-- The sessions named by the batch stay open, with their buffers, and these
get no smaller.  Then the entries stay current. -/
theorem keep (kept : BatchKept s) (sound : Sound s') (batch : s'.batch = s.batch)
    (stays : forall x data, s.Open x -> (s.session x).data = some data -> s.batched (some data) ->
      s'.Open x ∧ (s'.session x).data = some data ∧ (s.session x).cap ≤ (s'.session x).cap) :
    BatchKept s' where
  sound := sound
  current := fun entry member => by
    rw [batch] at member
    rcases kept.current entry member with ⟨x, data, isOpen, owned, named, within⟩
    rcases stays x data isOpen owned ⟨entry, member, named⟩ with ⟨stillOpen, stillOwned, room⟩
    exact ⟨x, data, stillOpen, stillOwned, named, Nat.le_trans within room⟩

theorem shape (kept : BatchKept s) (frame : ShapeFrame s s') : BatchKept s' :=
  kept.keep (kept.sound.shape frame) frame.batch fun x _ isOpen owned _ =>
    ⟨(frame.open_iff x).mpr isOpen, (frame.data x).trans owned, Nat.le_of_eq (frame.cap x).symm⟩

theorem setRecent (kept : BatchKept s) {x : Block} (known : Known s x) :
    BatchKept { s with gRecent := some x } :=
  kept.keep (kept.sound.setRecent known) rfl fun _ _ isOpen owned _ => ⟨isOpen, owned, Nat.le_refl _⟩

theorem opening (kept : BatchKept s) (type : Int) (handler : Option Handler) (init : Payload)
    (grant : Nat -> Grant) : BatchKept (step s (.opening type handler init grant)) := by
  have sound := kept.sound.step (.opening type handler init grant)
  rcases sessOpen_cases s type handler init grant with result | ⟨id, chosen, cap, result⟩ |
    ⟨id, session, content, opened, _⟩
  · rw [step, result]
    exact kept
  · rw [step, result] at sound ⊢
    refine kept.keep sound rfl fun x data isOpen owned _ => ⟨isOpen, ?_⟩
    have same : (withdrawn s id type chosen cap).session x = s.session x :=
      Heap.alloc_cell_of_ne _ _ (Nat.ne_of_lt (kept.sound.live x isOpen).1)
    rw [same]
    exact ⟨owned, Nat.le_refl _⟩
  · apply kept.keep sound opened.batch
    intro x data isOpen owned _
    have same : (step s (.opening type handler init grant)).session x = s.session x :=
      opened.old (kept.sound.live x isOpen).1
    rw [same]
    exact ⟨(opened.open_iff x).mpr (Or.inl isOpen), owned, Nat.le_refl _⟩

theorem appendSession (kept : BatchKept s) {x : Block} (known : Known s x) {arg : Payload}
    {outcome : Realloc} (condition : Relocates s x arg outcome -> ¬ s.batched (s.session x).data) :
    BatchKept (appendSession s x arg outcome).1 := by
  have sound := kept.sound.appendSession known arg outcome
  rcases known with ⟨bound, old, buffer⟩
  by_cases moves : Relocates s x arg outcome
  · rcases appendSession_relocates buffer moves with ⟨need, regrown, _, _⟩
    apply kept.keep sound regrown.batch
    intro y data isOpen owned batched
    have different : y ≠ x := fun same => condition moves (by rw [← same, owned]; exact batched)
    rw [regrown.others y different]
    exact ⟨(regrown.open_iff y).mpr isOpen, owned, Nat.le_refl _⟩
  · rcases appendSession_stays buffer moves with frame | ⟨need, regrown, _, _⟩
    · exact kept.shape frame
    · apply kept.keep sound regrown.batch
      intro y data isOpen owned _
      refine ⟨(regrown.open_iff y).mpr isOpen, ?_⟩
      by_cases same : y = x
      · subst same
        rw [regrown.data, ← buffer, regrown.cap]
        exact ⟨owned, Nat.le_of_lt regrown.larger⟩
      · rw [regrown.others y same]
        exact ⟨owned, Nat.le_refl _⟩

theorem closeHeld (kept : BatchKept s) {index : Nat} {x : Block} (slot : s.slots index = some x)
    (condition : ¬ s.batched (s.session x).data) : BatchKept (closeHeld s index x) := by
  apply kept.keep (kept.sound.closeHeld slot) rfl
  intro y data isOpen owned batched
  have different : y ≠ x := fun same => condition (by rw [← same, owned]; exact batched)
  rw [closeHeld_session]
  exact ⟨(kept.sound.closeHeld_open slot y).mpr ⟨isOpen, different⟩, owned, Nat.le_refl _⟩

/-- Deferring an open session adds an entry that is current. -/
theorem deferOpen (kept : BatchKept s) {x : Block} (id : Int)
    (condition : s.batch.length < deferMax -> s.Open x) (known : Known s x) :
    BatchKept ((Op.defer id).act s x) := by
  have sound := kept.sound.act known (.defer id)
  rw [Op.act] at sound ⊢
  by_cases full : s.batch.length ≥ deferMax
  · rw [if_pos full]
    exact kept
  · rw [if_neg full] at sound ⊢
    have isOpen := condition (Nat.lt_of_not_le full)
    have touched := kept.shape (.touchSession s x)
    refine ⟨sound, fun entry member => ?_⟩
    rcases List.mem_append.mp member with old | new
    · exact touched.current entry old
    · rw [List.mem_singleton] at new
      subst new
      rcases touched.sound.buffered x isOpen with ⟨data, owned, _⟩
      have within := touched.sound.within x (touched.sound.live x isOpen).1
      exact ⟨x, data, isOpen, owned, owned, within⟩

theorem handled (kept : BatchKept s) {op : Op} {id : Int} (handled : op.handle = some id)
    (condition : KeepsBatch s op) : BatchKept (step s op) := by
  cases found : s.lookup id with
  | none => rwa [step_absent handled found]
  | some x =>
      have known := kept.sound.lookup_known found
      have looked := kept.setRecent known
      rw [step_found handled found]
      cases op with
      | useRun id arg out => exact looked.shape (runSession_frame _ x arg out)
      | useSet id arg => exact looked.shape (setSession_frame _ x arg)
      | useAppend id arg outcome =>
          cases handled
          exact looked.appendSession known (condition x found)
      | defer id =>
          cases handled
          exact looked.deferOpen id (condition x found) known
      | _ => exact looked

/-- One call that keeps the batch: every entry is current behind it again. -/
theorem step (kept : BatchKept s) {op : Op} (condition : KeepsBatch s op) :
    BatchKept (step s op) := by
  cases op with
  | opening type handler init grant => exact kept.opening type handler init grant
  | get id => exact kept.handled rfl condition
  | useRun id arg out => exact kept.handled rfl condition
  | useSet id arg => exact kept.handled rfl condition
  | useAppend id arg outcome => exact kept.handled rfl condition
  | defer id => exact kept.handled rfl condition
  | close id =>
      cases found : s.slotAt id with
      | none => simpa only [Revenant.step, sessClose, found] using kept
      | some x =>
          simpa only [Revenant.step, sessClose, found] using
            kept.closeHeld (Store.slotAt_some found).2.2 (condition x found)
  | stat verbose out =>
      rcases sessStat_frame s verbose out with same | ⟨x, _, same⟩
      · rwa [Revenant.step, same]
      · rw [Revenant.step, same]
        exact kept.shape (.touchSession s x)
  | flush arg =>
      exact ⟨kept.sound.step (.flush arg), fun _ impossible => absurd impossible List.not_mem_nil⟩

end BatchKept

section Breaking

variable {s : Store} (kept : BatchKept s)

include kept

theorem not_batchValid_of_close {id : Int} {x : Block} (found : s.slotAt id = some x)
    (batched : s.batched (s.session x).data) : ¬ BatchValid (step s (.close id)) := by
  have slot := (Store.slotAt_some found).2.2
  have isOpen := Store.slotAt_open found
  rcases batched with ⟨entry, member, named⟩
  intro valid
  simp only [step, sessClose, found] at valid
  rcases valid.entries entry member with ⟨y, data, stillOpen, owned, sameName, _⟩
  have stays := (kept.sound.closeHeld_open slot y).mp stillOpen
  rw [closeHeld_session] at owned
  refine stays.2 (kept.sound.sole y x data (kept.sound.live y stays.1).1
    (kept.sound.live x isOpen).1 owned ?_)
  exact named.symm.trans sameName

/-- The batch still names the buffer from before the move, which belongs to no
session any more. -/
theorem not_batchValid_of_append {id : Int} {x : Block} {arg : Payload} {outcome : Realloc}
    (found : s.lookup id = some x) (moves : Relocates s x arg outcome)
    (batched : s.batched (s.session x).data) :
    ¬ BatchValid (step s (.useAppend id arg outcome)) := by
  rcases kept.sound.lookup_known found with ⟨bound, old, buffer⟩
  rcases batched with ⟨entry, member, named⟩
  rcases appendSession_relocates (s := { s with gRecent := some x }) buffer moves with
    ⟨need, regrown, _, _⟩
  intro valid
  simp only [step, sessUseAppend, sessGet_found found] at valid
  rcases valid.entries entry (regrown.batch.symm ▸ member) with ⟨y, data, stillOpen, owned, sameName, _⟩
  have sameData : data = old := by
    apply Option.some.inj
    rw [← sameName, named, buffer]
  by_cases same : y = x
  · subst same
    have fresh : data = s.buffers.next := Option.some.inj (owned.symm.trans regrown.data)
    have oldIssued := kept.sound.issued y old bound buffer
    exact Nat.lt_irrefl _ (fresh ▸ sameData ▸ oldIssued)
  · rw [regrown.others y same] at owned
    have yBound := (kept.sound.live y ((regrown.open_iff y).mp stillOpen)).1
    exact same (kept.sound.sole y x data yBound bound owned (sameData ▸ buffer))

/-- The captured buffer belongs to a closed session.  The lookup went through
the recent session, which was closed. -/
theorem not_batchValid_of_defer {id : Int} {x : Block} (found : s.lookup id = some x)
    (room : s.batch.length < deferMax) (closed : ¬ s.Open x) :
    ¬ BatchValid (step s (.defer id)) := by
  rcases kept.sound.lookup_known found with ⟨bound, data, buffer⟩
  have notFull : ¬ s.batch.length ≥ deferMax := Nat.not_le.mpr room
  have fields : forall y, (Store.touchSession { s with gRecent := some x } x).session y = s.session y :=
    fun y => Store.touchSession_session _ x y
  intro valid
  simp only [step, sessDefer, sessGet_found found, if_neg notFull] at valid
  rcases valid.entries _ (List.mem_append_right _ List.mem_cons_self) with
    ⟨y, other, isOpen, owned, sameName, _⟩
  have ownedThen : (s.session y).data = some other :=
    (congrArg Session.data (fields y)).symm.trans owned
  have named : (s.session x).data = some other :=
    (congrArg Session.data (fields x)).symm.trans sameName
  have same := kept.sound.sole y x other (kept.sound.live y isOpen).1 bound ownedThen named
  exact closed (same ▸ isOpen)

end Breaking

/-! ## Exactly the runs with a valid batch -/

theorem batch_guard : ExactGuard step (fun _ => True) BatchKept BatchValid KeepsBatch where
  safe := fun _ kept => kept.batchValid
  keeps := fun _ _ kept _ condition => kept.step condition
  breaks := fun s op kept _ missed => by
    cases op with
    | close id =>
        simp only [KeepsBatch, not_forall, not_not] at missed
        rcases missed with ⟨x, found, batched⟩
        exact not_batchValid_of_close kept found batched
    | useAppend id arg outcome =>
        simp only [KeepsBatch, not_forall, not_not] at missed
        rcases missed with ⟨x, found, moves, batched⟩
        exact not_batchValid_of_append kept found moves batched
    | defer id =>
        simp only [KeepsBatch, not_forall] at missed
        rcases missed with ⟨x, found, room, closed⟩
        exact not_batchValid_of_defer kept found room closed
    | opening _ _ _ _ => exact absurd trivial missed
    | get _ => exact absurd trivial missed
    | useRun _ _ _ => exact absurd trivial missed
    | useSet _ _ => exact absurd trivial missed
    | stat _ _ => exact absurd trivial missed
    | flush _ => exact absurd trivial missed

/-- The batch names current buffers of open sessions exactly in the runs that
avoid the three calls.  Whatever else happens between deferring and flushing
does no harm. -/
theorem batchValid_iff_keepsBatch (ops : List Op) :
    Throughout step BatchValid sessNew ops ↔ Guarded step KeepsBatch sessNew ops :=
  batch_guard.throughout_iff ⟨sound_sessNew, fun _ impossible => nomatch impossible⟩
    fun _ _ => trivial

def deferThenClose : List Op :=
  [.opening 0 (some .echo) hello generous, .defer 0, .close 0]

theorem deferThenClose_batch_stale : ¬ Throughout step BatchValid sessNew deferThenClose := by
  intro every
  have flushed := (throughout_end every).bounds ⟨ascii "bye", by decide⟩
  revert flushed
  decide +kernel

end Revenant
end BugMuseum
