import BugMuseum.Revenant.Connections

namespace BugMuseum
namespace Revenant

open Foundation

/-!
# What an append leaves in the buffer

`SessUseAppend` saves the pointer to the buffer before it lets the buffer grow, and copies
through the saved pointer.  As long as the buffer stays where it is, the
argument comes to stand behind the text of the session.  When the allocator moves
the buffer, the copy goes to the block that has just been released.
-/

/-- The text of a session: what its buffer holds up to the length.  It is read
through the pointer of the session, whether or not the buffer is live. -/
def Store.text (s : Store) (x : Block) : Bytes :=
  match (s.session x).data with
  | none => []
  | some data => (s.buffers.cell data).take (s.session x).len

/-- The argument stands behind the old text, in a live buffer, and no access
went to a block that was not live.  A refused append leaves the session as it
was. -/
structure Appends (s s' : Store) (x : Block) (arg : Payload) (code : Int) : Prop where
  text : code = sessOk -> s'.text x = s.text x ++ arg.bytes
  length : code = sessOk -> (s'.session x).len = (s.session x).len + arg.bytes.length
  backed : code = sessOk -> exists data, (s'.session x).data = some data ∧ s'.buffers.Live data
  buffers : s'.buffers.faults = s.buffers.faults
  sessions : s'.sessions.faults = s.sessions.faults
  refused : code ≠ sessOk -> s'.session x = s.session x ∧ s'.text x = s.text x

/-- The next call appends, if it is an append to an open session whose length
does not wrap.  What it leaves is judged by the text that is read back, by the
blocks and by the faults. -/
def AppendAppends (s : Store) : Op -> Prop
  | .useAppend id arg outcome => forall x, s.lookup id = some x -> s.Open x ->
      (s.session x).len + arg.bytes.length < 2 ^ 32 ->
      Appends s (sessUseAppend s id arg outcome).1 x arg (sessUseAppend s id arg outcome).2
  | _ => True

/-- The append fits in the buffer, or the allocator does not move it.  It is
asked of the same calls as the property. -/
def AppendStays (s : Store) : Op -> Prop
  | .useAppend id arg outcome => forall x, s.lookup id = some x -> s.Open x ->
      (s.session x).len + arg.bytes.length < 2 ^ 32 -> ¬ Relocates s x arg outcome
  | _ => True

/-- A session whose buffer is live and as large as the session says.  All open
sessions are backed in the states that the calls can reach. -/
structure Backed (s : Store) (x data : Block) : Prop where
  live : s.sessions.Live x
  owned : (s.session x).data = some data
  buffer : s.buffers.Live data
  size : (s.buffers.cell data).length = (s.session x).cap
  within : (s.session x).len ≤ (s.session x).cap

theorem Sound.backed {s : Store} (sound : Sound s) {x : Block} (isOpen : s.Open x) :
    exists data, Backed s x data := by
  have live := sound.live x isOpen
  rcases sound.buffered x isOpen with ⟨data, owned, buffer⟩
  exact ⟨data, live, owned, buffer, sound.sized x data live.1 owned, sound.within x live.1⟩

namespace Backed

variable {s : Store} {x data : Block}

theorem text_length (backed : Backed s x data) : (s.text x).length = (s.session x).len := by
  rw [Store.text, backed.owned]
  exact List.length_take_of_le (backed.within.trans backed.size.ge)

/-- The buffer starts with the text, so a copy behind the text leaves the text
as it is. -/
theorem starts (backed : Backed s x data) : s.text x <+: s.buffers.cell data := by
  rw [Store.text, backed.owned]
  exact List.take_prefix _ _

/-- The saved pointer still names the buffer: the copy puts the argument
behind the text, and the length follows it. -/
theorem copyBehind (backed : Backed s x data) (arg : Payload)
    (fits : (s.session x).len + arg.bytes.length ≤ (s.session x).cap) :
    Appends s (copyBehind s x (some data) arg ((s.session x).len + arg.bytes.length)) x arg sessOk := by
  have starts := backed.starts
  have measured := backed.text_length
  have inside : (s.session x).len + arg.bytes.length ≤ (s.buffers.cell data).length := fits.trans backed.size.ge
  have written := Heap.write_rewritten backed.buffer inside
  have session := @copyBehind_session x arg s (some data) ((s.session x).len + arg.bytes.length)
  constructor
  · intro _
    have longer : s.text x ++ arg.bytes <+: overwrite (s.buffers.cell data) (s.session x).len arg.bytes := by
      rw [← measured]
      exact starts_overwrite starts (measured ▸ inside)
    rw [Store.text, session]
    dsimp only
    rw [backed.owned]
    have cell := written.here
    change ((s.buffers.write data (s.session x).len arg.bytes).cell data).take _ = _
    rw [cell, List.prefix_iff_eq_take.mp longer, List.length_append, measured]
  · intro _
    rw [session]
  · intro _
    rw [session]
    exact ⟨data, backed.owned, (written.live data).mpr backed.buffer⟩
  · exact written.faults
  · exact (Heap.modify_faults ..).trans (congrArg Heap.faults (Heap.touch_of_live backed.live))
  · intro failed
    exact absurd rfl failed

/-- The allocator enlarges the buffer where it is, and then the saved pointer
names the enlarged buffer. -/
theorem adoptBuffer (backed : Backed s x data) {need : Nat} (larger : (s.session x).cap < need)
    (residue : Nat -> UInt8) {t : Store}
    (grown : t = adoptBuffer { s with buffers := s.buffers.modify data fun old => resize old need residue }
      x data need) :
    Backed t x data ∧ t.session x = { s.session x with data := some data, cap := need } ∧
      t.text x = s.text x ∧ t.buffers.faults = s.buffers.faults ∧ t.sessions.faults = s.sessions.faults := by
  have enlarged := Heap.modify_rewritten backed.buffer fun old => resize old need residue
  have session : t.session x = { s.session x with data := some data, cap := need } := by
    rw [grown]
    exact Store.modifySession_session_self ..
  have buffers : t.buffers = s.buffers.modify data fun old => resize old need residue := by
    rw [grown]
    rfl
  have room : (s.session x).len ≤ need := backed.within.trans (Nat.le_of_lt larger)
  refine ⟨?_, session, ?_, ?_, ?_⟩
  · constructor
    · rw [grown]
      exact (Heap.Live.congr (Heap.modify_next ..) (Heap.modify_releases ..)).mpr backed.live
    · rw [session]
    · rw [buffers]
      exact (enlarged.live data).mpr backed.buffer
    · rw [buffers, session, enlarged.here]
      exact resize_length ..
    · rw [session]
      exact room
  · have starts := starts_resize backed.starts (backed.text_length.trans_le room) residue
    rw [Store.text, session, buffers]
    dsimp only
    rw [enlarged.here, List.prefix_iff_eq_take.mp starts, backed.text_length]
  · rw [buffers]
    exact enlarged.faults
  · rw [grown]
    exact (Heap.modify_faults ..).trans (congrArg Heap.faults (Heap.touch_of_live backed.live))

end Backed

/-- Growing first changes nothing that an append is judged by: neither the
text nor the length nor the faults. -/
theorem Appends.after {s t s' : Store} {x : Block} {arg : Payload} {code : Int}
    (appends : Appends t s' x arg code) (success : code = sessOk) (text : t.text x = s.text x)
    (length : (t.session x).len = (s.session x).len) (buffers : t.buffers.faults = s.buffers.faults)
    (sessions : t.sessions.faults = s.sessions.faults) : Appends s s' x arg code where
  text := fun done => text ▸ appends.text done
  length := fun done => length ▸ appends.length done
  backed := appends.backed
  buffers := appends.buffers.trans buffers
  sessions := appends.sessions.trans sessions
  refused := fun failed => absurd success failed

/-! ## The four ways of an append -/

section Append

variable {s : Store} {x data : Block} {arg : Payload}

/-- Unless the buffer moves, the append appends: it fits, or it is refused, or
the buffer grows in place. -/
theorem appends_of_stays (backed : Backed s x data)
    (sum : (s.session x).len + arg.bytes.length < 2 ^ 32) {outcome : Realloc}
    (stays : ¬ Relocates s x arg outcome) :
    Appends s (appendSession s x arg outcome).1 x arg (appendSession s x arg outcome).2 := by
  rw [Relocates, Nat.mod_eq_of_lt sum] at stays
  rw [appendSession, Store.touchSession_of_live backed.live, Nat.mod_eq_of_lt sum]
  by_cases grows : (s.session x).cap < (s.session x).len + arg.bytes.length
  · rw [if_pos grows]
    cases outcome with
    | fails =>
        have failed : sessErr ≠ sessOk := by decide
        exact ⟨fun success => absurd success failed, fun success => absurd success failed,
          fun success => absurd success failed, rfl, rfl, fun _ => ⟨rfl, rfl⟩⟩
    | inPlace residue =>
        rw [backed.owned]
        rcases backed.adoptBuffer grows residue rfl with ⟨grown, session, text, buffers, sessions⟩
        have len := congrArg Session.len session
        have cap := congrArg Session.cap session
        dsimp only at len cap
        have copied := grown.copyBehind arg (by rw [len, cap])
        rw [len] at copied
        exact copied.after rfl text len buffers sessions
    | moves residue => exact absurd ⟨grows, rfl⟩ stays
  · rw [if_neg grows, backed.owned]
    exact backed.copyBehind arg (Nat.not_lt.mp grows)

/-- When it moves, the copy goes to the released block, and so it is a fault
of the buffers.  An argument of no bytes never makes a buffer grow. -/
theorem faults_of_relocates (backed : Backed s x data)
    (sum : (s.session x).len + arg.bytes.length < 2 ^ 32) {outcome : Realloc}
    (moves : Relocates s x arg outcome) :
    (appendSession s x arg outcome).1.buffers.faults ≠ s.buffers.faults := by
  intro faults
  rw [Relocates, Nat.mod_eq_of_lt sum] at moves
  cases outcome with
  | fails => cases moves.2
  | inPlace residue => cases moves.2
  | moves residue =>
      rw [appendSession, Store.touchSession_of_live backed.live, Nat.mod_eq_of_lt sum, if_pos moves.1,
        backed.owned] at faults
      simp only [Heap.realloc, Heap.touch_of_live backed.buffer] at faults
      have something : arg.bytes ≠ [] := by
        intro nothing
        have within := backed.within
        rw [nothing, List.length_nil] at moves
        omega
      have stale : ¬ ((s.buffers.alloc (resize (s.buffers.cell data)
          ((s.session x).len + arg.bytes.length) residue)).release data).Live data := by
        rintro ⟨_, zero⟩
        rw [Heap.release_releases_self] at zero
        cases zero
      exact Heap.write_faults_of_stale stale _ something faults

theorem appends_iff (backed : Backed s x data)
    (sum : (s.session x).len + arg.bytes.length < 2 ^ 32) (outcome : Realloc) :
    Appends s (appendSession s x arg outcome).1 x arg (appendSession s x arg outcome).2 ↔
      ¬ Relocates s x arg outcome := by
  constructor
  · intro appends moves
    exact faults_of_relocates backed sum moves appends.buffers
  · exact appends_of_stays backed sum

end Append

theorem appendAppends_iff {s : Store} (sound : Sound s) (op : Op) : AppendAppends s op ↔ AppendStays s op := by
  cases op with
  | useAppend id arg outcome =>
      apply forall_congr'
      intro x
      apply imp_congr_right
      intro found
      apply imp_congr_right
      intro isOpen
      apply imp_congr_right
      intro sum
      have looked := sound.setRecent (sound.known isOpen)
      rcases looked.backed isOpen with ⟨data, backed⟩
      rw [sessUseAppend, sessGet_found found]
      have same := appends_iff (s := { s with gRecent := some x }) backed sum outcome
      constructor
      · rintro ⟨text, length, stays, buffers, sessions, refused⟩
        exact same.mp ⟨text, length, stays, buffers, sessions, refused⟩
      · intro stays
        rcases same.mpr stays with ⟨text, length, backed, buffers, sessions, refused⟩
        exact ⟨text, length, backed, buffers, sessions, refused⟩
  | _ => exact Iff.rfl

/-- An append appends exactly when its buffer stays where it is: in every
state that the calls or the requests to the service can reach, and so at every
append of a run. -/
theorem appendAppends_iff_appendStays (ops : List Op) (found : Handler -> Bool) (events : List Event) :
    (forall op, AppendAppends (run step sessNew ops) op ↔ AppendStays (run step sessNew ops) op) ∧
    (Guarded step AppendAppends sessNew ops ↔ Guarded step AppendStays sessNew ops) ∧
    (forall op, AppendAppends (run daemonStep (sessiondNew found) events).store op ↔
      AppendStays (run daemonStep (sessiondNew found) events).store op) := by
  have keeps : forall s op, Sound s -> True -> Sound (step s op) := fun _ op sound _ => sound.step op
  refine ⟨fun op => ?_, ?_, fun op => appendAppends_iff (sound_run found events) op⟩
  · have every := throughout_of_invariant (fun _ => True) keeps sound_sessNew
      fun (op : Op) (_ : op ∈ ops) => trivial
    exact appendAppends_iff (throughout_end every) op
  · exact guarded_iff_of_invariant (fun _ => True) keeps (fun _ op sound _ => appendAppends_iff sound op)
      sound_sessNew fun _ _ => trivial

def helloSession : Store :=
  step sessNew (.opening 0 (some .echo) hello generous)

/-- Thirty bytes, which fit in a buffer of 32 only once. -/
def thirty : Payload :=
  ⟨List.replicate 30 7, by decide⟩

theorem helloThenThirty_not_appended :
    ¬ AppendAppends (run step sessNew [.opening 0 (some .echo) hello generous])
      (.useAppend 0 thirty (.moves fun _ => 0)) := by
  intro appends
  have found : helloSession.lookup 0 = some 0 := by decide +kernel
  have faults := (appends 0 found ⟨0, by decide, rfl⟩ (by decide +kernel)).buffers
  revert faults
  decide +kernel

end Revenant
end BugMuseum
