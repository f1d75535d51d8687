import BugMuseum.Revenant.Connections
import BugMuseum.Revenant.Requests

namespace BugMuseum
namespace Revenant

open Foundation

/-!
# Requests that ask for a deferred write

`FLAG_DEFER` asks a use to record its session in the deferred batch as well.  The
use and the recording find their sessions separately.  The use may go through the
current session of its connection; `SessDefer` always asks the store.  And
`h_use_append` does not look at the flag at all.

A flagged use is therefore recorded exactly when it is no append and, where it
went through the current session of a pipe, that session is also the recent one.
No two sessions have the same buffer, so the entry of another session is never
the right one by accident.
-/

def Request.isUse (r : Request) : Prop :=
  r.op = opUseRun ∨ r.op = opUseSet ∨ r.op = opUseAppend

/-- The session that a use acts on.  An append does not go through the current
session of its connection. -/
def usedSession (s : Store) (c : Conn) (r : Request) : Option Block :=
  if r.uses ∧ cached c r then c.cur else s.lookup r.id

/-- There is a session to act on, and an append gets the memory it asks
for. -/
def UseSucceeds (s : Store) (c : Conn) (r : Request) (outcome : Realloc) : Prop :=
  usedSession s c r ≠ none ∧ (r.op = opUseAppend -> (sessUseAppend s r.id r.arg outcome).2 = sessOk)

/-- What follows from a use is recorded as its flag says: one entry for the
session that was used, as it is afterwards, or no change at all. -/
def Recorded (s s' : Store) (c : Conn) (r : Request) : Prop :=
  if r.type &&& flagDefer ≠ 0 then
    exists x, usedSession s c r = some x ∧
      s'.batch = s.batch ++ [((s'.session x).data, (s'.session x).len)]
  else s'.batch = s.batch

/-- A successful use, in a state that refers to no released session and has
room in its batch.  Of other uses nothing is promised. -/
structure OrderlyUse (d : Daemon) (k : Nat) (c : Conn) (r : Request) (outcome : Realloc) : Prop where
  connected : d.conns k = some c
  short : r.arg.bytes.length ≤ sessMaxArg
  isUse : r.isUse
  succeeds : UseSucceeds d.store c r outcome
  recent : forall x, d.store.gRecent = some x -> d.store.Open x
  current : forall other conn x, d.conns other = some conn -> conn.cur = some x -> d.store.Open x
  room : d.store.batch.length < deferMax

/-- The promise of the flag, for the uses among the events. -/
def UseRecorded (d : Daemon) : Event -> Prop
  | .request k r grant outcome => forall c, OrderlyUse d k c r outcome ->
      Recorded d.store (daemonStep d (.request k r grant outcome)).store c r
  | _ => True

/-- A flagged use is no append, and a pipe defers through its current session
only while that session is the recent one. -/
def DefersUsed (d : Daemon) : Event -> Prop
  | .request k r _ outcome => forall c, OrderlyUse d k c r outcome -> r.type &&& flagDefer ≠ 0 ->
      r.op ≠ opUseAppend ∧ (cached c r -> d.store.gRecent = c.cur)
  | _ => True

theorem usedSession_uses {s : Store} {c : Conn} {r : Request} (uses : r.uses) :
    usedSession s c r = if cached c r then c.cur else s.lookup r.id := by
  simp only [usedSession, uses, true_and]

theorem usedSession_append {s : Store} {c : Conn} {r : Request} (appending : r.op = opUseAppend) :
    usedSession s c r = s.lookup r.id := by
  have other : ¬ r.uses := by
    rw [Request.uses, appending]
    decide
  rw [usedSession, if_neg fun both => other both.1]

/-- A use that does not succeed is answered with an error, so the client can
tell that nothing is promised of it. -/
theorem failed_reply {plugins : Nat -> Option Handler} {s : Store} {c : Conn} {r : Request}
    (isUse : r.isUse) (grant : Nat -> Grant) {outcome : Realloc} (failed : ¬ UseSucceeds s c r outcome) :
    (dispatch plugins s c r grant outcome).2.2 ∈ [ascii "ERR\n", ascii "ERR no current\n"] := by
  have absent : r.op ≠ opUseAppend -> usedSession s c r = none := by
    intro other
    by_contra present
    exact failed ⟨present, fun appending => absurd appending other⟩
  rcases isUse with running | setting | appending
  · have missing := absent (by rw [running]; decide)
    rw [usedSession_uses (Or.inl running)] at missing
    rw [dispatch_useRun _ _ _ _ _ running, hUseRun]
    by_cases through : cached c r
    · rw [if_pos through] at missing
      rw [if_pos through, missing]
      exact List.mem_cons_of_mem _ List.mem_cons_self
    · rw [if_neg through] at missing
      rw [if_neg through, sessUseRun, sessGet_absent missing]
      exact List.mem_cons_self
  · have missing := absent (by rw [setting]; decide)
    rw [usedSession_uses (Or.inr setting)] at missing
    rw [dispatch_useSet _ _ _ _ _ setting, hUseSet]
    by_cases through : cached c r
    · rw [if_pos through] at missing
      rw [if_pos through, missing]
      exact List.mem_cons_of_mem _ List.mem_cons_self
    · rw [if_neg through] at missing
      rw [if_neg through, sessUseSet, sessGet_absent missing]
      exact List.mem_cons_self
  · have refused : (sessUseAppend s r.id r.arg outcome).2 ≠ sessOk := by
      intro accepted
      refine failed ⟨fun missing => ?_, fun _ => accepted⟩
      rw [usedSession_append appending] at missing
      rw [sessUseAppend, sessGet_absent missing] at accepted
      cases accepted
    rw [dispatch_useAppend _ _ _ _ _ appending, hUseAppend, if_pos refused]
    exact List.mem_cons_self

/-- The store after the use itself: the batch is as before, and the handle
finds the session that was used, unless the use went through the current
session. -/
structure Used (s s' : Store) (c : Conn) (r : Request) (x : Block) : Prop where
  sound : Sound s'
  known : Known s' x
  batch : s'.batch = s.batch
  named : s'.lookup r.id = if cached c r then s.gRecent else some x

section Use

variable {s s' : Store} {c : Conn} {r : Request} {x : Block}

theorem Used.through (sound : Sound s) (known : Known s x) (through : cached c r)
    (frame : ShapeFrame s s') : Used s s' c r x where
  sound := sound.shape frame
  known := (frame.known_iff x).mpr known
  batch := frame.batch
  named := by rw [if_pos through, Store.lookup, if_pos through.2, frame.gRecent]

theorem Used.direct (sound : Sound s) (found : s.lookup r.id = some x) (direct : ¬ cached c r)
    (frame : ShapeFrame { s with gRecent := some x } s') : Used s s' c r x where
  sound := (sound.setRecent (sound.lookup_known found)).shape frame
  known := (frame.known_iff x).mpr (sound.lookup_known found)
  batch := frame.batch
  named := by
    rw [if_neg direct]
    unfold Store.lookup at found ⊢
    split
    · exact frame.gRecent
    · rename_i ordinary
      rw [if_neg ordinary] at found
      rw [Store.slotAt, frame.slots]
      exact found

/-- A run or a set is a use of its session, and the flag decides what
follows. -/
theorem dispatch_used (plugins : Nat -> Option Handler) (sound : Sound s) (uses : r.uses)
    (grant : Nat -> Grant) (outcome : Realloc) (used : usedSession s c r = some x) (known : Known s x) :
    exists s', Used s s' c r x ∧ (dispatch plugins s c r grant outcome).1 = deferFlagged s' r := by
  rw [usedSession_uses uses] at used
  by_cases through : cached c r
  · rw [if_pos through] at used
    rcases uses with running | setting
    · refine ⟨_, .through sound known through (runSession_frame s x r.arg (List.replicate 256 0)), ?_⟩
      have returned := (s.session x).handler.call_nonneg r.arg.bytes (List.replicate 256 0)
      rw [dispatch_useRun _ _ _ _ _ running, hUseRun, if_pos through, used]
      exact congrArg Prod.fst (if_neg (Int.not_lt.mpr returned))
    · refine ⟨_, .through sound known through (setSession_frame s x r.arg), ?_⟩
      rw [dispatch_useSet _ _ _ _ _ setting, hUseSet, if_pos through, used]
  · rw [if_neg through] at used
    rw [dispatch_store plugins s grant outcome fun _ => through, if_pos uses]
    refine ⟨_, .direct sound used through ?_, rfl⟩
    rcases uses with running | setting
    · have called : r.call plugins (verboseFor c r) grant outcome =
          .useRun r.id r.arg (List.replicate 256 0) := by
        rw [Request.call, running]
        rfl
      rw [called, step_found rfl used]
      exact runSession_frame _ x r.arg _
    · have called : r.call plugins (verboseFor c r) grant outcome = .useSet r.id r.arg := by
        rw [Request.call, setting]
        rfl
      rw [called, step_found rfl used]
      exact setSession_frame _ x r.arg

/-- An append leaves the batch alone, flagged or not. -/
theorem dispatch_append_batch (plugins : Nat -> Option Handler) (sound : Sound s)
    (appending : r.op = opUseAppend) (grant : Nat -> Grant) (outcome : Realloc)
    (used : usedSession s c r = some x) :
    (dispatch plugins s c r grant outcome).1.batch = s.batch := by
  rw [usedSession_append appending] at used
  rw [dispatch_useAppend _ _ _ _ _ appending, hUseAppend_store, step_found rfl used]
  exact ((sound.lookup_known used).appendSession_frame (s := { s with gRecent := some x }) r.arg outcome).batch

/-! ## Recording -/

/-- The entry that is recorded is that of the session the handle finds, with
its buffer and its length. -/
theorem deferFlagged_entry (flagged : r.type &&& flagDefer ≠ 0) (found : s.lookup r.id = some x)
    (room : s.batch.length < deferMax) :
    (deferFlagged s r).batch = s.batch ++ [((s.session x).data, (s.session x).len)] ∧
      forall y, (deferFlagged s r).session y = s.session y := by
  have deferred : deferFlagged s r = (Op.defer r.id).act { s with gRecent := some x } x := by
    rw [deferFlagged, if_pos flagged]
    exact step_found (rfl : (Op.defer r.id).handle = some r.id) found
  rw [deferred, Op.act, if_neg (Nat.not_le.mpr room)]
  exact ⟨congrArg (fun session => s.batch ++ [(session.data, session.len)])
    (Store.touchSession_session { s with gRecent := some x } x x),
    Store.touchSession_session { s with gRecent := some x } x⟩

theorem not_recorded_of_batch (flagged : r.type &&& flagDefer ≠ 0) (batch : s'.batch = s.batch) :
    ¬ Recorded s s' c r := by
  rw [Recorded, if_pos flagged, batch]
  rintro ⟨_, _, entry⟩
  exact List.cons_ne_nil _ _ (List.self_eq_append_right.mp entry)

theorem recorded_unflagged (unflagged : ¬ r.type &&& flagDefer ≠ 0) :
    Recorded s s' c r ↔ s'.batch = s.batch := by
  rw [Recorded, if_neg unflagged]

/-- A flagged run or set records its session exactly when the handle finds it
afterwards.  No other session has the same buffer. -/
theorem recorded_deferFlagged_iff (used : Used s s' c r x) (target : usedSession s c r = some x)
    (flagged : r.type &&& flagDefer ≠ 0) (room : s.batch.length < deferMax) :
    Recorded s (deferFlagged s' r) c r ↔ s'.lookup r.id = some x := by
  have room' : s'.batch.length < deferMax := used.batch.symm ▸ room
  cases found : s'.lookup r.id with
  | none =>
      rw [deferFlagged_absent found]
      exact iff_of_false (not_recorded_of_batch flagged used.batch) nofun
  | some y =>
      rcases deferFlagged_entry flagged found room' with ⟨batch, sessions⟩
      rw [Recorded, if_pos flagged, target, batch, used.batch]
      constructor
      · rintro ⟨z, same, entry⟩
        cases same
        have single := List.append_cancel_left entry
        rw [sessions] at single
        have buffer := congrArg Prod.fst (List.cons.inj single).1
        have others := used.sound.lookup_known found
        rcases others.2 with ⟨data, owned⟩
        exact congrArg some (used.sound.sole y x data others.1 used.known.1 owned (buffer.symm.trans owned))
      · intro same
        cases same
        exact ⟨x, rfl, by rw [sessions]⟩

end Use

section Event

variable {d : Daemon} {k : Nat} {c : Conn} {r : Request} {outcome : Realloc}

theorem OrderlyUse.known (use : OrderlyUse d k c r outcome) (sound : Sound d.store) {x : Block}
    (used : usedSession d.store c r = some x) : Known d.store x := by
  unfold usedSession at used
  split at used
  · exact sound.known (use.current k c x use.connected used)
  · exact sound.lookup_known used

theorem OrderlyUse.store (use : OrderlyUse d k c r outcome) (grant : Nat -> Grant) :
    (daemonStep d (.request k r grant outcome)).store = (dispatch d.plugins d.store c r grant outcome).1 := by
  have accepted : ¬ r.op > opFlush := by
    rcases use.isUse with same | same | same <;> rw [same] <;> decide
  rw [daemonStep, use.connected]
  dsimp only
  rw [serveRequest, if_neg (Nat.not_lt.mpr use.short), if_neg accepted]

/-- One use is recorded exactly when it meets the condition. -/
theorem OrderlyUse.recorded_iff (use : OrderlyUse d k c r outcome) (sound : Sound d.store)
    (grant : Nat -> Grant) :
    Recorded d.store (daemonStep d (.request k r grant outcome)).store c r ↔
      (r.type &&& flagDefer ≠ 0 ->
        r.op ≠ opUseAppend ∧ (cached c r -> d.store.gRecent = c.cur)) := by
  rcases Option.ne_none_iff_exists'.mp use.succeeds.1 with ⟨x, used⟩
  rw [use.store grant]
  by_cases appending : r.op = opUseAppend
  · have batch := dispatch_append_batch d.plugins sound appending grant outcome used
    by_cases flagged : r.type &&& flagDefer ≠ 0
    · exact iff_of_false (not_recorded_of_batch flagged batch) fun condition =>
        (condition flagged).1 appending
    · exact iff_of_true ((recorded_unflagged flagged).mpr batch) fun asked => absurd asked flagged
  · have uses : r.uses := by
      rcases use.isUse with running | setting | other
      · exact Or.inl running
      · exact Or.inr setting
      · exact absurd other appending
    rcases dispatch_used d.plugins sound uses grant outcome used (use.known sound used) with
      ⟨s', after, store⟩
    rw [store]
    by_cases flagged : r.type &&& flagDefer ≠ 0
    · rw [recorded_deferFlagged_iff after used flagged use.room, after.named]
      rw [usedSession_uses uses] at used
      by_cases through : cached c r
      · rw [if_pos through] at used ⊢
        rw [used]
        exact ⟨fun recent _ => ⟨appending, fun _ => recent⟩, fun condition => (condition flagged).2 through⟩
      · rw [if_neg through]
        exact iff_of_true rfl fun _ => ⟨appending, fun current => absurd current through⟩
    · rw [deferFlagged_unflagged (not_not.mp flagged)]
      exact iff_of_true ((recorded_unflagged flagged).mpr after.batch) fun asked => absurd asked flagged

theorem useRecorded_iff_of_sound (sound : Sound d.store) (event : Event) :
    UseRecorded d event ↔ DefersUsed d event := by
  cases event with
  | connect _ _ => exact Iff.rfl
  | disconnect _ => exact Iff.rfl
  | request k r grant outcome =>
      constructor
      · exact fun recorded c use => (use.recorded_iff sound grant).mp (recorded c use)
      · exact fun condition c use => (use.recorded_iff sound grant).mpr (condition c use)

end Event

/-- Along every run, a flagged use is recorded exactly when it is no append
and does not go through a current session other than the recent one; a use
without the flag never touches the batch.  This holds for each event of a run,
and so for all of them. -/
theorem useRecorded_iff_defersUsed (found : Handler -> Bool) (events : List Event) :
    (Guarded daemonStep UseRecorded (sessiondNew found) events ↔
      Guarded daemonStep DefersUsed (sessiondNew found) events) ∧
    forall event, UseRecorded (run daemonStep (sessiondNew found) events) event ↔
      DefersUsed (run daemonStep (sessiondNew found) events) event := by
  have keeps : forall d event, Sound (Daemon.store d) -> True -> Sound (daemonStep d event).store :=
    fun d event sound _ => sound.event event
  refine ⟨?_, fun event => ?_⟩
  · exact guarded_iff_of_invariant (fun _ => True) keeps
      (fun d event sound _ => useRecorded_iff_of_sound sound event) sound_sessNew fun _ _ => trivial
  · exact useRecorded_iff_of_sound (sound_run found events) event

theorem request_conns_of_ne (d : Daemon) {k other : Nat} (r : Request) (grant : Nat -> Grant)
    (outcome : Realloc) (different : other ≠ k) :
    (daemonStep d (.request k r grant outcome)).conns other = d.conns other := by
  rw [daemonStep]
  split
  · rfl
  · rw [serveRequest]
    split
    · exact Function.update_of_ne different ..
    · split
      · rfl
      · exact Function.update_of_ne different ..

def flaggedRequest (op : UInt8) (handle : UInt16) : Request :=
  ⟨op, flagDefer, handle, hello⟩

/-- One TCP connection has opened a session. -/
def helloDaemon : Daemon :=
  daemonStep (daemonStep (sessiondNew fun _ => true) (.connect 0 true))
    (.request 0 (helloRequest opOpen 0) generous .fails)

theorem helloDaemon_append : exists c,
    OrderlyUse helloDaemon 0 c (flaggedRequest opUseAppend 0) (.inPlace fun _ => 0) := by
  have fields : (helloDaemon.conns 0).map (fun c => (c.isTcp, c.cur)) = some (true, none) := by
    decide +kernel
  have recent : helloDaemon.store.gRecent = some 0 := by decide +kernel
  have isOpen : helloDaemon.store.Open 0 := ⟨0, by decide, by decide +kernel⟩
  rcases Option.map_eq_some_iff.mp fields with ⟨c, connected, same⟩
  rw [Prod.mk.injEq] at same
  refine ⟨c, connected, by decide, Or.inr (Or.inr rfl), ⟨?_, fun _ => ?_⟩, ?_, ?_, ?_⟩
  · rw [usedSession_append rfl]
    decide +kernel
  · decide +kernel
  · intro x named
    rw [recent] at named
    cases named
    exact isOpen
  · intro other conn x present current
    by_cases first : other = 0
    · rw [first, connected] at present
      cases present
      rw [same.2] at current
      cases current
    · have absent : helloDaemon.conns other = none :=
        (request_conns_of_ne _ _ _ _ first).trans (Function.update_of_ne first ..)
      rw [absent] at present
      cases present
  · decide +kernel

def openThenFlaggedAppend : List Event :=
  [.connect 0 true, .request 0 (helloRequest opOpen 0) generous .fails,
    .request 0 (flaggedRequest opUseAppend 0) generous (.inPlace fun _ => 0)]

theorem openThenFlaggedAppend_unrecorded :
    ¬ Guarded daemonStep UseRecorded (sessiondNew fun _ => true) openThenFlaggedAppend := by
  intro every
  rcases helloDaemon_append with ⟨c, use⟩
  have connected : Sound (daemonStep (sessiondNew fun _ => true) (.connect 0 true)).store :=
    Sound.event (d := sessiondNew fun _ => true) sound_sessNew _
  have sound : Sound helloDaemon.store := connected.event _
  have recorded := every.2.2.1 c use
  exact ((use.recorded_iff sound generous).mp recorded (by decide)).1 rfl

end Revenant
end BugMuseum
