import BugMuseum.Revenant.SessTable

namespace BugMuseum
namespace Revenant

open Foundation

/-!
# The recent session

`g_recent` follows every open and every lookup, but a close does not clear it.
So the reserved handle keeps its meaning exactly as long as nobody closes the
session that was opened or looked up last.

The history variable `last` is that session.  It is computed from the calls
and the handle table, without a look at `g_recent`.
-/

structure Traced where
  store : Store
  last : Option Block

/-- The session opened or looked up last, after a call.  A lookup through the
reserved handle names the one from before. -/
def touchedBy (t : Traced) : Op -> Option Block
  | .opening type handler init grant =>
      let result := sessOpen t.store type handler init grant
      if result.2 < 0 then t.last else result.1.slotAt result.2
  | .get id => lookedUp id
  | .useRun id _ _ => lookedUp id
  | .useSet id _ => lookedUp id
  | .useAppend id _ _ => lookedUp id
  | .defer id => lookedUp id
  | .close _ => t.last
  | .stat _ _ => t.last
  | .flush _ => t.last
where
  lookedUp (id : Int) : Option Block :=
    if id = sessRecent then t.last else (t.store.slotAt id).or t.last

def tracedStep (t : Traced) (op : Op) : Traced where
  store := step t.store op
  last := touchedBy t op

def tracedNew : Traced where
  store := sessNew
  last := none

/-- The recent session is open, the reserved handle resolves to the session
opened or looked up last if that is open and to nothing otherwise, and reading
the status accesses no closed session. -/
structure RecentOpen (t : Traced) : Prop where
  recent : forall x, t.store.gRecent = some x -> t.store.slotAt (t.store.session x).id = some x
  resolvesOpen : forall x, t.last = some x -> t.store.Open x ->
    (sessGet t.store sessRecent).2 = some x
  resolvesClosed : (forall x, t.last = some x -> ¬ t.store.Open x) ->
    (sessGet t.store sessRecent).2 = none
  status : forall verbose out,
    (sessStat t.store verbose out).1.sessions.faults = t.store.sessions.faults

/-- Nobody closes the session that was opened or looked up last.  A close of
any other session, or of an empty slot, is free. -/
def ClosesNotLast (t : Traced) : Op -> Prop
  | .close id => forall x, t.store.slotAt id = some x -> t.last ≠ some x
  | _ => True

/-- The discipline: the cache agrees with the history, and its session is
open.  Only a close of that session ends it. -/
structure RecentKept (t : Traced) : Prop where
  sound : Sound t.store
  agrees : t.store.gRecent = t.last
  opened : forall x, t.last = some x -> t.store.Open x

theorem sessGet_recent (s : Store) : (sessGet s sessRecent).2 = s.gRecent := by
  rw [sessGet, if_pos rfl]

namespace RecentKept

variable {t : Traced}

theorem recentOpen (kept : RecentKept t) : RecentOpen t where
  recent := fun x named => kept.sound.open_known_slot (kept.opened x (kept.agrees ▸ named))
  resolvesOpen := fun x named _ => (sessGet_recent t.store).trans (kept.agrees.trans named)
  resolvesClosed := fun closed => by
    rw [sessGet_recent, kept.agrees]
    cases named : t.last with
    | none => rfl
    | some x => exact absurd (kept.opened x named) (closed x named)
  status := fun verbose out => by
    rcases sessStat_frame t.store verbose out with same | ⟨x, named, same⟩
    · rw [same]
    · have live := kept.sound.live x (kept.opened x (kept.agrees ▸ named))
      rw [same, Store.touchSession_of_live live]

/-- A lookup through any handle leaves the cache and the history in
agreement. -/
theorem lookedUp (kept : RecentKept t) (id : Int) :
    touchedBy.lookedUp t id = (t.store.lookup id).or t.store.gRecent := by
  rw [touchedBy.lookedUp, Store.lookup, kept.agrees]
  split
  · cases t.last <;> rfl
  · rfl

theorem lookup_open (kept : RecentKept t) {id : Int} {x : Block} (found : t.store.lookup id = some x) :
    t.store.Open x := by
  unfold Store.lookup at found
  split at found
  · exact kept.opened x (kept.agrees ▸ found)
  · exact Store.slotAt_open found

/-- The calls that take a handle: a lookup, and then no change of the
table. -/
theorem handled (kept : RecentKept t) {op : Op} {id : Int} (handled : op.handle = some id) :
    RecentKept (tracedStep t op) := by
  have sound := kept.sound.step op
  have touches : touchedBy t op = touchedBy.lookedUp t id := by
    cases op <;> cases handled <;> rfl
  have last : (tracedStep t op).last = (t.store.lookup id).or t.store.gRecent :=
    touches.trans (kept.lookedUp id)
  cases named : t.store.lookup id with
  | none =>
      have same : (tracedStep t op).store = t.store := step_absent handled named
      rw [named, Option.none_or] at last
      refine ⟨sound, ?_, fun x known => ?_⟩
      · rw [same, last]
      · rw [same]
        exact kept.opened x (kept.agrees ▸ last ▸ known)
  | some x =>
      have after : (tracedStep t op).store = op.act { t.store with gRecent := some x } x :=
        step_found handled named
      have known : Known { t.store with gRecent := some x } x := kept.sound.lookup_known named
      have table := known.act_table op
      rw [← after] at table
      rw [named, Option.some_or] at last
      refine ⟨sound, table.2.trans last.symm, fun y latest => ?_⟩
      rw [last] at latest
      cases latest
      rw [Store.Open, table.1]
      exact kept.lookup_open named

theorem opening (kept : RecentKept t) (type : Int) (handler : Option Handler) (init : Payload)
    (grant : Nat -> Grant) : RecentKept (tracedStep t (.opening type handler init grant)) := by
  have sound := kept.sound.step (.opening type handler init grant)
  have failed : forall after, sessOpen t.store type handler init grant = (after, sessErr) ->
      after.slots = t.store.slots -> after.gRecent = t.store.gRecent ->
      RecentKept (tracedStep t (.opening type handler init grant)) := by
    intro after result slots recent
    have last : (tracedStep t (.opening type handler init grant)).last = t.last := by
      simp only [tracedStep, touchedBy, result]
      rfl
    have store : (tracedStep t (.opening type handler init grant)).store = after :=
      congrArg Prod.fst result
    refine ⟨sound, ?_, fun x known => ?_⟩
    · rw [store, last, recent, kept.agrees]
    · rw [store, Store.Open, slots]
      exact kept.opened x (last ▸ known)
  rcases sessOpen_cases t.store type handler init grant with result | ⟨id, chosen, cap, result⟩ |
    ⟨id, session, content, opened, _, returned⟩
  · exact failed _ result rfl rfl
  · exact failed _ result rfl rfl
  · have isOpen : (step t.store (.opening type handler init grant)).Open t.store.sessions.next :=
      (opened.open_iff _).mpr (Or.inr rfl)
    have last : (tracedStep t (.opening type handler init grant)).last =
        some t.store.sessions.next := by
      simp only [tracedStep, touchedBy, returned]
      rw [if_neg (by omega), Store.slotAt_natCast _ (firstFree_some opened.slot).1, opened.slots,
        Function.update_self]
    refine ⟨sound, opened.gRecent.trans last.symm, fun x known => ?_⟩
    rw [last] at known
    cases known
    exact isOpen

/-- One call that keeps the last session open keeps the discipline. -/
theorem step (kept : RecentKept t) {op : Op} (condition : ClosesNotLast t op) :
    RecentKept (tracedStep t op) := by
  have sound := kept.sound.step op
  cases op with
  | opening type handler init grant => exact kept.opening type handler init grant
  | get id => exact kept.handled rfl
  | useRun id arg out => exact kept.handled rfl
  | useSet id arg => exact kept.handled rfl
  | useAppend id arg outcome => exact kept.handled rfl
  | defer id => exact kept.handled rfl
  | close id =>
      cases found : t.store.slotAt id with
      | none =>
          have same : Revenant.step t.store (.close id) = t.store := by
            simp only [Revenant.step, sessClose, found]
          refine ⟨sound, ?_, ?_⟩ <;> rw [tracedStep, same]
          · exact kept.agrees
          · exact kept.opened
      | some x =>
          have slot := (Store.slotAt_some found).2.2
          have closed : Revenant.step t.store (.close id) = closeHeld t.store id.toNat x := by
            simp only [Revenant.step, sessClose, found]
          refine ⟨sound, ?_, fun y named => ?_⟩ <;> rw [tracedStep, closed]
          · exact kept.agrees
          · have isOpen := kept.opened y named
            exact (kept.sound.closeHeld_open slot y).mpr
              ⟨isOpen, fun same => condition x found (same ▸ named)⟩
  | stat verbose out =>
      rcases sessStat_frame t.store verbose out with same | ⟨x, _, same⟩
      · refine ⟨sound, ?_, ?_⟩ <;> rw [tracedStep, Revenant.step, same]
        · exact kept.agrees
        · exact kept.opened
      · refine ⟨sound, ?_, ?_⟩ <;> rw [tracedStep, Revenant.step, same]
        · exact kept.agrees
        · exact kept.opened
  | flush arg => exact ⟨sound, kept.agrees, kept.opened⟩

end RecentKept

/-- After the close the cache still names the closed session, and the status
would read it. -/
theorem not_recentOpen_of_close {t : Traced} (kept : RecentKept t) {op : Op}
    (missed : ¬ ClosesNotLast t op) : ¬ RecentOpen (tracedStep t op) := by
  cases op with
  | close id =>
      simp only [ClosesNotLast, not_forall, not_not] at missed
      rcases missed with ⟨x, found, named⟩
      have slot := (Store.slotAt_some found).2.2
      have closed : step t.store (.close id) = closeHeld t.store id.toNat x := by
        simp only [step, sessClose, found]
      intro opened
      have held := opened.recent x
      simp only [tracedStep, closed] at held
      have recent : (closeHeld t.store id.toNat x).gRecent = some x := kept.agrees.trans named
      have isOpen := Store.slotAt_open (held recent)
      exact ((kept.sound.closeHeld_open slot x).mp isOpen).2 rfl
  | opening _ _ _ _ => exact absurd trivial missed
  | get _ => exact absurd trivial missed
  | useRun _ _ _ => exact absurd trivial missed
  | useSet _ _ => exact absurd trivial missed
  | useAppend _ _ _ => exact absurd trivial missed
  | defer _ => exact absurd trivial missed
  | stat _ _ => exact absurd trivial missed
  | flush _ => exact absurd trivial missed

/-! ## Exactly the runs whose recent session is open -/

theorem recent_guard :
    ExactGuard tracedStep (fun _ => True) RecentKept RecentOpen ClosesNotLast where
  safe := fun _ kept => kept.recentOpen
  keeps := fun _ _ kept _ condition => kept.step condition
  breaks := fun _ _ kept _ missed => not_recentOpen_of_close kept missed

/-- The reserved handle and the status keep their meaning exactly in the runs
that never close the session opened or looked up last.  `SessClose` frees that
session and leaves the global that names it. -/
theorem recentOpen_iff_closesNotLast (ops : List Op) :
    Throughout tracedStep RecentOpen tracedNew ops ↔ Guarded tracedStep ClosesNotLast tracedNew ops :=
  recent_guard.throughout_iff
    ⟨sound_sessNew, rfl, fun _ impossible => by cases impossible⟩ fun _ _ => trivial

def openThenClose : List Op :=
  [.opening 0 (some .echo) hello generous, .close 0]

theorem openThenClose_recent_closed : ¬ Throughout tracedStep RecentOpen tracedNew openThenClose := by
  intro every
  have held := (throughout_end every).recent 0
  have named : (run tracedStep tracedNew openThenClose).store.gRecent = some 0 := by decide +kernel
  have cleared : (run tracedStep tracedNew openThenClose).store.slotAt
      ((run tracedStep tracedNew openThenClose).store.session 0).id = none := by decide +kernel
  exact absurd (held named) (by rw [cleared]; simp)

end Revenant
end BugMuseum
