import BugMuseum.Revenant.Connections
import BugMuseum.Revenant.Requests

namespace BugMuseum
namespace Revenant

open Foundation

/-!
# The current session of a pipe

A run or a set with the reserved handle goes, on a pipe, straight to the session
that the connection remembers.  With the handle of that session it goes through
`SessGet`.  The two do the same to the session and reply the same.  But a lookup
also notes its session in `g_recent`, and the direct way does not, so the two agree
exactly when that note is there already.
-/

/-- A run or a set, without the flag, that the connection `k` sends through
its current session, which is open. -/
structure ThroughCurrent (d : Daemon) (k : Nat) (c : Conn) (x : Block) (r : Request) : Prop where
  connected : d.conns k = some c
  pipe : c.isTcp = false
  current : c.cur = some x
  isOpen : d.store.Open x
  uses : r.uses
  unflagged : r.type &&& flagDefer = 0
  reserved : r.id = sessRecent

/-- The same request with the handle of the session is answered alike and
leaves the same server, connections included. -/
def CachedAgrees (d : Daemon) : Event -> Prop
  | .request k r grant outcome => forall c x, ThroughCurrent d k c x r ->
      forall handle : UInt16, (handle.toNat : Int) = (d.store.session x).id ->
        serveRequest d k c r grant outcome = serveRequest d k c { r with handle } grant outcome
  | _ => True

/-- The current session is also the recent one, or the request is refused for
the length of its argument. -/
def TouchedLast (d : Daemon) : Event -> Prop
  | .request k r _ _ => forall c x, ThroughCurrent d k c x r ->
      r.arg.bytes.length > sessMaxArg ∨ d.store.gRecent = some x
  | _ => True

namespace ThroughCurrent

variable {d : Daemon} {k : Nat} {c : Conn} {x : Block} {r : Request}

theorem cached (through : ThroughCurrent d k c x r) : cached c r :=
  ⟨through.pipe, through.reserved⟩

/-- The handle of an open session names it, and is not the reserved one. -/
theorem lookup (through : ThroughCurrent d k c x r) (sound : Sound d.store) {handle : UInt16}
    (named : (handle.toNat : Int) = (d.store.session x).id) :
    d.store.lookup handle.toNat = some x ∧ ((handle.toNat : Nat) : Int) ≠ sessRecent := by
  have slot := sound.open_known_slot through.isOpen
  have inside := (Store.slotAt_some slot).2.1
  rw [← named] at slot inside
  have ordinary : (handle.toNat : Int) ≠ sessRecent := by
    rw [sessRecent]
    rw [sessMax] at inside
    omega
  rw [Store.lookup, if_neg ordinary]
  exact ⟨slot, ordinary⟩

/-- What the direct way does, with the note that the lookup makes.  Apart from
that note the two ways are one. -/
theorem dispatch_handle (through : ThroughCurrent d k c x r) (sound : Sound d.store) {handle : UInt16}
    (named : (handle.toNat : Int) = (d.store.session x).id) (grant : Nat -> Grant) (outcome : Realloc) :
    dispatch d.plugins d.store c { r with handle } grant outcome =
      ({ (dispatch d.plugins d.store c r grant outcome).1 with gRecent := some x },
        (dispatch d.plugins d.store c r grant outcome).2) := by
  obtain ⟨other, otherEq⟩ : exists other, other = { r with handle } := ⟨_, rfl⟩
  have id : other.id = handle.toNat := otherEq ▸ rfl
  have arg : other.arg = r.arg := otherEq ▸ rfl
  have unflagged : other.type &&& flagDefer = 0 := by
    rw [otherEq]
    exact through.unflagged
  rcases through.lookup sound named with ⟨found, ordinary⟩
  rw [← id] at found ordinary
  have direct : ¬ Revenant.cached c other := fun both => ordinary both.2
  rw [← otherEq]
  rcases through.uses with running | setting
  · have alsoRunning : other.op = opUseRun := otherEq ▸ running
    rw [dispatch_useRun _ _ _ _ _ running, dispatch_useRun _ _ _ _ _ alsoRunning, hUseRun, hUseRun,
      if_neg direct, if_pos through.cached, through.current, sessUseRun, sessGet_found found, arg]
    simp only [finishRun, deferFlagged_unflagged unflagged, deferFlagged_unflagged through.unflagged]
    have ran : runSession { d.store with gRecent := some x } x r.arg (List.replicate 256 0) =
        ({ (runSession d.store x r.arg (List.replicate 256 0)).1 with gRecent := some x },
          (runSession d.store x r.arg (List.replicate 256 0)).2) := rfl
    rw [ran]
    split <;> rfl
  · have alsoSetting : other.op = opUseSet := otherEq ▸ setting
    rw [dispatch_useSet _ _ _ _ _ setting, dispatch_useSet _ _ _ _ _ alsoSetting, hUseSet, hUseSet,
      if_neg direct, if_pos through.cached, through.current, arg]
    simp only [sessUseSet, sessGet_found found, ne_eq, not_true_eq_false, if_false,
      deferFlagged_unflagged unflagged, deferFlagged_unflagged through.unflagged]
    rfl

/-- The direct way leaves the recent session alone, which is why the two can
differ at all. -/
theorem dispatch_gRecent (through : ThroughCurrent d k c x r) (grant : Nat -> Grant) (outcome : Realloc) :
    (dispatch d.plugins d.store c r grant outcome).1.gRecent = d.store.gRecent := by
  rcases through.uses with running | setting
  · rw [dispatch_useRun _ _ _ _ _ running, hUseRun, if_pos through.cached, through.current]
    dsimp only
    rw [finishRun, deferFlagged_unflagged through.unflagged]
    split <;> rfl
  · rw [dispatch_useSet _ _ _ _ _ setting, hUseSet, if_pos through.cached, through.current]
    dsimp only
    rw [deferFlagged_unflagged through.unflagged]
    rfl

theorem accepted (through : ThroughCurrent d k c x r) : ¬ r.op > opFlush := by
  rcases through.uses with running | setting
  · rw [running]
    decide
  · rw [setting]
    decide

theorem agrees_iff (through : ThroughCurrent d k c x r) (sound : Sound d.store) {handle : UInt16}
    (named : (handle.toNat : Int) = (d.store.session x).id) (grant : Nat -> Grant) (outcome : Realloc) :
    serveRequest d k c r grant outcome = serveRequest d k c { r with handle } grant outcome ↔
      r.arg.bytes.length > sessMaxArg ∨ d.store.gRecent = some x := by
  by_cases big : r.arg.bytes.length > sessMaxArg
  · rw [serveRequest, serveRequest, if_pos big, if_pos big]
    exact iff_of_true rfl (Or.inl big)
  · have same := through.dispatch_handle sound named grant outcome
    have kept := through.dispatch_gRecent grant outcome
    rw [serveRequest, serveRequest, if_neg big, if_neg big, if_neg through.accepted,
      if_neg through.accepted]
    dsimp only
    rw [same, or_iff_right big]
    constructor
    · intro agrees
      have recent := congrArg (fun served : Daemon × Bytes => served.1.store.gRecent) agrees
      exact kept.symm.trans recent
    · intro recent
      rw [← kept] at recent
      rw [← recent]

end ThroughCurrent

/-! ## Every run -/

/-- The handle of an open session is a handle of the wire, so there is a
request to compare with. -/
theorem handle_of_open {s : Store} (sound : Sound s) {x : Block} (isOpen : s.Open x) :
    exists handle : UInt16, (handle.toNat : Int) = (s.session x).id := by
  rcases Store.slotAt_some (sound.open_known_slot isOpen) with ⟨natural, inside, _⟩
  refine ⟨UInt16.ofNat (s.session x).id.toNat, ?_⟩
  have small : (s.session x).id.toNat < 2 ^ 16 := Nat.lt_trans inside (by decide)
  rw [UInt16.toNat_ofNat_of_lt' small, natural]

theorem cachedAgrees_iff_of_sound {d : Daemon} (sound : Sound d.store) (event : Event) :
    CachedAgrees d event ↔ TouchedLast d event := by
  cases event with
  | connect k isTcp => exact Iff.rfl
  | disconnect k => exact Iff.rfl
  | request k r grant outcome =>
      constructor
      · intro agrees c x through
        rcases handle_of_open sound through.isOpen with ⟨handle, named⟩
        exact (through.agrees_iff sound named grant outcome).mp (agrees c x through handle named)
      · intro touched c x through handle named
        exact (through.agrees_iff sound named grant outcome).mpr (touched c x through)

/-- In every state that the connections can bring about, a run or a set
through the current session of a pipe does what it does with the handle of
that session exactly when that session is the recent one, or the argument is
refused.  This holds for each request after a run, and so for all requests of
a run. -/
theorem cachedAgrees_iff_touchedLast (found : Handler -> Bool) (events : List Event) :
    (Guarded daemonStep CachedAgrees (sessiondNew found) events ↔
      Guarded daemonStep TouchedLast (sessiondNew found) events) ∧
    forall event, CachedAgrees (run daemonStep (sessiondNew found) events) event ↔
      TouchedLast (run daemonStep (sessiondNew found) events) event := by
  have keeps : forall d event, Sound (Daemon.store d) -> True -> Sound (daemonStep d event).store :=
    fun d event sound _ => sound.event event
  refine ⟨?_, fun event => ?_⟩
  · exact guarded_iff_of_invariant (fun _ => True) keeps
      (fun d event sound _ => cachedAgrees_iff_of_sound sound event) sound_sessNew fun _ _ => trivial
  · exact cachedAgrees_iff_of_sound (sound_run found events) event

/-- Another connection has opened a session of its own in between, and that
one is the recent one. -/
def openedByAnother : List Event :=
  [.connect 0 false, .connect 1 true, .request 0 (helloRequest opOpen 0) generous .fails,
    .request 1 (helloRequest opOpen 0) generous .fails]

theorem openedByAnother_through : exists c,
    ThroughCurrent (run daemonStep (sessiondNew fun _ => true) openedByAnother) 0 c 0
      (helloRequest opUseSet 0xFFFF) := by
  have fields : ((run daemonStep (sessiondNew fun _ => true) openedByAnother).conns 0).map
      (fun c => (c.isTcp, c.cur)) = some (false, some 0) := by decide +kernel
  rcases Option.map_eq_some_iff.mp fields with ⟨c, connected, same⟩
  rw [Prod.mk.injEq] at same
  exact ⟨c, connected, same.1, same.2, ⟨0, by decide, by decide +kernel⟩, Or.inr rfl, by decide, by decide⟩

theorem openedByAnother_disagrees :
    ¬ Guarded daemonStep CachedAgrees (sessiondNew fun _ => true)
      (openedByAnother ++ [.request 0 (helloRequest opUseSet 0xFFFF) generous .fails]) := by
  intro every
  rcases openedByAnother_through with ⟨c, through⟩
  have agrees := (guarded_append.mp every).2.1 c 0 through 0 (by decide +kernel)
  rw [through.agrees_iff (sound_run _ _) (by decide +kernel)] at agrees
  rcases agrees with big | recent
  · exact absurd big (by decide)
  · exact absurd recent (by decide +kernel)

end Revenant
end BugMuseum
