import BugMuseum.Revenant.Sessiond
import BugMuseum.Revenant.SessTable

namespace BugMuseum
namespace Revenant

open Foundation

/-!
# The store behind a request

A request makes one call of `sesscore`, followed by a `SessDefer` when a run or a
set carries the flag.  The exceptions are the run and the set that a pipe
connection sends through its current session.  The lookup with which a pipe open
finds its session again changes nothing, and a failed use finds no session, so
deferring after it would change nothing either.
-/

/-- The call of `sesscore` that a request makes, when it does not go through a
current session. -/
def Request.call (r : Request) (plugins : Nat -> Option Handler) (verbose : Bool) (grant : Nat -> Grant)
    (outcome : Realloc) : Op :=
  if r.op = opOpen then
    .opening (r.type &&& handlerIdMask).toNat (pluginFor plugins (r.type &&& handlerIdMask)) r.arg grant
  else if r.op = opUseRun then .useRun r.id r.arg (List.replicate 256 0)
  else if r.op = opUseSet then .useSet r.id r.arg
  else if r.op = opUseAppend then .useAppend r.id r.arg outcome
  else if r.op = opClose then .close r.id
  else if r.op = opStat then .stat verbose (List.replicate 256 0)
  else .flush r.arg

/-- An op byte that the server accepts is one of seven. -/
theorem op_cases {op : UInt8} (accepted : ¬ op > opFlush) :
    op = opOpen ∨ op = opUseRun ∨ op = opUseSet ∨ op = opUseAppend ∨ op = opClose ∨ op = opStat ∨
      op = opFlush := by
  have bound : op.toNat ≤ 6 := UInt8.le_iff_toNat_le.mp (UInt8.not_lt.mp accepted)
  simp only [← UInt8.toNat_inj, opOpen, opUseRun, opUseSet, opUseAppend, opClose, opStat, opFlush,
    UInt8.toNat_ofNat]
  omega

/-- The status shows the recent session, on a pipe and when it is asked
for. -/
def verboseFor (c : Conn) (r : Request) : Bool :=
  decide (r.type &&& flagVerbose ≠ 0) && !c.isTcp

/-- A request for a run or a set.  An append is a use as well, but it has a
path of its own. -/
def Request.uses (r : Request) : Prop :=
  r.op = opUseRun ∨ r.op = opUseSet

instance (r : Request) : Decidable r.uses :=
  inferInstanceAs (Decidable (_ ∨ _))

/-- The handlers never report an error, so a use fails only for want of a
session. -/
theorem Handler.call_nonneg (handler : Handler) (input out : Bytes) : 0 ≤ (handler.call input out).2 := by
  cases handler
  · exact Int.natCast_nonneg _
  · exact Int.le_max_right _ _

/-- Deferring through a handle without a session changes nothing. -/
theorem deferFlagged_absent {s : Store} {r : Request} (absent : s.lookup r.id = none) :
    deferFlagged s r = s := by
  rw [deferFlagged, sessDefer, sessGet_absent absent]
  split <;> rfl

theorem deferFlagged_unflagged {s : Store} {r : Request} (unflagged : r.type &&& flagDefer = 0) :
    deferFlagged s r = s := by
  rw [deferFlagged, if_neg (not_not.mpr unflagged)]

/-- Once the handler has returned, the flag decides whether its session is
deferred. -/
theorem finishRun_sessUseRun (s : Store) (c : Conn) (r : Request) (out : Bytes) :
    (finishRun c r (sessUseRun s r.id r.arg out)).1 =
      deferFlagged (step s (.useRun r.id r.arg out)) r := by
  rw [step, sessUseRun, finishRun]
  cases found : s.lookup r.id with
  | none =>
      rw [sessGet_absent found]
      exact (if_pos (by decide : sessErr < 0)).symm ▸ (deferFlagged_absent found).symm
  | some x =>
      rw [sessGet_found found]
      have succeeded := ((Store.session { s with gRecent := some x } x).handler).call_nonneg r.arg.bytes out
      exact congrArg Prod.fst (if_neg (Int.not_lt.mpr succeeded))

theorem sessUseSet_ok {s : Store} {id : Int} {x : Block} (found : s.lookup id = some x) (arg : Payload) :
    (sessUseSet s id arg).2 = sessOk := by
  rw [sessUseSet, sessGet_found found]

/-- The handle that an open returns already names the recent session, so
looking it up leaves the store as it is. -/
theorem sessGet_sessOpen {s : Store} {type : Int} {handler : Option Handler} {init : Payload}
    {grant : Nat -> Grant} (accepted : ¬ (sessOpen s type handler init grant).2 < 0) :
    (sessGet (sessOpen s type handler init grant).1 (sessOpen s type handler init grant).2).1 =
      (sessOpen s type handler init grant).1 := by
  rcases sessOpen_cases s type handler init grant with result | ⟨id, chosen, cap, result⟩ |
    ⟨id, session, content, opened, _, returned⟩
  · rw [result] at accepted
    exact absurd (by decide : sessErr < 0) accepted
  · rw [result] at accepted
    exact absurd (by decide : sessErr < 0) accepted
  · have inside := (firstFree_some opened.slot).1
    have ordinary : (id : Int) ≠ sessRecent := by
      rw [sessRecent]
      rw [sessMax] at inside
      omega
    have found : (sessOpen s type handler init grant).1.lookup id = some s.sessions.next := by
      rw [Store.lookup, if_neg ordinary, Store.slotAt_natCast _ inside, opened.slots,
        Function.update_self]
    rw [returned, sessGet_found found, ← opened.gRecent]

theorem hOpen_store (plugins : Nat -> Option Handler) (s : Store) (c : Conn) (r : Request)
    (grant : Nat -> Grant) :
    (hOpen plugins s c r grant).1 =
      (sessOpen s (r.type &&& handlerIdMask).toNat (pluginFor plugins (r.type &&& handlerIdMask)) r.arg
        grant).1 := by
  rw [hOpen]
  dsimp only
  split
  · rfl
  · split
    · rfl
    · rename_i accepted _
      exact sessGet_sessOpen accepted

theorem hUseSet_store {s : Store} {c : Conn} {r : Request} (direct : ¬ cached c r) :
    (hUseSet s c r).1 = deferFlagged (step s (.useSet r.id r.arg)) r := by
  rw [hUseSet, if_neg direct, step]
  cases found : s.lookup r.id with
  | none =>
      rw [sessUseSet, sessGet_absent found]
      exact (deferFlagged_absent found).symm
  | some x => exact congrArg Prod.fst (if_neg (not_not.mpr (sessUseSet_ok found r.arg)))

theorem hUseAppend_store (s : Store) (c : Conn) (r : Request) (outcome : Realloc) :
    (hUseAppend s c r outcome).1 = step s (.useAppend r.id r.arg outcome) := by
  rw [hUseAppend]
  split <;> rfl

/-- The store after a request that does not go through a current session: the
one behind its call, and behind a deferring where the flag asks for one. -/
theorem dispatch_store (plugins : Nat -> Option Handler) (s : Store) {c : Conn} {r : Request}
    (grant : Nat -> Grant) (outcome : Realloc) (direct : r.uses -> ¬ cached c r) :
    (dispatch plugins s c r grant outcome).1 =
      if r.uses then deferFlagged (step s (r.call plugins (verboseFor c r) grant outcome)) r
      else step s (r.call plugins (verboseFor c r) grant outcome) := by
  rw [dispatch, Request.call]
  by_cases opening : r.op = opOpen
  · have other : ¬ r.uses := by
      rw [Request.uses, opening]
      decide
    rw [if_pos opening, if_pos opening, if_neg other]
    exact hOpen_store plugins s c r grant
  · rw [if_neg opening, if_neg opening]
    by_cases running : r.op = opUseRun
    · have uses : r.uses := Or.inl running
      rw [if_pos running, if_pos running, if_pos uses, hUseRun, if_neg (direct uses)]
      exact finishRun_sessUseRun s c r _
    · rw [if_neg running, if_neg running]
      by_cases setting : r.op = opUseSet
      · have uses : r.uses := Or.inr setting
        rw [if_pos setting, if_pos setting, if_pos uses]
        exact hUseSet_store (direct uses)
      · have other : ¬ r.uses := not_or.mpr ⟨running, setting⟩
        rw [if_neg setting, if_neg setting, if_neg other]
        split
        · exact hUseAppend_store s c r outcome
        · split
          · rfl
          · split <;> rfl

end Revenant
end BugMuseum
