import BugMuseum.Foundation.ByteReader
import BugMuseum.Revenant.AppendText

namespace BugMuseum
namespace Revenant

open Foundation

/-!
# The limit of a session's buffer

`SESS_MAX_DATA` limits the buffer of a session.  An open cuts its argument to the
limit and a set writes no more than the buffer holds, but an append asks for as
much memory as it needs.  So the limit holds along the runs whose appends respect
it by themselves, and along no others: the first append past the limit gives its
session a larger buffer.

The copy of an append stays in the buffer of its session when `realloc` leaves the
buffer where it is.  When the buffer moves, `memcpy` writes through the old pointer,
to a block that has just been released.  The property of an append is therefore
stated of the blocks: of what stands in the session's buffer behind the call, and of
the faults that the call adds to the heap of the buffers.
-/

/-- Opens, sets and appends with arguments that pass the limit of a request,
when every allocation succeeds.  The other calls have no part in the
question. -/
def Op.supplied : Op -> Prop
  | .opening _ _ init grant =>
      init.bytes.length ≤ sessMaxArg ∧ forall request, grant request ≠ none
  | .useSet _ arg => arg.bytes.length ≤ sessMaxArg
  | .useAppend _ arg outcome => arg.bytes.length ≤ sessMaxArg ∧ outcome ≠ .fails
  | .get _ => False
  | .useRun _ _ _ => False
  | .close _ => False
  | .stat _ _ => False
  | .defer _ => False
  | .flush _ => False

/-- No session is longer than its buffer, and no buffer is larger than the
limit. -/
def Capped (s : Store) : Prop :=
  forall x, s.Open x ->
    (s.session x).len ≤ (s.session x).cap ∧ (s.session x).cap ≤ sessMaxData

/-- The copy of an append, as the buffers show it.  The argument stands behind
the old length in the block that the session owns after the call, all of it
below the capacity, and the call neither left a block nor reached a released
one. -/
structure WritesInside (s s' : Store) (x : Block) (arg : Payload) : Prop where
  below : (s.session x).len + arg.bytes.length ≤ (s'.session x).cap
  written : exists data, (s'.session x).data = some data ∧ s'.buffers.Live data ∧
    slice (s'.buffers.cell data) (s.session x).len arg.bytes.length = arg.bytes
  faults : s'.buffers.faults = s.buffers.faults

/-- The append fails and leaves every session as it is, contents included; or
its sum of lengths does not wrap, and it writes inside the buffer of its
session. -/
def AppendInside (s : Store) : Op -> Prop
  | .useAppend id arg outcome =>
      ((sessUseAppend s id arg outcome).2 = sessErr ∧
        forall x, (sessUseAppend s id arg outcome).1.session x = s.session x ∧
          (sessUseAppend s id arg outcome).1.text x = s.text x) ∨
      (sessUseAppend s id arg outcome).2 = sessOk ∧ exists x, s.lookup id = some x ∧
        (s.session x).len + arg.bytes.length < 2 ^ 32 ∧
        WritesInside s (sessUseAppend s id arg outcome).1 x arg
  | _ => True

/-- The append stays below the limit.  This is enough for the capacities, but
not for the copy. -/
def AppendLimited (s : Store) : Op -> Prop
  | .useAppend id arg _ => forall x, s.lookup id = some x ->
      (s.session x).len + arg.bytes.length ≤ sessMaxData
  | _ => True

/-- The append stays below the limit, and it fits into the buffer unless
`realloc` leaves the buffer where it is.  It speaks of the state before the
call and of what the allocator answers. -/
def AppendFits (s : Store) : Op -> Prop
  | .useAppend id arg outcome => forall x, s.lookup id = some x ->
      (s.session x).len + arg.bytes.length ≤ sessMaxData ∧
        ((s.session x).len + arg.bytes.length ≤ (s.session x).cap ∨ outcome.relocates = false)
  | _ => True

/-- The discipline: what the two handles reach is open, and the limit holds.
The calls of the question keep it, unless an append goes past the limit. -/
structure Bounded (s : Store) : Prop where
  sound : Sound s
  recent : forall x, s.gRecent = some x -> s.Open x
  capped : forall x, s.Open x -> (s.session x).cap ≤ sessMaxData

namespace Bounded

variable {s s' : Store}

theorem within (bounded : Bounded s) {x : Block} (isOpen : s.Open x) :
    (s.session x).len ≤ (s.session x).cap :=
  bounded.sound.within x (bounded.sound.live x isOpen).1

theorem safe (bounded : Bounded s) : Capped s :=
  fun x isOpen => ⟨bounded.within isOpen, bounded.capped x isOpen⟩

theorem lookup_open (bounded : Bounded s) {id : Int} {x : Block} (found : s.lookup id = some x) :
    s.Open x := by
  rw [Store.lookup] at found
  split at found
  · exact bounded.recent x found
  · exact Store.slotAt_open found

theorem setRecent (bounded : Bounded s) {x : Block} (isOpen : s.Open x) :
    Bounded { s with gRecent := some x } where
  sound := bounded.sound.setRecent (bounded.sound.known isOpen)
  recent := fun _ same => Option.some.inj same ▸ isOpen
  capped := bounded.capped

/-- A call that keeps the table and does not lift any capacity past the limit
keeps the discipline. -/
theorem frame (bounded : Bounded s) (sound : Sound s') (frame : TableFrame s s')
    (caps : forall x, s.Open x -> (s'.session x).cap ≤ sessMaxData) : Bounded s' where
  sound := sound
  recent := fun x named => by
    rw [frame.gRecent] at named
    exact (frame.open_iff x).mpr (bounded.recent x named)
  capped := fun x isOpen => caps x ((frame.open_iff x).mp isOpen)

theorem opening (bounded : Bounded s) (type : Int) (handler : Option Handler) (init : Payload)
    (grant : Nat -> Grant) : Bounded (sessOpen s type handler init grant).1 := by
  have sound := bounded.sound
  rcases sessOpen_cases s type handler init grant with same | ⟨id, chosen, cap, same⟩ |
    ⟨id, session, content, opened, limited, _⟩
  · rw [same]
    exact bounded
  · rw [same]
    refine ⟨sound.withdrawn id type chosen cap, bounded.recent, fun x isOpen => ?_⟩
    have older : (withdrawn s id type chosen cap).session x = s.session x :=
      Heap.alloc_cell_of_ne _ _ (Nat.ne_of_lt (sound.live x isOpen).1)
    rw [older]
    exact bounded.capped x isOpen
  · refine ⟨sound.opened opened, fun x named => ?_, fun x isOpen => ?_⟩
    · rw [opened.gRecent] at named
      exact (opened.open_iff x).mpr (Or.inr (Option.some.inj named).symm)
    · rcases (opened.open_iff x).mp isOpen with old | new
      · rw [opened.old (sound.live x old).1]
        exact bounded.capped x old
      · rw [new, opened.new]
        exact limited

theorem setSession (bounded : Bounded s) (x : Block) (arg : Payload) : Bounded (setSession s x arg) := by
  have frame := setSession_frame s x arg
  refine bounded.frame (bounded.sound.shape frame) frame.toTableFrame fun y isOpen => ?_
  rw [frame.cap]
  exact bounded.capped y isOpen

/-- Below the limit the sum of lengths is a sum, because two lengths of at
most `2 ^ 20` are far from the word. -/
theorem appendNeed_eq (bounded : Bounded s) {x : Block} (isOpen : s.Open x) {arg : Payload}
    (short : arg.bytes.length ≤ sessMaxArg) :
    appendNeed s x arg = (s.session x).len + arg.bytes.length := by
  have length := bounded.within isOpen
  have limit := bounded.capped x isOpen
  rw [sessMaxData] at limit
  rw [sessMaxArg] at short
  rw [appendNeed, Nat.mod_eq_of_lt]
  omega

/-- The capacity after an append, where the allocation succeeds: what is
needed, or what was there if that is more. -/
theorem appendSession_cap (s : Store) (x : Block) (arg : Payload) {outcome : Realloc}
    (granted : outcome ≠ .fails) :
    ((appendSession s x arg outcome).1.session x).cap = max (s.session x).cap (appendNeed s x arg) := by
  by_cases grows : (s.session x).cap < appendNeed s x arg
  · rcases appendSession_grows grows granted with ⟨_, data, same⟩
    rw [same, Nat.max_eq_right (Nat.le_of_lt grows)]
  · have fits := Nat.not_lt.mp grows
    rw [(appendSession_fits fits).2, Nat.max_eq_left fits]

theorem appendSession_ok (s : Store) (x : Block) (arg : Payload) {outcome : Realloc}
    (granted : outcome ≠ .fails) : (Revenant.appendSession s x arg outcome).2 = sessOk := by
  by_cases grows : (s.session x).cap < appendNeed s x arg
  · exact (appendSession_grows grows granted).1
  · exact (appendSession_fits (Nat.not_lt.mp grows)).1

theorem appendSession (bounded : Bounded s) {x : Block} (isOpen : s.Open x) {arg : Payload}
    {outcome : Realloc} (granted : outcome ≠ .fails) (short : arg.bytes.length ≤ sessMaxArg)
    (fits : (s.session x).len + arg.bytes.length ≤ sessMaxData) :
    Bounded (appendSession s x arg outcome).1 := by
  have known := bounded.sound.known isOpen
  refine bounded.frame (bounded.sound.appendSession known arg outcome)
    (known.appendSession_frame arg outcome) fun y other => ?_
  by_cases same : y = x
  · rw [same, appendSession_cap s x arg granted, bounded.appendNeed_eq isOpen short]
    exact Nat.max_le.mpr ⟨bounded.capped x isOpen, fits⟩
  · rw [appendSession_others same]
    exact bounded.capped y other

theorem step (bounded : Bounded s) {op : Op} (offered : op.supplied) (condition : AppendLimited s op) :
    Bounded (step s op) := by
  cases op with
  | opening type handler init grant => exact bounded.opening type handler init grant
  | useSet id arg =>
      cases found : s.lookup id with
      | none => rwa [step_absent rfl found]
      | some x =>
          rw [step_found rfl found]
          exact (bounded.setRecent (bounded.lookup_open found)).setSession x arg
  | useAppend id arg outcome =>
      cases found : s.lookup id with
      | none => rwa [step_absent rfl found]
      | some x =>
          have isOpen := bounded.lookup_open found
          rw [step_found rfl found]
          exact (bounded.setRecent isOpen).appendSession isOpen offered.2 offered.1 (condition x found)
  | get id => exact offered.elim
  | useRun id arg out => exact offered.elim
  | close id => exact offered.elim
  | stat verbose out => exact offered.elim
  | defer id => exact offered.elim
  | flush arg => exact offered.elim

/-- Below the limit, an append writes inside its buffer exactly when it fits
or stays.  When it moves, the copy to the released block is on record as a
fault. -/
theorem writesInside_iff (bounded : Bounded s) {x : Block} (isOpen : s.Open x) {arg : Payload}
    {outcome : Realloc} (granted : outcome ≠ .fails) (short : arg.bytes.length ≤ sessMaxArg) :
    WritesInside s (Revenant.appendSession s x arg outcome).1 x arg ↔
      (s.session x).len + arg.bytes.length ≤ (s.session x).cap ∨ outcome.relocates = false := by
  have need := bounded.appendNeed_eq isOpen short
  have sum : (s.session x).len + arg.bytes.length < 2 ^ 32 :=
    need ▸ Nat.mod_lt _ (by decide)
  rcases bounded.sound.backed isOpen with ⟨data, backed⟩
  have stays : ¬ Relocates s x arg outcome ↔
      (s.session x).len + arg.bytes.length ≤ (s.session x).cap ∨ outcome.relocates = false := by
    rw [Relocates, Nat.mod_eq_of_lt sum, not_and_or, Nat.not_lt, Bool.not_eq_true]
  rw [← stays]
  constructor
  · intro inside moves
    exact faults_of_relocates backed sum moves inside.faults
  · intro stays
    have appends := appends_of_stays backed sum stays
    have done := appendSession_ok s x arg granted
    rcases appends.backed done with ⟨after, owned, live⟩
    refine ⟨?_, ⟨after, owned, live, ?_⟩, appends.buffers⟩
    · rw [appendSession_cap s x arg granted, need]
      exact Nat.le_max_right _ _
    · have text := appends.text done
      rw [Store.text, owned] at text
      dsimp only at text
      rw [appends.length done] at text
      have behind := congrArg (List.drop (s.session x).len) text
      rw [List.drop_take, Nat.add_sub_cancel_left, List.drop_append_of_le_length backed.text_length.ge,
        List.drop_of_length_le backed.text_length.le, List.nil_append] at behind
      exact behind

/-- So it is with the call, which makes its session the recent one first. -/
theorem inside_iff (bounded : Bounded s) {op : Op} (offered : op.supplied) (condition : AppendLimited s op) :
    AppendInside s op ↔ AppendFits s op := by
  cases op with
  | useAppend id arg outcome =>
      rw [AppendInside, AppendFits, sessUseAppend]
      cases found : s.lookup id with
      | none =>
          rw [sessGet_absent found]
          exact iff_of_true (Or.inl ⟨rfl, fun _ => ⟨rfl, rfl⟩⟩) fun _ impossible => by cases impossible
      | some x =>
          have isOpen := bounded.lookup_open found
          have recent := bounded.setRecent isOpen
          have limit := condition x found
          have done := appendSession_ok { s with gRecent := some x } x arg offered.2
          have inside := recent.writesInside_iff isOpen offered.2 offered.1
          rw [sessMaxData] at limit
          rw [sessGet_found found]
          constructor
          · rintro (⟨failed, _⟩ | ⟨_, y, named, _, writes⟩) z same
            · rw [done] at failed
              cases failed
            · cases same
              cases named
              exact ⟨condition x found, inside.mp ⟨writes.below, writes.written, writes.faults⟩⟩
          · intro fits
            have writes := inside.mpr (fits x rfl).2
            exact Or.inr ⟨done, x, rfl, by omega, writes.below, writes.written, writes.faults⟩
  | _ => exact Iff.rfl

end Bounded

/-- An append past the limit leaves its session with a larger buffer, as
nothing compares the sum with the limit. -/
theorem not_capped_of_append {s : Store} (bounded : Bounded s) {op : Op} (offered : op.supplied)
    (missed : ¬ AppendLimited s op) : ¬ Capped (step s op) := by
  cases op with
  | useAppend id arg outcome =>
      simp only [AppendLimited, not_forall, Nat.not_le] at missed
      rcases missed with ⟨x, found, large⟩
      have isOpen := bounded.lookup_open found
      have recent := bounded.setRecent isOpen
      have need := recent.appendNeed_eq isOpen offered.1
      have frame := (recent.sound.known isOpen).appendSession_frame arg outcome
      intro capped
      rw [step_found rfl found] at capped
      have limit := (capped x ((frame.open_iff x).mpr isOpen)).2
      have cap := Bounded.appendSession_cap { s with gRecent := some x } x arg offered.2
      rw [Op.act, cap, need] at limit
      exact Nat.not_le.mpr large (Nat.le_trans (Nat.le_max_right _ _) limit)
  | opening _ _ _ _ => exact absurd trivial missed
  | get _ => exact absurd trivial missed
  | useRun _ _ _ => exact absurd trivial missed
  | useSet _ _ => exact absurd trivial missed
  | close _ => exact absurd trivial missed
  | stat _ _ => exact absurd trivial missed
  | defer _ => exact absurd trivial missed
  | flush _ => exact absurd trivial missed

/-! ## Exactly the runs that respect the limit -/

theorem bounded_sessNew : Bounded sessNew where
  sound := sound_sessNew
  recent := fun _ impossible => by cases impossible
  capped := fun x isOpen => absurd isOpen (not_open_sessNew x)

theorem capacity_guard : ExactGuard step Op.supplied Bounded Capped AppendLimited where
  safe := fun _ bounded => bounded.safe
  keeps := fun _ _ bounded offered condition => bounded.step offered condition
  breaks := fun _ _ bounded offered missed => not_capped_of_append bounded offered missed

/-- Where the limit holds, the two conditions on an append are one. -/
theorem guarded_inside_iff {ops : List Op} (offered : forall op, op ∈ ops -> op.supplied)
    (limited : Guarded step AppendLimited sessNew ops) :
    Guarded step AppendInside sessNew ops ↔ Guarded step AppendFits sessNew ops := by
  have keeps : forall s op, Bounded s -> op.supplied -> AppendLimited s op -> Bounded (step s op) :=
    fun _ _ bounded offered condition => bounded.step offered condition
  constructor
  · intro inside
    exact guarded_of_guarded Op.supplied (fun s op bounded offered both => keeps s op bounded offered both.1)
      (fun _ _ bounded offered both => (bounded.inside_iff offered both.1).mp both.2) bounded_sessNew offered
      (guarded_and.mpr ⟨limited, inside⟩)
  · intro fits
    exact guarded_of_guarded Op.supplied (fun s op bounded offered both => keeps s op bounded offered both.1)
      (fun _ _ bounded offered both => (bounded.inside_iff offered both.1).mpr both.2) bounded_sessNew offered
      (guarded_and.mpr ⟨limited, fits⟩)

theorem AppendFits.limited {s : Store} {op : Op} (fits : AppendFits s op) : AppendLimited s op := by
  cases op with
  | useAppend id arg outcome => exact fun x found => (fits x found).1
  | _ => trivial

/-- The buffers stay within the limit, and the appends write inside their
buffers, exactly in the runs whose appends add up to no more than the limit
and outgrow no buffer that `realloc` then moves.  The first part is lost in
the state behind such a call, the second one at the call itself. -/
theorem capped_iff_appendFits (ops : List Op) (offered : forall op, op ∈ ops -> op.supplied) :
    Throughout step Capped sessNew ops ∧ Guarded step AppendInside sessNew ops ↔
      Guarded step AppendFits sessNew ops := by
  have limits := capacity_guard.throughout_iff bounded_sessNew offered
  constructor
  · rintro ⟨capped, inside⟩
    exact (guarded_inside_iff offered (limits.mp capped)).mp inside
  · intro fits
    have limited : Guarded step AppendLimited sessNew ops :=
      fits.mono fun _ _ condition => condition.limited
    exact ⟨limits.mpr limited, (guarded_inside_iff offered limited).mpr fits⟩

theorem helloSession_lookup : helloSession.lookup 0 = some 0 ∧ (helloSession.session 0).len = 5 := by
  decide +kernel

def helloThenAppend (arg : Payload) : List Op :=
  [.opening 0 (some .echo) hello generous, .useAppend 0 arg (.inPlace fun _ => 0)]

theorem helloThenAppend_supplied {arg : Payload} (short : arg.bytes.length ≤ sessMaxArg) (op : Op)
    (member : op ∈ helloThenAppend arg) : op.supplied := by
  simp only [helloThenAppend, List.mem_cons, List.not_mem_nil, or_false] at member
  rcases member with rfl | rfl
  · exact ⟨by decide, fun _ impossible => by cases impossible⟩
  · exact ⟨short, fun impossible => by cases impossible⟩

theorem helloThenAppend_limited {arg : Payload}
    (limited : Guarded step AppendLimited sessNew (helloThenAppend arg)) : 5 + arg.bytes.length ≤ sessMaxData := by
  rcases helloSession_lookup with ⟨found, len⟩
  have limit := limited.2.1 0 found
  change (helloSession.session 0).len + arg.bytes.length ≤ sessMaxData at limit
  rwa [len] at limit

theorem helloThenAppend_fits_iff (arg : Payload) :
    Guarded step AppendFits sessNew (helloThenAppend arg) ↔ 5 + arg.bytes.length ≤ sessMaxData := by
  rcases helloSession_lookup with ⟨found, len⟩
  constructor
  · intro fits
    exact helloThenAppend_limited (fits.mono fun _ _ condition => condition.limited)
  · intro limit
    refine ⟨trivial, fun x named => ?_, trivial⟩
    have same : x = 0 := Option.some.inj (named.symm.trans found)
    refine ⟨?_, Or.inr rfl⟩
    change (helloSession.session x).len + arg.bytes.length ≤ sessMaxData
    rwa [same, len]

theorem helloTwice_capped : Throughout step Capped sessNew (helloThenAppend hello) ∧
    Guarded step AppendInside sessNew (helloThenAppend hello) := by
  have short : hello.bytes.length ≤ sessMaxArg := by decide
  apply (capped_iff_appendFits _ (helloThenAppend_supplied short)).mpr
  exact (helloThenAppend_fits_iff hello).mpr (by decide)

/-- The longest argument that a request may carry. -/
def longest : Payload :=
  ⟨List.replicate sessMaxArg 0, by rw [List.length_replicate, sessMaxArg]; decide⟩

theorem helloThenLongest_uncapped : (forall op, op ∈ helloThenAppend longest -> op.supplied) ∧
    ¬ (Throughout step Capped sessNew (helloThenAppend longest) ∧
      Guarded step AppendInside sessNew (helloThenAppend longest)) := by
  have length : longest.bytes.length = sessMaxArg := List.length_replicate
  have offered := helloThenAppend_supplied (Nat.le_of_eq length)
  refine ⟨offered, ?_⟩
  rintro ⟨capped, _⟩
  have limited := (capacity_guard.throughout_iff bounded_sessNew offered).mp capped
  have limit := helloThenAppend_limited limited
  rw [length, sessMaxArg, sessMaxData] at limit
  omega

end Revenant
end BugMuseum
