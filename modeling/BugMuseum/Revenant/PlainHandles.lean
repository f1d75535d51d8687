import BugMuseum.Revenant.Connections
import BugMuseum.Revenant.Requests

namespace BugMuseum
namespace Revenant

open Foundation

/-!
# The plain handle path

A request that names its session by an ordinary handle reaches it through the
table, and a close takes its session out of the table.  So as long as nobody
follows a remembered pointer, neither `g_recent` nor a current session nor the
batch, every access is to an open session, and closing a session releases it and
its buffer for the only time.

The list `closed` is the history of the closes: the sessions that the slots held
when a close named them.  It is computed from the requests and the table.
-/

/-- What the plain path asks of a call of `sesscore`: an ordinary handle, an
append that fits its buffer, no preview, and no use of the batch. -/
def Op.plain (s : Store) : Op -> Prop
  | .opening _ _ _ _ => True
  | .useRun id _ _ => id ≠ sessRecent
  | .useSet id _ => id ≠ sessRecent
  | .useAppend id arg _ => id ≠ sessRecent ∧
      forall x, s.slotAt id = some x -> (s.session x).len + arg.bytes.length ≤ (s.session x).cap
  | .close _ => True
  | .stat verbose _ => verbose = false
  | .get _ => False
  | .defer _ => False
  | .flush _ => False

/-- The session that the handle of a call names, if its slot holds one. -/
def Op.target (s : Store) : Op -> Option Block
  | .useRun id _ _ => s.slotAt id
  | .useSet id _ => s.slotAt id
  | .useAppend id _ _ => s.slotAt id
  | .close id => s.slotAt id
  | _ => none

/-- The session that a call closes. -/
def Op.closes (s : Store) : Op -> Option Block
  | .close id => s.slotAt id
  | _ => none

/-- A call runs and writes its target only, and leaves the others as they are,
with their texts. -/
structure Reaches (s s' : Store) (target : Option Block) : Prop where
  logged : forall use, use ∈ s'.uses.drop s.uses.length -> target = some use.session
  others : forall y, Known s y -> target ≠ some y -> s'.session y = s.session y ∧
    forall data, (s.session y).data = some data -> s'.buffers.cell data = s.buffers.cell data

/-- The table is counted, a session is released when it is closed, and its
buffer with it, and nothing was ever accessed after its release or past its
end. -/
structure Tidy (s : Store) (closed : List Block) : Prop where
  sound : Sound s
  counted : s.count = occupied sessMax s.slots
  bounded : forall x, Known s x -> (s.session x).cap ≤ sessMaxData
  released : forall x, Known s x -> s.sessions.releases x = if x ∈ closed then 1 else 0
  freed : forall x data, Known s x -> (s.session x).data = some data ->
    s.buffers.releases data = if x ∈ closed then 1 else 0
  owned : forall data, data < s.buffers.next -> exists x, Known s x ∧ (s.session x).data = some data
  shut : forall x, Known s x -> (x ∈ closed ↔ ¬ s.Open x)
  known : forall x, x ∈ closed -> Known s x
  accesses : s.sessions.faults = []
  copies : s.buffers.faults = []

namespace Reaches

variable {s s' : Store}

theorem refl (s : Store) (target : Option Block) : Reaches s s target where
  logged := fun use member => by simp at member
  others := fun _ _ _ => ⟨rfl, fun _ _ => rfl⟩

/-- A call that changes neither sessions nor buffers and logs nothing reaches
no session. -/
theorem quiet (uses : s'.uses = s.uses) (sessions : forall y, Known s y -> s'.session y = s.session y)
    (buffers : forall y data, Known s y -> (s.session y).data = some data ->
      s'.buffers.cell data = s.buffers.cell data) (target : Option Block) : Reaches s s' target where
  logged := fun use member => by
    rw [uses, List.drop_length] at member
    cases member
  others := fun y known _ => ⟨sessions y known, fun data owned => buffers y data known owned⟩

end Reaches

namespace Tidy

variable {s s' : Store} {closed : List Block}

theorem shape (tidy : Tidy s closed) (frame : ShapeFrame s s')
    (accesses : s'.sessions.faults = s.sessions.faults) (copies : s'.buffers.faults = s.buffers.faults) :
    Tidy s' closed where
  sound := tidy.sound.shape frame
  counted := by
    rw [frame.count, frame.slots]
    exact tidy.counted
  bounded := fun x known => by
    rw [frame.cap]
    exact tidy.bounded x ((frame.known_iff x).mp known)
  released := fun x known => by
    rw [frame.releases]
    exact tidy.released x ((frame.known_iff x).mp known)
  freed := fun x data known named => by
    rw [frame.data] at named
    rw [frame.releasedBuffers]
    exact tidy.freed x data ((frame.known_iff x).mp known) named
  owned := fun data issued => by
    rw [frame.nextBuffer] at issued
    rcases tidy.owned data issued with ⟨x, known, named⟩
    exact ⟨x, (frame.known_iff x).mpr known, (frame.data x).trans named⟩
  shut := fun x known => by
    rw [frame.open_iff]
    exact tidy.shut x ((frame.known_iff x).mp known)
  known := fun x member => (frame.known_iff x).mpr (tidy.known x member)
  accesses := accesses.trans tidy.accesses
  copies := copies.trans tidy.copies

theorem setRecent (tidy : Tidy s closed) {x : Block} (known : Known s x) :
    Tidy { s with gRecent := some x } closed :=
  ⟨tidy.sound.setRecent known, tidy.counted, tidy.bounded, tidy.released, tidy.freed, tidy.owned,
    tidy.shut, tidy.known, tidy.accesses, tidy.copies⟩

theorem runSession (tidy : Tidy s closed) {x : Block} (isOpen : s.Open x) (arg : Payload) (out : Bytes) :
    Tidy (runSession s x arg out).1 closed := by
  have live := tidy.sound.live x isOpen
  exact tidy.shape (runSession_frame s x arg out) (congrArg Heap.faults (Heap.touch_of_live live)) rfl

end Tidy

/-- Write into the buffer of a session, log it, and set its length.  Sets and
appends that fit are both of this form. -/
def writeSession (s : Store) (x : Block) (offset : Nat) (bytes : Bytes) (len : Nat) : Store :=
  Store.modifySession
    { s with
      buffers := s.buffers.writeAt (s.session x).data offset bytes, uses := s.uses ++ [Use.write x] } x
    fun session => { session with len := len }

theorem runSession_reaches (s : Store) (x : Block) (arg : Payload) (out : Bytes) :
    Reaches s (runSession s x arg out).1 (some x) where
  logged := fun use member => by
    simp only [runSession, List.drop_left, List.mem_singleton] at member
    rw [member]
    rfl
  others := fun y _ _ => ⟨s.touchSession_session x y, fun _ _ => rfl⟩

/-- A set writes the front of the buffer, as much of its argument as the
buffer holds. -/
theorem setSession_eq (s : Store) (x : Block) (arg : Payload) :
    setSession s x arg =
      writeSession s x 0 (arg.bytes.take (min arg.bytes.length (s.session x).cap))
        (min arg.bytes.length (s.session x).cap) := by
  have shorter : (if arg.bytes.length < (s.session x).cap then arg.bytes.length else (s.session x).cap) =
      min arg.bytes.length (s.session x).cap := by
    split <;> omega
  rw [setSession, writeSession]
  simp only [shorter]

/-- An append that fits writes behind the length, and does not ask the
allocator for anything. -/
theorem appendSession_eq {s : Store} {x : Block} (live : s.sessions.Live x) {arg : Payload}
    (fits : (s.session x).len + arg.bytes.length ≤ (s.session x).cap)
    (bounded : (s.session x).cap ≤ sessMaxData) (outcome : Realloc) :
    appendSession s x arg outcome =
      (writeSession s x (s.session x).len arg.bytes ((s.session x).len + arg.bytes.length), sessOk) := by
  have need : ((s.session x).len + arg.bytes.length) % 2 ^ 32 = (s.session x).len + arg.bytes.length := by
    rw [sessMaxData] at bounded
    rw [Nat.mod_eq_of_lt]
    omega
  rw [appendSession]
  simp only [Store.touchSession_of_live live, need]
  rw [if_neg (Nat.not_lt.mpr fits)]
  rfl

section Write

variable {s : Store} {closed : List Block} {x : Block} {offset len : Nat} {bytes : Bytes}

theorem writeSession_reaches (known : Known s x) (sound : Sound s) :
    Reaches s (writeSession s x offset bytes len) (some x) where
  logged := fun use member => by
    simp only [writeSession, Store.modifySession, List.drop_left, List.mem_singleton] at member
    rw [member]
    rfl
  others := fun y other different => by
    have apart : y ≠ x := fun same => different (congrArg some same.symm)
    refine ⟨Store.modifySession_session_of_ne _ _ apart, fun data owned => ?_⟩
    apply Heap.writeAt_cell_of_ne
    exact fun named => apart (sound.sole y x data other.1 known.1 owned named)

theorem Tidy.writeSession (tidy : Tidy s closed) (isOpen : s.Open x)
    (fits : offset + bytes.length ≤ (s.session x).cap) (short : len ≤ (s.session x).cap) :
    Tidy (writeSession s x offset bytes len) closed := by
  have live := tidy.sound.live x isOpen
  rcases tidy.sound.buffered x isOpen with ⟨data, owned, liveData⟩
  have size := tidy.sound.sized x data live.1 owned
  apply tidy.shape ((ShapeFrame.refl s).write _ _ _ _ x short)
  · change (s.sessions.touch x).faults = s.sessions.faults
    rw [Heap.touch_of_live live]
  · change (s.buffers.writeAt (s.session x).data offset bytes).faults = s.buffers.faults
    rw [owned]
    exact Heap.write_faults_of_fits liveData (size ▸ fits)

end Write

/-- An open counts its session and logs no use. -/
theorem sessOpen_count (s : Store) (type : Int) (handler : Option Handler) (init : Payload)
    (grant : Nat -> Grant) :
    (sessOpen s type handler init grant).1.count =
        (if (sessOpen s type handler init grant).2 < 0 then s.count else s.count + 1) ∧
      (sessOpen s type handler init grant).1.uses = s.uses := by
  cases handler with
  | none => exact ⟨rfl, rfl⟩
  | some handler =>
      rw [sessOpen]
      cases firstFree sessMax s.slots with
      | none => exact ⟨rfl, rfl⟩
      | some id =>
          have accepted : ¬ (id : Int) < 0 := by omega
          cases grant 0 with
          | none => exact ⟨rfl, rfl⟩
          | some first =>
              cases grant 1 with
              | none => exact ⟨rfl, rfl⟩
              | some second => exact ⟨(if_neg accepted).symm, rfl⟩

section Open

variable {s s' : Store} {closed : List Block}

/-- A block that was withdrawn never was a session, so no handle ever named
it. -/
theorem known_withdrawn_iff (s : Store) (id : Nat) (type : Int) (handler : Handler) (cap : Nat)
    (x : Block) : Known (withdrawn s id type handler cap) x ↔ Known s x := by
  by_cases new : x = s.sessions.next
  · have fresh : ((withdrawn s id type handler cap).session x).data = none := by
      rw [new]
      exact congrArg Session.data (Heap.alloc_cell_next s.sessions _)
    constructor
    · rintro ⟨_, data, named⟩
      rw [fresh] at named
      cases named
    · rintro ⟨older, _⟩
      exact absurd new (Nat.ne_of_lt older)
  · have same : (withdrawn s id type handler cap).session x = s.session x :=
      Heap.alloc_cell_of_ne _ _ new
    rw [Known, Known, same]
    change x < s.sessions.next + 1 ∧ _ ↔ _
    rw [Nat.lt_succ_iff_lt_or_eq, or_iff_left new]

theorem Tidy.withdrawn (tidy : Tidy s closed) (id : Nat) (type : Int) (handler : Handler) (cap : Nat) :
    Tidy (withdrawn s id type handler cap) closed := by
  have known := known_withdrawn_iff s id type handler cap
  have older : forall x, Known s x -> (Revenant.withdrawn s id type handler cap).session x = s.session x :=
    fun x old => Heap.alloc_cell_of_ne _ _ (Nat.ne_of_lt old.1)
  constructor
  · exact tidy.sound.withdrawn id type handler cap
  · exact tidy.counted
  · intro x named
    have old := (known x).mp named
    rw [older x old]
    exact tidy.bounded x old
  · intro x named
    have old := (known x).mp named
    exact (Heap.release_releases_of_ne _ (Nat.ne_of_lt old.1)).trans (tidy.released x old)
  · intro x data named owned
    have old := (known x).mp named
    rw [older x old] at owned
    exact tidy.freed x data old owned
  · intro data issued
    rcases tidy.owned data issued with ⟨x, old, owned⟩
    exact ⟨x, (known x).mpr old, by rw [older x old, owned]⟩
  · exact fun x named => tidy.shut x ((known x).mp named)
  · exact fun x member => (known x).mpr (tidy.known x member)
  · exact tidy.accesses
  · exact tidy.copies

theorem Opened.known_iff {id : Nat} {session : Session} {content : Bytes}
    (opened : Opened s s' id session content) (x : Block) :
    Known s' x ↔ Known s x ∨ x = s.sessions.next := by
  by_cases new : x = s.sessions.next
  · refine iff_of_true ?_ (Or.inr new)
    rw [Known, opened.sessions.next, new, opened.new, opened.data]
    exact ⟨Nat.lt_succ_self _, _, rfl⟩
  · have same : s'.session x = s.session x := opened.sessions.older x new
    rw [Known, same, opened.sessions.next, or_iff_left new, Known]
    rw [Nat.lt_succ_iff_lt_or_eq, or_iff_left new]

theorem Tidy.opened (tidy : Tidy s closed) {id : Nat} {session : Session} {content : Bytes}
    (opened : Opened s s' id session content) (limited : session.cap ≤ sessMaxData)
    (counted : s'.count = s.count + 1) : Tidy s' closed := by
  have sound := tidy.sound
  have slot := firstFree_some opened.slot
  have notClosed : s.sessions.next ∉ closed :=
    fun member => absurd (tidy.known _ member).1 (Nat.lt_irrefl _)
  have older : forall x, Known s x -> s'.session x = s.session x := fun x old => opened.old old.1
  constructor
  · exact sound.opened opened
  · rw [counted, opened.slots, occupied_fill _ slot.1 slot.2, tidy.counted]
    rfl
  · intro x known
    rcases (opened.known_iff x).mp known with old | new
    · rw [older x old]
      exact tidy.bounded x old
    · rw [new, opened.new]
      exact limited
  · intro x known
    rw [opened.sessions.releases]
    rcases (opened.known_iff x).mp known with old | new
    · exact tidy.released x old
    · rw [new, if_neg notClosed]
      exact sound.unused _ (Nat.le_refl _)
  · intro x data known owned
    rw [opened.buffers.releases]
    rcases (opened.known_iff x).mp known with old | new
    · rw [older x old] at owned
      exact tidy.freed x data old owned
    · rw [new, opened.new, opened.data] at owned
      rw [new, if_neg notClosed, ← Option.some.inj owned]
      exact sound.pristine _ (Nat.le_refl _)
  · intro data issued
    rw [opened.buffers.next] at issued
    rcases Nat.lt_succ_iff_lt_or_eq.mp issued with old | new
    · rcases tidy.owned data old with ⟨x, known, owned⟩
      exact ⟨x, (opened.known_iff x).mpr (Or.inl known), by rw [older x known, owned]⟩
    · refine ⟨s.sessions.next, (opened.known_iff _).mpr (Or.inr rfl), ?_⟩
      rw [opened.new, opened.data, new]
  · intro x known
    rw [opened.open_iff]
    rcases (opened.known_iff x).mp known with old | new
    · rw [or_iff_left (Nat.ne_of_lt old.1)]
      exact tidy.shut x old
    · refine iff_of_false (new ▸ notClosed) (not_not.mpr (Or.inr new))
  · exact fun x member => (opened.known_iff x).mpr (Or.inl (tidy.known x member))
  · rw [opened.sessions.faults (sound.unused _ (Nat.le_refl _))]
    exact tidy.accesses
  · rw [opened.buffers.faults (sound.pristine _ (Nat.le_refl _))]
    exact tidy.copies

/-- An open changes no session that was opened before, and no buffer of
one. -/
theorem Opened.reaches {id : Nat} {session : Session} {content : Bytes} (sound : Sound s)
    (opened : Opened s s' id session content) (uses : s'.uses = s.uses) : Reaches s s' none :=
  .quiet uses (fun _ known => opened.old known.1)
    (fun y data known owned => opened.buffers.older data (Nat.ne_of_lt (sound.issued y data known.1 owned))) _

theorem Tidy.sessOpen (tidy : Tidy s closed) (type : Int) (handler : Option Handler) (init : Payload)
    (grant : Nat -> Grant) :
    Tidy (sessOpen s type handler init grant).1 closed ∧
      Reaches s (Revenant.sessOpen s type handler init grant).1 none := by
  have count := sessOpen_count s type handler init grant
  rcases sessOpen_cases s type handler init grant with same | ⟨id, chosen, cap, same⟩ |
    ⟨id, session, content, opened, limited, returned⟩
  · rw [same]
    exact ⟨tidy, .refl s none⟩
  · rw [same]
    have older : forall y, Known s y -> (Revenant.withdrawn s id type chosen cap).session y = s.session y :=
      fun y known => Heap.alloc_cell_of_ne _ _ (Nat.ne_of_lt known.1)
    have uses : (Revenant.withdrawn s id type chosen cap).uses = s.uses := rfl
    exact ⟨tidy.withdrawn id type chosen cap, .quiet uses older (fun _ _ _ _ => rfl) none⟩
  · rw [returned, if_neg (by omega)] at count
    exact ⟨tidy.opened opened limited count.1, opened.reaches tidy.sound count.2⟩

end Open

section Close

variable {s : Store} {closed : List Block}

/-- A close releases, and changes the contents of nothing. -/
theorem closeHeld_reaches (s : Store) (index : Nat) (x : Block) :
    Reaches s (closeHeld s index x) (some x) := by
  have uses : (closeHeld s index x).uses = s.uses := rfl
  have cells : (closeHeld s index x).buffers.cell = s.buffers.cell := by
    rw [closeHeld_buffers, Heap.releaseAt_cell]
  exact .quiet uses (fun y _ => closeHeld_session s index x y) (fun _ data _ _ => congrFun cells data) _

theorem known_closeHeld_iff (s : Store) (index : Nat) (x y : Block) :
    Known (closeHeld s index x) y ↔ Known s y := by
  rw [Known, Known, closeHeld_next, closeHeld_session]

theorem Tidy.closeHeld (tidy : Tidy s closed) {index : Nat} {x : Block} (slot : s.slots index = some x) :
    Tidy (closeHeld s index x) (x :: closed) := by
  have sound := tidy.sound
  have inside := (sound.ids index x slot).1
  have isOpen : s.Open x := ⟨index, inside, slot⟩
  have knownNow := sound.known isOpen
  have notClosed : x ∉ closed := fun member => (tidy.shut x knownNow).mp member isOpen
  rcases sound.buffered x isOpen with ⟨data, owned, liveData⟩
  have buffers : (Revenant.closeHeld s index x).buffers = s.buffers.release data := by
    rw [closeHeld_buffers, owned]
    rfl
  have known := known_closeHeld_iff s index x
  constructor
  · exact sound.closeHeld slot
  · change s.count - 1 = (occupied sessMax (Function.update s.slots index none) : Int)
    have cleared := occupied_clear inside slot
    rw [tidy.counted]
    omega
  · intro y named
    rw [closeHeld_session]
    exact tidy.bounded y ((known y).mp named)
  · intro y named
    rw [closeHeld_releases]
    by_cases same : y = x
    · rw [same, Heap.release_releases_self, if_pos List.mem_cons_self, tidy.released x knownNow,
        if_neg notClosed]
    · rw [Heap.release_releases_of_ne _ same, tidy.released y ((known y).mp named)]
      simp only [List.mem_cons, same, false_or]
  · intro y other named ownsOther
    rw [closeHeld_session] at ownsOther
    rw [buffers]
    have before := tidy.freed y other ((known y).mp named) ownsOther
    by_cases same : y = x
    · rw [same] at ownsOther before
      have sameData : data = other := Option.some.inj (owned.symm.trans ownsOther)
      rw [← sameData] at before ⊢
      rw [same, Heap.release_releases_self, before, if_neg notClosed, if_pos List.mem_cons_self]
    · have apart : other ≠ data := fun sameData =>
        same (sound.sole y x other ((known y).mp named).1 knownNow.1 ownsOther (sameData ▸ owned))
      rw [Heap.release_releases_of_ne _ apart, before]
      simp only [List.mem_cons, same, false_or]
  · intro other issued
    rw [buffers] at issued
    rcases tidy.owned other issued with ⟨y, old, ownsOther⟩
    exact ⟨y, (known y).mpr old, by rw [closeHeld_session, ownsOther]⟩
  · intro y named
    rw [sound.closeHeld_open slot, List.mem_cons, tidy.shut y ((known y).mp named)]
    by_cases same : y = x
    · exact iff_of_true (Or.inl same) fun stays => stays.2 same
    · rw [or_iff_right same, and_iff_left same]
  · intro y member
    rcases List.mem_cons.mp member with same | before
    · exact (known y).mpr (same ▸ knownNow)
    · exact (known y).mpr (tidy.known y before)
  · have live := sound.live x isOpen
    change (s.sessions.touch x).faults = []
    rw [Heap.touch_of_live live]
    exact tidy.accesses
  · rw [buffers]
    exact tidy.copies

end Close

/-! ## One call -/

section Call

variable {s : Store} {closed : List Block}

/-- An ordinary handle is looked up in the table, and never through a
remembered pointer. -/
theorem lookup_ordinary {id : Int} (ordinary : id ≠ sessRecent) : s.lookup id = s.slotAt id :=
  if_neg ordinary

/-- A call through an ordinary handle works on an open session, or on none. -/
theorem Tidy.handled (tidy : Tidy s closed) {op : Op} {id : Int} (handled : op.handle = some id)
    (ordinary : id ≠ sessRecent) (target : op.target s = s.slotAt id)
    (acts : forall {t : Store} {x : Block}, s.slotAt id = some x -> t = { s with gRecent := some x } ->
      Tidy t closed -> t.Open x -> Tidy (op.act t x) closed ∧ Reaches t (op.act t x) (some x)) :
    Tidy (step s op) closed ∧ Reaches s (step s op) (op.target s) := by
  rw [target]
  cases found : s.slotAt id with
  | none =>
      rw [step_absent handled ((lookup_ordinary ordinary).trans found)]
      exact ⟨tidy, .refl s none⟩
  | some x =>
      have isOpen := Store.slotAt_open found
      rw [step_found handled ((lookup_ordinary ordinary).trans found)]
      rcases acts found rfl (tidy.setRecent (tidy.sound.known isOpen)) isOpen with ⟨kept, reaches⟩
      exact ⟨kept, reaches.logged, reaches.others⟩

theorem Tidy.step (tidy : Tidy s closed) {op : Op} (plain : op.plain s) :
    Tidy (step s op) ((op.closes s).toList ++ closed) ∧ Reaches s (Revenant.step s op) (op.target s) := by
  cases op with
  | opening type handler init grant => exact tidy.sessOpen type handler init grant
  | useRun id arg out =>
      exact tidy.handled rfl plain rfl fun {t x} _ _ kept isOpen =>
        ⟨kept.runSession isOpen arg out, runSession_reaches t x arg out⟩
  | useSet id arg =>
      refine tidy.handled rfl plain rfl fun {t x} _ _ kept isOpen => ?_
      have shorter : min arg.bytes.length (t.session x).cap ≤ (t.session x).cap := Nat.min_le_right _ _
      rw [Op.act, setSession_eq]
      refine ⟨kept.writeSession isOpen ?_ shorter,
        writeSession_reaches (kept.sound.known isOpen) kept.sound⟩
      rw [Nat.zero_add]
      exact Nat.le_trans (List.length_take_le _ _) shorter
  | useAppend id arg outcome =>
      refine tidy.handled rfl plain.1 rfl fun {t x} found same kept isOpen => ?_
      have fits : (t.session x).len + arg.bytes.length ≤ (t.session x).cap := by
        rw [same]
        exact plain.2 x found
      have known := kept.sound.known isOpen
      rw [Op.act, appendSession_eq (kept.sound.live x isOpen) fits (kept.bounded x known)]
      exact ⟨kept.writeSession isOpen fits fits, writeSession_reaches known kept.sound⟩
  | close id =>
      rw [Revenant.step, sessClose, Op.closes, Op.target]
      cases found : s.slotAt id with
      | none => exact ⟨tidy, .refl s none⟩
      | some x =>
          have closedNow := tidy.closeHeld (Store.slotAt_some found).2.2
          exact ⟨closedNow, closeHeld_reaches s id.toNat x⟩
  | stat verbose out =>
      have same : (sessStat s verbose out).1 = s := by
        rw [plain, sessStat]
        cases s.gRecent <;> rfl
      rw [Revenant.step, same]
      exact ⟨tidy, .refl s none⟩
  | get id => exact plain.elim
  | defer id => exact plain.elim
  | flush arg => exact plain.elim

end Call

/-! ## Requests -/

/-- A request on the plain path, in the state in which it is served.  What it
asks of an append depends on the session that it names. -/
structure PlainRequest (s : Store) (r : Request) : Prop where
  handle : r.id ≠ sessRecent
  undeferred : r.type &&& flagDefer = 0
  unflushed : r.op ≠ opFlush
  terse : r.op = opStat -> r.type &&& flagVerbose = 0
  fits : r.op = opUseAppend -> forall x, s.slotAt r.id = some x ->
    (s.session x).len + r.arg.bytes.length ≤ (s.session x).cap

section Request

variable {s : Store} {r : Request} (plugins : Nat -> Option Handler) (grant : Nat -> Grant)
  (outcome : Realloc)

theorem PlainRequest.call (plain : PlainRequest s r) (accepted : ¬ r.op > opFlush) (c : Conn) :
    (r.call plugins (verboseFor c r) grant outcome).plain s := by
  rw [Request.call]
  rcases op_cases accepted with same | same | same | same | same | same | same
  · rw [if_pos same]
    trivial
  · rw [same]
    exact plain.handle
  · rw [same]
    exact plain.handle
  · rw [same]
    exact ⟨plain.handle, plain.fits same⟩
  · rw [same]
    trivial
  · have quiet : verboseFor c r = false := by
      rw [verboseFor, plain.terse same]
      rfl
    rw [same, quiet]
    rfl
  · exact absurd same plain.unflushed

/-- The call works on the session that the handle of the request names, or on
none. -/
theorem Request.call_target (c : Conn) (y : Block)
    (other : s.slotAt r.id ≠ some y ∨ r.op = opOpen) :
    (r.call plugins (verboseFor c r) grant outcome).target s ≠ some y := by
  rw [Request.call]
  by_cases opening : r.op = opOpen
  · rw [if_pos opening]
    exact fun impossible => by cases impossible
  · have different := other.resolve_right opening
    rw [if_neg opening]
    split
    · exact different
    · split
      · exact different
      · split
        · exact different
        · split
          · exact different
          · split <;> exact fun impossible => by cases impossible

theorem Request.call_closes (c : Conn) :
    (r.call plugins (verboseFor c r) grant outcome).closes s =
      if r.op = opClose then s.slotAt r.id else none := by
  rw [Request.call]
  by_cases closing : r.op = opClose
  · rw [closing]
    rfl
  · rw [if_neg closing]
    split
    · rfl
    · split
      · rfl
      · split
        · rfl
        · split
          · rfl
          · split <;> rfl

end Request

/-- The requests of the plain path; connects and disconnects are free. -/
def PlainEvent (d : Daemon) : Event -> Prop
  | .request _ r _ _ => PlainRequest d.store r
  | .connect _ _ => True
  | .disconnect _ => True

/-- The session that an event closes: the one in the slot that an accepted
close names. -/
def closedBy (d : Daemon) : Event -> Option Block
  | .request k r _ _ =>
      if (d.conns k).isSome ∧ r.arg.bytes.length ≤ sessMaxArg ∧ r.op = opClose then d.store.slotAt r.id
      else none
  | .connect _ _ => none
  | .disconnect _ => none

/-- The server with the sessions closed so far. -/
abbrev Closings := Daemon × List Block

def closingStep (history : Closings) (event : Event) : Closings :=
  (daemonStep history.1 event, (closedBy history.1 event).toList ++ history.2)

/-- The plain path is safe: the handles are the slots, the counter counts
them, every session and its buffer are released when the session is closed and
once, no access was out of place, and a request reaches the session of its
handle only. -/
structure PlainSafe (history : Closings) : Prop where
  ids : forall index x, history.1.store.slots index = some x ->
    (history.1.store.session x).id = index
  counted : history.1.store.count = occupied sessMax history.1.store.slots
  shut : forall x, Known history.1.store x -> (x ∈ history.2 ↔ ¬ history.1.store.Open x)
  released : forall x, Known history.1.store x ->
    history.1.store.sessions.releases x = if x ∈ history.2 then 1 else 0
  freed : forall data, data < history.1.store.buffers.next ->
    exists x, Known history.1.store x ∧ (history.1.store.session x).data = some data ∧
      history.1.store.buffers.releases data = if x ∈ history.2 then 1 else 0
  accesses : history.1.store.sessions.faults = [] ∧ history.1.store.buffers.faults = []
  reaches : forall k r grant outcome use, PlainRequest history.1.store r ->
    use ∈ (daemonStep history.1 (.request k r grant outcome)).store.uses.drop
      history.1.store.uses.length -> history.1.store.Open use.session
  others : forall k r grant outcome y, PlainRequest history.1.store r -> Known history.1.store y ->
    history.1.store.slotAt r.id ≠ some y ∨ r.op = opOpen ->
    (daemonStep history.1 (.request k r grant outcome)).store.session y = history.1.store.session y ∧
      forall data, (history.1.store.session y).data = some data ->
        (daemonStep history.1 (.request k r grant outcome)).store.buffers.cell data =
          history.1.store.buffers.cell data

/-- A plain request is refused, or makes its call.  In either case the
sessions that it closes are those of the call. -/
theorem request_store (d : Daemon) (k : Nat) {r : Request} (grant : Nat -> Grant) (outcome : Realloc)
    (plain : PlainRequest d.store r) :
    ((daemonStep d (.request k r grant outcome)).store = d.store ∧
        closedBy d (.request k r grant outcome) = none) ∨
      exists op, op.plain d.store ∧ (daemonStep d (.request k r grant outcome)).store = step d.store op ∧
        closedBy d (.request k r grant outcome) = op.closes d.store ∧
        forall y, d.store.slotAt r.id ≠ some y ∨ r.op = opOpen -> op.target d.store ≠ some y := by
  rw [daemonStep, closedBy]
  cases connected : d.conns k with
  | none => exact Or.inl ⟨rfl, if_neg fun present => by cases present.1⟩
  | some c =>
      dsimp only
      rw [serveRequest]
      by_cases large : r.arg.bytes.length > sessMaxArg
      · rw [if_pos large, if_neg fun present => absurd present.2.1 (Nat.not_le.mpr large)]
        exact Or.inl ⟨rfl, rfl⟩
      · rw [if_neg large]
        by_cases rejected : r.op > opFlush
        · have other : r.op ≠ opClose := by
            intro same
            rw [same] at rejected
            exact absurd rejected (by decide)
          rw [if_pos rejected, if_neg fun present => other present.2.2]
          exact Or.inl ⟨rfl, rfl⟩
        · have direct : r.uses -> ¬ cached c r := fun _ through => plain.handle through.2
          have store := dispatch_store d.plugins d.store grant outcome direct
          rw [deferFlagged_unflagged plain.undeferred, ite_self] at store
          refine Or.inr ⟨r.call d.plugins (verboseFor c r) grant outcome,
            plain.call d.plugins grant outcome rejected c, ?_, ?_, ?_⟩
          · rw [if_neg rejected]
            exact store
          · rw [Request.call_closes]
            simp only [Option.isSome_some, Nat.not_lt.mp large, true_and]
          · exact Request.call_target d.plugins grant outcome c

theorem Tidy.plainSafe {history : Closings} (tidy : Tidy history.1.store history.2) :
    PlainSafe history where
  ids := fun index x holds => (tidy.sound.ids index x holds).2
  counted := tidy.counted
  shut := tidy.shut
  released := tidy.released
  freed := fun data issued => by
    rcases tidy.owned data issued with ⟨x, known, owned⟩
    exact ⟨x, known, owned, tidy.freed x data known owned⟩
  accesses := ⟨tidy.accesses, tidy.copies⟩
  reaches := fun k r grant outcome use plain member => by
    rcases request_store history.1 k grant outcome plain with ⟨same, _⟩ | ⟨op, plainCall, same, _, target⟩
    · rw [same, List.drop_length] at member
      cases member
    · rw [same] at member
      have named := (tidy.step plainCall).2.logged use member
      have held : history.1.store.slotAt r.id = some use.session := by
        by_contra different
        exact target use.session (Or.inl different) named
      exact Store.slotAt_open held
  others := fun k r grant outcome y plain known other => by
    rcases request_store history.1 k grant outcome plain with ⟨same, _⟩ | ⟨op, plainCall, same, _, target⟩
    · rw [same]
      exact ⟨rfl, fun _ _ => rfl⟩
    · rw [same]
      exact (tidy.step plainCall).2.others y known (target y other)

theorem Tidy.event {history : Closings} (tidy : Tidy history.1.store history.2) {event : Event}
    (plain : PlainEvent history.1 event) :
    Tidy (closingStep history event).1.store (closingStep history event).2 := by
  cases event with
  | connect k isTcp =>
      rw [closingStep, daemonStep]
      cases history.1.conns k <;> exact tidy
  | disconnect k => exact tidy
  | request k r grant outcome =>
      rw [closingStep]
      rcases request_store history.1 k grant outcome plain with
          ⟨same, closes⟩ | ⟨op, plainCall, same, closes, _⟩
      · rw [same, closes]
        exact tidy
      · rw [same, closes]
        exact (tidy.step plainCall).1

theorem tidy_sessNew : Tidy sessNew [] where
  sound := sound_sessNew
  counted := congrArg Int.ofNat (occupied_none sessMax).symm
  bounded := fun x known => absurd known.1 (Nat.not_lt_zero x)
  released := fun x known => absurd known.1 (Nat.not_lt_zero x)
  freed := fun x _ known => absurd known.1 (Nat.not_lt_zero x)
  owned := fun data issued => absurd issued (Nat.not_lt_zero data)
  shut := fun x known => absurd known.1 (Nat.not_lt_zero x)
  known := fun _ member => by cases member
  accesses := rfl
  copies := rfl

/-- In every interleaving of plain requests the sessions are safe, over any
number of connections of either transport, and also when a slot is used
again. -/
theorem plainSafe_throughout (found : Handler -> Bool) (events : List Event)
    (plain : Guarded closingStep (fun history event => PlainEvent history.1 event)
      (sessiondNew found, []) events) :
    Throughout closingStep PlainSafe (sessiondNew found, []) events := by
  have keeps : forall (history : Closings) event, Tidy history.1.store history.2 -> True ->
      PlainEvent history.1 event -> Tidy (closingStep history event).1.store (closingStep history event).2 :=
    fun _ _ tidy _ plain => tidy.event plain
  have start : (fun history : Closings => Tidy history.1.store history.2) (sessiondNew found, []) :=
    tidy_sessNew
  have tidy := throughout_of_guarded (fun _ => True) keeps start (fun _ _ => trivial) plain
  exact tidy.mono fun _ => Tidy.plainSafe

def openCloseReopen : List Event :=
  [.connect 0 false, .connect 1 true, .request 0 (helloRequest opOpen 0) generous .fails,
    .request 1 (helloRequest opClose 0) generous .fails,
    .request 1 (helloRequest opOpen 0) generous .fails]

def reopenThenAppend : List Event :=
  openCloseReopen ++ [.request 0 (helloRequest opUseAppend 0) generous .fails]

theorem helloRequest_plain (s : Store) {op : UInt8} (unflushed : op ≠ opFlush)
    (fits : op = opUseAppend -> forall x, s.slotAt 0 = some x -> (s.session x).len + 5 ≤ (s.session x).cap) :
    PlainRequest s (helloRequest op 0) where
  handle := (by decide : ((0 : UInt16).toNat : Int) ≠ sessRecent)
  undeferred := (by decide : (0 : UInt8) &&& flagDefer = 0)
  unflushed := unflushed
  terse := fun _ => (by decide : (0 : UInt8) &&& flagVerbose = 0)
  fits := fits

theorem reopened_fits :
    (run daemonStep (sessiondNew fun _ => true) openCloseReopen).store.slotAt 0 = some 1 ∧
      ((run daemonStep (sessiondNew fun _ => true) openCloseReopen).store.session 1).len + 5 ≤
        ((run daemonStep (sessiondNew fun _ => true) openCloseReopen).store.session 1).cap := by
  decide +kernel

theorem reopenThenAppend_safe :
    Throughout closingStep PlainSafe (sessiondNew fun _ => true, []) reopenThenAppend := by
  have plain : forall (s : Store) (op : UInt8), op = opOpen ∨ op = opClose ->
      PlainRequest s (helloRequest op 0) := by
    intro s op known
    apply helloRequest_plain s
    · rcases known with rfl | rfl <;> decide
    · intro append
      rcases known with rfl | rfl <;> exact absurd append (by decide)
  apply plainSafe_throughout
  refine ⟨trivial, trivial, plain _ _ (Or.inl rfl), plain _ _ (Or.inr rfl), plain _ _ (Or.inl rfl),
    ?_, trivial⟩
  refine helloRequest_plain _ (by decide) fun _ x named => ?_
  rcases reopened_fits with ⟨held, fits⟩
  have same : x = 1 := Option.some.inj (named.symm.trans held)
  rw [same]
  exact fits

end Revenant
end BugMuseum
