import BugMuseum.Foundation.PackedRecords

namespace BugMuseum
namespace Foundation

/-!
# Records on a stream

A stream hands out its bytes in pieces.  A read asks for some bytes and gets at
least one and at most what it asked for, as long as bytes are left; how many it gets is
up to the transport.  A full read repeats this until it has all it wants.

The point is that a full read does not depend on the pieces: it takes the next
bytes of the input, or fails because they are not there.  A loop that receives
record after record therefore handles the records that stand in front of the
input, up to the first that cannot be read.
-/

/-- The bytes still to come, and how many more than one are ready at each
read.  The transport chooses these numbers, so they are arbitrary. -/
structure Stream where
  input : Bytes
  offer : Nat -> Nat
  turn : Nat

/-- A new stream with these bytes, before its first read. -/
def Stream.of (input : Bytes) (offer : Nat -> Nat) : Stream where
  input := input
  offer := offer
  turn := 0

/-- One read.  At the end of the stream it returns no bytes or an error, and
before that at least one byte and at most what was asked for. -/
def Stream.read (s : Stream) (length : Nat) : Option (Bytes × Stream) :=
  if s.input = [] then none
  else
    let got := min length (s.offer s.turn + 1)
    some (s.input.take got, { s with input := s.input.drop got, turn := s.turn + 1 })

/-- The loop of a full read, which has read some bytes already.  Every turn
brings at least one byte, so the length bounds the number of turns. -/
def Stream.fill (length : Nat) : Nat -> Bytes -> Stream -> Option (Bytes × Stream)
  | 0, got, s => if got.length < length then none else some (got, s)
  | fuel + 1, got, s =>
      if got.length < length then
        match s.read (length - got.length) with
        | none => none
        | some (piece, s) => fill length fuel (got ++ piece) s
      else some (got, s)

def Stream.readFull (s : Stream) (length : Nat) : Option (Bytes × Stream) :=
  Stream.fill length length [] s

/-- A field that is read in full, or the connection is given up with the code
of the caller. -/
def Stream.takeField {ε : Type} (s : Stream) (truncated : ε) (length : Nat) : Except ε (Field length × Stream) :=
  match s.readFull length with
  | none => .error truncated
  | some (bytes, s) =>
      if measured : bytes.length = length then .ok (⟨bytes, measured⟩, s) else .error truncated

/-- A piece is the front of what is left, and it is not empty.  So the loop of
a full read makes progress in every turn. -/
theorem Stream.read_some {s later : Stream} {length : Nat} {piece : Bytes} (wanted : 0 < length)
    (read : s.read length = some (piece, later)) :
    s.input = piece ++ later.input ∧ 0 < piece.length ∧ piece.length ≤ length := by
  unfold Stream.read at read
  split at read
  · cases read
  · rename_i some
    cases read
    have left : 0 < s.input.length := List.length_pos_iff.mpr some
    refine ⟨(List.take_append_drop _ _).symm, ?_, ?_⟩
    · rw [List.length_take]
      omega
    · rw [List.length_take]
      omega

theorem Stream.fill_takes {length fuel : Nat} {got : Bytes} {s : Stream} (enough : length ≤ got.length + fuel)
    (short : got.length ≤ length) (there : length ≤ got.length + s.input.length) :
    exists later, Stream.fill length fuel got s = some (got ++ s.input.take (length - got.length), later) ∧
      later.input = s.input.drop (length - got.length) := by
  induction fuel generalizing got s with
  | zero =>
      have full : got.length = length := by omega
      rw [Stream.fill, if_neg (by omega), full, Nat.sub_self]
      exact ⟨s, by rw [List.take_zero, List.append_nil], rfl⟩
  | succ fuel inductionHypothesis =>
      rw [Stream.fill]
      by_cases full : got.length = length
      · rw [if_neg (by omega), full, Nat.sub_self]
        exact ⟨s, by rw [List.take_zero, List.append_nil], rfl⟩
      · have wanted : 0 < length - got.length := by omega
        rw [if_pos (by omega)]
        cases read : s.read (length - got.length) with
        | none =>
            have left : s.input ≠ [] := by
              intro empty
              rw [empty, List.length_nil] at there
              omega
            rw [Stream.read, if_neg left] at read
            cases read
        | some taken =>
            rcases taken with ⟨piece, rest⟩
            rcases Stream.read_some wanted read with ⟨split, some, within⟩
            have measured := congrArg List.length split
            rw [List.length_append] at measured
            have sum : (got ++ piece).length = got.length + piece.length := List.length_append
            have less : length - got.length = piece.length + (length - (got ++ piece).length) := by omega
            have sooner : length ≤ (got ++ piece).length + fuel := by omega
            have fitting : (got ++ piece).length ≤ length := by omega
            have more : length ≤ (got ++ piece).length + rest.input.length := by omega
            rcases inductionHypothesis sooner fitting more with ⟨later, filled, behind⟩
            refine ⟨later, ?_, ?_⟩
            · dsimp only
              rw [filled, split, less, List.take_length_add_append, List.append_assoc]
            · rw [behind, split, less, List.drop_length_add_append]

theorem Stream.fill_fails {length fuel : Nat} {got : Bytes} {s : Stream}
    (missing : got.length + s.input.length < length) : Stream.fill length fuel got s = none := by
  induction fuel generalizing got s with
  | zero => rw [Stream.fill, if_pos (by omega)]
  | succ fuel inductionHypothesis =>
      rw [Stream.fill, if_pos (by omega)]
      cases read : s.read (length - got.length) with
      | none => rfl
      | some taken =>
          rcases taken with ⟨piece, rest⟩
          rcases Stream.read_some (by omega) read with ⟨split, _, _⟩
          have measured := congrArg List.length split
          rw [List.length_append] at measured
          apply inductionHypothesis
          rw [List.length_append]
          omega

/-- A reader of a stream and a reader of its bytes have got the same, and have
the same bytes before them.  How the stream will hand them out does not matter
any more. -/
def SameRest {α : Type} (left : α × Stream) (right : α × Bytes) : Prop :=
  left.1 = right.1 ∧ left.2.input = right.2

theorem Stream.takeField_agrees {ε : Type} (s : Stream) (truncated : ε) (length : Nat) :
    Agrees SameRest (s.takeField truncated length) (Foundation.takeField truncated length s.input) := by
  rw [Stream.takeField, Stream.readFull, Foundation.takeField]
  by_cases there : length ≤ s.input.length
  · have enough : length ≤ ([] : Bytes).length + length := Nat.le_add_left length _
    have within : length ≤ ([] : Bytes).length + s.input.length := there.trans (Nat.le_add_left _ _)
    rcases Stream.fill_takes enough (Nat.zero_le length) within with ⟨later, filled, behind⟩
    rw [List.nil_append, List.length_nil, Nat.sub_zero] at filled
    rw [List.length_nil, Nat.sub_zero] at behind
    rw [filled, dif_pos there]
    dsimp only
    rw [dif_pos (List.length_take_of_le there)]
    exact .read ⟨rfl, behind⟩
  · have missing : ([] : Bytes).length + s.input.length < length := by
      rw [List.length_nil]
      omega
    rw [Stream.fill_fails missing, dif_neg there]
    exact .failed truncated

namespace RecordFormat

variable {R ε : Type} (format : RecordFormat R ε)

/-- One record from a stream.  The header is read in full, and then the
payload if there is one; its length is compared with the limit before memory
is asked for. -/
def receive (memory : Bool) (s : Stream) : Except ε (R × Stream) := do
  let taken ← s.takeField format.short (1 + (1 + (2 + 4)))
  let kind := taken.1.split
  let flags := kind.2.split
  let number := flags.2.split
  let length := number.2
  failIf format.big (length.toNat > format.limit)
  failIf format.memory (length.toNat ≠ 0 ∧ memory = false)
  let payload ← taken.2.takeField format.short length.toNat
  return (format.ofFields kind.1 flags.1 number.1 ⟨payload.1.1, payload.1.2.symm ▸ length.toNat_lt⟩, payload.2)

theorem receive_agrees (memory : Bool) (s : Stream) :
    Agrees SameRest (format.receive memory s) (format.readPacked memory s.input) := by
  rw [receive, readPacked]
  apply (s.takeField_agrees format.short _).bind
  rintro ⟨header, behind⟩ ⟨_, rest⟩ ⟨rfl, rfl⟩
  rw [readBehind]
  apply Agrees.bind_failIf
  intro _
  rw [readPayload]
  simp only [bind_assoc]
  apply Agrees.bind_failIf
  intro _
  apply (behind.takeField_agrees format.short _).bind
  rintro ⟨payload, later⟩ ⟨_, left⟩ ⟨rfl, rfl⟩
  exact .read ⟨rfl, rfl⟩

/-- The loop of a connection: a record is received and handled, until none can
be received.  The fuel bounds the number of records. -/
def serve {σ : Type} (memory : Nat -> Bool) (handle : Nat -> σ -> R -> σ) (stop : σ -> ε -> σ) :
    Nat -> Nat -> σ -> Stream -> σ
  | 0, _, v, _ => v
  | fuel + 1, i, v, s =>
      match format.receive (memory i) s with
      | .error code => stop v code
      | .ok (r, s) => serve memory handle stop fuel (i + 1) (handle i v r) s

/-! ## The records in front of an input -/

/-- The longest prefix of complete records: the next record is cut off, or has
too long a payload, or gets no memory for it.  The records are numbered from
`i` on, as the outcome of the allocation may be another one for each. -/
structure Frames (memory : Nat -> Bool) (i : Nat) (records : List R) (rest input : Bytes) : Prop where
  split : input = records.flatMap format.encode ++ rest
  readable : forall index r, records[index]? = some r -> format.Fits (memory (i + index)) r
  ends : forall r behind, rest = format.encode r ++ behind -> ¬ format.Fits (memory (i + records.length)) r

namespace Frames

variable {format}
variable {memory : Nat -> Bool} {i : Nat} {records : List R} {r : R} {rest input : Bytes}

/-- One more record in front of the prefix, if it can be read.  This is one
turn of the loop. -/
theorem cons (fits : format.Fits (memory i) r) (frames : format.Frames memory (i + 1) records rest input) :
    format.Frames memory i (r :: records) rest (format.encode r ++ input) where
  split := by rw [List.flatMap_cons, List.append_assoc, ← frames.split]
  readable := by
    intro index other at_
    cases index with
    | zero =>
        cases at_
        exact fits
    | succ index =>
        have later := frames.readable index other at_
        rwa [Nat.add_right_comm i 1 index] at later
  ends := by
    intro other behind split
    have later := frames.ends other behind split
    rwa [Nat.add_right_comm i 1 records.length] at later

theorem tail (frames : format.Frames memory i (r :: records) rest input) : format.Fits (memory i) r ∧
    format.Frames memory (i + 1) records rest (records.flatMap format.encode ++ rest) ∧
    input = format.encode r ++ (records.flatMap format.encode ++ rest) := by
  refine ⟨frames.readable 0 r rfl, ⟨rfl, ?_, ?_⟩, ?_⟩
  · intro index other at_
    have later := frames.readable (index + 1) other at_
    rwa [← Nat.add_assoc, Nat.add_right_comm] at later
  · intro other behind split
    have later := frames.ends other behind split
    rwa [List.length_cons, ← Nat.add_assoc, Nat.add_right_comm] at later
  · rw [frames.split, List.flatMap_cons, List.append_assoc]

/-- Behind the last record nothing is read, and the reader says why. -/
theorem stops (frames : format.Frames memory i [] rest input) :
    exists code, format.readPacked (memory i) input = .error code := by
  cases read : format.readPacked (memory i) input with
  | error code => exact ⟨code, rfl⟩
  | ok taken =>
      have written := readPacked_eq_ok.mp read
      have same : input = rest := frames.split
      exact absurd written.2 (frames.ends taken.1 taken.2 (same ▸ written.1))

/-- Every input has such a prefix, also one that begins in the middle of
nowhere: it is the empty one then. -/
theorem exist (memory : Nat -> Bool) (i : Nat) (input : Bytes) :
    exists records rest, format.Frames memory i records rest input := by
  generalize size : input.length = length
  induction length using Nat.strong_induction_on generalizing i input with
  | h length inductionHypothesis =>
      cases read : format.readPacked (memory i) input with
      | error code =>
          refine ⟨[], input, rfl, ?_, ?_⟩
          · intro index r impossible
            cases impossible
          · intro r behind split fits
            have found : format.readPacked (memory i) input = .ok (r, behind) :=
              readPacked_eq_ok.mpr ⟨split, fits⟩
            rw [read] at found
            cases found
      | ok taken =>
          rcases taken with ⟨r, later⟩
          rcases readPacked_eq_ok.mp read with ⟨split, fits⟩
          have shorter : later.length < length := by
            rw [← size, split, List.length_append, format.encode_length]
            omega
          rcases inductionHypothesis later.length shorter (i + 1) later rfl with ⟨records, rest, frames⟩
          exact ⟨r :: records, rest, split ▸ frames.cons fits⟩

/-- Records that all can be read, with nothing behind them, are the prefix of
their encoding. -/
theorem complete {records : List R} (within : forall r, r ∈ records -> (format.payload r).bytes.length ≤ format.limit)
    (granted : forall i, memory i = true) (i : Nat) :
    format.Frames memory i records [] (records.flatMap format.encode) where
  split := (List.append_nil _).symm
  readable := fun index r at_ => ⟨within r (List.mem_of_getElem? at_), Or.inr (granted _)⟩
  ends := by
    intro r behind split
    have measured := congrArg List.length split
    rw [List.length_append, format.encode_length, List.length_nil] at measured
    omega

/-- A limited number of records in front of a string are the records that a
stream of their bytes holds, so reading them from the string comes to the
same. -/
theorem replayed {σ : Type} {handle : Nat -> σ -> R -> σ} {count : Nat} {body : Bytes} (v : σ)
    (frames : format.Frames memory i records rest (format.recordBytes count body)) :
    format.replay memory handle count i v body = handleAll handle i v records ∧
      forall r, r ∈ records -> r ∈ format.recordsIn count body := by
  induction count generalizing i v records body with
  | zero =>
      cases records with
      | nil => exact ⟨rfl, fun _ member => member⟩
      | cons r later =>
          have measured := congrArg List.length frames.tail.2.2
          rw [List.length_append, format.encode_length, recordBytes, List.length_nil] at measured
          omega
  | succ count inductionHypothesis =>
      rw [recordBytes] at frames
      rw [replay, recordsIn]
      cases read : format.readFields true body with
      | error stop =>
          rw [read] at frames
          dsimp only at frames ⊢
          have unread : forall r behind, format.readFields true body = .ok (r, behind) ->
              ¬ format.Fits (memory i) r := by
            intro r behind found
            rw [read] at found
            cases found
          cases records with
          | nil =>
              rcases readFields_stops unread with ⟨early, ends⟩
              rw [ends]
              exact ⟨rfl, fun _ member => member⟩
          | cons r later =>
              rcases frames.tail with ⟨fits, _, split⟩
              exact absurd fits (unread r _ (readFields_eq_ok.mpr ⟨split, fits.granted⟩))
      | ok taken =>
          rcases taken with ⟨r, behind⟩
          rw [read] at frames
          dsimp only at frames ⊢
          rcases readFields_eq_ok.mp read with ⟨split, granted⟩
          cases records with
          | nil =>
              have refused : ¬ format.Fits (memory i) r := frames.ends r _ frames.split.symm
              have unread : forall other rest, format.readFields true body = .ok (other, rest) ->
                  ¬ format.Fits (memory i) other := by
                intro other rest found
                rw [read] at found
                cases found
                exact refused
              rcases readFields_stops unread with ⟨early, ends⟩
              rw [ends]
              exact ⟨rfl, fun _ impossible => absurd impossible List.not_mem_nil⟩
          | cons other later =>
              rcases frames.tail with ⟨fits, framesLater, same⟩
              rcases encode_append_cancel granted fits.granted same with ⟨rfl, left⟩
              rw [← left] at framesLater
              rcases inductionHypothesis (handle i v r) framesLater with ⟨handled, members⟩
              rw [readFields_eq_ok.mpr ⟨split, fits⟩]
              refine ⟨handled, fun other member => ?_⟩
              rcases List.mem_cons.mp member with rfl | behindIt
              · exact List.mem_cons_self
              · exact List.mem_cons_of_mem r (members other behindIt)

end Frames

section Loop

variable {format}
variable {σ : Type} {memory : Nat -> Bool} (handle : Nat -> σ -> R -> σ) (stop : σ -> ε -> σ)

/-- Whatever the pieces, the loop handles the records in front and stops
behind them.  The fuel is enough when it exceeds the length of the input,
since a record has eight bytes at least. -/
theorem serve_eq_handleAll {fuel i : Nat} {records : List R} {rest : Bytes} {s : Stream} (v : σ)
    (frames : format.Frames memory i records rest s.input) (enough : s.input.length < fuel) :
    exists code, format.readPacked (memory (i + records.length)) rest = .error code ∧
      format.serve memory handle stop fuel i v s = stop (handleAll handle i v records) code := by
  induction records generalizing fuel i v s with
  | nil =>
      obtain ⟨fuel, rfl⟩ := Nat.exists_eq_succ_of_ne_zero (Nat.ne_of_gt (Nat.zero_lt_of_lt enough))
      have same : s.input = rest := frames.split
      rcases frames.stops with ⟨code, unread⟩
      refine ⟨code, same ▸ unread, ?_⟩
      have agrees := format.receive_agrees (memory i) s
      rw [unread] at agrees
      rcases agrees.outcome with ⟨_, received, same⟩ | ⟨_, _, _, impossible, _⟩
      · cases same
        rw [serve, received, handleAll]
      · cases impossible
  | cons r records inductionHypothesis =>
      obtain ⟨fuel, rfl⟩ := Nat.exists_eq_succ_of_ne_zero (Nat.ne_of_gt (Nat.zero_lt_of_lt enough))
      rcases frames.tail with ⟨fits, later, split⟩
      have read := readPacked_eq_ok.mpr ⟨split, fits⟩
      have agrees := format.receive_agrees (memory i) s
      rw [read] at agrees
      rcases agrees.outcome with ⟨_, _, impossible⟩ | ⟨⟨_, behind⟩, _, received, same, rfl, left⟩
      · cases impossible
      · cases same
        dsimp only at left
        have shorter : behind.input.length < fuel := by
          rw [split, List.length_append, format.encode_length, ← left] at enough
          omega
        rcases inductionHypothesis (handle i v r) (left ▸ later) shorter with ⟨code, unread, served⟩
        refine ⟨code, ?_, ?_⟩
        · rwa [List.length_cons, ← Nat.add_assoc, Nat.add_right_comm]
        · rw [serve, received, handleAll]
          exact served

/-- A log of the handled records that are known holds them in their order,
behind what was logged before. -/
theorem handleAll_log {known : R -> Prop} [DecidablePred known] {log : σ -> List R}
    (logs : forall i v r, log (handle i v r) = log v ++ if known r then [r] else []) (i : Nat) (v : σ)
    (records : List R) : log (handleAll handle i v records) = log v ++ records.filter known := by
  induction records generalizing i v with
  | nil => exact (List.append_nil _).symm
  | cons r later inductionHypothesis =>
      rw [handleAll, inductionHypothesis, logs, List.append_assoc, List.filter_cons]
      by_cases listed : known r
      · rw [if_pos listed, if_pos (decide_eq_true listed), List.singleton_append]
      · rw [if_neg listed, if_neg (by simpa using listed), List.nil_append]

end Loop

/-- A server that keeps the frames of a stream: it dispatches the known
records in front of the input, in order, and nothing that comes of it depends
on the pieces.  What comes of a connection is what the turns of the loop make
of these records, one after the other, and then the turn that leaves the loop
for what stands behind them. -/
structure KeepsFrames {σ : Type} (memory : Nat -> Bool) (known : R -> Prop) [DecidablePred known]
    (handle : Nat -> σ -> R -> σ) (stop : σ -> ε -> σ) (start : σ) (outcome : Stream -> σ)
    (dispatched : σ -> List R) : Prop where
  complete : forall (records : List R) s, (forall r, r ∈ records -> (format.payload r).bytes.length ≤ format.limit) ->
    (forall i, memory i = true) -> s.input = records.flatMap format.encode ->
    dispatched (outcome s) = records.filter known
  longest : forall s, (exists records rest, format.Frames memory 0 records rest s.input) ∧
    forall records rest, format.Frames memory 0 records rest s.input ->
      dispatched (outcome s) = records.filter known
  folds : forall s records rest, format.Frames memory 0 records rest s.input ->
    exists code, format.readPacked (memory records.length) rest = .error code ∧
      outcome s = stop (handleAll handle 0 start records) code
  pieces : forall s other, s.input = other.input -> outcome s = outcome other

/-- The loop of a connection keeps the frames when each turn logs what it
dispatches.  Nothing more is asked of the turns, so the rule holds for any
table of operations. -/
theorem keepsFrames {σ : Type} (memory : Nat -> Bool) {known : R -> Prop} [DecidablePred known]
    {handle : Nat -> σ -> R -> σ} {stop : σ -> ε -> σ} {log : σ -> List R} (v : σ)
    (logs : forall i v r, log (handle i v r) = log v ++ if known r then [r] else [])
    (stopped : forall v code, log (stop v code) = log v) (fresh : log v = []) :
    format.KeepsFrames memory known handle stop v
      (fun s => format.serve memory handle stop (s.input.length + 1) 0 v s) log := by
  have folds : forall (s : Stream) records rest, format.Frames memory 0 records rest s.input ->
      exists code, format.readPacked (memory records.length) rest = .error code ∧
        format.serve memory handle stop (s.input.length + 1) 0 v s = stop (handleAll handle 0 v records) code := by
    intro s records rest frames
    rcases serve_eq_handleAll handle stop v frames (Nat.lt_succ_self _) with ⟨code, unread, served⟩
    rw [Nat.zero_add] at unread
    exact ⟨code, unread, served⟩
  have longest : forall (s : Stream) records rest, format.Frames memory 0 records rest s.input ->
      log (format.serve memory handle stop (s.input.length + 1) 0 v s) = records.filter known := by
    intro s records rest frames
    rcases folds s records rest frames with ⟨code, _, served⟩
    rw [served, stopped, handleAll_log handle logs, fresh, List.nil_append]
  refine ⟨?_, ?_, folds, ?_⟩
  · intro records s within granted input
    exact longest s records [] (input ▸ Frames.complete within granted 0)
  · exact fun s => ⟨Frames.exist memory 0 s.input, longest s⟩
  · intro s other same
    obtain ⟨records, rest, frames⟩ : exists records rest, format.Frames memory 0 records rest s.input :=
      Frames.exist memory 0 s.input
    rcases folds s records rest frames with ⟨code, unread, served⟩
    rcases folds other records rest (same ▸ frames) with ⟨_, again, servedOther⟩
    rw [unread] at again
    cases again
    rw [served, servedOther]

end RecordFormat

end Foundation
end BugMuseum
