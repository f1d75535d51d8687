import BugMuseum.Foundation.ByteReader
import BugMuseum.Foundation.ByteStrings

namespace BugMuseum
namespace Foundation

/-!
# Packed records

A packed record consists of a byte for the operation, a byte of flags, a 16-bit
number, a 32-bit length and so many bytes of payload.  Programs keep such records in
types of their own, and they differ in the longest payload they take and in what
they report when they stop.  A `RecordFormat` lists these differences, and
everything below holds for each of them.

The header can be read in one piece or field by field.  Both readers are the inverse
of the encoder, so what a byte string holds, up to a number of records, is the same
for both.
-/

/-- A type of records, the longest payload, and the reasons to stop.  The two
laws at the end say that a record is no more than its four parts. -/
structure RecordFormat (R ε : Type) where
  make : UInt8 -> UInt8 -> UInt16 -> Payload -> R
  kind : R -> UInt8
  flags : R -> UInt8
  number : R -> UInt16
  payload : R -> Payload
  limit : Nat
  short : ε       -- the input ends
  big : ε         -- the announced payload is too long
  memory : ε      -- no memory for the payload
  make_parts : forall r, make (kind r) (flags r) (number r) (payload r) = r
  parts_make : forall k f n p, kind (make k f n p) = k ∧ flags (make k f n p) = f ∧
    number (make k f n p) = n ∧ payload (make k f n p) = p

namespace RecordFormat

variable {R ε : Type} (format : RecordFormat R ε)

def ofFields (kind flags : Field 1) (number : Field 2) (payload : Payload) : R :=
  format.make (UInt8.ofNat kind.toNat) (UInt8.ofNat flags.toNat) (UInt16.ofNat number.toNat) payload

theorem announced_lt {length : Field 4} (payload : Field length.toNat) : payload.1.length < 2 ^ 32 :=
  payload.2.symm ▸ length.toNat_lt

/-- The payload of an announced length.  Memory is asked for only when there
is something to read, so an empty payload cannot fail for want of it. -/
def readPayload (memory : Bool) (length : Field 4) (input : Bytes) : Except ε (Payload × Bytes) := do
  failIf format.memory (length.toNat ≠ 0 ∧ memory = false)
  let (payload, input) ← takeField format.short length.toNat input
  return (⟨payload.1, announced_lt payload⟩, input)

/-- What follows the header.  The announced length is compared with the limit
before anything is allocated or read. -/
def readBehind (memory : Bool) (kind flags : Field 1) (number : Field 2) (length : Field 4)
    (input : Bytes) : Except ε (R × Bytes) := do
  failIf format.big (length.toNat > format.limit)
  let (payload, input) ← format.readPayload memory length input
  return (format.ofFields kind flags number payload, input)

/-- The header is read in one piece, as the servers do it. -/
def readPacked (memory : Bool) (input : Bytes) : Except ε (R × Bytes) := do
  let taken ← takeField format.short (1 + (1 + (2 + 4))) input
  let kind := taken.1.split
  let flags := kind.2.split
  let number := flags.2.split
  format.readBehind memory kind.1 flags.1 number.1 number.2 taken.2

/-- The header is read field by field, as the replay tools do it. -/
def readFields (memory : Bool) (input : Bytes) : Except ε (R × Bytes) := do
  let (kind, input) ← takeField format.short 1 input
  let (flags, input) ← takeField format.short 1 input
  let (number, input) ← takeField format.short 2 input
  let (length, input) ← takeField format.short 4 input
  format.readBehind memory kind flags number length input

/-- Both read the same records and stop for the same reasons, also on an input
that ends inside the header. -/
theorem readPacked_eq_readFields (memory : Bool) (input : Bytes) :
    format.readPacked memory input = format.readFields memory input := by
  rw [readPacked, readFields, takeField_add]
  refine congrArg (takeField format.short 1 input >>= ·) (funext fun kind => ?_)
  rw [takeField_add]
  refine congrArg (takeField format.short 1 kind.2 >>= ·) (funext fun flags => ?_)
  rw [takeField_add]
  refine congrArg (takeField format.short 2 flags.2 >>= ·) (funext fun number => ?_)
  refine congrArg (takeField format.short 4 number.2 >>= ·) (funext fun length => ?_)
  simp only [Field.split_append]

/-- `u8 | u8 | u16 | u32 | payload`, with the numbers in little-endian
order. -/
def encode (r : R) : Bytes :=
  toLE 1 (format.kind r).toNat ++ (toLE 1 (format.flags r).toNat ++ (toLE 2 (format.number r).toNat ++
    (toLE 4 (format.payload r).bytes.length ++ (format.payload r).bytes)))

theorem encode_length (r : R) : (format.encode r).length = 8 + (format.payload r).bytes.length := by
  simp only [encode, List.length_append, toLE_length]
  omega

theorem encode_ofFields (kind flags : Field 1) (number : Field 2) {length : Field 4} {payload : Payload}
    (measured : length.toNat = payload.bytes.length) :
    format.encode (format.ofFields kind flags number payload) =
      kind.1 ++ (flags.1 ++ (number.1 ++ (length.1 ++ payload.bytes))) := by
  have kindByte : toLE 1 (UInt8.ofNat kind.toNat).toNat = kind.1 := by
    rw [UInt8.toNat_ofNat_of_lt' kind.toNat_lt]
    exact congrArg Subtype.val kind.ofNat_toNat
  have flagsByte : toLE 1 (UInt8.ofNat flags.toNat).toNat = flags.1 := by
    rw [UInt8.toNat_ofNat_of_lt' flags.toNat_lt]
    exact congrArg Subtype.val flags.ofNat_toNat
  have numberBytes : toLE 2 (UInt16.ofNat number.toNat).toNat = number.1 := by
    rw [UInt16.toNat_ofNat_of_lt' number.toNat_lt]
    exact congrArg Subtype.val number.ofNat_toNat
  have lengthBytes : toLE 4 payload.bytes.length = length.1 := by
    rw [← measured]
    exact congrArg Subtype.val length.ofNat_toNat
  rcases format.parts_make (UInt8.ofNat kind.toNat) (UInt8.ofNat flags.toNat) (UInt16.ofNat number.toNat)
    payload with ⟨sameKind, sameFlags, sameNumber, samePayload⟩
  simp only [encode, ofFields, sameKind, sameFlags, sameNumber, samePayload, kindByte, flagsByte,
    numberBytes, lengthBytes]

theorem ofFields_ofNat (r : R) :
    format.ofFields (.ofNat 1 (format.kind r).toNat) (.ofNat 1 (format.flags r).toNat)
      (.ofNat 2 (format.number r).toNat) (format.payload r) = r := by
  have kindByte : (Field.ofNat 1 (format.kind r).toNat).toNat = (format.kind r).toNat :=
    Field.toNat_ofNat (format.kind r).toNat_lt
  have flagsByte : (Field.ofNat 1 (format.flags r).toNat).toNat = (format.flags r).toNat :=
    Field.toNat_ofNat (format.flags r).toNat_lt
  have numberBytes : (Field.ofNat 2 (format.number r).toNat).toNat = (format.number r).toNat :=
    Field.toNat_ofNat (format.number r).toNat_lt
  rw [ofFields, kindByte, flagsByte, numberBytes, UInt8.ofNat_toNat, UInt8.ofNat_toNat, UInt16.ofNat_toNat]
  exact format.make_parts r

/-- The payload of a record can be read: it is within the limit, and there is
memory for it unless it is empty. -/
def Fits (memory : Bool) (r : R) : Prop :=
  (format.payload r).bytes.length ≤ format.limit ∧ ((format.payload r).bytes = [] ∨ memory = true)

variable {format}

/-- Whether memory is granted matters only to a record that can be read with
it. -/
theorem Fits.granted {memory : Bool} {r : R} (fits : format.Fits memory r) : format.Fits true r :=
  ⟨fits.1, Or.inr rfl⟩

theorem readPayload_eq_ok {memory : Bool} {length : Field 4} {input rest : Bytes} {payload : Payload} :
    format.readPayload memory length input = .ok (payload, rest) ↔
      input = payload.bytes ++ rest ∧ length.toNat = payload.bytes.length ∧
        (payload.bytes = [] ∨ memory = true) := by
  simp only [readPayload, bind_eq_ok, Prod.exists, takeField_eq_ok, failIf_eq_ok]
  constructor
  · rintro ⟨_, provided, bytes, _, rfl, result⟩
    cases result
    refine ⟨rfl, bytes.2.symm, ?_⟩
    by_cases empty : bytes.1 = []
    · exact Or.inl empty
    · have some : length.toNat ≠ 0 := fun zero => empty (List.eq_nil_of_length_eq_zero (bytes.2.trans zero))
      exact Or.inr (by simpa [some] using provided)
  · rintro ⟨split, measured, provided⟩
    refine ⟨(), ?_, ⟨payload.bytes, measured.symm⟩, rest, split, rfl⟩
    rintro ⟨some, refused⟩
    rcases provided with empty | granted
    · rw [empty] at measured
      exact some measured
    · rw [refused] at granted
      cases granted

/-- What is read is what was written, and what was written is read, provided
that it fits.  So the reader is the inverse of the encoder. -/
theorem readFields_eq_ok {memory : Bool} {input rest : Bytes} {r : R} :
    format.readFields memory input = .ok (r, rest) ↔ input = format.encode r ++ rest ∧ format.Fits memory r := by
  simp only [readFields, readBehind, readPayload_eq_ok, bind_eq_ok, Prod.exists, takeField_eq_ok,
    failIf_eq_ok]
  constructor
  · rintro ⟨kind, _, rfl, flags, _, rfl, number, _, rfl, length, _, rfl, _, within, payload, _,
      ⟨rfl, measured, provided⟩, result⟩
    cases result
    have same : format.payload (format.ofFields kind flags number payload) = payload :=
      (format.parts_make _ _ _ _).2.2.2
    refine ⟨?_, ?_, ?_⟩
    · rw [encode_ofFields format kind flags number measured]
      simp only [List.append_assoc]
    · rw [same, ← measured]
      exact Nat.not_lt.mp within
    · rwa [same]
  · rintro ⟨split, within, provided⟩
    have measured : (Field.ofNat 4 (format.payload r).bytes.length).toNat =
        (format.payload r).bytes.length := Field.toNat_ofNat (format.payload r).fits
    refine ⟨.ofNat 1 (format.kind r).toNat, _, ?_, .ofNat 1 (format.flags r).toNat, _, rfl,
      .ofNat 2 (format.number r).toNat, _, rfl, .ofNat 4 (format.payload r).bytes.length, _, rfl, (), ?_,
      format.payload r, rest, ⟨rfl, measured, provided⟩, ?_⟩
    · rw [split, encode]
      simp only [List.append_assoc]
      rfl
    · rw [measured]
      exact Nat.not_lt.mpr within
    · exact congrArg (fun read => Except.ok (read, rest)) (format.ofFields_ofNat r)

theorem readPacked_eq_ok {memory : Bool} {input rest : Bytes} {r : R} :
    format.readPacked memory input = .ok (r, rest) ↔ input = format.encode r ++ rest ∧ format.Fits memory r := by
  rw [readPacked_eq_readFields, readFields_eq_ok]

/-- Two records that start the same bytes are one record, and what stands
behind them is the same.  No written record is the front of another one. -/
theorem encode_append_cancel {r other : R} {rest behind : Bytes} (fits : format.Fits true r)
    (fitsOther : format.Fits true other) (same : format.encode r ++ rest = format.encode other ++ behind) :
    r = other ∧ rest = behind := by
  have read : format.readFields true (format.encode r ++ rest) = .ok (r, rest) :=
    readFields_eq_ok.mpr ⟨rfl, fits⟩
  rw [readFields_eq_ok.mpr ⟨same, fitsOther⟩] at read
  cases read
  exact ⟨rfl, rfl⟩

/-- With less memory, a reader stops at a record or reads it all the same; it
never reads another one. -/
theorem readFields_stops {memory : Bool} {input : Bytes}
    (unread : forall r rest, format.readFields true input = .ok (r, rest) -> ¬ format.Fits memory r) :
    exists stop, format.readFields memory input = .error stop := by
  cases read : format.readFields memory input with
  | error stop => exact ⟨stop, rfl⟩
  | ok taken =>
      have split := readFields_eq_ok.mp read
      exact absurd split.2 (unread taken.1 taken.2 (readFields_eq_ok.mpr ⟨split.1, split.2.granted⟩))

/-! ## Byte strings of records -/

variable (format)

/-- The records in front, at most so many.  The first that cannot be read ends
them. -/
def recordsIn : Nat -> Bytes -> List R
  | 0, _ => []
  | count + 1, body =>
      match format.readFields true body with
      | .error _ => []
      | .ok (r, rest) => r :: recordsIn count rest

/-- The bytes of these records.  A record that cannot be read ends the string,
and all that is left counts as its bytes. -/
def recordBytes : Nat -> Bytes -> Bytes
  | 0, _ => []
  | count + 1, body =>
      match format.readFields true body with
      | .error _ => body
      | .ok (r, rest) => format.encode r ++ recordBytes count rest

/-- The records in front are read and handled one by one, at most so many.  A
record for which there is no memory ends the replay. -/
def replay {σ : Type} (memory : Nat -> Bool) (handle : Nat -> σ -> R -> σ) : Nat -> Nat -> σ -> Bytes -> σ
  | 0, _, v, _ => v
  | count + 1, i, v, body =>
      match format.readFields (memory i) body with
      | .error _ => v
      | .ok (r, rest) => replay memory handle count (i + 1) (handle i v r) rest

/-- Records that are there already are handled one by one, and numbered from
`i` on. -/
def handleAll {σ : Type} (handle : Nat -> σ -> R -> σ) : Nat -> σ -> List R -> σ
  | _, v, [] => v
  | i, v, r :: later => handleAll handle (i + 1) (handle i v r) later

/-- A string of written records holds these records and their bytes, whatever
stands behind them. -/
theorem recordsIn_encoded {records : List R} (within : forall r, r ∈ records -> format.Fits true r)
    (behind : Bytes) :
    format.recordsIn records.length (records.flatMap format.encode ++ behind) = records ∧
      format.recordBytes records.length (records.flatMap format.encode ++ behind) =
        records.flatMap format.encode := by
  induction records with
  | nil => exact ⟨rfl, rfl⟩
  | cons r later inductionHypothesis =>
      have rest := inductionHypothesis fun other member => within other (List.mem_cons_of_mem r member)
      have read : format.readFields true ((r :: later).flatMap format.encode ++ behind) =
          .ok (r, later.flatMap format.encode ++ behind) := by
        rw [readFields_eq_ok, List.flatMap_cons, List.append_assoc]
        exact ⟨rfl, within r List.mem_cons_self⟩
      rw [List.length_cons, recordsIn, recordBytes, read]
      dsimp only
      rw [rest.1, rest.2, List.flatMap_cons]
      exact ⟨rfl, rfl⟩

/-- Two ways of handling records that keep in step on each record keep in step
on all.  The relation may be any; here it compares a server with a replay
tool. -/
theorem handleAll_lockstep {σ τ : Type} {related : σ -> τ -> Prop} {left : Nat -> σ -> R -> σ}
    {right : Nat -> τ -> R -> τ} {records : List R} {v : σ} {w : τ} (i : Nat) (start : related v w)
    (keeps : forall i v w r, r ∈ records -> related v w -> related (left i v r) (right i w r)) :
    related (handleAll left i v records) (handleAll right i w records) := by
  induction records generalizing i v w with
  | nil => exact start
  | cons r later inductionHypothesis =>
      apply inductionHypothesis (i + 1) (keeps i v w r List.mem_cons_self start)
      exact fun i v w other member => keeps i v w other (List.mem_cons_of_mem r member)

end RecordFormat

end Foundation
end BugMuseum
