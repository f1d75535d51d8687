import BugMuseum.Foundation.PackedRecords
import BugMuseum.Revenant.Sessiond

namespace BugMuseum
namespace Revenant

open Foundation

/-!
# Requests as bytes

A request arrives on a connection, or stands in an op-log, as a packed header and
the argument bytes.  The server reads the header in one piece and the replay tool
field by field, so each has a reader of its own here.  The first result is that
the two readers agree on every input, also in the way they stop.

An op-log announces a number of records in its header and is read up to that many,
or up to the first record that cannot be read.  What it holds is therefore defined
on any bytes, whether they were written by a recorder or not.
-/

/-- Why a reader stops. -/
inductive Stop where
  | short     -- the input ends
  | big       -- the announced argument is too long
  | memory    -- no memory for the argument
  deriving DecidableEq, Repr

def oplogMagic : Bytes := ascii "RVN1"

def oplogMaxRecords : Nat := 65536

def oplogMaxArg : Nat := 2 ^ 20

def Request.ofFields (op type : Field 1) (handle : Field 2) (arg : Payload) : Request where
  op := UInt8.ofNat op.toNat
  type := UInt8.ofNat type.toNat
  handle := UInt16.ofNat handle.toNat
  arg := arg

/-- The argument of an announced length.  Memory is asked for only when there
is something to read. -/
def readArg (memory : Bool) (argLen : Field 4) (input : Bytes) : Except Stop (Payload × Bytes) := do
  failIf .memory (argLen.toNat ≠ 0 ∧ memory = false)
  let (arg, input) ← takeField .short argLen.toNat input
  return (⟨arg.1, arg.2.symm ▸ argLen.toNat_lt⟩, input)

/-- What follows the header, given the limit, which is compared before
anything is read. -/
def readBehind (limit : Nat) (memory : Bool) (op type : Field 1) (handle : Field 2) (argLen : Field 4)
    (input : Bytes) : Except Stop (Request × Bytes) := do
  failIf .big (argLen.toNat > limit)
  let (arg, input) ← readArg memory argLen input
  return (.ofFields op type handle arg, input)

/-- The reads of one turn of the loop in `serve`: the packed header, and what
follows. -/
def readRequest (memory : Bool) (input : Bytes) : Except Stop (Request × Bytes) := do
  let taken ← takeField .short (1 + (1 + (2 + 4))) input
  let op := taken.1.split
  let type := op.2.split
  let handle := type.2.split
  readBehind sessMaxArg memory op.1 type.1 handle.1 handle.2 taken.2

/-- The reads of one turn of the loop in `sessreplay`, which takes the header
member by member. -/
def readRecord (memory : Bool) (input : Bytes) : Except Stop (Request × Bytes) := do
  let (op, input) ← takeField .short 1 input
  let (type, input) ← takeField .short 1 input
  let (handle, input) ← takeField .short 2 input
  let (argLen, input) ← takeField .short 4 input
  readBehind oplogMaxArg memory op type handle argLen input

/-- A request as a packed record.  The limits of the server and of the replay
tool are the same number. -/
def requestFormat : RecordFormat Request Stop where
  make := fun op type handle arg => { op, type, handle, arg }
  kind := Request.op
  flags := Request.type
  number := Request.handle
  payload := Request.arg
  limit := sessMaxArg
  short := .short
  big := .big
  memory := .memory
  make_parts := fun _ => rfl
  parts_make := fun _ _ _ _ => ⟨rfl, rfl, rfl, rfl⟩

theorem readRequest_eq_readPacked (memory : Bool) (input : Bytes) :
    readRequest memory input = requestFormat.readPacked memory input := rfl

theorem readRecord_eq_readFields (memory : Bool) (input : Bytes) :
    readRecord memory input = requestFormat.readFields memory input := rfl

/-- The two programs read the same requests and stop for the same reasons,
also where an input ends in the middle of a header. -/
theorem readRequest_eq_readRecord (memory : Bool) (input : Bytes) :
    readRequest memory input = readRecord memory input :=
  requestFormat.readPacked_eq_readFields memory input

/-- `op u8 | type u8 | handle u16 | arg_len u32 | arg[arg_len]` -/
def Request.encode (r : Request) : Bytes :=
  toLE 1 r.op.toNat ++ (toLE 1 r.type.toNat ++ (toLE 2 r.handle.toNat ++
    (toLE 4 r.arg.bytes.length ++ r.arg.bytes)))

theorem Request.encode_length (r : Request) : r.encode.length = 8 + r.arg.bytes.length :=
  requestFormat.encode_length r

/-- The argument of a request can be read: it is within the limit, and there
is memory for it. -/
def Request.fits (r : Request) (memory : Bool) : Prop :=
  r.arg.bytes.length ≤ oplogMaxArg ∧ (r.arg.bytes = [] ∨ memory = true)

/-- What is read is what was written, and what was written is read, if it
fits. -/
theorem readRecord_eq_ok {memory : Bool} {input rest : Bytes} {r : Request} :
    readRecord memory input = .ok (r, rest) ↔ input = r.encode ++ rest ∧ r.fits memory := by
  rw [readRecord_eq_readFields, RecordFormat.readFields_eq_ok]
  exact Iff.rfl

/-- The number in the header of an op-log, and the bytes behind the header.
The bytes are arbitrary. -/
structure OpLog where
  count : Nat
  body : Bytes
  bounded : count ≤ oplogMaxRecords

def OpLog.file (log : OpLog) : Bytes :=
  oplogMagic ++ (toLE 4 log.count ++ log.body)

/-- The records in front, at most so many. -/
def recordsIn : Nat -> Bytes -> List Request
  | 0, _ => []
  | count + 1, body =>
      match readRecord true body with
      | .error _ => []
      | .ok (r, rest) => r :: recordsIn count rest

/-- The bytes of these records.  A record that cannot be read ends the log,
and all that is left counts as its bytes. -/
def recordBytes : Nat -> Bytes -> Bytes
  | 0, _ => []
  | count + 1, body =>
      match readRecord true body with
      | .error _ => body
      | .ok (r, rest) => r.encode ++ recordBytes count rest

def OpLog.records (log : OpLog) : List Request :=
  recordsIn log.count log.body

def OpLog.bytes (log : OpLog) : Bytes :=
  recordBytes log.count log.body

theorem recordsIn_eq (count : Nat) (body : Bytes) : recordsIn count body = requestFormat.recordsIn count body := by
  induction count generalizing body with
  | zero => rfl
  | succ count inductionHypothesis =>
      rw [recordsIn, RecordFormat.recordsIn, readRecord_eq_readFields]
      cases requestFormat.readFields true body with
      | error stop => rfl
      | ok taken => exact congrArg (taken.1 :: ·) (inductionHypothesis taken.2)

theorem recordBytes_eq (count : Nat) (body : Bytes) :
    recordBytes count body = requestFormat.recordBytes count body := by
  induction count generalizing body with
  | zero => rfl
  | succ count inductionHypothesis =>
      rw [recordBytes, RecordFormat.recordBytes, readRecord_eq_readFields]
      cases requestFormat.readFields true body with
      | error stop => rfl
      | ok taken => exact congrArg (taken.1.encode ++ ·) (inductionHypothesis taken.2)

/-- A log of written records holds these records and their bytes, whatever
stands behind them. -/
theorem recordsIn_encoded {records : List Request} (within : forall r, r ∈ records -> r.fits true)
    (behind : Bytes) :
    recordsIn records.length (records.flatMap Request.encode ++ behind) = records ∧
      recordBytes records.length (records.flatMap Request.encode ++ behind) =
        records.flatMap Request.encode := by
  rw [recordsIn_eq, recordBytes_eq]
  exact requestFormat.recordsIn_encoded within behind

end Revenant
end BugMuseum
