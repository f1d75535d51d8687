import BugMuseum.Encore.Calls
import BugMuseum.Encore.Spoold

namespace BugMuseum
namespace Encore

open Foundation

/-!
# The batch client

`spoolc` reads a batch file and makes the calls of `spoolcore` itself, with a
dispatch of its own.  It loads all three filters, it knows five operations, and it
ignores every other op byte.  One output buffer serves all records.
-/

def batchMagic : Bytes := ascii "ENC1"

def batchMaxRecords : Nat := 65536

def batchMaxArg : Nat := 2 ^ 20

/-- A record of a batch, with the limits of the client. -/
def recordFormat : RecordFormat Request Stop :=
  packed batchMaxArg

/-- `load_filters` of the client, which offers the text filter as well. -/
def loadEveryFilter (found : Filter -> Bool) : Nat -> Option Filter
  | 0 => if found .raster then some .raster else none
  | 1 => if found .text then some .text else none
  | 2 => if found .pdfish then some .pdfish else none
  | _ => none

structure Replay where
  store : Store
  out : Bytes         -- `char out[256]`
  stdout : Bytes

/-- The `switch` in the loop of `wmain`: five operations are carried out, and
any other op byte is ignored. -/
def replayRecord (filters : Nat -> Option Filter) (p : Replay) (r : Request) (grant : Nat -> Grant)
    (outcome : Realloc) : Replay :=
  if r.op = opSubmit then
    let id8 := r.fmt &&& filterIdMask
    let result := jobSubmit p.store id8.toNat (filterFor filters id8) r.arg grant
    { p with store := result.1, stdout := p.stdout ++ ascii "SUBMIT -> " ++ decimal result.2 ++ ascii "\n" }
  else if r.op = opRender then
    let result := jobRender p.store r.id p.out
    let printed := if result.2.2 ≥ 0 then result.2.1.take result.2.2.toNat ++ ascii "\n" else []
    { store := result.1, out := result.2.1, stdout := p.stdout ++ printed }
  else if r.op = opAppend then { p with store := (jobAppend p.store r.id r.arg outcome).1 }
  else if r.op = opCancel then { p with store := (jobCancel p.store r.id).1 }
  else if r.op = opStatus then
    let result := jobStatus p.store (decide (r.fmt &&& flagVerbose ≠ 0)) p.out
    { store := result.1, out := result.2.1, stdout := p.stdout ++ cString result.2.1 ++ ascii "\n" }
  else p

/-- One turn of the loop in `wmain`, behind the reads. -/
def carryOut (filters : Nat -> Option Filter) (answers : Nat -> Answers) (i : Nat) (p : Replay) (r : Request) :
    Replay :=
  replayRecord filters p r (answers i).grant (answers i).outcome

/-- A fresh store.  The buffer `out` starts with what the stack holds. -/
def started (residue : Field 256) : Replay where
  store := spoolNew
  out := residue.1
  stdout := []

/-- `wmain` on an opened file, up to `SpoolTableFree`: the exit code of a
rejected file, or the state behind the last record. -/
def spoolc (found : Filter -> Bool) (answers : Nat -> Answers) (residue : Field 256) (file : Bytes) :
    Except Int Replay := do
  let (header, body) ← takeField 1 (4 + 4) file
  let (magic, count) := header.split
  failIf 1 (magic.1 ≠ batchMagic)
  failIf 1 (count.toNat > batchMaxRecords)
  return recordFormat.replay (fun i => (answers i).argument) (carryOut (loadEveryFilter found) answers)
    count.toNat 0 (started residue) body

/-- The number in the header of a batch, and the bytes behind the header,
which may hold fewer records or more. -/
structure Batch where
  count : Nat
  body : Bytes
  bounded : count ≤ batchMaxRecords

def Batch.file (batch : Batch) : Bytes :=
  batchMagic ++ (toLE 4 batch.count ++ batch.body)

def Batch.records (batch : Batch) : List Request :=
  recordFormat.recordsIn batch.count batch.body

def Batch.bytes (batch : Batch) : Bytes :=
  recordFormat.recordBytes batch.count batch.body

/-- A well-formed header is accepted, whatever stands behind it. -/
theorem spoolc_file (found : Filter -> Bool) (answers : Nat -> Answers) (residue : Field 256)
    (batch : Batch) :
    spoolc found answers residue batch.file = .ok
      (recordFormat.replay (fun i => (answers i).argument) (carryOut (loadEveryFilter found) answers)
        batch.count 0 (started residue) batch.body) := by
  have counted : (Field.ofNat 4 batch.count).toNat = batch.count :=
    Field.toNat_ofNat (Nat.lt_of_le_of_lt batch.bounded (by decide))
  obtain ⟨magic, spelled⟩ : exists magic : Field 4, magic.1 = batchMagic := ⟨⟨batchMagic, rfl⟩, rfl⟩
  have header : takeField (1 : Int) (4 + 4) batch.file =
      .ok (magic.append (.ofNat 4 batch.count), batch.body) := by
    rw [takeField_eq_ok, Batch.file, ← spelled]
    exact (List.append_assoc _ _ _).symm
  rw [spoolc, header]
  dsimp only [bind, Except.bind]
  rw [Field.split_append]
  dsimp only
  rw [failIf, if_neg (not_not.mpr spelled), failIf, counted, if_neg (Nat.not_lt.mpr batch.bounded)]
  rfl

end Encore
end BugMuseum
