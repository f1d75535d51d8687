import BugMuseum.Cascade.Profile

namespace BugMuseum
namespace Cascade

open Foundation

/-!
# Reading a bundle

`CfgParseBlob` walks the buffer with an offset of type `size_t`.  What the
source leaves open is a parameter: the width of `size_t`, the memory behind
the buffer, what the stack frame of `decode_field` holds before the call, and
which allocations succeed.
-/

inductive Arch where
  | x86
  | x64
  deriving DecidableEq

/-- One more than the largest `size_t`. -/
def Arch.sizeModulus : Arch -> Nat
  | .x86 => 2 ^ 32
  | .x64 => 2 ^ 64

structure ParseEnv where
  arch : Arch
  beyond : Nat -> UInt8             -- the bytes behind the buffer
  frame : Nat -> Nat -> UInt8       -- `field` and the bytes above it, for each entry
  profile : Bool                    -- the allocation of the profile
  grant : Nat -> EntryGrant         -- the allocations of each entry

def cprofMagic : Bytes := ascii "CPRF"
def cprofVersion : Nat := 1
def cprofMaxEntries : Nat := 4096
def cprofMaxName : Nat := 1024
def cprofMaxValue : Nat := 2 ^ 20

/-- `sizeof(cprof_header)`; the structure is packed. -/
def headerSize : Nat := 12

def rdU16 (data : Bytes) (off : Nat) : Nat :=
  ofLE (slice data off 2)

def rdU32 (data : Bytes) (off : Nat) : Nat :=
  ofLE (slice data off 4)

/-- The byte at an offset from the start of the buffer, which may be behind
its end. -/
def ParseEnv.byteAt (env : ParseEnv) (data : Bytes) (off : Nat) : UInt8 :=
  if off < data.length then data.getD off 0 else env.beyond (off - data.length)

def int64Max : Int := 9223372036854775807
def int64Min : Int := -9223372036854775808

def isSpace (c : UInt8) : Bool :=
  c == 32 || (9 ≤ c && c ≤ 13)

def isDigit (c : UInt8) : Bool :=
  48 ≤ c && c ≤ 57

/-- The number in front of a text, up to its first byte that is no digit. -/
def digitsValue : Nat -> Bytes -> Nat
  | value, [] => value
  | value, c :: rest => if isDigit c then digitsValue (10 * value + (c.toNat - 48)) rest else value

/-- `_atoi64`: white space, a sign, digits; a number out of range becomes the
nearest `int64_t`. -/
def atoi64 (text : Bytes) : Int :=
  match text.dropWhile isSpace with
  | [] => 0
  | c :: rest =>
      if c = 45 then max (-(digitsValue 0 rest : Int)) int64Min
      else
        let digits := if c = 43 then rest else c :: rest
        min (digitsValue 0 digits : Int) int64Max

/-- `decode_field`: the number, and the stack frame after the copying loop.
The loop runs up to and including `n`. -/
def decodeField (src : Nat -> UInt8) (valueLen : Nat) (frame : Nat -> UInt8) :
    Int × (Nat -> UInt8) :=
  let n := if valueLen < 16 then valueLen else 16
  let copied := (List.range (n + 1)).foldl (fun field i => Function.update field i (src i)) frame
  let field := Function.update copied 15 0
  (atoi64 (cString ((List.range 16).map field)), field)

/-- The entry that is stored once the fields of entry `i` are read.  A number
has no value of its own. -/
def storeEntry (env : ParseEnv) (data : Bytes) (i : Nat) (name : Bytes) (type : UInt8)
    (value : Bytes) (off : Nat) : Except Int CfgEntry := do
  failIf cfgEnomem ((env.grant i).entry = false)
  failIf cfgEnomem ((env.grant i).name = false)
  let stored := CStr.ofBlock (name ++ [0])
  if (type.toNat : Int) = cfgInt then
    let ival := (decodeField (fun k => env.byteAt data (off + k)) value.length (env.frame i)).1
    return ⟨some stored, type.toNat, value.length, none, ival, sized_none _⟩
  else do
    failIf cfgEnomem ((env.grant i).value = false)
    return ⟨some stored, type.toNat, value.length, some value, 0, sized_self value⟩

/-- One turn of the loop: entry `i`, and the offset behind it.  The sums wrap
at the width of `size_t`. -/
def parseEntry (env : ParseEnv) (data : Bytes) (i off : Nat) : Except Int (CfgEntry × Nat) := do
  let size := env.arch.sizeModulus
  failIf cfgEtrunc ((off + 2) % size > data.length)
  let nameLen := rdU16 data off
  let off := (off + 2) % size
  failIf cfgElimit (nameLen > cprofMaxName)
  failIf cfgEtrunc ((off + nameLen) % size > data.length)
  let nameP := off
  let off := (off + nameLen) % size
  failIf cfgEtrunc ((off + 1) % size > data.length)
  let type := env.byteAt data off
  let off := (off + 1) % size
  failIf cfgEtrunc ((off + 4) % size > data.length)
  let valueLen := rdU32 data off
  let off := (off + 4) % size
  failIf cfgElimit (valueLen > cprofMaxValue)
  failIf cfgEtrunc ((off + valueLen) % size > data.length)
  let valP := off
  let off := (off + valueLen) % size
  let e ← storeEntry env data i (slice data nameP nameLen) type (slice data valP valueLen) valP
  return (e, off)

/-- The loop over the entries that are left, each of which is appended to the
profile. -/
def parseEntries (env : ParseEnv) (data : Bytes) : Nat -> Nat -> Nat -> CfgProfile ->
    Except Int CfgProfile
  | 0, _, _, p => .ok p
  | left + 1, i, off, p => do
      let (e, off) ← parseEntry env data i off
      parseEntries env data left (i + 1) off (appendEntry p e)

def parseBundle (env : ParseEnv) (data : Bytes) : Except Int CfgProfile := do
  failIf cfgEtrunc (data.length < headerSize)
  failIf cfgEbadmagic (slice data 0 4 ≠ cprofMagic)
  failIf cfgEversion (rdU16 data 4 ≠ cprofVersion)
  failIf cfgElimit (rdU32 data 8 > cprofMaxEntries)
  failIf cfgEnomem (env.profile = false)
  parseEntries env data (rdU32 data 8) 0 headerSize cfgNew

/-- `CfgParseBlob`: the status, and the caller's variable afterwards. -/
def cfgParseBlob (env : ParseEnv) (data : Option Bytes) (out : Option (Option CfgProfile)) :
    Int × Option (Option CfgProfile) :=
  match data, out with
  | some data, some old =>
      match parseBundle env data with
      | .error code => (code, some old)
      | .ok p => (cfgOk, some (some p))
  | _, _ => (cfgEio, out)

end Cascade
end BugMuseum
