import BugMuseum.Foundation.ByteReader
import BugMuseum.Avalanche.EntryChains

namespace BugMuseum
namespace Avalanche

open Foundation

/-!
# The cache server

`cached` serves one request on each connection.  The request is a packed header
followed by the key bytes and the value bytes, and its handler runs under
`g_lock`, so the server is a sequence of such requests.  The codecs are plugins:
what a codec writes and returns is a parameter here, except for `codec_raw`.

The inline buffer is the last field of an entry but one.  Bytes copied behind it
reach the `next` pointer, after any padding; what the pointer then reads as is a
parameter too.
-/

def opSet : UInt8 := 0
def opGet : UInt8 := 1
def opDel : UInt8 := 2
def opStats : UInt8 := 3

def flagFast : UInt8 := 0x01
def flagVerbose : UInt8 := 0x02
def flagCodecMask : UInt8 := 0xF0

def flagCodecShift : UInt8 := 4

def avlMaxPayload : Nat := 2 ^ 20

def ncodecs : Nat := 16

/-- The bytes that a codec writes to its output, and its result.  It is given
the input and the room in the output. -/
abbrev Codec := Bytes -> Nat -> Bytes × Int

/-- `codec_raw.dll` -/
def codecRaw : Codec := fun input outCap =>
  let n := if input.length < outCap then input.length else outCap
  (input.take n, n)

/-- What the server does not decide: the plugins that were found, and the
layout of an entry behind its inline buffer. -/
structure Platform where
  codecs : Nat -> Option Codec                        -- `g_codecs`
  overrun : Option Block -> Bytes -> Option Block     -- `e->next`, and the bytes copied behind `small`

/-- The outcomes of the allocations for one request.  Those for `STATS` are
given by entry, as it allocates texts for each of them. -/
structure RequestGrant where
  keyBytes : Bool
  key : Bool
  value : Bool
  set : SetGrant
  work : Grant
  norm : Grant
  line : Block -> Bool
  preview : Block -> Bool

def codecFor (codecs : Nat -> Option Codec) (id : UInt8) : Option Codec :=
  if id.toNat < ncodecs then codecs id.toNat else none

/-- `cstr`, when its block could be allocated.  The text ends at the first
zero byte of the key. -/
def cstr (p : Bytes) : CStr :=
  .ofBlock (p ++ [0])

/-- The codecs could not be loaded, and a pointer under the copied bytes reads
as null. -/
def bare : Platform where
  codecs := fun _ => none
  overrun := fun _ _ => none

def allGranted : RequestGrant where
  keyBytes := true
  key := true
  value := true
  set := granted
  work := some fun _ => 0
  norm := some fun _ => 0
  line := fun _ => true
  preview := fun _ => true

/-- `CacheStoreFast`: the length is not compared with the size of the buffer.
What is copied behind it reaches `next`, and the copy is on record as an
overrun. -/
def cacheStoreFast (overrun : Option Block -> Bytes -> Option Block) (c : Cache) (e : Block) (src : Bytes)
    (declaredLen : Nat) : Cache :=
  let copied := src.take declaredLen
  let stored := c.entries.modify e fun old =>
    { old with
      small := copied ++ old.small.drop copied.length
      value := .small
      valueLen := declaredLen
      next := if smallSize < copied.length then overrun old.next (copied.drop smallSize) else old.next }
  { c with entries := if smallSize < copied.length then stored.flag (.overrun e) else stored }

/-- A block of `size` bytes to which a text was printed with its terminator,
whether or not it fits. -/
structure Printed where
  size : Nat
  text : CStr

/-- `%s`; the C library prints a text of its own for a null pointer. -/
def printedKey (key : Option KeyCopy) : Bytes :=
  match key with
  | none => ascii "(null)"
  | some copy => copy.text.1

def cacheFormatLine (e : CacheEntry) (granted : Bool) : Option Printed :=
  if granted then
    some { size := 128
           text := .ofBlock (ascii "key=" ++ printedKey e.key ++ ascii " len=" ++ decimal e.valueLen) }
  else none

def cachePreviewKey (key : CStr) (granted : Bool) : Option Printed :=
  if granted then some { size := 32, text := key } else none

/-- `cache_request` -/
structure Header where
  op : UInt8
  flags : UInt8
  keyLen : Nat
  valueLen : Nat

def Header.read (packed : Field 8) : Header where
  op := packed.1.getD 0 0
  flags := packed.1.getD 1 0
  keyLen := (packed.slice 2 2 (by decide)).toNat
  valueLen := (packed.slice 4 4 (by decide)).toNat

/-- A request that was read to its end.  Its value has the length of the
header, which is within the limit. -/
structure Request where
  header : Header
  key : CStr
  value : Field header.valueLen
  fits : header.valueLen ≤ avlMaxPayload

theorem Request.value_lt (r : Request) : r.value.1.length < 2 ^ 32 := by
  have fits := r.fits
  rw [r.value.2]
  simp only [avlMaxPayload] at fits
  omega

/-- The value with its 32-bit length, as `CacheSet` takes it. -/
def Request.payload (r : Request) : Payload where
  bytes := r.value.1
  fits := r.value_lt

/-- The checks of a header, and the key and value bytes behind it.  Only the
length of the value is checked. -/
def readPayload (grant : RequestGrant) (header : Header) (input : Bytes) : Except Bytes Request := do
  failIf (ascii "ERR op\n") (header.op > opStats)
  let fits ← atMost (ascii "ERR too big\n") header.valueLen avlMaxPayload
  failIf [] (header.keyLen ≠ 0 ∧ grant.keyBytes = false)
  let (kb, input) ← takeField [] header.keyLen input
  failIf [] (grant.key = false)
  failIf [] (header.valueLen ≠ 0 ∧ grant.value = false)
  let (value, _) ← takeField [] header.valueLen input
  return { header, key := cstr kb.1, value, fits := fits.down }

/-- The reading half of `serve`.  A request that is refused ends the
connection with the reply of the error, or with none. -/
def readRequest (grant : RequestGrant) (input : Bytes) : Except Bytes Request := do
  let (packed, input) ← takeField [] 8 input
  readPayload grant (Header.read packed) input

def Request.fast (r : Request) (isTcp : Bool) : Prop :=
  isTcp = true ∧ r.header.flags &&& flagFast ≠ 0

instance (r : Request) (isTcp : Bool) : Decidable (r.fast isTcp) :=
  inferInstanceAs (Decidable (_ ∧ _))

def Request.codecId (r : Request) : UInt8 :=
  (r.header.flags &&& flagCodecMask) >>> flagCodecShift

/-- `if (codec) outlen = codec(value, vlen, work, vlen); else ...` -/
def applyCodec (codec : Option Codec) (value : Bytes) : Bytes × Int :=
  match codec with
  | some codec => codec value value.length
  | none => (value, value.length)

def handleSet (platform : Platform) (isTcp : Bool) (c : Cache) (r : Request) (grant : RequestGrant) :
    Cache × Bytes :=
  if r.fast isTcp then
    match grant.work with
    | none => (c, ascii "ERR mem\n")
    | some residue =>
        let result := applyCodec (codecFor platform.codecs r.codecId) r.value.1
        let size := if r.header.valueLen = 0 then 1 else r.header.valueLen
        let work := overwrite (freshBytes size residue) 0 result.1
        let inserted := cacheInsertEmpty c (some r.key) grant.set
        match inserted.2 with
        | none => (inserted.1, ascii "STORED\n")
        | some e =>
            if result.2 < 0 then (inserted.1, ascii "STORED\n")
            else (cacheStoreFast platform.overrun inserted.1 e work result.2.toNat, ascii "STORED\n")
  else ((cacheSet c (some r.key) r.payload grant.set).1, ascii "STORED\n")

/-- The reply to a lookup; none when a null key is read.  An entry without a
value answers like one with an empty value. -/
def getReply (c : Cache) : Search -> Option Bytes
  | .found e => some (ascii "VALUE " ++ ((c.entry e).valueBytes).getD [] ++ ascii "\n")
  | .absent => some (ascii "NOT_FOUND\n")
  | .nullKey => none

def normResidue (norm : Grant) : Nat -> UInt8 :=
  norm.getD fun _ => 0

def handleGet (isTcp : Bool) (c : Cache) (r : Request) (grant : RequestGrant) : Option Bytes :=
  getReply c (if isTcp then cacheGetRaw c (some r.key)
    else cacheGet c (some r.key) (normResidue grant.norm) grant.norm.isSome)

def handleDel (isTcp : Bool) (c : Cache) (r : Request) (grant : RequestGrant) : Cache × Option Bytes :=
  if isTcp then (c, some (ascii "ERR unsupported\n"))
  else
    let result := cacheDel c (some r.key) (normResidue grant.norm) grant.norm.isSome
    (result.1, result.2.map fun code =>
      if code = cacheOk then ascii "DELETED\n" else ascii "NOT_FOUND\n")

/-- The lines of one entry; none when the preview of a null key is copied.  A
text whose block is refused is left out. -/
def entryLines (verbose : Bool) (c : Cache) (grant : RequestGrant) (e : Block) : Option Bytes :=
  let line := match cacheFormatLine (c.entry e) (grant.line e) with
    | none => []
    | some printed => printed.text.1 ++ ascii "\n"
  if !verbose || !grant.preview e then some line
  else
    (c.entry e).key.map fun copy =>
      match cachePreviewKey copy.text (grant.preview e) with
      | none => line
      | some printed => line ++ ascii "  preview=" ++ printed.text.1 ++ ascii "\n"

def handleStats (isTcp : Bool) (c : Cache) (r : Request) (grant : RequestGrant) : Option Bytes := do
  let hdr := snprintf (List.replicate 64 0) 0 (ascii "ENTRIES " ++ decimal c.count ++ ascii "\n")
  let verbose : Bool := !isTcp && decide (r.header.flags &&& flagVerbose ≠ 0)
  let lines ← c.listed.mapM (entryLines verbose c grant)
  return cString (overwrite hdr.1 63 [0]) ++ lines.flatten

/-- `g_handlers[req.op]`; no reply when the server crashes.  The operation was
checked when the header was read. -/
def dispatch (platform : Platform) (isTcp : Bool) (c : Cache) (r : Request) (grant : RequestGrant) :
    Cache × Option Bytes :=
  if r.header.op = opSet then
    let result := handleSet platform isTcp c r grant
    (result.1, some result.2)
  else if r.header.op = opGet then (c, handleGet isTcp c r grant)
  else if r.header.op = opDel then handleDel isTcp c r grant
  else (c, handleStats isTcp c r grant)

/-- One connection, given everything the client sends before it closes it.
Bytes behind the request are never read. -/
def serve (platform : Platform) (isTcp : Bool) (c : Cache) (grant : RequestGrant) (input : Bytes) :
    Cache × Option Bytes :=
  match readRequest grant input with
  | .error refusal => (c, some refusal)
  | .ok r => dispatch platform isTcp c r grant

end Avalanche
end BugMuseum
