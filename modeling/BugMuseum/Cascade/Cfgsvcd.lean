import BugMuseum.Cascade.ParseBlob
import BugMuseum.Cascade.Templates
import BugMuseum.Foundation.Framing

namespace BugMuseum
namespace Cascade

open Foundation

/-!
# The configuration service

`cfgsvcd` answers one request on each connection, over a named pipe or over TCP.  The
handlers run one at a time, under `g_lock`.  TCP is push-only, and a push over TCP has a
fast path that the pipe does not have: the first blob is copied to a buffer of 64 bytes.

Where a request makes the service leave the bounds of a buffer, or follow a null
pointer, the source says no more.  What comes of it is a parameter then, and it may be
anything.
-/

def opGet : UInt8 := 0
def opPush : UInt8 := 1

def cascadeMaxPayload : Nat := 2 ^ 20

def scratchSize : Nat := 64

def fieldSize : Nat := 16

/-- What has come of a request: the live store, the bytes sent, and the number
of bytes that the fast path copied. -/
structure Served where
  store : CfgProfile
  reply : Bytes
  copied : Nat

/-- What the source leaves open about one request: its allocations, what fresh
memory holds, and what comes of a stray access. -/
structure ServiceEnv where
  parse : ParseEnv
  payload : Bool                                  -- the allocation of the payload
  merge : Nat -> EntryGrant                       -- the allocations of the merge
  norm : Nat -> UInt8                             -- `norm` and the bytes above it
  out : Field 256                                 -- `out` before the expansion
  undefined : Mishap -> CfgProfile -> Served

/-- The store is left as it is, and only a reply is sent. -/
def answer (store : CfgProfile) (reply : Bytes) : Served where
  store := store
  reply := reply
  copied := 0

/-- The loop of `peek_first_blob`: the offset and the declared length of a
blob.  Its sums wrap at the width of `size_t`. -/
def peekFrom (arch : Arch) (data : Bytes) : Nat -> Nat -> Option (Nat × Nat)
  | 0, _ => none
  | left + 1, off =>
      let size := arch.sizeModulus
      if (off + 2) % size > data.length then none
      else
        let nl := rdU16 data off
        let off := (off + 2) % size
        if (off + nl) % size > data.length then none
        else
          let off := (off + nl) % size
          if (off + 1) % size > data.length then none
          else
            let type := data.getD off 0
            let off := (off + 1) % size
            if (off + 4) % size > data.length then none
            else
              let vl := rdU32 data off
              let off := (off + 4) % size
              if (off + vl) % size > data.length then none
              else if (type.toNat : Int) = cfgBlob then some (off, vl)
              else peekFrom arch data left ((off + vl) % size)

/-- The header is not checked here, so the number of entries may be
anything. -/
def peekFirstBlob (arch : Arch) (data : Bytes) : Option (Nat × Nat) :=
  if data.length < headerSize then none else peekFrom arch data (rdU32 data 8) headerSize

/-- `CfgReadBlobInline`, as far as it matters: the number of bytes copied to
`scratch`. -/
def cfgReadBlobInline (blob : Nat × Nat) : Nat :=
  blob.2

/-- The loop of `CfgParseBlob` comes to a number that `decode_field` copies
beyond its `field`. -/
def fieldOverrunsFrom (env : ParseEnv) (data : Bytes) : Nat -> Nat -> Nat -> Bool
  | 0, _, _ => false
  | left + 1, i, off =>
      match parseEntry env data i off with
      | .error _ => false
      | .ok (e, off) =>
          decide (e.type = cfgInt ∧ e.valueLen ≥ fieldSize) || fieldOverrunsFrom env data left (i + 1) off

def fieldOverruns (env : ParseEnv) (data : Bytes) : Bool :=
  if data.length < headerSize ∨ slice data 0 4 ≠ cprofMagic ∨ rdU16 data 4 ≠ cprofVersion ∨
      rdU32 data 8 > cprofMaxEntries ∨ env.profile = false then false
  else fieldOverrunsFrom env data (rdU32 data 8) 0 headerSize

/-- The loop of `materialize_templates`; the expansions are dropped, so only a
mishap is seen of them. -/
def materializeFrom (p : CfgProfile) (out : Bytes) : List CfgEntry -> Option Mishap
  | [] => none
  | e :: rest =>
      if e.type = cfgTemplate then
        match cfgExpandTemplate p e out with
        | .error mishap => some mishap
        | .ok _ => materializeFrom p out rest
      else materializeFrom p out rest

def materializeTemplates (p : CfgProfile) (out : Bytes) : Option Mishap :=
  materializeFrom p out p.head

def handleGet (env : ServiceEnv) (store : CfgProfile) (payload : Bytes) : Served :=
  let key := CStr.ofBlock (payload.take 255 ++ [0])
  if 32 < key.1.length ∧ key.1.length < 64 then env.undefined (.norm key) store
  else
    match cfgLookup (some store) (some key) env.norm with
    | .nullName => env.undefined .nullName store
    | .absent => answer store (ascii "ERR not found\n")
    | .found e =>
        if e.type = cfgTemplate then
          match cfgExpandTemplate store e env.out.1 with
          | .error mishap => env.undefined mishap store
          | .ok (_, out) => answer store (cString out ++ ascii "\n")
        else answer store (ascii "OK\n")

/-- The full ingest: parse, expand the templates, and merge.  A bundle that
fails on the way leaves the store as it is. -/
def ingest (env : ServiceEnv) (store : CfgProfile) (payload : Bytes) : Served :=
  if fieldOverruns env.parse payload then env.undefined .field store
  else
    match cfgParseBlob env.parse (some payload) (some none) with
    | (status, some (some p)) =>
        if status = cfgOk then
          match materializeTemplates p env.out.1 with
          | some mishap => env.undefined mishap store
          | none =>
              match cfgMerge (some store) (some p) env.merge with
              | (_, some merged) => answer merged (ascii "OK\n")
              | (_, none) => answer store (ascii "OK\n")
        else answer store (ascii "ERR parse\n")
    | _ => answer store (ascii "ERR parse\n")

def handlePush (env : ServiceEnv) (isTcp : Bool) (store : CfgProfile) (payload : Bytes) : Served :=
  let copied :=
    if isTcp then
      match peekFirstBlob env.parse.arch payload with
      | some blob => cfgReadBlobInline blob
      | none => 0
    else 0
  if copied > scratchSize then { env.undefined (.scratch copied) store with copied }
  else { ingest env store payload with copied }

/-- Why no request is read.  Only a payload that is too long gets a reply. -/
inductive Refusal where
  | short     -- the connection ends
  | big       -- the announced payload is too long
  | memory    -- no memory for the payload
  deriving DecidableEq, Repr

/-- `cfg_request` and its payload.  The field `reserved` is read and never
checked. -/
structure Request where
  op : UInt8
  source : UInt8
  reserved : UInt16
  payload : Bytes

/-- The reads in `serve`, from the pieces of a connection.  The length is
checked before any memory is asked for. -/
def receiveRequest (memory : Bool) (s : Stream) : Except Refusal (Request × Stream) := do
  let header ← s.takeField .short (1 + (1 + (2 + 4)))
  let op := header.1.split
  let source := op.2.split
  let reserved := source.2.split
  let payloadLen := reserved.2.toNat
  failIf .big (payloadLen > cascadeMaxPayload)
  failIf .memory (memory = false)
  let payload ← header.2.takeField .short payloadLen
  return ({ op := UInt8.ofNat op.1.toNat, source := UInt8.ofNat source.1.toNat,
            reserved := UInt16.ofNat reserved.1.toNat, payload := payload.1.1 }, payload.2)

/-- The request is known: the policy of the transport, and the table of
handlers. -/
def perform (env : ServiceEnv) (isTcp : Bool) (store : CfgProfile) (r : Request) : Served :=
  if r.op > opPush then answer store (ascii "ERR op\n")
  else if isTcp ∧ r.op = opGet then answer store (ascii "ERR unsupported\n")
  else if r.op = opGet then handleGet env store r.payload
  else handlePush env isTcp store r.payload

def serve (env : ServiceEnv) (isTcp : Bool) (store : CfgProfile) (s : Stream) : Served :=
  match receiveRequest env.payload s with
  | .error .big => answer store (ascii "ERR too big\n")
  | .error _ => answer store []
  | .ok (r, _) => perform env isTcp store r

end Cascade
end BugMuseum
