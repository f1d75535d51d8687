import BugMuseum.Avalanche.FailedSet
import BugMuseum.Avalanche.HexCodec
import BugMuseum.Avalanche.StatsLines

namespace BugMuseum
namespace Avalanche

open Foundation

/-!
# Keys and values

What the clients of the cache server work with: the values that were set, newest first,
each with the number that it was made with.  A lookup returns the newest value of its key,
and a deletion takes that value away.

A value for which there is no memory is an empty one, and a set without an entry is none
at all, whatever its reply says.  The list is served as long as the keys and the values
are short enough for the blocks that they are copied to; the terminator of a key copy is
taken to stay where it was written, behind the block.
-/

/-- A value, and how many were made before it.  The number tells two values of
one key apart. -/
structure Stored where
  serial : Nat
  bytes : Bytes

structure KeyValues where
  made : Nat
  bindings : List (CStr × Stored)

/-- The value that comes to be stored.  When it cannot be made, it is an empty
one. -/
def Request.kept (r : Request) (codecs : Nat -> Option Codec) (isTcp : Bool) (grant : SetGrant) : Bytes :=
  if r.ValueMade codecs isTcp grant then (r.toStore codecs isTcp).getD [] else []

namespace KeyValues

def empty : KeyValues where
  made := 0
  bindings := []

variable (kv : KeyValues)

def bind (key : CStr) (bytes : Bytes) : KeyValues where
  made := kv.made + 1
  bindings := (key, ⟨kv.made, bytes⟩) :: kv.bindings

def unbind (key : CStr) : KeyValues :=
  { kv with bindings := Foundation.unbind kv.bindings key }

/-- The bindings in the order of their buckets, as a listing shows them. -/
def listed (nbuckets : Nat) : List (CStr × Stored) :=
  (List.range nbuckets).flatMap fun b => share (bucketOf nbuckets) b kv.bindings

def set (codecs : Nat -> Option Codec) (isTcp : Bool) (r : Request) (grant : RequestGrant) : KeyValues × Bytes :=
  if r.fast isTcp ∧ grant.work = none then (kv, ascii "ERR mem\n")
  else if grant.set.entry then (kv.bind r.key (r.kept codecs isTcp grant.set), ascii "STORED\n")
  else (kv, ascii "STORED\n")

def valueReply : Option Stored -> Bytes
  | some stored => ascii "VALUE " ++ stored.bytes ++ ascii "\n"
  | none => ascii "NOT_FOUND\n"

/-- The pipe needs a block for the key.  Without it nothing is found. -/
def find (isTcp : Bool) (key : CStr) (norm : Grant) : Option Stored :=
  if isTcp ∨ norm.isSome then newest kv.bindings key else none

@[simp] theorem find_tcp (key : CStr) (norm : Grant) : kv.find true key norm = newest kv.bindings key :=
  if_pos (Or.inl rfl)

@[simp] theorem find_pipe (key : CStr) (fresh : Nat -> UInt8) :
    kv.find false key (some fresh) = newest kv.bindings key :=
  if_pos (Or.inr rfl)

def get (isTcp : Bool) (key : CStr) (norm : Grant) : Bytes :=
  valueReply (kv.find isTcp key norm)

def del (isTcp : Bool) (key : CStr) (norm : Grant) : KeyValues × Bytes :=
  if isTcp then (kv, ascii "ERR unsupported\n")
  else
    match kv.find isTcp key norm with
    | some _ => (kv.unbind key, ascii "DELETED\n")
    | none => (kv, ascii "NOT_FOUND\n")

end KeyValues

/-- What a listing says of a binding.  Each line needs a block, and a line
whose block is refused is left out. -/
def bindingLines (verbose : Bool) (grant : RequestGrant) (binding : CStr × Stored) : Bytes :=
  (if grant.line binding.2.serial then keyLine binding.1 binding.2.bytes.length ++ ascii "\n" else []) ++
    if verbose && grant.preview binding.2.serial then ascii "  preview=" ++ binding.1.1 ++ ascii "\n" else []

namespace KeyValues

variable (kv : KeyValues)

def stats (nbuckets : Nat) (verbose : Bool) (grant : RequestGrant) : Bytes :=
  ascii "ENTRIES " ++ decimal (kv.bindings.length % 2 ^ 32 : Nat) ++ ascii "\n" ++
    (kv.listed nbuckets).flatMap (bindingLines verbose grant)

def serve (codecs : Nat -> Option Codec) (nbuckets : Nat) (isTcp : Bool) (r : Request) (grant : RequestGrant) :
    KeyValues × Bytes :=
  if r.header.op = opSet then kv.set codecs isTcp r grant
  else if r.header.op = opGet then (kv, kv.get isTcp r.key grant.norm)
  else if r.header.op = opDel then kv.del isTcp r.key grant.norm
  else (kv, kv.stats nbuckets (r.verbose isTcp) grant)

end KeyValues

/-- The key is copied, and what is copied behind it on the fast path fits into
the entry. -/
def OffersSet (codecs : Nat -> Option Codec) (isTcp : Bool) (r : Request) (grant : RequestGrant) : Prop :=
  grant.set.key = true ∧
    (r.fast isTcp -> (applyCodec (codecFor codecs r.codecId) r.value.1).2 ≤ smallSize)

/-- Over the pipe a key comes through its block as it is; or it stays inside
the block, and there is no value under either form. -/
def KeyValues.OffersKey (kv : KeyValues) (isTcp : Bool) (key : CStr) (norm : Grant) : Prop :=
  isTcp = true ∨ forall fresh, fresh ∈ norm ->
    OwnForm key fresh ∨
      (FitsBlock key ∧ newest kv.bindings key = none ∧ newest kv.bindings (normalized key fresh) = none)

/-- Every line that is listed fits into its block, the preview of a key
included. -/
def KeyValues.OffersStats (kv : KeyValues) (verbose : Bool) : Prop :=
  forall binding, binding ∈ kv.bindings ->
    (keyLine binding.1 binding.2.bytes.length).length ≤ 127 ∧ (verbose = true -> binding.1.1.length ≤ 31)

def KeyValues.Offers (kv : KeyValues) (codecs : Nat -> Option Codec) (isTcp : Bool) (r : Request)
    (grant : RequestGrant) : Prop :=
  if r.header.op = opSet then OffersSet codecs isTcp r grant
  else if r.header.op = opGet ∨ r.header.op = opDel then kv.OffersKey isTcp r.key grant.norm
  else kv.OffersStats (r.verbose isTcp)

section Decided

variable (kv : KeyValues) (codecs : Nat -> Option Codec) (isTcp : Bool) (r : Request) (grant : RequestGrant)

instance (key : CStr) (fresh : Nat -> UInt8) : Decidable (OwnForm key fresh) :=
  inferInstanceAs (Decidable (ReadBackWhole key fresh))

instance : Decidable (OffersSet codecs isTcp r grant) :=
  inferInstanceAs (Decidable (_ ∧ _))

instance (key : CStr) : Decidable (FitsBlock key) :=
  inferInstanceAs (Decidable (CopyFits 256 key))

instance (key : CStr) (norm : Grant) : Decidable (kv.OffersKey isTcp key norm) :=
  inferInstanceAs (Decidable (isTcp = true ∨ forall fresh, fresh ∈ norm -> _))

instance (verbose : Bool) : Decidable (kv.OffersStats verbose) :=
  inferInstanceAs (Decidable (forall binding, binding ∈ kv.bindings -> _))

instance : Decidable (kv.Offers codecs isTcp r grant) :=
  inferInstanceAs (Decidable (if r.header.op = opSet then OffersSet .. else
    if r.header.op = opGet ∨ r.header.op = opDel then kv.OffersKey .. else kv.OffersStats _))

end Decided

end Avalanche
end BugMuseum
