import BugMuseum.Foundation.ByteStrings

namespace BugMuseum
namespace Avalanche

open Foundation

/-!
# The cache engine

This module follows the data model of `cachecore.h` and the operations of
`cachecore.c` on the store.  Entries are blocks of a heap, chained through their
`next` pointers, and each bucket points to the first entry of its chain.

No pointer to a key copy or to a heap value is ever copied out of its entry, so
the contents of these two blocks are kept with the entry.  An allocation is
granted or refused by the caller.
-/

def cacheOk : Int := 0
def cacheEnomem : Int := -1
def cacheEio : Int := -2
def cacheEnotfound : Int := -3

/-- `sizeof(e->small)` -/
def smallSize : Nat := 64

/-- What `dup_key` allocates and copies: a block of `size` bytes to which the
text was written with its terminator.  The block is one byte short for it. -/
structure KeyCopy where
  size : Nat
  text : CStr

/-- `e->value`: null, the entry's own `small`, or a block of its own.  The
code tells the last two apart by comparing the pointer with `e->small`. -/
inductive Value where
  | null
  | small
  | heap (bytes : Bytes)

structure CacheEntry where
  key : Option KeyCopy
  value : Value
  valueLen : Nat
  small : Bytes
  next : Option Block

/-- An entry as `calloc` returns it. -/
instance : Inhabited CacheEntry :=
  ⟨{ key := none, value := .null, valueLen := 0, small := List.replicate smallSize 0, next := none }⟩

structure Cache where
  entries : Heap CacheEntry
  buckets : Nat -> Option Block
  nbuckets : Nat
  count : Nat

def Cache.entry (c : Cache) (e : Block) : CacheEntry :=
  c.entries.cell e

def hashStr (k : CStr) : UInt32 :=
  k.1.foldl (fun h byte => (h ^^^ byte.toUInt32) * 16777619) 2166136261

/-- `hash_str(key) % c->nbuckets` -/
def bucketOf (nbuckets : Nat) (key : CStr) : Nat :=
  (hashStr key).toNat % nbuckets

/-- `dup_key`: the block is as long as the text, without its terminator. -/
def dupKey (key : CStr) (granted : Bool) : Option KeyCopy :=
  if granted then some { size := key.1.length, text := key } else none

/-- `normalize_key`, given what the new block and the memory behind it hold.
Nothing is terminated when the key is cut, so the bytes behind matter. -/
def normalizeKey (key : CStr) (fresh : Nat -> UInt8) : Nat -> UInt8 :=
  copyTrimmed 256 key fresh

/-- The string in the block that `normalize_key` returns. -/
def normalized (key : CStr) (fresh : Nat -> UInt8) : CStr :=
  .read 32 (normalizeKey key fresh)

def cacheNew (nbuckets : UInt32) (cache buckets : Bool) : Option Cache :=
  let nbuckets := if nbuckets = 0 then 256 else nbuckets
  if !cache then none
  else if !buckets then none
  else some { entries := .empty, buckets := fun _ => none, nbuckets := nbuckets.toNat, count := 0 }

/-- Which of the allocations of a set succeed: the entry, the copy of the key,
and the block of a long value. -/
structure SetGrant where
  entry : Bool
  key : Bool
  value : Bool

def granted : SetGrant :=
  { entry := true, key := true, value := true }

def cacheInsertEmpty (c : Cache) (key : Option CStr) (grant : SetGrant) : Cache × Option Block :=
  match key with
  | none => (c, none)
  | some key =>
      if !grant.entry then (c, none)
      else
        let e := c.entries.next
        let b := bucketOf c.nbuckets key
        let cleared : CacheEntry := default
        ({ c with
            entries := c.entries.alloc { cleared with key := dupKey key grant.key, next := c.buckets b }
            buckets := Function.update c.buckets b (some e)
            count := (c.count + 1) % 2 ^ 32 }, some e)

def cacheSet (c : Cache) (key : Option CStr) (val : Payload) (grant : SetGrant) : Cache × Int :=
  match key with
  | none => (c, cacheEio)
  | some key =>
      let inserted := cacheInsertEmpty c (some key) grant
      match inserted.2 with
      | none => (inserted.1, cacheEnomem)
      | some e =>
          let len := val.bytes.length
          if len ≤ smallSize then
            ({ inserted.1 with entries := inserted.1.entries.modify e fun old =>
                { old with small := overwrite old.small 0 val.bytes, value := .small, valueLen := len } },
              cacheOk)
          else if !grant.value then (inserted.1, cacheEnomem)
          else
            ({ inserted.1 with entries := inserted.1.entries.modify e fun old =>
                { old with value := .heap val.bytes, valueLen := len } }, cacheOk)

/-- The outcome of a lookup: an entry, none, or an access through the key of
an entry that has none. -/
inductive Search where
  | found (e : Block)
  | absent
  | nullKey

/-- The loop of both lookups, with fuel for the entries of a chain.  It
compares the whole text of each key, from the newest entry on. -/
def findFrom (c : Cache) (key : CStr) : Nat -> Option Block -> Search
  | 0, _ => .absent
  | _, none => .absent
  | fuel + 1, some e =>
      match (c.entry e).key with
      | none => .nullKey
      | some copy => if copy.text = key then .found e else findFrom c key fuel (c.entry e).next

/-- A chain is no longer than the number of entries ever allocated. -/
def Cache.fuel (c : Cache) : Nat :=
  c.entries.next + 1

def cacheGet (c : Cache) (key : Option CStr) (fresh : Nat -> UInt8) (norm : Bool) : Search :=
  match key with
  | none => .absent
  | some key =>
      if !norm then .absent
      else
        let norm := normalized key fresh
        findFrom c norm c.fuel (c.buckets (bucketOf c.nbuckets norm))

def cacheGetRaw (c : Cache) (key : Option CStr) : Search :=
  match key with
  | none => .absent
  | some key => findFrom c key c.fuel (c.buckets (bucketOf c.nbuckets key))

/-- `CacheEntry **pp`: the loop of `CacheDel` holds the place in which the
pointer to the next entry stands, either a bucket or the `next` of an
entry. -/
inductive Link where
  | bucket (b : Nat)
  | next (e : Block)

/-- `*pp` -/
def Cache.deref (c : Cache) : Link -> Option Block
  | .bucket b => c.buckets b
  | .next e => (c.entry e).next

/-- `*pp = target` -/
def Cache.assign (c : Cache) (pp : Link) (target : Option Block) : Cache :=
  match pp with
  | .bucket b => { c with buckets := Function.update c.buckets b target }
  | .next e => { c with entries := c.entries.modify e fun old => { old with next := target } }

/-- `*pp = dead->next; free_entry(dead); c->count--;` -/
def unlink (c : Cache) (pp : Link) (dead : Block) : Cache :=
  let bypassed := c.assign pp (c.entry dead).next
  { bypassed with
    entries := bypassed.entries.release dead
    count := (c.count + (2 ^ 32 - 1)) % 2 ^ 32 }

/-- The loop of `CacheDel`; no status after an access through a null key. -/
def delFrom (c : Cache) (norm : CStr) : Nat -> Link -> Cache × Option Int
  | 0, _ => (c, none)
  | fuel + 1, pp =>
      match c.deref pp with
      | none => (c, some cacheEnotfound)
      | some dead =>
          match (c.entry dead).key with
          | none => (c, none)
          | some copy =>
              if copy.text = norm then (unlink c pp dead, some cacheOk)
              else delFrom c norm fuel (.next dead)

def cacheDel (c : Cache) (key : Option CStr) (fresh : Nat -> UInt8) (norm : Bool) : Cache × Option Int :=
  match key with
  | none => (c, some cacheEio)
  | some key =>
      if !norm then (c, some cacheEnomem)
      else
        let norm := normalized key fresh
        delFrom c norm c.fuel (.bucket (bucketOf c.nbuckets norm))

/-- The value bytes of an entry, as far as its length says, from the inline
buffer or from the block. -/
def CacheEntry.valueBytes (e : CacheEntry) : Option Bytes :=
  match e.value with
  | .null => none
  | .small => some (e.small.take e.valueLen)
  | .heap bytes => some (bytes.take e.valueLen)

end Avalanche
end BugMuseum
