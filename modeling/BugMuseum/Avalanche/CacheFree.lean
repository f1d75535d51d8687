import BugMuseum.Foundation.LiveBlocks
import BugMuseum.Avalanche.Cached
import BugMuseum.Avalanche.PipeLookup
import BugMuseum.Avalanche.StatsLines

namespace BugMuseum
namespace Avalanche

open Foundation

/-!
# The blocks of a cache

The operations of `cachecore.c` once more, with the blocks that they allocate: those of the
cache and its table, the entries, the key copies, the values that do not fit into an entry,
and the normalized keys of the lookups.  Whatever is called and whichever allocations fail,
the live blocks are those that the chains reach, so `CacheFree` gives back every block
exactly once, and no loop comes to an entry that was given back.  The inline buffer of an entry
is not a block, and is never given back as one.

The terminator behind a key copy is taken to stay where it was written.  Everything else
is to stay inside its block: an inline value inside the entry, and the key of a lookup inside
the block of its normal form.
-/

/-- A cache, and the blocks that its pointers name.  Entries have a heap of
their own, in the cache; the other two heaps hold texts and tables. -/
structure Memory where
  cache : Cache
  texts : Heap Unit                 -- key copies, long values and normalized keys
  tables : Heap Unit                -- the cache itself, and its buckets
  keyAt : Block -> Option Block     -- `e->key`
  valueAt : Block -> Option Block   -- `e->value`, when it is no part of the entry
  self : Block
  table : Block

namespace Memory

/-- The block that `e->value && e->value != e->small` lets `free_entry` give
back.  A value in the entry is not given back, as it is no block. -/
def longAt (m : Memory) (e : Block) : Option Block :=
  match (m.cache.entry e).value with
  | .heap _ => m.valueAt e
  | _ => none

def textsOf (m : Memory) (e : Block) : List Block :=
  (m.keyAt e).toList ++ (m.longAt e).toList

/-- `malloc` of a text. -/
def mallocText (m : Memory) : Memory :=
  { m with texts := m.texts.alloc () }

/-- `free(e->key);`, and the value if it is a block of its own. -/
def freeTexts (m : Memory) (e : Block) : Memory :=
  { m with texts := (m.texts.releaseAt (m.keyAt e)).releaseAt (m.longAt e) }

def freeEntry (m : Memory) (e : Block) : Memory :=
  let m := m.freeTexts e
  { m with cache := { m.cache with entries := m.cache.entries.release e } }

/-- What `CacheNew` leaves of the tables, and the cache if it returns one.  If
the second allocation fails, the first block is given back. -/
def cacheNew (nbuckets : UInt32) (cache buckets : Bool) : Heap Unit × Option Memory :=
  let tables : Heap Unit := .empty
  if !cache then (tables, none)
  else
    let self := tables.next
    let tables := tables.alloc ()
    if !buckets then (tables.release self, none)
    else
      let table := tables.next
      let tables := tables.alloc ()
      (tables, (Avalanche.cacheNew nbuckets true true).map fun cache =>
        { cache, texts := .empty, tables, keyAt := fun _ => none, valueAt := fun _ => none, self, table })

/-- `while (e) { CacheEntry *n = e->next; free_entry(e); e = n; }` -/
def freeRow : Nat -> Option Block -> Memory -> Memory
  | 0, _, m => m
  | _, none, m => m
  | fuel + 1, some e, m =>
      let n := (m.cache.entry e).next
      let m := { m with cache := { m.cache with entries := m.cache.entries.touch e } }
      freeRow fuel n (m.freeEntry e)

def freeRows : List Nat -> Memory -> Memory
  | [], m => m
  | b :: rest, m => freeRows rest (freeRow m.cache.fuel (m.cache.buckets b) m)

def cacheFree (m : Memory) : Memory :=
  let m := freeRows (List.range m.cache.nbuckets) m
  { m with tables := (m.tables.release m.table).release m.self }

/-- A loop comes to `e`, and reads its key.  Both blocks have to be live. -/
def visit (m : Memory) (e : Block) : Memory :=
  let m := { m with cache := { m.cache with entries := m.cache.entries.touch e } }
  match m.keyAt e with
  | none => m
  | some block => { m with texts := m.texts.touch block }

/-- What the loops of the lookups and of `CacheDel` read: each entry and its
key, up to the first entry that holds the key. -/
def readFrom (key : CStr) : Nat -> Option Block -> Memory -> Memory
  | 0, _, m => m
  | _, none, m => m
  | fuel + 1, some e, m =>
      match (m.cache.entry e).key with
      | none => m.visit e
      | some copy =>
          if copy.text = key then m.visit e else readFrom key fuel (m.cache.entry e).next (m.visit e)

def readRow (m : Memory) (key : CStr) : Memory :=
  readFrom key m.cache.fuel (m.cache.buckets (bucketOf m.cache.nbuckets key)) m

def cacheInsertEmpty (m : Memory) (key : CStr) (grant : SetGrant) : Memory × Option Block :=
  let inserted := Avalanche.cacheInsertEmpty m.cache (some key) grant
  match inserted.2 with
  | none => (m, none)
  | some e =>
      let made := if grant.key then m.mallocText else m
      let copy := if grant.key then some m.texts.next else none
      ({ made with
          cache := inserted.1
          keyAt := Function.update m.keyAt e copy
          valueAt := Function.update m.valueAt e none }, some e)

def cacheSet (m : Memory) (key : CStr) (val : Payload) (grant : SetGrant) : Memory × Int :=
  let result := Avalanche.cacheSet m.cache (some key) val grant
  let inserted := m.cacheInsertEmpty key grant
  match inserted.2 with
  | none => (inserted.1, result.2)
  | some e =>
      let m := inserted.1
      if val.bytes.length ≤ smallSize then ({ m with cache := result.1 }, result.2)
      else if !grant.value then ({ m with cache := result.1 }, result.2)
      else
        ({ m.mallocText with
            cache := result.1
            valueAt := Function.update m.valueAt e (some m.texts.next) }, result.2)

/-- The two calls of the fast path, when the value fits into the entry.  They
are made by the service, one after the other. -/
def setFast (m : Memory) (overrun : Option Block -> Bytes -> Option Block) (key : CStr) (src : Bytes)
    (declaredLen : Nat) (grant : SetGrant) : Memory :=
  let inserted := m.cacheInsertEmpty key grant
  match inserted.2 with
  | none => inserted.1
  | some e => { inserted.1 with cache := cacheStoreFast overrun inserted.1.cache e src declaredLen }

/-- The loop of `CacheDel`, behind what it reads.  The texts of an entry are
given back before the entry is unlinked. -/
def delFrom (m : Memory) (norm : CStr) : Nat -> Link -> Memory × Option Int
  | 0, _ => (m, none)
  | fuel + 1, pp =>
      match m.cache.deref pp with
      | none => (m, some cacheEnotfound)
      | some dead =>
          match (m.cache.entry dead).key with
          | none => (m, none)
          | some copy =>
              if copy.text = norm then
                ({ m.freeTexts dead with cache := unlink m.cache pp dead }, some cacheOk)
              else delFrom m norm fuel (.next dead)

/-- `CacheDel`, with the block of the normal form that it allocates and frees.
No memory is left when a null key is read. -/
def cacheDel (m : Memory) (key : CStr) (fresh : Nat -> UInt8) (norm : Bool) : Option Memory :=
  if !norm then some m
  else
    let block := m.texts.next
    let text := normalized key fresh
    let walked := (m.mallocText.readRow text).delFrom text m.cache.fuel (.bucket (bucketOf m.cache.nbuckets text))
    walked.2.map fun _ => { walked.1 with texts := walked.1.texts.release block }

def cacheGet (m : Memory) (key : CStr) (fresh : Nat -> UInt8) (norm : Bool) : Option Memory :=
  if !norm then some m
  else
    let block := m.texts.next
    let read := m.mallocText.readRow (normalized key fresh)
    match Avalanche.cacheGet m.cache (some key) fresh true with
    | .nullKey => none
    | _ => some { read with texts := read.texts.release block }

def cacheGetRaw (m : Memory) (key : CStr) : Option Memory :=
  match Avalanche.cacheGetRaw m.cache (some key) with
  | .nullKey => none
  | _ => some (m.readRow key)

end Memory

inductive Use where
  | set (key : CStr) (val : Payload) (grant : SetGrant)
  | setFast (overrun : Option Block -> Bytes -> Option Block) (key : CStr) (src : Bytes) (declaredLen : Nat)
      (inline : declaredLen ≤ smallSize) (grant : SetGrant)
  | get (key : CStr) (fits : FitsBlock key) (fresh : Nat -> UInt8) (norm : Bool)
  | getRaw (key : CStr)
  | del (key : CStr) (fits : FitsBlock key) (fresh : Nat -> UInt8) (norm : Bool)

/-- The entry gets its key copy, if there is one.  An entry whose copy was
refused has a null key, and the lookups read through it. -/
def Use.Copies : Use -> Prop
  | .set _ _ grant => grant.entry = true -> grant.key = true
  | .setFast _ _ _ _ _ grant => grant.entry = true -> grant.key = true
  | _ => True

def Memory.use (m : Memory) : Use -> Option Memory
  | .set key val grant => some (m.cacheSet key val grant).1
  | .setFast overrun key src declaredLen _ grant => some (m.setFast overrun key src declaredLen grant)
  | .get key _ fresh norm => m.cacheGet key fresh norm
  | .getRaw key => m.cacheGetRaw key
  | .del key _ fresh norm => m.cacheDel key fresh norm

def Memory.uses : List Use -> Memory -> Option Memory
  | [], m => some m
  | first :: rest, m => (m.use first).bind (uses rest)

/-- The same uses without their blocks.  This is the cache that the other
modules speak of. -/
def Cache.use (c : Cache) : Use -> Option Cache
  | .set key val grant => some (cacheSet c (some key) val grant).1
  | .setFast overrun key src declaredLen _ grant =>
      let inserted := cacheInsertEmpty c (some key) grant
      match inserted.2 with
      | none => some inserted.1
      | some e => some (cacheStoreFast overrun inserted.1 e src declaredLen)
  | .get key _ fresh norm =>
      match cacheGet c (some key) fresh norm with
      | .nullKey => none
      | _ => some c
  | .getRaw key =>
      match cacheGetRaw c (some key) with
      | .nullKey => none
      | _ => some c
  | .del key _ fresh norm =>
      let deleted := cacheDel c (some key) fresh norm
      deleted.2.map fun _ => deleted.1

def Cache.uses : List Use -> Cache -> Option Cache
  | [], c => some c
  | first :: rest, c => (c.use first).bind (uses rest)

/-! ## What the memory holds -/

namespace Memory

variable {m m' : Memory} {nodes other : List Block}

/-- These are the entries, and their texts are all the texts.  So nothing is
lost, and no text belongs to two entries. -/
structure Parts (m : Memory) (nodes : List Block) : Prop where
  entries : Retains m.cache.entries nodes
  texts : Retains m.texts (nodes.flatMap m.textsOf)

theorem Parts.perm (parts : Parts m nodes) (same : nodes.Perm other) : Parts m other where
  entries := parts.entries.perm same
  texts := parts.texts.perm (same.flatMap_right _)

theorem freeTexts_retains {e : Block} {blocks : List Block} (holds : Retains m.texts (m.textsOf e ++ blocks)) :
    Retains (m.freeTexts e).texts blocks := by
  rw [textsOf, List.append_assoc] at holds
  exact holds.releaseAt.releaseAt

/-- An entry is given back with its texts, and the parts of the others stay
whole. -/
theorem Parts.free {e : Block} (parts : Parts m (e :: nodes)) : Parts (m.freeEntry e) nodes where
  entries := parts.entries.release
  texts := freeTexts_retains parts.texts

/-- A new entry, with what it has by then: a key copy or none, and a value
block or none. -/
theorem Parts.add {key : CStr} {copied : Bool} (parts : Parts m nodes)
    (added : Added m.cache m'.cache key copied)
    (entries : Retains m'.cache.entries (m.cache.entries.next :: nodes)) {copy value : Option Block}
    (keyAt : m'.keyAt = Function.update m.keyAt m.cache.entries.next copy)
    (valueAt : m'.valueAt = Function.update m.valueAt m.cache.entries.next value)
    (texts : Retains m'.texts (m'.textsOf m.cache.entries.next ++ nodes.flatMap m.textsOf)) :
    Parts m' (m.cache.entries.next :: nodes) := by
  refine ⟨entries, ?_⟩
  have same : nodes.flatMap m'.textsOf = nodes.flatMap m.textsOf := by
    apply List.flatMap_congr
    intro e member
    have old : e ≠ m.cache.entries.next := Nat.ne_of_lt (parts.entries.live e member).1
    rw [textsOf, textsOf, longAt, longAt, keyAt, valueAt, added.others e old, Function.update_of_ne old,
      Function.update_of_ne old]
  rw [List.flatMap_cons, same]
  exact texts

section Insertion

variable {c : Cache} {key : CStr} {grant : SetGrant}

theorem retains_cacheInsertEmpty (holds : Retains c.entries nodes) (entry : grant.entry = true) :
    Retains (Avalanche.cacheInsertEmpty c (some key) grant).1.entries (c.entries.next :: nodes) := by
  rw [Avalanche.cacheInsertEmpty, entry]
  exact holds.alloc _

theorem retains_cacheSet (holds : Retains c.entries nodes) (val : Payload) (entry : grant.entry = true) :
    Retains (Avalanche.cacheSet c (some key) val grant).1.entries (c.entries.next :: nodes) := by
  have inserted := @retains_cacheInsertEmpty nodes c key grant holds entry
  rw [Avalanche.cacheSet]
  simp only [(cacheInsertEmpty_added c key entry).1]
  split
  · dsimp only
    exact inserted.modify List.mem_cons_self _
  · split
    · exact inserted
    · dsimp only
      exact inserted.modify List.mem_cons_self _

theorem retains_cacheStoreFast (holds : Retains c.entries nodes) (overrun : Option Block -> Bytes -> Option Block)
    {e : Block} (member : e ∈ nodes) (src : Bytes) {declaredLen : Nat} (inline : declaredLen ≤ smallSize) :
    Retains (cacheStoreFast overrun c e src declaredLen).entries nodes := by
  have short : ¬ smallSize < (src.take declaredLen).length := by
    rw [List.length_take]
    omega
  rw [cacheStoreFast]
  simp only [if_neg short]
  exact holds.modify member _

end Insertion

/-- The live blocks are those of the cache, of the entries in its rows, and of
their texts.  In a complete memory every entry has its key. -/
structure Keeps (complete : Prop) (m : Memory) (rows : Nat -> List Block) : Prop where
  linked : Rows m.cache rows
  parts : Parts m ((List.range m.cache.nbuckets).flatMap rows)
  tables : Retains m.tables [m.table, m.self]
  keyed : complete -> forall b, b < m.cache.nbuckets -> forall e, e ∈ rows b -> m.cache.keyOf e ≠ none

/-- The memory is in use: some rows account for all of its blocks. -/
def Kept (complete : Prop) (m : Memory) : Prop :=
  exists rows, Keeps complete m rows

variable {complete : Prop} {rows : Nat -> List Block}

/-- The entry is in front of the row of its key, and its blocks are accounted
for.  All ways to insert come down to this rule. -/
theorem Keeps.add {key : CStr} {copied : Bool} (keeps : Keeps complete m rows)
    (added : Added m.cache m'.cache key copied) (copies : complete -> copied = true)
    (parts : Parts m' (m.cache.entries.next :: (List.range m.cache.nbuckets).flatMap rows))
    (tables : Retains m'.tables [m'.table, m'.self]) : Kept complete m' := by
  have placed := parts.perm (keeps.linked.added_perm key m.cache.entries.next).symm
  rw [← added.nbuckets] at placed
  have linked := keeps.linked.add added
  rw [← added.nbuckets] at linked
  refine ⟨_, linked, placed, tables, fun whole b inside e member => ?_⟩
  rw [added.nbuckets] at inside member
  have kept : e ∈ rows b -> m'.cache.keyOf e ≠ none := by
    intro old
    have apart : e ≠ m.cache.entries.next := Nat.ne_of_lt (keeps.linked.live b inside e old).1
    rw [Cache.keyOf, added.others e apart]
    exact keeps.keyed whole b inside e old
  by_cases home : b = bucketOf m.cache.nbuckets key
  · rw [home, Function.update_self] at member
    rcases List.mem_cons.mp member with rfl | old
    · rw [added.keyed, copies whole]
      exact Option.some_ne_none key
    · exact kept (home ▸ old)
  · rw [Function.update_of_ne home] at member
    exact kept member

/-- The block of a key copy, if there is one.  It is the next block of the
texts. -/
def copyAt (m : Memory) (grant : SetGrant) : Option Block :=
  if grant.key then some m.texts.next else none

theorem cacheInsertEmpty_eq (m : Memory) (key : CStr) {grant : SetGrant} (entry : grant.entry = true) :
    m.cacheInsertEmpty key grant =
      ({ (if grant.key then m.mallocText else m) with
          cache := (Avalanche.cacheInsertEmpty m.cache (some key) grant).1
          keyAt := Function.update m.keyAt m.cache.entries.next (m.copyAt grant)
          valueAt := Function.update m.valueAt m.cache.entries.next none }, some m.cache.entries.next) := by
  simp only [cacheInsertEmpty, (Avalanche.cacheInsertEmpty_added m.cache key entry).1, copyAt]

theorem cacheInsertEmpty_texts (m : Memory) (key : CStr) {grant : SetGrant} (entry : grant.entry = true)
    {blocks : List Block} (holds : Retains m.texts blocks) :
    Retains (m.cacheInsertEmpty key grant).1.texts ((m.copyAt grant).toList ++ blocks) := by
  rw [cacheInsertEmpty_eq m key entry, copyAt]
  cases grant.key with
  | false => exact holds
  | true => exact holds.alloc ()

theorem cacheInsertEmpty_tables (m : Memory) (key : CStr) {grant : SetGrant} (entry : grant.entry = true) :
    (m.cacheInsertEmpty key grant).1.tables = m.tables ∧ (m.cacheInsertEmpty key grant).1.self = m.self ∧
      (m.cacheInsertEmpty key grant).1.table = m.table := by
  rw [cacheInsertEmpty_eq m key entry]
  cases grant.key <;> exact ⟨rfl, rfl, rfl⟩

section Insertion

variable {c : Cache} {key : CStr} {grant : SetGrant}

/-- The value of the new entry is null, or it is in the entry.  Either way,
the key copy is its only text. -/
theorem Keeps.insert (keeps : Keeps complete m rows) (entry : grant.entry = true)
    (added : Added m.cache c key grant.key) (copies : complete -> grant.key = true)
    (entries : Retains c.entries (m.cache.entries.next :: (List.range m.cache.nbuckets).flatMap rows))
    (inside : forall bytes, (c.entry m.cache.entries.next).value ≠ .heap bytes) :
    Kept complete { (m.cacheInsertEmpty key grant).1 with cache := c } := by
  have pointers := cacheInsertEmpty_eq m key entry
  have texts := cacheInsertEmpty_texts m key entry keeps.parts.texts
  have tables := cacheInsertEmpty_tables m key entry
  generalize m.cacheInsertEmpty key grant = inserted at pointers texts tables ⊢
  have keyAt : inserted.1.keyAt = Function.update m.keyAt m.cache.entries.next (m.copyAt grant) := by rw [pointers]
  have valueAt : inserted.1.valueAt = Function.update m.valueAt m.cache.entries.next none := by rw [pointers]
  refine keeps.add added copies ?_ ?_
  · refine keeps.parts.add added entries keyAt valueAt ?_
    have none : Memory.longAt { inserted.1 with cache := c } m.cache.entries.next = none := by
      rw [longAt]
      split
      · rename_i bytes long
        exact absurd long (inside bytes)
      · rfl
    rw [textsOf, none, keyAt, Function.update_self, Option.toList_none, List.append_nil]
    exact texts
  · rw [tables.1, tables.2.1, tables.2.2]
    exact keeps.tables

/-- The value of the new entry is a block of its own, allocated right behind
the copy of the key. -/
theorem Keeps.insertLong (keeps : Keeps complete m rows) (entry : grant.entry = true)
    (added : Added m.cache c key grant.key) (copies : complete -> grant.key = true)
    (entries : Retains c.entries (m.cache.entries.next :: (List.range m.cache.nbuckets).flatMap rows))
    {bytes : Bytes} (long : (c.entry m.cache.entries.next).value = .heap bytes) :
    Kept complete { (m.cacheInsertEmpty key grant).1.mallocText with
      cache := c
      valueAt := Function.update (m.cacheInsertEmpty key grant).1.valueAt m.cache.entries.next
        (some (m.cacheInsertEmpty key grant).1.texts.next) } := by
  have pointers := cacheInsertEmpty_eq m key entry
  have texts := cacheInsertEmpty_texts m key entry keeps.parts.texts
  have tables := cacheInsertEmpty_tables m key entry
  generalize m.cacheInsertEmpty key grant = inserted at pointers texts tables ⊢
  have keyAt : inserted.1.keyAt = Function.update m.keyAt m.cache.entries.next (m.copyAt grant) := by rw [pointers]
  have valueAt : inserted.1.valueAt = Function.update m.valueAt m.cache.entries.next none := by rw [pointers]
  refine keeps.add added copies ?_ ?_
  · refine keeps.parts.add added entries keyAt (by rw [valueAt, Function.update_idem]) ?_
    have own : Memory.longAt { inserted.1.mallocText with
        cache := c
        valueAt := Function.update inserted.1.valueAt m.cache.entries.next (some inserted.1.texts.next) }
          m.cache.entries.next = some inserted.1.texts.next := by
      rw [longAt, long]
      exact Function.update_self ..
    rw [textsOf, own]
    dsimp only [mallocText]
    rw [keyAt, Function.update_self, List.append_assoc]
    exact (texts.alloc ()).perm List.perm_middle.symm
  · dsimp only [mallocText]
    rw [tables.1, tables.2.1, tables.2.2]
    exact keeps.tables

end Insertion

theorem cacheInsertEmpty_refused (m : Memory) (key : CStr) {grant : SetGrant} (entry : grant.entry = false) :
    m.cacheInsertEmpty key grant = (m, none) := by
  rw [cacheInsertEmpty, Avalanche.cacheInsertEmpty, entry]
  rfl

theorem cacheSet_value (c : Cache) (key : CStr) (val : Payload) {grant : SetGrant} (entry : grant.entry = true) :
    ((Avalanche.cacheSet c (some key) val grant).1.entry c.entries.next).value =
      if val.bytes.length ≤ smallSize then .small else if grant.value then .heap val.bytes else .null := by
  rw [Avalanche.cacheSet]
  simp only [(Avalanche.cacheInsertEmpty_added c key entry).1]
  by_cases short : val.bytes.length ≤ smallSize
  · rw [if_pos short, if_pos short, Cache.entry, Heap.modify_cell_self]
  · rw [if_neg short, if_neg short]
    cases grant.value with
    | false => exact (cacheInsertEmpty_cleared c key entry).1
    | true =>
        simp only [Bool.not_true, Bool.false_eq_true, if_false, if_true]
        rw [Cache.entry, Heap.modify_cell_self]

theorem cacheInsertEmpty_cache (m : Memory) (key : CStr) (grant : SetGrant) :
    (m.cacheInsertEmpty key grant).1.cache = (Avalanche.cacheInsertEmpty m.cache (some key) grant).1 ∧
      (m.cacheInsertEmpty key grant).2 = (Avalanche.cacheInsertEmpty m.cache (some key) grant).2 := by
  cases entry : grant.entry with
  | false =>
      rw [cacheInsertEmpty_refused m key entry, Avalanche.cacheInsertEmpty, entry]
      exact ⟨rfl, rfl⟩
  | true =>
      rw [cacheInsertEmpty_eq m key entry, (Avalanche.cacheInsertEmpty_added m.cache key entry).1]
      exact ⟨rfl, rfl⟩

theorem Keeps.cacheInsertEmpty (keeps : Keeps complete m rows) (key : CStr) {grant : SetGrant}
    (copies : complete -> grant.entry = true -> grant.key = true) :
    Kept complete (m.cacheInsertEmpty key grant).1 := by
  cases entry : grant.entry with
  | false =>
      rw [cacheInsertEmpty_refused m key entry]
      exact ⟨rows, keeps⟩
  | true =>
      have added := (Avalanche.cacheInsertEmpty_added m.cache key entry).2
      have cleared := (cacheInsertEmpty_cleared m.cache key entry).1
      have entries := @retains_cacheInsertEmpty _ _ key _ keeps.parts.entries entry
      have kept := keeps.insert entry added (copies · entry) entries fun bytes long => by cases cleared.symm.trans long
      rw [← (cacheInsertEmpty_cache m key grant).1] at kept
      exact kept

theorem Keeps.cacheSet (keeps : Keeps complete m rows) (key : CStr) (val : Payload) {grant : SetGrant}
    (copies : complete -> grant.entry = true -> grant.key = true) :
    Kept complete (m.cacheSet key val grant).1 := by
  rw [Memory.cacheSet]
  cases entry : grant.entry with
  | false =>
      rw [cacheInsertEmpty_refused m key entry]
      exact ⟨rows, keeps⟩
  | true =>
      have added := cacheSet_added m.cache key val entry
      have entries := @retains_cacheSet _ _ key _ keeps.parts.entries val entry
      have found : (m.cacheInsertEmpty key grant).2 = some m.cache.entries.next := by
        rw [cacheInsertEmpty_eq m key entry]
      dsimp only
      rw [found]
      dsimp only
      have stored := cacheSet_value m.cache key val entry
      by_cases short : val.bytes.length ≤ smallSize
      · rw [if_pos short] at stored ⊢
        exact keeps.insert entry added (copies · entry) entries fun bytes long => by cases stored.symm.trans long
      · rw [if_neg short] at stored ⊢
        cases value : grant.value with
        | false =>
            rw [value] at stored
            exact keeps.insert entry added (copies · entry) entries fun bytes long => by cases stored.symm.trans long
        | true =>
            rw [value] at stored
            exact keeps.insertLong entry added (copies · entry) entries stored

theorem Keeps.setFast (keeps : Keeps complete m rows) (overrun : Option Block -> Bytes -> Option Block) (key : CStr)
    (src : Bytes) {declaredLen : Nat} (inline : declaredLen ≤ smallSize) {grant : SetGrant}
    (copies : complete -> grant.entry = true -> grant.key = true) :
    Kept complete (m.setFast overrun key src declaredLen grant) := by
  rw [Memory.setFast]
  cases entry : grant.entry with
  | false =>
      rw [cacheInsertEmpty_refused m key entry]
      exact ⟨rows, keeps⟩
  | true =>
      have inserted := (Avalanche.cacheInsertEmpty_added m.cache key entry).2
      have added := (inserted.storeFast overrun src inline).1
      have allocated := @retains_cacheInsertEmpty _ _ key _ keeps.parts.entries entry
      have entries := retains_cacheStoreFast allocated overrun List.mem_cons_self src inline
      have made := cacheInsertEmpty_eq m key entry
      have found : (m.cacheInsertEmpty key grant).2 = some m.cache.entries.next := by rw [made]
      have cache : (m.cacheInsertEmpty key grant).1.cache =
          (Avalanche.cacheInsertEmpty m.cache (some key) grant).1 := by rw [made]
      dsimp only
      rw [found]
      dsimp only
      rw [cache]
      refine keeps.insert entry added (copies · entry) entries ?_
      have short : ¬ smallSize < (src.take declaredLen).length := by
        rw [List.length_take]
        omega
      rw [cacheStoreFast]
      simp only [if_neg short]
      rw [Cache.entry, Heap.modify_cell_self]
      exact fun bytes impossible => by cases impossible

/-- The loop of `CacheDel` on blocks is the loop on entries, with the same
status. -/
theorem delFrom_cache (m : Memory) (norm : CStr) (fuel : Nat) (pp : Link) :
    (m.delFrom norm fuel pp).1.cache = (Avalanche.delFrom m.cache norm fuel pp).1 ∧
      (m.delFrom norm fuel pp).2 = (Avalanche.delFrom m.cache norm fuel pp).2 := by
  induction fuel generalizing pp with
  | zero => exact ⟨rfl, rfl⟩
  | succ fuel inductionHypothesis =>
      rw [delFrom, Avalanche.delFrom]
      cases m.cache.deref pp with
      | none => exact ⟨rfl, rfl⟩
      | some dead =>
          dsimp only
          cases (m.cache.entry dead).key with
          | none => exact ⟨rfl, rfl⟩
          | some copy =>
              dsimp only
              by_cases same : copy.text = norm
              · rw [if_pos same, if_pos same]
                exact ⟨rfl, rfl⟩
              · rw [if_neg same, if_neg same]
                exact inductionHypothesis (.next dead)

theorem cacheSet_cache (m : Memory) (key : CStr) (val : Payload) (grant : SetGrant) :
    (m.cacheSet key val grant).1.cache = (Avalanche.cacheSet m.cache (some key) val grant).1 := by
  rw [cacheSet]
  cases entry : grant.entry with
  | false =>
      rw [cacheInsertEmpty_refused m key entry, Avalanche.cacheSet, Avalanche.cacheInsertEmpty, entry]
      rfl
  | true =>
      rw [cacheInsertEmpty_eq m key entry]
      dsimp only
      split
      · rfl
      · split <;> rfl

theorem setFast_cache (m : Memory) (overrun : Option Block -> Bytes -> Option Block) (key : CStr) (src : Bytes)
    (declaredLen : Nat) (grant : SetGrant) :
    (m.setFast overrun key src declaredLen grant).cache =
      match (Avalanche.cacheInsertEmpty m.cache (some key) grant).2 with
      | none => (Avalanche.cacheInsertEmpty m.cache (some key) grant).1
      | some e => cacheStoreFast overrun (Avalanche.cacheInsertEmpty m.cache (some key) grant).1 e src declaredLen := by
  have inserted := cacheInsertEmpty_cache m key grant
  rw [setFast, ← inserted.1, ← inserted.2]
  cases (m.cacheInsertEmpty key grant).2 <;> rfl

/-- It gives back one entry of the chain, the first that holds the key, or
nothing. -/
theorem delFrom_walks (norm : CStr) {pp : Link} {nodes : List Block} {fuel : Nat}
    (path : Path m.cache.link (m.cache.deref pp) nodes none) (enough : nodes.length < fuel) :
    (m.delFrom norm fuel pp).1 = m ∨
      exists before dead after, nodes = before ++ dead :: after ∧
        (m.delFrom norm fuel pp).1 =
          { m.freeTexts dead with cache := unlink m.cache (linkAfter pp before) dead } := by
  induction nodes generalizing pp fuel with
  | nil =>
      cases fuel with
      | zero => exact Or.inl rfl
      | succ fuel =>
          have ended : m.cache.deref pp = none := path
          left
          rw [delFrom, ended]
  | cons e rest inductionHypothesis =>
      cases fuel with
      | zero => exact absurd enough (Nat.not_lt_zero _)
      | succ fuel =>
          have later := @inductionHypothesis (.next e) fuel path.2 (Nat.lt_of_succ_lt_succ enough)
          rw [delFrom, path.1]
          dsimp only
          cases (m.cache.entry e).key with
          | none => exact Or.inl rfl
          | some copy =>
              dsimp only
              by_cases same : copy.text = norm
              · rw [if_pos same]
                exact Or.inr ⟨[], e, rest, rfl, rfl⟩
              · rw [if_neg same]
                rcases later with unchanged | ⟨before, dead, after, split, freed⟩
                · exact Or.inl unchanged
                · exact Or.inr ⟨e :: before, dead, after, congrArg (e :: ·) split, freed⟩

/-- To unlink an entry changes the link of a live one and gives the entry
back.  No other entry is lost by it. -/
theorem retains_unlink {c : Cache} {dead : Block} {blocks : List Block} (holds : Retains c.entries (dead :: blocks))
    {b : Nat} {before : List Block} (inside : forall e, e ∈ before -> e ∈ dead :: blocks) :
    Retains (unlink c (linkAfter (.bucket b) before) dead).entries blocks := by
  cases reached : linkAfter (.bucket b) before with
  | bucket other => exact holds.release
  | next e => exact (holds.modify (inside e (linkAfter_eq_next reached)) _).release

theorem textsOf_unlink (m : Memory) (texts : Heap Unit) (pp : Link) (dead e : Block) :
    textsOf { m with texts := texts, cache := unlink m.cache pp dead } e = m.textsOf e := by
  rw [textsOf, textsOf, longAt, longAt, unlink_entry]

/-- An unlinked entry is given back, when its texts are.  The rows are those
from before, without the entry. -/
theorem Keeps.unlink (keeps : Keeps complete m rows) {b : Nat} (inHome : b < m.cache.nbuckets)
    {before after : List Block} {dead : Block} (split : rows b = before ++ dead :: after) {texts : Heap Unit}
    (others : Retains texts
      (((List.range m.cache.nbuckets).flatMap (Function.update rows b (before ++ after))).flatMap m.textsOf)) :
    Kept complete { m with texts := texts, cache := Avalanche.unlink m.cache (linkAfter (.bucket b) before) dead } := by
  have permuted := Rows.removed_perm inHome split
  have inside : forall e, e ∈ before -> e ∈ dead ::
      (List.range m.cache.nbuckets).flatMap (Function.update rows b (before ++ after)) := by
    intro e member
    refine permuted.subset (List.mem_flatMap.mpr ⟨b, List.mem_range.mpr inHome, ?_⟩)
    rw [split]
    exact List.mem_append_left _ member
  have sub : forall other e, e ∈ Function.update rows b (before ++ after) other -> e ∈ rows other := by
    intro other e member
    by_cases same : other = b
    · rw [same, Function.update_self] at member
      rw [same, split]
      exact ((List.sublist_cons_self dead after).append_left before).subset member
    · rwa [Function.update_of_ne same] at member
  refine ⟨_, keeps.linked.unlink inHome split, ⟨?_, ?_⟩, keeps.tables, fun whole other inside e member => ?_⟩
  · dsimp only
    rw [unlink_nbuckets]
    exact retains_unlink (keeps.parts.entries.perm permuted) inside
  · have same : textsOf { m with
        texts := texts, cache := Avalanche.unlink m.cache (linkAfter (.bucket b) before) dead } = m.textsOf :=
      funext fun e => textsOf_unlink m texts _ dead e
    rw [same]
    dsimp only
    rw [unlink_nbuckets]
    exact others
  · dsimp only at inside ⊢
    rw [unlink_nbuckets] at inside
    rw [Rows.unlink_keyOf]
    exact keeps.keyed whole other inside e (sub other e member)

/-- One text more, which no entry has.  It is the normal form of a key, for as
long as the call lasts. -/
theorem Keeps.lend (keeps : Keeps complete m rows) :
    Retains m.mallocText.texts
      (m.texts.next :: ((List.range m.cache.nbuckets).flatMap rows).flatMap m.textsOf) :=
  keeps.parts.texts.alloc ()

theorem visit_eq {e : Block} (live : m.cache.entries.Live e)
    (key : forall block, m.keyAt e = some block -> m.texts.Live block) : m.visit e = m := by
  rw [visit, Heap.touch_of_live live]
  dsimp only
  cases own : m.keyAt e with
  | none => rfl
  | some block =>
      dsimp only
      rw [Heap.touch_of_live (key block own)]

theorem readFrom_eq (key : CStr) {start : Option Block} {row : List Block} {fuel : Nat}
    (path : Path m.cache.link start row none) (visited : forall e, e ∈ row -> m.visit e = m) :
    readFrom key fuel start m = m := by
  induction row generalizing start fuel with
  | nil =>
      rw [path_nil] at path
      subst path
      cases fuel <;> rfl
  | cons e rest inductionHypothesis =>
      cases fuel with
      | zero => rfl
      | succ fuel =>
          have later := @inductionHypothesis (m.cache.entry e).next fuel path.2 fun other member =>
            visited other (List.mem_cons_of_mem e member)
          rw [path.1, readFrom, visited e List.mem_cons_self, later]
          split
          · rfl
          · split <;> rfl

/-- What is read is live, whichever other texts there are, so a visit leaves
no fault behind.  The other text is the normal form that a lookup of the pipe
holds meanwhile. -/
theorem Keeps.visit_with (keeps : Keeps complete m rows) {texts : Heap Unit} {lent : List Block}
    (holds : Retains texts (lent ++ ((List.range m.cache.nbuckets).flatMap rows).flatMap m.textsOf)) {e : Block}
    (listed : e ∈ (List.range m.cache.nbuckets).flatMap rows) :
    visit { m with texts := texts } e = { m with texts := texts } := by
  refine visit_eq (keeps.parts.entries.live e listed) fun block own => ?_
  have text : block ∈ m.textsOf e := List.mem_append_left _ (Option.mem_toList.mpr own)
  exact holds.live block (List.mem_append_right _ (List.mem_flatMap.mpr ⟨e, listed, text⟩))

theorem Keeps.visit_listed (keeps : Keeps complete m rows) {e : Block} (listed : e ∈ m.cache.listed) :
    m.visit e = m := by
  rw [keeps.linked.listed_eq] at listed
  exact @Keeps.visit_with m complete rows keeps m.texts [] keeps.parts.texts e listed

theorem Keeps.readRow_with (keeps : Keeps complete m rows) {texts : Heap Unit} {lent : List Block}
    (holds : Retains texts (lent ++ ((List.range m.cache.nbuckets).flatMap rows).flatMap m.textsOf)) (key : CStr) :
    readRow { m with texts := texts } key = { m with texts := texts } := by
  have inHome := keeps.linked.bucketOf_lt key
  refine readFrom_eq key (keeps.linked.path _ inHome) fun e member => keeps.visit_with holds ?_
  exact List.mem_flatMap.mpr ⟨_, List.mem_range.mpr inHome, member⟩

theorem Keeps.readRow_eq (keeps : Keeps complete m rows) (key : CStr) : m.readRow key = m :=
  @Keeps.readRow_with m complete rows keeps m.texts [] keeps.parts.texts key

theorem Keeps.readRow_lent (keeps : Keeps complete m rows) (key : CStr) : m.mallocText.readRow key = m.mallocText :=
  @Keeps.readRow_with m complete rows keeps _ [m.texts.next] keeps.lend key

/-- `free(norm);` takes the lent text back, and the memory is in use as
before. -/
theorem Keeps.settle (keeps : Keeps complete m rows) :
    Kept complete { m.mallocText with texts := m.mallocText.texts.release m.texts.next } :=
  ⟨rows, keeps.linked, ⟨keeps.parts.entries, keeps.lend.release⟩, keeps.tables, keeps.keyed⟩

theorem Keeps.cacheDel (keeps : Keeps complete m rows) (key : CStr) (fresh : Nat -> UInt8) (norm : Bool)
    (ended : m.cacheDel key fresh norm = some m') : Kept complete m' := by
  rw [Memory.cacheDel] at ended
  cases norm with
  | false =>
      cases ended
      exact ⟨rows, keeps⟩
  | true =>
      simp only [Bool.not_true, Bool.false_eq_true, if_false, keeps.readRow_lent] at ended
      have inHome := keeps.linked.bucketOf_lt (normalized key fresh)
      have walks := @delFrom_walks m.mallocText (normalized key fresh)
        (.bucket (bucketOf m.cache.nbuckets (normalized key fresh))) _ m.cache.fuel
        (keeps.linked.path _ inHome) (keeps.linked.length_lt_fuel inHome)
      rcases Option.map_eq_some_iff.mp ended with ⟨status, _, rfl⟩
      rcases walks with unchanged | ⟨before, dead, after, split, freed⟩
      · rw [unchanged]
        exact keeps.settle
      · rw [freed]
        -- `norm` is still there when the texts of `dead` are given back
        have lent := keeps.lend.perm (((Rows.removed_perm inHome split).flatMap_right m.textsOf).cons m.texts.next)
        rw [List.flatMap_cons] at lent
        have returned := @freeTexts_retains m.mallocText dead _ (lent.perm List.perm_middle.symm)
        exact keeps.unlink inHome split returned.release

theorem Keeps.cacheGet (keeps : Keeps complete m rows) (key : CStr) (fresh : Nat -> UInt8) (norm : Bool)
    (ended : m.cacheGet key fresh norm = some m') : Kept complete m' := by
  rw [Memory.cacheGet] at ended
  cases norm with
  | false =>
      cases ended
      exact ⟨rows, keeps⟩
  | true =>
      simp only [Bool.not_true, Bool.false_eq_true, if_false, keeps.readRow_lent] at ended
      split at ended
      · cases ended
      · cases ended
        exact keeps.settle

theorem Keeps.cacheGetRaw (keeps : Keeps complete m rows) (key : CStr) (ended : m.cacheGetRaw key = some m') :
    Kept complete m' := by
  rw [Memory.cacheGetRaw, keeps.readRow_eq] at ended
  split at ended
  · cases ended
  · cases ended
    exact ⟨rows, keeps⟩

/-- One use keeps the memory, unless it reads a null key.  A use that ends so
has the server stop, and no memory is left to speak of. -/
theorem Keeps.use (keeps : Keeps complete m rows) {use : Use} (copies : complete -> use.Copies)
    (ended : m.use use = some m') : Kept complete m' := by
  cases use with
  | set key val grant =>
      cases ended
      exact keeps.cacheSet key val copies
  | setFast overrun key src declaredLen inline grant =>
      cases ended
      exact keeps.setFast overrun key src inline copies
  | del key fits fresh norm => exact keeps.cacheDel key fresh norm ended
  | get key fits fresh norm => exact keeps.cacheGet key fresh norm ended
  | getRaw key => exact keeps.cacheGetRaw key ended

theorem Kept.uses (kept : Kept complete m) {uses : List Use}
    (copies : complete -> forall use, use ∈ uses -> use.Copies) (ended : Memory.uses uses m = some m') :
    Kept complete m' := by
  induction uses generalizing m with
  | nil =>
      cases ended
      exact kept
  | cons first rest inductionHypothesis =>
      rcases Option.bind_eq_some_iff.mp ended with ⟨next, now, later⟩
      rcases kept with ⟨rows, keeps⟩
      exact inductionHypothesis (keeps.use (fun whole => copies whole first List.mem_cons_self) now)
        (fun whole use member => copies whole use (List.mem_cons_of_mem first member)) later

section Outcomes

variable (keeps : Keeps complete m rows) (key : CStr) (fresh : Nat -> UInt8) (norm : Bool)

include keeps

theorem Keeps.cacheGet_cache :
    (m.cacheGet key fresh norm).map Memory.cache =
      match Avalanche.cacheGet m.cache (some key) fresh norm with
      | .nullKey => none
      | _ => some m.cache := by
  rw [Memory.cacheGet]
  cases norm with
  | false => rfl
  | true =>
      simp only [Bool.not_true, Bool.false_eq_true, if_false, keeps.readRow_lent]
      split <;> rfl

theorem Keeps.cacheGetRaw_cache :
    (m.cacheGetRaw key).map Memory.cache =
      match Avalanche.cacheGetRaw m.cache (some key) with
      | .nullKey => none
      | _ => some m.cache := by
  rw [Memory.cacheGetRaw, keeps.readRow_eq]
  split <;> rfl

theorem Keeps.cacheDel_cache :
    (m.cacheDel key fresh norm).map Memory.cache =
      (Avalanche.cacheDel m.cache (some key) fresh norm).2.map fun _ =>
        (Avalanche.cacheDel m.cache (some key) fresh norm).1 := by
  rw [Memory.cacheDel]
  cases norm with
  | false => rfl
  | true =>
      have walked := delFrom_cache m.mallocText (normalized key fresh) m.cache.fuel
        (.bucket (bucketOf m.cache.nbuckets (normalized key fresh)))
      simp only [Bool.not_true, Bool.false_eq_true, if_false, Option.map_map, keeps.readRow_lent]
      rw [walked.2, Avalanche.cacheDel]
      simp only [Bool.not_true, Bool.false_eq_true, if_false]
      exact congrArg (fun c => Option.map (fun _ => c) _) walked.1

end Outcomes

theorem Keeps.use_cache (keeps : Keeps complete m rows) (use : Use) :
    (m.use use).map Memory.cache = m.cache.use use := by
  cases use with
  | set key val grant => exact congrArg some (cacheSet_cache m key val grant)
  | getRaw key => exact keeps.cacheGetRaw_cache key
  | get key fits fresh norm => exact keeps.cacheGet_cache key fresh norm
  | del key fits fresh norm => exact keeps.cacheDel_cache key fresh norm
  | setFast overrun key src declaredLen inline grant =>
      rw [Memory.use, Cache.use, Option.map_some, setFast_cache]
      split <;> rfl

/-- The cache of the memory is the cache of `cachecore.c`: following the
blocks changes no answer of it. -/
theorem Kept.uses_cache (kept : Kept complete m) {uses : List Use}
    (copies : complete -> forall use, use ∈ uses -> use.Copies) :
    (Memory.uses uses m).map Memory.cache = Cache.uses uses m.cache := by
  induction uses generalizing m with
  | nil => rfl
  | cons first rest inductionHypothesis =>
      rcases kept with ⟨rows, keeps⟩
      rw [Memory.uses, Cache.uses, ← keeps.use_cache]
      cases now : m.use first with
      | none => rfl
      | some next =>
          exact inductionHypothesis (keeps.use (fun whole => copies whole first List.mem_cons_self) now)
            fun whole use member => copies whole use (List.mem_cons_of_mem first member)

/-! ## Uses that end -/

theorem Keeps.readable (keeps : Keeps complete m rows) (whole : complete) (key : CStr) : m.cache.Readable key := by
  intro before e after split null
  have member : e ∈ rows (bucketOf m.cache.nbuckets key) := by
    rw [← keeps.linked.row_home key, split]
    exact List.mem_append_right _ List.mem_cons_self
  exact absurd null (keeps.keyed whole _ (keeps.linked.bucketOf_lt key) e member)

/-- A lookup reads no null key, as long as every entry got its copy.  This is
what makes the uses end at all. -/
theorem Keeps.returns (keeps : Keeps complete m rows) (whole : complete) (key : CStr) :
    Avalanche.cacheGetRaw m.cache (some key) ≠ .nullKey := fun null =>
  (keeps.linked.nullKey_iff key).mp null (keeps.readable whole key)

/-- Neither does a deletion, which reads the keys of one chain like a
lookup. -/
theorem Keeps.del_returns (keeps : Keeps complete m rows) (whole : complete) (key : CStr) (fresh : Nat -> UInt8) :
    (Avalanche.cacheDel m.cache (some key) fresh true).2 ≠ none := by
  have inHome := keeps.linked.bucketOf_lt (normalized key fresh)
  cases found : (rows (bucketOf m.cache.nbuckets (normalized key fresh))).find?
      (m.cache.stops (normalized key fresh)) with
  | none =>
      rw [keeps.linked.del_absent rfl found]
      exact Option.some_ne_none _
  | some dead =>
      rcases keeps.linked.del_stop rfl found with ⟨before, after, split, deleted⟩
      have keyed := keeps.keyed whole _ inHome dead (List.mem_of_find?_eq_some found)
      rw [deleted, if_pos (Option.isSome_iff_ne_none.mpr keyed)]
      exact Option.some_ne_none _

theorem Keeps.use_ends (keeps : Keeps complete m rows) (whole : complete) (use : Use) :
    exists m', m.use use = some m' := by
  cases use with
  | set key val grant => exact ⟨_, rfl⟩
  | setFast overrun key src declaredLen inline grant => exact ⟨_, rfl⟩
  | getRaw key =>
      rw [Memory.use, Memory.cacheGetRaw]
      split
      · rename_i null
        exact absurd null (keeps.returns whole key)
      · exact ⟨_, rfl⟩
  | get key fits fresh norm =>
      rw [Memory.use, Memory.cacheGet]
      cases norm with
      | false => exact ⟨_, rfl⟩
      | true =>
          simp only [Bool.not_true, Bool.false_eq_true, if_false]
          split
          · rename_i null
            exact absurd null (keeps.returns whole (normalized key fresh))
          · exact ⟨_, rfl⟩
  | del key fits fresh norm =>
      rw [Memory.use, Memory.cacheDel]
      cases norm with
      | false => exact ⟨_, rfl⟩
      | true =>
          simp only [Bool.not_true, Bool.false_eq_true, if_false, keeps.readRow_lent]
          rw [(delFrom_cache ..).2]
          rcases Option.ne_none_iff_exists'.mp (keeps.del_returns whole key fresh) with ⟨status, deleted⟩
          exact ⟨_, Option.map_eq_some_iff.mpr ⟨status, deleted, rfl⟩⟩

theorem Kept.uses_end (kept : Kept complete m) (whole : complete) {uses : List Use}
    (copies : forall use, use ∈ uses -> use.Copies) : exists m', Memory.uses uses m = some m' := by
  induction uses generalizing m with
  | nil => exact ⟨m, rfl⟩
  | cons first rest inductionHypothesis =>
      rcases kept with ⟨rows, keeps⟩
      rcases keeps.use_ends whole first with ⟨next, now⟩
      rw [Memory.uses, now]
      exact inductionHypothesis (keeps.use (fun _ => copies first List.mem_cons_self) now) fun use member =>
        copies use (List.mem_cons_of_mem first member)

theorem cacheNew_cache (nbuckets : UInt32) (cache buckets : Bool) :
    (cacheNew nbuckets cache buckets).2.map Memory.cache = Avalanche.cacheNew nbuckets cache buckets := by
  cases cache with
  | false => rfl
  | true => cases buckets <;> rfl

theorem kept_cacheNew {nbuckets : UInt32} {cache buckets : Bool} {start : Memory}
    (made : (cacheNew nbuckets cache buckets).2 = some start) : Kept complete start := by
  have allocated : cache = true ∧ buckets = true := by
    cases cache with
    | false => cases made
    | true =>
        cases buckets with
        | false => cases made
        | true => exact ⟨rfl, rfl⟩
  rcases allocated with ⟨rfl, rfl⟩
  simp only [cacheNew, Bool.not_true, Bool.false_eq_true, if_false] at made
  rcases Option.map_eq_some_iff.mp made with ⟨c, new, rfl⟩
  have fresh := keyed_cacheNew new
  rcases fresh.1.linked with ⟨rows, linked⟩
  have nothing : (List.range c.nbuckets).flatMap rows = [] := by
    rw [← linked.listed_eq, ← List.length_eq_zero_iff, ← fresh.1.keys_length, fresh.2, List.length_nil]
  refine ⟨rows, linked, ⟨?_, ?_⟩, ?_, fun _ b inside e member => ?_⟩
  · dsimp only
    rw [nothing]
    cases new
    exact retains_empty
  · dsimp only
    rw [nothing]
    exact retains_empty
  · exact (retains_empty.alloc ()).alloc ()
  · rw [List.flatMap_eq_nil_iff.mp nothing b (List.mem_range.mpr inside)] at member
    cases member

/-- What the loop of `CacheFree` does not change.  It only gives blocks back,
so all pointers can still be followed as they were. -/
structure SamePointers (m m' : Memory) : Prop where
  cells : m'.cache.entries.cell = m.cache.entries.cell
  next : m'.cache.entries.next = m.cache.entries.next
  buckets : m'.cache.buckets = m.cache.buckets
  keyAt : m'.keyAt = m.keyAt
  valueAt : m'.valueAt = m.valueAt
  tables : m'.tables = m.tables
  self : m'.self = m.self
  table : m'.table = m.table

namespace SamePointers

theorem refl (m : Memory) : SamePointers m m :=
  ⟨rfl, rfl, rfl, rfl, rfl, rfl, rfl, rfl⟩

theorem trans {m'' : Memory} (first : SamePointers m m') (second : SamePointers m' m'') : SamePointers m m'' where
  cells := second.cells.trans first.cells
  next := second.next.trans first.next
  buckets := second.buckets.trans first.buckets
  keyAt := second.keyAt.trans first.keyAt
  valueAt := second.valueAt.trans first.valueAt
  tables := second.tables.trans first.tables
  self := second.self.trans first.self
  table := second.table.trans first.table

theorem freeEntry (m : Memory) (e : Block) : SamePointers m (m.freeEntry e) :=
  ⟨rfl, rfl, rfl, rfl, rfl, rfl, rfl, rfl⟩

theorem link (same : SamePointers m m') : m'.cache.link = m.cache.link := by
  funext e
  rw [Cache.link, Cache.link, Cache.entry, Cache.entry, same.cells]

end SamePointers

/-- The loop over a chain gives back its entries with their texts.  The
induction is on the chain. -/
theorem freeRow_parts {row : List Block} {start : Option Block} {fuel : Nat} (parts : Parts m (row ++ nodes))
    (path : Path m.cache.link start row none) (enough : row.length < fuel) :
    Parts (freeRow fuel start m) nodes ∧ SamePointers m (freeRow fuel start m) := by
  induction row generalizing m start fuel with
  | nil =>
      rw [path_nil] at path
      subst path
      cases fuel <;> exact ⟨parts, .refl m⟩
  | cons e rest inductionHypothesis =>
      cases fuel with
      | zero => exact absurd enough (Nat.not_lt_zero _)
      | succ fuel =>
          rcases path with ⟨rfl, later⟩
          rw [List.cons_append] at parts
          have same := SamePointers.freeEntry m e
          have walked : Path (m.freeEntry e).cache.link (m.cache.entry e).next rest none := by
            rw [same.link]
            exact later
          have freed := inductionHypothesis parts.free walked (Nat.lt_of_succ_lt_succ enough)
          rw [freeRow, parts.entries.touch_eq List.mem_cons_self]
          exact ⟨freed.1, same.trans freed.2⟩

/-- The loop over the buckets gives back all of their entries, and leaves what
belongs to no bucket. -/
theorem freeRows_parts {buckets : List Nat} (parts : Parts m (buckets.flatMap rows ++ nodes))
    (paths : forall b, b ∈ buckets -> Path m.cache.link (m.cache.buckets b) (rows b) none)
    (enough : forall b, b ∈ buckets -> (rows b).length < m.cache.fuel) :
    Parts (freeRows buckets m) nodes ∧ SamePointers m (freeRows buckets m) := by
  induction buckets generalizing m with
  | nil => exact ⟨parts, .refl m⟩
  | cons b rest inductionHypothesis =>
      rw [List.flatMap_cons, List.append_assoc] at parts
      have freed := freeRow_parts parts (paths b List.mem_cons_self) (enough b List.mem_cons_self)
      rw [freeRows]
      generalize freeRow m.cache.fuel (m.cache.buckets b) m = next at freed ⊢
      have fuel : next.cache.fuel = m.cache.fuel := congrArg (· + 1) freed.2.next
      have later := inductionHypothesis freed.1
        (fun other member => by
          rw [freed.2.link, freed.2.buckets]
          exact paths other (List.mem_cons_of_mem b member))
        (fun other member => by
          rw [fuel]
          exact enough other (List.mem_cons_of_mem b member))
      exact ⟨later.1, freed.2.trans later.2⟩

/-- Every block was given back exactly once, and none was used behind that:
the three heaps hold nothing, and have no fault on record. -/
structure Clean (m : Memory) : Prop where
  entries : Retains m.cache.entries []
  texts : Retains m.texts []
  tables : Retains m.tables []

theorem Keeps.free (keeps : Keeps complete m rows) : Clean m.cacheFree := by
  have parts := keeps.parts
  rw [← List.append_nil ((List.range m.cache.nbuckets).flatMap rows)] at parts
  have freed := freeRows_parts parts (fun b member => keeps.linked.path b (List.mem_range.mp member))
    fun b member => keeps.linked.length_lt_fuel (List.mem_range.mp member)
  have tables := keeps.tables
  rw [← freed.2.tables, ← freed.2.table, ← freed.2.self] at tables
  exact ⟨freed.1.entries, freed.1.texts, tables.release.release⟩

theorem cacheNew_refused {nbuckets : UInt32} {cache buckets : Bool}
    (refused : (cacheNew nbuckets cache buckets).2 = none) : Retains (cacheNew nbuckets cache buckets).1 [] := by
  cases cache with
  | false => exact retains_empty
  | true =>
      cases buckets with
      | false => exact (retains_empty.alloc ()).release
      | true => cases refused

/-- Whatever a cache is used for, and whatever memory is refused, nothing of
it is left when it was freed.  The uses are those of `cachecore.c`, and they
come to an end when every entry gets its key copy. -/
theorem cacheFree_returns (nbuckets : UInt32) (cache buckets : Bool) (uses : List Use) :
    ((cacheNew nbuckets cache buckets).2 = none -> Retains (cacheNew nbuckets cache buckets).1 []) ∧
      forall start, (cacheNew nbuckets cache buckets).2 = some start ->
        (forall m, Memory.uses uses start = some m -> Clean m.cacheFree) ∧
          (Memory.uses uses start).map Memory.cache = Cache.uses uses start.cache ∧
          ((forall use, use ∈ uses -> use.Copies) -> exists m, Memory.uses uses start = some m) := by
  refine ⟨cacheNew_refused, fun start made => ?_⟩
  have begun : Kept False start := kept_cacheNew made
  refine ⟨fun m ended => ?_, begun.uses_cache False.elim, fun copies => ?_⟩
  · rcases begun.uses False.elim ended with ⟨rows, keeps⟩
    exact keeps.free
  · have whole : Kept True start := kept_cacheNew made
    exact whole.uses_end trivial copies

/-- Two entries under one key, of which one has a long value and one none for lack of memory,
and a lookup and a deletion of that key in between. -/
example :
    let key : CStr := ⟨[107], by decide⟩
    let long : Payload := ⟨List.replicate 65 0, by decide⟩
    let fits : FitsBlock key := Or.inl (by decide)
    let norm : Nat -> UInt8 := fun _ => 0
    let uses : List Use :=
      [.set key long granted, .get key fits norm true, .set key long { granted with value := false },
        .del key fits norm true]
    ((cacheNew 2 true true).2.bind (Memory.uses uses)).map (fun m => (m.cache.count, m.cacheFree.texts.next)) =
      some (1, 5) := by
  decide

end Memory

end Avalanche
end BugMuseum
