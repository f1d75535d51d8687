import BugMuseum.Avalanche.PipeLookup
import BugMuseum.Avalanche.FastPath

namespace BugMuseum
namespace Avalanche

open Foundation

/-!
# Sets that fail

`CacheInsertEmpty` links and counts an entry before its key is copied, and
`CacheSet` looks for memory for a long value only after that.  So of the three
allocations of a set, only the first fails without a trace.  The server replies
`STORED` whatever came of the set.
-/

/-- The chains, the count and the lookups of both transports are the same.
Faults and the heap of entries are left out of it. -/
structure Unchanged (c c' : Cache) : Prop where
  chain : forall b, c'.row b = c.row b
  contents : forall b e, e ∈ c.row b -> c'.contents e = c.contents e
  count : c'.count = c.count
  getRaw : forall key, cacheGetRaw c' key = cacheGetRaw c key
  get : forall key fresh norm, cacheGet c' key fresh norm = cacheGet c key fresh norm

theorem Unchanged.refl (c : Cache) : Unchanged c c where
  chain := fun _ => rfl
  contents := fun _ _ _ => rfl
  count := rfl
  getRaw := fun _ => rfl
  get := fun _ _ _ => rfl

/-- A set that fails changes nothing, and one that does not has made an entry
with the key and the full value, the first of its bucket. -/
structure SetHonest (c : Cache) (key : CStr) (val : Payload) (grant : SetGrant) : Prop where
  failed : (cacheSet c (some key) val grant).2 ≠ cacheOk -> Unchanged c (cacheSet c (some key) val grant).1
  stored : (cacheSet c (some key) val grant).2 = cacheOk ->
    (cacheSet c (some key) val grant).1.buckets (bucketOf c.nbuckets key) = some c.entries.next ∧
      (cacheSet c (some key) val grant).1.contents c.entries.next = (some key, some val.bytes)

/-- What `handle_get` looks up: the exact key over TCP, and the normal form of
it over a pipe. -/
def getLookup (isTcp : Bool) (c : Cache) (key : CStr) (norm : Grant) : Search :=
  if isTcp then cacheGetRaw c (some key) else cacheGet c (some key) (normResidue norm) norm.isSome

/-- The lookup ends at an entry with this key and this value. -/
def Returns (c : Cache) (search : Search) (key : CStr) (value : Bytes) : Prop :=
  exists e, search = .found e ∧ c.contents e = (some key, some value)

theorem Returns.reply {c : Cache} {search : Search} {key : CStr} {value : Bytes}
    (returns : Returns c search key value) : getReply c search = some (ascii "VALUE " ++ value ++ ascii "\n") := by
  rcases returns with ⟨e, found, contents⟩
  have bytes : (c.entry e).valueBytes = some value := congrArg Prod.snd contents
  rw [found, getReply, bytes, Option.getD_some]

/-- The value that `handle_set` is to store: on the fast path what the codec
makes of the value, and nothing when the codec fails. -/
def Request.toStore (r : Request) (codecs : Nat -> Option Codec) (isTcp : Bool) : Option Bytes :=
  if r.fast isTcp then
    let result := applyCodec (codecFor codecs r.codecId) r.value.1
    if result.2 < 0 then none else some result.1
  else some r.value.1

/-- The reply `STORED` is sent only when the GET that follows returns the
value, and the value was stored inside the entry: no copy went past an inline
buffer. -/
def StoredIsRead (platform : Platform) (isTcp : Bool) (c : Cache) (r : Request) (grant : RequestGrant)
    (getTcp : Bool) (norm : Grant) : Prop :=
  (handleSet platform isTcp c r grant).2 = ascii "STORED\n" ->
    (exists value, r.toStore platform.codecs isTcp = some value ∧
      Returns (handleSet platform isTcp c r grant).1
        (getLookup getTcp (handleSet platform isTcp c r grant).1 r.key norm) r.key value) ∧
      (handleSet platform isTcp c r grant).1.overruns = c.overruns

/-! ## When it does so -/

/-- The entry is refused, or nothing is.  A short value needs no block. -/
def SetGrant.Whole (grant : SetGrant) (len : Nat) : Prop :=
  grant.entry = false ∨ (grant.key = true ∧ (len ≤ smallSize ∨ grant.value = true))

/-- The GET looks for this very key: over TCP, or through a block that takes
the key as it is. -/
def Seeks (isTcp : Bool) (key : CStr) (norm : Grant) : Prop :=
  isTcp = true ∨ exists fresh, norm = some fresh ∧ OwnForm key fresh

/-- On the fast path the codec did not fail, and what it returns fits into the
inline buffer; otherwise the value is short or gets its block. -/
def Request.ValueMade (r : Request) (codecs : Nat -> Option Codec) (isTcp : Bool) (grant : SetGrant) : Prop :=
  if r.fast isTcp then
    0 ≤ (applyCodec (codecFor codecs r.codecId) r.value.1).2 ∧
      (applyCodec (codecFor codecs r.codecId) r.value.1).2 ≤ smallSize
  else r.header.valueLen ≤ smallSize ∨ grant.value = true

instance (r : Request) (codecs : Nat -> Option Codec) (isTcp : Bool) (grant : SetGrant) :
    Decidable (r.ValueMade codecs isTcp grant) :=
  inferInstanceAs (Decidable (if r.fast isTcp then
      0 ≤ (applyCodec (codecFor codecs r.codecId) r.value.1).2 ∧
        (applyCodec (codecFor codecs r.codecId) r.value.1).2 ≤ smallSize
    else r.header.valueLen ≤ smallSize ∨ grant.value = true))

/-- There is no work buffer, so the reply is another one; or there is no
entry, but the GET already returned the value; or all of the entry is made. -/
def StoredSafe (platform : Platform) (isTcp : Bool) (c : Cache) (r : Request) (grant : RequestGrant)
    (getTcp : Bool) (norm : Grant) : Prop :=
  (r.fast isTcp ∧ grant.work = none) ∨
    (grant.set.entry = false ∧ exists value, r.toStore platform.codecs isTcp = some value ∧
      Returns c (getLookup getTcp c r.key norm) r.key value) ∨
    (grant.set.entry = true ∧ grant.set.key = true ∧ r.ValueMade platform.codecs isTcp grant.set ∧
      Seeks getTcp r.key norm)

/-- `codec.h`: a codec respects `out_cap` and returns the number of bytes
written, or a negative number on an error. -/
def Codec.Respects (codec : Codec) : Prop :=
  forall input outCap, 0 ≤ (codec input outCap).2 ->
    (codec input outCap).2 = (codec input outCap).1.length ∧ (codec input outCap).1.length ≤ outCap

theorem codecRaw_respects : Codec.Respects codecRaw := by
  intro input outCap _
  simp only [codecRaw]
  split
  · rw [List.take_length]
    refine ⟨rfl, ?_⟩
    omega
  · have cut : (input.take outCap).length = outCap := by
      rw [List.length_take]
      omega
    rw [cut]
    exact ⟨rfl, Nat.le_refl _⟩

theorem findFrom_found {c : Cache} {key : CStr} {fuel : Nat} {start : Option Block} {e : Block}
    (found : findFrom c key fuel start = .found e) : c.keyOf e = some key := by
  induction fuel generalizing start with
  | zero => cases found
  | succ fuel inductionHypothesis =>
      cases start with
      | none => cases found
      | some head =>
          rw [findFrom] at found
          cases keyed : (c.entry head).key with
          | none =>
              rw [keyed] at found
              cases found
          | some copy =>
              rw [keyed] at found
              simp only at found
              by_cases same : copy.text = key
              · rw [if_pos same] at found
                cases found
                rw [keyOf_eq_some keyed, same]
              · rw [if_neg same] at found
                exact inductionHypothesis found

/-- A GET returns the value of the key exactly when it looks for that key, and
the exact lookup returns it.  So the transport matters only through the normal
form. -/
theorem returns_getLookup_iff {isTcp : Bool} {c : Cache} {key : CStr} {norm : Grant} {value : Bytes} :
    Returns c (getLookup isTcp c key norm) key value ↔
      Seeks isTcp key norm ∧ Returns c (cacheGetRaw c (some key)) key value := by
  cases isTcp with
  | true => exact ⟨fun returns => ⟨Or.inl rfl, returns⟩, And.right⟩
  | false =>
      cases norm with
      | none =>
          refine iff_of_false ?_ ?_
          · rintro ⟨e, found, _⟩
            cases found
          · rintro ⟨tcp | ⟨fresh, allocated, _⟩, _⟩
            · cases tcp
            · cases allocated
      | some fresh =>
          have lookup : getLookup false c key (some fresh) = cacheGetRaw c (some (normalized key fresh)) := rfl
          rw [lookup]
          constructor
          · rintro ⟨e, found, contents⟩
            have keyed : c.keyOf e = some key := congrArg Prod.fst contents
            have same : normalized key fresh = key :=
              Option.some.inj ((findFrom_found found).symm.trans keyed)
            refine ⟨Or.inr ⟨fresh, rfl, (normalized_eq_iff key fresh).mp same⟩, e, ?_, contents⟩
            rw [← found, same]
          · rintro ⟨tcp | ⟨_, allocated, own⟩, returns⟩
            · cases tcp
            · cases allocated
              rwa [(normalized_eq_iff key fresh).mpr own]

/-- The entry is the first of the bucket of the key, and has it if it could be
copied.  The lookups of this key end at it, one way or the other. -/
structure Leads (c : Cache) (key : CStr) (copied : Bool) (e : Block) : Prop where
  head : c.buckets (bucketOf c.nbuckets key) = some e
  keyed : c.keyOf e = if copied then some key else none

theorem Added.leads {c c' : Cache} {key : CStr} {copied : Bool} (added : Added c c' key copied) :
    Leads c' key copied c.entries.next where
  head := by rw [added.nbuckets, added.buckets, Function.update_self]
  keyed := added.keyed

/-- The exact lookup returns what the first entry holds.  It never gets past
that entry, as it has the key or none. -/
theorem Leads.returns_iff {c : Cache} {key : CStr} {copied : Bool} {e : Block} (leads : Leads c key copied e)
    {value : Bytes} :
    Returns c (cacheGetRaw c (some key)) key value ↔
      copied = true ∧ (c.entry e).valueBytes = some value := by
  have lookup : cacheGetRaw c (some key) = findFrom c key (c.entries.next + 1) (some e) := by
    rw [cacheGetRaw, leads.head, Cache.fuel]
  rw [lookup, findFrom]
  have keyed := leads.keyed
  cases copied with
  | false =>
      cases stored : (c.entry e).key with
      | none =>
          refine iff_of_false ?_ fun both => Bool.false_ne_true both.1
          rintro ⟨other, found, _⟩
          cases found
      | some copy =>
          rw [keyOf_eq_some stored] at keyed
          cases keyed
  | true =>
      cases stored : (c.entry e).key with
      | none =>
          rw [keyOf_eq_none stored] at keyed
          cases keyed
      | some copy =>
          rw [keyOf_eq_some stored] at keyed
          simp only [if_pos (Option.some.inj keyed)]
          constructor
          · rintro ⟨other, found, contents⟩
            cases found
            exact ⟨trivial, congrArg Prod.snd contents⟩
          · rintro ⟨_, bytes⟩
            exact ⟨e, rfl, Prod.ext ((keyOf_eq_some stored).trans keyed) bytes⟩

/-! ## The new entry -/

/-- A new entry has no value yet, and a clear buffer.  A fast set whose codec
fails leaves it so. -/
theorem cacheInsertEmpty_cleared (c : Cache) (key : CStr) {grant : SetGrant} (entry : grant.entry = true) :
    ((cacheInsertEmpty c (some key) grant).1.entry c.entries.next).value = .null ∧
      ((cacheInsertEmpty c (some key) grant).1.entry c.entries.next).small = List.replicate smallSize 0 := by
  rw [cacheInsertEmpty, entry]
  exact ⟨congrArg CacheEntry.value (Heap.alloc_cell_next ..),
    congrArg CacheEntry.small (Heap.alloc_cell_next ..)⟩

theorem cacheSet_valueBytes (c : Cache) (key : CStr) (val : Payload) {grant : SetGrant}
    (entry : grant.entry = true) :
    ((cacheSet c (some key) val grant).1.entry c.entries.next).valueBytes =
      if val.bytes.length ≤ smallSize ∨ grant.value = true then some val.bytes else none := by
  have inserted := cacheInsertEmpty_added c key entry
  have cleared := cacheInsertEmpty_cleared c key entry
  rw [cacheSet]
  simp only [inserted.1]
  by_cases short : val.bytes.length ≤ smallSize
  · have room : val.bytes.length ≤ (List.replicate smallSize (0 : UInt8)).length := by
      rwa [List.length_replicate]
    rw [if_pos short, if_pos (Or.inl short), Cache.entry, Heap.modify_cell_self]
    simp only [CacheEntry.valueBytes]
    rw [← Cache.entry, cleared.2, take_overwrite_zero room]
  · rw [if_neg short]
    cases value : grant.value with
    | false =>
        simp only [Bool.not_false, if_true, Bool.false_eq_true, or_false, if_neg short, CacheEntry.valueBytes,
          cleared.1]
    | true =>
        simp only [Bool.not_true, Bool.false_eq_true, if_false, or_true, if_true]
        rw [Cache.entry, Heap.modify_cell_self]
        simp only [CacheEntry.valueBytes, List.take_length]

theorem cacheEnomem_ne_cacheOk : cacheEnomem ≠ cacheOk := by
  decide

theorem cacheSet_ok_iff (c : Cache) (key : CStr) (val : Payload) {grant : SetGrant}
    (entry : grant.entry = true) :
    (cacheSet c (some key) val grant).2 = cacheOk ↔ val.bytes.length ≤ smallSize ∨ grant.value = true := by
  have inserted := cacheInsertEmpty_added c key entry
  rw [cacheSet]
  simp only [inserted.1]
  by_cases short : val.bytes.length ≤ smallSize
  · rw [if_pos short]
    exact iff_of_true rfl (Or.inl short)
  · rw [if_neg short]
    cases value : grant.value with
    | false =>
        refine iff_of_false cacheEnomem_ne_cacheOk ?_
        rintro (fits | allocated)
        · exact short fits
        · cases allocated
    | true => exact iff_of_true rfl (Or.inr rfl)

theorem setHonest_iff (c : Cache) (key : CStr) (val : Payload) (grant : SetGrant) :
    SetHonest c key val grant ↔ grant.Whole val.bytes.length := by
  cases entry : grant.entry with
  | false =>
      refine iff_of_true ?_ (Or.inl entry)
      have refused := cacheSet_refused c key val entry
      constructor
      · intro _
        rw [refused]
        exact .refl c
      · intro stored
        rw [refused] at stored
        exact absurd stored cacheEnomem_ne_cacheOk
  | true =>
      have added := cacheSet_added c key val entry
      have bytes := cacheSet_valueBytes c key val entry
      have status := cacheSet_ok_iff c key val entry
      rw [SetGrant.Whole, entry]
      constructor
      · intro honest
        right
        by_cases made : val.bytes.length ≤ smallSize ∨ grant.value = true
        · have keyed : (cacheSet c (some key) val grant).1.keyOf c.entries.next = some key :=
            congrArg Prod.fst (honest.stored (status.mpr made)).2
          rw [added.keyed] at keyed
          refine ⟨?_, made⟩
          cases copied : grant.key with
          | false =>
              rw [copied] at keyed
              cases keyed
          | true => rfl
        · have count := (honest.failed fun ok => made (status.mp ok)).count
          rw [added.count] at count
          omega
      · rintro (refused | ⟨copied, made⟩)
        · cases refused
        · refine ⟨fun failed => absurd (status.mpr made) failed, fun _ => ⟨?_, Prod.ext ?_ ?_⟩⟩
          · rw [added.buckets, Function.update_self]
          · exact added.keyed.trans (if_pos copied)
          · exact bytes.trans (if_pos made)

theorem cacheStoreFast_stored (overrun : Option Block -> Bytes -> Option Block) (c : Cache) (e : Block)
    {src : Bytes} {declaredLen : Nat} (inside : declaredLen ≤ src.length) :
    (cacheStoreFast overrun c e src declaredLen).keyOf e = c.keyOf e ∧
      ((cacheStoreFast overrun c e src declaredLen).entry e).valueBytes = some (src.take declaredLen) := by
  have copied : (src.take declaredLen).length = declaredLen := List.length_take_of_le inside
  have entry : (cacheStoreFast overrun c e src declaredLen).entry e =
      { c.entry e with
        small := src.take declaredLen ++ (c.entry e).small.drop (src.take declaredLen).length
        value := .small
        valueLen := declaredLen
        next := if smallSize < (src.take declaredLen).length then
            overrun (c.entry e).next ((src.take declaredLen).drop smallSize) else (c.entry e).next } := by
    rw [Cache.entry, cacheStoreFast]
    simp only
    split
    · rw [Heap.flag_cell, Heap.modify_cell_self]
      rfl
    · rw [Heap.modify_cell_self]
      rfl
  constructor
  · rw [Cache.keyOf, entry]
    rfl
  · rw [entry]
    simp only [CacheEntry.valueBytes]
    rw [List.take_append_of_le_length copied.ge, List.take_of_length_le copied.le]

theorem errMem_ne_stored : ascii "ERR mem\n" ≠ ascii "STORED\n" := by
  decide

/-- Another reply than `STORED` tells only that there was no work buffer.
Every other failure is hidden. -/
theorem handleSet_stored_iff (platform : Platform) (isTcp : Bool) (c : Cache) (r : Request)
    (grant : RequestGrant) :
    (handleSet platform isTcp c r grant).2 = ascii "STORED\n" ↔ ¬ (r.fast isTcp ∧ grant.work = none) := by
  rw [handleSet]
  by_cases fast : r.fast isTcp
  · rw [if_pos fast]
    cases work : grant.work with
    | none => exact iff_of_false errMem_ne_stored (not_not_intro ⟨fast, rfl⟩)
    | some residue =>
        refine iff_of_true ?_ ?_
        · simp only
          split
          · rfl
          · split <;> rfl
        · rintro ⟨_, missing⟩
          cases missing
  · rw [if_neg fast]
    exact iff_of_true rfl fun both => fast both.1

theorem applyCodec_respects {codecs : Nat -> Option Codec}
    (respects : forall id codec, codecs id = some codec -> codec.Respects) (id : UInt8) (value : Bytes)
    (succeeded : 0 ≤ (applyCodec (codecFor codecs id) value).2) :
    (applyCodec (codecFor codecs id) value).2 = (applyCodec (codecFor codecs id) value).1.length ∧
      (applyCodec (codecFor codecs id) value).1.length ≤ value.length := by
  cases chosen : codecFor codecs id with
  | none => exact ⟨rfl, Nat.le_refl _⟩
  | some codec =>
      rw [chosen] at succeeded
      rw [codecFor] at chosen
      split at chosen
      · exact respects _ codec chosen value value.length succeeded
      · cases chosen

/-- The handler has linked an entry for the key in front of its bucket, and
the entry holds a value, stored without leaving the entry, exactly when one
could be made. -/
structure LinksEntry (platform : Platform) (isTcp : Bool) (c : Cache) (r : Request) (grant : RequestGrant) : Prop where
  leads : Leads (handleSet platform isTcp c r grant).1 r.key grant.set.key c.entries.next
  bytes : forall value,
    ((handleSet platform isTcp c r grant).1.entry c.entries.next).valueBytes = some value ∧
        (handleSet platform isTcp c r grant).1.overruns = c.overruns ↔
      r.ValueMade platform.codecs isTcp grant.set ∧ r.toStore platform.codecs isTcp = some value

section Handler

variable {platform : Platform} {isTcp : Bool} {r : Request} {grant : RequestGrant}

theorem linksEntry_slow (c : Cache) (slow : ¬ r.fast isTcp) (entry : grant.set.entry = true) :
    LinksEntry platform isTcp c r grant := by
  have handled : handleSet platform isTcp c r grant =
      ((cacheSet c (some r.key) r.payload grant.set).1, ascii "STORED\n") := if_neg slow
  have length : r.payload.bytes.length = r.header.valueLen := r.value.2
  constructor
  · rw [handled]
    exact (cacheSet_added c r.key r.payload entry).leads
  · intro value
    rw [handled, Request.ValueMade, if_neg slow, Request.toStore, if_neg slow]
    dsimp only
    rw [cacheSet_valueBytes c r.key r.payload entry, length, cacheSet_overruns]
    split
    · rename_i made
      exact ⟨fun bytes => ⟨made, bytes.1⟩, fun both => ⟨both.2, rfl⟩⟩
    · rename_i failed
      exact iff_of_false (fun bytes => by cases bytes.1) fun both => failed both.1

theorem handleSet_worked (platform : Platform) (c : Cache) (fast : r.fast isTcp) {residue : Nat -> UInt8}
    (work : grant.work = some residue) (entry : grant.set.entry = true) :
    (handleSet platform isTcp c r grant).1 =
      if (applyCodec (codecFor platform.codecs r.codecId) r.value.1).2 < 0 then
        (cacheInsertEmpty c (some r.key) grant.set).1
      else
        cacheStoreFast platform.overrun (cacheInsertEmpty c (some r.key) grant.set).1 c.entries.next
          (overwrite (freshBytes (if r.header.valueLen = 0 then 1 else r.header.valueLen) residue) 0
            (applyCodec (codecFor platform.codecs r.codecId) r.value.1).1)
          (applyCodec (codecFor platform.codecs r.codecId) r.value.1).2.toNat := by
  rw [handleSet, if_pos fast, work]
  simp only [(cacheInsertEmpty_added c r.key entry).1]
  split <;> rfl

/-- On the fast path the codec's output is what is stored, if the codec does
not fail and its output fits. -/
theorem linksEntry_fast (respects : forall id codec, platform.codecs id = some codec -> codec.Respects) (c : Cache)
    (fast : r.fast isTcp) {residue : Nat -> UInt8} (work : grant.work = some residue)
    (entry : grant.set.entry = true) : LinksEntry platform isTcp c r grant := by
  have inserted := cacheInsertEmpty_added c r.key entry
  have written := applyCodec_respects respects r.codecId r.value.1
  have handled := handleSet_worked platform c fast work entry
  have made : r.ValueMade platform.codecs isTcp grant.set ↔
      0 ≤ (applyCodec (codecFor platform.codecs r.codecId) r.value.1).2 ∧
        (applyCodec (codecFor platform.codecs r.codecId) r.value.1).2 ≤ smallSize := by
    rw [Request.ValueMade, if_pos fast]
  have stores : r.toStore platform.codecs isTcp =
      if (applyCodec (codecFor platform.codecs r.codecId) r.value.1).2 < 0 then none
      else some (applyCodec (codecFor platform.codecs r.codecId) r.value.1).1 := by
    rw [Request.toStore, if_pos fast]
  generalize applyCodec (codecFor platform.codecs r.codecId) r.value.1 = result at written handled made stores
  by_cases failed : result.2 < 0
  · rw [if_pos failed] at handled
    constructor
    · rw [handled]
      exact inserted.2.leads
    · intro value
      rw [handled, CacheEntry.valueBytes, (cacheInsertEmpty_cleared c r.key entry).1, made]
      exact iff_of_false (fun bytes => by cases bytes.1) fun both => absurd failed (Int.not_lt.mpr both.1.1)
  · have succeeded := Int.not_lt.mp failed
    have within := (written succeeded).2
    have room : result.1.length ≤ if r.header.valueLen = 0 then 1 else r.header.valueLen := by
      rw [r.value.2] at within
      split <;> omega
    have declared : result.2.toNat = result.1.length := by
      rw [(written succeeded).1, Int.toNat_natCast]
    have inside : result.2.toNat ≤ (overwrite (freshBytes
        (if r.header.valueLen = 0 then 1 else r.header.valueLen) residue) 0 result.1).length := by
      rwa [fresh_overwrite_length, declared]
    have stored := cacheStoreFast_stored platform.overrun (cacheInsertEmpty c (some r.key) grant.set).1
      c.entries.next inside
    rw [if_neg failed] at handled stores
    constructor
    · rw [handled]
      exact ⟨inserted.2.leads.head, stored.1.trans inserted.2.keyed⟩
    · intro value
      have copies := cacheStoreFast_overruns platform.overrun (cacheInsertEmpty c (some r.key) grant.set).1
        c.entries.next (overwrite (freshBytes (if r.header.valueLen = 0 then 1 else r.header.valueLen) residue) 0
          result.1) result.2.toNat
      rw [handled, stored.2, copies, cacheInsertEmpty_overruns, declared, work_take room, made, stores,
        (written succeeded).1]
      by_cases long : smallSize < result.1.length
      · rw [if_pos long]
        exact iff_of_false (fun both => by omega) fun both => by omega
      · rw [if_neg long]
        exact ⟨fun both => ⟨⟨by omega, by omega⟩, both.1⟩, fun both => ⟨both.2, rfl⟩⟩

/-- A set whose codec returns at most 64 bytes leaves no inline buffer.  Off
the fast path that holds for every value. -/
theorem handleSet_overruns (platform : Platform) (c : Cache) (grant : RequestGrant)
    (fits : r.fast isTcp -> (applyCodec (codecFor platform.codecs r.codecId) r.value.1).2 ≤ smallSize) :
    (handleSet platform isTcp c r grant).1.overruns = c.overruns := by
  have inserted := cacheInsertEmpty_overruns c r.key grant.set
  rw [handleSet]
  by_cases fast : r.fast isTcp
  · have small := fits fast
    rw [if_pos fast]
    cases grant.work with
    | none => rfl
    | some residue =>
        dsimp only
        cases (cacheInsertEmpty c (some r.key) grant.set).2 with
        | none => exact inserted
        | some e =>
            dsimp only
            split
            · exact inserted
            · rw [cacheStoreFast_overruns, inserted, List.length_take, if_neg (by omega), Nat.add_zero]
  · rw [if_neg fast]
    exact cacheSet_overruns ..

theorem handleSet_entry (respects : forall id codec, platform.codecs id = some codec -> codec.Respects) (c : Cache)
    (replied : ¬ (r.fast isTcp ∧ grant.work = none)) (entry : grant.set.entry = true) :
    LinksEntry platform isTcp c r grant := by
  by_cases fast : r.fast isTcp
  · cases work : grant.work with
    | none => exact absurd ⟨fast, work⟩ replied
    | some residue => exact linksEntry_fast respects c fast work entry
  · exact linksEntry_slow c fast entry

end Handler

theorem Request.ValueMade.stores {r : Request} {codecs : Nat -> Option Codec} {isTcp : Bool} {grant : SetGrant}
    (made : r.ValueMade codecs isTcp grant) : exists value, r.toStore codecs isTcp = some value := by
  rw [Request.ValueMade] at made
  rw [Request.toStore]
  split
  · rename_i fast
    rw [if_pos fast] at made
    exact ⟨_, if_neg (Int.not_lt.mpr made.1)⟩
  · exact ⟨_, rfl⟩

theorem storedIsRead_iff {platform : Platform}
    (respects : forall id codec, platform.codecs id = some codec -> codec.Respects) (isTcp : Bool) (c : Cache)
    (r : Request) (grant : RequestGrant) (getTcp : Bool) (norm : Grant) :
    StoredIsRead platform isTcp c r grant getTcp norm ↔ StoredSafe platform isTcp c r grant getTcp norm := by
  rw [StoredIsRead, StoredSafe, handleSet_stored_iff]
  by_cases missing : r.fast isTcp ∧ grant.work = none
  · exact iff_of_true (fun replied => absurd missing replied) (Or.inl missing)
  · rw [imp_iff_right missing, or_iff_right missing]
    cases entry : grant.set.entry with
    | false =>
        rw [handleSet_refused platform isTcp c r entry]
        constructor
        · intro returned
          exact Or.inl ⟨rfl, returned.1⟩
        · rintro (⟨_, returned⟩ | ⟨allocated, _⟩)
          · exact ⟨returned, rfl⟩
          · cases allocated
    | true =>
        rcases handleSet_entry respects c missing entry with ⟨leads, bytes⟩
        constructor
        · rintro ⟨⟨value, stores, returns⟩, inside⟩
          rcases returns_getLookup_iff.mp returns with ⟨seeks, exactly⟩
          rcases leads.returns_iff.mp exactly with ⟨copied, stored⟩
          exact Or.inr ⟨rfl, copied, ((bytes value).mp ⟨stored, inside⟩).1, seeks⟩
        · rintro (⟨refused, _⟩ | ⟨_, copied, made, seeks⟩)
          · cases refused
          · rcases made.stores with ⟨value, stores⟩
            have stored := (bytes value).mpr ⟨made, stores⟩
            refine ⟨⟨value, stores, returns_getLookup_iff.mpr ⟨seeks, ?_⟩⟩, stored.2⟩
            exact leads.returns_iff.mpr ⟨copied, stored.1⟩

/-- A set changes nothing when it fails, and `STORED` tells that the value is
in its entry and can be read, exactly when the entry is refused or nothing is,
and when no `STORED` is sent, or the value was there before, or all of the
entry is made, on the fast path from at most 64 bytes, and the GET looks for
it. -/
theorem setReported_iff {platform : Platform}
    (respects : forall id codec, platform.codecs id = some codec -> codec.Respects) (c : Cache) (key : CStr)
    (val : Payload) (grant : SetGrant) (isTcp : Bool) (r : Request) (request : RequestGrant) (getTcp : Bool)
    (norm : Grant) :
    (SetHonest c key val grant ∧ StoredIsRead platform isTcp c r request getTcp norm) ↔
      grant.Whole val.bytes.length ∧ StoredSafe platform isTcp c r request getTcp norm :=
  and_congr (setHonest_iff c key val grant) (storedIsRead_iff respects isTcp c r request getTcp norm)

/-- Only `codec_raw` was found. -/
def rawOnly : Platform where
  codecs := fun id => if id = 0 then some codecRaw else none
  overrun := fun _ _ => none

theorem rawOnly_respects (id : Nat) (codec : Codec) (loaded : rawOnly.codecs id = some codec) :
    codec.Respects := by
  simp only [rawOnly] at loaded
  split at loaded
  · cases loaded
    exact codecRaw_respects
  · cases loaded

/-- On the fast path, with a key of one byte that a clear block takes as it
is. -/
theorem fastRequest_reported :
    SetHonest oneKey (CStr.ofBlock [108]) (fastRequest (CStr.ofBlock [108]) [5, 6] (by decide)).payload granted ∧
      StoredIsRead rawOnly true oneKey (fastRequest (CStr.ofBlock [108]) [5, 6] (by decide)) allGranted false
        (some fun _ => 0) :=
  (setReported_iff rawOnly_respects oneKey (CStr.ofBlock [108])
    (fastRequest (CStr.ofBlock [108]) [5, 6] (by decide)).payload granted true
    (fastRequest (CStr.ofBlock [108]) [5, 6] (by decide)) allGranted false (some fun _ => 0)).mpr
    ⟨Or.inr ⟨rfl, Or.inr rfl⟩, Or.inr (Or.inr ⟨rfl, rfl, by decide, Or.inr ⟨_, rfl, Or.inr (by decide)⟩⟩)⟩

def valueRefused : RequestGrant :=
  { allGranted with set := { granted with value := false } }

/-- No memory for 65 bytes: the entry stays without a value, and the reply is
`STORED`. -/
theorem longValue_notReported :
    ¬ SetHonest oneKey (CStr.ofBlock [108])
        (fastRequest (CStr.ofBlock [108]) (List.replicate 65 0) (by decide)).plain.payload valueRefused.set ∧
      ¬ StoredIsRead bare true oneKey (fastRequest (CStr.ofBlock [108]) (List.replicate 65 0) (by decide)).plain
        valueRefused true none := by
  constructor
  · intro honest
    rcases (setHonest_iff ..).mp honest with refused | ⟨_, short | allocated⟩
    · cases refused
    · revert short
      decide
    · cases allocated
  · intro read
    have respects : forall id codec, bare.codecs id = some codec -> codec.Respects := by
      intro id codec loaded
      cases loaded
    rcases (storedIsRead_iff respects ..).mp read with missing | ⟨refused, _⟩ | ⟨_, _, made, _⟩
    · revert missing
      decide
    · cases refused
    · revert made
      decide

end Avalanche
end BugMuseum
