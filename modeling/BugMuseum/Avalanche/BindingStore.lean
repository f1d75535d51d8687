import Mathlib.Data.List.Find
import BugMuseum.Foundation.Runs
import BugMuseum.Avalanche.Chains

namespace BugMuseum
namespace Avalanche

open Foundation

/-!
# The cache is a list of bindings

The bindings made so far, newest first, are spread over the buckets: the chain
of a bucket carries the bindings whose keys belong to it, in the same order.
Every operation keeps this picture, so the replies of the cache are those of the
list.
-/

/-- A chain of distinct live entries carries the listed bindings, in their
order.  A value stands in its entry exactly when it is short enough for the
inline buffer. -/
structure ChainOf (c : Cache) (start : Option Block) (nodes : List Block)
    (bindings : List (CStr × Bytes)) : Prop where
  path : Path c.link start nodes none
  nodup : nodes.Nodup
  live : forall e, e ∈ nodes -> c.entries.Live e
  contents : nodes.map (fun e => (c.entry e).binding) = bindings.map some
  inlined : forall e, e ∈ nodes -> ((c.entry e).value = .small ↔ (c.entry e).valueLen ≤ smallSize)

/-- The chains of the cache carry the bindings: each bucket those whose keys
belong to it.  The count is the number of chained entries, up to the width of
its field. -/
structure Represents (c : Cache) (bindings : List (CStr × Bytes)) (chain : Nat -> List Block) :
    Prop where
  nonempty : 0 < c.nbuckets
  chains : forall b, b < c.nbuckets ->
    ChainOf c (c.buckets b) (chain b) (share (bucketOf c.nbuckets) b bindings)
  fresh : forall e, c.entries.next ≤ e -> c.entries.releases e = 0
  count : c.count = (∑ b ∈ Finset.range c.nbuckets, (chain b).length) % 2 ^ 32

namespace ChainOf

variable {c c' : Cache} {start : Option Block} {nodes : List Block} {bindings : List (CStr × Bytes)}

/-- A chained entry carries one of the bindings, and so its key is never
null. -/
theorem bound (chained : ChainOf c start nodes bindings) {e : Block} (member : e ∈ nodes) :
    exists binding, (c.entry e).binding = some binding ∧ binding ∈ bindings := by
  have carried : (c.entry e).binding ∈ nodes.map fun e => (c.entry e).binding :=
    List.mem_map.mpr ⟨e, member, rfl⟩
  rw [chained.contents] at carried
  rcases List.mem_map.mp carried with ⟨binding, listed, same⟩
  exact ⟨binding, same.symm, listed⟩

theorem keyed (chained : ChainOf c start nodes bindings) {e : Block} (member : e ∈ nodes) :
    (c.entry e).key ≠ none := by
  rcases chained.bound member with ⟨binding, bound, _⟩
  rcases binding_key bound with ⟨copy, hasKey, _⟩
  rw [hasKey]
  exact Option.some_ne_none copy

/-- On a chain, holding a key is carrying a binding of it.  The left side is
what the code compares, the right one what the list says. -/
theorem holds_eq (chained : ChainOf c start nodes bindings) (key : CStr) {e : Block}
    (member : e ∈ nodes) : c.holds key e = ((c.entry e).binding).any (isKey key) := by
  rcases chained.bound member with ⟨binding, bound, _⟩
  rw [holds_of_binding bound, bound]
  rfl

theorem length_lt_fuel (chained : ChainOf c start nodes bindings) : nodes.length < c.fuel :=
  Nat.lt_succ_of_le (length_le_of_bounded chained.nodup fun e member => (chained.live e member).1)

/-- The first entry that holds a key carries the first binding of the key.
Both searches go from the newest to the oldest. -/
theorem find?_eq (chained : ChainOf c start nodes bindings) (key : CStr) :
    (nodes.find? (c.holds key)).map (fun e => (c.entry e).binding) =
      (bindings.find? (isKey key)).map some := by
  calc (nodes.find? (c.holds key)).map (fun e => (c.entry e).binding)
      = (nodes.map fun e => (c.entry e).binding).find? (fun carried => carried.any (isKey key)) := by
        rw [List.find?_map, List.find?_congr fun e member => chained.holds_eq key member]
        rfl
    _ = (bindings.map some).find? (fun carried => carried.any (isKey key)) := by
        rw [chained.contents]
    _ = (bindings.find? (isKey key)).map some := by
        rw [List.find?_map]
        rfl

/-- A change elsewhere leaves the chain alone: what counts is that its own
entries keep their contents and stay live. -/
theorem keep (chained : ChainOf c start nodes bindings)
    (entries : forall e, e ∈ nodes -> c'.entry e = c.entry e)
    (live : forall e, e ∈ nodes -> c.entries.Live e -> c'.entries.Live e) :
    ChainOf c' start nodes bindings where
  path := chained.path.congr fun e member => congrArg CacheEntry.next (entries e member)
  nodup := chained.nodup
  live := fun e member => live e member (chained.live e member)
  contents := by
    rw [← chained.contents]
    apply List.map_congr_left
    intro e member
    rw [entries e member]
  inlined := fun e member => by
    rw [entries e member]
    exact chained.inlined e member

/-- A new entry goes in front of the chain, and its binding goes in front of
the bindings. -/
theorem cons (chained : ChainOf c start nodes bindings) {e : Block} {binding : CStr × Bytes}
    (new : e ∉ nodes) (linked : c.link e = start) (live : c.entries.Live e)
    (bound : (c.entry e).binding = some binding)
    (inlined : (c.entry e).value = .small ↔ (c.entry e).valueLen ≤ smallSize) :
    ChainOf c (some e) (e :: nodes) (binding :: bindings) where
  path := path_cons.mpr ⟨rfl, linked.symm ▸ chained.path⟩
  nodup := List.nodup_cons.mpr ⟨new, chained.nodup⟩
  live := List.forall_mem_cons.mpr ⟨live, chained.live⟩
  contents := by rw [List.map_cons, List.map_cons, bound, chained.contents]
  inlined := List.forall_mem_cons.mpr ⟨inlined, chained.inlined⟩

end ChainOf

namespace Represents

variable {c c' : Cache} {bindings : List (CStr × Bytes)} {chain : Nat -> List Block}

theorem bucketOf_lt (rep : Represents c bindings chain) (key : CStr) :
    bucketOf c.nbuckets key < c.nbuckets :=
  Nat.mod_lt _ rep.nonempty

/-- The key of a chained entry belongs to the bucket, so an entry can be found
only by way of its own chain. -/
theorem home (rep : Represents c bindings chain) {b : Nat} (inside : b < c.nbuckets) {e : Block}
    (member : e ∈ chain b) :
    exists binding, (c.entry e).binding = some binding ∧ bucketOf c.nbuckets binding.1 = b := by
  rcases (rep.chains b inside).bound member with ⟨binding, bound, shared⟩
  exact ⟨binding, bound, of_decide_eq_true (List.mem_filter.mp shared).2⟩

/-- No entry is in two chains, because the bucket follows from its key. -/
theorem apart (rep : Represents c bindings chain) {b other : Nat} (inside : b < c.nbuckets)
    (insideOther : other < c.nbuckets) (different : b ≠ other) {e : Block} (member : e ∈ chain b) :
    e ∉ chain other := by
  intro second
  rcases rep.home inside member with ⟨binding, bound, home⟩
  rcases rep.home insideOther second with ⟨otherBinding, otherBound, otherHome⟩
  have same : binding = otherBinding := Option.some.inj (bound.symm.trans otherBound)
  exact different (home.symm.trans (same ▸ otherHome))

/-- The lookup loop is a search in the chain of the key.  The fuel is never
used up, and no key on the way is null. -/
theorem getRaw_eq (rep : Represents c bindings chain) (key : CStr) :
    cacheGetRaw c (some key) =
      match (chain (bucketOf c.nbuckets key)).find? (c.holds key) with
      | some e => .found e
      | none => .absent :=
  have chained := rep.chains _ (rep.bucketOf_lt key)
  findFrom_path key chained.path chained.length_lt_fuel fun _ member => chained.keyed member

theorem getRaw_found (rep : Represents c bindings chain) {key : CStr} {v : Bytes}
    (bound : newest bindings key = some v) :
    exists e, cacheGetRaw c (some key) = .found e ∧ (c.entry e).valueBytes = some v := by
  have carried := (rep.chains _ (rep.bucketOf_lt key)).find?_eq key
  rcases Option.map_eq_some_iff.mp bound with ⟨binding, first, value⟩
  rw [find?_share, first, Option.map_some] at carried
  rcases Option.map_eq_some_iff.mp carried with ⟨e, found, binds⟩
  refine ⟨e, ?_, value ▸ binding_valueBytes binds⟩
  rw [rep.getRaw_eq, found]

theorem getRaw_absent (rep : Represents c bindings chain) {key : CStr}
    (unbound : newest bindings key = none) : cacheGetRaw c (some key) = .absent := by
  have carried := (rep.chains _ (rep.bucketOf_lt key)).find?_eq key
  rw [find?_share, Option.map_eq_none_iff.mp unbound, Option.map_none, Option.map_eq_none_iff] at carried
  rw [rep.getRaw_eq, carried]

end Represents

/-- What a successful set adds to the cache: one entry with its binding,
linked in front of its bucket, while every other entry is as it was. -/
structure Inserted (c c' : Cache) (key : CStr) (val : Bytes) : Prop where
  bound : (c'.entry c.entries.next).binding = some (key, val)
  inlined : (c'.entry c.entries.next).value = .small ↔
    (c'.entry c.entries.next).valueLen ≤ smallSize
  linked : c'.link c.entries.next = c.buckets (bucketOf c.nbuckets key)
  others : forall e, e ≠ c.entries.next -> c'.entry e = c.entry e
  buckets : c'.buckets = Function.update c.buckets (bucketOf c.nbuckets key) (some c.entries.next)
  nbuckets : c'.nbuckets = c.nbuckets
  count : c'.count = (c.count + 1) % 2 ^ 32
  next : c'.entries.next = c.entries.next + 1
  releases : c'.entries.releases = c.entries.releases

theorem take_overwrite_zero {old bytes : Bytes} (fits : bytes.length ≤ old.length) :
    (overwrite old 0 bytes).take bytes.length = bytes := by
  rw [overwrite, List.take_take, Nat.min_eq_left fits, List.take_zero, List.nil_append, List.take_left]

/-- The entry that `CacheInsertEmpty` links.  It has its key and no value
yet. -/
def emptyEntry (c : Cache) (key : CStr) : CacheEntry where
  key := dupKey key true
  value := .null
  valueLen := 0
  small := List.replicate smallSize 0
  next := c.buckets (bucketOf c.nbuckets key)

/-- Filling the value of the new entry completes the insertion.  Both ways to
store a value come down to such a change. -/
theorem inserted_of_change {c : Cache} {key : CStr} {val : Bytes} (change : CacheEntry -> CacheEntry)
    (bound : (change (emptyEntry c key)).binding = some (key, val))
    (inlined : (change (emptyEntry c key)).value = .small ↔
      (change (emptyEntry c key)).valueLen ≤ smallSize)
    (linked : (change (emptyEntry c key)).next = c.buckets (bucketOf c.nbuckets key)) :
    Inserted c { (cacheInsertEmpty c (some key) granted).1 with
      entries := (c.entries.alloc (emptyEntry c key)).modify c.entries.next change } key val := by
  have stored : ((c.entries.alloc (emptyEntry c key)).modify c.entries.next change).cell
      c.entries.next = change (emptyEntry c key) := by
    rw [Heap.modify_cell_self, Heap.alloc_cell_next]
  refine ⟨?_, ?_, ?_, fun e old => ?_, rfl, rfl, rfl, ?_, ?_⟩
  · rw [Cache.entry, stored, bound]
  · rw [Cache.entry, stored, inlined]
  · rw [Cache.link, Cache.entry, stored, linked]
  · rw [Cache.entry, Heap.modify_cell_of_ne _ _ old, Heap.alloc_cell_of_ne _ _ old]
    rfl
  · rw [Heap.modify_next, Heap.alloc_next]
  · rw [Heap.modify_releases, Heap.alloc_releases]

theorem cacheSet_granted (c : Cache) (key : CStr) (val : Payload) :
    (cacheSet c (some key) val granted).2 = cacheOk ∧
      Inserted c (cacheSet c (some key) val granted).1 key val.bytes := by
  by_cases short : val.bytes.length ≤ smallSize
  · have result : cacheSet c (some key) val granted =
        ({ (cacheInsertEmpty c (some key) granted).1 with
            entries := (c.entries.alloc (emptyEntry c key)).modify c.entries.next fun old =>
              { old with small := overwrite old.small 0 val.bytes, value := .small,
                         valueLen := val.bytes.length } }, cacheOk) := if_pos short
    rw [result]
    refine ⟨rfl, inserted_of_change _ ?_ (iff_of_true rfl short) rfl⟩
    have fits : val.bytes.length ≤ (List.replicate smallSize (0 : UInt8)).length := by
      rwa [List.length_replicate]
    simp only [CacheEntry.binding, CacheEntry.valueBytes, emptyEntry, take_overwrite_zero fits]
    rfl
  · have result : cacheSet c (some key) val granted =
        ({ (cacheInsertEmpty c (some key) granted).1 with
            entries := (c.entries.alloc (emptyEntry c key)).modify c.entries.next fun old =>
              { old with value := .heap val.bytes, valueLen := val.bytes.length } }, cacheOk) :=
      if_neg short
    rw [result]
    refine ⟨rfl, inserted_of_change _ ?_ (iff_of_false (fun same => by cases same) short) rfl⟩
    simp only [CacheEntry.binding, CacheEntry.valueBytes, emptyEntry, List.take_length]
    rfl

/-- The chain of an unlinked entry loses the first binding of its key, and the
other bindings stay in their order. -/
theorem ChainOf.unlink {c : Cache} {b : Nat} {before after : List Block} {dead : Block}
    {bindings : List (CStr × Bytes)} {key : CStr}
    (chained : ChainOf c (c.buckets b) (before ++ dead :: after) bindings)
    (earlier : forall e, e ∈ before -> c.holds key e = false) (found : c.holds key dead = true) :
    ChainOf (unlink c (linkAfter (.bucket b) before) dead)
      ((unlink c (linkAfter (.bucket b) before) dead).buckets b) (before ++ after)
      (bindings.eraseP (isKey key)) := by
  have shorter : (before ++ after).Sublist (before ++ dead :: after) :=
    (List.sublist_cons_self dead after).append_left before
  have inBefore : forall e, e ∈ before -> e ∈ before ++ dead :: after :=
    fun e member => List.mem_append_left _ member
  have passed : forall carried, carried ∈ before.map (fun e => (c.entry e).binding) ->
      ¬ carried.any (isKey key) = true := by
    intro carried member
    rcases List.mem_map.mp member with ⟨e, listed, rfl⟩
    rw [← chained.holds_eq key (inBefore e listed), earlier e listed]
    exact Bool.false_ne_true
  have reached : ((c.entry dead).binding).any (isKey key) = true := by
    rw [← chained.holds_eq key (List.mem_append_right _ List.mem_cons_self), found]
  refine ⟨unlink_path chained.path chained.nodup, chained.nodup.sublist shorter, fun e member => ?_, ?_,
    fun e member => ?_⟩
  · apply unlink_live _ (chained.live e (shorter.subset member))
    intro same
    exact (List.nodup_cons.mp (List.nodup_middle.mp chained.nodup)).1 (same ▸ member)
  · calc (before ++ after).map (fun e => ((Avalanche.unlink c _ dead).entry e).binding)
        = (before ++ after).map (fun e => (c.entry e).binding) := by
          apply List.map_congr_left
          intro e _
          rw [unlink_entry]
          rfl
      _ = ((before ++ dead :: after).map fun e => (c.entry e).binding).eraseP
            (fun carried => carried.any (isKey key)) := by
          rw [List.map_append, List.map_append, List.map_cons, List.eraseP_append_right _ passed,
            List.eraseP_cons_of_pos reached]
      _ = (bindings.map some).eraseP (fun carried => carried.any (isKey key)) := by
          rw [chained.contents]
      _ = (bindings.eraseP (isKey key)).map some := by
          rw [List.eraseP_map]
          rfl
  · rw [unlink_entry]
    exact chained.inlined e (shorter.subset member)

namespace Represents

variable {c c' : Cache} {bindings : List (CStr × Bytes)} {chain : Nat -> List Block}

/-- An insertion puts the new entry in front of its chain, and its binding in
front of all. -/
theorem insert (rep : Represents c bindings chain) {key : CStr} {val : Bytes}
    (inserted : Inserted c c' key val) :
    Represents c' ((key, val) :: bindings)
      (Function.update chain (bucketOf c.nbuckets key)
        (c.entries.next :: chain (bucketOf c.nbuckets key))) := by
  have inHome := rep.bucketOf_lt key
  have old : forall b, b < c.nbuckets -> forall e, e ∈ chain b -> e ≠ c.entries.next :=
    fun b inside e member => Nat.ne_of_lt ((rep.chains b inside).live e member).1
  have kept : forall b, b < c.nbuckets ->
      ChainOf c' (c.buckets b) (chain b) (share (bucketOf c.nbuckets) b bindings) := by
    intro b inside
    apply (rep.chains b inside).keep (fun e member => inserted.others e (old b inside e member))
    exact fun e _ live => live.grow inserted.next inserted.releases
  have newLive : c'.entries.Live c.entries.next :=
    Heap.live_grown inserted.next inserted.releases (rep.fresh _ (Nat.le_refl _))
  refine ⟨inserted.nbuckets ▸ rep.nonempty, fun b inside => ?_, fun e unused => ?_, ?_⟩
  · rw [inserted.nbuckets] at inside ⊢
    rw [inserted.buckets, share_cons]
    by_cases same : b = bucketOf c.nbuckets key
    · rw [same, Function.update_self, Function.update_self, if_pos rfl]
      exact (kept _ inHome).cons (fun member => old _ inHome _ member rfl) inserted.linked newLive
        inserted.bound inserted.inlined
    · rw [Function.update_of_ne same, Function.update_of_ne same, if_neg (Ne.symm same)]
      exact kept b inside
  · rw [inserted.next] at unused
    rw [inserted.releases]
    exact rep.fresh e (Nat.le_of_succ_le unused)
  · have grown := sum_length_update chain inHome
      (c.entries.next :: chain (bucketOf c.nbuckets key))
    have before := rep.count
    rw [List.length_cons] at grown
    rw [inserted.nbuckets, inserted.count]
    omega

/-- Unlinking an entry of one chain leaves the other chains alone.  It takes
one binding off the list, the newest of the key. -/
theorem unlink (rep : Represents c bindings chain) {key : CStr} {before after : List Block} {dead : Block}
    (split : chain (bucketOf c.nbuckets key) = before ++ dead :: after)
    (earlier : forall e, e ∈ before -> c.holds key e = false) (found : c.holds key dead = true) :
    Represents (unlink c (linkAfter (.bucket (bucketOf c.nbuckets key)) before) dead)
      (unbind bindings key) (Function.update chain (bucketOf c.nbuckets key) (before ++ after)) := by
  have inHome := rep.bucketOf_lt key
  have chained := rep.chains _ inHome
  rw [split] at chained
  have deadLive := chained.live dead (List.mem_append_right _ List.mem_cons_self)
  refine ⟨(unlink_nbuckets ..).symm ▸ rep.nonempty, fun b inside => ?_, fun e unused => ?_, ?_⟩
  · rw [unlink_nbuckets] at inside ⊢
    by_cases same : b = bucketOf c.nbuckets key
    · rw [same, Function.update_self, share_unbind_self]
      exact chained.unlink earlier found
    · rw [Function.update_of_ne same, share_unbind_of_ne _ (Ne.symm same)]
      rw [unlink_buckets_of_ne _ _ _ fun other reached => linkAfter_eq_bucket reached ▸ same]
      have elsewhere : forall e, e ∈ chain b -> e ∉ before ++ dead :: after := by
        intro e member
        rw [← split]
        exact rep.apart inside inHome same member
      refine (rep.chains b inside).keep (fun e member => ?_) fun e member live => ?_
      · apply unlink_entry_of_ne
        rintro other reached rfl
        exact elsewhere e member (List.mem_append_left _ (linkAfter_eq_next reached))
      · apply unlink_live _ live
        rintro rfl
        exact elsewhere e member (List.mem_append_right _ List.mem_cons_self)
  · rw [unlink_next] at unused
    rw [unlink_releases, Heap.release_releases_of_ne]
    · exact rep.fresh e unused
    · exact Nat.ne_of_gt (Nat.lt_of_lt_of_le deadLive.1 unused)
  · have shrunk := sum_length_update chain inHome (before ++ after)
    have count := rep.count
    rw [split] at shrunk
    simp only [List.length_append, List.length_cons] at shrunk
    rw [unlink_nbuckets]
    show (c.count + (2 ^ 32 - 1)) % 2 ^ 32 = _
    omega

/-- Deleting the newest binding of a key succeeds, if there is one.  An older
binding of the same key comes to light again. -/
theorem del_found (rep : Represents c bindings chain) {key : CStr} {fresh : Nat -> UInt8}
    (same : normalized key fresh = key) (bound : newest bindings key ≠ none) :
    exists chain', (cacheDel c (some key) fresh true).2 = some cacheOk ∧
      Represents (cacheDel c (some key) fresh true).1 (unbind bindings key) chain' := by
  have chained := rep.chains _ (rep.bucketOf_lt key)
  have carried := chained.find?_eq key
  rcases Option.ne_none_iff_exists'.mp bound with ⟨v, value⟩
  rcases Option.map_eq_some_iff.mp value with ⟨binding, first, _⟩
  rw [find?_share, first, Option.map_some] at carried
  rcases Option.map_eq_some_iff.mp carried with ⟨dead, found, _⟩
  rcases List.find?_eq_some_iff_append.mp found with ⟨holds, before, after, split, earlier⟩
  have passed : forall e, e ∈ before -> c.holds key e = false := by
    intro e member
    simpa using earlier e member
  have shorter : before.length < c.fuel := by
    have bounded := chained.length_lt_fuel
    rw [split, List.length_append] at bounded
    omega
  have path := chained.path
  rw [split] at path
  have deleted := delFrom_found (.bucket (bucketOf c.nbuckets key)) path shorter
    (fun e member => chained.keyed (split ▸ List.mem_append_left _ member)) passed holds
  have result : cacheDel c (some key) fresh true =
      (Avalanche.unlink c (linkAfter (.bucket (bucketOf c.nbuckets key)) before) dead, some cacheOk) := by
    simp only [cacheDel, same, Bool.not_true, Bool.false_eq_true, if_false]
    exact deleted
  rw [result]
  exact ⟨_, rfl, rep.unlink split passed holds⟩

/-- Without a binding of the key nothing is deleted, and the cache is the same
as before. -/
theorem del_absent (rep : Represents c bindings chain) {key : CStr} {fresh : Nat -> UInt8}
    (same : normalized key fresh = key) (unbound : newest bindings key = none) :
    cacheDel c (some key) fresh true = (c, some cacheEnotfound) := by
  have chained := rep.chains _ (rep.bucketOf_lt key)
  have carried := chained.find?_eq key
  rw [find?_share, Option.map_eq_none_iff.mp unbound, Option.map_none, Option.map_eq_none_iff] at carried
  have passed : forall e, e ∈ chain (bucketOf c.nbuckets key) -> c.holds key e = false := by
    intro e member
    simpa using List.find?_eq_none.mp carried e member
  simp only [cacheDel, same, Bool.not_true, Bool.false_eq_true, if_false]
  exact delFrom_absent (.bucket (bucketOf c.nbuckets key)) chained.path chained.length_lt_fuel
    (fun _ member => chained.keyed member) passed

end Represents

end Avalanche
end BugMuseum
