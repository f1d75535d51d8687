import Mathlib.Data.List.Flatten
import Mathlib.Data.List.Nodup
import BugMuseum.Foundation.Runs
import BugMuseum.Avalanche.Chains

namespace BugMuseum
namespace Avalanche

open Foundation

/-!
# The entries of all buckets

The list of bindings describes a cache whose allocations succeed.  When they
fail, an entry can be linked without its key or without its value.  The picture
here only says how the entries are linked: the rows of the buckets are walks that
end, no entry is met twice, and an entry that has a key lies in the bucket of
that key.
-/

/-- The entries met from a pointer on, with fuel for their number. -/
def walk (c : Cache) : Nat -> Option Block -> List Block
  | 0, _ => []
  | _, none => []
  | fuel + 1, some e => e :: walk c fuel (c.entry e).next

def Cache.row (c : Cache) (b : Nat) : List Block :=
  walk c c.fuel (c.buckets b)

/-- All entries in the order in which `handle_stats` meets them: bucket after
bucket, and the newest entry of each first. -/
def Cache.listed (c : Cache) : List Block :=
  (List.range c.nbuckets).flatMap c.row

def Cache.keyOf (c : Cache) (e : Block) : Option CStr :=
  (c.entry e).key.map KeyCopy.text

/-- The keys of all entries, as often as they are stored.  An entry without a
key counts for none. -/
def Cache.keys (c : Cache) : List CStr :=
  c.listed.filterMap c.keyOf

theorem walk_path {c : Cache} {start : Option Block} {nodes : List Block} {fuel : Nat}
    (path : Path c.link start nodes none) (enough : nodes.length < fuel) :
    walk c fuel start = nodes := by
  induction nodes generalizing start fuel with
  | nil =>
      rw [path_nil] at path
      rw [path]
      cases fuel <;> rfl
  | cons e rest inductionHypothesis =>
      cases fuel with
      | zero => exact absurd enough (Nat.not_lt_zero _)
      | succ fuel =>
          rw [path.1, walk]
          exact congrArg (e :: ·) (inductionHypothesis path.2 (Nat.lt_of_succ_lt_succ enough))

/-- The rows of the buckets.  Nothing is said of the values, and an entry need
not have a key, so failed sets keep the picture. -/
structure Rows (c : Cache) (rows : Nat -> List Block) : Prop where
  nonempty : 0 < c.nbuckets
  path : forall b, b < c.nbuckets -> Path c.link (c.buckets b) (rows b) none
  nodup : ((List.range c.nbuckets).flatMap rows).Nodup
  live : forall b, b < c.nbuckets -> forall e, e ∈ rows b -> c.entries.Live e
  place : forall b, b < c.nbuckets -> forall e, e ∈ rows b -> forall key, c.keyOf e = some key ->
    bucketOf c.nbuckets key = b
  fresh : forall e, c.entries.next ≤ e -> c.entries.releases e = 0
  count : c.count = ((List.range c.nbuckets).flatMap rows).length % 2 ^ 32

namespace Rows

variable {c c' : Cache} {rows : Nat -> List Block}

theorem nodup_row (linked : Rows c rows) {b : Nat} (inside : b < c.nbuckets) : (rows b).Nodup :=
  (List.nodup_flatMap.mp linked.nodup).1 b (List.mem_range.mpr inside)

theorem length_lt_fuel (linked : Rows c rows) {b : Nat} (inside : b < c.nbuckets) :
    (rows b).length < c.fuel := by
  apply Nat.lt_succ_of_le
  apply length_le_of_bounded (linked.nodup_row inside)
  intro e member
  exact (linked.live b inside e member).1

/-- The rows are what the walks meet, so they are unique, and a picture of the
chains can be compared with what the handlers list. -/
theorem row_eq (linked : Rows c rows) {b : Nat} (inside : b < c.nbuckets) : c.row b = rows b :=
  walk_path (linked.path b inside) (linked.length_lt_fuel inside)

theorem listed_eq (linked : Rows c rows) : c.listed = (List.range c.nbuckets).flatMap rows := by
  apply List.flatMap_congr
  intro b member
  exact linked.row_eq (List.mem_range.mp member)

/-- No entry is in two rows, as the rows together list each entry once. -/
theorem apart (linked : Rows c rows) {b other : Nat} (inside : b < c.nbuckets)
    (insideOther : other < c.nbuckets) (different : b ≠ other) {e : Block} (member : e ∈ rows b) :
    e ∉ rows other := by
  have symmetric : Std.Symm (Function.onFun List.Disjoint rows) := ⟨fun _ _ disjoint => disjoint.symm⟩
  have disjoint := (List.nodup_flatMap.mp linked.nodup).2.forall (List.mem_range.mpr inside)
    (List.mem_range.mpr insideOther) different
  exact fun second => disjoint member second

theorem bucketOf_lt (linked : Rows c rows) (key : CStr) : bucketOf c.nbuckets key < c.nbuckets :=
  Nat.mod_lt _ linked.nonempty

/-- An entry with a key lies in the row of the key, and only there. -/
theorem mem_home (linked : Rows c rows) {e : Block} {key : CStr}
    (listed : e ∈ (List.range c.nbuckets).flatMap rows) (keyed : c.keyOf e = some key) :
    e ∈ rows (bucketOf c.nbuckets key) := by
  rcases List.mem_flatMap.mp listed with ⟨b, inside, member⟩
  rw [linked.place b (List.mem_range.mp inside) e member key keyed]
  exact member

end Rows

/-- A lookup of the key ends at the entry: it has the key, or it has none, and
then the loop reads through null. -/
def Cache.stops (c : Cache) (key : CStr) (e : Block) : Bool :=
  match c.keyOf e with
  | none => true
  | some text => decide (text = key)

/-- What a lookup that ends at the entry yields. -/
def Cache.outcome (c : Cache) (e : Block) : Search :=
  match c.keyOf e with
  | none => .nullKey
  | some _ => .found e

theorem keyOf_eq_none {c : Cache} {e : Block} (unkeyed : (c.entry e).key = none) : c.keyOf e = none := by
  rw [Cache.keyOf, unkeyed]
  rfl

theorem keyOf_eq_some {c : Cache} {e : Block} {copy : KeyCopy} (keyed : (c.entry e).key = some copy) :
    c.keyOf e = some copy.text := by
  rw [Cache.keyOf, keyed]
  rfl

/-- The loop of both lookups ends at the first entry of the walk that stops
it.  With that the lookup is a search in a list. -/
theorem findFrom_stops {c : Cache} (key : CStr) {start : Option Block} {nodes : List Block} {fuel : Nat}
    (path : Path c.link start nodes none) (enough : nodes.length < fuel) :
    findFrom c key fuel start =
      match nodes.find? (c.stops key) with
      | some e => c.outcome e
      | none => .absent := by
  induction nodes generalizing start fuel with
  | nil =>
      rw [path_nil] at path
      rw [path]
      cases fuel <;> rfl
  | cons e rest inductionHypothesis =>
      cases fuel with
      | zero => exact absurd enough (Nat.not_lt_zero _)
      | succ fuel =>
          have later := inductionHypothesis path.2 (Nat.lt_of_succ_lt_succ enough)
          rw [Cache.link] at later
          rw [path.1, findFrom, List.find?_cons]
          cases keyed : (c.entry e).key with
          | none => simp [Cache.stops, Cache.outcome, keyOf_eq_none keyed]
          | some copy =>
              by_cases same : copy.text = key
              · simp [Cache.stops, Cache.outcome, keyOf_eq_some keyed, same]
              · simpa [Cache.stops, keyOf_eq_some keyed, same] using later

theorem deref_linkAfter {c : Cache} (pp : Link) {before : List Block} {start : Option Block}
    (path : Path c.link (c.deref pp) before start) : c.deref (linkAfter pp before) = start := by
  induction before generalizing pp with
  | nil => exact path
  | cons e rest inductionHypothesis => exact inductionHypothesis (.next e) path.2

/-- The loop of `CacheDel` passes the entries that do not stop it.  The
induction is on these entries. -/
theorem delFrom_passed {c : Cache} {norm : CStr} (pp : Link) {before : List Block} {start : Option Block}
    (path : Path c.link (c.deref pp) before start)
    (passed : forall e, e ∈ before -> c.stops norm e = false) (fuel : Nat) :
    delFrom c norm (before.length + fuel) pp = delFrom c norm fuel (linkAfter pp before) := by
  induction before generalizing pp with
  | nil => rw [List.length_nil, Nat.zero_add, linkAfter]
  | cons e rest inductionHypothesis =>
      have later := inductionHypothesis (.next e) path.2 fun other member =>
        passed other (List.mem_cons_of_mem e member)
      have skipped := passed e List.mem_cons_self
      have keyed : (c.entry e).key ≠ none := by
        intro unkeyed
        rw [Cache.stops, keyOf_eq_none unkeyed] at skipped
        cases skipped
      have other : c.holds norm e = false := by
        rcases Option.ne_none_iff_exists'.mp keyed with ⟨copy, hasKey⟩
        rw [Cache.stops, keyOf_eq_some hasKey] at skipped
        rwa [Cache.holds, hasKey]
      rw [List.length_cons, Nat.succ_add, delFrom_other path.1 keyed other, later, linkAfter]

/-- It ends at an entry that stops it, and unlinks the entry if that has the
key. -/
theorem delFrom_stop {c : Cache} {norm : CStr} {pp : Link} {dead : Block} (head : c.deref pp = some dead)
    (stops : c.stops norm dead = true) (fuel : Nat) :
    delFrom c norm (fuel + 1) pp =
      if (c.keyOf dead).isSome then (unlink c pp dead, some cacheOk) else (c, none) := by
  rw [delFrom, head]
  cases keyed : (c.entry dead).key with
  | none => simp [keyOf_eq_none keyed, keyed]
  | some copy =>
      rw [Cache.stops, keyOf_eq_some keyed] at stops
      simp only [keyed, keyOf_eq_some keyed, of_decide_eq_true stops]
      rfl

/-! ## Insertion and deletion -/

/-- What a set does to the links whenever it gets its entry, whether or not it
gets the key copy and the value. -/
structure Added (c c' : Cache) (key : CStr) (copied : Bool) : Prop where
  keyed : c'.keyOf c.entries.next = if copied then some key else none
  linked : c'.link c.entries.next = c.buckets (bucketOf c.nbuckets key)
  others : forall e, e ≠ c.entries.next -> c'.entry e = c.entry e
  buckets : c'.buckets = Function.update c.buckets (bucketOf c.nbuckets key) (some c.entries.next)
  nbuckets : c'.nbuckets = c.nbuckets
  count : c'.count = (c.count + 1) % 2 ^ 32
  next : c'.entries.next = c.entries.next + 1
  releases : c'.entries.releases = c.entries.releases

theorem cacheInsertEmpty_added (c : Cache) (key : CStr) {grant : SetGrant} (entry : grant.entry = true) :
    (cacheInsertEmpty c (some key) grant).2 = some c.entries.next ∧
      Added c (cacheInsertEmpty c (some key) grant).1 key grant.key := by
  have result : cacheInsertEmpty c (some key) grant =
      ({ c with
          entries := c.entries.alloc { (default : CacheEntry) with
            key := dupKey key grant.key, next := c.buckets (bucketOf c.nbuckets key) }
          buckets := Function.update c.buckets (bucketOf c.nbuckets key) (some c.entries.next)
          count := (c.count + 1) % 2 ^ 32 }, some c.entries.next) := by
    rw [cacheInsertEmpty, entry]
    rfl
  rw [result]
  refine ⟨rfl, ?_, ?_, fun e old => Heap.alloc_cell_of_ne _ _ old, rfl, rfl, rfl, rfl, rfl⟩
  · rw [Cache.keyOf, Cache.entry, Heap.alloc_cell_next, dupKey]
    cases grant.key <;> rfl
  · rw [Cache.link, Cache.entry, Heap.alloc_cell_next]

/-- Filling in the value of the new entry leaves the links alone, so nothing
that was said of them is lost. -/
theorem Added.fill {c c' : Cache} {key : CStr} {copied : Bool} (added : Added c c' key copied)
    (change : CacheEntry -> CacheEntry) (key_kept : forall e, (change e).key = e.key)
    (next_kept : forall e, (change e).next = e.next) :
    Added c { c' with entries := c'.entries.modify c.entries.next change } key copied := by
  have stored : (c'.entries.modify c.entries.next change).cell c.entries.next =
      change (c'.entry c.entries.next) := Heap.modify_cell_self ..
  refine ⟨?_, ?_, fun e old => ?_, added.buckets, added.nbuckets, added.count, ?_, ?_⟩
  · rw [Cache.keyOf, Cache.entry, stored, key_kept]
    exact added.keyed
  · rw [Cache.link, Cache.entry, stored, next_kept]
    exact added.linked
  · rw [Cache.entry, Heap.modify_cell_of_ne _ _ old]
    exact added.others e old
  · rw [Heap.modify_next, added.next]
  · rw [Heap.modify_releases, added.releases]

theorem cacheSet_added (c : Cache) (key : CStr) (val : Payload) {grant : SetGrant}
    (entry : grant.entry = true) : Added c (cacheSet c (some key) val grant).1 key grant.key := by
  have inserted := cacheInsertEmpty_added c key entry
  rw [cacheSet]
  simp only [inserted.1]
  split
  · exact inserted.2.fill _ (fun _ => rfl) fun _ => rfl
  · split
    · exact inserted.2
    · exact inserted.2.fill _ (fun _ => rfl) fun _ => rfl

/-- Without its entry a set changes nothing, and says so. -/
theorem cacheSet_refused (c : Cache) (key : CStr) (val : Payload) {grant : SetGrant}
    (entry : grant.entry = false) : cacheSet c (some key) val grant = (c, cacheEnomem) := by
  rw [cacheSet, cacheInsertEmpty, entry]
  rfl

namespace Rows

variable {c c' : Cache} {rows : Nat -> List Block}

theorem getRaw_eq (linked : Rows c rows) (key : CStr) :
    cacheGetRaw c (some key) =
      match (rows (bucketOf c.nbuckets key)).find? (c.stops key) with
      | some e => c.outcome e
      | none => .absent :=
  findFrom_stops key (linked.path _ (linked.bucketOf_lt key)) (linked.length_lt_fuel (linked.bucketOf_lt key))

/-- The new entry is one more entry of the cache.  The order does not matter
for what is counted. -/
theorem added_perm (linked : Rows c rows) (key : CStr) (e : Block) :
    ((List.range c.nbuckets).flatMap (Function.update rows (bucketOf c.nbuckets key)
      (e :: rows (bucketOf c.nbuckets key)))).Perm (e :: (List.range c.nbuckets).flatMap rows) := by
  have updated := flatMap_update rows (linked.bucketOf_lt key) (e :: rows (bucketOf c.nbuckets key))
  have moved : ((List.range c.nbuckets).flatMap rows ++ e :: rows (bucketOf c.nbuckets key)).Perm
      (e :: ((List.range c.nbuckets).flatMap rows ++ rows (bucketOf c.nbuckets key))) := List.perm_middle
  have shifted := updated.trans moved
  rw [← List.cons_append] at shifted
  exact (List.perm_append_right_iff _).mp shifted

/-- It is in front of the row of its key, and every other row is as it was. -/
theorem add (linked : Rows c rows) {key : CStr} {copied : Bool} (added : Added c c' key copied) :
    Rows c' (Function.update rows (bucketOf c.nbuckets key)
      (c.entries.next :: rows (bucketOf c.nbuckets key))) := by
  have inHome := linked.bucketOf_lt key
  have old : forall b, b < c.nbuckets -> forall e, e ∈ rows b -> e ≠ c.entries.next :=
    fun b inside e member => Nat.ne_of_lt (linked.live b inside e member).1
  have kept : forall b, b < c.nbuckets -> Path c'.link (c.buckets b) (rows b) none := by
    intro b inside
    apply (linked.path b inside).congr
    intro e member
    exact congrArg CacheEntry.next (added.others e (old b inside e member))
  have permuted := linked.added_perm key c.entries.next
  refine ⟨added.nbuckets ▸ linked.nonempty, fun b inside => ?_, ?_, fun b inside e member => ?_,
    fun b inside e member text keyed => ?_, fun e unused => ?_, ?_⟩
  · rw [added.nbuckets] at inside
    rw [added.buckets]
    by_cases same : b = bucketOf c.nbuckets key
    · rw [same, Function.update_self, Function.update_self]
      exact path_cons.mpr ⟨rfl, added.linked ▸ kept _ inHome⟩
    · rw [Function.update_of_ne same, Function.update_of_ne same]
      exact kept b inside
  · rw [added.nbuckets]
    apply permuted.nodup_iff.mpr
    refine List.nodup_cons.mpr ⟨?_, linked.nodup⟩
    intro member
    rcases List.mem_flatMap.mp member with ⟨b, inside, member⟩
    exact old b (List.mem_range.mp inside) _ member rfl
  · rw [added.nbuckets] at inside
    have live : forall e, e ∈ rows b -> c'.entries.Live e :=
      fun e member => (linked.live b inside e member).grow added.next added.releases
    by_cases same : b = bucketOf c.nbuckets key
    · rw [same, Function.update_self] at member
      rcases List.mem_cons.mp member with rfl | member
      · exact Heap.live_grown added.next added.releases (linked.fresh _ (Nat.le_refl _))
      · exact live e (same ▸ member)
    · rw [Function.update_of_ne same] at member
      exact live e member
  · rw [added.nbuckets] at inside ⊢
    have place : e ∈ rows b -> bucketOf c.nbuckets text = b := by
      intro member
      apply linked.place b inside e member
      rw [Cache.keyOf, ← added.others e (old b inside e member)]
      exact keyed
    by_cases same : b = bucketOf c.nbuckets key
    · rw [same, Function.update_self] at member
      rcases List.mem_cons.mp member with rfl | member
      · rw [added.keyed] at keyed
        cases copied with
        | true =>
            cases keyed
            exact same.symm
        | false => cases keyed
      · exact place (same ▸ member)
    · rw [Function.update_of_ne same] at member
      exact place member
  · rw [added.next] at unused
    rw [added.releases]
    exact linked.fresh e (Nat.le_of_succ_le unused)
  · have before := linked.count
    rw [added.nbuckets, permuted.length_eq, added.count, List.length_cons]
    omega

/-- The key of an entry is not changed by unlinking, not even that of the
entry itself. -/
theorem unlink_keyOf (c : Cache) (pp : Link) (dead e : Block) :
    (Avalanche.unlink c pp dead).keyOf e = c.keyOf e := by
  rw [Cache.keyOf, unlink_entry]
  rfl

/-- The unlinked entry is one entry of the cache less, wherever it stood in
its row. -/
theorem removed_perm {b : Nat} (inside : b < c.nbuckets) {before after : List Block}
    {dead : Block} (split : rows b = before ++ dead :: after) :
    ((List.range c.nbuckets).flatMap rows).Perm
      (dead :: (List.range c.nbuckets).flatMap (Function.update rows b (before ++ after))) := by
  have updated := flatMap_update rows inside (before ++ after)
  rw [split] at updated
  have front : (before ++ dead :: after).Perm (dead :: (before ++ after)) := List.perm_middle
  have moved := (List.Perm.append_left ((List.range c.nbuckets).flatMap
    (Function.update rows b (before ++ after))) front).symm.trans updated
  have shifted := List.perm_middle.symm.trans moved
  rw [← List.cons_append] at shifted
  exact ((List.perm_append_right_iff _).mp shifted).symm

theorem unlink (linked : Rows c rows) {b : Nat} (inHome : b < c.nbuckets) {before after : List Block}
    {dead : Block} (split : rows b = before ++ dead :: after) :
    Rows (Avalanche.unlink c (linkAfter (.bucket b) before) dead)
      (Function.update rows b (before ++ after)) := by
  have path := linked.path b inHome
  have nodup := linked.nodup_row inHome
  rw [split] at path nodup
  have deadLive := linked.live b inHome dead (split ▸ List.mem_append_right _ List.mem_cons_self)
  have permuted := removed_perm inHome split
  have shorter : (before ++ after).Sublist (rows b) := by
    rw [split]
    exact (List.sublist_cons_self dead after).append_left before
  have sub : forall other e, e ∈ Function.update rows b (before ++ after) other -> e ∈ rows other := by
    intro other e member
    by_cases same : other = b
    · rw [same, Function.update_self] at member
      exact same ▸ shorter.subset member
    · rwa [Function.update_of_ne same] at member
  have distinct := permuted.nodup_iff.mp linked.nodup
  refine ⟨(unlink_nbuckets ..).symm ▸ linked.nonempty, fun other inside => ?_, ?_,
    fun other inside e member => ?_, fun other inside e member text keyed => ?_, fun e unused => ?_, ?_⟩
  · rw [unlink_nbuckets] at inside
    by_cases same : other = b
    · rw [same, Function.update_self]
      exact unlink_path path nodup
    · rw [Function.update_of_ne same]
      rw [unlink_buckets_of_ne _ _ _ fun target reached => linkAfter_eq_bucket reached ▸ same]
      apply (linked.path other inside).congr
      intro e member
      have kept := unlink_entry_of_ne c (linkAfter (.bucket b) before) dead (e := e) ?_
      · exact congrArg CacheEntry.next kept
      · rintro target reached rfl
        have inRow : e ∈ rows b := split ▸ List.mem_append_left _ (linkAfter_eq_next reached)
        exact linked.apart inside inHome same member inRow
  · rw [unlink_nbuckets]
    exact (List.nodup_cons.mp distinct).2
  · rw [unlink_nbuckets] at inside
    apply unlink_live _ (linked.live other inside e (sub other e member))
    rintro rfl
    apply (List.nodup_cons.mp distinct).1
    exact List.mem_flatMap.mpr ⟨other, List.mem_range.mpr inside, member⟩
  · rw [unlink_nbuckets] at inside ⊢
    rw [unlink_keyOf] at keyed
    exact linked.place other inside e (sub other e member) text keyed
  · rw [unlink_next] at unused
    rw [unlink_releases, Heap.release_releases_of_ne]
    · exact linked.fresh e unused
    · exact Nat.ne_of_gt (Nat.lt_of_lt_of_le deadLive.1 unused)
  · have count := linked.count
    have length := permuted.length_eq
    rw [List.length_cons] at length
    rw [unlink_nbuckets]
    show (c.count + (2 ^ 32 - 1)) % 2 ^ 32 = _
    omega

/-- Nothing is deleted when no entry stops the loop. -/
theorem del_absent (linked : Rows c rows) {key norm : CStr} {fresh : Nat -> UInt8}
    (normal : normalized key fresh = norm)
    (absent : (rows (bucketOf c.nbuckets norm)).find? (c.stops norm) = none) :
    cacheDel c (some key) fresh true = (c, some cacheEnotfound) := by
  have inHome := linked.bucketOf_lt norm
  have path : Path c.link (c.deref (.bucket (bucketOf c.nbuckets norm)))
      (rows (bucketOf c.nbuckets norm)) none := linked.path _ inHome
  rcases Nat.exists_eq_add_of_lt (linked.length_lt_fuel inHome) with ⟨spare, fuel⟩
  have passed : forall e, e ∈ rows (bucketOf c.nbuckets norm) -> c.stops norm e = false := by
    intro e member
    simpa using List.find?_eq_none.mp absent e member
  have deleted := delFrom_passed _ path passed (spare + 1)
  rw [delFrom, deref_linkAfter _ path] at deleted
  simp only [cacheDel, normal, Bool.not_true, Bool.false_eq_true, if_false]
  rw [fuel]
  exact deleted

/-- Otherwise the first one that does is unlinked, or read without a key. -/
theorem del_stop (linked : Rows c rows) {key norm : CStr} {fresh : Nat -> UInt8}
    (normal : normalized key fresh = norm) {dead : Block}
    (found : (rows (bucketOf c.nbuckets norm)).find? (c.stops norm) = some dead) :
    exists before after, rows (bucketOf c.nbuckets norm) = before ++ dead :: after ∧
      cacheDel c (some key) fresh true =
        if (c.keyOf dead).isSome then
          (Avalanche.unlink c (linkAfter (.bucket (bucketOf c.nbuckets norm)) before) dead, some cacheOk)
        else (c, none) := by
  have inHome := linked.bucketOf_lt norm
  rcases List.find?_eq_some_iff_append.mp found with ⟨stops, before, after, split, earlier⟩
  have passed : forall e, e ∈ before -> c.stops norm e = false := by
    intro e member
    simpa using earlier e member
  have path := linked.path _ inHome
  rw [split] at path
  rcases path_append.mp path with ⟨middle, front, head, _⟩
  rw [head] at front
  have enough := linked.length_lt_fuel inHome
  rw [split, List.length_append, List.length_cons] at enough
  have shorter : before.length + 1 < c.fuel := by omega
  rcases Nat.exists_eq_add_of_lt shorter with ⟨spare, fuel⟩
  have deleted := delFrom_passed (.bucket (bucketOf c.nbuckets norm)) front passed (spare + 1 + 1)
  rw [delFrom_stop (deref_linkAfter (.bucket _) front) stops] at deleted
  refine ⟨before, after, split, ?_⟩
  simp only [cacheDel, normal, Bool.not_true, Bool.false_eq_true, if_false]
  have split_fuel : c.fuel = before.length + (spare + 1 + 1) := by omega
  rw [split_fuel]
  exact deleted

/-- The entries of a cache before and after an insertion, and their keys.  A
refused copy adds an entry without a key. -/
theorem added_keys (linked : Rows c rows) {key : CStr}
    {copied : Bool} (added : Added c c' key copied) :
    c'.listed.Perm (c.entries.next :: c.listed) ∧
      c'.keys.Perm (if copied then key :: c.keys else c.keys) := by
  have after := linked.add added
  have permuted := linked.added_perm key c.entries.next
  have listed : c'.listed.Perm (c.entries.next :: c.listed) := by
    rw [after.listed_eq, linked.listed_eq, added.nbuckets]
    exact permuted
  have kept : c.listed.filterMap c'.keyOf = c.listed.filterMap c.keyOf := by
    apply List.filterMap_congr
    intro e member
    rw [linked.listed_eq] at member
    rcases List.mem_flatMap.mp member with ⟨b, inside, inRow⟩
    have live := linked.live b (List.mem_range.mp inside) e inRow
    rw [Cache.keyOf, added.others e (Nat.ne_of_lt live.1), Cache.keyOf]
  refine ⟨listed, ?_⟩
  have keys := listed.filterMap c'.keyOf
  rw [List.filterMap_cons, added.keyed, kept] at keys
  cases copied with
  | true => exact keys
  | false => exact keys

/-- And before and after a deletion: one entry less, and its key once less. -/
theorem removed_keys (linked : Rows c rows) {b : Nat}
    (inside : b < c.nbuckets) {before after : List Block} {dead : Block} {key : CStr}
    (split : rows b = before ++ dead :: after) (own : c.keyOf dead = some key) :
    c.listed.Perm (dead :: (Avalanche.unlink c (linkAfter (.bucket b) before) dead).listed) ∧
      c.keys.Perm (key :: (Avalanche.unlink c (linkAfter (.bucket b) before) dead).keys) := by
  have listed : c.listed.Perm (dead :: (Avalanche.unlink c (linkAfter (.bucket b) before) dead).listed) := by
    rw [(linked.unlink inside split).listed_eq, linked.listed_eq, unlink_nbuckets]
    exact removed_perm inside split
  refine ⟨listed, ?_⟩
  have keys := listed.filterMap c.keyOf
  rw [List.filterMap_cons_some own] at keys
  have same : (Avalanche.unlink c (linkAfter (.bucket b) before) dead).keyOf = c.keyOf := by
    funext e
    exact unlink_keyOf ..
  rw [Cache.keys.eq_1 (Avalanche.unlink ..), same]
  exact keys

end Rows

end Avalanche
end BugMuseum
