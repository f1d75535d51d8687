import BugMuseum.Foundation.BindingList
import BugMuseum.Foundation.LinkedQueue
import BugMuseum.Avalanche.CacheCore

namespace BugMuseum
namespace Avalanche

open Foundation

/-!
# Bucket chains

A bucket is well formed when the walk from its head meets a list of distinct
live entries.  On such a chain the lookup loop is a search in that list, and the
loop of `CacheDel`, which walks a pointer to the pointer it may have to change,
unlinks the first entry with the key.
-/

def Cache.link (c : Cache) (e : Block) : Option Block :=
  (c.entry e).next

/-- The entry has a key copy that holds the key, as the lookups compare it. -/
def Cache.holds (c : Cache) (key : CStr) (e : Block) : Bool :=
  match (c.entry e).key with
  | none => false
  | some copy => decide (copy.text = key)

/-- The key and the value bytes of an entry that has both. -/
def CacheEntry.binding (e : CacheEntry) : Option (CStr × Bytes) :=
  match e.key, e.valueBytes with
  | some copy, some bytes => some (copy.text, bytes)
  | _, _ => none

theorem binding_key {e : CacheEntry} {binding : CStr × Bytes} (bound : e.binding = some binding) :
    exists copy, e.key = some copy ∧ copy.text = binding.1 := by
  rw [CacheEntry.binding] at bound
  split at bound
  · rename_i copy bytes hasKey _
    cases bound
    exact ⟨copy, hasKey, rfl⟩
  · cases bound

theorem binding_valueBytes {e : CacheEntry} {binding : CStr × Bytes}
    (bound : e.binding = some binding) : e.valueBytes = some binding.2 := by
  rw [CacheEntry.binding] at bound
  split at bound
  · rename_i copy bytes _ hasValue
    cases bound
    exact hasValue
  · cases bound

theorem holds_of_binding {c : Cache} {e : Block} {binding : CStr × Bytes}
    (bound : (c.entry e).binding = some binding) (key : CStr) : c.holds key e = isKey key binding := by
  rcases binding_key bound with ⟨copy, hasKey, text⟩
  rw [Cache.holds, hasKey, isKey, ← text]

theorem findFrom_path {c : Cache} (key : CStr) {start : Option Block} {nodes : List Block} {fuel : Nat}
    (path : Path c.link start nodes none) (enough : nodes.length < fuel)
    (keyed : forall e, e ∈ nodes -> (c.entry e).key ≠ none) :
    findFrom c key fuel start =
      match nodes.find? (c.holds key) with
      | some e => .found e
      | none => .absent := by
  induction nodes generalizing start fuel with
  | nil =>
      rw [path_nil] at path
      rw [path]
      cases fuel <;> rfl
  | cons e rest inductionHypothesis =>
      cases fuel with
      | zero => exact absurd enough (Nat.not_lt_zero _)
      | succ fuel =>
          rcases path with ⟨head, tail⟩
          have shorter : rest.length < fuel := Nat.lt_of_succ_lt_succ enough
          have later := inductionHypothesis tail shorter
            fun other member => keyed other (List.mem_cons_of_mem e member)
          rw [Cache.link] at later
          rcases Option.ne_none_iff_exists'.mp (keyed e List.mem_cons_self) with ⟨copy, hasKey⟩
          have holds : c.holds key e = decide (copy.text = key) := by rw [Cache.holds, hasKey]
          rw [head, findFrom, hasKey, List.find?_cons, holds]
          by_cases same : copy.text = key
          · simp [same]
          · simpa [same] using later

/-- The pointer that the loop holds after it has passed the listed entries.
It points to the `next` field of the last of them. -/
def linkAfter (pp : Link) : List Block -> Link
  | [] => pp
  | e :: rest => linkAfter (.next e) rest

theorem linkAfter_concat (pp : Link) (before : List Block) (last : Block) :
    linkAfter pp (before ++ [last]) = .next last := by
  induction before generalizing pp with
  | nil => rfl
  | cons e rest inductionHypothesis => exact inductionHypothesis (.next e)

theorem linkAfter_eq_bucket {b other : Nat} {before : List Block}
    (reached : linkAfter (.bucket b) before = .bucket other) : other = b := by
  rcases List.eq_nil_or_concat before with rfl | ⟨front, last, rfl⟩
  · cases reached
    rfl
  · rw [List.concat_eq_append, linkAfter_concat] at reached
    cases reached

theorem linkAfter_eq_next {b : Nat} {before : List Block} {e : Block}
    (reached : linkAfter (.bucket b) before = .next e) : e ∈ before := by
  rcases List.eq_nil_or_concat before with rfl | ⟨front, last, rfl⟩
  · cases reached
  · rw [List.concat_eq_append, linkAfter_concat] at reached
    cases reached
    rw [List.concat_eq_append]
    exact List.mem_concat_self

theorem unlink_nbuckets (c : Cache) (pp : Link) (dead : Block) :
    (unlink c pp dead).nbuckets = c.nbuckets := by
  cases pp <;> rfl

theorem unlink_next (c : Cache) (pp : Link) (dead : Block) :
    (unlink c pp dead).entries.next = c.entries.next := by
  cases pp with
  | bucket b => rfl
  | next e => exact Heap.touch_next c.entries e

theorem unlink_releases (c : Cache) (pp : Link) (dead : Block) :
    (unlink c pp dead).entries.releases = (c.entries.release dead).releases := by
  cases pp with
  | bucket b => rfl
  | next e => exact Heap.releaseAt_releases_congr (Heap.touch_releases c.entries e) (some dead)

theorem unlink_live {c : Cache} {e dead : Block} (pp : Link) (live : c.entries.Live e)
    (different : e ≠ dead) : (unlink c pp dead).entries.Live e := by
  refine ⟨?_, ?_⟩
  · rw [unlink_next]
    exact live.1
  · rw [unlink_releases, Heap.release_releases_of_ne _ different]
    exact live.2

theorem unlink_buckets_of_ne (c : Cache) (pp : Link) {b : Nat} (dead : Block)
    (different : forall other, pp = .bucket other -> b ≠ other) :
    (unlink c pp dead).buckets b = c.buckets b := by
  cases pp with
  | bucket other => exact Function.update_of_ne (different other rfl) ..
  | next e => rfl

/-- Unlinking changes at most the `next` pointer of the entry before.  Keys
and values stay, even those of the entry itself. -/
theorem unlink_entry_of_ne (c : Cache) (pp : Link) {e : Block} (dead : Block)
    (different : forall other, pp = .next other -> e ≠ other) :
    (unlink c pp dead).entry e = c.entry e := by
  cases pp with
  | bucket b => rfl
  | next other =>
      exact Heap.modify_cell_of_ne c.entries (fun old => { old with next := (c.entry dead).next })
        (different other rfl)

theorem unlink_entry_self (c : Cache) (e dead : Block) :
    (unlink c (.next e) dead).entry e = { c.entry e with next := c.link dead } :=
  Heap.modify_cell_self c.entries e fun old => { old with next := c.link dead }

theorem unlink_entry (c : Cache) (pp : Link) (dead e : Block) :
    (unlink c pp dead).entry e = { c.entry e with next := (unlink c pp dead).link e } := by
  cases pp with
  | bucket b => rfl
  | next other =>
      by_cases same : e = other
      · subst same
        rw [Cache.link, unlink_entry_self]
      · have kept := unlink_entry_of_ne c (.next other) dead fun _ equal => by
          cases equal
          exact same
        rw [Cache.link, kept]

/-- The chain without the unlinked entry is a path from the same bucket, so
the later lookups walk it. -/
theorem unlink_path {c : Cache} {b : Nat} {before after : List Block} {dead : Block}
    (path : Path c.link (c.buckets b) (before ++ dead :: after) none)
    (nodup : (before ++ dead :: after).Nodup) :
    Path (unlink c (linkAfter (.bucket b) before) dead).link
      ((unlink c (linkAfter (.bucket b) before) dead).buckets b) (before ++ after) none := by
  rcases List.eq_nil_or_concat before with rfl | ⟨front, last, rfl⟩
  · have target : (unlink c (.bucket b) dead).buckets b = c.link dead := Function.update_self ..
    rw [linkAfter, target]
    exact path.2
  · rw [List.concat_eq_append] at path nodup ⊢
    rw [linkAfter_concat]
    have others : forall e, e ≠ last -> (unlink c (.next last) dead).link e = c.link e := by
      intro e different
      have kept := unlink_entry_of_ne c (.next last) dead (e := e) fun _ equal => by
        cases equal
        exact different
      rw [Cache.link, kept, Cache.link]
    have target : (unlink c (.next last) dead).link last = c.link dead := by
      rw [Cache.link, unlink_entry_self]
    have parts := List.nodup_append.mp nodup
    have frontParts := List.nodup_append.mp parts.1
    refine path.bypass (fun e member => others e ?_) (fun e member => others e ?_) target
    · exact frontParts.2.2 e member last List.mem_cons_self
    · exact (parts.2.2 last List.mem_concat_self e (List.mem_cons_of_mem dead member)).symm

/-- The loop passes an entry with another key, and goes on at its `next`
pointer. -/
theorem delFrom_other {c : Cache} {norm : CStr} {pp : Link} {e : Block} {fuel : Nat}
    (head : c.deref pp = some e) (keyed : (c.entry e).key ≠ none) (other : c.holds norm e = false) :
    delFrom c norm (fuel + 1) pp = delFrom c norm fuel (.next e) := by
  rcases Option.ne_none_iff_exists'.mp keyed with ⟨copy, hasKey⟩
  rw [Cache.holds, hasKey] at other
  rw [delFrom, head]
  simp only [hasKey, if_neg (of_decide_eq_false other)]

theorem delFrom_absent {c : Cache} {norm : CStr} (pp : Link) {nodes : List Block} {fuel : Nat}
    (path : Path c.link (c.deref pp) nodes none) (enough : nodes.length < fuel)
    (keyed : forall e, e ∈ nodes -> (c.entry e).key ≠ none)
    (absent : forall e, e ∈ nodes -> c.holds norm e = false) :
    delFrom c norm fuel pp = (c, some cacheEnotfound) := by
  induction nodes generalizing pp fuel with
  | nil =>
      rw [path_nil] at path
      cases fuel with
      | zero => exact absurd enough (Nat.not_lt_zero _)
      | succ fuel => rw [delFrom, path]
  | cons e rest inductionHypothesis =>
      cases fuel with
      | zero => exact absurd enough (Nat.not_lt_zero _)
      | succ fuel =>
          have tail : Path c.link (c.deref (.next e)) rest none := path.2
          have later := inductionHypothesis (.next e) tail (Nat.lt_of_succ_lt_succ enough)
            (fun other member => keyed other (List.mem_cons_of_mem e member))
            fun other member => absent other (List.mem_cons_of_mem e member)
          rw [delFrom_other path.1 (keyed e List.mem_cons_self) (absent e List.mem_cons_self), later]

theorem delFrom_found {c : Cache} {norm : CStr} (pp : Link) {before after : List Block} {dead : Block}
    {fuel : Nat} (path : Path c.link (c.deref pp) (before ++ dead :: after) none)
    (enough : before.length < fuel)
    (keyed : forall e, e ∈ before -> (c.entry e).key ≠ none)
    (earlier : forall e, e ∈ before -> c.holds norm e = false) (found : c.holds norm dead = true) :
    delFrom c norm fuel pp = (unlink c (linkAfter pp before) dead, some cacheOk) := by
  induction before generalizing pp fuel with
  | nil =>
      cases fuel with
      | zero => exact absurd enough (Nat.not_lt_zero _)
      | succ fuel =>
          rw [Cache.holds] at found
          split at found
          · cases found
          · rename_i copy hasKey
            rw [delFrom, path.1]
            simp only [hasKey, if_pos (of_decide_eq_true found)]
            rfl
  | cons e rest inductionHypothesis =>
      cases fuel with
      | zero => exact absurd enough (Nat.not_lt_zero _)
      | succ fuel =>
          have tail : Path c.link (c.deref (.next e)) (rest ++ dead :: after) none := path.2
          have later := inductionHypothesis (.next e) tail (Nat.lt_of_succ_lt_succ enough)
            (fun other member => keyed other (List.mem_cons_of_mem e member))
            fun other member => earlier other (List.mem_cons_of_mem e member)
          rw [delFrom_other path.1 (keyed e List.mem_cons_self) (earlier e List.mem_cons_self), later]
          rfl

end Avalanche
end BugMuseum
