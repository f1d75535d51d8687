import Mathlib.Data.List.Dedup
import BugMuseum.Avalanche.CacheRuns
import BugMuseum.Avalanche.EntryChains

namespace BugMuseum
namespace Avalanche

open Foundation

/-!
# Keys after their deletion

A set never looks for its key: it links one more entry in front of the bucket.
So a key is stored as often as it was set, less the deletions that found it, and
only a deletion that takes its last entry makes it disappear.  The counter of the
store counts entries, not keys.
-/

def cacheNext (c : Cache) (op : Op) : Cache :=
  (cacheStep c op).1

/-- The counter is the number of distinct keys in the buckets.  It is what the
name of the field promises. -/
def CountsKeys (c : Cache) : Prop :=
  c.count = c.keys.dedup.length

instance : DecidablePred CountsKeys :=
  fun _ => inferInstanceAs (Decidable (_ = _))

/-- The call sets the key, whatever becomes of its allocations. -/
def Op.sets (key : CStr) : Op -> Prop
  | .set text _ _ => text = key
  | .getRaw _ => False
  | .del _ _ _ => False

/-- From a successful deletion of a key that is its own normal form until the
next set of the key, a lookup returns null. -/
def StaysDeleted (start : Cache) (ops : List Op) : Prop :=
  forall before key fresh norm middle after,
    ops = before ++ .del key fresh norm :: (middle ++ after) ->
    normalized key fresh = key ->
    (cacheStep (run cacheNext start before) (.del key fresh norm)).2 = .status cacheOk ->
    (forall op, op ∈ middle -> ¬ op.sets key) ->
    getRawReply (run cacheNext start (before ++ .del key fresh norm :: middle)) key = .null

/-- A set that gets its entry also gets its key copy.  Behind an entry without
a key every lookup of its bucket reads through null. -/
def CopiesKey : Op -> Prop
  | .set _ _ grant => grant.entry = true -> grant.key = true
  | .getRaw _ => True
  | .del _ _ _ => True

/-- It stores a key that is not there, and the counter does not wrap.  A set
whose entry is refused stores nothing, and is harmless. -/
def SetsNewKey (c : Cache) : Op -> Prop
  | .set key _ grant =>
      grant.entry = true -> grant.key = true ∧ key ∉ c.keys ∧ c.keys.length + 1 < 2 ^ 32
  | .getRaw _ => True
  | .del _ _ _ => True

/-- The key for which the call links an entry.  A set stores its key even when
the block of its value is refused. -/
def Op.stored : Op -> List CStr
  | .set key _ grant => if grant.entry then [key] else []
  | .getRaw _ => []
  | .del _ _ _ => []

/-- The key of the entry that the call deletes.  It is the normal form that
counts, not the key that was given. -/
def Op.deleted (c : Cache) : Op -> List CStr
  | .set _ _ _ => []
  | .getRaw _ => []
  | .del key fresh norm =>
      if (cacheStep c (.del key fresh norm)).2 = .status cacheOk then [normalized key fresh] else []

/-- The keys for which a run links entries. -/
def storedKeys (ops : List Op) : List CStr :=
  ops.flatMap Op.stored

/-- The keys deleted along a run, one for each successful deletion. -/
def deletedKeys : Cache -> List Op -> List CStr
  | _, [] => []
  | c, op :: rest => op.deleted c ++ deletedKeys (cacheNext c op) rest

/-- The entries are in rows, and each has its key.  Values may be missing,
since no loop reads a value to find a key. -/
structure Keyed (c : Cache) : Prop where
  linked : exists rows, Rows c rows
  keyed : forall e, e ∈ c.listed -> c.keyOf e ≠ none

theorem filterMap_length {c : Cache} {nodes : List Block} (keyed : forall e, e ∈ nodes -> c.keyOf e ≠ none) :
    (nodes.filterMap c.keyOf).length = nodes.length := by
  induction nodes with
  | nil => rfl
  | cons e rest inductionHypothesis =>
      rcases Option.ne_none_iff_exists'.mp (keyed e List.mem_cons_self) with ⟨key, own⟩
      rw [List.filterMap_cons_some own, List.length_cons, List.length_cons,
        inductionHypothesis fun other member => keyed other (List.mem_cons_of_mem e member)]

namespace Keyed

variable {c : Cache}

theorem keys_length (keyed : Keyed c) : c.keys.length = c.listed.length :=
  filterMap_length keyed.keyed

/-- The counter is the number of entries, up to the width of its field.
Whether it is the number of keys is another question. -/
theorem count_eq (keyed : Keyed c) : c.count = c.keys.length % 2 ^ 32 := by
  rcases keyed.linked with ⟨rows, linked⟩
  rw [keyed.keys_length, linked.listed_eq]
  exact linked.count

/-- A lookup returns null exactly when the key is not stored.  No null key is
read on the way. -/
theorem getRaw_null (keyed : Keyed c) (key : CStr) : getRawReply c key = .null ↔ key ∉ c.keys := by
  rcases keyed.linked with ⟨rows, linked⟩
  have inHome := linked.bucketOf_lt key
  have listed : forall e, e ∈ rows (bucketOf c.nbuckets key) -> e ∈ c.listed := by
    intro e member
    rw [linked.listed_eq]
    exact List.mem_flatMap.mpr ⟨_, List.mem_range.mpr inHome, member⟩
  rw [getRawReply, linked.getRaw_eq]
  cases found : (rows (bucketOf c.nbuckets key)).find? (c.stops key) with
  | some e =>
      have member := listed e (List.mem_of_find?_eq_some found)
      rcases Option.ne_none_iff_exists'.mp (keyed.keyed e member) with ⟨text, own⟩
      have same : text = key := by
        have stops := List.find?_some found
        rw [Cache.stops, own] at stops
        exact of_decide_eq_true stops
      subst same
      simp only [Cache.outcome, own]
      refine iff_of_false (fun null => by cases null) ?_
      exact not_not_intro (List.mem_filterMap.mpr ⟨e, member, own⟩)
  | none =>
      refine iff_of_true rfl ?_
      intro stored
      rcases List.mem_filterMap.mp stored with ⟨e, member, own⟩
      rw [linked.listed_eq] at member
      have passed := List.find?_eq_none.mp found e (linked.mem_home member own)
      rw [Cache.stops, own] at passed
      exact passed (decide_eq_true rfl)

/-- A deletion fails and changes nothing, or takes one entry of the normalized
key. -/
theorem del_cases (keyed : Keyed c) (key : CStr) (fresh : Nat -> UInt8) (norm : Bool) :
    ((cacheStep c (.del key fresh norm)).2 ≠ .status cacheOk ∧ cacheNext c (.del key fresh norm) = c) ∨
      ((cacheStep c (.del key fresh norm)).2 = .status cacheOk ∧
        Keyed (cacheNext c (.del key fresh norm)) ∧
        c.keys.Perm (normalized key fresh :: (cacheNext c (.del key fresh norm)).keys)) := by
  rcases keyed.linked with ⟨rows, linked⟩
  simp only [cacheNext, cacheStep]
  cases norm with
  | false =>
      left
      refine ⟨?_, rfl⟩
      intro succeeded
      cases succeeded
  | true =>
      have inHome := linked.bucketOf_lt (normalized key fresh)
      cases found : (rows (bucketOf c.nbuckets (normalized key fresh))).find?
          (c.stops (normalized key fresh)) with
      | none =>
          rw [linked.del_absent rfl found]
          left
          refine ⟨?_, rfl⟩
          intro succeeded
          cases succeeded
      | some dead =>
          rcases linked.del_stop rfl found with ⟨before, after, split, result⟩
          have member : dead ∈ c.listed := by
            rw [linked.listed_eq]
            exact List.mem_flatMap.mpr
              ⟨_, List.mem_range.mpr inHome, List.mem_of_find?_eq_some found⟩
          rcases Option.ne_none_iff_exists'.mp (keyed.keyed dead member) with ⟨text, own⟩
          have same : text = normalized key fresh := by
            have stops := List.find?_some found
            rw [Cache.stops, own] at stops
            exact of_decide_eq_true stops
          have removed := linked.removed_keys inHome split own
          rw [own, Option.isSome_some, if_pos rfl] at result
          rw [result]
          right
          refine ⟨rfl, ⟨⟨_, linked.unlink inHome split⟩, fun e kept => ?_⟩, same ▸ removed.2⟩
          rw [Rows.unlink_keyOf]
          exact keyed.keyed e (removed.1.symm.subset (List.mem_cons_of_mem dead kept))

/-- One call: the keys stored afterwards and the deleted key are the stored
keys from before and the new one. -/
theorem step (keyed : Keyed c) {op : Op} (copies : CopiesKey op) :
    Keyed (cacheNext c op) ∧ (op.deleted c ++ (cacheNext c op).keys).Perm (op.stored ++ c.keys) := by
  rcases keyed.linked with ⟨rows, linked⟩
  cases op with
  | set key val grant =>
      cases entry : grant.entry with
      | false =>
          have unchanged : cacheNext c (.set key val grant) = c := by
            rw [cacheNext, cacheStep, cacheSet_refused c key val entry]
          rw [unchanged, Op.stored, entry]
          exact ⟨keyed, List.Perm.refl _⟩
      | true =>
          have added := cacheSet_added c key val entry
          rw [copies entry] at added
          have after := linked.added_keys added
          rw [Op.stored, entry]
          refine ⟨⟨⟨_, linked.add added⟩, fun e member => ?_⟩, after.2⟩
          rcases List.mem_cons.mp (after.1.subset member) with rfl | old
          · rw [cacheNext, cacheStep, added.keyed]
            exact Option.some_ne_none key
          · have live : e ≠ c.entries.next := by
              rw [linked.listed_eq] at old
              rcases List.mem_flatMap.mp old with ⟨b, inside, inRow⟩
              exact Nat.ne_of_lt (linked.live b (List.mem_range.mp inside) e inRow).1
            rw [cacheNext, cacheStep, Cache.keyOf, added.others e live]
            exact keyed.keyed e old
  | getRaw key => exact ⟨keyed, List.Perm.refl _⟩
  | del key fresh norm =>
      rw [Op.deleted, Op.stored]
      rcases keyed.del_cases key fresh norm with ⟨failed, unchanged⟩ | ⟨succeeded, after, removed⟩
      · rw [if_neg failed, unchanged]
        exact ⟨keyed, List.Perm.refl _⟩
      · rw [if_pos succeeded]
        exact ⟨after, removed.symm⟩

/-- A run: what is stored and what was deleted is what was set and what was
stored before, each key as often on one side as on the other. -/
theorem run (keyed : Keyed c) {ops : List Op} (copies : forall op, op ∈ ops -> CopiesKey op) :
    Keyed (run cacheNext c ops) ∧
      (deletedKeys c ops ++ (Foundation.run cacheNext c ops).keys).Perm (storedKeys ops ++ c.keys) := by
  induction ops generalizing c with
  | nil => exact ⟨keyed, List.Perm.refl _⟩
  | cons op rest inductionHypothesis =>
      have now := keyed.step (copies op List.mem_cons_self)
      have later := inductionHypothesis now.1 fun other member => copies other (List.mem_cons_of_mem op member)
      refine ⟨later.1, List.perm_iff_count.mpr fun key => ?_⟩
      have countNow := now.2.count_eq key
      have countLater := later.2.count_eq key
      rw [List.count_append, List.count_append] at countNow countLater
      rw [storedKeys, List.flatMap_cons, deletedKeys, List.count_append, List.count_append,
        List.count_append, List.count_append, run_cons]
      rw [storedKeys] at countLater
      omega

end Keyed

/-- The new cache stores nothing. -/
theorem keyed_cacheNew {nbuckets : UInt32} {c : Cache} (made : cacheNew nbuckets true true = some c) :
    Keyed c ∧ c.keys = [] := by
  have empty : c.listed = [] := by
    cases made
    exact List.flatMap_eq_nil_iff.mpr fun b _ => rfl
  have rep := represents_cacheNew made
  have rows : Rows c fun _ => [] := by
    have flat : (List.range c.nbuckets).flatMap (fun _ => ([] : List Block)) = [] :=
      List.flatMap_eq_nil_iff.mpr fun _ _ => rfl
    refine ⟨rep.nonempty, fun b inside => (rep.chains b inside).path, ?_,
      fun b _ => List.forall_mem_nil _, fun b _ => List.forall_mem_nil _, rep.fresh, ?_⟩
    · rw [flat]
      exact List.nodup_nil
    · rw [flat, rep.count, List.length_nil, Finset.sum_const_zero]
  refine ⟨⟨⟨_, rows⟩, fun e member => ?_⟩, ?_⟩
  · rw [empty] at member
    cases member
  · rw [Cache.keys, empty, List.filterMap_nil]

/-! ## One entry for each key -/

/-- No key is stored twice, and the counter has not wrapped.  This is the
discipline under which entries and keys are one count. -/
structure KeyedOnce (c : Cache) : Prop where
  keyed : Keyed c
  nodup : c.keys.Nodup
  few : c.keys.length < 2 ^ 32

theorem copiesKey_of_setsNewKey {c : Cache} {op : Op} (new : SetsNewKey c op) : CopiesKey op := by
  cases op with
  | set key val grant => exact fun entry => (new entry).1
  | getRaw key => exact new
  | del key fresh norm => exact new

namespace KeyedOnce

variable {c : Cache}

theorem countsKeys (once : KeyedOnce c) : CountsKeys c := by
  rw [CountsKeys, once.nodup.dedup, once.keyed.count_eq, Nat.mod_eq_of_lt once.few]

/-- The keys with the one that the call stores are still distinct, and still
few enough to be counted. -/
theorem stored_nodup (once : KeyedOnce c) {op : Op} (new : SetsNewKey c op) :
    (op.stored ++ c.keys).Nodup ∧ (op.stored ++ c.keys).length < 2 ^ 32 := by
  cases op with
  | set key val grant =>
      cases entry : grant.entry with
      | false =>
          rw [Op.stored, entry]
          exact ⟨once.nodup, once.few⟩
      | true =>
          have fresh := new entry
          rw [Op.stored, entry]
          exact ⟨List.nodup_cons.mpr ⟨fresh.2.1, once.nodup⟩, fresh.2.2⟩
  | getRaw key => exact ⟨once.nodup, once.few⟩
  | del key fresh norm => exact ⟨once.nodup, once.few⟩

theorem step (once : KeyedOnce c) {op : Op} (new : SetsNewKey c op) : KeyedOnce (cacheNext c op) := by
  have after := once.keyed.step (copiesKey_of_setsNewKey new)
  have stored := once.stored_nodup new
  have length := after.2.length_eq
  rw [List.length_append] at length
  refine ⟨after.1, ?_, ?_⟩
  · exact (List.nodup_append.mp (after.2.nodup_iff.mpr stored.1)).2.1
  · exact Nat.lt_of_le_of_lt (Nat.le_add_left _ _) (length ▸ stored.2)

/-- A set that misses the condition makes the counter differ from the number
of keys: it stores a key once more, or an entry without a key, or the counter
wraps. -/
theorem breaks (once : KeyedOnce c) {op : Op} (missed : ¬ SetsNewKey c op) :
    ¬ CountsKeys (cacheNext c op) := by
  cases op with
  | set key val grant =>
      have entry : grant.entry = true := by
        by_contra refused
        exact missed fun granted => absurd granted refused
      rcases once.keyed.linked with ⟨rows, linked⟩
      have added := cacheSet_added c key val entry
      have keys := (linked.added_keys added).2
      have count : (cacheNext c (.set key val grant)).count = (c.keys.length + 1) % 2 ^ 32 := by
        rw [cacheNext, cacheStep, added.count, once.keyed.count_eq]
        omega
      intro counts
      rw [CountsKeys, count] at counts
      have few := once.few
      have own := once.nodup.dedup
      cases copied : grant.key with
      | false =>
          rw [copied] at keys
          have same := keys.dedup.length_eq
          rw [cacheNext, cacheStep, same, if_neg Bool.false_ne_true, own] at counts
          omega
      | true =>
          rw [copied] at keys
          have same := keys.dedup.length_eq
          rw [cacheNext, cacheStep, same, if_pos rfl] at counts
          by_cases stored : key ∈ c.keys
          · rw [List.dedup_cons_of_mem stored, own] at counts
            omega
          · rw [List.dedup_cons_of_notMem stored, own, List.length_cons] at counts
            apply missed
            exact fun _ => ⟨copied, stored, by omega⟩
  | getRaw key => exact absurd trivial missed
  | del key fresh norm => exact absurd trivial missed

end KeyedOnce

theorem setsNewKey_guard :
    ExactGuard cacheNext (fun _ => True) KeyedOnce CountsKeys SetsNewKey where
  safe := fun _ once => once.countsKeys
  keeps := fun _ _ once _ new => once.step new
  breaks := fun _ _ once _ missed => once.breaks missed

/-- A key that is not stored is not stored by calls that do not set it.  So
what was deleted stays away until it is set again. -/
theorem KeyedOnce.step_absent {c : Cache} (once : KeyedOnce c) {op : Op} (new : SetsNewKey c op) {key : CStr}
    (other : ¬ op.sets key) (absent : key ∉ c.keys) : key ∉ (cacheNext c op).keys := by
  have after := (once.keyed.step (copiesKey_of_setsNewKey new)).2
  intro stored
  rcases List.mem_append.mp (after.subset (List.mem_append_right _ stored)) with new | old
  · cases op with
    | set text val grant =>
        rw [Op.stored] at new
        split at new
        · exact other (List.mem_singleton.mp new).symm
        · cases new
    | getRaw text => cases new
    | del text fresh norm => cases new
  · exact absent old

theorem staysDeleted_of_guarded {c : Cache} (once : KeyedOnce c) {ops : List Op}
    (guarded : Guarded cacheNext SetsNewKey c ops) : StaysDeleted c ops := by
  intro before key fresh norm middle after split normal succeeded unset
  rw [split, guarded_append] at guarded
  rcases guarded with ⟨first, now, later⟩
  have reached : KeyedOnce (run cacheNext c before) := by
    apply throughout_end
    exact throughout_of_guarded (fun _ => True) (fun _ _ once _ new => once.step new) once
      (fun _ _ => trivial) first
  have deleted := (reached.keyed.step (copiesKey_of_setsNewKey now)).2
  rw [Op.deleted, if_pos succeeded, normal] at deleted
  have gone : key ∉ (cacheNext (run cacheNext c before) (.del key fresh norm)).keys :=
    (List.nodup_cons.mp (deleted.nodup_iff.mpr reached.nodup)).1
  have kept : Throughout cacheNext (fun c => KeyedOnce c ∧ key ∉ c.keys)
      (cacheNext (run cacheNext c before) (.del key fresh norm)) middle := by
    apply throughout_of_guarded (fun op => ¬ op.sets key) ?_ ⟨reached.step now, gone⟩ unset
      (guarded_append.mp later).1
    intro c op holds other new
    exact ⟨holds.1.step new, holds.1.step_absent new other holds.2⟩
  have last := throughout_end kept
  rw [run_append, run_cons]
  exact (last.1.keyed.getRaw_null key).mpr last.2

/-- A deleted key stays away and the counter counts keys along exactly those
runs that never set a key already stored.  Along every run a key is stored as
often as it was set and not deleted, and the counter is the number of stored
entries. -/
theorem staysDeleted_iff_setsNewKey (nbuckets : UInt32) (c : Cache)
    (made : cacheNew nbuckets true true = some c) (ops : List Op) :
    ((Throughout cacheNext CountsKeys c ops ∧ StaysDeleted c ops) ↔ Guarded cacheNext SetsNewKey c ops) ∧
      ((forall op, op ∈ ops -> CopiesKey op) ->
        (run cacheNext c ops).count =
            ((storedKeys ops).length - (deletedKeys c ops).length) % 2 ^ 32 ∧
          forall key, getRawReply (run cacheNext c ops) key = .null ↔
            (storedKeys ops).count key = (deletedKeys c ops).count key) := by
  have start := keyed_cacheNew made
  have once : KeyedOnce c := by
    refine ⟨start.1, ?_, ?_⟩
    · rw [start.2]
      exact List.nodup_nil
    · rw [start.2]
      decide
  refine ⟨⟨fun holds => ?_, fun guarded => ⟨?_, staysDeleted_of_guarded once guarded⟩⟩, fun copies => ?_⟩
  · exact (setsNewKey_guard.throughout_iff once fun _ _ => trivial).mp holds.1
  · exact (setsNewKey_guard.throughout_iff once fun _ _ => trivial).mpr guarded
  · have reached := start.1.run copies
    have balance := reached.2
    rw [start.2, List.append_nil] at balance
    have length := balance.length_eq
    rw [List.length_append] at length
    refine ⟨?_, fun key => ?_⟩
    · rw [reached.1.count_eq, ← length, Nat.add_sub_cancel_left]
    · have counts := balance.count_eq key
      rw [List.count_append] at counts
      rw [reached.1.getRaw_null, ← List.count_eq_zero]
      omega

/-- A key is set twice and deleted once. -/
def shadowingOps : List Op :=
  [.set (CStr.ofBlock [107]) (oneByte 1) granted, .set (CStr.ofBlock [107]) (oneByte 2) granted,
    .del (CStr.ofBlock [107]) (fun _ => 0) true]

theorem shadowingOps_copiesKey : forall op, op ∈ shadowingOps -> CopiesKey op := by
  intro op member
  simp only [shadowingOps, List.mem_cons, List.not_mem_nil, or_false] at member
  rcases member with rfl | rfl | rfl
  case inr.inr => trivial
  all_goals exact fun _ => rfl

theorem shadowingOps_visible :
    ((storedKeys shadowingOps).count (CStr.ofBlock [107]) = 2 ∧
      (deletedKeys oneBucket shadowingOps).count (CStr.ofBlock [107]) = 1) ∧
      getRawReply (run cacheNext oneBucket shadowingOps) (CStr.ofBlock [107]) ≠ .null := by
  have counts : (storedKeys shadowingOps).count (CStr.ofBlock [107]) = 2 ∧
      (deletedKeys oneBucket shadowingOps).count (CStr.ofBlock [107]) = 1 := by decide
  refine ⟨counts, fun null => ?_⟩
  have law := (staysDeleted_iff_setsNewKey 1 oneBucket rfl shadowingOps).2 shadowingOps_copiesKey
  have equal := (law.2 (CStr.ofBlock [107])).mp null
  rw [counts.1, counts.2] at equal
  cases equal

/-- The older value comes back, and the counter has counted the key twice. -/
theorem oneBucket_uncovers :
    ¬ Throughout cacheNext CountsKeys oneBucket shadowingOps ∧ ¬ StaysDeleted oneBucket shadowingOps := by
  refine ⟨?_, fun stays => ?_⟩
  · decide
  · have gone := stays (shadowingOps.take 2) (CStr.ofBlock [107]) (fun _ => 0) true [] [] rfl
      (by decide) (by decide) (List.forall_mem_nil _)
    revert gone
    decide

end Avalanche
end BugMuseum
