import BugMuseum.Avalanche.KeyValues
import BugMuseum.Avalanche.Threads

namespace BugMuseum
namespace Avalanche

open Foundation

/-!
# The cache server as a service of keys and values

The entries of the cache are the bindings of the list, each in the block that has its
number, chained in the bucket of its key.  The handlers of `cached` keep it so and answer
what the list says, and so do its threads: for any number of them, any interleaving of
their steps and any failing allocations, each client is told what it would be told if the
list were asked one request after the other.
-/

/-- The blocks of a bucket.  Each binding has the block of its number, as
entries are allocated in the order of the sets. -/
def KeyValues.row (kv : KeyValues) (nbuckets b : Nat) : List Block :=
  (share (bucketOf nbuckets) b kv.bindings).map fun binding => binding.2.serial

/-- The entry has the key and the value of the binding.  An entry without a
value block counts as one with an empty value. -/
structure Cache.Keeps (c : Cache) (binding : CStr × Stored) : Prop where
  key : c.keyOf binding.2.serial = some binding.1
  bytes : ((c.entry binding.2.serial).valueBytes).getD [] = binding.2.bytes
  len : (c.entry binding.2.serial).valueLen = binding.2.bytes.length

/-- The cache holds these values, in so many buckets, and the next block is
the next number of the list. -/
structure Holds (nbuckets : Nat) (c : Cache) (kv : KeyValues) : Prop where
  buckets : c.nbuckets = nbuckets
  made : c.entries.next = kv.made
  rows : Rows c (kv.row nbuckets)
  keeps : forall binding, binding ∈ kv.bindings -> c.Keeps binding

/-- Only the rows of the buckets count. -/
theorem Rows.congr {c : Cache} {rows rows' : Nat -> List Block} (linked : Rows c rows)
    (same : forall b, b < c.nbuckets -> rows' b = rows b) : Rows c rows' := by
  have all : (List.range c.nbuckets).flatMap rows' = (List.range c.nbuckets).flatMap rows :=
    List.flatMap_congr fun b member => same b (List.mem_range.mp member)
  refine ⟨linked.nonempty, fun b inside => ?_, ?_, fun b inside => ?_, fun b inside => ?_, linked.fresh, ?_⟩
  · rw [same b inside]
    exact linked.path b inside
  · rw [all]
    exact linked.nodup
  · rw [same b inside]
    exact linked.live b inside
  · rw [same b inside]
    exact linked.place b inside
  · rw [all]
    exact linked.count

namespace Holds

theorem start {nbuckets : UInt32} {c : Cache} (made : cacheNew nbuckets true true = some c) :
    Holds c.nbuckets c .empty := by
  have new := keyed_cacheNew made
  rcases new.1.linked with ⟨rows, linked⟩
  have nothing : (List.range c.nbuckets).flatMap rows = [] := by
    rw [← linked.listed_eq, ← List.length_eq_zero_iff, ← new.1.keys_length, new.2, List.length_nil]
  have empty : forall b, b < c.nbuckets -> KeyValues.empty.row c.nbuckets b = rows b := by
    intro b inside
    exact (List.flatMap_eq_nil_iff.mp nothing b (List.mem_range.mpr inside)).symm
  refine ⟨rfl, ?_, linked.congr empty, fun _ impossible => absurd impossible List.not_mem_nil⟩
  cases made
  rfl

variable {nbuckets : Nat} {c c' : Cache} {kv : KeyValues}

/-- The block of a binding is older than the next one, so no insertion
overwrites it. -/
theorem old (holds : Holds nbuckets c kv) {binding : CStr × Stored} (member : binding ∈ kv.bindings) :
    binding.2.serial ≠ c.entries.next := by
  have home := holds.rows.bucketOf_lt binding.1
  have listed : binding.2.serial ∈ kv.row nbuckets (bucketOf c.nbuckets binding.1) := by
    refine List.mem_map.mpr ⟨binding, List.mem_filter.mpr ⟨member, ?_⟩, rfl⟩
    rw [holds.buckets]
    exact decide_eq_true rfl
  exact Nat.ne_of_lt (holds.rows.live _ home _ listed).1

/-- The loop of a lookup stops where the list has the key, since every entry
here has one. -/
theorem find?_row (holds : Holds nbuckets c kv) (key : CStr) :
    (kv.row nbuckets (bucketOf c.nbuckets key)).find? (c.stops key) =
      (newest kv.bindings key).map Stored.serial := by
  have stops : forall binding, binding ∈ share (bucketOf nbuckets) (bucketOf nbuckets key) kv.bindings ->
      c.stops key binding.2.serial = isKey key binding := by
    intro binding member
    rw [Cache.stops, (holds.keeps binding (List.mem_filter.mp member).1).key]
    rfl
  rw [holds.buckets, KeyValues.row, List.find?_map, newest, ← find?_share, Option.map_map]
  exact congrArg (Option.map _) (List.find?_congr stops)

theorem newest_mem {key : CStr} {stored : Stored} (bound : newest kv.bindings key = some stored) :
    (key, stored) ∈ kv.bindings := by
  rcases Option.map_eq_some_iff.mp bound with ⟨⟨own, _⟩, first, rfl⟩
  have same : own = key := isKey_iff.mp (List.find?_some first)
  exact same ▸ List.mem_of_find?_eq_some first

theorem getRaw (holds : Holds nbuckets c kv) (key : CStr) :
    getReply c (cacheGetRaw c (some key)) = some (KeyValues.valueReply (newest kv.bindings key)) := by
  rw [holds.rows.getRaw_eq, holds.find?_row]
  cases bound : newest kv.bindings key with
  | none => rfl
  | some stored =>
      have keeps := holds.keeps _ (newest_mem bound)
      dsimp only [Option.map_some]
      rw [Cache.outcome, keeps.key]
      dsimp only
      rw [getReply, keeps.bytes]
      rfl

/-- A new entry is in front of the bindings of its key, and of its bucket. -/
theorem bind (holds : Holds nbuckets c kv) {key : CStr} {bytes : Bytes} (added : Added c c' key true)
    (value : ((c'.entry c.entries.next).valueBytes).getD [] = bytes)
    (len : (c'.entry c.entries.next).valueLen = bytes.length) : Holds nbuckets c' (kv.bind key bytes) where
  buckets := added.nbuckets.trans holds.buckets
  made := added.next.trans (congrArg (· + 1) holds.made)
  rows := by
    have linked := holds.rows.add added
    have rows : (kv.bind key bytes).row nbuckets = Function.update (kv.row nbuckets) (bucketOf nbuckets key)
        (c.entries.next :: kv.row nbuckets (bucketOf nbuckets key)) := by
      funext b
      rw [KeyValues.row, KeyValues.bind, share_cons, holds.made]
      by_cases own : bucketOf nbuckets key = b
      · rw [if_pos own, ← own, Function.update_self]
        rfl
      · rw [if_neg own, Function.update_of_ne (Ne.symm own)]
        rfl
    rw [rows, ← holds.buckets]
    rw [← holds.buckets] at linked
    exact linked
  keeps := by
    refine List.forall_mem_cons.mpr ⟨⟨?_, ?_, ?_⟩, fun binding member => ?_⟩
    · rw [← holds.made]
      exact added.keyed
    · rw [← holds.made]
      exact value
    · rw [← holds.made]
      exact len
    · have keeps := holds.keeps binding member
      have entry := added.others _ (holds.old member)
      refine ⟨?_, ?_, ?_⟩
      · rw [Cache.keyOf, entry]
        exact keeps.key
      · rw [entry]
        exact keeps.bytes
      · rw [entry]
        exact keeps.len

/-- The row of a key without the newest of its entries is what is left when
that entry is unlinked. -/
theorem unbind_row (holds : Holds nbuckets c kv) {key : CStr} {stored : Stored}
    (bound : newest kv.bindings key = some stored) {before after : List Block}
    (split : kv.row nbuckets (bucketOf c.nbuckets key) = before ++ stored.serial :: after) :
    (kv.unbind key).row nbuckets = Function.update (kv.row nbuckets) (bucketOf c.nbuckets key) (before ++ after) := by
  rw [holds.buckets] at split ⊢
  funext b
  by_cases own : bucketOf nbuckets key = b
  · subst own
    rw [Function.update_self, KeyValues.row, KeyValues.unbind, share_unbind_self]
    rcases Option.map_eq_some_iff.mp bound with ⟨binding, first, rfl⟩
    rw [← find?_share] at first
    rcases List.find?_eq_some_iff_append.mp first with ⟨isNamed, front, back, shared, earlier⟩
    have passed : forall other, other ∈ front -> ¬ isKey key other = true := by
      intro other member named
      have missed := earlier other member
      rw [named] at missed
      cases missed
    have parts : kv.row nbuckets (bucketOf nbuckets key) =
        front.map (fun binding => binding.2.serial) ++
          binding.2.serial :: back.map fun binding => binding.2.serial := by
      rw [KeyValues.row, shared, List.map_append, List.map_cons]
    have nodup := holds.rows.nodup_row (holds.rows.bucketOf_lt key)
    rw [holds.buckets] at nodup
    have apart : forall {first rest : List Block},
        kv.row nbuckets (bucketOf nbuckets key) = first ++ binding.2.serial :: rest -> binding.2.serial ∉ first := by
      intro first rest same early
      rw [same] at nodup
      exact (List.nodup_cons.mp (List.nodup_middle.mp nodup)).1 (List.mem_append_left _ early)
    rw [shared, List.eraseP_append_right _ passed, List.eraseP_cons_of_pos isNamed, List.map_append,
      ← erase_append_cons (apart parts), ← parts, split, erase_append_cons (apart split)]
  · rw [Function.update_of_ne (Ne.symm own), KeyValues.row, KeyValues.unbind, share_unbind_of_ne _ own]
    rfl

theorem unbind (holds : Holds nbuckets c kv) {key : CStr} {fresh : Nat -> UInt8} {stored : Stored}
    (bound : newest kv.bindings (normalized key fresh) = some stored) :
    (cacheDel c (some key) fresh true).2 = some cacheOk ∧
      Holds nbuckets (cacheDel c (some key) fresh true).1 (kv.unbind (normalized key fresh)) := by
  have inHome := holds.rows.bucketOf_lt (normalized key fresh)
  have found := holds.find?_row (normalized key fresh)
  rw [bound, Option.map_some] at found
  have keeps := holds.keeps _ (newest_mem bound)
  rcases holds.rows.del_stop rfl found with ⟨before, after, split, deleted⟩
  rw [keeps.key, Option.isSome_some, if_pos rfl] at deleted
  rw [deleted]
  refine ⟨rfl, (unlink_nbuckets ..).trans holds.buckets, (unlink_next ..).trans holds.made, ?_,
    fun binding member => ?_⟩
  · rw [holds.unbind_row bound split]
    exact holds.rows.unlink inHome split
  · have kept := holds.keeps binding (List.mem_of_mem_eraseP member)
    refine ⟨?_, ?_, ?_⟩
    · rw [Rows.unlink_keyOf]
      exact kept.key
    · rw [unlink_entry]
      exact kept.bytes
    · rw [unlink_entry]
      exact kept.len

/-- The length of what is stored is the length that is listed.  It is where
the contract of the codecs is used. -/
theorem kept_length {platform : Platform}
    (respects : forall id codec, platform.codecs id = some codec -> codec.Respects) {isTcp : Bool} {r : Request}
    (fits : r.fast isTcp -> (applyCodec (codecFor platform.codecs r.codecId) r.value.1).2 ≤ smallSize)
    (grant : RequestGrant) :
    SetCall.storedLen platform ⟨isTcp, r, grant⟩ = (r.kept platform.codecs isTcp grant.set).length := by
  have written := applyCodec_respects respects r.codecId r.value.1
  simp only [SetCall.storedLen, SetCall.outlen, Request.kept, Request.ValueMade, Request.toStore]
  by_cases fast : r.fast isTcp
  · simp only [if_pos fast]
    by_cases succeeded : 0 ≤ (applyCodec (codecFor platform.codecs r.codecId) r.value.1).2
    · rw [if_pos ⟨succeeded, fits fast⟩, if_neg (Int.not_lt.mpr succeeded), (written succeeded).1, Int.toNat_natCast]
      rfl
    · rw [if_neg fun made => succeeded made.1, Int.toNat_of_nonpos (Int.le_of_lt (Int.not_le.mp succeeded))]
      rfl
  · simp only [if_neg fast]
    split
    · exact r.value.2.symm
    · rfl

theorem kept_bytes {r : Request} {codecs : Nat -> Option Codec} {isTcp : Bool} {grant : SetGrant}
    {stored : Option Bytes} {inside : Prop} (stays : inside)
    (bytes : forall value, stored = some value ∧ inside ↔
      r.ValueMade codecs isTcp grant ∧ r.toStore codecs isTcp = some value) :
    stored.getD [] = r.kept codecs isTcp grant := by
  rw [Request.kept]
  split
  · rename_i made
    rcases made.stores with ⟨value, toStore⟩
    rw [((bytes value).mpr ⟨made, toStore⟩).1, toStore]
  · rename_i failed
    cases stored with
    | none => rfl
    | some value => exact absurd ((bytes value).mp ⟨rfl, stays⟩).1 failed

theorem set {platform : Platform} (respects : forall id codec, platform.codecs id = some codec -> codec.Respects)
    (holds : Holds nbuckets c kv) {isTcp : Bool} {r : Request} {grant : RequestGrant}
    (offered : OffersSet platform.codecs isTcp r grant) :
    Holds nbuckets (handleSet platform isTcp c r grant).1 (kv.set platform.codecs isTcp r grant).1 ∧
      (handleSet platform isTcp c r grant).2 = (kv.set platform.codecs isTcp r grant).2 := by
  rw [KeyValues.set]
  by_cases missing : r.fast isTcp ∧ grant.work = none
  · rw [if_pos missing, handleSet, if_pos missing.1, missing.2]
    exact ⟨holds, rfl⟩
  · rw [if_neg missing, (handleSet_stored_iff platform isTcp c r grant).mpr missing]
    cases entry : grant.set.entry with
    | false =>
        rw [handleSet_refused platform isTcp c r entry]
        exact ⟨holds, rfl⟩
    | true =>
        have inline : SetCall.Inline platform ⟨isTcp, r, grant⟩ := fun fast => Int.toNat_le.mpr (offered.2 fast)
        have linked := setNext_addedAs inline c entry missing
        have added : Added c (handleSet platform isTcp c r grant).1 r.key true := offered.1 ▸ linked.1
        have inside := handleSet_overruns platform c grant offered.2
        have bytes := kept_bytes inside (handleSet_entry respects c missing entry).bytes
        exact ⟨holds.bind added bytes (linked.2.trans (kept_length respects offered.2 grant)), rfl⟩

/-- The pipe finds what the list has under the key: the value, if the key came
through its block, and otherwise nothing. -/
theorem newest_normalized {key : CStr} {norm : Grant} (offered : kv.OffersKey false key norm) {fresh : Nat -> UInt8}
    (allocated : norm = some fresh) :
    newest kv.bindings (normalized key fresh) = newest kv.bindings key ∧
      (newest kv.bindings key ≠ none -> normalized key fresh = key) := by
  rcases offered with overTcp | seeks
  · cases overTcp
  · rcases seeks fresh allocated with own | ⟨_, absent, absentForm⟩
    · have same := (normalized_eq_iff key fresh).mpr own
      exact ⟨congrArg _ same, fun _ => same⟩
    · exact ⟨absentForm.trans absent.symm, fun found => absurd absent found⟩

theorem get (holds : Holds nbuckets c kv) {isTcp : Bool} {r : Request} {grant : RequestGrant}
    (offered : kv.OffersKey isTcp r.key grant.norm) :
    handleGet isTcp c r grant = some (kv.get isTcp r.key grant.norm) := by
  rw [handleGet, KeyValues.get]
  cases isTcp with
  | true =>
      rw [if_pos rfl, KeyValues.find_tcp]
      exact holds.getRaw r.key
  | false =>
      rw [if_neg Bool.false_ne_true]
      cases allocated : grant.norm with
      | none => rfl
      | some fresh =>
          rw [KeyValues.find_pipe, ← (newest_normalized offered allocated).1]
          exact holds.getRaw (normalized r.key fresh)

theorem del (holds : Holds nbuckets c kv) {isTcp : Bool} {r : Request} {grant : RequestGrant}
    (offered : kv.OffersKey isTcp r.key grant.norm) :
    Holds nbuckets (handleDel isTcp c r grant).1 (kv.del isTcp r.key grant.norm).1 ∧
      (handleDel isTcp c r grant).2 = some (kv.del isTcp r.key grant.norm).2 := by
  rw [handleDel, KeyValues.del]
  cases isTcp with
  | true => exact ⟨holds, rfl⟩
  | false =>
      rw [if_neg Bool.false_ne_true, if_neg Bool.false_ne_true]
      cases allocated : grant.norm with
      | none => exact ⟨holds, rfl⟩
      | some fresh =>
          have found := newest_normalized offered allocated
          rw [KeyValues.find_pipe]
          dsimp only [normResidue, Option.getD_some, Option.isSome_some]
          cases bound : newest kv.bindings r.key with
          | none =>
              have passed := holds.find?_row (normalized r.key fresh)
              rw [found.1, bound, Option.map_none] at passed
              rw [holds.rows.del_absent rfl passed]
              exact ⟨holds, rfl⟩
          | some stored =>
              have own := found.2 (bound ▸ Option.some_ne_none stored)
              have removed := holds.unbind (found.1.trans bound)
              rw [removed.1]
              rw [own] at removed
              exact ⟨removed.2, rfl⟩

theorem listed (holds : Holds nbuckets c kv) :
    c.listed = (kv.listed nbuckets).map fun binding => binding.2.serial := by
  rw [holds.rows.listed_eq, holds.buckets, KeyValues.listed, List.map_flatMap]
  rfl

theorem listed_perm (holds : Holds nbuckets c kv) : (kv.listed nbuckets).Perm kv.bindings := by
  have inside := holds.rows.bucketOf_lt
  rw [holds.buckets] at inside
  exact flatMap_share_perm inside kv.bindings

theorem count (holds : Holds nbuckets c kv) : c.count = kv.bindings.length % 2 ^ 32 := by
  have length := congrArg List.length holds.listed
  rw [List.length_map, holds.listed_perm.length_eq, holds.rows.listed_eq] at length
  rw [holds.rows.count, length]

theorem entryLines {binding : CStr × Stored} (keeps : c.Keeps binding) (verbose : Bool) (grant : RequestGrant) :
    entryLines verbose c grant binding.2.serial = some (bindingLines verbose grant binding) := by
  have figures : c.figures binding.2.serial = (some binding.1, binding.2.bytes.length) := Prod.ext keeps.key keeps.len
  rw [entryLines_eq, figures, bindingLines]
  dsimp only
  split
  · rfl
  · rw [List.append_nil]
    rfl

theorem stats (holds : Holds nbuckets c kv) (isTcp : Bool) (r : Request) (grant : RequestGrant) :
    handleStats isTcp c r grant = some (kv.stats nbuckets (r.verbose isTcp) grant) := by
  have lines : c.listed.mapM (Avalanche.entryLines (r.verbose isTcp) c grant) =
      some ((kv.listed nbuckets).map (bindingLines (r.verbose isTcp) grant)) := by
    rw [holds.listed, List.mapM_map]
    apply mapM_some
    intro binding member
    exact entryLines (holds.keeps binding (holds.listed_perm.mem_iff.mp member)) (r.verbose isTcp) grant
  have header : cString (overwrite (snprintf (List.replicate 64 0) 0
      (ascii "ENTRIES " ++ decimal c.count ++ ascii "\n")).1 63 [0]) =
        ascii "ENTRIES " ++ decimal (kv.bindings.length % 2 ^ 32 : Nat) ++ ascii "\n" := by
    rw [← holds.count]
    apply cString_printed
    · simp only [List.mem_append, not_or]
      exact ⟨⟨by decide, decimal_clean _⟩, by decide⟩
    · have front : (ascii "ENTRIES ").length = 8 := rfl
      have behind : (ascii "\n").length = 1 := rfl
      have number : (decimal (c.count : Int)).length ≤ 10 := by
        apply (decimal_length_le_iff (by decide)).mpr
        rw [holds.count]
        exact (Nat.mod_lt _ (by decide)).trans (by decide)
      rw [List.length_append, List.length_append, List.length_replicate]
      omega
  refine Option.bind_eq_some_iff.mpr ⟨_, lines, ?_⟩
  rw [header]
  rfl

/-! ## The requests -/

theorem dispatch {platform : Platform} (respects : forall id codec, platform.codecs id = some codec -> codec.Respects)
    (holds : Holds nbuckets c kv) {isTcp : Bool} {r : Request} {grant : RequestGrant}
    (offered : kv.Offers platform.codecs isTcp r grant) :
    Holds nbuckets (dispatch platform isTcp c r grant).1 (kv.serve platform.codecs nbuckets isTcp r grant).1 ∧
      (dispatch platform isTcp c r grant).2 = some (kv.serve platform.codecs nbuckets isTcp r grant).2 := by
  rw [KeyValues.Offers] at offered
  rw [Avalanche.dispatch, KeyValues.serve]
  by_cases setting : r.header.op = opSet
  · rw [if_pos setting] at offered ⊢
    rw [if_pos setting]
    have stored := holds.set respects offered
    exact ⟨stored.1, congrArg some stored.2⟩
  · rw [if_neg setting] at offered ⊢
    rw [if_neg setting]
    by_cases getting : r.header.op = opGet
    · rw [if_pos (Or.inl getting)] at offered
      rw [if_pos getting, if_pos getting]
      exact ⟨holds, holds.get offered⟩
    · rw [if_neg getting, if_neg getting]
      by_cases deleting : r.header.op = opDel
      · rw [if_pos (Or.inr deleting)] at offered
        rw [if_pos deleting, if_pos deleting]
        exact holds.del offered
      · rw [if_neg deleting, if_neg deleting]
        exact ⟨holds, holds.stats isTcp r grant⟩

end Holds

/-- The server is up, and its cache holds these values. -/
def Serves (nbuckets : Nat) (shared : Option Cache) (kv : KeyValues) : Prop :=
  exists c, shared = some c ∧ Holds nbuckets c kv

/-- The reads and the refusals of the server, and its requests answered by the
list. -/
def keyValueService (platform : Platform) (nbuckets : Nat) : OneShot KeyValues Request RequestGrant where
  receive := (cached platform).receive
  handle := fun isTcp r grant kv => kv.serve platform.codecs nbuckets isTcp r grant

theorem cached_refines {platform : Platform}
    (respects : forall id codec, platform.codecs id = some codec -> codec.Respects) (nbuckets : Nat) :
    (cached platform).service.Refines (keyValueService platform nbuckets).service (Serves nbuckets) (fun _ => True)
      fun kv c r grant => kv.Offers platform.codecs c.1 r.2 grant := by
  have receive : (keyValueService platform nbuckets).receive = (cached platform).receive := rfl
  refine (cached platform).refines receive (fun _ _ _ _ _ => True.intro) ?_
  rintro _ kv isTcp r grant ⟨c, rfl, holds⟩ _ offered
  have dispatched := holds.dispatch respects offered
  simp only [cached, keyValueService]
  rcases equal : dispatch platform isTcp c r grant with ⟨c', reply⟩
  rw [equal] at dispatched
  obtain ⟨kept, replied⟩ := dispatched
  dsimp only at kept replied
  subst replied
  exact ⟨⟨c', rfl, kept⟩, rfl⟩

/-- Any number of threads, on either transport, with requests in any pieces,
handlers in any steps, allocations that fail or not, and plugins that keep the
contract of the codecs: once the section in progress is finished, every thread
is where it would be, and has sent what it would have sent, if the list had
been asked and changed by the requests in the order in which they took the
lock; and the server is up, with these values. -/
theorem cached_keyValues {platform : Platform}
    (respects : forall id codec, platform.codecs id = some codec -> codec.Respects) {nbuckets : UInt32} {c : Cache}
    (made : cacheNew nbuckets true true = some c) (cut : (cached platform).service.Cut)
    (turns : List (Turn Nat (Doing RequestGrant) RequestGrant))
    (offered : Guarded (keyValueService platform c.nbuckets).service.act
      (fun v action => action.Offered (fun kv c r grant => kv.Offers platform.codecs c.1 r.2 grant) v)
      (Service.idle Nat (RequestGrant × Request) .empty) ((Service.Cut.start (some c)).acts cut.program turns)) :
    let finished := (run cut.program.step (Service.Cut.start (some c)) turns).finish
    let served := run (keyValueService platform c.nbuckets).service.act
      (Service.idle Nat (RequestGrant × Request) .empty) ((Service.Cut.start (some c)).acts cut.program turns)
    finished.own = served.own ∧ Serves c.nbuckets finished.shared served.shared :=
  (cached_refines respects c.nbuckets).threads cut ⟨c, rfl, .start made⟩ offered

/-- Both plugins were found. -/
def bothPlugins : Platform where
  codecs := loadCodecs
  overrun := fun _ _ => none

/-- A value is set over TCP in hex digits, and a client on the pipe asks for
it while the reply is being sent. -/
def setThenGet : List (Turn Nat (Doing RequestGrant) RequestGrant) :=
  let set := [opSet, 0x11, 1, 0] ++ toLE 4 4 ++ ascii "k6869"
  let get := [opGet, 0, 1, 0] ++ toLE 4 0 ++ ascii "k"
  [.outside 0 (.accepts true (.of set fun _ => 7)), .outside 1 (.accepts false (.of get fun _ => 3)),
    .outside 0 (.receives allGranted), .enter 0 allGranted, .proceed 0, .outside 1 (.receives allGranted),
    .enter 1 allGranted] ++ List.replicate 9 (.proceed 0) ++ [.enter 1 allGranted] ++ List.replicate 10 (.proceed 1)

theorem setThenGet_sent :
    let cut := Service.Cut.bytewise (cached bothPlugins).service
    let finished := (run cut.program.step (Service.Cut.start (some oneBucket)) setThenGet).finish
    (finished.own 0).sent = ascii "STORED\n" ∧ (finished.own 1).sent = ascii "VALUE hi\n" := by
  have respects : forall id codec, bothPlugins.codecs id = some codec -> codec.Respects := loadCodecs_respects
  have served := (cached_keyValues respects oneBucket_made (.bytewise _) setThenGet (by decide +kernel)).1
  dsimp only
  rw [served]
  decide +kernel

end Avalanche
end BugMuseum
