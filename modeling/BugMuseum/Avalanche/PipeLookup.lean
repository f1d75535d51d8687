import BugMuseum.Foundation.KeyedSearch
import BugMuseum.Avalanche.DeletedKeys

namespace BugMuseum
namespace Avalanche

open Foundation

/-!
# The lookups of the pipe and of TCP

A key is stored as it was given, and the pipe looks it up in the form that
`normalize_key` leaves in its block.  That form is the key only when the key is
short enough for the block and a terminator follows it: at index 31 the code
writes one, at a smaller index it must have been there before.
-/

/-- The key is its own normal form in a block with these contents.  The
contents matter, as a short key is not terminated. -/
def OwnForm (key : CStr) (fresh : Nat -> UInt8) : Prop :=
  ReadBackWhole key fresh

/-- No write of `normalize_key` for a key of this length leaves the block of
32 bytes. -/
def FitsBlock (key : CStr) : Prop :=
  CopyFits 256 key

/-- An entry without a key in the bucket of this key lies behind an entry with
it, so the lookup ends before it. -/
def Cache.Readable (c : Cache) (key : CStr) : Prop :=
  forall before e after, c.row (bucketOf c.nbuckets key) = before ++ e :: after -> c.keyOf e = none ->
    exists other, other ∈ before ∧ c.keyOf other = some key

/-- All entries in the bucket of this key have another key. -/
def Cache.Lacks (c : Cache) (key : CStr) : Prop :=
  forall e, e ∈ c.row (bucketOf c.nbuckets key) -> c.keyOf e ≠ none ∧ c.keyOf e ≠ some key

/-- What the pipe and TCP are to agree on: the lookup and its end, what a
deletion takes away, and that the normal form stays in its block. -/
structure PipeAgrees (c : Cache) (key : CStr) (fresh : Nat -> UInt8) (norm : Bool) : Prop where
  get : cacheGet c (some key) fresh norm = cacheGetRaw c (some key)
  returns : cacheGetRaw c (some key) ≠ .nullKey
  del : (cacheDel c (some key) fresh norm).2 = some cacheOk ↔ exists e, cacheGetRaw c (some key) = .found e
  removes : forall e, cacheGetRaw c (some key) = .found e -> forall b, b < c.nbuckets ->
    (cacheDel c (some key) fresh norm).1.row b = (c.row b).erase e
  inBlock : norm = true -> forall memory i, 32 ≤ i -> normalizeKey key memory i = memory i

/-- The caches that sets alone lead to, with allocations that fail or not.  A
refused copy leaves an entry without a key, which a lookup may come to. -/
inductive SetOnly : Cache -> Prop where
  | new {nbuckets : UInt32} {c : Cache} (made : cacheNew nbuckets true true = some c) : SetOnly c
  | set {c : Cache} (reached : SetOnly c) (key : CStr) (val : Payload) (grant : SetGrant) :
      SetOnly (cacheSet c (some key) val grant).1

/-- When they do: the key is its own normal form, or neither form is
stored. -/
def PipeSafe (c : Cache) (key : CStr) (fresh : Nat -> UInt8) (norm : Bool) : Prop :=
  (norm = true ∧ OwnForm key fresh ∧ c.Readable key) ∨
    (c.Lacks key ∧ (norm = true -> FitsBlock key ∧ c.Lacks (normalized key fresh)))

theorem normalized_eq_iff (key : CStr) (fresh : Nat -> UInt8) :
    normalized key fresh = key ↔ OwnForm key fresh :=
  read_copyTrimmed_eq_iff (by decide)

def Search.ofSought : Sought Block -> Search
  | .found e => .found e
  | .absent => .absent
  | .keyless => .nullKey

theorem Search.ofSought_eq_absent_iff {sought : Sought Block} :
    Search.ofSought sought = .absent ↔ sought = .absent := by
  cases sought <;> simp [Search.ofSought]

theorem Search.ofSought_eq_nullKey_iff {sought : Sought Block} :
    Search.ofSought sought = .nullKey ↔ sought = .keyless := by
  cases sought <;> simp [Search.ofSought]

theorem stops_iff {c : Cache} {key : CStr} {e : Block} :
    c.stops key e = true ↔ c.keyOf e = none ∨ c.keyOf e = some key := by
  rw [Cache.stops]
  cases c.keyOf e with
  | none => simp
  | some text => simp

namespace Rows

variable {c : Cache} {rows : Nat -> List Block}

theorem row_home (linked : Rows c rows) (key : CStr) :
    c.row (bucketOf c.nbuckets key) = rows (bucketOf c.nbuckets key) :=
  linked.row_eq (linked.bucketOf_lt key)

/-- The exact lookup is a search of the row of the key. -/
theorem getRaw_seek (linked : Rows c rows) (key : CStr) :
    cacheGetRaw c (some key) = .ofSought (seek c.keyOf key (rows (bucketOf c.nbuckets key))) := by
  rw [linked.getRaw_eq, seek_eq_find? c.keyOf fun e => stops_iff]
  cases (rows (bucketOf c.nbuckets key)).find? (c.stops key) with
  | none => rfl
  | some e =>
      dsimp only
      rw [Cache.outcome]
      cases c.keyOf e <;> rfl

/-- Nothing is found exactly when the bucket of the key holds other keys
only. -/
theorem absent_iff (linked : Rows c rows) (key : CStr) :
    cacheGetRaw c (some key) = .absent ↔ c.Lacks key := by
  rw [linked.getRaw_seek, Search.ofSought_eq_absent_iff, seek_eq_absent_iff, Cache.Lacks, linked.row_home,
    Foundation.Lacks]

/-- The lookup reads a null key exactly when such an entry comes first. -/
theorem nullKey_iff (linked : Rows c rows) (key : CStr) :
    cacheGetRaw c (some key) = .nullKey ↔ ¬ c.Readable key := by
  rw [linked.getRaw_seek, Search.ofSought_eq_nullKey_iff, ← not_ne_iff, seek_ne_keyless_iff, Cache.Readable,
    linked.row_home, Foundation.Readable]

/-- What is found is the first entry that stops the lookup, and it has the
key. -/
theorem found_first (linked : Rows c rows) {key : CStr} {e : Block}
    (found : cacheGetRaw c (some key) = .found e) :
    (rows (bucketOf c.nbuckets key)).find? (c.stops key) = some e ∧ c.keyOf e = some key := by
  rw [linked.getRaw_eq] at found
  cases first : (rows (bucketOf c.nbuckets key)).find? (c.stops key) with
  | none =>
      rw [first] at found
      cases found
  | some front =>
      rw [first] at found
      simp only [Cache.outcome] at found
      split at found
      · cases found
      · rename_i text own
        cases found
        refine ⟨rfl, ?_⟩
        rcases stops_iff.mp (List.find?_some first) with null | same
        · rw [null] at own
          cases own
        · exact same

/-- A deletion of a key in its own form takes what the exact lookup finds, and
nothing else. -/
theorem del_found (linked : Rows c rows) {key : CStr} {fresh : Nat -> UInt8}
    (own : normalized key fresh = key) {e : Block} (found : cacheGetRaw c (some key) = .found e) :
    (cacheDel c (some key) fresh true).2 = some cacheOk ∧
      forall b, b < c.nbuckets -> (cacheDel c (some key) fresh true).1.row b = (c.row b).erase e := by
  have inHome := linked.bucketOf_lt key
  have first := linked.found_first found
  have member := List.mem_of_find?_eq_some first.1
  rcases linked.del_stop own first.1 with ⟨before, after, split, result⟩
  rw [first.2, Option.isSome_some, if_pos rfl] at result
  rw [result]
  refine ⟨rfl, fun b inside => ?_⟩
  have shorter := linked.unlink inHome split
  rw [shorter.row_eq ((unlink_nbuckets ..).symm ▸ inside), linked.row_eq inside]
  by_cases same : b = bucketOf c.nbuckets key
  · have nodup := linked.nodup_row inHome
    rw [split] at nodup
    have absent : e ∉ before := fun early =>
      (List.nodup_cons.mp (List.nodup_middle.mp nodup)).1 (List.mem_append_left _ early)
    rw [same, Function.update_self, split, erase_append_cons absent]
  · rw [Function.update_of_ne same, List.erase_of_not_mem]
    exact linked.apart inHome inside (Ne.symm same) member

/-- Without an entry to find, no deletion succeeds. -/
theorem del_not_found (linked : Rows c rows) {key : CStr} {fresh : Nat -> UInt8}
    (none_found : forall e, cacheGetRaw c (some (normalized key fresh)) ≠ .found e) :
    (cacheDel c (some key) fresh true).2 ≠ some cacheOk := by
  cases first : (rows (bucketOf c.nbuckets (normalized key fresh))).find?
      (c.stops (normalized key fresh)) with
  | none =>
      rw [linked.del_absent rfl first]
      intro deleted
      cases deleted
  | some dead =>
      rcases linked.del_stop rfl first with ⟨before, after, split, result⟩
      cases own : c.keyOf dead with
      | none =>
          rw [own, Option.isSome_none, if_neg Bool.false_ne_true] at result
          rw [result]
          intro deleted
          cases deleted
      | some text =>
          apply absurd _ (none_found dead)
          rw [linked.getRaw_eq, first]
          simp only [Cache.outcome, own]

end Rows

/-! ## Agreement -/

theorem SetOnly.rows {c : Cache} (reached : SetOnly c) : exists rows, Rows c rows := by
  induction reached with
  | new made => exact (keyed_cacheNew made).1.linked
  | set reached key val grant inductionHypothesis =>
      rcases inductionHypothesis with ⟨rows, linked⟩
      cases entry : grant.entry with
      | false =>
          rw [cacheSet_refused _ key val entry]
          exact ⟨rows, linked⟩
      | true => exact ⟨_, linked.add (cacheSet_added _ key val entry)⟩

/-- The lookup of the pipe is the exact lookup of the normal form, which is
computed first. -/
theorem cacheGet_eq (c : Cache) (key : CStr) (fresh : Nat -> UInt8) :
    cacheGet c (some key) fresh true = cacheGetRaw c (some (normalized key fresh)) :=
  rfl

namespace Rows

variable {c : Cache} {rows : Nat -> List Block} {key : CStr} {fresh : Nat -> UInt8}

/-- A key that is not its own normal form agrees by its absence alone: the
pipe looks for another key, and would find another entry. -/
theorem absent_of_agrees (linked : Rows c rows) (agrees : PipeAgrees c key fresh true)
    (different : normalized key fresh ≠ key) : cacheGetRaw c (some key) = .absent := by
  have same := agrees.get
  rw [cacheGet_eq] at same
  cases outcome : cacheGetRaw c (some key) with
  | absent => rfl
  | nullKey => exact absurd outcome agrees.returns
  | found e =>
      have exact_key := (linked.found_first outcome).2
      have normal_key := (linked.found_first (same.trans outcome)).2
      exact absurd (Option.some.inj (normal_key.symm.trans exact_key)) different

theorem safe_of_agrees (linked : Rows c rows) {norm : Bool} (agrees : PipeAgrees c key fresh norm) :
    PipeSafe c key fresh norm := by
  cases norm with
  | false =>
      right
      refine ⟨(linked.absent_iff key).mp agrees.get.symm, fun allocated => ?_⟩
      cases allocated
  | true =>
      by_cases own : OwnForm key fresh
      · left
        refine ⟨rfl, own, ?_⟩
        by_contra unreadable
        exact agrees.returns ((linked.nullKey_iff key).mpr unreadable)
      · right
        have absent := linked.absent_of_agrees agrees fun same => own ((normalized_eq_iff ..).mp same)
        refine ⟨(linked.absent_iff key).mp absent, fun _ => ⟨?_, ?_⟩⟩
        · exact copyTrimmed_inside_iff.mp (agrees.inBlock rfl)
        · exact (linked.absent_iff _).mp (agrees.get.trans absent)

/-- The pipe looks for the very key that TCP looks for, and so it finds the
same entry. -/
theorem agrees_of_own (linked : Rows c rows) (own : OwnForm key fresh) (readable : c.Readable key) :
    PipeAgrees c key fresh true := by
  have normal := (normalized_eq_iff key fresh).mpr own
  refine ⟨by rw [cacheGet_eq, normal], ?_, ?_, ?_, fun _ => ?_⟩
  · intro null
    exact (linked.nullKey_iff key).mp null readable
  · constructor
    · intro deleted
      by_contra nothing
      refine linked.del_not_found ?_ deleted
      intro e found
      rw [normal] at found
      exact nothing ⟨e, found⟩
    · rintro ⟨e, found⟩
      exact (linked.del_found normal found).1
  · intro e found
    exact (linked.del_found normal found).2
  · exact copyTrimmed_inside_iff.mpr own.copyFits

/-- Neither the pipe nor TCP finds anything, and no deletion succeeds. -/
theorem agrees_of_lacks (linked : Rows c rows) {norm : Bool} (lacks : c.Lacks key)
    (safe : norm = true -> FitsBlock key ∧ c.Lacks (normalized key fresh)) :
    PipeAgrees c key fresh norm := by
  have absent := (linked.absent_iff key).mpr lacks
  have nothing : forall e, cacheGetRaw c (some key) ≠ .found e := by
    intro e found
    rw [absent] at found
    cases found
  have returns : cacheGetRaw c (some key) ≠ .nullKey := by
    rw [absent]
    intro null
    cases null
  have get : cacheGet c (some key) fresh norm = cacheGetRaw c (some key) := by
    cases norm with
    | false => exact absent.symm
    | true => rw [cacheGet_eq, absent, (linked.absent_iff _).mpr (safe rfl).2]
  have refused : (cacheDel c (some key) fresh norm).2 ≠ some cacheOk := by
    cases norm with
    | false =>
        intro deleted
        cases deleted
    | true =>
        apply linked.del_not_found
        intro e found
        rw [(linked.absent_iff _).mpr (safe rfl).2] at found
        cases found
  refine ⟨get, returns, iff_of_false refused ?_, fun e found => absurd found (nothing e), fun allocated => ?_⟩
  · rintro ⟨e, found⟩
    exact nothing e found
  · exact copyTrimmed_inside_iff.mpr (safe allocated).1

end Rows

/-- After any sets, the pipe and TCP agree on a key exactly when its normal
form in the block at hand is the key and can be read, or when neither form is
stored and the copy stays in its block. -/
theorem pipeAgrees_iff {c : Cache} (reached : SetOnly c) (key : CStr) (fresh : Nat -> UInt8) (norm : Bool) :
    PipeAgrees c key fresh norm ↔ PipeSafe c key fresh norm := by
  rcases reached.rows with ⟨rows, linked⟩
  constructor
  · exact linked.safe_of_agrees
  · rintro (⟨rfl, own, readable⟩ | ⟨lacks, safe⟩)
    · exact linked.agrees_of_own own readable
    · exact linked.agrees_of_lacks lacks safe

theorem setOnly_oneKey : SetOnly oneKey :=
  .set (.new oneBucket_made) _ _ _

theorem oneKey_agrees : PipeAgrees oneKey (CStr.ofBlock [107]) (fun _ => 0) true := by
  apply (pipeAgrees_iff setOnly_oneKey _ _ _).mpr
  left
  refine ⟨rfl, Or.inr (by decide), ?_⟩
  intro before e after split unkeyed
  have member : e ∈ oneKey.row (bucketOf oneKey.nbuckets (CStr.ofBlock [107])) :=
    split ▸ List.mem_append_right _ List.mem_cons_self
  have row : oneKey.row (bucketOf oneKey.nbuckets (CStr.ofBlock [107])) = [0] := by decide
  rw [row] at member
  rw [List.mem_singleton.mp member] at unkeyed
  exact absurd unkeyed (by decide)

/-- With other bytes behind the key, the pipe does not find what TCP finds. -/
theorem oneKey_disagrees :
    SetOnly oneKey ∧ ¬ PipeAgrees oneKey (CStr.ofBlock [107]) (fun _ => 88) true := by
  refine ⟨setOnly_oneKey, fun agrees => ?_⟩
  have found : cacheGetRaw oneKey (some (CStr.ofBlock [107])) = .found 0 := by rfl
  have absent : cacheGet oneKey (some (CStr.ofBlock [107])) (fun _ => 88) true = .absent := by rfl
  have same := agrees.get
  rw [found, absent] at same
  cases same

end Avalanche
end BugMuseum
