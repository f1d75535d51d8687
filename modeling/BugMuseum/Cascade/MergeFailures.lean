import BugMuseum.Cascade.AcceptedBundle
import BugMuseum.Cascade.Overlay

namespace BugMuseum
namespace Cascade

open Foundation

/-!
# A merge that runs out of memory

`CfgMerge` makes up to three allocations for each entry of the overlay and links the copy
before it goes on.  It stops at the first entry that it cannot allocate and leaves the
copies before it in the list; and it does not look at the two allocations inside a
copy at all.  So it is all or nothing only when everything is granted, or when already the
first entry is refused.
-/

/-- The counter of a profile counts its list, up to the width of its field. -/
def CfgProfile.Counted (p : CfgProfile) : Prop :=
  p.count = p.head.length % 2 ^ 32

/-- How the exported functions build a profile, with allocations that fail or
not.  Every profile that a caller can hold is one of these. -/
inductive Built : CfgProfile -> Prop where
  | new : Built cfgNew
  | parsed {env : ParseEnv} {data : Bytes} {p : CfgProfile} (accepted : parseBundle env data = .ok p) : Built p
  | added {p q : CfgProfile} (built : Built p) {name : Option CStr} {type : Int} {len : Nat}
      {val : Option (Field len)} {grant : EntryGrant}
      (added : (cfgAdd (some p) name type val grant).2 = some q) : Built q
  | merged {base overlay p : CfgProfile} (builtBase : Built base) (builtOverlay : Built overlay)
      {grant : Nat -> EntryGrant} (merged : (cfgMerge (some base) (some overlay) grant).2 = some p) : Built p

/-- The copy has the name, the value and the other fields of its source.  A
source without a name has no complete copy. -/
structure CompleteCopy (s e : CfgEntry) : Prop where
  name : s.name ≠ none ∧ e.name = s.name
  value : e.value = s.value
  fields : e.type = s.type ∧ e.valueLen = s.valueLen ∧ e.ival = s.ival

/-- A merge that succeeds adds a complete copy of every entry, and one that
fails adds nothing. -/
structure AllOrNothing (base overlay : CfgProfile) (grant : Nat -> EntryGrant) : Prop where
  all : (cfgMerge (some base) (some overlay) grant).1 = cfgOk ->
    exists merged copied, (cfgMerge (some base) (some overlay) grant).2 = some merged ∧
      merged.head = base.head ++ copied ∧ List.Forall₂ CompleteCopy overlay.head copied ∧
      merged.count = (base.count + overlay.count) % 2 ^ 32
  nothing : (cfgMerge (some base) (some overlay) grant).1 ≠ cfgOk ->
    (cfgMerge (some base) (some overlay) grant).2 = some base

/-- The allocations of a copy that the source needs: its name, and its value
if it has one. -/
def Supplied (grant : EntryGrant) (s : CfgEntry) : Prop :=
  s.name ≠ none ∧ grant.name = true ∧ (s.value = none ∨ grant.value = true)

/-- Every entry is allocated, with all that its copy needs. -/
def AllSupplied (grant : Nat -> EntryGrant) (entries : List CfgEntry) : Prop :=
  forall j s, entries[j]? = some s -> (grant j).entry = true ∧ Supplied (grant j) s

/-- There is a first entry, and it is not allocated, so nothing has been
linked when the merge fails. -/
def FirstRefused (grant : Nat -> EntryGrant) (entries : List CfgEntry) : Prop :=
  entries ≠ [] ∧ (grant 0).entry = false

theorem CfgProfile.Counted.append {p : CfgProfile} (counted : p.Counted) (e : CfgEntry) :
    (appendEntry p e).Counted := by
  rw [Counted] at counted ⊢
  rw [appendEntry_head, List.length_append, List.length_singleton]
  change (p.count + 1) % 2 ^ 32 = _
  omega

theorem CfgProfile.Counted.mergeFrom {base : CfgProfile} (counted : base.Counted) (grant : Nat -> EntryGrant)
    (i : Nat) (entries : List CfgEntry) : (mergeFrom grant i entries base).2.Counted := by
  induction entries generalizing i base with
  | nil => exact counted
  | cons s rest inductionHypothesis =>
      rw [Cascade.mergeFrom]
      split
      · exact inductionHypothesis (counted.append _) (i + 1)
      · exact counted

theorem CfgProfile.Counted.parseEntries {env : ParseEnv} {data : Bytes} {left i off : Nat} {start p : CfgProfile}
    (counted : start.Counted) (parsed : parseEntries env data left i off start = .ok p) : p.Counted := by
  induction left generalizing i off start with
  | zero =>
      cases parsed
      exact counted
  | succ left inductionHypothesis =>
      rcases bind_eq_ok.mp parsed with ⟨⟨e, next⟩, _, later⟩
      exact inductionHypothesis (counted.append e) later

theorem CfgProfile.Counted.cfgAdd {p q : CfgProfile} (counted : p.Counted) {name : Option CStr} {type : Int}
    {len : Nat} {val : Option (Field len)} {grant : EntryGrant}
    (added : (cfgAdd (some p) name type val grant).2 = some q) : q.Counted := by
  cases name with
  | none =>
      cases added
      exact counted
  | some name =>
      unfold Cascade.cfgAdd at added
      dsimp only at added
      split at added
      · cases added
        exact counted
      · split at added
        · cases added
          exact counted
        · cases val with
          | none =>
              cases added
              exact counted.append _
          | some val =>
              dsimp only at added
              split at added
              · cases added
                exact counted
              · cases added
                exact counted.append _

theorem counted_cfgNew : cfgNew.Counted :=
  rfl

/-- The counter is right in every profile that the functions build.  The
induction is on how it was built. -/
theorem Built.counted {p : CfgProfile} (built : Built p) : p.Counted := by
  induction built with
  | new => rfl
  | parsed accepted =>
      simp only [parseBundle, bind_eq_ok] at accepted
      rcases accepted with ⟨_, _, _, _, _, _, _, _, _, _, stores⟩
      exact counted_cfgNew.parseEntries stores
  | added _ added counted => exact counted.cfgAdd added
  | merged _ _ merged counted _ =>
      cases merged
      exact counted.mergeFrom _ 0 _

theorem completeCopy_iff {grant : EntryGrant} {s : CfgEntry} :
    CompleteCopy s (copyEntry grant s) ↔ Supplied grant s := by
  have value := sameSetting_copyEntry grant s
  constructor
  · intro complete
    have kept : (copyEntry grant s).name = s.name := complete.name.2
    refine ⟨complete.name.1, ?_, value.mp ⟨rfl, complete.value, rfl⟩⟩
    by_contra refused
    have lost : (copyEntry grant s).name = none := if_neg refused
    exact complete.name.1 (kept.symm.trans lost)
  · rintro ⟨named, copied, filled⟩
    exact ⟨⟨named, if_pos copied⟩, (value.mpr filled).2.1, rfl, rfl, rfl⟩

theorem allSupplied_cons {grant : Nat -> EntryGrant} {i : Nat} {s : CfgEntry} {rest : List CfgEntry} :
    AllSupplied (fun j => grant (i + j)) (s :: rest) ↔
      ((grant i).entry = true ∧ Supplied (grant i) s) ∧ AllSupplied (fun j => grant (i + 1 + j)) rest := by
  have shift : forall j, grant (i + (j + 1)) = grant (i + 1 + j) := fun j => by
    rw [Nat.add_right_comm, Nat.add_assoc]
  rw [AllSupplied, forall_place_cons]
  simp only [shift]
  rfl

theorem forall₂_copies {grant : Nat -> EntryGrant} {i : Nat} {entries : List CfgEntry}
    (entry : forall j, j < entries.length -> (grant (i + j)).entry = true) :
    List.Forall₂ CompleteCopy entries (copies grant i entries) ↔ AllSupplied (fun j => grant (i + j)) entries := by
  induction entries generalizing i with
  | nil =>
      apply iff_of_true .nil
      intro j s standing
      cases standing
  | cons s rest inductionHypothesis =>
      have first := entry 0 (Nat.succ_pos _)
      have later : forall j, j < rest.length -> (grant (i + 1 + j)).entry = true := by
        intro j inside
        rw [Nat.add_assoc, Nat.add_comm 1 j]
        exact entry (j + 1) (Nat.succ_lt_succ inside)
      rw [copies, List.forall₂_cons, completeCopy_iff, allSupplied_cons, inductionHypothesis later]
      exact and_congr_left' (and_iff_right first).symm

/-- The merge succeeds when no entry is refused.  The texts of the copies have
no say in it. -/
theorem mergeFrom_status {grant : Nat -> EntryGrant} {i : Nat} {entries : List CfgEntry} {base : CfgProfile} :
    (mergeFrom grant i entries base).1 = cfgOk ↔ forall j, j < entries.length -> (grant (i + j)).entry = true := by
  induction entries generalizing i base with
  | nil =>
      apply iff_of_true rfl
      intro j impossible
      cases impossible
  | cons s rest inductionHypothesis =>
      rw [mergeFrom]
      split
      · rename_i first
        rw [inductionHypothesis]
        constructor
        · intro later j inside
          cases j with
          | zero => exact first
          | succ j =>
              have entry := later j (Nat.lt_of_succ_lt_succ inside)
              rwa [Nat.add_assoc, Nat.add_comm 1 j] at entry
        · intro all j inside
          rw [Nat.add_assoc, Nat.add_comm 1 j]
          exact all (j + 1) (Nat.succ_lt_succ inside)
      · rename_i refused
        apply iff_of_false
        · have failure : cfgEnomem ≠ cfgOk := by decide
          exact failure
        · intro all
          exact refused (all 0 (Nat.succ_pos _))

/-- A copy that has been linked stays linked, whatever becomes of the later
ones. -/
theorem mergeFrom_grows {grant : Nat -> EntryGrant} {i : Nat} {s : CfgEntry} {rest : List CfgEntry}
    {base : CfgProfile} (first : (grant i).entry = true) : (mergeFrom grant i (s :: rest) base).2 ≠ base := by
  intro same
  rw [mergeFrom, if_pos first] at same
  rcases mergeFrom_prefix grant (i + 1) rest (appendEntry base (copyEntry (grant i) s)) with ⟨added, head⟩
  have length := congrArg (fun p : CfgProfile => p.head.length) same
  rw [head, appendEntry_head, List.length_append, List.length_append, List.length_singleton] at length
  omega

theorem mergeFrom_count {grant : Nat -> EntryGrant} {i : Nat} {entries : List CfgEntry} {base : CfgProfile}
    (counted : base.Counted) (done : (mergeFrom grant i entries base).1 = cfgOk) :
    (mergeFrom grant i entries base).2.count = (base.count + entries.length % 2 ^ 32) % 2 ^ 32 := by
  have after := counted.mergeFrom grant i entries
  have head := mergeFrom_head (Prod.ext done rfl : mergeFrom grant i entries base = (cfgOk, _))
  have length : (copies grant i entries).length = entries.length := by
    clear done after head
    induction entries generalizing i with
    | nil => rfl
    | cons s rest inductionHypothesis => exact congrArg Nat.succ inductionHypothesis
  rw [CfgProfile.Counted] at counted after
  rw [after, head, List.length_append, length, counted]
  omega

/-! ## Exactly the merges that are all or nothing -/

section Merge

variable {base overlay : CfgProfile} {grant : Nat -> EntryGrant}

theorem allOrNothing_of_done (countedBase : base.Counted) (countedOverlay : overlay.Counted)
    (done : (mergeFrom grant 0 overlay.head base).1 = cfgOk) :
    AllOrNothing base overlay grant ↔ AllSupplied grant overlay.head := by
  have head := mergeFrom_head (Prod.ext done rfl : mergeFrom grant 0 overlay.head base = (cfgOk, _))
  have complete := forall₂_copies (mergeFrom_status.mp done)
  simp only [Nat.zero_add] at complete
  constructor
  · intro atomic
    rcases atomic.all done with ⟨merged, copied, result, split, all, _⟩
    cases result
    rw [head, List.append_cancel_left_eq] at split
    exact complete.mp (split ▸ all)
  · intro supplied
    constructor
    · intro _
      refine ⟨_, copies grant 0 overlay.head, rfl, head, complete.mpr supplied, ?_⟩
      rw [mergeFrom_count countedBase done, ← countedOverlay]
    · intro failed
      exact absurd done failed

theorem allOrNothing_of_failed (failed : (mergeFrom grant 0 overlay.head base).1 ≠ cfgOk) :
    AllOrNothing base overlay grant ↔ FirstRefused grant overlay.head := by
  have unchanged : AllOrNothing base overlay grant ↔ (mergeFrom grant 0 overlay.head base).2 = base := by
    constructor
    · intro atomic
      exact Option.some.inj (atomic.nothing failed)
    · intro same
      exact ⟨fun done => absurd done failed, fun _ => congrArg some same⟩
  rw [unchanged, FirstRefused]
  cases entries : overlay.head with
  | nil =>
      rw [entries] at failed
      exact absurd rfl failed
  | cons s rest =>
      cases first : (grant 0).entry with
      | true => exact iff_of_false (mergeFrom_grows first) (fun refused => Bool.noConfusion refused.2)
      | false =>
          apply iff_of_true _ ⟨List.cons_ne_nil s rest, rfl⟩
          rw [mergeFrom, if_neg (by rw [first]; exact Bool.false_ne_true)]

end Merge

/-- A merge is all or nothing exactly when all allocations for the copies
succeed, or when already the first entry is not allocated.  The counters are
right in every profile that the functions build. -/
theorem allOrNothing_iff (base overlay : CfgProfile) (grant : Nat -> EntryGrant) :
    (base.Counted -> overlay.Counted ->
      (AllOrNothing base overlay grant ↔ AllSupplied grant overlay.head ∨ FirstRefused grant overlay.head)) ∧
    (forall p, Built p -> p.Counted) := by
  refine ⟨fun countedBase countedOverlay => ?_, fun p built => built.counted⟩
  by_cases done : (mergeFrom grant 0 overlay.head base).1 = cfgOk
  · rw [allOrNothing_of_done countedBase countedOverlay done, or_iff_left]
    rintro ⟨some, refused⟩
    have entry := mergeFrom_status.mp done 0 (List.length_pos_of_ne_nil some)
    rw [Nat.zero_add, refused] at entry
    cases entry
  · rw [allOrNothing_of_failed done, or_iff_right]
    intro supplied
    apply done
    apply mergeFrom_status.mpr
    intro j inside
    rw [Nat.zero_add]
    exact (supplied j _ (List.getElem?_eq_getElem inside)).1

def twoGreetings : CfgProfile :=
  { head := [greetingEntry (ascii "hello"), greetingEntry (ascii "bye")], count := 2 }

theorem twoGreetings_merged : AllOrNothing cfgNew twoGreetings fun _ => granted := by
  apply ((allOrNothing_iff cfgNew twoGreetings fun _ => granted).1 rfl rfl).mpr
  left
  intro j s standing
  have member := List.mem_of_getElem? standing
  refine ⟨rfl, ?_, rfl, Or.inr rfl⟩
  rcases List.mem_pair.mp member with rfl | rfl
  · exact Option.some_ne_none _
  · exact Option.some_ne_none _

/-- Either the second entry is refused, or the name of the first copy. -/
theorem twoGreetings_torn :
    ¬ AllOrNothing cfgNew twoGreetings (fun i => { granted with entry := decide (i = 0) }) ∧
    ¬ AllOrNothing cfgNew twoGreetings (fun i => { granted with name := decide (i ≠ 0) }) := by
  constructor
  · intro atomic
    have same := Option.some.inj (atomic.nothing (by decide))
    cases congrArg (fun p : CfgProfile => p.count) same
  · intro atomic
    rcases atomic.all (by decide) with ⟨merged, copied, result, split, all, _⟩
    cases result
    cases all with
    | cons complete _ =>
        have first := congrArg List.head? split
        cases Option.some.inj first
        cases complete.name.2

end Cascade
end BugMuseum
