import BugMuseum.Foundation.Runs
import BugMuseum.Cascade.Profile

namespace BugMuseum
namespace Cascade

open Foundation

/-!
# Which layer wins

`CfgMerge` links the copies of the overlay behind the entries of the base, and
both lookups stop at the first entry with the name.  The base therefore wins
wherever it has the name, and the overlay is seen only where it agrees or where
the base has nothing.
-/

def named (k : CStr) (e : CfgEntry) : Prop :=
  e.name = some k

instance (k : CStr) (e : CfgEntry) : Decidable (named k e) :=
  inferInstanceAs (Decidable (_ = _))

/-- The first entry named `k`, which is the one that a search comes to. -/
def firstNamed (k : CStr) (entries : List CfgEntry) : Option CfgEntry :=
  entries.find? fun e => decide (named k e)

/-- The entries carry the same setting: type, value and number. -/
def SameSetting (a b : CfgEntry) : Prop :=
  a.type = b.type ∧ a.value = b.value ∧ a.ival = b.ival

instance (a b : CfgEntry) : Decidable (SameSetting a b) :=
  inferInstanceAs (Decidable (_ ∧ _ ∧ _))

/-- The search finds an entry with the expected setting, or nothing where
nothing is expected. -/
def Resolves : Search -> Option CfgEntry -> Prop
  | .found e, some expected => SameSetting e expected
  | .absent, none => True
  | _, _ => False

/-- Both lookups of `k` in the merged profile give the setting of the overlay,
and that of the base where the overlay has none. -/
structure TakesEffect (base overlay merged : CfgProfile) (k : CStr) : Prop where
  finder : Resolves (findEntry merged k.1) ((firstNamed k overlay.head).or (firstNamed k base.head))
  lookup : forall key frame, normalized key frame = k ->
    Resolves (cfgLookup (some merged) (some key) frame)
      ((firstNamed k overlay.head).or (firstNamed k base.head))

/-- The copies up to the first entry named `k` have their names, and the copy
of that entry its value. -/
def CopiesReach (grant : Nat -> EntryGrant) (k : CStr) (entries : List CfgEntry) : Prop :=
  forall j s, entries[j]? = some s -> (forall e, e ∈ entries.take j -> ¬ named k e) ->
    s.name ≠ none ∧ (grant j).name = true ∧ (named k s -> s.value = none ∨ (grant j).value = true)

/-- What the base holds under `k` agrees with the overlay, or the base holds
nothing under `k` and the overlay is copied up to its own `k`. -/
def Agreeing (base overlay : CfgProfile) (grant : Nat -> EntryGrant) (k : CStr) : Prop :=
  match findEntry base k.1 with
  | .found e => forall pushed, firstNamed k overlay.head = some pushed -> SameSetting e pushed
  | .absent => CopiesReach grant k overlay.head
  | .nullName => False

/-- The copies of the entries, the first of which has the given number. -/
def copies (grant : Nat -> EntryGrant) : Nat -> List CfgEntry -> List CfgEntry
  | _, [] => []
  | i, s :: rest => copyEntry (grant i) s :: copies grant (i + 1) rest

theorem mergeFrom_head {grant : Nat -> EntryGrant} {i : Nat} {entries : List CfgEntry}
    {base merged : CfgProfile} (merges : mergeFrom grant i entries base = (cfgOk, merged)) :
    merged.head = base.head ++ copies grant i entries := by
  induction entries generalizing i base with
  | nil =>
      cases merges
      exact (List.append_nil _).symm
  | cons s rest inductionHypothesis =>
      rw [mergeFrom] at merges
      split at merges
      · have later := inductionHypothesis merges
        rw [later, appendEntry_head, copies, List.append_assoc]
        rfl
      · cases merges

theorem cfgMerge_head {grant : Nat -> EntryGrant} {base overlay merged : CfgProfile}
    (merges : cfgMerge (some base) (some overlay) grant = (cfgOk, some merged)) :
    merged.head = base.head ++ copies grant 0 overlay.head := by
  apply mergeFrom_head
  simp only [cfgMerge, Prod.mk.injEq, Option.some.injEq] at merges
  exact Prod.ext merges.1 merges.2

/-- One turn of the lookup loop: the entry is the one, or it has no name, or
the search goes on. -/
theorem findFrom_cons (k : CStr) (e : CfgEntry) (rest : List CfgEntry) :
    findFrom k.1 (e :: rest) =
      if named k e then .found e else if e.name = none then .nullName else findFrom k.1 rest := by
  rw [findFrom]
  cases present : e.name with
  | none =>
      have other : ¬ named k e := fun isNamed =>
        Option.some_ne_none k (isNamed.symm.trans present)
      rw [if_neg other, if_pos rfl]
  | some name =>
      have same : named k e ↔ name.1 = k.1 := by
        rw [named, present, Option.some.injEq, Subtype.ext_iff]
      simp only [same, reduceCtorEq, if_false]

theorem firstNamed_cons (k : CStr) (e : CfgEntry) (rest : List CfgEntry) :
    firstNamed k (e :: rest) = if named k e then some e else firstNamed k rest := by
  rw [firstNamed, List.find?_cons]
  by_cases isNamed : named k e <;> simp [isNamed, firstNamed]

/-- A search without an access through a null name finds the first entry. -/
theorem findFrom_found {k : CStr} {entries : List CfgEntry} {e : CfgEntry}
    (found : findFrom k.1 entries = .found e) : firstNamed k entries = some e := by
  induction entries with
  | nil => cases found
  | cons first rest inductionHypothesis =>
      rw [findFrom_cons] at found
      rw [firstNamed_cons]
      split at found
      · rename_i isNamed
        cases found
        rw [if_pos isNamed]
      · rename_i other
        split at found
        · cases found
        · rw [if_neg other]
          exact inductionHypothesis found

theorem findFrom_absent {k : CStr} {entries : List CfgEntry}
    (absent : findFrom k.1 entries = .absent) : firstNamed k entries = none := by
  induction entries with
  | nil => rfl
  | cons first rest inductionHypothesis =>
      rw [findFrom_cons] at absent
      rw [firstNamed_cons]
      split at absent
      · cases absent
      · rename_i other
        split at absent
        · cases absent
        · rw [if_neg other]
          exact inductionHypothesis absent

theorem copiesReach_cons {grant : Nat -> EntryGrant} {k : CStr} {s : CfgEntry} {rest : List CfgEntry} :
    CopiesReach grant k (s :: rest) ↔
      s.name ≠ none ∧ (grant 0).name = true ∧
        if named k s then s.value = none ∨ (grant 0).value = true
        else CopiesReach (fun j => grant (j + 1)) k rest := by
  constructor
  · intro reach
    have first := reach 0 s rfl fun _ impossible => absurd impossible List.not_mem_nil
    refine ⟨first.1, first.2.1, ?_⟩
    split
    · rename_i isNamed
      exact first.2.2 isNamed
    · rename_i other
      intro j e found earlier
      apply reach (j + 1) e found
      intro d member
      rw [List.take_succ_cons, List.mem_cons] at member
      rcases member with rfl | later
      · exact other
      · exact earlier d later
  · rintro ⟨hasName, copied, later⟩ j e found earlier
    cases j with
    | zero =>
        cases found
        refine ⟨hasName, copied, fun isNamed => ?_⟩
        rwa [if_pos isNamed] at later
    | succ j =>
        have other : ¬ named k s := earlier s (by rw [List.take_succ_cons]; exact List.mem_cons_self)
        rw [if_neg other] at later
        refine later j e found fun d member => earlier d ?_
        rw [List.take_succ_cons]
        exact List.mem_cons_of_mem s member

/-- A copy without a name ends the search with an access through it. -/
theorem not_resolves_nullName (expected : Option CfgEntry) : ¬ Resolves .nullName expected := by
  cases expected <;> exact fun impossible => impossible

theorem sameSetting_copyEntry (grant : EntryGrant) (s : CfgEntry) :
    SameSetting (copyEntry grant s) s ↔ s.value = none ∨ grant.value = true := by
  cases copied : grant.value with
  | true => exact iff_of_true ⟨rfl, if_pos copied, rfl⟩ (Or.inr rfl)
  | false =>
      have lost : (copyEntry grant s).value = none := if_neg (by simp [copied])
      constructor
      · intro same
        exact Or.inl (same.2.1.symm.trans lost)
      · rintro (empty | impossible)
        · exact ⟨rfl, lost.trans empty.symm, rfl⟩
        · cases impossible

/-- A search through the copies resolves as in the overlay exactly when the
copies reach its first `k`.  The induction is on the overlay. -/
theorem resolves_copies {grant : Nat -> EntryGrant} {k : CStr} (i : Nat) (entries : List CfgEntry) :
    Resolves (findFrom k.1 (copies grant i entries)) (firstNamed k entries) ↔
      CopiesReach (fun j => grant (i + j)) k entries := by
  induction entries generalizing i with
  | nil =>
      apply iff_of_true trivial
      intro j s found
      cases found
  | cons s rest inductionHypothesis =>
      rw [copies, findFrom_cons, firstNamed_cons, copiesReach_cons]
      by_cases kept : s.name ≠ none ∧ (grant i).name = true
      · have name : (copyEntry (grant i) s).name = s.name := if_pos kept.2
        have sameName : named k (copyEntry (grant i) s) ↔ named k s := by rw [named, named, name]
        have shift : (fun j => grant (i + (j + 1))) = fun j => grant (i + 1 + j) := by
          funext j
          rw [Nat.add_right_comm, Nat.add_assoc]
        rw [name, if_neg kept.1, shift]
        simp only [sameName]
        by_cases isNamed : named k s
        · rw [if_pos isNamed, if_pos isNamed, if_pos isNamed]
          simp only [Resolves, sameSetting_copyEntry, Nat.add_zero]
          exact ⟨fun same => ⟨kept.1, kept.2, same⟩, fun reach => reach.2.2⟩
        · rw [if_neg isNamed, if_neg isNamed, if_neg isNamed, inductionHypothesis (i + 1)]
          exact ⟨fun reach => ⟨kept.1, kept.2, reach⟩, fun reach => reach.2.2⟩
      · have name : (copyEntry (grant i) s).name = none := by
          rw [copyEntry]
          split
          · rename_i copied
            by_contra present
            exact kept ⟨present, copied⟩
          · rfl
        have other : ¬ named k (copyEntry (grant i) s) := by
          rw [named, name]
          exact (Option.some_ne_none k).symm
        rw [if_neg other, if_pos name]
        refine iff_of_false (not_resolves_nullName _) fun reach => kept ⟨reach.1, reach.2.1⟩

theorem merged_finder {base overlay merged : CfgProfile} {grant : Nat -> EntryGrant} (k : CStr)
    (merges : cfgMerge (some base) (some overlay) grant = (cfgOk, some merged)) :
    Resolves (findEntry merged k.1) ((firstNamed k overlay.head).or (firstNamed k base.head)) ↔
      Agreeing base overlay grant k := by
  rw [findEntry, cfgMerge_head merges, findFrom_append, Agreeing, findEntry]
  cases search : findFrom k.1 base.head with
  | found e =>
      rw [findFrom_found search]
      cases firstNamed k overlay.head with
      | none => exact iff_of_true ⟨rfl, rfl, rfl⟩ fun pushed impossible =>
          absurd impossible.symm (Option.some_ne_none pushed)
      | some pushed =>
          constructor
          · intro same other chosen
            exact Option.some.inj chosen ▸ same
          · intro agrees
            exact agrees pushed rfl
  | absent =>
      rw [findFrom_absent search, Option.or_none]
      simpa only [Nat.zero_add] using resolves_copies 0 overlay.head
  | nullName =>
      cases (firstNamed k overlay.head).or (firstNamed k base.head) <;> exact Iff.rfl

/-- A merged overlay takes effect exactly where the base agrees with it or
where the base holds nothing and the copies are complete.  Elsewhere an older
setting stays in front, or a copy is incomplete, although the status of the
merge is good. -/
theorem takesEffect_iff_agreeing (base overlay merged : CfgProfile) (grant : Nat -> EntryGrant) (k : CStr)
    (merges : cfgMerge (some base) (some overlay) grant = (cfgOk, some merged)) :
    TakesEffect base overlay merged k ↔ Agreeing base overlay grant k := by
  constructor
  · intro effect
    exact (merged_finder k merges).mp effect.finder
  · intro agreeing
    have finder := (merged_finder k merges).mpr agreeing
    refine ⟨finder, fun key frame same => ?_⟩
    rw [cfgLookup, same]
    exact finder

/-! ## Any number of pushes -/

/-- The store after one more pushed profile; the service ignores the status of
the merge. -/
def pushProfile (store : CfgProfile) (pushed : CfgProfile × (Nat -> EntryGrant)) : CfgProfile :=
  (mergeFrom pushed.2 0 pushed.1.head store).2

/-- Whatever its status, a merge only adds entries behind those of the
base. -/
theorem mergeFrom_prefix (grant : Nat -> EntryGrant) (i : Nat) (entries : List CfgEntry)
    (base : CfgProfile) : exists added, (mergeFrom grant i entries base).2.head = base.head ++ added := by
  induction entries generalizing i base with
  | nil => exact ⟨[], (List.append_nil _).symm⟩
  | cons s rest inductionHypothesis =>
      rw [mergeFrom]
      split
      · rcases inductionHypothesis (i + 1) (appendEntry base (copyEntry (grant i) s)) with ⟨added, later⟩
        refine ⟨copyEntry (grant i) s :: added, ?_⟩
        rw [later, appendEntry_head, List.append_assoc]
        rfl
      · exact ⟨[], (List.append_nil _).symm⟩

theorem pushProfile_findEntry {store : CfgProfile} {k : Bytes} {e : CfgEntry}
    (resolved : findEntry store k = .found e) (pushed : CfgProfile × (Nat -> EntryGrant)) :
    findEntry (pushProfile store pushed) k = .found e := by
  rcases mergeFrom_prefix pushed.2 0 pushed.1.head store with ⟨added, after⟩
  rw [findEntry] at resolved
  rw [findEntry, pushProfile, after, findFrom_append, resolved]

/-- A name that the store resolves keeps its entry through all later pushes,
whatever they bring and whichever of their allocations fail. -/
theorem run_pushProfile_findEntry {store : CfgProfile} {k : Bytes} {e : CfgEntry}
    (resolved : findEntry store k = .found e) (pushed : List (CfgProfile × (Nat -> EntryGrant))) :
    findEntry (run pushProfile store pushed) k = .found e := by
  induction pushed generalizing store with
  | nil => exact resolved
  | cons overlay rest inductionHypothesis =>
      exact inductionHypothesis (pushProfile_findEntry resolved overlay)

def greetingKey : CStr :=
  ⟨ascii "greeting", by decide⟩

def greetingEntry (text : Bytes) : CfgEntry :=
  ⟨some greetingKey, cfgStr, text.length, some text, 0, sized_self text⟩

def greetingProfile (text : Bytes) : CfgProfile :=
  { head := [greetingEntry text], count := 1 }

theorem newKey_takesEffect :
    TakesEffect cfgNew (greetingProfile (ascii "hello")) (greetingProfile (ascii "hello")) greetingKey :=
  (takesEffect_iff_agreeing cfgNew (greetingProfile (ascii "hello")) (greetingProfile (ascii "hello"))
    (fun _ => granted) greetingKey rfl).mpr fun j s found _ => by
      cases j with
      | zero =>
          cases found
          exact ⟨Option.some_ne_none _, rfl, fun _ => Or.inr rfl⟩
      | succ j => cases found

theorem pushedTwice_shadowed :
    exists merged,
      cfgMerge (some (greetingProfile (ascii "hello"))) (some (greetingProfile (ascii "bye")))
        (fun _ => granted) = (cfgOk, some merged) ∧
      ¬ TakesEffect (greetingProfile (ascii "hello")) (greetingProfile (ascii "bye")) merged
        greetingKey := by
  refine ⟨_, rfl, fun effect => ?_⟩
  have same : SameSetting (greetingEntry (ascii "hello")) (greetingEntry (ascii "bye")) :=
    effect.finder
  exact absurd same.2.1 (by decide)

end Cascade
end BugMuseum
