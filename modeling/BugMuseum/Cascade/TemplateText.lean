import BugMuseum.Foundation.CheckedAccess
import BugMuseum.Foundation.Placeholders
import BugMuseum.Cascade.Overlay
import BugMuseum.Cascade.TcpReplies

namespace BugMuseum
namespace Cascade

open Foundation

/-!
# The text of a template

A template stands for the text in which every `${KEY}` is replaced by the value of the
first entry with that name.  The loop of `CfgExpandTemplate` builds the front of that text
with two cursors and a bound on its output.  It is followed here a second time, with a
check of every index, to see that no turn leaves a buffer.
-/

def braces : Marks UInt8 where
  first := dollar
  second := openBrace
  closing := closeBrace

/-- The entry has exactly this name. -/
def hasName (name : Bytes) (e : CfgEntry) : Bool :=
  decide (e.name.map Subtype.val = some name)

/-- The value of the first entry with the name, and nothing where there is
none. -/
def valueNamed (p : CfgProfile) (name : Bytes) : Bytes :=
  ((p.head.find? (hasName name)).bind CfgEntry.value).getD []

/-- The expansion without a bound, as long as it may become. -/
def expansion (p : CfgProfile) (s : Bytes) : Bytes :=
  substitute braces (valueNamed p) s

/-! ## The loops with a check of every index -/

/-- Why a checked loop does not come to its end.  None of the three is checked
by the code itself. -/
inductive Stray where
  | outside     -- an index outside a buffer
  | nullName    -- the name of an entry that has none
  | endless     -- more turns than there are bytes
  deriving DecidableEq

/-- One more than the largest `uint32_t`. -/
def wordModulus : Nat := 2 ^ 32

/-- `while (j < n && s[j] != '}') j++;` -/
def scanClosing (s : Bytes) (n : Nat) : Nat -> Nat -> Except Stray Nat
  | 0, _ => .error .endless
  | fuel + 1, j =>
      if j < n then do
        let letter ← fetch .outside s j
        if letter ≠ closeBrace then scanClosing s n fuel ((j + 1) % wordModulus) else return j
      else return j

/-- The index of the brace that closes a reference at `i`, if a reference
begins there and is closed. -/
def closingAt (s : Bytes) (n i : Nat) : Except Stray (Option Nat) := do
  let letter ← fetch .outside s i
  if letter = dollar ∧ (i + 1) % wordModulus < n then do
    let brace ← fetch .outside s (i + 1)
    if brace = openBrace then do
      let j ← scanClosing s n (n + 1) ((i + 2) % wordModulus)
      return if j < n then some j else none
    else return none
  else return none

/-- `while (k < ref->value_len && w < sizeof(resolved) - 1) resolved[w++] =
ref->value[k++];` -/
def insertValue (value : Bytes) (valueLen : Nat) : Nat -> Nat -> Nat -> Bytes -> Except Stray (Nat × Bytes)
  | 0, _, _, _ => .error .endless
  | fuel + 1, k, w, resolved =>
      if k < valueLen ∧ w < resolvedSize - 1 then do
        let letter ← fetch .outside value k
        let resolved ← put .outside resolved w letter
        insertValue value valueLen fuel ((k + 1) % wordModulus) (w + 1) resolved
      else return (w, resolved)

def insertReference (p : CfgProfile) (name : Bytes) (w : Nat) (resolved : Bytes) : Except Stray (Nat × Bytes) :=
  match findEntry p name with
  | .nullName => .error .nullName
  | .absent => return (w, resolved)
  | .found ref =>
      match ref.value with
      | none => return (w, resolved)
      | some value => insertValue value ref.valueLen (ref.valueLen + 1) 0 w resolved

/-- `for (i = 0; i < n && w < sizeof(resolved) - 1; )` -/
def expandFrom (p : CfgProfile) (s : Bytes) (n : Nat) : Nat -> Nat -> Nat -> Bytes -> Except Stray (Nat × Bytes)
  | 0, _, _, _ => .error .endless
  | fuel + 1, i, w, resolved =>
      if i < n ∧ w < resolvedSize - 1 then do
        let closing ← closingAt s n i
        match closing with
        | some j => do
            let name ← fetchSlice .outside s (i + 2) (j - (i + 2))
            let inserted ← insertReference p name w resolved
            expandFrom p s n fuel ((j + 1) % wordModulus) inserted.1 inserted.2
        | none => do
            let letter ← fetch .outside s i
            let resolved ← put .outside resolved w letter
            expandFrom p s n fuel ((i + 1) % wordModulus) (w + 1) resolved
      else return (w, resolved)

/-- `w` and `resolved` behind the loop and its terminator. -/
def expandChecked (p : CfgProfile) (s : Bytes) (n : Nat) (resolved : Bytes) : Except Stray (Nat × Bytes) := do
  let looped ← expandFrom p s n (n + 1) 0 0 resolved
  let terminated ← put .outside looped.2 looped.1 0
  return (looped.1, terminated)

/-- The front of the expansion is built, with its terminator, and no index is
outside.  The rest of the buffer is of no account. -/
structure BuildsText (p : CfgProfile) (e : CfgEntry) (s : Bytes) (resolved : Field resolvedSize) : Prop where
  text : resolve p s = some ((expansion p s).take (resolvedSize - 1))
  inside : exists built, expandChecked p s e.valueLen resolved.1 =
      .ok (min (resolvedSize - 1) (expansion p s).length, built) ∧
    built.length = resolvedSize ∧
    (expansion p s).take (resolvedSize - 1) ++ [0] <+: built

/-- No search for a reference that begins within the bound meets an entry
without a name. -/
def Unobstructed (p : CfgProfile) (s : Bytes) : Prop :=
  forall before name after, tokens braces s = before ++ .reference name :: after ->
    (before.flatMap (Token.render (valueNamed p))).length < resolvedSize - 1 -> findEntry p name ≠ .nullName

theorem le_closingFrom (s : Bytes) (fuel j : Nat) : j ≤ closingFrom s fuel j := by
  induction fuel generalizing j with
  | zero => exact Nat.le_refl _
  | succ fuel inductionHypothesis =>
      rw [closingFrom]
      split
      · exact Nat.le_of_succ_le (inductionHypothesis (j + 1))
      · exact Nat.le_refl _

/-- The search for the brace finds the end of the name, if the reference is
closed at all. -/
theorem closingFrom_splitClosing {s : Bytes} {fuel j : Nat} (enough : s.length - j ≤ fuel) :
    match splitClosing braces (s.drop j) with
    | some (name, after) =>
        closingFrom s fuel j < s.length ∧ slice s j (closingFrom s fuel j - j) = name ∧
          s.drop (closingFrom s fuel j + 1) = after
    | none => s.length ≤ closingFrom s fuel j := by
  induction fuel generalizing j with
  | zero =>
      have ended : s.length ≤ j := by omega
      rw [List.drop_of_length_le ended]
      exact ended
  | succ fuel inductionHypothesis =>
      by_cases inside : j < s.length
      · have later := @inductionHypothesis (j + 1) (by omega)
        have stands : s.getD j 0 = s[j] := List.getD_eq_getElem s 0 inside
        have bound := le_closingFrom s fuel (j + 1)
        rw [List.drop_eq_getElem_cons inside, splitClosing, closingFrom, stands]
        by_cases closes : s[j] = closeBrace
        · rw [if_pos (show s[j] = braces.closing from closes), if_neg fun goesOn => goesOn.2 closes]
          refine ⟨inside, ?_, rfl⟩
          rw [Nat.sub_self, slice, List.take_zero]
        · rw [if_neg (show ¬ s[j] = braces.closing from closes), if_pos ⟨inside, closes⟩]
          cases found : splitClosing braces (s.drop (j + 1)) with
          | none =>
              rw [found] at later
              exact later
          | some parts =>
              rw [found] at later
              refine ⟨later.1, ?_, later.2.2⟩
              have longer : closingFrom s fuel (j + 1) - j = closingFrom s fuel (j + 1) - (j + 1) + 1 := by omega
              rw [longer, slice, List.drop_eq_getElem_cons inside, List.take_succ_cons]
              exact congrArg (s[j] :: ·) later.2.1
      · rw [List.drop_of_length_le (Nat.not_lt.mp inside), closingFrom, if_neg fun goesOn => inside goesOn.1]
        exact Nat.not_lt.mp inside

/-- A reference begins at the index, as the loop tests it. -/
def OpensAt (s : Bytes) (i : Nat) : Prop :=
  (s.getD i 0 = dollar ∧ i + 1 < s.length ∧ s.getD (i + 1) 0 = openBrace) ∧
    closingFrom s s.length (i + 2) < s.length

/-- The test of the loop tells whether a placeholder begins at the index. -/
theorem opened_drop {s : Bytes} {i : Nat} (inside : i < s.length) :
    match opened braces (s.drop i) with
    | some (name, after) =>
        OpensAt s i ∧ slice s (i + 2) (closingFrom s s.length (i + 2) - (i + 2)) = name ∧
          s.drop (closingFrom s s.length (i + 2) + 1) = after
    | none => ¬ OpensAt s i := by
  have stands : s.getD i 0 = s[i] := List.getD_eq_getElem s 0 inside
  rw [List.drop_eq_getElem_cons inside]
  by_cases next : i + 1 < s.length
  · have standsNext : s.getD (i + 1) 0 = s[i + 1] := List.getD_eq_getElem s 0 next
    have closing := @closingFrom_splitClosing s s.length (i + 2) (by omega)
    rw [List.drop_eq_getElem_cons next, opened, OpensAt, stands, standsNext]
    by_cases opens : s[i] = dollar ∧ s[i + 1] = openBrace
    · rw [if_pos (show s[i] = braces.first ∧ s[i + 1] = braces.second from opens)]
      cases found : splitClosing braces (s.drop (i + 2)) with
      | none =>
          rw [found] at closing
          exact fun both => absurd both.2 (Nat.not_lt.mpr closing)
      | some parts =>
          rw [found] at closing
          exact ⟨⟨⟨opens.1, next, opens.2⟩, closing.1⟩, closing.2⟩
    · rw [if_neg (show ¬ (s[i] = braces.first ∧ s[i + 1] = braces.second) from opens)]
      exact fun both => opens ⟨both.1.1, both.1.2.2⟩
  · rw [List.drop_of_length_le (Nat.not_lt.mp next), opened]
    · exact fun both => next both.1.2.1
    · intro first second rest equal
      cases equal

instance (s : Bytes) (i : Nat) : Decidable (OpensAt s i) :=
  inferInstanceAs (Decidable (_ ∧ _))

theorem findFrom_find (key : Bytes) (entries : List CfgEntry) :
    match findFrom key entries with
    | .found e => entries.find? (hasName key) = some e
    | .absent => entries.find? (hasName key) = none
    | .nullName => True := by
  induction entries with
  | nil => rfl
  | cons e rest inductionHypothesis =>
      rw [findFrom]
      cases present : e.name with
      | none => trivial
      | some name =>
          dsimp only
          by_cases same : name.1 = key
          · rw [if_pos same]
            apply List.find?_cons_of_pos
            rw [hasName, present]
            exact decide_eq_true (congrArg some same)
          · have other : ¬ hasName key e = true := by
              rw [hasName, present, decide_eq_true_eq]
              exact fun equal => same (Option.some.inj equal)
            rw [if_neg same, List.find?_cons_of_neg other]
            exact inductionHypothesis

theorem valueNamed_of_found {p : CfgProfile} {name : Bytes} {ref : CfgEntry}
    (found : findEntry p name = .found ref) : valueNamed p name = ref.value.getD [] := by
  have search := findFrom_find name p.head
  rw [show findFrom name p.head = .found ref from found] at search
  rw [valueNamed, search]
  rfl

theorem valueNamed_of_absent {p : CfgProfile} {name : Bytes} (absent : findEntry p name = .absent) :
    valueNamed p name = [] := by
  have search := findFrom_find name p.head
  rw [show findFrom name p.head = .absent from absent] at search
  rw [valueNamed, search]
  rfl

/-- No search for one of the references meets an entry without a name, as long
as the text before the reference, behind the `w` bytes already there, is
within the bound. -/
def ClearFrom (p : CfgProfile) (w : Nat) (rest : List (Token UInt8)) : Prop :=
  forall before name after, rest = before ++ .reference name :: after ->
    w + (before.flatMap (Token.render (valueNamed p))).length < resolvedSize - 1 -> findEntry p name ≠ .nullName

theorem unobstructed_iff {p : CfgProfile} {s : Bytes} : Unobstructed p s ↔ ClearFrom p 0 (tokens braces s) := by
  simp only [Unobstructed, ClearFrom, Nat.zero_add]

theorem clearFrom_nil (p : CfgProfile) (w : Nat) : ClearFrom p w [] := by
  intro before name after split
  cases before <;> cases split

theorem clearFrom_full {p : CfgProfile} {w : Nat} (full : resolvedSize - 1 ≤ w) (rest : List (Token UInt8)) :
    ClearFrom p w rest := by
  intro before name after _ within
  omega

/-- A token in front is passed with what it stands for. -/
theorem clearFrom_cons {p : CfgProfile} {w : Nat} {token : Token UInt8} {rest : List (Token UInt8)} :
    ClearFrom p w (token :: rest) ↔
      (forall name, token = .reference name -> w < resolvedSize - 1 -> findEntry p name ≠ .nullName) ∧
        ClearFrom p (w + (token.render (valueNamed p)).length) rest := by
  constructor
  · intro clear
    constructor
    · rintro name rfl within
      exact clear [] name rest rfl within
    · rintro before name after rfl within
      apply clear (token :: before) name after rfl
      rw [List.flatMap_cons, List.length_append]
      omega
  · rintro ⟨first, later⟩ before name after split within
    cases before with
    | nil =>
        cases split
        exact first name rfl within
    | cons head before =>
        cases split
        apply later before name after rfl
        rw [List.flatMap_cons, List.length_append] at within
        omega

/-- Only the part of the text within the bound counts. -/
theorem clearFrom_cut {p : CfgProfile} {text value : Bytes} {rest : List (Token UInt8)}
    (bound : text.length ≤ resolvedSize - 1) :
    ClearFrom p (text ++ value.take (resolvedSize - 1 - text.length)).length rest ↔
      ClearFrom p (text.length + value.length) rest := by
  rw [List.length_append, List.length_take]
  by_cases fits : value.length ≤ resolvedSize - 1 - text.length
  · rw [Nat.min_eq_right fits]
  · exact iff_of_true (clearFrom_full (by omega) rest) (clearFrom_full (by omega) rest)

section Loop

variable {p : CfgProfile} {s : Bytes} {fuel i : Nat} {text : Bytes}

theorem resolveFrom_turn (running : i < s.length ∧ text.length < resolvedSize - 1) :
    resolveFrom p s (fuel + 1) i text =
      if OpensAt s i then
        match findEntry p (slice s (i + 2) (closingFrom s s.length (i + 2) - (i + 2))) with
        | .nullName => none
        | .absent => resolveFrom p s fuel (closingFrom s s.length (i + 2) + 1) text
        | .found ref =>
            resolveFrom p s fuel (closingFrom s s.length (i + 2) + 1)
              (text ++ (ref.value.getD []).take (resolvedSize - 1 - text.length))
      else resolveFrom p s fuel (i + 1) (text ++ [s.getD i 0]) := by
  rw [resolveFrom, if_pos running]
  rfl

theorem resolveFrom_nullName (running : i < s.length ∧ text.length < resolvedSize - 1) (opens : OpensAt s i)
    (null : findEntry p (slice s (i + 2) (closingFrom s s.length (i + 2) - (i + 2))) = .nullName) :
    resolveFrom p s (fuel + 1) i text = none := by
  rw [resolveFrom_turn running, if_pos opens, null]

theorem resolveFrom_reference (running : i < s.length ∧ text.length < resolvedSize - 1) (opens : OpensAt s i)
    (clear : findEntry p (slice s (i + 2) (closingFrom s s.length (i + 2) - (i + 2))) ≠ .nullName) :
    resolveFrom p s (fuel + 1) i text =
      resolveFrom p s fuel (closingFrom s s.length (i + 2) + 1) (text ++
        (valueNamed p (slice s (i + 2) (closingFrom s s.length (i + 2) - (i + 2)))).take
          (resolvedSize - 1 - text.length)) := by
  rw [resolveFrom_turn running, if_pos opens]
  cases search : findEntry p (slice s (i + 2) (closingFrom s s.length (i + 2) - (i + 2))) with
  | nullName => exact absurd search clear
  | absent => rw [valueNamed_of_absent search, List.take_nil, List.append_nil]
  | found ref => rw [valueNamed_of_found search]

theorem resolveFrom_letter (running : i < s.length ∧ text.length < resolvedSize - 1) (plain : ¬ OpensAt s i) :
    resolveFrom p s (fuel + 1) i text = resolveFrom p s fuel (i + 1) (text ++ [s.getD i 0]) := by
  rw [resolveFrom_turn running, if_neg plain]

theorem resolveFrom_ended (ended : ¬ (i < s.length ∧ text.length < resolvedSize - 1)) :
    resolveFrom p s (fuel + 1) i text = some text := by
  rw [resolveFrom, if_neg ended]

theorem tokens_reference (inside : i < s.length) (opens : OpensAt s i) :
    tokens braces (s.drop i) =
      .reference (slice s (i + 2) (closingFrom s s.length (i + 2) - (i + 2))) ::
        tokens braces (s.drop (closingFrom s s.length (i + 2) + 1)) := by
  have turn := opened_drop inside
  cases parts : opened braces (s.drop i) with
  | none =>
      rw [parts] at turn
      exact absurd opens turn
  | some parts' =>
      rw [parts] at turn
      rw [turn.2.1, turn.2.2]
      exact tokens_opened braces parts

theorem tokens_letter (inside : i < s.length) (plain : ¬ OpensAt s i) :
    tokens braces (s.drop i) = .letter (s.getD i 0) :: tokens braces (s.drop (i + 1)) := by
  have turn := opened_drop inside
  cases parts : opened braces (s.drop i) with
  | some parts' =>
      rw [parts] at turn
      exact absurd turn.1 plain
  | none =>
      have stands : s.getD i 0 = s[i] := List.getD_eq_getElem s 0 inside
      rw [List.drop_eq_getElem_cons inside] at parts ⊢
      rw [stands]
      exact tokens_plain braces parts

/-- From an index on, the loop appends what stands for the rest of the
template, up to the bound; or it comes to a search that reads the name of an
entry without one. -/
def BuildsFrom (p : CfgProfile) (s : Bytes) (fuel i : Nat) (text : Bytes) : Prop :=
  (ClearFrom p text.length (tokens braces (s.drop i)) ->
      resolveFrom p s fuel i text = some ((text ++ expansion p (s.drop i)).take (resolvedSize - 1))) ∧
    (¬ ClearFrom p text.length (tokens braces (s.drop i)) -> resolveFrom p s fuel i text = none)

theorem buildsFrom_reference (running : i < s.length ∧ text.length < resolvedSize - 1) (opens : OpensAt s i)
    (later : BuildsFrom p s fuel (closingFrom s s.length (i + 2) + 1) (text ++
      (valueNamed p (slice s (i + 2) (closingFrom s s.length (i + 2) - (i + 2)))).take
        (resolvedSize - 1 - text.length))) :
    BuildsFrom p s (fuel + 1) i text := by
  have bound := Nat.le_of_lt running.2
  have front : expansion p (s.drop i) =
      valueNamed p (slice s (i + 2) (closingFrom s s.length (i + 2) - (i + 2))) ++
        expansion p (s.drop (closingFrom s s.length (i + 2) + 1)) := by
    rw [expansion, substitute, tokens_reference running.1 opens]
    rfl
  rw [BuildsFrom, clearFrom_cut bound, take_append_cut bound] at later
  rw [BuildsFrom, tokens_reference running.1 opens, clearFrom_cons, front]
  by_cases null : findEntry p (slice s (i + 2) (closingFrom s s.length (i + 2) - (i + 2))) = .nullName
  · rw [resolveFrom_nullName running opens null]
    exact ⟨fun clear => absurd null (clear.1 _ rfl running.2), fun _ => rfl⟩
  · rw [resolveFrom_reference running opens null]
    refine ⟨fun clear => later.1 clear.2, fun obstructed => later.2 fun clear => obstructed ⟨?_, clear⟩⟩
    rintro name equal _
    cases equal
    exact null

theorem buildsFrom_letter (running : i < s.length ∧ text.length < resolvedSize - 1) (plain : ¬ OpensAt s i)
    (later : BuildsFrom p s fuel (i + 1) (text ++ [s.getD i 0])) : BuildsFrom p s (fuel + 1) i text := by
  have front : expansion p (s.drop i) = [s.getD i 0] ++ expansion p (s.drop (i + 1)) := by
    rw [expansion, substitute, tokens_letter running.1 plain]
    rfl
  rw [BuildsFrom, List.length_append, List.append_assoc] at later
  rw [BuildsFrom, tokens_letter running.1 plain, clearFrom_cons, front, resolveFrom_letter running plain]
  refine ⟨fun clear => later.1 clear.2, fun obstructed => later.2 fun clear => obstructed ⟨?_, clear⟩⟩
  rintro name equal
  cases equal

/-- At the end of the template, or of the room, nothing more is appended. -/
theorem buildsFrom_ended (ended : ¬ (i < s.length ∧ text.length < resolvedSize - 1))
    (bound : text.length ≤ resolvedSize - 1) (result : resolveFrom p s fuel i text = some text) :
    BuildsFrom p s fuel i text := by
  rw [BuildsFrom, result]
  by_cases inside : i < s.length
  · have full : text.length = resolvedSize - 1 := by omega
    refine ⟨fun _ => ?_, fun obstructed => absurd (clearFrom_full full.ge _) obstructed⟩
    rw [List.take_append_of_le_length full.ge, List.take_of_length_le full.le]
  · have nothing : s.drop i = [] := List.drop_of_length_le (Nat.not_lt.mp inside)
    rw [nothing, expansion, substitute, tokens_nil, List.flatMap_nil, List.append_nil, List.take_of_length_le bound]
    exact ⟨fun _ => rfl, fun obstructed => absurd (clearFrom_nil p _) obstructed⟩

theorem resolveFrom_builds (enough : s.length - i ≤ fuel) (bound : text.length ≤ resolvedSize - 1) :
    BuildsFrom p s fuel i text := by
  induction fuel generalizing i text with
  | zero => exact buildsFrom_ended (by omega) bound rfl
  | succ fuel inductionHypothesis =>
      by_cases running : i < s.length ∧ text.length < resolvedSize - 1
      · by_cases opens : OpensAt s i
        · apply buildsFrom_reference running opens
          apply inductionHypothesis
          · have advanced := le_closingFrom s s.length (i + 2)
            omega
          · rw [List.length_append, List.length_take]
            omega
        · apply buildsFrom_letter running opens
          apply inductionHypothesis
          · omega
          · rw [List.length_append, List.length_singleton]
            exact running.2
      · exact buildsFrom_ended running bound (resolveFrom_ended running)

end Loop

theorem resolve_outcome (p : CfgProfile) (s : Bytes) :
    (Unobstructed p s -> resolve p s = some ((expansion p s).take (resolvedSize - 1))) ∧
      (¬ Unobstructed p s -> resolve p s = none) := by
  rw [unobstructed_iff]
  exact @resolveFrom_builds p s s.length 0 [] (Nat.sub_le ..) (Nat.zero_le _)

theorem scanClosing_eq {s : Bytes} (narrow : s.length < wordModulus) {fuel j : Nat}
    (enough : s.length - j ≤ fuel) : scanClosing s s.length (fuel + 1) j = .ok (closingFrom s fuel j) := by
  induction fuel generalizing j with
  | zero =>
      rw [scanClosing, if_neg (by omega), closingFrom]
      rfl
  | succ fuel inductionHypothesis =>
      rw [scanClosing, closingFrom]
      by_cases inside : j < s.length
      · rw [if_pos inside, fetch_getD Stray.outside inside 0]
        dsimp only [bind, Except.bind]
        by_cases closes : s.getD j 0 = closeBrace
        · rw [if_neg (not_not_intro closes), if_neg fun goesOn => goesOn.2 closes]
          rfl
        · rw [if_pos closes, if_pos ⟨inside, closes⟩, Nat.mod_eq_of_lt (by omega)]
          exact inductionHypothesis (by omega)
      · rw [if_neg inside, if_neg fun goesOn => inside goesOn.1]
        rfl

theorem closingAt_eq {s : Bytes} (narrow : s.length < wordModulus) {i : Nat} (inside : i < s.length) :
    closingAt s s.length i =
      .ok (if OpensAt s i then some (closingFrom s s.length (i + 2)) else none) := by
  have step : (i + 1) % wordModulus = i + 1 := Nat.mod_eq_of_lt (by omega)
  rw [closingAt, fetch_getD Stray.outside inside 0, step]
  dsimp only [bind, Except.bind]
  by_cases first : s.getD i 0 = dollar ∧ i + 1 < s.length
  · rw [if_pos first, fetch_getD Stray.outside first.2 0]
    dsimp only
    by_cases second : s.getD (i + 1) 0 = openBrace
    · have start : (i + 2) % wordModulus = i + 2 := Nat.mod_eq_of_lt (by omega)
      rw [if_pos second, start, scanClosing_eq narrow (Nat.sub_le ..)]
      dsimp only
      by_cases closes : closingFrom s s.length (i + 2) < s.length
      · rw [if_pos closes, if_pos ⟨⟨first.1, first.2, second⟩, closes⟩]
        rfl
      · rw [if_neg closes, if_neg fun opens => closes opens.2]
        rfl
    · rw [if_neg second, if_neg fun opens => second opens.1.2.2]
      rfl
  · rw [if_neg first, if_neg fun opens => first ⟨opens.1.1, opens.1.2.1⟩]
    rfl

section Buffer

variable {old : Bytes} {text : Bytes}

/-- `resolved` when the text has been written to it.  Behind the text it holds
what it held before. -/
def written (text old : Bytes) : Bytes :=
  text ++ old.drop text.length

theorem put_written (size : old.length = resolvedSize) (room : text.length < resolvedSize - 1) (letter : UInt8) :
    put Stray.outside (written text old) text.length letter = .ok (written (text ++ [letter]) old) :=
  put_behind Stray.outside (Nat.lt_of_lt_of_le room (size ▸ Nat.sub_le ..)) letter

/-- The text with the value inserted from an index on, up to the bound of the
buffer. -/
def inserted (value : Bytes) (k : Nat) (text : Bytes) : Bytes :=
  text ++ (value.drop k).take (resolvedSize - 1 - text.length)

theorem inserted_next {value : Bytes} {k : Nat} (inside : k < value.length)
    (room : text.length < resolvedSize - 1) : inserted value (k + 1) (text ++ [value[k]]) = inserted value k text := by
  have less : resolvedSize - 1 - text.length = resolvedSize - 1 - (text.length + 1) + 1 := by omega
  rw [inserted, inserted, less, List.length_append, List.length_singleton, List.drop_eq_getElem_cons inside,
    List.take_succ_cons, List.append_assoc]
  rfl

theorem inserted_ended {value : Bytes} {k : Nat} (ended : ¬ (k < value.length ∧ text.length < resolvedSize - 1)) :
    inserted value k text = text := by
  have nothing : (value.drop k).take (resolvedSize - 1 - text.length) = [] := by
    rw [List.take_eq_nil_iff, List.drop_eq_nil_iff]
    omega
  rw [inserted, nothing, List.append_nil]

theorem length_inserted (value : Bytes) (k : Nat) (bound : text.length ≤ resolvedSize - 1) :
    (inserted value k text).length ≤ resolvedSize - 1 := by
  rw [inserted, List.length_append, List.length_take]
  omega

/-- The copy of a value stops at its end or at the bound of the buffer. -/
theorem insertValue_eq (size : old.length = resolvedSize) (value : Bytes) {fuel k : Nat}
    (enough : value.length - k ≤ fuel) (behind : k ≤ text.length) :
    insertValue value value.length (fuel + 1) k text.length (written text old) =
      .ok ((inserted value k text).length, written (inserted value k text) old) := by
  induction fuel generalizing k text with
  | zero =>
      have ended : ¬ (k < value.length ∧ text.length < resolvedSize - 1) := by omega
      rw [insertValue, if_neg ended, inserted_ended ended]
      rfl
  | succ fuel inductionHypothesis =>
      rw [insertValue]
      by_cases running : k < value.length ∧ text.length < resolvedSize - 1
      · have small : k + 1 < wordModulus :=
          Nat.lt_of_le_of_lt (Nat.succ_le_of_lt (Nat.lt_of_le_of_lt behind running.2)) (by decide)
        have longer : (text ++ [value[k]]).length = text.length + 1 := List.length_append
        have later := @inductionHypothesis (text ++ [value[k]]) (k + 1) (by omega) (by omega)
        rw [inserted_next running.1 running.2, longer] at later
        rw [if_pos running, fetch_of_getElem? _ (List.getElem?_eq_getElem running.1)]
        dsimp only [bind, Except.bind]
        rw [put_written size running.2]
        dsimp only
        rw [Nat.mod_eq_of_lt small, later]
      · rw [if_neg running, inserted_ended running]
        rfl

theorem insertReference_eq (size : old.length = resolvedSize) {p : CfgProfile} {name : Bytes}
    (clear : findEntry p name ≠ .nullName) :
    insertReference p name text.length (written text old) =
      .ok ((inserted (valueNamed p name) 0 text).length, written (inserted (valueNamed p name) 0 text) old) := by
  have nothing : inserted [] 0 text = text := inserted_ended fun running => Nat.not_lt_zero _ running.1
  rw [insertReference]
  cases search : findEntry p name with
  | nullName => exact absurd search clear
  | absent =>
      rw [valueNamed_of_absent search, nothing]
      rfl
  | found ref =>
      rw [valueNamed_of_found search]
      dsimp only
      cases valued : ref.value with
      | none =>
          rw [Option.getD_none, nothing]
          rfl
      | some value =>
          dsimp only
          rw [← ref.sized value valued, Option.getD_some]
          exact insertValue_eq size value (Nat.sub_le ..) (Nat.zero_le _)

/-- The checked loop does what the loop does, and leaves no buffer.  The
cursors do not wrap, as a value is shorter than the word. -/
theorem expandFrom_eq (size : old.length = resolvedSize) {p : CfgProfile} {s : Bytes}
    (narrow : s.length < wordModulus) {fuel i : Nat} (enough : s.length - i ≤ fuel)
    (bound : text.length ≤ resolvedSize - 1) :
    expandFrom p s s.length (fuel + 1) i text.length (written text old) =
      match resolveFrom p s fuel i text with
      | none => .error .nullName
      | some built => .ok (built.length, written built old) := by
  induction fuel generalizing i text with
  | zero =>
      rw [expandFrom, if_neg (by omega), resolveFrom]
      rfl
  | succ fuel inductionHypothesis =>
      rw [expandFrom]
      by_cases running : i < s.length ∧ text.length < resolvedSize - 1
      · rw [if_pos running, closingAt_eq narrow running.1]
        dsimp only [bind, Except.bind]
        by_cases opens : OpensAt s i
        · have advanced := le_closingFrom s s.length (i + 2)
          have closes : closingFrom s s.length (i + 2) < s.length := opens.2
          have within : i + 2 + (closingFrom s s.length (i + 2) - (i + 2)) ≤ s.length := by omega
          have next : (closingFrom s s.length (i + 2) + 1) % wordModulus = closingFrom s s.length (i + 2) + 1 :=
            Nat.mod_eq_of_lt (by omega)
          rw [if_pos opens]
          dsimp only
          rw [fetchSlice_of_le _ within]
          dsimp only
          by_cases null : findEntry p (slice s (i + 2) (closingFrom s s.length (i + 2) - (i + 2))) = .nullName
          · rw [resolveFrom_nullName running opens null, insertReference, null]
          · rw [insertReference_eq size null, resolveFrom_reference running opens null, next]
            exact inductionHypothesis (by omega) (length_inserted _ 0 bound)
        · have next : (i + 1) % wordModulus = i + 1 := Nat.mod_eq_of_lt (by omega)
          have longer : (text ++ [s.getD i 0]).length = text.length + 1 := List.length_append
          rw [if_neg opens]
          dsimp only
          rw [fetch_getD Stray.outside running.1 0]
          dsimp only
          rw [put_written size running.2]
          dsimp only
          rw [resolveFrom_letter running opens, next, ← longer]
          exact inductionHypothesis (by omega) (longer.trans_le running.2)
      · rw [if_neg running, resolveFrom_ended running]
        rfl

end Buffer

/-! ## The whole expansion -/

/-- For every value and every prior content of `resolved`, the front of the
expansion is built within the buffers exactly when no search that the loop
makes meets an entry without a name. -/
theorem buildsText_iff (p : CfgProfile) {e : CfgEntry} {s : Bytes} (valued : e.value = some s)
    (narrow : e.valueLen < wordModulus) (resolved : Field resolvedSize) :
    BuildsText p e s resolved ↔ Unobstructed p s := by
  have outcome := resolve_outcome p s
  constructor
  · intro builds
    by_contra obstructed
    exact Option.some_ne_none _ (builds.text.symm.trans (outcome.2 obstructed))
  · intro clear
    have text := outcome.1 clear
    refine ⟨text, written ((expansion p s).take (resolvedSize - 1) ++ [0]) resolved.1, ?_, ?_, ?_⟩
    · have length : ((expansion p s).take (resolvedSize - 1)).length =
          min (resolvedSize - 1) (expansion p s).length := List.length_take
      have room : ((expansion p s).take (resolvedSize - 1)).length < resolved.1.length := by
        rw [resolved.2]
        exact Nat.lt_of_le_of_lt (length.trans_le (Nat.min_le_left ..)) (by decide)
      have sized := e.sized s valued
      have looped := @expandFrom_eq resolved.1 [] resolved.2 p s (sized.trans_lt narrow) s.length 0
        (Nat.sub_le ..) (Nat.zero_le _)
      rw [show resolveFrom p s s.length 0 [] = some _ from text] at looped
      have terminated := put_behind Stray.outside room 0
      rw [expandChecked, ← sized]
      dsimp only [bind, Except.bind]
      rw [show expandFrom p s s.length (s.length + 1) 0 0 resolved.1 = _ from looped]
      dsimp only
      rw [show put Stray.outside (written _ resolved.1) _ 0 = _ from terminated, ← length]
      rfl
    · have bound : ((expansion p s).take (resolvedSize - 1) ++ [0]).length ≤ resolved.1.length := by
        rw [List.length_append, List.length_take, List.length_singleton, resolved.2]
        exact Nat.succ_le_succ (Nat.min_le_left ..)
      rw [written, List.length_append, List.length_drop, Nat.add_sub_cancel' bound, resolved.2]
    · exact List.prefix_append ..

theorem findFrom_named {entries : List CfgEntry} (named : AllNamed entries) (key : Bytes) :
    findFrom key entries ≠ .nullName := by
  induction entries with
  | nil =>
      intro null
      cases null
  | cons e rest inductionHypothesis =>
      rw [findFrom]
      cases present : e.name with
      | none => exact absurd present (named e List.mem_cons_self)
      | some name =>
          dsimp only
          split
          · intro null
            cases null
          · exact inductionHypothesis fun other member => named other (List.mem_cons_of_mem e member)

/-- Where every entry has its name, every template is expanded.  A bundle that
was parsed has all of them; a merge can lose one. -/
theorem unobstructed_of_named {p : CfgProfile} (named : AllNamed p.head) (s : Bytes) : Unobstructed p s :=
  fun _ name _ _ _ => findFrom_named named name

def lineEntry (text : Bytes) : CfgEntry :=
  ⟨some (.ofBlock (ascii "line" ++ [0])), cfgTemplate, text.length, some text, 0, sized_self text⟩

def clearResolved : Field resolvedSize :=
  ⟨List.replicate resolvedSize 0, List.length_replicate⟩

/-- The template `hello ${name}`. -/
theorem welcomeProfile_buildsText :
    BuildsText welcomeProfile (lineEntry (ascii "hello ${name}")) (ascii "hello ${name}") clearResolved := by
  apply (buildsText_iff welcomeProfile rfl (by decide) clearResolved).mpr
  apply unobstructed_of_named
  intro e member
  rcases List.mem_pair.mp member with rfl | rfl
  · exact Option.some_ne_none _
  · exact Option.some_ne_none _

/-- `CfgMerge` adds an entry without a name, and reports success. -/
theorem namelessCopy_obstructs :
    exists p, cfgMerge (some ⟨[lineEntry (ascii "${x}")], 1⟩) (some (greetingProfile (ascii "hello")))
        (fun _ => { granted with name := false }) = (cfgOk, some p) ∧
      forall resolved, ¬ BuildsText p (lineEntry (ascii "${x}")) (ascii "${x}") resolved := by
  refine ⟨_, rfl, fun resolved builds => ?_⟩
  have stuck : resolve ⟨[lineEntry (ascii "${x}"),
      copyEntry { granted with name := false } (greetingEntry (ascii "hello"))], 2⟩ (ascii "${x}") = none := rfl
  cases stuck.symm.trans builds.text

end Cascade
end BugMuseum
