import BugMuseum.Foundation.DigitPairs
import BugMuseum.Foundation.PaddedCopies
import BugMuseum.Cascade.TemplateText

namespace BugMuseum
namespace Cascade

open Foundation

/-!
# Profiles from the registry

`provider_reg` makes an entry of each text value under a key.  The values are read into one
buffer of 4096 bytes, which keeps what earlier values left behind a shorter one, and a text is
copied to a buffer of 128 wide characters.  The length of a value is counted in bytes, but the
copy takes it for a number of wide characters.
-/

/-- A wide character: its two bytes, the lower one first. -/
abbrev Wchar := UInt8 × UInt8

def wnul : Wchar := (0, 0)

/-- The wide characters in a buffer of bytes.  A last byte without a second
one is none. -/
def wides (bytes : Bytes) : List Wchar :=
  decodePairs (fun low high => some (low, high)) bytes

/-- The bytes of a buffer of wide characters. -/
def wideBytes (text : List Wchar) : Bytes :=
  text.flatMap fun letter => [letter.1, letter.2]

/-- An ASCII text in wide characters. -/
def wideAscii (text : String) : List Wchar :=
  (ascii text).map fun byte => (byte, 0)

/-- `REG_SZ` -/
def regSz : Nat := 1

/-- What one call of `RegEnumValueW` yields.  A call that fails may have
written to the buffer. -/
inductive EnumResult where
  | value (name : List Wchar) (type : Nat) (data : Bytes) (fits : data.length ≤ 4096)
  | failed (left : Bytes)

/-- What the provider does not decide: the conversion of names, and which
allocations succeed. -/
structure ProviderEnv where
  multiByte : List Wchar -> Int × Bytes   -- the result of `WideCharToMultiByte`, and what it writes
  profile : Bool
  grant : Nat -> EntryGrant               -- for each call of `RegEnumValueW`

/-- What the stack holds: at the start of the loop, and at the declarations in
its body. -/
structure RegStack where
  data : Field 4096
  wbuf : Nat -> { buffer : List Wchar // buffer.length = 128 }
  nname : Nat -> Field 256

def stripRoot (spec : List Wchar) : List Wchar :=
  if (wideAscii "HKCU\\").isPrefixOf spec then spec.drop 5
  else if (wideAscii "HKEY_CURRENT_USER\\").isPrefixOf spec then spec.drop 18
  else spec

/-- The string that `narrow` leaves in its buffer.  It is terminated in any
case, if only at its end. -/
def narrow (env : ProviderEnv) (w : List Wchar) (out : Field 256) : CStr :=
  let n := env.multiByte w
  let written := overwrite out.1 0 n.2
  let checked := if n.1 ≤ 0 then written.set 0 0 else written
  .ofBlock (checked.set 255 0)

/-- `wcsncpy(wbuf, data, cb)`, and the bytes of `wbuf` that are given to
`CfgAdd`, with their number.  Here `cb` counts bytes. -/
def normalizeValue (data : Bytes) (cb : Nat) (wbuf : List Wchar) : Except Stray ((size : Nat) × Field size) := do
  let wbuf ← copyPadded .outside wnul (wides data) wbuf cb
  let length ← lengthToNul .outside wnul wbuf
  let value ← fetchField .outside (wideBytes wbuf) ((length + 1) * 2)
  return ⟨_, value⟩

/-- The loop over the values, from a call of `RegEnumValueW` on.  The buffer
of the data is the same in all turns. -/
def importFrom (env : ProviderEnv) (stack : RegStack) : Nat -> Bytes -> List EnumResult -> CfgProfile ->
    Except Stray CfgProfile
  | _, _, [], p => .ok p
  | i, data, .failed left :: rest, p => importFrom env stack (i + 1) (overwrite data 0 left) rest p
  | i, data, .value name type own _ :: rest, p =>
      if type = regSz then do
        let value ← normalizeValue (overwrite data 0 own) own.length (stack.wbuf i).1
        let nname := narrow env name (stack.nname i)
        let added := cfgAdd (some p) (some nname) cfgWstr (some value.2) (env.grant i)
        importFrom env stack (i + 1) (overwrite data 0 own) rest (added.2.getD p)
      else importFrom env stack (i + 1) (overwrite data 0 own) rest p

/-- `ProviderLoad`, given what a key yields, if it can be opened, until there
are no more items. -/
def providerLoad (env : ProviderEnv) (stack : RegStack) (registry : List Wchar -> Option (List EnumResult))
    (spec : Option (List Wchar)) (out : Option (Option CfgProfile)) :
    Except Stray (Int × Option (Option CfgProfile)) :=
  match spec, out with
  | some spec, some old =>
      match registry (stripRoot spec) with
      | none => .ok (cfgEio, some old)
      | some results =>
          if !env.profile then .ok (cfgEnomem, some old)
          else do
            let p ← importFrom env stack 0 stack.data.1 results cfgNew
            return (cfgOk, some (some p))
  | _, _ => .ok (cfgEio, out)

/-! ## What is to hold -/

/-- The bytes of the text value that a call yields.  Values of other types are
passed over. -/
def EnumResult.text : EnumResult -> Option Bytes
  | .value _ type data _ => if type = regSz then some data else none
  | .failed _ => none

/-- The bytes of all text values. -/
def texts (results : List EnumResult) : List Bytes :=
  results.filterMap EnumResult.text

/-- From a key that yields these results, this profile is loaded. -/
def Imports (env : ProviderEnv) (stack : RegStack) (results : List EnumResult) (p : CfgProfile) : Prop :=
  forall registry spec old, registry (stripRoot spec) = some results ->
    providerLoad env stack registry (some spec) (some old) = .ok (cfgOk, some (some p))

/-- There is one entry for each text value, and no other entry. -/
def OneEach (results : List EnumResult) (p : CfgProfile) : Prop :=
  p.head.map CfgEntry.type = List.replicate (texts results).length cfgWstr

/-- The text of an entry. -/
def CfgProfile.textAt (p : CfgProfile) (i : Nat) : Option Bytes :=
  p.head[i]?.bind CfgEntry.value

/-- Every load succeeds inside its buffers and makes one entry for each text
value.  The text of an entry is the same wherever a value has the same bytes:
whatever the stack holds, and whatever other values there are. -/
structure KeptApart (env : ProviderEnv) (results : List EnumResult) : Prop where
  imported : forall stack, exists p, Imports env stack results p ∧ OneEach results p
  own : forall stack p env' stack' results' p', Imports env stack results p -> Imports env' stack' results' p' ->
    OneEach results' p' -> forall i i' data, (texts results)[i]? = some data -> (texts results')[i']? = some data ->
      p.textAt i = p'.textAt i'

/-- The value has a terminator among its own bytes, and no more bytes than the
buffer has characters. -/
def EndsItself (data : Bytes) : Prop :=
  data.length ≤ 128 ∧ wnul ∈ wides data

instance (data : Bytes) : Decidable (EndsItself data) :=
  inferInstanceAs (Decidable (_ ∧ _))

def EntryGrant.Whole (grant : EntryGrant) : Prop :=
  grant.entry = true ∧ grant.name = true ∧ grant.value = true

/-- The entries of all text values are allocated, with their names and
values. -/
def AllWhole (grant : Nat -> EntryGrant) (results : List EnumResult) : Prop :=
  forall j result, results[j]? = some result -> result.text ≠ none -> (grant j).Whole

/-- The profile is allocated, every text value ends itself, and its entry is
allocated.  All of it can be said before the provider is called. -/
structure Importable (env : ProviderEnv) (results : List EnumResult) : Prop where
  profile : env.profile = true
  ends : forall data, data ∈ texts results -> EndsItself data
  grant : AllWhole env.grant results

theorem wides_cons (low high : UInt8) (rest : Bytes) : wides (low :: high :: rest) = (low, high) :: wides rest :=
  decodePairs_cons rfl rest

theorem wides_append (own behind : Bytes) : wides (own ++ behind) = wides own ++ wides (unpaired own ++ behind) :=
  decodePairs_append (fun _ _ => Option.some_ne_none _) own behind

theorem wideBytes_cons (letter : Wchar) (rest : List Wchar) :
    wideBytes (letter :: rest) = letter.1 :: letter.2 :: wideBytes rest :=
  rfl

theorem wideBytes_append (front behind : List Wchar) :
    wideBytes (front ++ behind) = wideBytes front ++ wideBytes behind :=
  List.flatMap_append

theorem wideBytes_length (text : List Wchar) : (wideBytes text).length = text.length * 2 := by
  induction text with
  | nil => rfl
  | cons letter rest inductionHypothesis =>
      rw [wideBytes_cons, List.length_cons, List.length_cons, List.length_cons, inductionHypothesis]
      omega

theorem wides_wideBytes (text : List Wchar) : wides (wideBytes text) = text := by
  induction text with
  | nil => rfl
  | cons letter rest inductionHypothesis => rw [wideBytes_cons, wides_cons, inductionHypothesis]

theorem wides_replicate (n : Nat) : wides (List.replicate n 0) = List.replicate (n / 2) wnul := by
  match n with
  | 0 => rfl
  | 1 => rfl
  | n + 2 =>
      have half : (n + 2) / 2 = n / 2 + 1 := Nat.add_div_right n (by decide)
      rw [List.replicate_succ, List.replicate_succ, wides_cons, wides_replicate n, half, List.replicate_succ]
      rfl

theorem terminated_length (text : List Wchar) : (wideBytes (text ++ [wnul])).length = (text.length + 1) * 2 := by
  rw [wideBytes_length, List.length_append, List.length_singleton]

/-- A text with its terminator, as it is stored. -/
def textValue (text : List Wchar) : (size : Nat) × Field size :=
  ⟨(text.length + 1) * 2, wideBytes (text ++ [wnul]), terminated_length text⟩

/-- When the buffer holds a terminator after the copy, the text in front of it
is stored. -/
theorem normalizeValue_eq {data : Bytes} {cb : Nat} {wbuf buffer : List Wchar}
    (copied : copyPadded .outside wnul (wides data) wbuf cb = (.ok buffer : Except Stray _))
    (terminated : wnul ∈ buffer) : normalizeValue data cb wbuf = .ok (textValue (untilNul wnul buffer)) := by
  rcases eq_untilNul_append terminated with ⟨rest, split⟩
  have length := lengthToNul_of_mem Stray.outside terminated
  generalize untilNul wnul buffer = text at split length ⊢
  have whole : wideBytes buffer = (textValue text).2.1 ++ wideBytes rest := by
    rw [textValue, ← wideBytes_append, List.append_assoc]
    exact congrArg wideBytes split
  rw [normalizeValue, copied]
  dsimp only [bind, Except.bind]
  rw [length, whole]
  dsimp only
  have field := fetchField_append Stray.outside (textValue text).2 (wideBytes rest)
  rw [show fetchField Stray.outside _ ((text.length + 1) * 2) = _ from field]
  rfl

/-- The text of the data is stored, if a terminator is copied with it or
stands behind the copy. -/
theorem normalizeValue_copied {data : Bytes} {cb : Nat} {wbuf : List Wchar} (room : cb ≤ wbuf.length)
    (terminated : wnul ∈ wides data) (fits : (untilNul wnul (wides data)).length ≤ cb)
    (closed : (untilNul wnul (wides data)).length < cb ∨ (wbuf.drop cb).head? = some wnul) :
    normalizeValue data cb wbuf = .ok (textValue (untilNul wnul (wides data))) := by
  have copied := @copyPadded_eq _ _ Stray.outside wnul _ (wides data) wbuf cb
  rcases paddedTo_append fits closed with ⟨rest, split⟩
  rw [if_pos ⟨room, Or.inr terminated⟩, split] at copied
  rw [normalizeValue_eq copied (List.mem_append_right _ List.mem_cons_self), untilNul_append_nul,
    untilNul_clean (nul_not_mem_untilNul _)]

/-- The text of a value that ends itself, with its terminator.  Nothing but
the value enters into it. -/
def ownValue (data : Bytes) : (size : Nat) × Field size :=
  textValue (untilNul wnul (wides data))

theorem normalizeValue_own {own behind : Bytes} {wbuf : List Wchar} (ends : EndsItself own)
    (size : wbuf.length = 128) : normalizeValue (own ++ behind) own.length wbuf = .ok (ownValue own) := by
  have read : untilNul wnul (wides (own ++ behind)) = untilNul wnul (wides own) := by
    rw [wides_append]
    exact untilNul_terminated ends.2 _
  have member : wnul ∈ wides (own ++ behind) := by
    rw [wides_append]
    exact List.mem_append_left _ ends.2
  have shorter : (untilNul wnul (wides own)).length < own.length := by
    rcases eq_untilNul_append ends.2 with ⟨rest, split⟩
    have pairs : 2 * (wides own).length ≤ own.length := length_decodePairs own
    have length := congrArg List.length split
    rw [List.length_append, List.length_cons] at length
    omega
  have copied := @normalizeValue_copied (own ++ behind) own.length wbuf (ends.1.trans size.ge) member
  rw [read] at copied
  exact copied (Nat.le_of_lt shorter) (Or.inl shorter)

/-- More bytes than the buffer has characters are never copied inside it. -/
theorem normalizeValue_bound {data : Bytes} {cb : Nat} {wbuf : List Wchar} {value : (size : Nat) × Field size}
    (size : wbuf.length = 128)
    (ok : normalizeValue data cb wbuf = .ok value) : cb ≤ 128 := by
  rcases bind_eq_ok.mp ok with ⟨buffer, copied, _⟩
  rw [copyPadded_eq] at copied
  split at copied
  · rename_i inside
    exact inside.1.trans size.le
  · cases copied

/-- The character in which the last byte of a value meets the byte behind
it. -/
def straddling (own : Bytes) (stale : UInt8) : Wchar :=
  match unpaired own with
  | [] => (stale, 0)
  | last :: _ => (last, stale)

theorem straddling_ne (own : Bytes) : straddling own 0 ≠ straddling own 1 ∧ straddling own 1 ≠ wnul := by
  rw [straddling, straddling]
  cases unpaired own with
  | nil => decide
  | cons last _ =>
      constructor
      · intro same
        cases congrArg Prod.snd same
      · intro same
        cases congrArg Prod.snd same

/-- The characters of a value, with one byte and zeros behind it.  An odd
value shares a character with that byte. -/
theorem wides_stale (own : Bytes) (stale : UInt8) (zeros : Nat) :
    exists n, wides (own ++ stale :: List.replicate (zeros + 3) 0) =
      wides own ++ straddling own stale :: List.replicate (n + 1) wnul := by
  rw [wides_append, straddling]
  rcases unpaired_cases own with even | ⟨last, odd⟩
  · have half : (zeros + 2) / 2 = zeros / 2 + 1 := Nat.add_div_right zeros (by decide)
    rw [even, List.nil_append, List.replicate_succ, wides_cons, wides_replicate, half]
    exact ⟨_, rfl⟩
  · have half : (zeros + 1 + 2) / 2 = (zeros + 1) / 2 + 1 := Nat.add_div_right (zeros + 1) (by decide)
    rw [odd, List.singleton_append, wides_cons, wides_replicate, half]
    exact ⟨_, rfl⟩

/-- When nothing is copied, the buffer keeps the character that it held. -/
theorem normalizeValue_empty (data : Bytes) (letter : Wchar) :
    normalizeValue data 0 (letter :: List.replicate 127 wnul) = .ok (textValue (untilNul wnul [letter])) := by
  have copied := @copyPadded_eq _ _ Stray.outside wnul _ (wides data) (letter :: List.replicate 127 wnul) 0
  rw [if_pos ⟨Nat.zero_le _, Or.inl (Nat.zero_le _)⟩, paddedTo, List.take_zero, Nat.zero_sub] at copied
  rw [normalizeValue_eq copied (List.mem_cons_of_mem _ List.mem_cons_self)]
  exact congrArg (fun text => Except.ok (textValue text)) (untilNul_append_nul [letter] (List.replicate 126 wnul))

/-- The text of a value that does not end itself, when one byte and zeros
follow it and the buffer held one character. -/
theorem normalizeValue_stale {own : Bytes} (short : own.length ≤ 128) (stale : UInt8) :
    normalizeValue (own ++ stale :: List.replicate (4095 - own.length) 0) own.length
        ((stale, 0) :: List.replicate 127 wnul) =
      .ok (textValue (untilNul wnul (wides own ++ [straddling own stale]))) := by
  have room : 4095 - own.length = (4092 - own.length) + 3 := by omega
  rcases wides_stale own stale (4092 - own.length) with ⟨n, source⟩
  rw [← room, List.replicate_succ, List.append_cons (wides own)] at source
  have read : untilNul wnul (wides (own ++ stale :: List.replicate (4095 - own.length) 0)) =
      untilNul wnul (wides own ++ [straddling own stale]) := by
    rw [source, untilNul_append_nul]
  have member : wnul ∈ wides (own ++ stale :: List.replicate (4095 - own.length) 0) := by
    rw [source]
    exact List.mem_append_right _ List.mem_cons_self
  cases own with
  | nil => exact normalizeValue_empty _ (stale, 0)
  | cons first rest =>
      have pairs : 2 * (wides (first :: rest)).length ≤ (first :: rest).length := length_decodePairs (first :: rest)
      have bound := @untilNul_length_le _ _ wnul (wides (first :: rest) ++ [straddling (first :: rest) stale])
      rw [List.length_append, List.length_singleton] at bound
      have size : ((stale, (0 : UInt8)) :: List.replicate 127 wnul).length = 128 := by
        rw [List.length_cons, List.length_replicate]
      have copied := normalizeValue_copied (short.trans size.ge) member
      rw [read] at copied
      rw [List.length_cons] at pairs short
      apply copied
      · rw [List.length_cons]
        omega
      · -- the buffer is full only of a text that is half as long
        rw [List.length_cons, List.drop_succ_cons, List.drop_replicate]
        rcases Nat.eq_or_lt_of_le short with full | shorter
        · exact Or.inl (by omega)
        · right
          rw [List.head?_replicate, if_neg (by omega)]

theorem allWhole_cons {grant : Nat -> EntryGrant} {i : Nat} {result : EnumResult} {rest : List EnumResult} :
    AllWhole (fun j => grant (i + j)) (result :: rest) ↔
      (result.text ≠ none -> (grant i).Whole) ∧ AllWhole (fun j => grant (i + 1 + j)) rest := by
  have shift : forall j, grant (i + (j + 1)) = grant (i + 1 + j) := fun j => by
    rw [Nat.add_right_comm, Nat.add_assoc]
  rw [AllWhole, forall_place_cons]
  simp only [shift]
  rfl

def valueEntry (name : CStr) (value : (size : Nat) × Field size) : CfgEntry :=
  ⟨some name, cfgWstr, value.1, some value.2.1, 0, sized_some value.2.2⟩

/-- `CfgAdd` adds the entry, or leaves the profile alone. -/
theorem cfgAdd_value (p : CfgProfile) (name : CStr) (value : (size : Nat) × Field size) (grant : EntryGrant) :
    ((grant.Whole ∧
        (cfgAdd (some p) (some name) cfgWstr (some value.2) grant).2.getD p =
          appendEntry p (valueEntry name value)) ∨
      (¬ grant.Whole ∧
        (cfgAdd (some p) (some name) cfgWstr (some value.2) grant).2.getD p = p)) := by
  rcases grant with ⟨entry, named, valued⟩
  rw [cfgAdd, EntryGrant.Whole]
  cases entry <;> cases named <;> cases valued <;> simp [valueEntry]

/-- An entry for a value, and the text of the value if that ends itself. -/
structure HoldsText (data : Bytes) (e : CfgEntry) : Prop where
  type : e.type = cfgWstr
  text : EndsItself data -> e.value = some (ownValue data).2.1

/-- What a load leaves that stays inside its buffers: at most one entry for
each text value, and all of them when all are allocated. -/
structure Loaded (env : ProviderEnv) (i : Nat) (results : List EnumResult) (entries : List CfgEntry) : Prop where
  bounded : forall data, data ∈ texts results -> data.length ≤ 128
  atMost : entries.length ≤ (texts results).length
  complete : entries.length = (texts results).length ↔ AllWhole (fun j => env.grant (i + j)) results
  holds : entries.length = (texts results).length -> List.Forall₂ HoldsText (texts results) entries

section Turn

variable {env : ProviderEnv} {i : Nat} {result : EnumResult} {rest : List EnumResult} {entries : List CfgEntry}

/-- A call without a text value adds nothing. -/
theorem Loaded.skip (loaded : Loaded env (i + 1) rest entries) (other : result.text = none) :
    Loaded env i (result :: rest) entries := by
  have same : texts (result :: rest) = texts rest := List.filterMap_cons_none other
  refine ⟨?_, ?_, ?_, ?_⟩
  · rw [same]
    exact loaded.bounded
  · rw [same]
    exact loaded.atMost
  · rw [same, loaded.complete, allWhole_cons]
    exact (and_iff_right fun text => absurd other text).symm
  · rw [same]
    exact loaded.holds

theorem Loaded.add (loaded : Loaded env (i + 1) rest entries) {data : Bytes} (text : result.text = some data)
    (bound : data.length ≤ 128) (whole : (env.grant i).Whole) {e : CfgEntry} (holds : HoldsText data e) :
    Loaded env i (result :: rest) (e :: entries) := by
  have more : texts (result :: rest) = data :: texts rest := List.filterMap_cons_some text
  refine ⟨?_, ?_, ?_, ?_⟩
  · rw [more]
    exact List.forall_mem_cons.mpr ⟨bound, loaded.bounded⟩
  · rw [more]
    exact Nat.succ_le_succ loaded.atMost
  · rw [more, List.length_cons, List.length_cons, Nat.succ_inj, loaded.complete, allWhole_cons]
    exact (and_iff_right fun _ => whole).symm
  · rw [more, List.length_cons, List.length_cons, Nat.succ_inj]
    exact fun all => .cons holds (loaded.holds all)

/-- A value whose entry is not allocated is lost, and the load goes on. -/
theorem Loaded.lose (loaded : Loaded env (i + 1) rest entries) {data : Bytes} (text : result.text = some data)
    (bound : data.length ≤ 128) (refused : ¬ (env.grant i).Whole) : Loaded env i (result :: rest) entries := by
  have more : texts (result :: rest) = data :: texts rest := List.filterMap_cons_some text
  have fewer : entries.length ≠ (texts (result :: rest)).length := by
    rw [more, List.length_cons]
    exact Nat.ne_of_lt (Nat.lt_succ_of_le loaded.atMost)
  refine ⟨?_, ?_, ?_, fun all => absurd all fewer⟩
  · rw [more]
    exact List.forall_mem_cons.mpr ⟨bound, loaded.bounded⟩
  · rw [more]
    exact Nat.le_succ_of_le loaded.atMost
  · apply iff_of_false fewer
    rw [allWhole_cons]
    intro all
    exact refused (all.1 (by rw [text]; exact Option.some_ne_none data))

end Turn

theorem importFrom_ok {env : ProviderEnv} {stack : RegStack} {i : Nat} {data : Bytes} {results : List EnumResult}
    {p q : CfgProfile} (size : data.length = 4096) (ok : importFrom env stack i data results p = .ok q) :
    exists entries, q.head = p.head ++ entries ∧ Loaded env i results entries := by
  induction results generalizing i data p with
  | nil =>
      cases ok
      refine ⟨[], (List.append_nil _).symm, List.forall_mem_nil _, Nat.le_refl _, iff_of_true rfl ?_, fun _ => .nil⟩
      intro j result standing
      cases standing
  | cons result rest inductionHypothesis =>
      cases result with
      | failed left =>
          rcases inductionHypothesis ((overwrite_length ..).trans size) ok with ⟨entries, head, loaded⟩
          exact ⟨entries, head, loaded.skip rfl⟩
      | value name type own fits =>
          have kept : (overwrite data 0 own).length = 4096 := (overwrite_length ..).trans size
          rw [importFrom] at ok
          by_cases sz : type = regSz
          · have text : (EnumResult.value name type own fits).text = some own := if_pos sz
            rw [if_pos sz] at ok
            rcases bind_eq_ok.mp ok with ⟨value, normalized, later⟩
            have bound := normalizeValue_bound (stack.wbuf i).2 normalized
            rcases inductionHypothesis kept later with ⟨entries, head, loaded⟩
            have holds : HoldsText own (valueEntry (narrow env name (stack.nname i)) value) := by
              refine ⟨rfl, fun ends => ?_⟩
              rw [overwrite_zero (fits.trans size.ge), normalizeValue_own ends (stack.wbuf i).2] at normalized
              cases normalized
              rfl
            rcases cfgAdd_value p (narrow env name (stack.nname i)) value (env.grant i) with
              ⟨whole, added⟩ | ⟨refused, unchanged⟩
            · rw [added, appendEntry_head, List.append_assoc] at head
              exact ⟨_, head, loaded.add text bound whole holds⟩
            · rw [unchanged] at head
              exact ⟨entries, head, loaded.lose text bound refused⟩
          · rw [if_neg sz] at ok
            rcases inductionHypothesis kept ok with ⟨entries, head, loaded⟩
            exact ⟨entries, head, loaded.skip (if_neg sz)⟩

/-- When every text value ends itself, the load stays inside its buffers,
whatever the earlier values left there. -/
theorem importFrom_succeeds (env : ProviderEnv) (stack : RegStack) (i : Nat) {data : Bytes}
    {results : List EnumResult} (size : data.length = 4096)
    (ends : forall data, data ∈ texts results -> EndsItself data) (p : CfgProfile) :
    exists q, importFrom env stack i data results p = .ok q := by
  induction results generalizing i data p with
  | nil => exact ⟨p, rfl⟩
  | cons result rest inductionHypothesis =>
      cases result with
      | failed left => exact inductionHypothesis (i + 1) ((overwrite_length ..).trans size) ends p
      | value name type own fits =>
          have kept : (overwrite data 0 own).length = 4096 := (overwrite_length ..).trans size
          rw [importFrom]
          by_cases sz : type = regSz
          · have text : (EnumResult.value name type own fits).text = some own := if_pos sz
            have more : texts (.value name type own fits :: rest) = own :: texts rest := List.filterMap_cons_some text
            rw [more, List.forall_mem_cons] at ends
            rw [if_pos sz, overwrite_zero (fits.trans size.ge), normalizeValue_own ends.1 (stack.wbuf i).2]
            rw [overwrite_zero (fits.trans size.ge)] at kept
            exact inductionHypothesis (i + 1) kept ends.2 _
          · have other : (EnumResult.value name type own fits).text = none := if_neg sz
            have same : texts (.value name type own fits :: rest) = texts rest := List.filterMap_cons_none other
            rw [same] at ends
            rw [if_neg sz]
            exact inductionHypothesis (i + 1) kept ends p

/-! ## The provider -/

theorem imports_iff {env : ProviderEnv} {stack : RegStack} {results : List EnumResult} {p : CfgProfile} :
    Imports env stack results p ↔
      env.profile = true ∧ importFrom env stack 0 stack.data.1 results cfgNew = .ok p := by
  constructor
  · intro imports
    have loaded := imports (fun _ => some results) [] none rfl
    rw [providerLoad] at loaded
    dsimp only at loaded
    cases profile : env.profile with
    | false =>
        rw [profile] at loaded
        cases loaded
    | true =>
        rw [profile] at loaded
        rcases bind_eq_ok.mp loaded with ⟨q, imported, same⟩
        cases same
        exact ⟨rfl, imported⟩
  · rintro ⟨profile, imported⟩ registry spec old standing
    rw [providerLoad, standing]
    dsimp only
    rw [profile]
    exact bind_eq_ok.mpr ⟨p, imported, rfl⟩

section Import

variable {env : ProviderEnv} {stack : RegStack} {results : List EnumResult} {p : CfgProfile}

theorem loaded_of_imports (imports : Imports env stack results p) : Loaded env 0 results p.head := by
  rcases importFrom_ok stack.data.2 (imports_iff.mp imports).2 with ⟨entries, head, loaded⟩
  rwa [head]

theorem types_of_holds {data : List Bytes} {entries : List CfgEntry} (holds : List.Forall₂ HoldsText data entries) :
    entries.map CfgEntry.type = List.replicate data.length cfgWstr := by
  induction holds with
  | nil => rfl
  | cons first _ inductionHypothesis =>
      rw [List.map_cons, first.type, inductionHypothesis]
      rfl

theorem oneEach_iff (loaded : Loaded env 0 results p.head) : OneEach results p ↔ AllWhole env.grant results := by
  have complete := loaded.complete
  simp only [Nat.zero_add] at complete
  rw [← complete]
  constructor
  · intro each
    have length := congrArg List.length each
    rwa [List.length_map, List.length_replicate] at length
  · intro all
    exact types_of_holds (loaded.holds all)

theorem textAt_of_holds {data : List Bytes} {entries : List CfgEntry} (holds : List.Forall₂ HoldsText data entries)
    {i : Nat} {own : Bytes} (standing : data[i]? = some own) (ends : EndsItself own) :
    entries[i]?.bind CfgEntry.value = some (ownValue own).2.1 := by
  induction holds generalizing i with
  | nil => cases standing
  | cons first _ inductionHypothesis =>
      cases i with
      | zero =>
          cases standing
          exact first.text ends
      | succ i => exact inductionHypothesis standing

/-- In every complete import, a value that ends itself has its own text. -/
theorem textAt_own (imports : Imports env stack results p) (each : OneEach results p) {i : Nat} {data : Bytes}
    (standing : (texts results)[i]? = some data) (ends : EndsItself data) :
    p.textAt i = some (ownValue data).2.1 := by
  have loaded := loaded_of_imports imports
  have length := congrArg List.length each
  rw [List.length_map, List.length_replicate] at length
  exact textAt_of_holds (loaded.holds length) standing ends

theorem keptApart_of_importable (importable : Importable env results) : KeptApart env results := by
  have oneEach : forall stack p, Imports env stack results p -> OneEach results p := fun stack p imports =>
    (oneEach_iff (loaded_of_imports imports)).mpr importable.grant
  constructor
  · intro stack
    rcases importFrom_succeeds env stack 0 stack.data.2 importable.ends cfgNew with ⟨p, imported⟩
    have imports := imports_iff.mpr ⟨importable.profile, imported⟩
    exact ⟨p, imports, oneEach stack p imports⟩
  · intro stack p env' stack' results' p' imports imports' each' i i' data standing standing'
    have ends := importable.ends data (List.mem_of_getElem? standing)
    rw [textAt_own imports (oneEach stack p imports) standing ends, textAt_own imports' each' standing' ends]

end Import

/-- Names are not converted, and all allocations succeed. -/
def calmProvider : ProviderEnv where
  multiByte := fun _ => (0, [])
  profile := true
  grant := fun _ => granted

/-- The value has been read before, with one byte and zeros behind it. -/
def staleStack (data : Bytes) (short : data.length ≤ 128) (stale : UInt8) : RegStack where
  data := ⟨data ++ stale :: List.replicate (4095 - data.length) 0, by
    rw [List.length_append, List.length_cons, List.length_replicate]
    omega⟩
  wbuf := fun _ => ⟨(stale, 0) :: List.replicate 127 wnul, by rw [List.length_cons, List.length_replicate]⟩
  nname := fun _ => .ofNat 256 0

/-- The text that is stored for it, with the byte that was left behind. -/
def staleValue (data : Bytes) (stale : UInt8) : (size : Nat) × Field size :=
  textValue (untilNul wnul (wides data ++ [straddling data stale]))

def alone (data : Bytes) (short : data.length ≤ 128) : List EnumResult :=
  [.value [] regSz data (short.trans (by decide))]

theorem alone_imports {data : Bytes} (short : data.length ≤ 128) (stale : UInt8) :
    exists p, Imports calmProvider (staleStack data short stale) (alone data short) p ∧
      OneEach (alone data short) p ∧ p.textAt 0 = some (staleValue data stale).2.1 := by
  have kept : overwrite (staleStack data short stale).data.1 0 data = (staleStack data short stale).data.1 := by
    have fits : data.length ≤ (staleStack data short stale).data.1.length := by
      rw [(staleStack data short stale).data.2]
      exact short.trans (by decide)
    rw [overwrite_zero fits]
    exact congrArg (data ++ ·) List.drop_left
  refine ⟨appendEntry cfgNew (valueEntry (narrow calmProvider [] (.ofNat 256 0)) (staleValue data stale)),
    imports_iff.mpr ⟨rfl, ?_⟩, rfl, rfl⟩
  rw [alone, importFrom, if_pos rfl, kept]
  exact bind_eq_ok.mpr ⟨_, normalizeValue_stale short stale, rfl⟩

/-- The byte behind a value that does not end itself can be told from its
text. -/
theorem staleValue_ne {data : Bytes} (unended : wnul ∉ wides data) :
    (staleValue data 0).2.1 ≠ (staleValue data 1).2.1 := by
  intro same
  have texts := congrArg wides same
  rw [staleValue, staleValue, textValue, textValue, wides_wideBytes, wides_wideBytes, List.append_cancel_right_eq,
    untilNul_append unended, untilNul_append unended, List.append_cancel_left_eq,
    untilNul_cons (straddling_ne data).2] at texts
  by_cases ends : straddling data 0 = wnul
  · rw [ends, untilNul_cons_nul] at texts
    cases texts
  · rw [untilNul_cons ends] at texts
    exact (straddling_ne data).1 (List.cons.inj texts).1

theorem importable_of_keptApart {env : ProviderEnv} {results : List EnumResult} (apart : KeptApart env results) :
    Importable env results := by
  rcases apart.imported (staleStack [] (by decide) 0) with ⟨p, imports, each⟩
  have loaded := loaded_of_imports imports
  refine ⟨(imports_iff.mp imports).1, fun data member => ?_, (oneEach_iff loaded).mp each⟩
  have short := loaded.bounded data member
  refine ⟨short, ?_⟩
  by_contra unended
  rcases List.getElem?_of_mem member with ⟨i, standing⟩
  have same : forall stale, p.textAt i = some (staleValue data stale).2.1 := by
    intro stale
    rcases alone_imports short stale with ⟨p', imports', each', text⟩
    rw [← text]
    exact apart.own _ p _ _ _ p' imports imports' each' i 0 data standing rfl
  have both := (same 0).symm.trans (same 1)
  exact staleValue_ne unended (Option.some.inj both)

/-- The provider keeps the values of a key apart exactly when the profile and
all entries are allocated and every text value has at most 128 bytes with a
terminator among them. -/
theorem keptApart_iff (env : ProviderEnv) (results : List EnumResult) :
    KeptApart env results ↔ Importable env results :=
  ⟨importable_of_keptApart, keptApart_of_importable⟩

/-- One letter without a terminator; and 130 zeros, which are an empty
text. -/
theorem values_notApart :
    ¬ KeptApart calmProvider [.value (wideAscii "letter") regSz [97, 0] (by decide)] ∧
      ¬ KeptApart calmProvider
        [.value (wideAscii "zeros") regSz (List.replicate 130 0) (by rw [List.length_replicate]; decide)] := by
  constructor
  · intro apart
    have ends := (importable_of_keptApart apart).ends [97, 0] List.mem_cons_self
    revert ends
    decide
  · intro apart
    have short := ((importable_of_keptApart apart).ends (List.replicate 130 0) List.mem_cons_self).1
    rw [List.length_replicate] at short
    exact absurd short (by decide)

end Cascade
end BugMuseum
