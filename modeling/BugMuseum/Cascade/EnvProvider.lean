import BugMuseum.Foundation.Tokens
import BugMuseum.Cascade.ProviderReg

namespace BugMuseum
namespace Cascade

open Foundation

/-!
# Profiles from the environment

`provider_env` is given the names of variables, separated by semicolons, and makes an entry of
each variable that is set.  The names are narrowed into one buffer, copied to a second one and
cut into tokens there; a value is read into a third one, if it fits.
-/

def semicolon : UInt8 := 59

def defaultNames : Bytes :=
  ascii "USERNAME;COMPUTERNAME;PROCESSOR_ARCHITECTURE"

/-- What `provider_env` does not decide: the conversion of its specification,
the environment, and which allocations succeed. -/
structure EnvSource where
  multiByte : List Wchar -> Int × Bytes
  environment : Bytes -> Option Bytes
  profile : Bool
  grant : Nat -> EntryGrant               -- for each name

/-- What the stack holds before the call. -/
structure EnvStack where
  list : Field 1024
  wideSpec : Field 1024

/-- The size of `val`. -/
def valSize : Nat := 2048

/-- The result is the length of what is in the buffer. -/
theorem length_filled (value : Bytes) : value.length = value.length :=
  rfl

/-- `GetEnvironmentVariableA`: the length of the value, which is in the buffer
then, or the size that the value needs, or 0. -/
def getEnvironmentVariable (environment : Bytes -> Option Bytes) (name : Bytes) (size : Nat) :
    (n : Nat) × Option (Field n) :=
  match environment name with
  | none => ⟨0, none⟩
  | some value =>
      if value.length < size then ⟨value.length, some ⟨value, length_filled value⟩⟩
      else ⟨value.length + 1, none⟩

/-- What `narrow` leaves in its buffer.  It is terminated in any case, if only
at its end. -/
def narrowSpec (env : EnvSource) (w : List Wchar) (out : Field 1024) : Bytes :=
  let n := env.multiByte w
  let written := overwrite out.1 0 n.2
  let checked := if n.1 ≤ 0 then written.set 0 0 else written
  checked.set 1023 0

/-- The string in `list`: the names that were given, or those of the
default. -/
def specList (env : EnvSource) (stack : EnvStack) (spec : Option (List Wchar)) : Except Stray Bytes := do
  let source :=
    match spec with
    | some (w :: rest) => narrowSpec env (w :: rest) stack.wideSpec
    | _ => defaultNames ++ [0]
  let list ← copyPadded .outside 0 source stack.list.1 1023
  let list ← put .outside list 1023 0
  return cString list

/-- The loop over the tokens.  A variable that is not set, is empty or does
not fit is passed over. -/
def addVariables (env : EnvSource) : Nat -> List Bytes -> CfgProfile -> CfgProfile
  | _, [], p => p
  | i, tok :: rest, p =>
      let n := getEnvironmentVariable env.environment tok valSize
      if 0 < n.1 ∧ n.1 < valSize then
        let added := cfgAdd (some p) (some (.ofBlock tok)) cfgStr n.2 (env.grant i)
        addVariables env (i + 1) rest (added.2.getD p)
      else addVariables env (i + 1) rest p

/-- `ProviderLoad` -/
def envProviderLoad (env : EnvSource) (stack : EnvStack) (spec : Option (List Wchar)) :
    Except Stray (Int × Option (Option CfgProfile)) := do
  let list ← specList env stack spec
  if !env.profile then return (cfgEnomem, some none)
  else return (cfgOk, some (some (addVariables env 0 (tokensAt (· == semicolon) list) cfgNew)))

/-- The names that are asked for.  An empty specification asks for the names
of the default. -/
def askedNames (env : EnvSource) (stack : EnvStack) : Option (List Wchar) -> Bytes
  | some (w :: rest) => cString (narrowSpec env (w :: rest) stack.wideSpec)
  | _ => defaultNames

theorem narrowSpec_length (env : EnvSource) (w : List Wchar) (out : Field 1024) :
    (narrowSpec env w out).length = 1024 := by
  unfold narrowSpec
  dsimp only
  split <;> simp only [List.length_set, overwrite_length, out.2]

theorem narrowSpec_last (env : EnvSource) (w : List Wchar) (out : Field 1024) :
    (narrowSpec env w out)[1023]? = some 0 := by
  have size := narrowSpec_length env w out
  rw [narrowSpec, List.length_set] at size
  exact List.getElem?_set_self (by omega)

/-- A string of up to 1023 bytes is copied with its terminator. -/
theorem copyList_eq {source : Bytes} (list : Field 1024) (terminated : (0 : UInt8) ∈ source)
    (fits : (cString source).length ≤ 1023) :
    exists copied, (copyPadded Stray.outside 0 source list.1 1023) = .ok copied ∧ copied.length = 1024 ∧
      cString (copied.set 1023 0) = cString source := by
  have room : 1023 ≤ list.1.length := by
    rw [list.2]
    decide
  have padded : (paddedTo 0 1023 source).length = 1023 := by
    rw [paddedTo, List.length_append, List.length_take, List.length_replicate]
    change min 1023 (cString source).length + (1023 - (cString source).length) = 1023
    omega
  have behind : (list.1.drop 1023).length = 1 := by
    rw [List.length_drop, list.2]
  refine ⟨_, (copyPadded_eq ..).trans (if_pos ⟨room, Or.inr terminated⟩), ?_, ?_⟩
  · rw [List.length_append, padded, behind]
  · have last : (paddedTo 0 1023 source ++ list.1.drop 1023).set 1023 0 = paddedTo 0 1023 source ++ [0] := by
      rcases List.length_eq_one_iff.mp behind with ⟨old, only⟩
      rw [List.set_append_right _ _ padded.le, padded, only]
      rfl
    have closed : ([0] : Bytes).head? = some 0 := rfl
    rcases paddedTo_append fits (Or.inr closed) with ⟨rest, split⟩
    rw [last, split]
    exact cString_append_zero (zero_not_mem_cString source) rest

theorem cString_length_lt {block : Bytes} (terminated : (0 : UInt8) ∈ block) :
    (cString block).length < block.length := by
  have front := List.takeWhile_prefix (l := block) (· ≠ 0)
  refine Nat.lt_of_le_of_ne front.length_le fun same => ?_
  have whole : cString block = block := front.eq_of_length same
  exact zero_not_mem_cString block (whole.symm ▸ terminated)

theorem specList_eq (env : EnvSource) (stack : EnvStack) (spec : Option (List Wchar)) :
    specList env stack spec = .ok (askedNames env stack spec) := by
  have copies : forall source, (0 : UInt8) ∈ source -> (cString source).length ≤ 1023 ->
      (do
        let list ← copyPadded Stray.outside 0 source stack.list.1 1023
        let list ← put .outside list 1023 0
        return cString list) = .ok (cString source) := by
    intro source terminated fits
    rcases copyList_eq stack.list terminated fits with ⟨copied, ok, size, same⟩
    rw [ok, ← same]
    dsimp only [bind, Except.bind]
    rw [put_of_lt Stray.outside (by omega : 1023 < copied.length)]
    rfl
  have defaults := copies (defaultNames ++ [0]) (by decide) (by decide)
  cases spec with
  | none => exact defaults
  | some w =>
      cases w with
      | nil => exact defaults
      | cons first rest =>
          have terminated := List.mem_of_getElem? (narrowSpec_last env (first :: rest) stack.wideSpec)
          have shorter := cString_length_lt terminated
          rw [narrowSpec_length] at shorter
          exact copies _ terminated (Nat.le_of_lt_succ shorter)

/-! ## The entries -/

instance (grant : EntryGrant) : Decidable grant.Whole :=
  inferInstanceAs (Decidable (_ ∧ _ ∧ _))

/-- The entry for a name, with the number of the name among those asked for.
There is none for an empty value. -/
def variableEntry (env : EnvSource) (name : Bytes × Nat) : Option CfgEntry :=
  match env.environment name.1 with
  | none => none
  | some value =>
      if 0 < value.length ∧ value.length < valSize ∧ (env.grant name.2).Whole then
        some ⟨some (.ofBlock name.1), cfgStr, value.length, some value, 0, sized_self value⟩
      else none

/-- `CfgAdd` adds the entry, or leaves the profile alone. -/
theorem cfgAdd_string (p : CfgProfile) (name : CStr) (value : Bytes) (grant : EntryGrant) :
    (grant.Whole ∧
        (cfgAdd (some p) (some name) cfgStr (some (⟨value, rfl⟩ : Field value.length)) grant).2.getD p =
          appendEntry p ⟨some name, cfgStr, value.length, some value, 0, sized_self value⟩) ∨
      (¬ grant.Whole ∧
        (cfgAdd (some p) (some name) cfgStr (some (⟨value, rfl⟩ : Field value.length)) grant).2.getD p = p) := by
  rcases grant with ⟨entry, named, valued⟩
  rw [cfgAdd, EntryGrant.Whole]
  cases entry <;> cases named <;> cases valued <;> simp

theorem addVariables_head (env : EnvSource) (i : Nat) (names : List Bytes) (p : CfgProfile) :
    (addVariables env i names p).head = p.head ++ (names.zipIdx i).filterMap (variableEntry env) := by
  induction names generalizing i p with
  | nil => exact (List.append_nil _).symm
  | cons name rest inductionHypothesis =>
      rw [addVariables, List.zipIdx_cons, List.filterMap_cons, variableEntry]
      generalize fetched : getEnvironmentVariable env.environment name valSize = n
      rw [getEnvironmentVariable] at fetched
      cases found : env.environment name with
      | none =>
          rw [found] at fetched
          subst fetched
          exact inductionHypothesis (i + 1) p
      | some value =>
          rw [found] at fetched
          dsimp only at fetched ⊢
          by_cases fits : value.length < valSize
          · rw [if_pos fits] at fetched
            subst fetched
            by_cases set : 0 < value.length
            · rw [if_pos ⟨set, fits⟩, inductionHypothesis]
              rcases cfgAdd_string p (.ofBlock name) value (env.grant i) with ⟨whole, added⟩ | ⟨refused, unchanged⟩
              · rw [added, if_pos ⟨set, fits, whole⟩, appendEntry_head, List.append_assoc, List.singleton_append]
              · rw [unchanged, if_neg fun all => refused all.2.2]
            · rw [if_neg fun both => set both.1, if_neg fun all => set all.1]
              exact inductionHypothesis (i + 1) p
          · rw [if_neg fits] at fetched
            subst fetched
            rw [if_neg fun both => fits (Nat.lt_of_succ_lt both.2), if_neg fun all => fits all.2.1]
            exact inductionHypothesis (i + 1) p

/-- The names are the segments between the semicolons that are not empty, and
each variable that is set to a nonempty value, fits into the buffer and is
allocated has its entry, in the order of the names.  A variable set to the
empty string has none. -/
theorem envProviderLoad_eq (env : EnvSource) (stack : EnvStack) (spec : Option (List Wchar)) :
    if env.profile then
      exists p, envProviderLoad env stack spec = .ok (cfgOk, some (some p)) ∧
        p.head = ((segments (· == semicolon) (askedNames env stack spec)).zipIdx).filterMap (variableEntry env)
    else envProviderLoad env stack spec = .ok (cfgEnomem, some none) := by
  rw [envProviderLoad, specList_eq]
  cases env.profile with
  | false => rfl
  | true =>
      refine ⟨_, rfl, ?_⟩
      rw [addVariables_head, tokensAt_eq_segments]
      rfl

end Cascade
end BugMuseum
