import BugMuseum.Cascade.AcceptedBundle
import BugMuseum.Cascade.Delivery
import BugMuseum.Cascade.KeyedLookup
import BugMuseum.Cascade.ParseMemory

namespace BugMuseum
namespace Cascade

open Foundation

/-!
# Settings

What the clients of the configuration service work with: under a name there is a text,
which may be a template.  A bundle sets what no earlier bundle has set, and a template
stands for the text in which the settings replace their names.

An allocation that is refused can end a push before it begins, cut it short, or lose
the text of a setting.  Only a copy without a name would leave the settings without a
meaning.
-/

structure Setting where
  template : Bool
  text : Bytes
  deriving DecidableEq

abbrev Settings := Bytes -> Option Setting

namespace Settings

def none : Settings := fun _ => .none

def single (name : Bytes) (setting : Setting) : Settings := fun other =>
  if name = other then some setting else .none

/-- The names that are not set yet come from later settings.  What is set
stays. -/
def behind (settings later : Settings) : Settings := fun name => (settings name).or (later name)

/-- What stands for a name in a template.  A name that is not set stands for
nothing. -/
def value (settings : Settings) (name : Bytes) : Bytes :=
  ((settings name).map Setting.text).getD []

/-- What a template stands for, up to a terminator. -/
def expand (settings : Settings) (text : Bytes) : Bytes :=
  cString (substitute braces settings.value text)

end Settings

/-- The setting of an entry, if its text was kept.  The number of a `CFG_INT`
entry is no text. -/
def RawEntry.setting (raw : RawEntry) (kept : Bool) : Setting where
  template := decide ((raw.type.toNat : Int) = cfgTemplate)
  text := if (raw.type.toNat : Int) = cfgInt ∨ kept = false then [] else raw.value

/-- What a merge of these entries sets, from the one with the given number on.
It ends where a copy is refused, and a copy can lose its text. -/
def Settings.merged (grant : Nat -> EntryGrant) : Nat -> List RawEntry -> Settings
  | _, [] => .none
  | i, raw :: rest =>
      if (grant i).entry then
        (single (cString raw.name) (raw.setting (grant i).value)).behind (merged grant (i + 1) rest)
      else .none

/-- No copy of the merge loses its name. -/
def keepsNames (grant : Nat -> EntryGrant) : Nat -> List RawEntry -> Bool
  | _, [] => true
  | i, _ :: rest => !(grant i).entry || (grant i).name && keepsNames grant (i + 1) rest

/-- The allocations for entries of these types succeed.  A `CFG_INT` entry
needs none for its value. -/
def hasRoom (grant : Nat -> EntryGrant) : Nat -> List Int -> Bool
  | _, [] => true
  | i, type :: rest =>
      (grant i).entry && (grant i).name && (decide (type = cfgInt) || (grant i).value) && hasRoom grant (i + 1) rest

def Bundle.types (b : Bundle) : List Int :=
  b.entries.map fun raw => raw.type.toNat

/-- What a bundle says by itself, when nothing is refused. -/
def Bundle.settings (b : Bundle) : Settings :=
  .merged (fun _ => granted) 0 b.entries

namespace Settings

variable (settings : Settings)

def get (key : Bytes) : Bytes :=
  match settings key with
  | .none => ascii "ERR not found\n"
  | some setting => if setting.template then settings.expand setting.text ++ ascii "\n" else ascii "OK\n"

/-- A payload that is no bundle, or that the parser has no room for, changes
nothing. -/
def push (payload : Bytes) (env : ServiceEnv) : Settings × Bytes :=
  match readBundle payload with
  | .error _ => (settings, ascii "ERR parse\n")
  | .ok (b, _) =>
      if env.parse.profile && hasRoom env.parse.grant 0 b.types then
        (settings.behind (merged env.merge 0 b.entries), ascii "OK\n")
      else (settings, ascii "ERR parse\n")

def serve (r : Request) (env : ServiceEnv) : Settings × Bytes :=
  if r.op = opGet then (settings, settings.get (getKey r.payload).1) else settings.push r.payload env

/-- The key comes through its buffer of 32 bytes, or nothing is set under what
becomes of it; and the text fits in a line. -/
def OffersGet (key : CStr) (frame : Nat -> UInt8) : Prop :=
  (HeldWhole key frame ∨
      (settings key.1 = .none ∧ settings (normalized key frame).1 = .none ∧ FitsNorm key)) ∧
    forall setting, setting ∈ settings key.1 -> setting.template = true ->
      (settings.expand setting.text).length < lineSize

end Settings

/-- The bundle of a push keeps within the buffers of the service: each of its
templates fits in a line. -/
def FitsLines (b : Bundle) : Prop :=
  forall raw, raw ∈ b.entries -> (raw.type.toNat : Int) = cfgTemplate ->
    (b.settings.expand raw.value).length < lineSize

def OffersPush (isTcp : Bool) (payload : Bytes) (env : ServiceEnv) : Prop :=
  (isTcp = true -> forall blob, blob ∈ peekFirstBlob env.parse.arch payload -> blob.2 ≤ scratchSize) ∧
    fieldOverruns env.parse payload = false ∧
    forall read, read ∈ (readBundle payload).toOption -> FitsLines read.1 ∧
      keepsNames env.merge 0 read.1.entries = true

/-- Requests that stay within the buffers and that allocations leave a name
for. -/
def Settings.Offers (settings : Settings) (isTcp : Bool) (r : Request) (env : ServiceEnv) : Prop :=
  if r.op = opGet then settings.OffersGet (getKey r.payload) env.norm else OffersPush isTcp r.payload env

section Decided

instance (key : CStr) (frame : Nat -> UInt8) : Decidable (HeldWhole key frame) :=
  inferInstanceAs (Decidable (ReadBackWhole key frame))

instance (key : CStr) : Decidable (FitsNorm key) :=
  inferInstanceAs (Decidable (CopyFits 64 key))

instance (settings : Settings) (key : CStr) (frame : Nat -> UInt8) : Decidable (settings.OffersGet key frame) :=
  inferInstanceAs (Decidable (_ ∧ _))

instance (b : Bundle) : Decidable (FitsLines b) :=
  inferInstanceAs (Decidable (forall raw, raw ∈ b.entries -> _))

instance (isTcp : Bool) (payload : Bytes) (env : ServiceEnv) : Decidable (OffersPush isTcp payload env) :=
  inferInstanceAs (Decidable (_ ∧ _ ∧ forall read, read ∈ (readBundle payload).toOption -> _))

instance (settings : Settings) (isTcp : Bool) (r : Request) (env : ServiceEnv) :
    Decidable (settings.Offers isTcp r env) :=
  inferInstanceAs (Decidable (if r.op = opGet then settings.OffersGet _ _ else OffersPush _ _ _))

end Decided

/-! ## The settings of a profile -/

def CfgEntry.setting (e : CfgEntry) : Setting where
  template := decide (e.type = cfgTemplate)
  text := e.value.getD []

/-- The first entry with a name counts. -/
def settingsOf (entries : List CfgEntry) : Settings := fun name =>
  (entries.find? (hasName name)).map CfgEntry.setting

theorem settingsOf_append (earlier later : List CfgEntry) :
    settingsOf (earlier ++ later) = (settingsOf earlier).behind (settingsOf later) := by
  funext name
  rw [settingsOf, Settings.behind, settingsOf, settingsOf, List.find?_append]
  cases earlier.find? (hasName name) <;> rfl

theorem Settings.behind_assoc (first second third : Settings) :
    (first.behind second).behind third = first.behind (second.behind third) := by
  funext name
  exact Option.or_assoc

theorem Settings.behind_none (settings : Settings) : settings.behind .none = settings := by
  funext name
  exact Option.or_none

theorem settingsOf_value (p : CfgProfile) : (settingsOf p.head).value = valueNamed p := by
  funext name
  rw [Settings.value, settingsOf, valueNamed]
  cases p.head.find? (hasName name) <;> rfl

theorem settingsOf_expand (p : CfgProfile) (s : Bytes) : (settingsOf p.head).expand s = cString (expansion p s) := by
  rw [Settings.expand, settingsOf_value, expansion]

/-- One entry with a name sets that name, and no other. -/
theorem settingsOf_single {e : CfgEntry} {text : CStr} (named : e.name = some text) :
    settingsOf [e] = .single text.1 e.setting := by
  funext name
  have same : hasName name e = decide (text.1 = name) := by
    rw [hasName, named]
    exact decide_eq_decide.mpr Option.some_inj
  rw [settingsOf, Settings.single, List.find?_singleton, same]
  by_cases equal : text.1 = name
  · rw [decide_eq_true equal, if_pos equal]
    rfl
  · rw [decide_eq_false equal, if_neg equal]
    rfl

/-- What is stored for an entry of a bundle, when it is copied with its
name. -/
theorem setting_copied (env : ParseEnv) (i : Nat) (raw : RawEntry) (rest : Bytes) (grant : EntryGrant) :
    (copyEntry grant (storedEntry env i raw rest)).setting = raw.setting grant.value := by
  have type : (copyEntry grant (storedEntry env i raw rest)).type = raw.type.toNat := storedEntry_type ..
  have value : (copyEntry grant (storedEntry env i raw rest)).value =
      if grant.value = true then (storedEntry env i raw rest).value else none := rfl
  rw [CfgEntry.setting, RawEntry.setting, type, value]
  congr 1
  by_cases integer : (raw.type.toNat : Int) = cfgInt
  · have numeric : (storedEntry env i raw rest).value = none := by rw [storedEntry, if_pos integer]
    rw [numeric, ite_self, if_pos (Or.inl integer)]
    rfl
  · rw [storedEntry_value env i rest integer]
    cases grant.value with
    | false => rw [if_neg Bool.false_ne_true, if_pos (Or.inr rfl), Option.getD_none]
    | true => rw [if_pos rfl, if_neg (by simp [integer]), Option.getD_some]

/-- A merge sets what it copies, behind everything that was set before. -/
theorem mergeFrom_settings (env : ParseEnv) (grant : Nat -> EntryGrant) {raws : List RawEntry} {i : Nat} (j : Nat)
    (rest : Bytes) {base : CfgProfile} (named : AllNamed base.head) (kept : keepsNames grant i raws = true) :
    AllNamed (mergeFrom grant i (storedFrom env j raws rest) base).2.head ∧
      settingsOf (mergeFrom grant i (storedFrom env j raws rest) base).2.head =
        (settingsOf base.head).behind (.merged grant i raws) := by
  induction raws generalizing i j base with
  | nil => exact ⟨named, (Settings.behind_none _).symm⟩
  | cons raw later inductionHypothesis =>
      rw [keepsNames] at kept
      rw [storedFrom, mergeFrom, Settings.merged]
      cases entry : (grant i).entry with
      | false =>
          rw [if_neg Bool.false_ne_true, if_neg Bool.false_ne_true]
          exact ⟨named, (Settings.behind_none _).symm⟩
      | true =>
          rw [entry, Bool.not_true, Bool.false_or, Bool.and_eq_true] at kept
          rw [if_pos rfl, if_pos rfl]
          generalize encodeEntries later ++ rest = tail
          have copied : (copyEntry (grant i) (storedEntry env j raw tail)).name = some (.ofBlock raw.name) :=
            (if_pos kept.1).trans (storedEntry_name ..)
          have head := appendEntry_head base (copyEntry (grant i) (storedEntry env j raw tail))
          have longer : AllNamed (appendEntry base (copyEntry (grant i) (storedEntry env j raw tail))).head := by
            intro e member
            rw [head] at member
            rcases List.mem_append.mp member with older | last
            · exact named e older
            · rw [List.mem_singleton.mp last, copied]
              exact Option.some_ne_none _
          have merges := inductionHypothesis (j + 1) longer kept.2
          refine ⟨merges.1, merges.2.trans ?_⟩
          rw [head, settingsOf_append, Settings.behind_assoc, settingsOf_single copied, setting_copied]
          rfl

/-- What an accepted bundle sets, and that each of its entries has a name. -/
theorem settingsOf_stored (env : ParseEnv) (i j : Nat) (raws : List RawEntry) (rest : Bytes) :
    AllNamed (storedFrom env j raws rest) ∧
      settingsOf (storedFrom env j raws rest) = .merged (fun _ => granted) i raws := by
  induction raws generalizing i j with
  | nil => exact ⟨fun _ impossible => absurd impossible List.not_mem_nil, rfl⟩
  | cons raw later inductionHypothesis =>
      rw [storedFrom]
      generalize encodeEntries later ++ rest = tail
      have stored := inductionHypothesis (i + 1) (j + 1)
      have name : (storedEntry env j raw tail).name = some (.ofBlock raw.name) := storedEntry_name ..
      have setting : (storedEntry env j raw tail).setting = raw.setting true := setting_copied env j raw tail granted
      refine ⟨List.forall_mem_cons.mpr ⟨?_, stored.1⟩, ?_⟩
      · rw [name]
        exact Option.some_ne_none _
      · rw [← List.singleton_append, settingsOf_append, settingsOf_single name, setting, stored.2, Settings.merged]
        rfl

/-- Every allocation of a parse succeeds. -/
def ParseEnv.lavish (env : ParseEnv) : ParseEnv :=
  { env with profile := true, grant := fun _ => granted }

/-- The fields of an entry are read before anything is allocated for it.  So a
refusal says nothing of the format. -/
theorem storeEntry_room {env : ParseEnv} {data : Bytes} {i : Nat} {name : Bytes} {type : UInt8} {value : Bytes}
    {off : Nat} {e : CfgEntry} (full : storeEntry env.lavish data i name type value off = .ok e) :
    e.type = type.toNat ∧ storeEntry env data i name type value off =
      if hasRoom env.grant i [e.type] then .ok e else .error cfgEnomem := by
  unfold storeEntry at full ⊢
  simp only [ParseEnv.lavish, granted, failIf, Bool.true_eq_false, if_false] at full
  simp only [hasRoom, Bool.and_true]
  rcases env.grant i with ⟨entry, text, bytes⟩
  by_cases integer : (type.toNat : Int) = cfgInt
  · rw [if_pos integer] at full ⊢
    cases full
    refine ⟨rfl, ?_⟩
    rw [decide_eq_true integer, Bool.true_or, Bool.and_true]
    cases entry <;> cases text <;> rfl
  · rw [if_neg integer] at full ⊢
    cases full
    refine ⟨rfl, ?_⟩
    rw [decide_eq_false integer, Bool.false_or]
    cases entry <;> cases text <;> cases bytes <;> rfl

/-- A parse that runs out of memory fails; otherwise the allocations make no
difference. -/
theorem parseEntries_room {env : ParseEnv} {data : Bytes} {left i off : Nat} {p q : CfgProfile}
    (full : parseEntries env.lavish data left i off p = .ok q) :
    exists added, q.head = p.head ++ added ∧ parseEntries env data left i off p =
      if hasRoom env.grant i (added.map CfgEntry.type) then .ok q else .error cfgEnomem := by
  induction left generalizing i off p with
  | zero =>
      cases full
      exact ⟨[], (List.append_nil _).symm, rfl⟩
  | succ left inductionHypothesis =>
      rw [parseEntries, Memory.parseEntry_eq] at full ⊢
      have fields : parseFields env.lavish data off = parseFields env data off := rfl
      rw [fields] at full
      cases parsed : parseFields env data off with
      | error code =>
          rw [parsed] at full
          cases full
      | ok read =>
          rcases read with ⟨f, next⟩
          rw [parsed] at full
          dsimp only at full ⊢
          rcases bind_eq_ok.mp full with ⟨⟨e, behind⟩, mapped, later⟩
          cases stores : storeEntry env.lavish data i f.name f.type f.value f.valP with
          | error code =>
              rw [stores] at mapped
              cases mapped
          | ok stored =>
              rw [stores] at mapped
              cases mapped
              rcases inductionHypothesis later with ⟨added, head, outcome⟩
              refine ⟨e :: added, ?_, ?_⟩
              · rw [head, appendEntry_head, List.append_assoc, List.singleton_append]
              · rw [(storeEntry_room stores).2]
                simp only [List.map_cons, hasRoom, Bool.and_true]
                cases room : (env.grant i).entry && (env.grant i).name &&
                    (decide (e.type = cfgInt) || (env.grant i).value) with
                | false => rfl
                | true =>
                    rw [if_pos rfl, Bool.true_and]
                    exact outcome

theorem storedFrom_lavish (env : ParseEnv) (i : Nat) (raws : List RawEntry) (rest : Bytes) :
    storedFrom env.lavish i raws rest = storedFrom env i raws rest := by
  induction raws generalizing i with
  | nil => rfl
  | cons raw later inductionHypothesis =>
      rw [storedFrom, storedFrom, inductionHypothesis]
      rfl

theorem storedFrom_types (env : ParseEnv) (i : Nat) (raws : List RawEntry) (rest : Bytes) :
    (storedFrom env i raws rest).map CfgEntry.type = raws.map fun raw => (raw.type.toNat : Int) := by
  induction raws generalizing i with
  | nil => rfl
  | cons raw later inductionHypothesis =>
      rw [storedFrom, List.map_cons, List.map_cons, inductionHypothesis, storedEntry_type]

/-- What is no bundle is not parsed, whatever is granted. -/
theorem parseBundle_rejects {env : ParseEnv} {data : Bytes} {code : Int} (room : env.Room data)
    (read : readBundle data = .error code) : exists failure, parseBundle env data = .error failure := by
  cases parsed : parseBundle env data with
  | error failure => exact ⟨failure, rfl⟩
  | ok p =>
      rcases parseBundle_ok room parsed with ⟨b, rest, split, _⟩
      rw [readBundle_eq_ok.mpr split] at read
      cases read

/-- A bundle is parsed exactly if there is room for its entries. -/
theorem parseBundle_room {env : ParseEnv} {b : Bundle} {rest : Bytes} (short : (b.encode ++ rest).length < 2 ^ 31) :
    if env.profile && hasRoom env.grant 0 b.types then
      exists p, parseBundle env (b.encode ++ rest) = .ok p ∧ p.head = storedFrom env 0 b.entries rest
    else parseBundle env (b.encode ++ rest) = .error cfgEnomem := by
  have succeeds : env.lavish.Succeeds := ⟨rfl, fun _ => rfl⟩
  rcases accepts_of_succeeds succeeds short with ⟨p, accepts⟩
  have full := parseBundle_of_accepted accepts.accepted
  have head : p.head = storedFrom env 0 b.entries rest := accepts.head.trans (storedFrom_lavish ..)
  rw [Memory.parseBundle_eq] at full ⊢
  split at full
  · cases full
  · rcases parseEntries_room full with ⟨added, stored, outcome⟩
    have types : added.map CfgEntry.type = b.types := by
      rw [← show p.head = added from stored, head, storedFrom_types, Bundle.types]
    rw [types] at outcome
    cases env.profile with
    | false => rfl
    | true =>
        rw [Bool.true_and, if_pos rfl, outcome]
        cases hasRoom env.grant 0 b.types with
        | false => rfl
        | true => exact ⟨p, rfl, head⟩

end Cascade
end BugMuseum
