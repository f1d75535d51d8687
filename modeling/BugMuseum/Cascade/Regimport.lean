import BugMuseum.Cascade.Cfgapply
import BugMuseum.Cascade.EnvProvider

namespace BugMuseum
namespace Cascade

open Foundation

/-!
# Importing from a provider

`regimport` picks a provider by the kind of its source, lets it load a profile, prints the
entries and frees the profile.  The providers are followed on blocks here: each of them adds
entry after entry with `CfgAdd` and does not look at its status, so what an entry could not be
allocated for is missing from the profile, and never half of it.
-/

namespace Memory

section Providers

variable (residue : Block -> Nat -> UInt8)

/-- The loop of `provider_reg`. -/
def importFrom (env : ProviderEnv) (stack : RegStack) (p : Block) :
    Nat -> Bytes -> List EnumResult -> Memory -> Except Stray Memory
  | _, _, [], m => .ok m
  | i, data, .failed left :: rest, m => importFrom env stack p (i + 1) (overwrite data 0 left) rest m
  | i, data, .value name type own _ :: rest, m =>
      if type = regSz then do
        let value ← normalizeValue (overwrite data 0 own) own.length (stack.wbuf i).1
        let nname := narrow env name (stack.nname i)
        let added := m.cfgAdd residue (some p) (some nname) cfgWstr (some value.2) (env.grant i)
        importFrom env stack p (i + 1) (overwrite data 0 own) rest added.1
      else importFrom env stack p (i + 1) (overwrite data 0 own) rest m

/-- The loop of `provider_env`. -/
def addVariables (env : EnvSource) (p : Block) : Nat -> List Bytes -> Memory -> Memory
  | _, [], m => m
  | i, tok :: rest, m =>
      let n := getEnvironmentVariable env.environment tok valSize
      if 0 < n.1 ∧ n.1 < valSize then
        let added := m.cfgAdd residue (some p) (some (.ofBlock tok)) cfgStr n.2 (env.grant i)
        addVariables env p (i + 1) rest added.1
      else addVariables env p (i + 1) rest m

end Providers

/-- The profile in memory has become this one, and the other profiles are as
they were. -/
def Grown (roots : List Root) (block : Block) (q : CfgProfile) (m : Memory) : Prop :=
  exists root : Root, root.block = block ∧ root.profile = q ∧ m.Keeps [] (root :: roots)

section Loops

variable {residue : Block -> Nat -> UInt8} {m : Memory} {roots : List Root} {block : Block} {p : CfgProfile}

theorem Grown.parsed (grown : Grown roots block p m) : Parsed roots (cfgOk, some (some p)) (m, cfgOk, some block) := by
  rcases grown with ⟨root, rfl, rfl, keeps⟩
  exact .done keeps

/-- A call of `CfgAdd` whose status nobody looks at.  The profile grows by an
entry, or stays. -/
theorem Grown.add (grown : Grown roots block p m) (name : CStr) (type : Int) {len : Nat}
    (val : Option (Field len)) (grant : EntryGrant) :
    Grown roots block ((Cascade.cfgAdd (some p) (some name) type val grant).2.getD p)
      (m.cfgAdd residue (some block) (some name) type val grant).1 := by
  rcases grown with ⟨root, rfl, rfl, keeps⟩
  rcases cfgAdd_comes residue keeps name type val grant with ⟨longer, same, _, list, kept⟩
  rw [list]
  exact ⟨longer, same, rfl, kept⟩

theorem Grown.addVariables (residue : Block -> Nat -> UInt8) (env : EnvSource) (i : Nat) (names : List Bytes)
    (grown : Grown roots block p m) :
    Grown roots block (Cascade.addVariables env i names p) (m.addVariables residue env block i names) := by
  induction names generalizing i p m with
  | nil => exact grown
  | cons name rest inductionHypothesis =>
      rw [Cascade.addVariables, Memory.addVariables]
      split
      · exact inductionHypothesis (i + 1) (grown.add ..)
      · exact inductionHypothesis (i + 1) grown

/-- The loop over the values goes astray on blocks where it does on lists, and
else it leaves the same profile. -/
theorem Grown.importFrom (residue : Block -> Nat -> UInt8) (env : ProviderEnv) (stack : RegStack) (i : Nat)
    (data : Bytes) (results : List EnumResult) (grown : Grown roots block p m) :
    match Cascade.importFrom env stack i data results p with
    | .error stray => m.importFrom residue env stack block i data results = .error stray
    | .ok q => exists m', m.importFrom residue env stack block i data results = .ok m' ∧ Grown roots block q m' := by
  induction results generalizing i data p m with
  | nil => exact ⟨m, rfl, grown⟩
  | cons result rest inductionHypothesis =>
      cases result with
      | failed left => exact inductionHypothesis (i + 1) (overwrite data 0 left) grown
      | value name type own fits =>
          rw [Cascade.importFrom, Memory.importFrom]
          by_cases text : type = regSz
          · rw [if_pos text, if_pos text]
            cases normalizeValue (overwrite data 0 own) own.length (stack.wbuf i).1 with
            | error stray => rfl
            | ok value => exact inductionHypothesis (i + 1) (overwrite data 0 own) (grown.add ..)
          · rw [if_neg text, if_neg text]
            exact inductionHypothesis (i + 1) (overwrite data 0 own) grown

end Loops

end Memory

/-! ## The tool -/

/-- The providers, each of them a library of its own. -/
inductive Provider where
  | reg
  | env
  | file
  deriving DecidableEq

def Provider.dll : Provider -> String
  | .reg => "provider_reg.dll"
  | .env => "provider_env.dll"
  | .file => "provider_file.dll"

/-- A letter, whatever its case. -/
def foldCase (w : Wchar) : Wchar :=
  if w.2 = 0 ∧ 65 ≤ w.1 ∧ w.1 ≤ 90 then (w.1 + 32, 0) else w

/-- `_wcsicmp(left, right) == 0` -/
def sameWide (left right : List Wchar) : Bool :=
  left.map foldCase = right.map foldCase

def dllFor (kind : List Wchar) : Option Provider :=
  if sameWide kind (wideAscii "reg") then some .reg
  else if sameWide kind (wideAscii "env") then some .env
  else if sameWide kind (wideAscii "file") then some .file
  else none

/-- What the tool finds outside itself: the libraries, the registry, the
environment, and the files. -/
structure World where
  loaded : Bool                                      -- `LoadLibraryExW` finds the library
  found : Bool                                       -- and `GetProcAddress` its entry
  lastError : Nat
  shown : List Wchar -> Bytes                        -- an argument on the screen
  reg : ProviderEnv
  regStack : RegStack
  registry : List Wchar -> Option (List EnumResult)
  env : EnvSource
  envStack : EnvStack
  parse : ParseEnv
  files : List Wchar -> Option OpenedFile

section Tool

variable (residue : Block -> Nat -> UInt8) (w : World) (stack : Nat -> Field 256 × Field 32)

/-- `ProviderLoad` of each library, in a process that has not allocated
anything. -/
def Provider.load (spec : List Wchar) : Provider -> Except Stray (Process × Int × Option Block)
  | .reg =>
      match w.registry (stripRoot spec) with
      | none => .ok (.empty, cfgEio, none)
      | some results =>
          match Memory.empty.cfgNew w.reg.profile with
          | (m, none) => .ok ({ Process.empty with memory := m }, cfgEnomem, none)
          | (m, some p) => do
              let m ← m.importFrom residue w.reg w.regStack p 0 w.regStack.data.1 results
              return ({ Process.empty with memory := m }, cfgOk, some p)
  | .env => do
      let list ← specList w.env w.envStack (some spec)
      match Memory.empty.cfgNew w.env.profile with
      | (m, none) => return ({ Process.empty with memory := m }, cfgEnomem, none)
      | (m, some p) =>
          let m := m.addVariables residue w.env p 0 (tokensAt (· == semicolon) list)
          return ({ Process.empty with memory := m }, cfgOk, some p)
  | .file =>
      if (w.files spec).any (OpenedFile.overruns w.parse) then .error .outside
      else .ok (Process.empty.cfgOpenFile residue w.parse (w.files spec))

/-- The same on lists, with no process to be followed. -/
def Provider.onLists (spec : List Wchar) : Provider -> Except Stray (Int × Option (Option CfgProfile))
  | .reg => providerLoad w.reg w.regStack w.registry (some spec) (some none)
  | .env => envProviderLoad w.env w.envStack (some spec)
  | .file =>
      if (w.files spec).any (OpenedFile.overruns w.parse) then .error .outside
      else .ok (cfgOpenFile w.parse (w.files spec))

def providerFailed (rc : Int) : Bytes :=
  ascii "regimport: provider failed (" ++ decimal rc ++ ascii ")\n"

/-- `wmain`; an argument is missing, or these are the kind and the
specification. -/
def regimport (arguments : Option (List Wchar × List Wchar)) : Except Stray Ended :=
  match arguments with
  | none => .ok ⟨.empty, 2, [], ascii "usage: regimport <reg|env|file> <spec>\n"⟩
  | some (kind, spec) =>
      match dllFor kind with
      | none => .ok ⟨.empty, 2, [], ascii "regimport: unknown source '" ++ w.shown kind ++ ascii "'\n"⟩
      | some dll =>
          if !w.loaded then
            .ok ⟨.empty, 1, [], ascii "regimport: cannot load " ++ ascii dll.dll ++ ascii " (" ++
              decimal w.lastError ++ ascii ")\n"⟩
          else if !w.found then
            .ok ⟨.empty, 1, [], ascii "regimport: " ++ ascii dll.dll ++ ascii " has no ProviderLoad\n"⟩
          else do
            let made ← dll.load residue w spec
            if made.2.1 ≠ cfgOk then return ⟨made.1, 1, [], providerFailed made.2.1⟩
            else
              match made.2.2 with
              | none => return ⟨made.1, 1, [], providerFailed made.2.1⟩
              | some p => printProfile stack "imported " " value(s)\n" made.1 p

end Tool

section Ending

variable {residue : Block -> Nat -> UInt8} {w : World}

/-- What a provider leaves on blocks stands for what it leaves on lists, and
nothing else is left. -/
def LoadsAs (list : Except Stray (Int × Option (Option CfgProfile)))
    (made : Except Stray (Process × Int × Option Block)) : Prop :=
  match list with
  | .error stray => made = .error stray
  | .ok list => exists proc : Process, exists rest, made = .ok (proc, rest) ∧
      Memory.Parsed [] list (proc.memory, rest) ∧ Retains proc.buffers []

theorem Provider.load_onLists (dll : Provider) (spec : List Wchar) :
    LoadsAs (dll.onLists w spec) (dll.load residue w spec) := by
  have enomem : cfgEnomem ≠ cfgOk := by decide
  have started : Memory.Grown [] Memory.empty.profiles.next cfgNew (Memory.empty.cfgNew true).1 :=
    ⟨_, rfl, rfl, Memory.keeps_empty.new⟩
  cases dll with
  | reg =>
      rw [Provider.onLists, Provider.load, providerLoad]
      cases w.registry (stripRoot spec) with
      | none => exact ⟨_, _, rfl, .refused (by decide) Memory.keeps_empty, retains_empty⟩
      | some results =>
          dsimp only
          cases w.reg.profile with
          | false => exact ⟨_, _, rfl, .refused enomem Memory.keeps_empty, retains_empty⟩
          | true =>
              have loop := started.importFrom residue w.reg w.regStack 0 w.regStack.data.1 results
              generalize importFrom w.reg w.regStack 0 w.regStack.data.1 results cfgNew = list at loop ⊢
              let finish := fun m : Memory =>
                (.ok ({ Process.empty with memory := m }, cfgOk, some Memory.empty.profiles.next) :
                  Except Stray (Process × Int × Option Block))
              cases list with
              | error stray => exact congrArg (· >>= finish) loop
              | ok q =>
                  rcases loop with ⟨m, loaded, grown⟩
                  exact ⟨{ Process.empty with memory := m }, _, congrArg (· >>= finish) loaded, grown.parsed,
                    retains_empty⟩
  | env =>
      rw [Provider.onLists, Provider.load, envProviderLoad, specList_eq]
      cases w.env.profile with
      | false => exact ⟨_, _, rfl, .refused enomem Memory.keeps_empty, retains_empty⟩
      | true =>
          exact ⟨_, _, rfl, (started.addVariables residue w.env 0 _).parsed, retains_empty⟩
  | file =>
      rw [Provider.onLists, Provider.load]
      split
      · rfl
      · have opened := cfgOpenFile_parsed .empty residue w.parse (w.files spec) Memory.keeps_empty retains_empty
        exact ⟨_, _, rfl, opened⟩

/-- The tool goes astray where its provider does on lists, and reports what it
loads there. -/
inductive Reports : Except Stray (Int × Option (Option CfgProfile)) -> Except Stray Ended -> Prop where
  | astray (stray : Stray) : Reports (.error stray) (.error stray)
  | ended {list : Int × Option (Option CfgProfile)} {outcome : Except Stray Ended}
      (ends : Ends "imported " " value(s)\n" providerFailed list outcome) : Reports (.ok list) outcome

/-- Whatever the source holds and whichever allocations fail, `regimport`
prints the profile that its provider loads on lists, or the code with which
the provider fails, and gives back everything that was allocated. -/
theorem regimport_ends (residue : Block -> Nat -> UInt8) (w : World) (stack : Nat -> Field 256 × Field 32)
    (kind spec : List Wchar) (dll : Provider) (known : dllFor kind = some dll) (library : w.loaded = true)
    (entry : w.found = true) :
    Reports (dll.onLists w spec) (regimport residue w stack (some (kind, spec))) := by
  have loads : LoadsAs (dll.onLists w spec) (dll.load residue w spec) := dll.load_onLists spec
  unfold regimport
  dsimp only
  rw [known, library, entry]
  simp only [Bool.not_true, Bool.false_eq_true, if_false]
  generalize dll.onLists w spec = list at loads ⊢
  cases list with
  | error stray =>
      have strays : dll.load residue w spec = .error stray := loads
      rw [strays]
      exact .astray stray
  | ok list =>
      rcases loads with ⟨proc, rest, loaded, parsed, buffers⟩
      rw [loaded]
      generalize same : proc.memory = m at parsed
      cases parsed with
      | refused failure keeps =>
          dsimp only [bind, Except.bind]
          rw [if_pos failure]
          exact .ended (.failed failure (Process.clean_of_keeps (same ▸ keeps) buffers) rfl rfl rfl)
      | done keeps =>
          dsimp only [bind, Except.bind]
          rw [if_neg (not_not.mpr rfl)]
          exact .ended (printProfile_ends stack _ _ _ (same ▸ keeps) buffers)

end Ending

/-- One variable is set, and everything is allocated. -/
def userSource : EnvSource where
  multiByte := fun w => (w.length + 1, w.map Prod.fst ++ [0])
  environment := fun name => if name = ascii "USERNAME" then some (ascii "eve") else none
  profile := true
  grant := fun _ => granted

def userWorld : World where
  loaded := true
  found := true
  lastError := 0
  shown := fun w => w.map Prod.fst
  reg := calmProvider
  regStack := ⟨.ofNat 4096 0, fun _ => ⟨List.replicate 128 wnul, List.length_replicate⟩, fun _ => .ofNat 256 0⟩
  registry := fun _ => none
  env := userSource
  envStack := ⟨.ofNat 1024 0, .ofNat 1024 0⟩
  parse := calm
  files := fun _ => none

theorem regimport_user :
    exists ended, regimport (fun _ _ => 0) userWorld (fun _ => (.ofNat 256 0, .ofNat 32 0))
        (some (wideAscii "ENV", [])) = .ok ended ∧
      ended.out = ascii "imported 1 value(s)\n  [USERNAME] type=0 len=3\n" := by
  have known : dllFor (wideAscii "ENV") = some .env := by decide
  have library : userWorld.loaded = true := by rw [userWorld]
  have entry : userWorld.found = true := by rw [userWorld]
  have ends := regimport_ends (fun _ _ => 0) userWorld (fun _ => (.ofNat 256 0, .ofNat 32 0)) (wideAscii "ENV") []
    .env known library entry
  let p := addVariables userSource 0 (tokensAt (· == semicolon) defaultNames) cfgNew
  have loaded : Provider.env.onLists userWorld [] = .ok (cfgOk, some (some p)) := by
    rw [Provider.onLists, envProviderLoad, specList_eq]
    rfl
  have names : tokensAt (· == semicolon) defaultNames =
      [ascii "USERNAME", ascii "COMPUTERNAME", ascii "PROCESSOR_ARCHITECTURE"] := by decide
  have entries : p.head = [⟨some (.ofBlock (ascii "USERNAME")), cfgStr, 3, some (ascii "eve"), 0, sized_self _⟩] := by
    change (addVariables userSource 0 (tokensAt _ defaultNames) cfgNew).head = _
    rw [names, addVariables_head]
    rfl
  have count : p.count = 1 := by
    change (addVariables userSource 0 (tokensAt _ defaultNames) cfgNew).count = 1
    rw [names]
    rfl
  have displayed : forall e, e ∈ p.head -> Displayed e := by
    intro e member
    rw [entries, List.mem_singleton] at member
    exact cfgFormatLabel_shows (by rw [member]) (by decide)
  rw [loaded] at ends
  generalize regimport _ _ _ _ = outcome at ends ⊢
  rcases ends with _ | ends
  cases ends with
  | printed displayed clean code err out =>
      refine ⟨_, rfl, out.trans ?_⟩
      rw [count, entries]
      rfl
  | overlong hidden => exact absurd displayed hidden

end Cascade
end BugMuseum
