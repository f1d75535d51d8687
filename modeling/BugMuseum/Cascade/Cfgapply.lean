import BugMuseum.Cascade.Labels
import BugMuseum.Cascade.ServiceMemory

namespace BugMuseum
namespace Cascade

open Foundation

/-!
# The local tools

`cfgapply` opens a bundle, prints a line for each entry and frees the profile.  It ends in one
of three ways, and in each of them the process has given back everything; only a name that does
not fit into the label leaves no way to say how it ends.
-/

/-- How a tool ends: its exit code, what it prints, and what is left of its
memory. -/
structure Ended where
  proc : Process
  code : Int
  out : Bytes
  err : Bytes

/-- The lines for a profile in memory, and `CfgFree`.  The profile is freed
only behind the last line. -/
def printProfile (stack : Nat -> Field 256 × Field 32) (front back : String) (proc : Process) (p : Block) :
    Except Stray Ended := do
  let profile := proc.memory.view p
  let lines ← printEntries stack 0 profile.head
  return { proc := { proc with memory := proc.memory.cfgFree (some p) }, code := 0,
           out := ascii front ++ decimal profile.count ++ ascii back ++ lines, err := [] }

/-- The file has a number that `decode_field` copies beyond its `field`. -/
def OpenedFile.overruns (env : ParseEnv) (f : OpenedFile) : Bool :=
  f.buffer && match f.size with
    | none => false
    | some sz => fieldOverruns env (f.content.take sz)

def parseFailed (rc : Int) : Bytes :=
  ascii "cfgapply: parse failed (" ++ decimal rc ++ ascii ")\n"

/-- `wmain`; the argument is missing, or it is the path of this file. -/
def cfgapply (residue : Block -> Nat -> UInt8) (env : ParseEnv) (stack : Nat -> Field 256 × Field 32)
    (argument : Option (Option OpenedFile)) : Except Stray Ended :=
  match argument with
  | none => .ok ⟨.empty, 2, [], ascii "usage: cfgapply <file.cprof>\n"⟩
  | some file =>
      if file.any (OpenedFile.overruns env) then .error .outside
      else
        let opened := Process.empty.cfgOpenFile residue env file
        let rc := opened.2.1
        if rc ≠ cfgOk then .ok ⟨opened.1, 1, [], parseFailed rc⟩
        else
          match opened.2.2 with
          | none => .error .nullName
          | some p => printProfile stack "loaded " " entrie(s)\n" opened.1 p

/-- How a tool ends, given what becomes of its source in the list model: it
prints the profile, or its own message for the code. -/
inductive Ends (front back : String) (message : Int -> Bytes) :
    Int × Option (Option CfgProfile) -> Except Stray Ended -> Prop where
  | printed {p : CfgProfile} {ended : Ended} (displayed : forall e, e ∈ p.head -> Displayed e)
      (clean : ended.proc.Clean) (code : ended.code = 0) (err : ended.err = [])
      (out : ended.out = ascii front ++ decimal p.count ++ ascii back ++ p.head.flatMap labelLine) :
      Ends front back message (cfgOk, some (some p)) (.ok ended)
  | overlong {p : CfgProfile} {stray : Stray} (hidden : ¬ forall e, e ∈ p.head -> Displayed e) :
      Ends front back message (cfgOk, some (some p)) (.error stray)
  | failed {rc : Int} {ended : Ended} (failure : rc ≠ cfgOk) (clean : ended.proc.Clean) (code : ended.code = 1)
      (out : ended.out = []) (err : ended.err = message rc) : Ends front back message (rc, some none) (.ok ended)

section Ending

variable (stack : Nat -> Field 256 × Field 32) (front back : String) (message : Int -> Bytes) {proc : Process}

theorem printProfile_ends {root : Root} (keeps : proc.memory.Keeps [] [root]) (buffers : Retains proc.buffers []) :
    Ends front back message (cfgOk, some (some root.profile)) (printProfile stack front back proc root.block) := by
  unfold printProfile
  rw [keeps.view_eq List.mem_cons_self]
  dsimp only
  cases printed : printEntries stack 0 root.profile.head with
  | error stray =>
      refine .overlong fun displayed => ?_
      rw [(printEntries_ok_iff stack 0).mpr ⟨displayed, rfl⟩] at printed
      cases printed
  | ok lines =>
      have listed := (printEntries_ok_iff stack 0).mp printed
      have clean : Process.Clean ⟨proc.memory.cfgFree (some root.block), proc.buffers⟩ :=
        Process.clean_of_keeps keeps.free buffers
      exact .printed listed.1 clean rfl rfl (by rw [← listed.2])

/-- What both tools do once their source was read: print the profile and free
it, or print the code. -/
def report (made : Process × Int × Option Block) : Except Stray Ended :=
  if made.2.1 ≠ cfgOk then .ok ⟨made.1, 1, [], message made.2.1⟩
  else
    match made.2.2 with
    | none => .error .nullName
    | some p => printProfile stack front back made.1 p

theorem report_ends {list : Int × Option (Option CfgProfile)} {made : Process × Int × Option Block}
    (parsed : Memory.Parsed [] list (made.1.memory, made.2)) (buffers : Retains made.1.buffers []) :
    Ends front back message list (report stack front back message made) := by
  rcases made with ⟨proc, rc, p⟩
  dsimp only at parsed buffers
  generalize same : proc.memory = m at parsed
  unfold report
  cases parsed with
  | refused failure keeps =>
      rw [if_pos failure]
      exact .failed failure (Process.clean_of_keeps (same ▸ keeps) buffers) rfl rfl rfl
  | done keeps =>
      rw [if_neg (not_not.mpr rfl)]
      exact printProfile_ends stack front back message (same ▸ keeps) buffers

end Ending

/-- Whatever the file holds and whichever allocations fail, `cfgapply` prints
the profile that the list model reads, or the code with which it fails, and
gives back everything it allocated.  It goes astray only at a number that is
too long for `field` and at a name that is too long for a label. -/
theorem cfgapply_ends (residue : Block -> Nat -> UInt8) (env : ParseEnv) (stack : Nat -> Field 256 × Field 32)
    (file : Option OpenedFile) :
    if file.any (OpenedFile.overruns env) then cfgapply residue env stack (some file) = .error .outside
    else Ends "loaded " " entrie(s)\n" parseFailed (cfgOpenFile env file) (cfgapply residue env stack (some file)) := by
  have opened := cfgOpenFile_parsed .empty residue env file Memory.keeps_empty retains_empty
  unfold cfgapply
  dsimp only
  cases file.any (OpenedFile.overruns env) with
  | true => rfl
  | false => exact report_ends stack _ _ _ opened.1 opened.2

/-! ## A saved bundle -/

section Numbers

variable {env : ParseEnv} {data : Bytes}

/-- The number of the entry is longer than `field`, so its copy runs over what
stands behind. -/
def longNumber (e : CfgEntry) : Bool :=
  decide (e.type = cfgInt ∧ e.valueLen ≥ fieldSize)

/-- What a parse that succeeds has copied beyond `field` can be seen from its
entries, so it need not be watched while the loop runs. -/
theorem fieldOverrunsFrom_parsed {left i off : Nat} {start p : CfgProfile}
    (parsed : parseEntries env data left i off start = .ok p) :
    exists added, p.head = start.head ++ added ∧ fieldOverrunsFrom env data left i off = added.any longNumber := by
  induction left generalizing i off start with
  | zero =>
      cases parsed
      exact ⟨[], (List.append_nil _).symm, rfl⟩
  | succ left inductionHypothesis =>
      rcases bind_eq_ok.mp parsed with ⟨⟨e, next⟩, read, later⟩
      rcases inductionHypothesis later with ⟨added, head, overruns⟩
      refine ⟨e :: added, ?_, ?_⟩
      · rw [head, appendEntry_head, List.append_assoc, List.singleton_append]
      · rw [fieldOverrunsFrom, read, List.any_cons, ← overruns]
        rfl

theorem fieldOverruns_parsed {p : CfgProfile} (parsed : parseBundle env data = .ok p) :
    fieldOverruns env data = p.head.any longNumber := by
  simp only [parseBundle, bind_eq_ok, failIf_eq_ok] at parsed
  rcases parsed with ⟨_, whole, _, magic, _, version, _, limit, _, profile, entries⟩
  rcases fieldOverrunsFrom_parsed entries with ⟨added, head, overruns⟩
  rw [fieldOverruns, if_neg (by tauto), overruns, head]
  rfl

end Numbers

/-- The entry fits into the buffers on its way to the screen: its name into a
label, and its number into `field`. -/
def RawEntry.Printable (raw : RawEntry) : Prop :=
  (cString raw.name).length ≤ 31 ∧ ((raw.type.toNat : Int) = cfgInt -> raw.value.length < fieldSize)

/-- The line for an entry on disk.  It is cut at the size of the buffer that
it is printed to. -/
def RawEntry.line (raw : RawEntry) : Bytes :=
  ascii "  " ++ (ascii "[" ++ cString raw.name ++ ascii "] type=" ++ decimal raw.type.toNat ++ ascii " len=" ++
    decimal raw.value.length).take 255 ++ ascii "\n"

/-- A file that holds a bundle, with anything behind it, and that can be read
whole. -/
def savedFile (b : Bundle) (rest : Bytes) : OpenedFile where
  size := some (b.encode ++ rest).length
  content := b.encode ++ rest
  buffer := true

theorem labelLine_storedEntry (env : ParseEnv) (i : Nat) (raw : RawEntry) (rest : Bytes) :
    labelLine (storedEntry env i raw rest) = raw.line := by
  rw [labelLine, labelText, storedEntry_name, storedEntry_type, storedEntry_valueLen]
  rfl

theorem flatMap_labelLine_storedFrom (env : ParseEnv) (i : Nat) (entries : List RawEntry) (rest : Bytes) :
    (storedFrom env i entries rest).flatMap labelLine = entries.flatMap RawEntry.line := by
  induction entries generalizing i with
  | nil => rfl
  | cons raw later inductionHypothesis =>
      rw [storedFrom, List.flatMap_cons, List.flatMap_cons, labelLine_storedEntry, inductionHypothesis]

theorem printable_iff (env : ParseEnv) (i : Nat) (raw : RawEntry) (rest : Bytes) :
    Displayed (storedEntry env i raw rest) ∧ longNumber (storedEntry env i raw rest) = false ↔ raw.Printable := by
  rw [storedEntry_displayed_iff, longNumber, storedEntry_type, storedEntry_valueLen, RawEntry.Printable,
    decide_eq_false_iff_not, not_and, Nat.not_le]

theorem allPrintable_iff (env : ParseEnv) (i : Nat) (entries : List RawEntry) (rest : Bytes) :
    (forall e, e ∈ storedFrom env i entries rest -> Displayed e) ∧
        (storedFrom env i entries rest).any longNumber = false ↔
      forall raw, raw ∈ entries -> raw.Printable := by
  induction entries generalizing i with
  | nil => exact iff_of_true ⟨List.forall_mem_nil _, rfl⟩ (List.forall_mem_nil _)
  | cons raw later inductionHypothesis =>
      rw [storedFrom, List.forall_mem_cons, List.forall_mem_cons, List.any_cons, Bool.or_eq_false_iff,
        ← printable_iff env i raw (encodeEntries later ++ rest), ← inductionHypothesis (i + 1)]
      tauto

/-- A saved bundle can be printed exactly when all its entries fit, and then
every entry has its line: what was encoded is what is shown.  It is taken that
the allocations of the parse succeed, and that the file has fewer than 2^31
bytes. -/
theorem cfgapply_saved (residue : Block -> Nat -> UInt8) (env : ParseEnv) (stack : Nat -> Field 256 × Field 32)
    (succeeds : env.Succeeds) (b : Bundle) (rest : Bytes) (short : (b.encode ++ rest).length < 2 ^ 31) :
    ((exists ended, cfgapply residue env stack (some (some (savedFile b rest))) = .ok ended) ↔
      forall raw, raw ∈ b.entries -> raw.Printable) ∧
    forall ended, cfgapply residue env stack (some (some (savedFile b rest))) = .ok ended ->
      ended.code = 0 ∧ ended.err = [] ∧ ended.proc.Clean ∧
      ended.out = ascii "loaded " ++ decimal b.entries.length ++ ascii " entrie(s)\n" ++
        b.entries.flatMap RawEntry.line := by
  rcases accepts_of_succeeds succeeds short with ⟨p, accepts⟩
  have opened : cfgOpenFile env (some (savedFile b rest)) = (cfgOk, some (some p)) := by
    have content : (b.encode ++ rest).take (b.encode ++ rest).length = b.encode ++ rest := List.take_length
    rw [← accepts.accepted]
    exact congrArg (fun data => cfgParseBlob env (some data) (some none)) content
  have overruns : (savedFile b rest).overruns env = (storedFrom env 0 b.entries rest).any longNumber := by
    have read : (savedFile b rest).overruns env = fieldOverruns env (b.encode ++ rest) := by
      rw [OpenedFile.overruns]
      exact (Bool.true_and _).trans (congrArg (fieldOverruns env) List.take_length)
    rw [read, fieldOverruns_parsed (parseBundle_of_accepted accepts.accepted), accepts.head]
  have count : p.count = b.entries.length := by
    rcases (cfgParseBlob_grammar env succeeds _ short none).2.1 b rest rfl with ⟨q, same, holds⟩
    rw [accepts.accepted] at same
    cases same
    exact holds.count
  have fits := allPrintable_iff env 0 b.entries rest
  rw [← overruns, ← accepts.head] at fits
  rw [← fits]
  have ends := cfgapply_ends residue env stack (some (savedFile b rest))
  rw [Option.any_some, opened] at ends
  generalize cfgapply residue env stack (some (some (savedFile b rest))) = outcome at ends ⊢
  cases long : (savedFile b rest).overruns env with
  | true =>
      rw [long, if_pos rfl] at ends
      rw [ends]
      exact ⟨iff_of_false nofun nofun, nofun⟩
  | false =>
      rw [long, if_neg Bool.false_ne_true] at ends
      cases ends with
      | printed displayed clean code err out =>
          refine ⟨iff_of_true ⟨_, rfl⟩ ⟨displayed, rfl⟩, ?_⟩
          intro ended same
          cases same
          rw [← count, ← flatMap_labelLine_storedFrom env 0 b.entries rest, ← accepts.head]
          exact ⟨code, err, clean, out⟩
      | overlong hidden => exact ⟨iff_of_false nofun fun all => hidden all.1, nofun⟩

theorem cfgapply_greeting :
    exists ended, cfgapply (fun _ _ => 0) calm (fun _ => (.ofNat 256 0, .ofNat 32 0))
        (some (some (savedFile greeting []))) = .ok ended ∧
      ended.out = ascii "loaded 1 entrie(s)\n  [greeting] type=0 len=5\n" := by
  have saved := cfgapply_saved (fun _ _ => 0) calm (fun _ => (.ofNat 256 0, .ofNat 32 0)) ⟨rfl, fun _ => rfl⟩
    greeting [] (by decide)
  have printable : forall raw, raw ∈ greeting.entries -> raw.Printable := by
    intro raw member
    cases List.mem_singleton.mp member
    exact ⟨by decide, fun integer => absurd integer (by decide)⟩
  rcases saved.1.mpr printable with ⟨ended, printed⟩
  refine ⟨ended, printed, (saved.2 ended printed).2.2.2.trans ?_⟩
  decide

end Cascade
end BugMuseum
