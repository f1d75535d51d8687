import BugMuseum.Foundation.CheckedAccess
import BugMuseum.Cascade.AcceptedBundle
import BugMuseum.Cascade.TemplateText

namespace BugMuseum
namespace Cascade

open Foundation

/-!
# The labels of entries

`cfgapply` and `regimport` print one label for each entry.  `CfgFormatLabel` prints it into the
caller's 256 bytes with a bound, but it first copies the name into 32 bytes of its own, and the
parser admits names of up to 1024.
-/

/-- The text of a label, before it is cut to the size of the buffer. -/
def labelText (name : Bytes) (e : CfgEntry) : Bytes :=
  ascii "[" ++ name ++ ascii "] type=" ++ decimal e.type ++ ascii " len=" ++ decimal e.valueLen

/-- `CfgFormatLabel`, given what `label` holds before the call.  The copy to
`label` has no bound, and the print to `out` has one. -/
def cfgFormatLabel (e : CfgEntry) {outsz : Nat} (out : Field outsz) (label : Field 32) : Except Stray Bytes :=
  match e.name with
  | none => .error .nullName
  | some name => do
      let label ← putString .outside name.1 label.1
      let printed := (snprintf out.1 0 (labelText (cString label) e)).1
      if outsz = 0 then return printed
      else put .outside printed (outsz - 1) 0

/-- The loop of `cfgapply` and of `regimport`, given what the stack holds at
each entry. -/
def printEntries (stack : Nat -> Field 256 × Field 32) : Nat -> List CfgEntry -> Except Stray Bytes
  | _, [] => .ok []
  | i, e :: rest => do
      let label ← cfgFormatLabel e (stack i).1 (stack i).2
      let later ← printEntries stack (i + 1) rest
      return ascii "  " ++ cString label ++ ascii "\n" ++ later

/-- Whatever its buffers hold, the call stays inside them and leaves the text
of the label there, cut to 255 bytes, with a terminator. -/
def Displayed (e : CfgEntry) : Prop :=
  forall (out : Field 256) (label : Field 32), exists name shown, e.name = some name ∧
    cfgFormatLabel e out label = .ok shown ∧ shown.length = 256 ∧ (labelText name.1 e).take 255 ++ [0] <+: shown

/-- A name is copied exactly when its terminator fits, and then the text is
printed from the copy. -/
theorem cfgFormatLabel_eq {e : CfgEntry} {name : CStr} (named : e.name = some name) (out : Field 256)
    (label : Field 32) :
    cfgFormatLabel e out label =
      if name.1.length < 32 then .ok ((snprintf out.1 0 (labelText name.1 e)).1.set 255 0)
      else .error .outside := by
  rw [cfgFormatLabel, named]
  dsimp only
  rw [putString_eq, label.2]
  by_cases fits : name.1.length < 32
  · have last : 255 < (snprintf out.1 0 (labelText name.1 e)).1.length := by
      rw [snprintf_length, out.2]
      decide
    rw [if_pos fits, if_pos fits]
    dsimp only [bind, Except.bind]
    rw [cString_append_zero name.2]
    exact put_of_lt Stray.outside last 0
  · rw [if_neg fits, if_neg fits]
    rfl

theorem cfgFormatLabel_shows {e : CfgEntry} {name : CStr} (named : e.name = some name) (short : name.1.length ≤ 31) :
    Displayed e := by
  intro out label
  have started := starts_snprintf (by rw [out.2]; decide : 0 < out.1.length) (labelText name.1 e)
  rw [out.2] at started
  refine ⟨name, _, named, (cfgFormatLabel_eq named out label).trans (if_pos (Nat.lt_succ_of_le short)), ?_, started⟩
  rw [List.length_set, snprintf_length, out.2]

theorem short_of_ok {e : CfgEntry} {name : CStr} (named : e.name = some name) {out : Field 256} {label : Field 32}
    {shown : Bytes} (formatted : cfgFormatLabel e out label = .ok shown) : name.1.length ≤ 31 := by
  rw [cfgFormatLabel_eq named] at formatted
  split at formatted
  · rename_i short
    exact Nat.le_of_lt_succ short
  · cases formatted

/-- An entry is displayed exactly when it has a name of at most 31 bytes.  The
bound on the text of the label does not matter, as that copy is cut. -/
theorem displayed_iff {e : CfgEntry} {name : CStr} (named : e.name = some name) :
    Displayed e ↔ name.1.length ≤ 31 := by
  constructor
  · intro displayed
    rcases displayed (.ofNat 256 0) (.ofNat 32 0) with ⟨_, _, _, formatted, _⟩
    exact short_of_ok named formatted
  · exact cfgFormatLabel_shows named

/-- One call that stays inside its buffers is enough, since what the buffers
hold does not matter. -/
theorem displayed_of_ok {e : CfgEntry} {out : Field 256} {label : Field 32} {shown : Bytes}
    (formatted : cfgFormatLabel e out label = .ok shown) : Displayed e := by
  cases named : e.name with
  | none =>
      rw [cfgFormatLabel, named] at formatted
      cases formatted
  | some name => exact cfgFormatLabel_shows named (short_of_ok named formatted)

theorem storedEntry_displayed_iff (env : ParseEnv) (i : Nat) (raw : RawEntry) (rest : Bytes) :
    Displayed (storedEntry env i raw rest) ↔ (cString raw.name).length ≤ 31 :=
  displayed_iff (storedEntry_name env i raw rest)

/-- An entry of an accepted bundle is displayed exactly when its name has at
most 31 bytes in front of its first NUL.  The parser takes names of up to
1024, and the copy to the label has no bound. -/
theorem displayed_iff_shortName {env : ParseEnv} {b : Bundle} {rest : Bytes} {p : CfgProfile}
    (accepts : Accepts env b rest p) {i : Nat} {raw : RawEntry} (entry : b.entries[i]? = some raw) :
    (exists e, p.head[i]? = some e ∧ Displayed e) ↔ (cString raw.name).length ≤ 31 := by
  have stored := @storedFrom_get env i b.entries raw entry 0 rest
  rw [← accepts.head] at stored
  rw [← storedEntry_displayed_iff env (0 + i) raw (encodeEntries (b.entries.drop (i + 1)) ++ rest)]
  constructor
  · rintro ⟨e, found, displayed⟩
    rw [stored] at found
    cases found
    exact displayed
  · intro displayed
    exact ⟨_, stored, displayed⟩

/-- The name has eight bytes. -/
theorem greeting_displayed :
    exists p e, Accepts calm greeting [] p ∧ p.head[0]? = some e ∧ Displayed e := by
  have succeeds : calm.Succeeds := ⟨rfl, fun _ => rfl⟩
  rcases accepts_of_succeeds succeeds (by decide : (greeting.encode ++ []).length < 2 ^ 31) with ⟨p, accepts⟩
  have short : (cString (ascii "greeting")).length ≤ 31 := by decide
  rcases (displayed_iff_shortName accepts (rfl : greeting.entries[0]? = some _)).mpr short with ⟨e, found, displayed⟩
  exact ⟨p, e, accepts, found, displayed⟩

/-- One entry, whose name has 32 letters. -/
def overlongName : Bundle where
  flags := greeting.flags
  entries := [⟨List.replicate 32 65, 0, [], by decide, by decide⟩]
  fits := by decide

theorem overlongName_notDisplayed :
    exists p e, Accepts calm overlongName [] p ∧ p.head = [e] ∧ ¬ Displayed e := by
  have succeeds : calm.Succeeds := ⟨rfl, fun _ => rfl⟩
  rcases accepts_of_succeeds succeeds (by decide : (overlongName.encode ++ []).length < 2 ^ 31) with ⟨p, accepts⟩
  refine ⟨p, _, accepts, accepts.head, fun displayed => ?_⟩
  have short := (storedEntry_displayed_iff ..).mp displayed
  revert short
  decide

theorem labelText_clean (name : CStr) (e : CfgEntry) : (0 : UInt8) ∉ labelText name.1 e := by
  simp only [labelText, List.mem_append, not_or]
  exact ⟨⟨⟨⟨⟨by decide, name.2⟩, by decide⟩, decimal_clean e.type⟩, by decide⟩, decimal_clean e.valueLen⟩

/-- What is printed for an entry with a name: its label, indented, on a line
of its own. -/
def labelLine (e : CfgEntry) : Bytes :=
  ascii "  " ++ (labelText ((e.name.map Subtype.val).getD []) e).take 255 ++ ascii "\n"

theorem Displayed.line {e : CfgEntry} (displayed : Displayed e) (out : Field 256) (label : Field 32) :
    exists shown, cfgFormatLabel e out label = .ok shown ∧
      ascii "  " ++ cString shown ++ ascii "\n" = labelLine e := by
  rcases displayed out label with ⟨name, shown, named, formatted, _, rest, rfl⟩
  have clean : (0 : UInt8) ∉ (labelText name.1 e).take 255 := fun member =>
    labelText_clean name e (List.mem_of_mem_take member)
  refine ⟨_, formatted, ?_⟩
  rw [List.append_assoc _ [0] rest, List.singleton_append, cString_append_zero clean, labelLine, named]
  rfl

/-- All entries are listed, whatever the stack holds, exactly when each of
them is displayed. -/
theorem printEntries_ok_iff (stack : Nat -> Field 256 × Field 32) (i : Nat) {entries : List CfgEntry} {text : Bytes} :
    printEntries stack i entries = .ok text ↔
      (forall e, e ∈ entries -> Displayed e) ∧ text = entries.flatMap labelLine := by
  induction entries generalizing i text with
  | nil =>
      rw [printEntries, Except.ok.injEq]
      exact ⟨fun same => ⟨fun e member => absurd member List.not_mem_nil, same.symm⟩, fun both => both.2.symm⟩
  | cons e rest inductionHypothesis =>
      rw [printEntries, bind_eq_ok, List.flatMap_cons, List.forall_mem_cons]
      constructor
      · rintro ⟨label, formatted, later⟩
        rcases bind_eq_ok.mp later with ⟨lines, printed, whole⟩
        have displayed := displayed_of_ok formatted
        rcases displayed.line (stack i).1 (stack i).2 with ⟨shown, again, line⟩
        rw [formatted] at again
        cases again
        cases whole
        have tail := (inductionHypothesis (i + 1)).mp printed
        rw [line, tail.2]
        exact ⟨⟨displayed, tail.1⟩, rfl⟩
      · rintro ⟨⟨displayed, later⟩, rfl⟩
        rcases displayed.line (stack i).1 (stack i).2 with ⟨shown, formatted, line⟩
        refine ⟨shown, formatted, bind_eq_ok.mpr ⟨_, (inductionHypothesis (i + 1)).mpr ⟨later, rfl⟩, ?_⟩⟩
        rw [line]
        rfl

end Cascade
end BugMuseum
