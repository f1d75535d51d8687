import BugMuseum.Foundation.KeyedSearch
import BugMuseum.Cascade.Overlay
import BugMuseum.Cascade.TemplateText

namespace BugMuseum
namespace Cascade

open Foundation

/-!
# The two lookups

`find_entry` compares an entry with the key itself, and `CfgLookup` with what
`normalize_key` leaves in a buffer of 32 bytes.  The copy has no terminator of its own:
the code writes one at index 31, and at a smaller index it must have been there before.
So the lookups agree on a key that the buffer holds as it is, and besides only where
neither form of the key is the name of an entry.
-/

/-- Both lookups find the first entry with this name, and the copy of the key
stays in its buffer. -/
structure LookupAgrees (p : CfgProfile) (key : CStr) (frame : Nat -> UInt8) : Prop where
  same : cfgLookup (some p) (some key) frame = findEntry p key.1
  first : findEntry p key.1 =
    match p.head.find? (hasName key.1) with
    | some e => .found e
    | none => .absent
  inBuffer : forall memory i, 32 ≤ i -> normalizeKey key memory i = memory i

/-- The buffer holds the key as it is.  What it held before matters, as a
short key brings no terminator. -/
def HeldWhole (key : CStr) (frame : Nat -> UInt8) : Prop :=
  ReadBackWhole key frame

/-- A key of this length is copied within the buffer, or not at all. -/
def FitsNorm (key : CStr) : Prop :=
  CopyFits 64 key

/-- The key is held as it is, and no entry without a name lies in front of it;
or all entries have other names than the key and its copy, and the copy stays
in the buffer. -/
def LookupSafe (p : CfgProfile) (key : CStr) (frame : Nat -> UInt8) : Prop :=
  (HeldWhole key frame ∧ Readable CfgEntry.name key p.head) ∨
    (Lacks CfgEntry.name key p.head ∧ Lacks CfgEntry.name (normalized key frame) p.head ∧ FitsNorm key)

def toSearch : Sought CfgEntry -> Search
  | .found e => .found e
  | .absent => .absent
  | .keyless => .nullName

theorem toSearch_inj {first second : Sought CfgEntry} : toSearch first = toSearch second ↔ first = second := by
  constructor
  · intro same
    cases first <;> cases second <;> cases same <;> rfl
  · exact congrArg toSearch

theorem findFrom_seek (key : CStr) (entries : List CfgEntry) :
    findFrom key.1 entries = toSearch (seek CfgEntry.name key entries) := by
  induction entries with
  | nil => rfl
  | cons e rest inductionHypothesis =>
      rw [findFrom, seek]
      cases e.name with
      | none => rfl
      | some name =>
          dsimp only
          by_cases same : name = key
          · rw [if_pos same, if_pos (congrArg Subtype.val same), toSearch]
          · rw [if_neg same, if_neg fun equal => same (Subtype.ext equal)]
            exact inductionHypothesis

/-- The exact finder finds the first entry with the name, unless it reads a
name that is missing. -/
theorem findEntry_first_iff {p : CfgProfile} {name : Bytes} :
    (findEntry p name =
      match p.head.find? (hasName name) with
      | some e => .found e
      | none => .absent) ↔ findEntry p name ≠ .nullName := by
  have search := findFrom_find name p.head
  rw [findEntry]
  constructor
  · intro first null
    rw [null] at first
    split at first <;> cases first
  · intro clear
    cases outcome : findFrom name p.head with
    | found e =>
        rw [outcome] at search
        rw [search]
    | absent =>
        rw [outcome] at search
        rw [search]
    | nullName => exact absurd outcome clear

theorem normalized_eq_iff (key : CStr) (frame : Nat -> UInt8) : normalized key frame = key ↔ HeldWhole key frame :=
  read_copyTrimmed_eq_iff (by decide)

theorem inBuffer_iff (key : CStr) :
    (forall memory i, 32 ≤ i -> normalizeKey key memory i = memory i) ↔ FitsNorm key :=
  copyTrimmed_inside_iff

/-- `CfgLookup` and `find_entry` agree on a key exactly when the buffer holds
the key as it is and the search can read it, or when neither form of it is a
name and the copy stays in the buffer. -/
theorem lookupAgrees_iff (p : CfgProfile) (key : CStr) (frame : Nat -> UInt8) :
    LookupAgrees p key frame ↔ LookupSafe p key frame := by
  have lookup : cfgLookup (some p) (some key) frame =
      toSearch (seek CfgEntry.name (normalized key frame) p.head) := findFrom_seek (normalized key frame) p.head
  have finder : findEntry p key.1 = toSearch (seek CfgEntry.name key p.head) := findFrom_seek key p.head
  have read : findEntry p key.1 ≠ .nullName ↔ seek CfgEntry.name key p.head ≠ .keyless := by
    rw [finder, show Search.nullName = toSearch .keyless from rfl]
    exact not_congr toSearch_inj
  have agrees : LookupAgrees p key frame ↔
      (seek CfgEntry.name (normalized key frame) p.head = seek CfgEntry.name key p.head ∧
        seek CfgEntry.name key p.head ≠ .keyless) ∧ FitsNorm key := by
    rw [← inBuffer_iff, ← read, ← findEntry_first_iff, ← toSearch_inj, ← lookup, ← finder]
    exact ⟨fun ⟨same, first, inBuffer⟩ => ⟨⟨same, first⟩, inBuffer⟩,
      fun ⟨⟨same, first⟩, inBuffer⟩ => ⟨same, first, inBuffer⟩⟩
  rw [agrees, seek_agrees_iff, normalized_eq_iff, LookupSafe]
  constructor
  · rintro ⟨held | lacks, fits⟩
    · exact Or.inl held
    · exact Or.inr ⟨lacks.1, lacks.2, fits⟩
  · rintro (⟨held, readable⟩ | ⟨lacks, lacksCopy, fits⟩)
    · exact ⟨Or.inl ⟨held, readable⟩, held.copyFits⟩
    · exact ⟨Or.inr ⟨lacks, lacksCopy⟩, fits⟩

/-- Other bytes behind the key in the frame, and a key of forty bytes. -/
theorem lookups_disagree :
    ¬ LookupAgrees (greetingProfile (ascii "hello")) greetingKey (fun _ => 88) ∧
      forall p frame, ¬ LookupAgrees p (.ofBlock (List.replicate 40 65)) frame := by
  constructor
  · intro agrees
    have absent : cfgLookup (some (greetingProfile (ascii "hello"))) (some greetingKey) (fun _ => 88) = .absent := by
      rfl
    have found : findEntry (greetingProfile (ascii "hello")) greetingKey.1 =
        .found (greetingEntry (ascii "hello")) := by
      rfl
    cases absent.symm.trans (agrees.same.trans found)
  · intro p frame agrees
    have fits := (inBuffer_iff _).mp agrees.inBuffer
    revert fits
    rw [FitsNorm, CopyFits]
    decide

end Cascade
end BugMuseum
