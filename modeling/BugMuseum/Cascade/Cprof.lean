import BugMuseum.Cascade.ParseBlob

namespace BugMuseum
namespace Cascade

open Foundation

/-!
# The `.cprof` format

What `cprof.h` says about a bundle: a header of twelve bytes, then the entries,
each a name and a value behind their lengths.  Lengths and counts above the
limits of the reader cannot be built.  The reference reader consumes the format
from the left and reports the first check that fails.
-/

/-- An entry on disk, with a name and a value that the reader does not find
too long.  An entry over the limits cannot be built. -/
structure RawEntry where
  name : Bytes
  type : UInt8
  value : Bytes
  nameFits : name.length ≤ cprofMaxName
  valueFits : value.length ≤ cprofMaxValue

def RawEntry.encode (e : RawEntry) : Bytes :=
  toLE 2 e.name.length ++ (e.name ++ ([e.type] ++ (toLE 4 e.value.length ++ e.value)))

/-- A bundle, without the bytes that may follow its entries.  Its number of
entries is within the limit. -/
structure Bundle where
  flags : Field 2
  entries : List RawEntry
  fits : entries.length ≤ cprofMaxEntries

def encodeEntries (entries : List RawEntry) : Bytes :=
  entries.flatMap RawEntry.encode

def Bundle.header (b : Bundle) : Bytes :=
  cprofMagic ++ (toLE 2 cprofVersion ++ (b.flags.1 ++ toLE 4 b.entries.length))

def Bundle.encode (b : Bundle) : Bytes :=
  b.header ++ encodeEntries b.entries

def readEntry (input : Bytes) : Except Int (RawEntry × Bytes) := do
  let (nameLen, input) ← takeField cfgEtrunc 2 input
  let nameFits ← atMost cfgElimit nameLen.toNat cprofMaxName
  let (name, input) ← takeField cfgEtrunc nameLen.toNat input
  let (type, input) ← takeField cfgEtrunc 1 input
  let (valueLen, input) ← takeField cfgEtrunc 4 input
  let valueFits ← atMost cfgElimit valueLen.toNat cprofMaxValue
  let (value, input) ← takeField cfgEtrunc valueLen.toNat input
  return (⟨name.1, type.1.headD 0, value.1, name.2.trans_le nameFits.down,
    value.2.trans_le valueFits.down⟩, input)

def readEntries : (left : Nat) -> Bytes -> Except Int ({ es : List RawEntry // es.length = left } × Bytes)
  | 0, input => .ok (⟨[], rfl⟩, input)
  | left + 1, input => do
      let (e, input) ← readEntry input
      let (es, input) ← readEntries left input
      return (⟨e :: es.1, congrArg Nat.succ es.2⟩, input)

def readBundle (input : Bytes) : Except Int (Bundle × Bytes) := do
  let (header, input) ← takeField cfgEtrunc headerSize input
  failIf cfgEbadmagic ((header.slice 0 4 (by decide)).1 ≠ cprofMagic)
  failIf cfgEversion ((header.slice 4 2 (by decide)).toNat ≠ cprofVersion)
  let count := (header.slice 8 4 (by decide)).toNat
  let fits ← atMost cfgElimit count cprofMaxEntries
  let (entries, input) ← readEntries count input
  return (⟨header.slice 6 2 (by decide), entries.1, entries.2.trans_le fits.down⟩, input)

/-! ## The reader inverts the encoder -/

theorem RawEntry.nameLen_lt (e : RawEntry) : e.name.length < 2 ^ 16 := by
  have fits := e.nameFits
  simp only [cprofMaxName] at fits
  omega

theorem RawEntry.valueLen_lt (e : RawEntry) : e.value.length < 2 ^ 32 := by
  have fits := e.valueFits
  simp only [cprofMaxValue] at fits
  omega

theorem RawEntry.nameLen_toNat (e : RawEntry) :
    (Field.ofNat 2 e.name.length).toNat = e.name.length :=
  Field.toNat_ofNat e.nameLen_lt

theorem RawEntry.valueLen_toNat (e : RawEntry) :
    (Field.ofNat 4 e.value.length).toNat = e.value.length :=
  Field.toNat_ofNat e.valueLen_lt

theorem Bundle.count_toNat (b : Bundle) :
    (Field.ofNat 4 b.entries.length).toNat = b.entries.length := by
  have fits := b.fits
  apply Field.toNat_ofNat
  simp only [cprofMaxEntries] at fits
  omega

theorem readEntry_eq_ok {input rest : Bytes} {e : RawEntry} :
    readEntry input = .ok (e, rest) ↔ input = e.encode ++ rest := by
  simp only [readEntry, bind_eq_ok, Prod.exists, takeField_eq_ok]
  constructor
  · rintro ⟨nameLen, _, rfl, nameFits, _, name, _, rfl, type, _, rfl, valueLen, _, rfl, valueFits, _,
      value, _, rfl, result⟩
    cases result
    rcases type with ⟨type, single⟩
    rcases List.length_eq_one_iff.mp single with ⟨byte, rfl⟩
    have lengths : toLE 2 name.1.length = nameLen.1 ∧ toLE 4 value.1.length = valueLen.1 := by
      rw [name.2, value.2]
      exact ⟨congrArg Subtype.val nameLen.ofNat_toNat, congrArg Subtype.val valueLen.ofNat_toNat⟩
    simp only [RawEntry.encode, lengths, List.headD_cons, List.append_assoc]
  · intro split
    refine ⟨.ofNat 2 e.name.length, _, ?_, ⟨?_⟩, atMost_of_le _, ⟨e.name, e.nameLen_toNat.symm⟩, _, rfl,
      ⟨[e.type], rfl⟩, _, rfl, .ofNat 4 e.value.length, _, rfl, ⟨?_⟩, atMost_of_le _,
      ⟨e.value, e.valueLen_toNat.symm⟩, rest, rfl, rfl⟩
    · rw [split, RawEntry.encode]
      simp only [List.append_assoc]
      rfl
    · exact e.nameLen_toNat.symm ▸ e.nameFits
    · exact e.valueLen_toNat.symm ▸ e.valueFits

theorem readEntries_eq_ok {left : Nat} {input rest : Bytes}
    {es : { es : List RawEntry // es.length = left }} :
    readEntries left input = .ok (es, rest) ↔ input = encodeEntries es.1 ++ rest := by
  induction left generalizing input rest with
  | zero =>
      rcases es with ⟨es, empty⟩
      cases List.length_eq_zero_iff.mp empty
      simp [readEntries, encodeEntries]
  | succ left inductionHypothesis =>
      rcases es with ⟨es, counted⟩
      cases es with
      | nil => cases counted
      | cons e es =>
          simp only [readEntries, bind_eq_ok, Prod.exists, readEntry_eq_ok, inductionHypothesis]
          constructor
          · rintro ⟨first, _, rfl, later, _, rfl, result⟩
            cases result
            simp [encodeEntries]
          · intro split
            refine ⟨e, _, ?_, ⟨es, Nat.succ.inj counted⟩, rest, rfl, rfl⟩
            rw [split]
            simp [encodeEntries]

/-- The header of a bundle is the field of twelve bytes with its four
parts. -/
theorem header_eq_slices (header : Field headerSize) :
    header.1 = (header.slice 0 4 (by decide)).1 ++ ((header.slice 4 2 (by decide)).1 ++
      ((header.slice 6 2 (by decide)).1 ++ (header.slice 8 4 (by decide)).1)) := by
  have all := slice_all header.1
  rw [header.2] at all
  calc header.1 = slice header.1 0 (4 + (2 + (2 + 4))) := all.symm
    _ = _ := by simp only [slice_add, Field.slice]

theorem Bundle.header_length (b : Bundle) : b.header.length = headerSize := by
  simp only [Bundle.header, List.length_append, toLE_length, b.flags.2]
  rfl

def Bundle.headerField (b : Bundle) : Field headerSize :=
  ⟨b.header, b.header_length⟩

theorem Bundle.header_magic (b : Bundle) : slice b.header 0 4 = cprofMagic :=
  slice_append [] cprofMagic _ rfl (by decide)

theorem Bundle.header_version (b : Bundle) : slice b.header 4 2 = toLE 2 cprofVersion :=
  slice_append cprofMagic (toLE 2 cprofVersion) _ (by decide) (toLE_length ..)

theorem Bundle.header_flags (b : Bundle) : slice b.header 6 2 = b.flags.1 := by
  have before : (cprofMagic ++ toLE 2 cprofVersion).length = 6 := by decide
  rw [header, ← List.append_assoc]
  exact slice_append _ _ _ before b.flags.2

theorem Bundle.header_count (b : Bundle) : slice b.header 8 4 = toLE 4 b.entries.length := by
  have before : (cprofMagic ++ toLE 2 cprofVersion ++ b.flags.1).length = 8 := by
    rw [List.length_append, b.flags.2]
    decide
  have last := slice_append _ _ [] before (toLE_length 4 b.entries.length)
  rw [header, ← List.append_assoc, ← List.append_assoc]
  rwa [List.append_nil] at last

/-- The reader accepts exactly the encoded bundles, whatever follows them.  So
it inverts the encoder, and no two bundles have one encoding. -/
theorem readBundle_eq_ok {input rest : Bytes} {b : Bundle} :
    readBundle input = .ok (b, rest) ↔ input = b.encode ++ rest := by
  simp only [readBundle, bind_eq_ok, Prod.exists, takeField_eq_ok, failIf_eq_ok, not_not,
    readEntries_eq_ok]
  constructor
  · rintro ⟨header, _, rfl, _, magic, _, version, fits, _, entries, _, rfl, result⟩
    cases result
    have versionField : toLE 2 cprofVersion = (header.slice 4 2 (by decide)).1 := by
      rw [← version]
      exact congrArg Subtype.val (header.slice 4 2 (by decide)).ofNat_toNat
    have countField : toLE 4 entries.1.length = (header.slice 8 4 (by decide)).1 := by
      rw [entries.2]
      exact congrArg Subtype.val (header.slice 8 4 (by decide)).ofNat_toNat
    rw [Bundle.encode, Bundle.header, versionField, countField, ← magic, ← header_eq_slices,
      List.append_assoc]
  · intro split
    have version : (b.headerField.slice 4 2 (by decide)).toNat = cprofVersion :=
      (congrArg ofLE b.header_version).trans (by decide)
    have count : (b.headerField.slice 8 4 (by decide)).toNat = b.entries.length :=
      (congrArg ofLE b.header_count).trans b.count_toNat
    have flags : b.headerField.slice 6 2 (by decide) = b.flags := Subtype.ext b.header_flags
    have within := count.trans_le b.fits
    refine ⟨b.headerField, encodeEntries b.entries ++ rest, ?_, (), b.header_magic, (), version,
      ⟨within⟩, atMost_of_le within, ⟨b.entries, count.symm⟩, rest, rfl, ?_⟩
    · rw [split, Bundle.encode, List.append_assoc]
      rfl
    · simp only [flags]
      rfl

/-- The codes with which a reading can end. -/
def cprofFailures : List Int :=
  [cfgEtrunc, cfgEbadmagic, cfgEversion, cfgElimit]

theorem readEntry_failsIn (input : Bytes) : FailsIn cprofFailures (readEntry input) := by
  have truncated : cfgEtrunc ∈ cprofFailures := by decide
  have exceeded : cfgElimit ∈ cprofFailures := by decide
  apply FailsIn.bind (.takeField truncated _ _)
  intro _
  apply FailsIn.bind (.atMost exceeded _ _)
  intro _
  apply FailsIn.bind (.takeField truncated _ _)
  intro _
  apply FailsIn.bind (.takeField truncated _ _)
  intro _
  apply FailsIn.bind (.takeField truncated _ _)
  intro _
  apply FailsIn.bind (.atMost exceeded _ _)
  intro _
  exact FailsIn.bind (.takeField truncated _ _) fun _ => .ok _

theorem readEntries_failsIn (left : Nat) (input : Bytes) :
    FailsIn cprofFailures (readEntries left input) := by
  induction left generalizing input with
  | zero => exact .ok _
  | succ left inductionHypothesis =>
      apply FailsIn.bind (readEntry_failsIn input)
      intro _
      exact FailsIn.bind (inductionHypothesis _) fun _ => .ok _

theorem readBundle_failsIn (input : Bytes) : FailsIn cprofFailures (readBundle input) := by
  apply FailsIn.bind (.takeField (by decide) _ _)
  intro _
  apply FailsIn.bind (.failIf (by decide) _)
  intro _
  apply FailsIn.bind (.failIf (by decide) _)
  intro _
  apply FailsIn.bind (.atMost (by decide) _ _)
  intro _
  exact FailsIn.bind (readEntries_failsIn _ _) fun _ => .ok _

end Cascade
end BugMuseum
