import BugMuseum.Cascade.PeekedBlob

namespace BugMuseum
namespace Cascade

open Foundation

/-!
# What an accepted bundle stores

Whatever the allocator does, a buffer that `CfgParseBlob` accepts is a bundle with
something behind it, and the profile has one entry for each entry of the bundle.  Beside
the text of an entry, the number of a `CFG_INT` entry may depend on what follows its
value in the buffer and on the stack.
-/

/-- The buffer ends far enough below the top of the address space that no
offset wraps. -/
def ParseEnv.Room (env : ParseEnv) (data : Bytes) : Prop :=
  data.length + 2 ^ 21 ≤ env.arch.sizeModulus

/-- What is stored for entry `i`, with the rest of the buffer behind its
value.  Only the number of a `CFG_INT` entry depends on that rest. -/
def storedEntry (env : ParseEnv) (i : Nat) (raw : RawEntry) (rest : Bytes) : CfgEntry :=
  if (raw.type.toNat : Int) = cfgInt then
    let ival := (decodeField (env.byteAt (raw.value ++ rest)) raw.value.length (env.frame i)).1
    ⟨some (.ofBlock raw.name), raw.type.toNat, raw.value.length, none, ival, sized_none _⟩
  else
    ⟨some (.ofBlock raw.name), raw.type.toNat, raw.value.length, some raw.value, 0, sized_self raw.value⟩

/-- The entries from number `i` on, each with what follows it in the
buffer. -/
def storedFrom (env : ParseEnv) : Nat -> List RawEntry -> Bytes -> List CfgEntry
  | _, [], _ => []
  | i, raw :: later, rest =>
      storedEntry env i raw (encodeEntries later ++ rest) :: storedFrom env (i + 1) later rest

/-- The buffer holds this bundle and these bytes behind it, and the parse
stores this profile. -/
structure Accepts (env : ParseEnv) (b : Bundle) (rest : Bytes) (p : CfgProfile) : Prop where
  room : env.Room (b.encode ++ rest)
  accepted : cfgParseBlob env (some (b.encode ++ rest)) (some none) = (cfgOk, some (some p))

section Fields

variable (env : ParseEnv) (i : Nat) (raw : RawEntry) (rest : Bytes)

theorem storedEntry_name : (storedEntry env i raw rest).name = some (.ofBlock raw.name) := by
  unfold storedEntry
  split <;> rfl

theorem storedEntry_type : (storedEntry env i raw rest).type = raw.type.toNat := by
  unfold storedEntry
  split <;> rfl

theorem storedEntry_valueLen : (storedEntry env i raw rest).valueLen = raw.value.length := by
  unfold storedEntry
  split <;> rfl

variable {raw}

theorem storedEntry_value (other : (raw.type.toNat : Int) ≠ cfgInt) :
    (storedEntry env i raw rest).value = some raw.value := by
  rw [storedEntry, if_neg other]

theorem storedEntry_ival (integer : (raw.type.toNat : Int) = cfgInt) :
    (storedEntry env i raw rest).ival =
      (decodeField (env.byteAt (raw.value ++ rest)) raw.value.length (env.frame i)).1 := by
  rw [storedEntry, if_pos integer]

end Fields

theorem ParseEnv.byteAt_add (env : ParseEnv) {data : Bytes} {off : Nat} (inside : off ≤ data.length) (k : Nat) :
    env.byteAt data (off + k) = env.byteAt (data.drop off) k := by
  have remaining : (data.drop off).length = data.length - off := List.length_drop
  by_cases within : off + k < data.length
  · rw [ParseEnv.byteAt, ParseEnv.byteAt, if_pos within, if_pos (by omega), List.getD_eq_getElem?_getD,
      List.getD_eq_getElem?_getD, List.getElem?_drop]
  · rw [ParseEnv.byteAt, ParseEnv.byteAt, if_neg within, if_neg (by omega)]
    congr 1
    omega

/-- What the allocations leave of an entry, if they succeed. -/
theorem storeEntry_ok {env : ParseEnv} {data rest : Bytes} {i off : Nat} {raw : RawEntry} {e : CfgEntry}
    (inside : off ≤ data.length) (stands : data.drop off = raw.value ++ rest)
    (stores : storeEntry env data i raw.name raw.type raw.value off = .ok e) : e = storedEntry env i raw rest := by
  have source : (fun k => env.byteAt data (off + k)) = env.byteAt (raw.value ++ rest) := by
    funext k
    rw [env.byteAt_add inside k, stands]
  rw [storeEntry] at stores
  simp only [bind_eq_ok] at stores
  rcases stores with ⟨_, _, _, _, result⟩
  rw [source, ofBlock_terminated] at result
  by_cases integer : (raw.type.toNat : Int) = cfgInt
  · rw [if_pos integer] at result
    rw [storedEntry, if_pos integer]
    exact (Except.ok.inj result).symm
  · rw [if_neg integer] at result
    rcases bind_eq_ok.mp result with ⟨_, _, last⟩
    rw [storedEntry, if_neg integer]
    exact (Except.ok.inj last).symm

/-- A turn of the loop that succeeds has read an entry of the format, and
stands behind it. -/
theorem parseEntry_ok {env : ParseEnv} {data : Bytes} {i off next : Nat} {e : CfgEntry} (room : env.Room data)
    (inside : off ≤ data.length) (parsed : parseEntry env data i off = .ok (e, next)) :
    exists raw rest, data.drop off = RawEntry.encode raw ++ rest ∧ next = off + raw.encode.length ∧
      e = storedEntry env i raw rest := by
  rw [ParseEnv.Room] at room
  simp only [parseEntry, bind_eq_ok, failIf_eq_ok] at parsed
  rcases parsed with ⟨_, nameLenInside, _, nameLimit, _, nameInside, _, typeInside, _, valueLenInside, _,
    valueLimit, _, valueInside, stored, stores, result⟩
  simp only [cprofMaxName, cprofMaxValue, Nat.not_lt] at nameLimit valueLimit
  -- both limits are below the room that is left, so no sum wraps
  simp (disch := omega) only [Nat.mod_eq_of_lt] at valueLimit
  simp (disch := omega) only [Nat.mod_eq_of_lt, Nat.not_lt, gt_iff_lt] at nameLenInside nameInside typeInside
  simp (disch := omega) only [Nat.mod_eq_of_lt, Nat.not_lt, gt_iff_lt] at valueLenInside valueInside stores result
  cases result
  generalize nameLenEq : rdU16 data off = nameLen at *
  generalize valueLenEq : rdU32 data (off + 2 + nameLen + 1) = valueLen at *
  have nameLength := slice_length nameInside
  have valueLength := slice_length valueInside
  have nameLenField : toLE 2 nameLen = slice data off 2 := nameLenEq ▸ toLE_slice nameLenInside
  have valueLenField : toLE 4 valueLen = slice data (off + 2 + nameLen + 1) 4 :=
    valueLenEq ▸ toLE_slice valueLenInside
  have typeField : [env.byteAt data (off + 2 + nameLen)] = slice data (off + 2 + nameLen) 1 := by
    rw [env.byteAt_inside typeInside, slice_one typeInside]
    rfl
  let raw : RawEntry := ⟨slice data (off + 2) nameLen, env.byteAt data (off + 2 + nameLen),
    slice data (off + 2 + nameLen + 1 + 4) valueLen, nameLength.trans_le nameLimit, valueLength.trans_le valueLimit⟩
  refine ⟨raw, data.drop (off + 2 + nameLen + 1 + 4 + valueLen), ?_, ?_, ?_⟩
  · rw [drop_eq_slice_append data off 2, drop_eq_slice_append data (off + 2) nameLen,
      drop_eq_slice_append data (off + 2 + nameLen) 1, drop_eq_slice_append data (off + 2 + nameLen + 1) 4,
      drop_eq_slice_append data (off + 2 + nameLen + 1 + 4) valueLen]
    simp only [raw, RawEntry.encode, nameLength, valueLength, nameLenField, valueLenField, typeField,
      List.append_assoc]
  · simp only [raw, RawEntry.encode, List.length_append, toLE_length, List.length_singleton, nameLength, valueLength]
    omega
  · have behind : off + 2 + nameLen + 1 + 4 ≤ data.length := valueLenInside
    exact storeEntry_ok behind (drop_eq_slice_append data _ valueLen) stores

/-- The loop stores the entries of a bundle one after the other.  The
induction is on the number that the header announces. -/
theorem parseEntries_ok {env : ParseEnv} {data : Bytes} (room : env.Room data) {left : Nat} (i : Nat) {off : Nat}
    (inside : off ≤ data.length) {start p : CfgProfile}
    (parsed : parseEntries env data left i off start = .ok p) :
    exists entries rest, entries.length = left ∧ data.drop off = encodeEntries entries ++ rest ∧
      p.head = start.head ++ storedFrom env i entries rest := by
  induction left generalizing i off start with
  | zero =>
      cases parsed
      exact ⟨[], data.drop off, rfl, rfl, (List.append_nil _).symm⟩
  | succ left inductionHypothesis =>
      rcases bind_eq_ok.mp parsed with ⟨⟨e, next⟩, first, later⟩
      rcases parseEntry_ok room inside first with ⟨raw, behind, stands, rfl, rfl⟩
      have measured := congrArg List.length stands
      rw [List.length_drop, List.length_append] at measured
      have nextInside : off + raw.encode.length ≤ data.length := by omega
      rcases inductionHypothesis (i + 1) nextInside later with ⟨entries, rest, counted, tail, head⟩
      have split : behind = encodeEntries entries ++ rest := by
        rw [← tail, ← List.drop_drop, stands, List.drop_left]
      refine ⟨raw :: entries, rest, congrArg Nat.succ counted, ?_, ?_⟩
      · rw [stands, split, encodeEntries, encodeEntries, List.flatMap_cons, List.append_assoc]
      · rw [head, appendEntry_head, split, List.append_assoc]
        rfl

theorem parseBundle_ok {env : ParseEnv} {data : Bytes} {p : CfgProfile} (room : env.Room data)
    (parsed : parseBundle env data = .ok p) :
    exists b rest, data = Bundle.encode b ++ rest ∧ p.head = storedFrom env 0 b.entries rest := by
  simp only [parseBundle, bind_eq_ok, failIf_eq_ok, not_not, Nat.not_lt] at parsed
  rcases parsed with ⟨_, whole, _, magic, _, version, _, limit, _, _, stores⟩
  rcases parseEntries_ok room 0 whole stores with ⟨entries, rest, counted, stands, head⟩
  let header : Field headerSize := ⟨data.take headerSize, List.length_take_of_le whole⟩
  let b : Bundle := ⟨header.slice 6 2 (by decide), entries, counted.trans_le limit⟩
  have encoded : b.header = header.1 := by
    have versionField : toLE 2 cprofVersion = slice data 4 2 := by
      rw [← version]
      exact toLE_slice (whole.trans' (by decide))
    have countField : toLE 4 entries.length = slice data 8 4 := by
      rw [counted]
      exact toLE_slice whole
    rw [header_eq_slices header, Bundle.header, versionField, countField, ← magic]
    simp only [b, header, Field.slice]
    rw [slice_take data (by decide), slice_take data (by decide), slice_take data (by decide),
      slice_take data (by decide)]
  refine ⟨b, rest, ?_, head⟩
  rw [Bundle.encode, encoded, List.append_assoc, ← stands, List.take_append_drop]

theorem parseBundle_of_accepted {env : ParseEnv} {data : Bytes} {p : CfgProfile}
    (accepted : cfgParseBlob env (some data) (some none) = (cfgOk, some (some p))) :
    parseBundle env data = .ok p := by
  rw [cfgParseBlob] at accepted
  cases parsed : parseBundle env data with
  | error code =>
      rw [parsed] at accepted
      cases (Prod.mk.inj accepted).2
  | ok q =>
      rw [parsed] at accepted
      cases (Prod.mk.inj accepted).2
      rfl

/-- What is accepted is a bundle, with anything behind it.  No allocation is
assumed to succeed. -/
theorem accepts_of_accepted {env : ParseEnv} {data : Bytes} {p : CfgProfile} (room : env.Room data)
    (accepted : cfgParseBlob env (some data) (some none) = (cfgOk, some (some p))) :
    exists b rest, data = Bundle.encode b ++ rest ∧ Accepts env b rest p := by
  rcases parseBundle_ok room (parseBundle_of_accepted accepted) with ⟨b, rest, rfl, _⟩
  exact ⟨b, rest, rfl, room, accepted⟩

/-- The profile of an accepted bundle, entry by entry and in the same
order. -/
theorem Accepts.head {env : ParseEnv} {b : Bundle} {rest : Bytes} {p : CfgProfile}
    (accepts : Accepts env b rest p) : p.head = storedFrom env 0 b.entries rest := by
  rcases parseBundle_ok accepts.room (parseBundle_of_accepted accepts.accepted) with ⟨other, behind, split, head⟩
  have read := readBundle_eq_ok.mpr (rfl : b.encode ++ rest = b.encode ++ rest)
  rw [readBundle_eq_ok.mpr split] at read
  cases read
  exact head

/-- When every allocation succeeds, a bundle is accepted, whatever follows it
in the buffer and whatever is on the stack. -/
theorem accepts_of_succeeds {env : ParseEnv} (succeeds : env.Succeeds) {b : Bundle} {rest : Bytes}
    (short : (b.encode ++ rest).length < 2 ^ 31) : exists p, Accepts env b rest p := by
  have grammar := cfgParseBlob_grammar env succeeds _ short none
  rcases grammar.2.1 b rest rfl with ⟨p, stored, _⟩
  have small := lt_sizeModulus env.arch (n := (b.encode ++ rest).length + 2 ^ 21) (by omega)
  exact ⟨p, Nat.le_of_lt small, Prod.ext (grammar.1.mpr ⟨b, rest, rfl⟩) stored⟩

/-- Entry `k` of the bundle is stored as entry `k` of the profile. -/
theorem storedFrom_get {env : ParseEnv} {k : Nat} {entries : List RawEntry} {raw : RawEntry}
    (entry : entries[k]? = some raw) (i : Nat) (rest : Bytes) :
    (storedFrom env i entries rest)[k]? =
      some (storedEntry env (i + k) raw (encodeEntries (entries.drop (k + 1)) ++ rest)) := by
  induction entries generalizing i k with
  | nil => cases entry
  | cons first later inductionHypothesis =>
      cases k with
      | zero =>
          cases entry
          rfl
      | succ k =>
          have further := inductionHypothesis entry (i + 1)
          rw [Nat.add_right_comm, Nat.add_assoc] at further
          exact further

end Cascade
end BugMuseum
