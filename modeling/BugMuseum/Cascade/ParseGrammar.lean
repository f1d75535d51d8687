import BugMuseum.Cascade.Cprof

namespace BugMuseum
namespace Cascade

open Foundation

/-!
# The reader accepts exactly the format

The offset loop of `CfgParseBlob` runs in step with the reference reader: at
every check the input that is left for the reader is the buffer behind the
offset.  All sums stay below `2 ^ 32`, so the check means the same with either
width of `size_t`.
-/

/-- Every allocation succeeds, for the profile and for each of its entries. -/
structure ParseEnv.Succeeds (env : ParseEnv) : Prop where
  profile : env.profile = true
  grant : forall i, env.grant i = granted

/-- What the entry on disk becomes; the number of a `CFG_INT` entry is left
aside. -/
structure Stored (raw : RawEntry) (e : CfgEntry) : Prop where
  name : e.name = some (.ofBlock raw.name)
  type : e.type = raw.type.toNat
  valueLen : e.valueLen = raw.value.length
  value : e.type ≠ cfgInt -> e.value = some raw.value

theorem lt_sizeModulus (arch : Arch) {n : Nat} (small : n < 2 ^ 32) : n < arch.sizeModulus := by
  cases arch <;> simp only [Arch.sizeModulus] <;> omega

theorem mod_sizeModulus (arch : Arch) {n : Nat} (small : n < 2 ^ 32) : n % arch.sizeModulus = n :=
  Nat.mod_eq_of_lt (lt_sizeModulus arch small)

theorem ofBlock_terminated (text : Bytes) : CStr.ofBlock (text ++ [0]) = .ofBlock text := by
  apply Subtype.ext
  simp only [CStr.ofBlock, cString]
  induction text with
  | nil => rfl
  | cons letter text inductionHypothesis =>
      simp only [List.cons_append, List.takeWhile_cons]
      rw [inductionHypothesis]

/-- What the profile of a bundle must be: its entries in their order, and
their number. -/
structure Holds (b : Bundle) (p : CfgProfile) : Prop where
  count : p.count = b.entries.length
  entries : List.Forall₂ Stored b.entries p.head

theorem ParseEnv.byteAt_inside (env : ParseEnv) {data : Bytes} {off : Nat}
    (inside : off + 1 ≤ data.length) : env.byteAt data off = (slice data off 1).headD 0 := by
  rw [ParseEnv.byteAt, if_pos (Nat.lt_of_succ_le inside), slice_one inside]
  rfl

theorem storeEntry_granted {env : ParseEnv} (succeeds : env.Succeeds) (data : Bytes) (i off : Nat)
    (raw : RawEntry) :
    exists e, storeEntry env data i raw.name raw.type raw.value off = .ok e ∧ Stored raw e := by
  unfold storeEntry
  rw [succeeds.grant i]
  by_cases integer : (raw.type.toNat : Int) = cfgInt
  · simp only [granted, if_pos integer]
    exact ⟨_, rfl, congrArg some (ofBlock_terminated raw.name), rfl, rfl, fun other => absurd integer other⟩
  · simp only [granted, if_neg integer]
    exact ⟨_, rfl, congrArg some (ofBlock_terminated raw.name), rfl, rfl, fun _ => rfl⟩

/-- One turn of the loop reads the entry that the format has at the offset, or
fails as the format does. -/
theorem parseEntry_agrees {env : ParseEnv} (succeeds : env.Succeeds) {data : Bytes} (short : data.length < 2 ^ 31)
    {off : Nat} (i : Nat) (inside : off ≤ data.length) :
    Agrees (fun parsed read => Stored read.1 parsed.1 ∧ parsed.2 ≤ data.length ∧ read.2 = data.drop parsed.2)
      (parseEntry env data i off) (readEntry (data.drop off)) := by
  have noWrap := fun {n} => lt_sizeModulus env.arch (n := n)
  have noMod := fun {n} => mod_sizeModulus env.arch (n := n)
  unfold parseEntry readEntry
  apply Agrees.bind_room inside (noWrap (by omega))
  intro nameLen nameLenRead nameLenInside
  have nameLenValue : rdU16 data off = nameLen.toNat := congrArg ofLE nameLenRead.symm
  dsimp only
  rw [noMod (by omega : off + 2 < 2 ^ 32), nameLenValue]
  apply Agrees.bind_limit
  intro nameLimit
  simp only [cprofMaxName] at nameLimit
  apply Agrees.bind_room nameLenInside (noWrap (by omega))
  intro name nameRead nameInside
  rw [noMod (by omega : off + 2 + nameLen.toNat < 2 ^ 32)]
  apply Agrees.bind_room nameInside (noWrap (by omega))
  intro type typeRead typeInside
  rw [noMod (by omega : off + 2 + nameLen.toNat + 1 < 2 ^ 32)]
  apply Agrees.bind_room typeInside (noWrap (by omega))
  intro valueLen valueLenRead valueLenInside
  have valueLenValue : rdU32 data (off + 2 + nameLen.toNat + 1) = valueLen.toNat := congrArg ofLE valueLenRead.symm
  rw [noMod (by omega : off + 2 + nameLen.toNat + 1 + 4 < 2 ^ 32), valueLenValue]
  apply Agrees.bind_limit
  intro valueLimit
  simp only [cprofMaxValue] at valueLimit
  apply Agrees.bind_room valueLenInside (noWrap (by omega))
  intro value valueRead valueInside
  rw [noMod (by omega : off + 2 + nameLen.toNat + 1 + 4 + valueLen.toNat < 2 ^ 32)]
  have typeByte : env.byteAt data (off + 2 + nameLen.toNat) = type.1.headD 0 := by
    rw [env.byteAt_inside typeInside, typeRead]
  rw [typeByte, ← nameRead, ← valueRead]
  dsimp only
  rcases storeEntry_granted succeeds data i (off + 2 + nameLen.toNat + 1 + 4)
    ⟨name.1, type.1.headD 0, value.1, name.2.trans_le nameLimit, value.2.trans_le valueLimit⟩ with
    ⟨e, stores, stored⟩
  rw [stores]
  exact .read ⟨stored, valueInside, rfl⟩

/-- The loop appends the entries of the format, in their order.  The induction
is on the number of entries that are left. -/
theorem parseEntries_agrees {env : ParseEnv} (succeeds : env.Succeeds) {data : Bytes}
    (short : data.length < 2 ^ 31) {left : Nat} (i : Nat) {off : Nat} (inside : off ≤ data.length)
    {p : CfgProfile} (room : p.count + left < 2 ^ 32) :
    Agrees (fun parsed read => parsed.count = p.count + left ∧
        exists added, parsed.head = p.head ++ added ∧ List.Forall₂ Stored read.1.1 added)
      (parseEntries env data left i off p) (readEntries left (data.drop off)) := by
  induction left generalizing i off p with
  | zero => exact .read ⟨rfl, [], (List.append_nil _).symm, .nil⟩
  | succ left inductionHypothesis =>
      unfold parseEntries readEntries
      apply (parseEntry_agrees succeeds short i inside).bind
      intro parsed read same
      rcases parsed with ⟨e, next⟩
      rcases read with ⟨raw, input⟩
      rcases same with ⟨stored, nextInside, rfl⟩
      have counted : (appendEntry p e).count = p.count + 1 := Nat.mod_eq_of_lt (by omega)
      have later := inductionHypothesis (i + 1) nextInside (p := appendEntry p e) (by omega)
      apply later.build
      intro whole rest same
      rcases same with ⟨count, added, head, all⟩
      refine ⟨by omega, e :: added, ?_, .cons stored all⟩
      rw [head, appendEntry_head, List.append_assoc]
      rfl

/-- `CfgParseBlob` and the reference reader fail alike, and what one stores is
what the other reads. -/
theorem parseBundle_agrees {env : ParseEnv} (succeeds : env.Succeeds) {data : Bytes}
    (short : data.length < 2 ^ 31) :
    Agrees (fun p read => Holds read.1 p) (parseBundle env data) (readBundle data) := by
  unfold parseBundle readBundle
  by_cases cut : data.length < headerSize
  · rw [takeField_of_short _ cut, failIf, if_pos cut]
    exact .failed cfgEtrunc
  · have whole : headerSize ≤ data.length := Nat.le_of_not_lt cut
    let header : Field headerSize := ⟨data.take headerSize, List.length_take_of_le whole⟩
    have taken : takeField cfgEtrunc headerSize data = .ok (header, data.drop headerSize) := by
      rw [takeField, dif_pos whole]
    have magic : slice data 0 4 = (header.slice 0 4 (by decide)).1 :=
      (slice_take data (by decide)).symm
    have version : rdU16 data 4 = (header.slice 4 2 (by decide)).toNat :=
      congrArg ofLE (slice_take data (by decide)).symm
    have count : rdU32 data 8 = (header.slice 8 4 (by decide)).toNat :=
      congrArg ofLE (slice_take data (by decide)).symm
    rw [taken, failIf, if_neg cut, magic, version, count]
    refine .bind_failIf fun _ => .bind_failIf fun _ => .bind_limit fun within => ?_
    rw [succeeds.profile]
    have small : cfgNew.count + (header.slice 8 4 (by decide)).toNat < 2 ^ 32 := by
      simp only [cfgNew, cprofMaxEntries] at within ⊢
      omega
    have entries := parseEntries_agrees succeeds short 0 whole small
    apply entries.build
    intro p read same
    rcases same with ⟨counted, added, head, stored⟩
    refine ⟨?_, ?_⟩
    · rw [counted, read.1.2]
      exact Nat.zero_add _
    · rw [head]
      exact stored

/-- With either width of `size_t` and any memory around the buffer,
`CfgParseBlob` accepts exactly the bundles, followed by anything, and stores
their entries in order.  On any other input it returns the code of the first
check that fails and leaves the caller's variable alone. -/
theorem cfgParseBlob_grammar (env : ParseEnv) (succeeds : env.Succeeds) (data : Bytes)
    (short : data.length < 2 ^ 31) (old : Option CfgProfile) :
    ((cfgParseBlob env (some data) (some old)).1 = cfgOk ↔
      exists b rest, data = Bundle.encode b ++ rest) ∧
    (forall b rest, data = Bundle.encode b ++ rest ->
      exists p, (cfgParseBlob env (some data) (some old)).2 = some (some p) ∧ Holds b p) ∧
    (¬ (exists b rest, data = Bundle.encode b ++ rest) ->
      exists code, code ∈ cprofFailures ∧ readBundle data = .error code ∧
        cfgParseBlob env (some data) (some old) = (code, some old)) := by
  rcases (parseBundle_agrees succeeds short).outcome with
    ⟨code, parsed, read⟩ | ⟨p, ⟨b, rest⟩, parsed, read, holds⟩
  · have rejected : ¬ exists b rest, data = Bundle.encode b ++ rest := by
      rintro ⟨b, rest, split⟩
      rw [readBundle_eq_ok.mpr split] at read
      cases read
    have listed := readBundle_failsIn data code read
    have result : cfgParseBlob env (some data) (some old) = (code, some old) := by
      simp only [cfgParseBlob, parsed]
    have failure : code ≠ cfgOk := fun success => absurd (success ▸ listed) (by decide)
    rw [result]
    refine ⟨⟨fun success => absurd success failure, fun accepted => absurd accepted rejected⟩, ?_, ?_⟩
    · exact fun b rest split => absurd ⟨b, rest, split⟩ rejected
    · exact fun _ => ⟨code, listed, read, rfl⟩
  · have accepted : data = b.encode ++ rest := readBundle_eq_ok.mp read
    have result : cfgParseBlob env (some data) (some old) = (cfgOk, some (some p)) := by
      simp only [cfgParseBlob, parsed]
    rw [result]
    refine ⟨⟨fun _ => ⟨b, rest, accepted⟩, fun _ => rfl⟩, fun other tail split => ?_, fun rejected => ?_⟩
    · rw [readBundle_eq_ok.mpr split] at read
      cases read
      exact ⟨p, rfl, holds⟩
    · exact absurd ⟨b, rest, accepted⟩ rejected

def calm : ParseEnv where
  arch := .x86
  beyond := fun _ => 0
  frame := fun _ _ => 0
  profile := true
  grant := fun _ => granted

def greeting : Bundle where
  flags := ⟨[0, 0], rfl⟩
  entries := [⟨ascii "greeting", 0, ascii "hello", by decide, by decide⟩]
  fits := by decide

theorem greeting_accepted :
    (cfgParseBlob calm (some (greeting.encode ++ [1, 2, 3, 4])) (some none)).1 = cfgOk :=
  (cfgParseBlob_grammar calm ⟨rfl, fun _ => rfl⟩ _ (by decide) none).1.mpr ⟨greeting, _, rfl⟩

end Cascade
end BugMuseum
