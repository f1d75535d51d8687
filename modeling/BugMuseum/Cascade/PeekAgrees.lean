import Mathlib.Data.Option.Basic
import BugMuseum.Cascade.AcceptedBundle

namespace BugMuseum
namespace Cascade

open Foundation

/-!
# The quick peek and the full parser

The peek checks neither the header nor the limits on the lengths.  On a payload that
`CfgParseBlob` accepts these checks hold anyhow, and the two cursors visit the same heads of
entries.  What the peek reports is then the value of the first blob in the parsed list.
-/

def CfgEntry.isBlob (e : CfgEntry) : Bool :=
  decide (e.type = cfgBlob)

/-- The offset and the length that are reported delimit the value of the
entry. -/
structure Delimits (payload : Bytes) (blob : Nat × Nat) (e : CfgEntry) : Prop where
  inside : blob.1 + blob.2 ≤ payload.length
  value : e.value = some (slice payload blob.1 blob.2)
  length : e.valueLen = blob.2

/-- The peek reports a blob exactly when the profile has one, and then the
value of the first. -/
structure PeekAgrees (arch : Arch) (payload : Bytes) (p : CfgProfile) : Prop where
  finds : (peekFirstBlob arch payload).isSome = true ↔ exists e, e ∈ p.head ∧ e.type = cfgBlob
  first : forall blob, peekFirstBlob arch payload = some blob ->
    exists e, p.head.find? CfgEntry.isBlob = some e ∧ Delimits payload blob e

theorem storedEntry_isBlob (env : ParseEnv) (i : Nat) (raw : RawEntry) (rest : Bytes) :
    (storedEntry env i raw rest).isBlob = raw.head.isBlob := by
  rw [CfgEntry.isBlob, storedEntry_type]
  rfl

/-- A blob is stored with the bytes of its value, and these stand behind its
head. -/
theorem storedEntry_delimits {env : ParseEnv} {i : Nat} {raw : RawEntry} {payload before behind : Bytes}
    (rest : Bytes) (split : payload = before ++ (raw.encode ++ behind)) (blob : raw.head.isBlob = true) :
    Delimits payload (before.length + raw.head.encode.length, raw.value.length) (storedEntry env i raw rest) := by
  have parted : payload = (before ++ raw.head.encode) ++ (raw.value ++ behind) := by
    rw [split, raw.encode_eq, List.append_assoc, List.append_assoc]
  have other : (raw.type.toNat : Int) ≠ cfgInt := by
    have kind : (raw.type.toNat : Int) = cfgBlob := of_decide_eq_true blob
    rw [kind]
    decide
  refine ⟨?_, ?_, storedEntry_valueLen env i raw rest⟩
  · rw [parted, List.length_append, List.length_append, List.length_append]
    dsimp only
    omega
  · rw [storedEntry_value env i rest other, parted]
    exact congrArg some (slice_append _ raw.value behind List.length_append rfl).symm

/-- From the head of an entry on, the peek and the parsed list come to the
same blob.  The induction is on the entries. -/
theorem peekFrom_stored (env : ParseEnv) {payload before rest : Bytes} {entries : List RawEntry} (i : Nat)
    (split : payload = before ++ (encodeEntries entries ++ rest)) (addressed : payload.length < env.arch.sizeModulus) :
    Option.Rel (Delimits payload) (peekFrom env.arch payload entries.length before.length)
      ((storedFrom env i entries rest).find? CfgEntry.isBlob) := by
  induction entries generalizing i before with
  | nil => exact .none
  | cons raw later inductionHypothesis =>
      have parted : payload = before ++ (raw.encode ++ (encodeEntries later ++ rest)) := by
        rw [split, encodeEntries, List.flatMap_cons, List.append_assoc]
        rfl
      have kind := storedEntry_isBlob env i raw (encodeEntries later ++ rest)
      rw [List.length_cons, peekFrom_entry env.arch later.length parted addressed, storedFrom]
      cases blob : raw.head.isBlob with
      | true =>
          rw [if_pos rfl, List.find?_cons_of_pos (kind.trans blob)]
          exact .some (storedEntry_delimits _ parted blob)
      | false =>
          have other : ¬ (storedEntry env i raw (encodeEntries later ++ rest)).isBlob = true := by
            rw [kind, blob]
            exact Bool.false_ne_true
          rw [if_neg Bool.false_ne_true, List.find?_cons_of_neg other]
          apply inductionHypothesis
          rw [parted, List.append_assoc]

/-- On every payload that is accepted, the peek and the parser agree on the
first blob, whatever the allocator and the stack hold, and with either width
of `size_t`. -/
theorem peek_agrees {env : ParseEnv} {payload : Bytes} {p : CfgProfile} (room : env.Room payload)
    (accepted : cfgParseBlob env (some payload) (some none) = (cfgOk, some (some p))) :
    PeekAgrees env.arch payload p := by
  rcases accepts_of_accepted room accepted with ⟨b, rest, rfl, accepts⟩
  have addressed : (b.encode ++ rest).length < env.arch.sizeModulus := by
    rw [ParseEnv.Room] at room
    omega
  have split : b.encode ++ rest = b.header ++ (encodeEntries b.entries ++ rest) := by
    rw [Bundle.encode, List.append_assoc]
  have whole : ¬ (b.encode ++ rest).length < headerSize := by
    rw [split, List.length_append, b.header_length]
    omega
  have walked := peekFrom_stored env 0 split addressed
  rw [b.header_length, ← b.count_bytes rest, ← accepts.head] at walked
  have peeked : peekFirstBlob env.arch (b.encode ++ rest) =
      peekFrom env.arch (b.encode ++ rest) (rdU32 (b.encode ++ rest) 8) headerSize := if_neg whole
  rw [← peeked] at walked
  constructor
  · have listed : (exists e, e ∈ p.head ∧ e.type = cfgBlob) ↔
        (p.head.find? CfgEntry.isBlob).isSome = true := by
      simp only [List.find?_isSome, CfgEntry.isBlob, decide_eq_true_eq]
    rw [listed]
    generalize peekFirstBlob env.arch (b.encode ++ rest) = peeked at walked ⊢
    generalize p.head.find? CfgEntry.isBlob = first at walked ⊢
    cases walked with
    | some _ => exact iff_of_true rfl rfl
    | none => exact iff_of_false Bool.false_ne_true Bool.false_ne_true
  · intro blob found
    rw [found] at walked
    cases related : p.head.find? CfgEntry.isBlob with
    | none =>
        rw [related] at walked
        cases walked
    | some e =>
        rw [related] at walked
        cases walked with
        | some delimits => exact ⟨e, rfl, delimits⟩

/-- The service takes no payload without that room, as its limit is far below
any address space. -/
theorem room_of_limited {payload : Bytes} (env : ParseEnv) (limited : payload.length ≤ cascadeMaxPayload) :
    env.Room payload := by
  have small : payload.length + 2 ^ 21 < 2 ^ 32 := by
    rw [cascadeMaxPayload] at limited
    omega
  exact Nat.le_of_lt (lt_sizeModulus env.arch small)

def numberAndBlob : Bundle where
  flags := greeting.flags
  entries := [⟨ascii "size", 3, ascii "80", by decide, by decide⟩, ⟨ascii "key", 2, [1, 2, 3], by decide, by decide⟩]
  fits := by decide

theorem numberAndBlob_agrees :
    exists p, PeekAgrees .x86 numberAndBlob.encode p ∧ p.head.length = 2 :=
  ⟨_, peek_agrees (room_of_limited calm (by decide))
    (rfl : cfgParseBlob calm (some numberAndBlob.encode) (some none) = (cfgOk, some (some _))), rfl⟩

end Cascade
end BugMuseum
