import BugMuseum.Foundation.CheckedAccess
import BugMuseum.Cascade.PeekedBlob

namespace BugMuseum
namespace Cascade

open Foundation

/-!
# The bounds of the quick peek

Every read of `peek_first_blob` is behind a comparison with the length of the payload, and
the cursor never gets beyond it.  The last comparison of a turn is another matter: there
a length of 32 bits is added, and a `size_t` of 32 bits may wrap.  The reads stay inside
even so, but the blob that is reported then reaches far behind the payload.
-/

/-- The loop of `peek_first_blob` with a check of every read.  The comparisons
of the source are kept as they are. -/
def peekCheckedFrom (arch : Arch) (data : Bytes) : Nat -> Nat -> Except Unit (Option (Nat × Nat))
  | 0, _ => return none
  | left + 1, off => do
      let size := arch.sizeModulus
      if (off + 2) % size > data.length then return none
      else
        let nl ← fetchSlice () data off 2
        let off := (off + 2) % size
        if (off + ofLE nl) % size > data.length then return none
        else
          let off := (off + ofLE nl) % size
          if (off + 1) % size > data.length then return none
          else
            let type ← fetch () data off
            let off := (off + 1) % size
            if (off + 4) % size > data.length then return none
            else
              let vl ← fetchSlice () data off 4
              let off := (off + 4) % size
              if (off + ofLE vl) % size > data.length then return none
              else if (type.toNat : Int) = cfgBlob then return some (off, ofLE vl)
              else peekCheckedFrom arch data left ((off + ofLE vl) % size)

/-- `peek_first_blob` with a check of every read. -/
def peekChecked (arch : Arch) (data : Bytes) : Except Unit (Option (Nat × Nat)) := do
  if data.length < headerSize then return none
  else
    let count ← fetchSlice () data 8 4
    peekCheckedFrom arch data (ofLE count) headerSize

/-- All reads are inside the payload, and so is the blob that is reported.
The first part holds of every payload that the service takes. -/
structure PeekInside (arch : Arch) (payload : Bytes) : Prop where
  reads : peekChecked arch payload = .ok (peekFirstBlob arch payload)
  present : forall off declared, peekFirstBlob arch payload = some (off, declared) ->
    off + declared ≤ payload.length

/-- The cursor stays inside the payload, and with it every read.  So the
checks change nothing.  The induction is on the number of entries that are
left. -/
theorem peekCheckedFrom_eq (arch : Arch) {data : Bytes} (short : data.length < 2 ^ 31) (left : Nat) {off : Nat}
    (inside : off ≤ data.length) : peekCheckedFrom arch data left off = .ok (peekFrom arch data left off) := by
  have noMod := fun {n} => mod_sizeModulus arch (n := n)
  induction left generalizing off with
  | zero => rfl
  | succ left inductionHypothesis =>
      rw [peekCheckedFrom, peekFrom]
      dsimp only
      rw [noMod (by omega : off + 2 < 2 ^ 32)]
      by_cases nameLenBeyond : off + 2 > data.length
      · rw [if_pos nameLenBeyond, if_pos nameLenBeyond]
        rfl
      · rw [if_neg nameLenBeyond, if_neg nameLenBeyond, fetchSlice_of_le () (Nat.not_lt.mp nameLenBeyond)]
        dsimp only [bind, Except.bind]
        have nameLenFits : rdU16 data off < 2 ^ 16 := ofLE_slice_lt (Nat.not_lt.mp nameLenBeyond)
        rw [show ofLE (slice data off 2) = rdU16 data off from rfl]
        generalize rdU16 data off = nameLen at nameLenFits
        rw [noMod (by omega : off + 2 + nameLen < 2 ^ 32)]
        by_cases nameBeyond : off + 2 + nameLen > data.length
        · rw [if_pos nameBeyond, if_pos nameBeyond]
          rfl
        · rw [if_neg nameBeyond, if_neg nameBeyond, noMod (by omega : off + 2 + nameLen + 1 < 2 ^ 32)]
          by_cases typeBeyond : off + 2 + nameLen + 1 > data.length
          · rw [if_pos typeBeyond, if_pos typeBeyond]
            rfl
          · rw [if_neg typeBeyond, if_neg typeBeyond, fetch_getD () (Nat.not_lt.mp typeBeyond) 0]
            dsimp only
            rw [noMod (by omega : off + 2 + nameLen + 1 + 4 < 2 ^ 32)]
            by_cases declaredBeyond : off + 2 + nameLen + 1 + 4 > data.length
            · rw [if_pos declaredBeyond, if_pos declaredBeyond]
              rfl
            · rw [if_neg declaredBeyond, if_neg declaredBeyond, fetchSlice_of_le () (Nat.not_lt.mp declaredBeyond)]
              dsimp only
              rw [show ofLE (slice data (off + 2 + nameLen + 1) 4) = rdU32 data (off + 2 + nameLen + 1) from rfl]
              by_cases valueBeyond :
                  (off + 2 + nameLen + 1 + 4 + rdU32 data (off + 2 + nameLen + 1)) % arch.sizeModulus > data.length
              · rw [if_pos valueBeyond, if_pos valueBeyond]
                rfl
              · rw [if_neg valueBeyond, if_neg valueBeyond]
                split
                · rfl
                · exact inductionHypothesis (Nat.not_lt.mp valueBeyond)

theorem peekChecked_eq (arch : Arch) {payload : Bytes} (short : payload.length < 2 ^ 31) :
    peekChecked arch payload = .ok (peekFirstBlob arch payload) := by
  rw [peekChecked, peekFirstBlob]
  by_cases header : payload.length < headerSize
  · rw [if_pos header, if_pos header]
    rfl
  · have whole : headerSize ≤ payload.length := Nat.not_lt.mp header
    rw [if_neg header, if_neg header, fetchSlice_of_le () (show 8 + 4 ≤ payload.length from whole)]
    exact peekCheckedFrom_eq arch short (rdU32 payload 8) whole

/-- What the last comparison of a turn says about the blob: its sum is within
the payload, up to a wrap. -/
theorem peekFrom_within (arch : Arch) {data : Bytes} (short : data.length < 2 ^ 31) {left start off declared : Nat}
    (inside : start ≤ data.length) (found : peekFrom arch data left start = some (off, declared)) :
    off ≤ data.length ∧ declared < 2 ^ 32 ∧ (off + declared) % arch.sizeModulus ≤ data.length := by
  induction left generalizing start with
  | zero => cases found
  | succ left inductionHypothesis =>
      rcases peekFrom_stands arch short inside found with ⟨e, rest, stands⟩
      rw [peekFrom_head arch left stands (lt_sizeModulus arch (by omega))] at found
      split at found
      · cases found
      · rename_i within
        split at found
        · cases found
          have behind := congrArg List.length stands
          rw [List.length_drop, List.length_append] at behind
          have entered : 0 < e.encode.length := by
            rw [e.encode_length]
            omega
          exact ⟨by omega, e.declaredFits, Nat.not_lt.mp within⟩
        · exact inductionHypothesis (Nat.not_lt.mp within) found

theorem peekFirstBlob_within (arch : Arch) {payload : Bytes} (short : payload.length < 2 ^ 31) {off declared : Nat}
    (found : peekFirstBlob arch payload = some (off, declared)) :
    off ≤ payload.length ∧ declared < 2 ^ 32 ∧ (off + declared) % arch.sizeModulus ≤ payload.length := by
  rw [peekFirstBlob] at found
  split at found
  · cases found
  · rename_i whole
    exact peekFrom_within arch short (Nat.not_lt.mp whole) found

/-- The peek stays inside a payload that the service takes exactly when
`size_t` has 64 bits, or when the first blob does not declare a length from
2^31 on. -/
theorem peekInside_iff (arch : Arch) {payload : Bytes} (limited : payload.length ≤ cascadeMaxPayload) :
    PeekInside arch payload ↔
      arch = .x64 ∨ forall declared, FirstBlobDeclares arch payload declared -> declared < 2 ^ 31 := by
  have short : payload.length < 2 ^ 31 := Nat.lt_of_le_of_lt limited (by decide)
  constructor
  · intro inside
    right
    intro declared first
    rcases (peekFirstBlob_iff arch short declared).mpr first with ⟨off, found⟩
    have present := inside.present off declared found
    omega
  · intro safe
    refine ⟨peekChecked_eq arch short, fun off declared found => ?_⟩
    rcases peekFirstBlob_within arch short found with ⟨offInside, declaredFits, within⟩
    have noWrap : off + declared < arch.sizeModulus := by
      rcases safe with rfl | small
      · exact Nat.lt_trans (show off + declared < 2 ^ 33 by omega) (by decide)
      · have bound := small declared ((peekFirstBlob_iff arch short declared).mp ⟨off, found⟩)
        exact lt_sizeModulus arch (by omega)
    rwa [Nat.mod_eq_of_lt noWrap] at within

theorem greeting_peekInside : PeekInside .x64 greeting.encode :=
  (peekInside_iff .x64 (by decide)).mpr (Or.inl rfl)

/-- One blob without a name, whose length takes a `size_t` of 32 bits back to
zero. -/
def wrappedPayload : Bytes :=
  List.replicate 8 0 ++ toLE 4 1 ++ toLE 2 0 ++ [2] ++ toLE 4 (2 ^ 32 - 19)

theorem wrappedPayload_notInside : wrappedPayload.length ≤ cascadeMaxPayload ∧ ¬ PeekInside .x86 wrappedPayload := by
  refine ⟨by decide, fun inside => ?_⟩
  have found : peekFirstBlob .x86 wrappedPayload = some (19, 2 ^ 32 - 19) := by rfl
  exact absurd (inside.present 19 (2 ^ 32 - 19) found) (by decide)

end Cascade
end BugMuseum
