import BugMuseum.Cascade.Cfgsvcd
import BugMuseum.Cascade.ParseGrammar

namespace BugMuseum
namespace Cascade

open Foundation

/-!
# What the quick peek finds

`peek_first_blob` walks a payload that nobody has checked, from the head of an entry to the
head of the next.  The value of an entry has to end inside the payload, but the sum
is a `size_t`: where that has 32 bits, a length that is too large leads back to an
earlier offset.  On a bundle the walk goes from entry to entry like that of the reader.
-/

/-- What stands before the value of an entry, with the length that it
declares.  The length may exceed every limit of the reader. -/
structure EntryHead where
  name : Bytes
  type : UInt8
  declared : Nat
  nameFits : name.length < 2 ^ 16
  declaredFits : declared < 2 ^ 32

def EntryHead.encode (e : EntryHead) : Bytes :=
  toLE 2 e.name.length ++ (e.name ++ ([e.type] ++ toLE 4 e.declared))

/-- An entry of type `CFG_BLOB`. -/
def EntryHead.isBlob (e : EntryHead) : Bool :=
  decide ((e.type.toNat : Int) = cfgBlob)

/-- The `size_t` behind the value of an entry at this offset. -/
def EntryHead.next (arch : Arch) (off : Nat) (e : EntryHead) : Nat :=
  (off + e.encode.length + e.declared) % arch.sizeModulus

/-- The heads of entries stand one behind the other, as many as are left at
most, and the first of a blob declares this length. -/
inductive FirstBlobFrom (arch : Arch) (data : Bytes) (declared : Nat) : Nat -> Nat -> Prop where
  | here {left off : Nat} {rest : Bytes} (e : EntryHead) (stands : data.drop off = e.encode ++ rest)
      (inside : e.next arch off ≤ data.length) (blob : e.isBlob = true) (length : e.declared = declared) :
      FirstBlobFrom arch data declared (left + 1) off
  | later {left off : Nat} {rest : Bytes} (e : EntryHead) (stands : data.drop off = e.encode ++ rest)
      (inside : e.next arch off ≤ data.length) (other : e.isBlob = false)
      (further : FirstBlobFrom arch data declared left (e.next arch off)) :
      FirstBlobFrom arch data declared (left + 1) off

/-- Behind the header of a payload, the first blob among the announced number
of entries declares this length. -/
structure FirstBlobDeclares (arch : Arch) (payload : Bytes) (declared : Nat) : Prop where
  whole : headerSize ≤ payload.length
  among : FirstBlobFrom arch payload declared (rdU32 payload 8) headerSize

theorem EntryHead.encode_length (e : EntryHead) : e.encode.length = 2 + e.name.length + 1 + 4 := by
  simp only [encode, List.length_append, toLE_length, List.length_singleton]
  omega

section Fields

variable {data rest : Bytes} {e : EntryHead} {off : Nat}

/-- The payload before the head of an entry, and the head behind it. -/
theorem EntryHead.split (stands : data.drop off = e.encode ++ rest) :
    (data.take off).length = off ∧ data = data.take off ++ (e.encode ++ rest) := by
  have behind : data.length - off = e.encode.length + rest.length := by
    rw [← List.length_drop, stands, List.length_append]
  rw [e.encode_length] at behind
  refine ⟨List.length_take_of_le (by omega), ?_⟩
  rw [← stands, List.take_append_drop]

theorem EntryHead.nameLen_read (stands : data.drop off = e.encode ++ rest) :
    rdU16 data off = e.name.length := by
  have field : slice data off 2 = toLE 2 e.name.length := by
    rw [slice, stands, encode, List.append_assoc]
    exact List.take_left' (toLE_length ..)
  rw [rdU16, field]
  exact ofLE_toLE e.nameFits

theorem EntryHead.type_read (stands : data.drop off = e.encode ++ rest) :
    data.getD (off + 2 + e.name.length) 0 = e.type := by
  rcases split stands with ⟨start, split⟩
  have front : (data.take off ++ (toLE 2 e.name.length ++ e.name)).length = off + 2 + e.name.length := by
    rw [List.length_append, List.length_append, toLE_length, start, Nat.add_assoc]
  have byte := getD_append_length _ e.type (toLE 4 e.declared ++ rest) front
  rw [split]
  simpa only [encode, List.append_assoc] using byte

theorem EntryHead.declared_read (stands : data.drop off = e.encode ++ rest) :
    rdU32 data (off + 2 + e.name.length + 1) = e.declared := by
  rcases split stands with ⟨start, split⟩
  have front : (data.take off ++ (toLE 2 e.name.length ++ (e.name ++ [e.type]))).length =
      off + 2 + e.name.length + 1 := by
    simp only [List.length_append, toLE_length, List.length_singleton, start, Nat.add_assoc]
  have field := slice_append _ (toLE 4 e.declared) rest front (toLE_length ..)
  have same : slice data (off + 2 + e.name.length + 1) 4 = toLE 4 e.declared := by
    rw [split]
    simpa only [encode, List.append_assoc] using field
  rw [rdU32, same]
  exact ofLE_toLE e.declaredFits

end Fields

/-- At the head of an entry the walk reads what the head says, and goes on
behind the value or ends. -/
theorem peekFrom_head (arch : Arch) {data rest : Bytes} {e : EntryHead} {off : Nat} (left : Nat)
    (stands : data.drop off = e.encode ++ rest) (addressed : data.length < arch.sizeModulus) :
    peekFrom arch data (left + 1) off =
      if e.next arch off > data.length then none
      else if e.isBlob then some (off + e.encode.length, e.declared)
      else peekFrom arch data left (e.next arch off) := by
  have behind : data.length - off = 2 + e.name.length + 1 + 4 + rest.length := by
    rw [← List.length_drop, stands, List.length_append, e.encode_length]
  have next : e.next arch off = (off + 2 + e.name.length + 1 + 4 + e.declared) % arch.sizeModulus := by
    rw [EntryHead.next, e.encode_length]
    congr 1
    omega
  have value : off + e.encode.length = off + 2 + e.name.length + 1 + 4 := by
    rw [e.encode_length]
    omega
  rw [peekFrom]
  dsimp only
  rw [e.nameLen_read stands, Nat.mod_eq_of_lt (by omega : off + 2 < arch.sizeModulus), if_neg (by omega),
    Nat.mod_eq_of_lt (by omega : off + 2 + e.name.length < arch.sizeModulus), if_neg (by omega),
    Nat.mod_eq_of_lt (by omega : off + 2 + e.name.length + 1 < arch.sizeModulus), if_neg (by omega),
    e.type_read stands, e.declared_read stands,
    Nat.mod_eq_of_lt (by omega : off + 2 + e.name.length + 1 + 4 < arch.sizeModulus), if_neg (by omega), ← next,
    value]
  by_cases within : e.next arch off > data.length
  · rw [if_pos within, if_pos within]
  · rw [if_neg within, if_neg within, EntryHead.isBlob]
    by_cases blob : (e.type.toNat : Int) = cfgBlob
    · rw [if_pos blob, if_pos (decide_eq_true blob)]
    · rw [if_neg blob, decide_eq_false blob, if_neg Bool.false_ne_true]

/-- The walk goes on from the head of an entry only: where it reports
something, a head stands at its offset. -/
theorem peekFrom_stands (arch : Arch) {data : Bytes} {left off : Nat} {blob : Nat × Nat}
    (short : data.length < 2 ^ 31) (inside : off ≤ data.length)
    (found : peekFrom arch data (left + 1) off = some blob) :
    exists e rest, data.drop off = EntryHead.encode e ++ rest := by
  have noMod := fun {n} => mod_sizeModulus arch (n := n)
  rw [peekFrom] at found
  dsimp only at found
  rw [noMod (by omega : off + 2 < 2 ^ 32)] at found
  split at found
  · cases found
  · rename_i nameLenInside
    have nameLenFits : rdU16 data off < 2 ^ 16 := ofLE_slice_lt (Nat.not_lt.mp nameLenInside)
    rw [noMod (by omega : off + 2 + rdU16 data off < 2 ^ 32)] at found
    split at found
    · cases found
    · rename_i nameInside
      rw [noMod (by omega : off + 2 + rdU16 data off + 1 < 2 ^ 32)] at found
      split at found
      · cases found
      · rename_i typeInside
        rw [noMod (by omega : off + 2 + rdU16 data off + 1 + 4 < 2 ^ 32)] at found
        split at found
        · cases found
        · rename_i declaredInside
          have nameLength : (slice data (off + 2) (rdU16 data off)).length = rdU16 data off :=
            slice_length (Nat.not_lt.mp nameInside)
          refine ⟨⟨slice data (off + 2) (rdU16 data off), data.getD (off + 2 + rdU16 data off) 0,
            rdU32 data (off + 2 + rdU16 data off + 1), nameLength.trans_lt nameLenFits,
            ofLE_slice_lt (Nat.not_lt.mp declaredInside)⟩, data.drop (off + 2 + rdU16 data off + 1 + 4), ?_⟩
          have written : slice data off (2 + (rdU16 data off + (1 + 4))) ++
              data.drop (off + 2 + rdU16 data off + 1 + 4) = data.drop off := by
            have offset : off + 2 + rdU16 data off + 1 + 4 = off + (2 + (rdU16 data off + (1 + 4))) := by omega
            rw [slice, offset, ← List.drop_drop, List.take_append_drop]
          rw [← written, slice_add, slice_add, slice_add, slice_one (Nat.not_lt.mp typeInside)]
          have nameLenField : toLE 2 (rdU16 data off) = slice data off 2 :=
            toLE_slice (Nat.not_lt.mp nameLenInside)
          have declaredField : toLE 4 (rdU32 data (off + 2 + rdU16 data off + 1)) =
              slice data (off + 2 + rdU16 data off + 1) 4 :=
            toLE_slice (Nat.not_lt.mp declaredInside)
          dsimp only [EntryHead.encode]
          rw [nameLength, nameLenField, declaredField]

/-- The walk ends at the first blob.  The induction is on the number of
entries that are left. -/
theorem peekFrom_iff (arch : Arch) {data : Bytes} (short : data.length < 2 ^ 31) (declared left : Nat) {off : Nat}
    (inside : off ≤ data.length) :
    (exists value, peekFrom arch data left off = some (value, declared)) ↔
      FirstBlobFrom arch data declared left off := by
  have addressed : data.length < arch.sizeModulus := lt_sizeModulus arch (by omega)
  induction left generalizing off with
  | zero =>
      constructor
      · rintro ⟨value, impossible⟩
        cases impossible
      · intro impossible
        cases impossible
  | succ left inductionHypothesis =>
      constructor
      · rintro ⟨value, found⟩
        rcases peekFrom_stands arch short inside found with ⟨e, rest, stands⟩
        rw [peekFrom_head arch left stands addressed] at found
        split at found
        · cases found
        · rename_i within
          cases kind : e.isBlob with
          | true =>
              rw [kind, if_pos rfl] at found
              cases found
              exact .here e stands (Nat.not_lt.mp within) kind rfl
          | false =>
              rw [kind, if_neg Bool.false_ne_true] at found
              exact .later e stands (Nat.not_lt.mp within) kind
                ((inductionHypothesis (Nat.not_lt.mp within)).mp ⟨value, found⟩)
      · intro first
        cases first with
        | here e stands within blob length =>
            refine ⟨off + e.encode.length, ?_⟩
            rw [peekFrom_head arch left stands addressed, if_neg (Nat.not_lt.mpr within), if_pos blob, length]
        | later e stands within other further =>
            rcases (inductionHypothesis within).mpr further with ⟨value, found⟩
            refine ⟨value, ?_⟩
            rw [peekFrom_head arch left stands addressed, if_neg (Nat.not_lt.mpr within), other,
              if_neg Bool.false_ne_true, found]

/-- The peek finds the first blob of a payload, if there is one.  The right
side speaks of the bytes alone, and not of the walk. -/
theorem peekFirstBlob_iff (arch : Arch) {payload : Bytes} (short : payload.length < 2 ^ 31) (declared : Nat) :
    (exists value, peekFirstBlob arch payload = some (value, declared)) ↔
      FirstBlobDeclares arch payload declared := by
  rw [peekFirstBlob]
  constructor
  · rintro ⟨value, found⟩
    split at found
    · cases found
    · rename_i whole
      have header := Nat.not_lt.mp whole
      exact ⟨header, (peekFrom_iff arch short declared _ header).mp ⟨value, found⟩⟩
  · intro first
    rw [if_neg (Nat.not_lt.mpr first.whole)]
    exact (peekFrom_iff arch short declared _ first.whole).mpr first.among

/-! ## On a bundle -/

/-- The head of an entry of the format, with the true length of its value. -/
def RawEntry.head (e : RawEntry) : EntryHead where
  name := e.name
  type := e.type
  declared := e.value.length
  nameFits := e.nameLen_lt
  declaredFits := e.valueLen_lt

theorem RawEntry.encode_eq (e : RawEntry) : e.encode = e.head.encode ++ e.value := by
  simp only [RawEntry.encode, EntryHead.encode, head, List.append_assoc]

theorem peekFrom_entry (arch : Arch) {data before rest : Bytes} {e : RawEntry} (left : Nat)
    (split : data = before ++ (e.encode ++ rest)) (addressed : data.length < arch.sizeModulus) :
    peekFrom arch data (left + 1) before.length =
      if e.head.isBlob then some (before.length + e.head.encode.length, e.value.length)
      else peekFrom arch data left (before ++ e.encode).length := by
  have stands : data.drop before.length = e.head.encode ++ (e.value ++ rest) := by
    rw [split, List.drop_left, e.encode_eq, List.append_assoc]
  have behind : (before ++ e.encode).length = before.length + e.head.encode.length + e.value.length := by
    rw [e.encode_eq, List.length_append, List.length_append, Nat.add_assoc]
  have measured : data.length = (before ++ e.encode).length + rest.length := by
    rw [split, ← List.append_assoc, List.length_append]
  have within : (before ++ e.encode).length ≤ data.length := by omega
  have small : before.length + e.head.encode.length + e.value.length < arch.sizeModulus := by omega
  have next : e.head.next arch before.length = (before ++ e.encode).length := by
    rw [behind]
    exact Nat.mod_eq_of_lt small
  rw [peekFrom_head arch left stands addressed, next, if_neg (Nat.not_lt.mpr within)]
  rfl

/-- The walk over the entries of the format comes to the first blob. -/
theorem peekFrom_entries (arch : Arch) {data before rest : Bytes} {entries : List RawEntry}
    (split : data = before ++ (encodeEntries entries ++ rest)) (addressed : data.length < arch.sizeModulus) :
    (peekFrom arch data entries.length before.length).map Prod.snd =
      (entries.find? fun e => e.head.isBlob).map fun e => e.value.length := by
  induction entries generalizing before with
  | nil => rfl
  | cons e later inductionHypothesis =>
      have parted : data = before ++ (e.encode ++ (encodeEntries later ++ rest)) := by
        rw [split, encodeEntries, List.flatMap_cons, List.append_assoc]
        rfl
      rw [List.length_cons, peekFrom_entry arch later.length parted addressed, List.find?_cons]
      cases e.head.isBlob with
      | true => rfl
      | false =>
          apply inductionHypothesis
          rw [parted, List.append_assoc]

/-- The number of entries, as the header announces it. -/
theorem Bundle.count_bytes (b : Bundle) (rest : Bytes) : rdU32 (b.encode ++ rest) 8 = b.entries.length := by
  have front : (b.encode ++ rest).take headerSize = b.header := by
    rw [Bundle.encode, List.append_assoc]
    exact List.take_left' b.header_length
  have inside : slice (b.encode ++ rest) 8 4 = slice b.header 8 4 := by
    rw [← front]
    exact (slice_take _ (by decide)).symm
  rw [rdU32, inside, b.header_count]
  exact b.count_toNat

/-- On a bundle, followed by anything, the peek finds the length of its first
blob. -/
theorem peekFirstBlob_bundle (arch : Arch) (b : Bundle) (rest : Bytes)
    (short : (b.encode ++ rest).length < 2 ^ 31) :
    (peekFirstBlob arch (b.encode ++ rest)).map Prod.snd =
      (b.entries.find? fun e => e.head.isBlob).map fun e => e.value.length := by
  have split : b.encode ++ rest = b.header ++ (encodeEntries b.entries ++ rest) := by
    rw [Bundle.encode, List.append_assoc]
  have whole : ¬ (b.encode ++ rest).length < headerSize := by
    rw [split, List.length_append, b.header_length]
    omega
  have walked := peekFrom_entries arch split (lt_sizeModulus arch (by omega))
  rw [peekFirstBlob, if_neg whole, b.count_bytes rest]
  rwa [b.header_length] at walked

end Cascade
end BugMuseum
