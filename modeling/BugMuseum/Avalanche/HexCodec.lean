import BugMuseum.Foundation.CheckedAccess
import BugMuseum.Foundation.DigitPairs
import BugMuseum.Avalanche.FailedSet

namespace BugMuseum
namespace Avalanche

open Foundation

/-!
# The hex codec

`codec_hex` reads the input two digits at a time and stops at the first pair that is not
one, at the end of the input, or when the output is full.  Its cursors are 32 bits wide.
The input cursor stays even, so that `i + 1` never wraps, even for the longest input.
-/

/-- Why a checked loop does not come to its end.  None of the three is checked
by the code itself. -/
inductive Stray where
  | outside     -- an index outside a buffer
  | nullKey     -- the key of an entry that has none
  | endless     -- more turns than there are bytes
  deriving DecidableEq

def hexval (c : UInt8) : Int :=
  if 48 ≤ c.toNat ∧ c.toNat ≤ 57 then c.toNat - 48             -- '0' to '9'
  else if 97 ≤ c.toNat ∧ c.toNat ≤ 102 then c.toNat - 97 + 10  -- 'a' to 'f'
  else if 65 ≤ c.toNat ∧ c.toNat ≤ 70 then c.toNat - 65 + 10   -- 'A' to 'F'
  else -1

/-- `(unsigned char)((hi << 4) | lo)` -/
def joined (hi lo : Int) : UInt8 :=
  UInt8.ofNat (hi.toNat <<< 4 ||| lo.toNat)

/-- `(int)o` -/
def toInt (o : Nat) : Int :=
  if o < 2 ^ 31 then o else o - 2 ^ 32

/-- The loop of `CodecApply`, with fuel for its turns.  Both cursors are 32
bits wide, and every index is checked. -/
def hexFrom (input : Bytes) (outCap : Nat) : Nat -> Nat -> Nat -> Bytes -> Except Stray (Bytes × Nat)
  | 0, _, _, _ => .error .endless
  | fuel + 1, i, o, out =>
      if (i + 1) % 2 ^ 32 < input.length ∧ o < outCap then do
        let first ← fetch .outside input i
        let second ← fetch .outside input ((i + 1) % 2 ^ 32)
        let hi := hexval first
        let lo := hexval second
        if hi < 0 ∨ lo < 0 then return (out, o)
        else do
          let out ← put .outside out o (joined hi lo)
          hexFrom input outCap fuel ((i + 2) % 2 ^ 32) ((o + 1) % 2 ^ 32) out
      else return (out, o)

/-- `CodecApply` of `codec_hex.dll`, with the output buffer before and
after. -/
def codecApplyHex (input out : Bytes) (outCap : Nat) : Except Stray (Bytes × Int) := do
  let looped ← hexFrom input outCap (input.length + 1) 0 0 out
  return (looped.1, toInt looped.2)

/-- `codec_hex.dll` as the server sees it: the bytes that were written, and
the result. -/
def codecHex : Codec := fun input outCap =>
  match codecApplyHex input (List.replicate outCap 0) outCap with
  | .error _ => ([], -1)
  | .ok (out, result) => (out.take result.toNat, result)

/-- `load_codecs`, when both plugins are found. -/
def loadCodecs (id : Nat) : Option Codec :=
  match id with
  | 0 => some codecRaw
  | 1 => some codecHex
  | _ => none

/-! ## What the codec is for -/

def isHexDigit (c : UInt8) : Prop :=
  0 ≤ hexval c

instance (c : UInt8) : Decidable (isHexDigit c) :=
  inferInstanceAs (Decidable (0 ≤ hexval c))

/-- The byte of two hex digits, if both of them are digits. -/
def hexPair (high low : UInt8) : Option UInt8 :=
  if hexval high < 0 ∨ hexval low < 0 then none else some (joined (hexval high) (hexval low))

/-- The number of leading pairs of input bytes that are both hex digits. -/
def leadingPairs (input : Bytes) : Nat :=
  (decodePairs hexPair input).length

def lowerDigits : Bytes := ascii "0123456789abcdef"

def upperDigits : Bytes := ascii "0123456789ABCDEF"

/-- The letter stands for these four bits, in either case.  The digits are
given as a table, not by arithmetic. -/
def DigitOf (nibble : Nat) (letter : UInt8) : Prop :=
  lowerDigits[nibble]? = some letter ∨ upperDigits[nibble]? = some letter

/-- A spelling of the bytes: two digits for each, in either case.  One byte
string has many spellings. -/
inductive HexSpelling : Bytes -> Bytes -> Prop where
  | nil : HexSpelling [] []
  | cons {byte high low : UInt8} {text bytes : Bytes} (first : DigitOf (byte.toNat / 16) high)
      (second : DigitOf (byte.toNat % 16) low) (later : HexSpelling text bytes) :
      HexSpelling (high :: low :: text) (byte :: bytes)

/-- Pairs of hex digits to the end, and nothing else. -/
def WellFormedHex (text : Bytes) : Prop :=
  text.length % 2 = 0 ∧ forall c, c ∈ text -> isHexDigit c

instance (text : Bytes) : Decidable (WellFormedHex text) :=
  inferInstanceAs (Decidable (_ ∧ _))

/-- `tolower` -/
def toLower (c : UInt8) : UInt8 :=
  if 65 ≤ c.toNat ∧ c.toNat ≤ 90 then UInt8.ofNat (c.toNat + 32) else c

/-- The output of one call: so many bytes in front of it are new, those of the
pairs.  The rest of the buffer is as it was. -/
structure HexApplied (input out : Bytes) (outCap : Nat) (result : Bytes × Int) : Prop where
  count : result.2 = (min outCap (leadingPairs input) : Nat)
  rest : result.1.drop (min outCap (leadingPairs input)) = out.drop (min outCap (leadingPairs input))
  length : result.1.length = out.length
  bytes : forall k, k < min outCap (leadingPairs input) ->
    exists byte high low, result.1[k]? = some byte ∧ input[2 * k]? = some high ∧ input[2 * k + 1]? = some low ∧
      isHexDigit high ∧ isHexDigit low ∧ (byte.toNat : Int) = 16 * hexval high + hexval low

theorem hexval_lt (c : UInt8) : hexval c < 16 := by
  unfold hexval
  split_ifs <;> omega

/-- A byte is its high half times sixteen plus its low half.  The code joins
them with a shift, and nothing is lost by the cast. -/
theorem joined_toNat {hi lo : Int} (hiDigit : 0 ≤ hi ∧ hi < 16) (loDigit : 0 ≤ lo ∧ lo < 16) :
    ((joined hi lo).toNat : Int) = 16 * hi + lo := by
  have low : lo.toNat < 2 ^ 4 := by omega
  have sum : hi.toNat <<< 4 ||| lo.toNat = 16 * hi.toNat + lo.toNat := by
    rw [← Nat.shiftLeft_add_eq_or_of_lt low, Nat.shiftLeft_eq]
    omega
  rw [joined, sum, UInt8.toNat_ofNat_of_lt' (by rw [UInt8.size]; omega)]
  omega

theorem hexPair_eq_some {high low byte : UInt8} :
    hexPair high low = some byte ↔
      isHexDigit high ∧ isHexDigit low ∧ (byte.toNat : Int) = 16 * hexval high + hexval low := by
  unfold hexPair isHexDigit
  by_cases digits : hexval high < 0 ∨ hexval low < 0
  · rw [if_pos digits]
    refine iff_of_false (fun impossible => by cases impossible) ?_
    rintro ⟨first, second, _⟩
    omega
  · rw [not_or, Int.not_lt, Int.not_lt] at digits
    have value := joined_toNat ⟨digits.1, hexval_lt high⟩ ⟨digits.2, hexval_lt low⟩
    rw [if_neg (by omega), Option.some.injEq, ← value]
    constructor
    · rintro rfl
      exact ⟨digits.1, digits.2, rfl⟩
    · rintro ⟨_, _, same⟩
      exact UInt8.toNat_inj.mp (Int.ofNat_inj.mp same).symm

theorem hexPair_eq_none {high low : UInt8} (none : hexval high < 0 ∨ hexval low < 0) : hexPair high low = Option.none :=
  if_pos none

section Loop

variable {input old : Bytes} {outCap : Nat}

/-- The loop writes what is left of the pairs behind what it has written, as
far as there is room.  The cursors never wrap, because the input cursor stays
even. -/
theorem hexFrom_eq (inFits : input.length < 2 ^ 32) (room : outCap ≤ old.length)
    {fuel : Nat} {text : Bytes} (enough : input.length - 2 * text.length < fuel)
    (inside : 2 * text.length ≤ input.length) (bound : text.length ≤ outCap) :
    hexFrom input outCap fuel (2 * text.length) text.length (text ++ old.drop text.length) =
      let all := text ++ (decodePairs hexPair (input.drop (2 * text.length))).take (outCap - text.length)
      .ok (all ++ old.drop all.length, all.length) := by
  induction fuel generalizing text with
  | zero => exact absurd enough (Nat.not_lt_zero _)
  | succ fuel inductionHypothesis =>
      -- an even cursor inside the input is at most 2^32 - 2
      have noWrap : (2 * text.length + 1) % 2 ^ 32 = 2 * text.length + 1 := Nat.mod_eq_of_lt (by omega)
      rw [hexFrom, noWrap]
      by_cases running : 2 * text.length + 1 < input.length ∧ text.length < outCap
      · have pair := drop_eq_pair running.1
        have first := fetch_of_getElem? Stray.outside (List.getElem?_eq_getElem (Nat.lt_of_succ_lt running.1))
        have second := fetch_of_getElem? Stray.outside (List.getElem?_eq_getElem running.1)
        rw [if_pos running, pair, first]
        dsimp only [bind, Except.bind]
        rw [second]
        dsimp only
        by_cases stop : hexval input[2 * text.length] < 0 ∨ hexval input[2 * text.length + 1] < 0
        · rw [if_pos stop, decodePairs_stop (hexPair_eq_none stop), List.take_nil, List.append_nil]
          rfl
        · have stands : hexPair input[2 * text.length] input[2 * text.length + 1] =
              some (joined (hexval input[2 * text.length]) (hexval input[2 * text.length + 1])) := if_neg stop
          have inOut : text.length < old.length := Nat.lt_of_lt_of_le running.2 room
          have oneLess : outCap - text.length = outCap - (text.length + 1) + 1 := by omega
          rw [if_neg stop, put_behind Stray.outside inOut]
          dsimp only
          have longer : forall byte, (text ++ [byte]).length = text.length + 1 := fun _ => List.length_append
          have later := @inductionHypothesis
            (text ++ [joined (hexval input[2 * text.length]) (hexval input[2 * text.length + 1])])
            (by rw [longer]; omega) (by rw [longer]; omega) (by rw [longer]; omega)
          rw [longer, Nat.mul_add, Nat.mul_one] at later
          rw [Nat.mod_eq_of_lt (by omega), Nat.mod_eq_of_lt (by omega), longer, later, decodePairs_cons stands, oneLess,
            List.take_succ_cons, List.append_assoc, List.singleton_append]
      · have nothing : (decodePairs hexPair (input.drop (2 * text.length))).take (outCap - text.length) = [] := by
          rcases Classical.not_and_iff_not_or_not.mp running with ended | full
          · have short : (input.drop (2 * text.length)).length < 2 := by
              rw [List.length_drop]
              omega
            rw [decodePairs_short short, List.take_nil]
          · rw [Nat.sub_eq_zero_of_le (Nat.not_lt.mp full), List.take_zero]
        rw [if_neg running, nothing, List.append_nil]
        rfl

/-- What one call does, whatever the input: it ends, no index is outside, and
the output is that of the leading pairs. -/
theorem codecApplyHex_eq (inFits : input.length < 2 ^ 32) (room : outCap ≤ old.length) :
    codecApplyHex input old outCap =
      let bytes := (decodePairs hexPair input).take outCap
      .ok (bytes ++ old.drop bytes.length, bytes.length) := by
  have looped := @hexFrom_eq input old outCap inFits room (input.length + 1) [] (Nat.lt_succ_of_le (Nat.sub_le ..))
    (Nat.zero_le _) (Nat.zero_le _)
  have pairs : 2 * (decodePairs hexPair input).length ≤ input.length := length_decodePairs input
  have short : ((decodePairs hexPair input).take outCap).length < 2 ^ 31 := by
    rw [List.length_take]
    omega
  rw [codecApplyHex, show hexFrom input outCap (input.length + 1) 0 0 old = _ from looped]
  dsimp only [bind, Except.bind]
  rw [List.nil_append, List.length_nil, Nat.mul_zero, List.drop_zero, Nat.sub_zero, toInt, if_pos short]
  rfl

end Loop

theorem hexApplied (input out : Bytes) (outCap : Nat) (bytes : Bytes)
    (same : bytes = (decodePairs hexPair input).take outCap) (room : outCap ≤ out.length) :
    HexApplied input out outCap (bytes ++ out.drop bytes.length, bytes.length) := by
  have count : bytes.length = min outCap (leadingPairs input) := same ▸ List.length_take
  have inOut : bytes.length ≤ out.length := by omega
  constructor
  · exact congrArg Nat.cast count
  · rw [← count]
    exact List.drop_left
  · rw [List.length_append, List.length_drop, Nat.add_sub_cancel' inOut]
  · intro k within
    rw [← count] at within
    obtain ⟨byte, value⟩ : exists byte, bytes[k]? = some byte := ⟨_, List.getElem?_eq_getElem within⟩
    have read : (decodePairs hexPair input)[k]? = some byte := by
      rw [same, List.getElem?_take_of_lt (by omega)] at value
      exact value
    rcases getElem?_decodePairs read with ⟨high, low, first, second, stands⟩
    have digits := hexPair_eq_some.mp stands
    refine ⟨byte, high, low, ?_, first, second, digits.1, digits.2.1, digits.2.2⟩
    rw [List.getElem?_append_left within, value]

/-- A letter of either row has the value of its place. -/
theorem hexval_digitOf {nibble : Nat} (small : nibble < 16) {letter : UInt8} (digit : DigitOf nibble letter) :
    hexval letter = nibble := by
  have rows : forall place : Fin 16, lowerDigits[place.1]?.map hexval = some (place.1 : Int) ∧
      upperDigits[place.1]?.map hexval = some (place.1 : Int) := by decide
  rcases rows ⟨nibble, small⟩ with ⟨lower, upper⟩
  rcases digit with stands | stands
  · rw [stands] at lower
    exact Option.some.inj lower
  · rw [stands] at upper
    exact Option.some.inj upper

theorem HexSpelling.spells {text bytes : Bytes} (spelling : HexSpelling text bytes) : Spells hexPair text bytes := by
  induction spelling with
  | nil => exact .nil
  | @cons byte high low text bytes first second _ inductionHypothesis =>
      have bound := byte.toNat_lt
      have hi := hexval_digitOf (by omega) first
      have lo := hexval_digitOf (by omega) second
      refine .cons (hexPair_eq_some.mpr ⟨?_, ?_, ?_⟩) inductionHypothesis
      · rw [isHexDigit, hi]
        omega
      · rw [isHexDigit, lo]
        omega
      · rw [hi, lo]
        omega

/-- A well-formed text is read to its end, and so it is a spelling of what is
read. -/
theorem WellFormedHex.spells {text : Bytes} (formed : WellFormedHex text) :
    Spells hexPair text (decodePairs hexPair text) := by
  apply spells_decodePairs
  have shorter : 2 * (decodePairs hexPair text).length ≤ text.length := length_decodePairs text
  have even := formed.1
  by_contra unread
  have inside : 2 * (decodePairs hexPair text).length + 1 < text.length := by omega
  have ends := decodePairs_ends (List.getElem?_eq_getElem (Nat.lt_of_succ_lt inside))
    (List.getElem?_eq_getElem inside)
  have digits : hexPair text[2 * (decodePairs hexPair text).length] text[2 * (decodePairs hexPair text).length + 1] =
      some _ := if_neg (not_or.mpr ⟨Int.not_lt.mpr (formed.2 _ (List.getElem_mem _)),
        Int.not_lt.mpr (formed.2 _ (List.getElem_mem _))⟩)
  rw [digits] at ends
  cases ends

theorem toLower_hexDigit {c : UInt8} (digit : isHexDigit c) :
    ((toLower c).toNat : Int) = if hexval c < 10 then hexval c + 48 else hexval c + 87 := by
  have lowered : (toLower c).toNat = if 65 ≤ c.toNat ∧ c.toNat ≤ 90 then c.toNat + 32 else c.toNat := by
    unfold toLower
    split_ifs with upper
    · exact UInt8.toNat_ofNat_of_lt' (by rw [UInt8.size]; omega)
    · rfl
  rw [isHexDigit, hexval] at digit
  rw [lowered, hexval]
  split_ifs at digit ⊢ <;> omega

/-- The byte of a pair determines its letters but for their case. -/
theorem lower_of_hexPair (high low high' low' byte : UInt8) (stands : hexPair high low = some byte)
    (standsOther : hexPair high' low' = some byte) : toLower high = toLower high' ∧ toLower low = toLower low' := by
  rcases hexPair_eq_some.mp stands with ⟨digitHigh, digitLow, value⟩
  rcases hexPair_eq_some.mp standsOther with ⟨digitHigh', digitLow', value'⟩
  have bound := hexval_lt low
  have bound' := hexval_lt low'
  have sameHigh : hexval high = hexval high' := by
    rw [isHexDigit] at digitLow digitLow'
    omega
  have sameLow : hexval low = hexval low' := by omega
  refine ⟨UInt8.toNat_inj.mp (Int.ofNat_inj.mp ?_), UInt8.toNat_inj.mp (Int.ofNat_inj.mp ?_)⟩
  · rw [toLower_hexDigit digitHigh, toLower_hexDigit digitHigh', sameHigh]
  · rw [toLower_hexDigit digitLow, toLower_hexDigit digitLow', sameLow]

/-- The bytes are all that the call puts into the buffer, and the result is
their number. -/
def Decodes (input out : Bytes) (outCap : Nat) (bytes : Bytes) : Prop :=
  codecApplyHex input out outCap = .ok (bytes ++ out.drop bytes.length, bytes.length)

section Decoding

variable {input out : Bytes} {outCap : Nat}

theorem decodes_front (inFits : input.length < 2 ^ 32) (room : outCap ≤ out.length) :
    Decodes input out outCap ((decodePairs hexPair input).take outCap) :=
  codecApplyHex_eq inFits room

theorem Decodes.unique {bytes other : Bytes} (decodes : Decodes input out outCap bytes)
    (decodesOther : Decodes input out outCap other) : bytes = other := by
  have same := Except.ok.inj (decodes.symm.trans decodesOther)
  have length : bytes.length = other.length := Int.ofNat_inj.mp (congrArg Prod.snd same)
  exact List.append_inj_left (congrArg Prod.fst same) length

/-- A well-formed text that fits is a spelling of what it decodes to.  Nothing
of it is left over. -/
theorem WellFormedHex.spells_of_decodes (formed : WellFormedHex input) (inFits : input.length < 2 ^ 32)
    (room : outCap ≤ out.length) (fits : input.length ≤ 2 * outCap) {bytes : Bytes}
    (decodes : Decodes input out outCap bytes) : Spells hexPair input bytes := by
  have spells := formed.spells
  have length := spells.length
  have whole : (decodePairs hexPair input).take outCap = decodePairs hexPair input :=
    List.take_of_length_le (by omega)
  have front := decodes_front inFits room
  rw [whole] at front
  exact decodes.unique front ▸ spells

/-- Every spelling of the bytes is decoded to them, in either case of its
letters. -/
theorem HexSpelling.decodes {bytes : Bytes} (spelling : HexSpelling input bytes) (inFits : input.length < 2 ^ 32)
    (room : outCap ≤ out.length) (fits : bytes.length ≤ outCap) : Decodes input out outCap bytes := by
  have front := decodes_front inFits room
  rwa [spelling.spells.decode, List.take_of_length_le fits] at front

/-- For inputs of every 32-bit length and every bound on the output, the codec
writes the bytes of the leading pairs as far as they fit, and nothing else.
So every spelling of a byte string is decoded to it, and two well-formed texts
that fit and give the same bytes differ in the case of their letters at
most. -/
theorem codecHex_exact (inFits : input.length < 2 ^ 32) (room : outCap ≤ out.length) :
    (exists result, codecApplyHex input out outCap = .ok result ∧ HexApplied input out outCap result) ∧
      (forall bytes, HexSpelling input bytes -> bytes.length ≤ outCap -> Decodes input out outCap bytes) ∧
      forall other out' outCap' bytes, other.length < 2 ^ 32 -> outCap' ≤ out'.length -> WellFormedHex input ->
        WellFormedHex other -> input.length ≤ 2 * outCap -> other.length ≤ 2 * outCap' ->
        Decodes input out outCap bytes -> Decodes other out' outCap' bytes ->
          input.map toLower = other.map toLower := by
  refine ⟨⟨_, codecApplyHex_eq inFits room, hexApplied input out outCap _ rfl room⟩, ?_, ?_⟩
  · intro bytes spelling fits
    exact spelling.decodes inFits room fits
  · intro other out' outCap' bytes otherFits otherRoom formed formedOther fits fitsOther decodes decodesOther
    have spells := formed.spells_of_decodes inFits room fits decodes
    have spellsOther := formedOther.spells_of_decodes otherFits otherRoom fitsOther decodesOther
    have letters : List.Forall₂ (fun c c' => toLower c = toLower c') input other :=
      spells.determined lower_of_hexPair spellsOther
    exact List.forall₂_eq_eq_eq ▸ List.forall₂_map_left_iff.mpr (List.forall₂_map_right_iff.mpr letters)

end Decoding

theorem wellFormedHex_of_all {text : Bytes} (even : text.length % 2 = 0)
    (digits : (text.all fun c => decide (0 ≤ hexval c)) = true) : WellFormedHex text :=
  ⟨even, fun c member => of_decide_eq_true (List.all_eq_true.mp digits c member)⟩

/-- Digits of both cases, and room for a third byte. -/
theorem mixedCase_exact :
    (exists result, codecApplyHex (ascii "4aFf") [0, 0, 7] 3 = .ok result ∧
        HexApplied (ascii "4aFf") [0, 0, 7] 3 result) ∧
      Decodes (ascii "4aFf") [0, 0, 7] 3 [74, 255] ∧ (ascii "4aFf").map toLower = (ascii "4AfF").map toLower := by
  have exactly := @codecHex_exact (ascii "4aFf") [0, 0, 7] 3 (by decide) (by decide)
  have decoded : Decodes (ascii "4aFf") [0, 0, 7] 3 [74, 255] := by
    apply exactly.2.1 _ _ (by decide)
    exact .cons (Or.inl rfl) (Or.inl rfl) (.cons (Or.inr rfl) (Or.inl rfl) .nil)
  exact ⟨exactly.1, decoded, exactly.2.2 (ascii "4AfF") [0, 0] 2 [74, 255] (by decide) (by decide)
    (wellFormedHex_of_all rfl (by decide)) (wellFormedHex_of_all rfl (by decide)) (by decide) (by decide) decoded rfl⟩

/-- Whatever the input, the loop keeps the size of the buffer and the bound on
its cursor. -/
theorem hexFrom_bounded {input : Bytes} {outCap fuel i o : Nat} {out : Bytes} {result : Bytes × Nat}
    (bound : o ≤ outCap) (looped : hexFrom input outCap fuel i o out = .ok result) :
    result.1.length = out.length ∧ result.2 ≤ outCap := by
  induction fuel generalizing i o out with
  | zero => cases looped
  | succ fuel inductionHypothesis =>
      rw [hexFrom] at looped
      split at looped
      · rename_i running
        rcases bind_eq_ok.mp looped with ⟨first, _, afterFirst⟩
        rcases bind_eq_ok.mp afterFirst with ⟨second, _, afterSecond⟩
        dsimp only at afterSecond
        split at afterSecond
        · cases afterSecond
          exact ⟨rfl, bound⟩
        · rcases bind_eq_ok.mp afterSecond with ⟨stored, stores, later⟩
          rw [put] at stores
          split at stores
          · cases stores
            have next : (o + 1) % 2 ^ 32 ≤ outCap := Nat.le_trans (Nat.mod_le _ _) running.2
            have kept := inductionHypothesis next later
            rwa [List.length_set] at kept
          · cases stores
      · cases looped
        exact ⟨rfl, bound⟩

theorem toInt_le (o : Nat) : toInt o ≤ o := by
  unfold toInt
  split <;> omega

theorem codecHex_respects : Codec.Respects codecHex := by
  intro input outCap succeeded
  rw [codecHex] at succeeded ⊢
  cases applied : codecApplyHex input (List.replicate outCap 0) outCap with
  | error stray =>
      rw [applied] at succeeded
      dsimp only at succeeded
      omega
  | ok result =>
      rw [applied] at succeeded
      rcases bind_eq_ok.mp applied with ⟨looped, runs, same⟩
      cases same
      have bounded := hexFrom_bounded (Nat.zero_le outCap) runs
      rw [List.length_replicate] at bounded
      have below := toInt_le looped.2
      dsimp only at succeeded ⊢
      rw [List.length_take, bounded.1]
      omega

/-- Both plugins keep the contract of `codec.h`, so what is proved of such
codecs holds of the server as it is shipped. -/
theorem loadCodecs_respects (id : Nat) (codec : Codec) (loaded : loadCodecs id = some codec) : codec.Respects := by
  unfold loadCodecs at loaded
  split at loaded
  · cases loaded
    exact codecRaw_respects
  · cases loaded
    exact codecHex_respects
  · cases loaded

end Avalanche
end BugMuseum
