import BugMuseum.Cascade.AcceptedBundle
import BugMuseum.Foundation.CheckedAccess

namespace BugMuseum
namespace Cascade

open Foundation

/-!
# The numbers of `CFG_INT` entries

`decode_field` copies one byte more than the value has, and puts no terminator behind it.
So the number goes on into what follows the value, and into the stack behind that, unless
the value ends the number by itself or fills the field.  The byte that is copied too much
is outside the value, or, for a long value, outside the field.
-/

/-- Nothing in the text ends a number: white space, at most one sign, and
digits to the end. -/
def numberOpen (text : Bytes) : Bool :=
  match text.dropWhile isSpace with
  | [] => true
  | c :: rest => if c = 45 ∨ c = 43 then rest.all isDigit else (c :: rest).all isDigit

/-- `decode_field` with a check of every access to `src` and to `field`. -/
def decodeChecked (src : Bytes) (valueLen : Nat) (frame : Bytes) : Except Unit Int := do
  let n := if valueLen < 16 then valueLen else 16
  let copied ← copyRange () src frame (n + 1)
  let field ← put () copied 15 0
  return atoi64 (cString (field.take 16))

/-- An integer entry of the bundle with this value, and the number that is
stored for it. -/
def IntegerAt (b : Bundle) (p : CfgProfile) (value : Bytes) (ival : Int) : Prop :=
  exists (i : Nat) (raw : RawEntry) (e : CfgEntry), b.entries[i]? = some raw ∧ p.head[i]? = some e ∧
    (raw.type.toNat : Int) = cfgInt ∧ raw.value = value ∧ e.ival = ival

/-- Wherever these value bytes stand, and whatever is on the stack, they give
the same number, the one that stands in them. -/
structure DecodedAlone (value : Bytes) : Prop where
  own : forall env b rest p ival, Accepts env b rest p -> IntegerAt b p value ival ->
    ival = atoi64 (cString value)
  same : forall env b rest p ival env' b' rest' p' ival', Accepts env b rest p -> Accepts env' b' rest' p' ->
    IntegerAt b p value ival -> IntegerAt b' p' value ival' -> ival = ival'

/-- The integers of an accepted buffer are their own: a short value alone
decides the number that is stored, and the decoder keeps to its bounds.  In
`inside` the source is the value alone, and the field has its sixteen
bytes. -/
structure IntegersOwn (b : Bundle) (rest : Bytes) : Prop where
  own : forall env p value ival, Accepts env b rest p -> IntegerAt b p value ival -> value.length ≤ 15 ->
    ival = atoi64 (cString value)
  same : forall env p value ival, Accepts env b rest p -> IntegerAt b p value ival -> value.length ≤ 15 ->
    forall env' b' rest' p' ival', Accepts env' b' rest' p' -> IntegerAt b' p' value ival' -> ival' = ival
  inside : forall raw, raw ∈ b.entries -> (raw.type.toNat : Int) = cfgInt ->
    forall frame : Field fieldSize, decodeChecked raw.value raw.value.length frame.1 ≠ .error ()

theorem foldl_update_range (src frame : Nat -> UInt8) (n k : Nat) :
    (List.range n).foldl (fun field i => Function.update field i (src i)) frame k =
      if k < n then src k else frame k := by
  induction n with
  | zero => rfl
  | succ n inductionHypothesis =>
      rw [List.range_succ, List.foldl_append, List.foldl_cons, List.foldl_nil]
      by_cases last : k = n
      · rw [last, Function.update_self, if_pos (Nat.lt_succ_self n)]
      · rw [Function.update_of_ne last, inductionHypothesis]
        by_cases inside : k < n
        · rw [if_pos inside, if_pos (Nat.lt_succ_of_lt inside)]
        · rw [if_neg inside, if_neg (by omega)]

/-- The field behind the value: the byte that is copied too much, and the
stack, up to the terminator of the last byte. -/
def fieldTail (src frame : Nat -> UInt8) (valueLen : Nat) : Bytes :=
  (List.range (16 - valueLen)).map fun k =>
    if valueLen + k = 15 then 0 else if k = 0 then src valueLen else frame (valueLen + k)

/-- A short value is read together with what comes to stand behind it. -/
theorem decodeField_short {value : Bytes} (short : value.length ≤ 15) {src : Nat -> UInt8}
    (holds : forall k, k < value.length -> src k = value.getD k 0) (frame : Nat -> UInt8) :
    (decodeField src value.length frame).1 = atoi64 (cString (value ++ fieldTail src frame value.length)) := by
  have limit : (if value.length < 16 then value.length else 16) = value.length := if_pos (by omega)
  have parts : List.range 16 = List.range value.length ++ (List.range (16 - value.length)).map (value.length + ·) := by
    rw [← List.range_add]
    congr 1
    omega
  rw [decodeField]
  dsimp only
  rw [limit]
  congr 2
  rw [parts, List.map_append, List.map_map]
  congr 1
  · apply List.ext_getElem
    · rw [List.length_map, List.length_range]
    · intro k _ inside
      have notLast : k ≠ 15 := by omega
      rw [List.getElem_map, List.getElem_range, Function.update_of_ne notLast, foldl_update_range,
        if_pos (by omega), holds k inside, List.getD_eq_getElem _ 0 inside]
  · rw [fieldTail]
    apply List.map_congr_left
    intro k _
    dsimp only [Function.comp_apply]
    by_cases last : value.length + k = 15
    · rw [last, Function.update_self, if_pos rfl]
    · rw [Function.update_of_ne last, if_neg last, foldl_update_range]
      by_cases first : k = 0
      · rw [first, if_pos (by omega), if_pos rfl, Nat.add_zero]
      · rw [if_neg (by omega), if_neg first]

/-- The first bytes of the field, with the terminator of its last byte, in the
terms of the two models of the loop. -/
theorem field_eq {src frame : Bytes} {n : Nat} (inSrc : n + 1 ≤ src.length) (bound : n ≤ 16)
    (inFrame : 16 < frame.length) :
    ((covered src (n + 1) frame).set 15 0).take 16 = (List.range 16).map (Function.update
      ((List.range (n + 1)).foldl (fun field i => Function.update field i (src.getD i 0)) (frame.getD · 0)) 15 0) := by
  have length := covered_length inSrc (by omega : n + 1 ≤ frame.length)
  apply List.ext_getElem?
  intro k
  rw [List.getElem?_map]
  by_cases inside : k < 16
  · rw [List.getElem?_take_of_lt inside, List.getElem?_range inside, Option.map_some, List.getElem?_set]
    by_cases last : 15 = k
    · rw [if_pos last, if_pos (by omega), ← last, Function.update_self]
    · rw [if_neg last, getElem?_covered inSrc, Function.update_of_ne (Ne.symm last), foldl_update_range]
      split
      · rw [List.getElem?_eq_getElem (by omega), List.getD_eq_getElem src 0]
      · rw [List.getElem?_eq_getElem (by omega), List.getD_eq_getElem frame 0]
  · rw [List.getElem?_eq_none (by rw [List.length_take]; omega),
      List.getElem?_eq_none (by rw [List.length_range]; omega), Option.map_none]

theorem copyRange_field {src frame : Bytes} {n : Nat} (inSrc : n + 1 ≤ src.length) (bound : n ≤ 16)
    (inFrame : 16 < frame.length) :
    (do let copied ← copyRange () src frame (n + 1)
        let field ← put () copied 15 0
        return atoi64 (cString (field.take 16))) =
      .ok (atoi64 (cString ((List.range 16).map (Function.update
        ((List.range (n + 1)).foldl (fun field i => Function.update field i (src.getD i 0)) (frame.getD · 0))
        15 0)))) := by
  have inTarget : n + 1 ≤ frame.length := by omega
  have length := covered_length inSrc inTarget
  rw [copyRange_eq, if_pos ⟨inSrc, inTarget⟩]
  dsimp only [bind, Except.bind]
  rw [put_of_lt () (by omega)]
  exact congrArg (fun text => Except.ok (atoi64 (cString text))) (field_eq inSrc bound inFrame)

/-- Where both buffers are large enough, the checks change nothing. -/
theorem decodeChecked_ok {src frame : Bytes} {valueLen : Nat}
    (inSrc : min valueLen 16 < src.length) (inFrame : 16 < frame.length) :
    decodeChecked src valueLen frame =
      .ok (decodeField (fun k => src.getD k 0) valueLen (fun k => frame.getD k 0)).1 := by
  by_cases small : valueLen < 16
  · have room : valueLen + 1 ≤ src.length := by omega
    simp only [decodeChecked, decodeField, if_pos small]
    exact copyRange_field room (Nat.le_of_lt small) inFrame
  · have room : 16 + 1 ≤ src.length := by omega
    simp only [decodeChecked, decodeField, if_neg small]
    exact copyRange_field room (Nat.le_refl 16) inFrame

/-- Every run of the loop leaves the value or the field: the value if it is
short, and else the field. -/
theorem decodeChecked_error (value : Bytes) (frame : Field fieldSize) :
    decodeChecked value value.length frame.1 = .error () := by
  have leaves : ¬ ((if value.length < 16 then value.length else 16) + 1 ≤ value.length ∧
      (if value.length < 16 then value.length else 16) + 1 ≤ frame.1.length) := by
    rw [frame.2, fieldSize]
    split <;> omega
  rw [decodeChecked, copyRange_eq, if_neg leaves]
  rfl

theorem digitsValue_append (number : Nat) {digits : Bytes} (all : digits.all isDigit = true) (more : Bytes) :
    digitsValue number (digits ++ more) = digitsValue (digitsValue number digits) more := by
  induction digits generalizing number with
  | nil => rfl
  | cons c rest inductionHypothesis =>
      rw [List.all_cons, Bool.and_eq_true] at all
      rw [List.cons_append, digitsValue, digitsValue, if_pos all.1, if_pos all.1]
      exact inductionHypothesis _ all.2

/-- A number ends at the first byte that is no digit. -/
theorem digitsValue_closed (number : Nat) {text : Bytes} (ends : text.all isDigit = false) (more : Bytes) :
    digitsValue number (text ++ more) = digitsValue number text := by
  induction text generalizing number with
  | nil => cases ends
  | cons c rest inductionHypothesis =>
      rw [List.cons_append, digitsValue, digitsValue]
      cases digit : isDigit c with
      | false => rfl
      | true =>
          rw [List.all_cons, digit, Bool.true_and] at ends
          rw [if_pos rfl, if_pos rfl]
          exact inductionHypothesis _ ends

theorem digitsValue_lt (number : Nat) (text : Bytes) :
    digitsValue number text < (number + 1) * 10 ^ text.length := by
  induction text generalizing number with
  | nil =>
      rw [digitsValue, List.length_nil, Nat.pow_zero, Nat.mul_one]
      exact Nat.lt_succ_self number
  | cons c rest inductionHypothesis =>
      have grown : (number + 1) * 10 ^ (c :: rest).length = (10 * number + 10) * 10 ^ rest.length := by
        rw [List.length_cons, Nat.pow_succ, Nat.mul_comm (10 ^ _) 10, ← Nat.mul_assoc]
        congr 1
        omega
      rw [digitsValue, grown]
      split
      · rename_i digit
        have next := inductionHypothesis (10 * number + (c.toNat - 48))
        have bound : c.toNat ≤ 57 := by
          simp only [isDigit, Bool.and_eq_true, decide_eq_true_eq] at digit
          exact digit.2
        have below : 10 * number + (c.toNat - 48) + 1 ≤ 10 * number + 10 := by omega
        exact next.trans_le (Nat.mul_le_mul_right _ below)
      · have positive : 0 < 10 ^ rest.length := Nat.pow_pos (by decide)
        calc number < (10 * number + 10) * 1 := by omega
          _ ≤ (10 * number + 10) * 10 ^ rest.length := Nat.mul_le_mul_left _ positive

/-- A closed number is read to the same end, whatever follows. -/
theorem atoi64_closed {text : Bytes} (closed : numberOpen text = false) (more : Bytes) :
    atoi64 (text ++ more) = atoi64 text := by
  rw [numberOpen] at closed
  cases left : text.dropWhile isSpace with
  | nil =>
      rw [left] at closed
      cases closed
  | cons c rest =>
      have further : (text ++ more).dropWhile isSpace = c :: (rest ++ more) := by
        rw [List.dropWhile_append, left]
        rfl
      rw [left] at closed
      dsimp only at closed
      rw [atoi64, atoi64, left, further]
      dsimp only
      by_cases minus : c = 45
      · rw [if_pos (Or.inl minus)] at closed
        rw [if_pos minus, if_pos minus, digitsValue_closed 0 closed more]
      · rw [if_neg minus, if_neg minus]
        by_cases plus : c = 43
        · rw [if_pos (Or.inr plus)] at closed
          rw [if_pos plus, if_pos plus, digitsValue_closed 0 closed more]
        · rw [if_neg (not_or.mpr ⟨minus, plus⟩)] at closed
          rw [if_neg plus, if_neg plus, ← List.cons_append, digitsValue_closed 0 closed more]

/-- An open number is read on, and one more digit makes it another number. -/
theorem atoi64_open {text : Bytes} (isOpen : numberOpen text = true) (short : text.length ≤ 14) :
    atoi64 (text ++ [49]) ≠ atoi64 text := by
  have grows : forall digits : Bytes, digits.all isDigit = true -> digits.length ≤ 14 ->
      digitsValue 0 (digits ++ [49]) = 10 * digitsValue 0 digits + 1 ∧ digitsValue 0 digits < 10 ^ 14 := by
    intro digits all few
    have bound := digitsValue_lt 0 digits
    have larger : 10 ^ digits.length ≤ 10 ^ 14 := Nat.pow_le_pow_right (by decide) few
    refine ⟨digitsValue_append 0 all [49], by omega⟩
  have further : (text ++ [49]).dropWhile isSpace = text.dropWhile isSpace ++ [49] := by
    rw [List.dropWhile_append]
    split
    · rename_i empty
      rw [List.isEmpty_iff.mp empty]
      rfl
    · rfl
  have shorter : (text.dropWhile isSpace).length ≤ 14 := (List.dropWhile_suffix _).length_le.trans short
  rw [numberOpen] at isOpen
  rw [atoi64, atoi64, further]
  cases left : text.dropWhile isSpace with
  | nil => decide
  | cons c rest =>
      rw [left, List.length_cons] at shorter
      rw [left] at isOpen
      dsimp only [List.cons_append] at isOpen ⊢
      by_cases minus : c = 45
      · rw [if_pos (Or.inl minus)] at isOpen
        rcases grows rest isOpen (by omega) with ⟨longer, bound⟩
        rw [if_pos minus, if_pos minus, longer, int64Min]
        omega
      · rw [if_neg minus, if_neg minus]
        by_cases plus : c = 43
        · rw [if_pos (Or.inr plus)] at isOpen
          rcases grows rest isOpen (by omega) with ⟨longer, bound⟩
          rw [if_pos plus, if_pos plus, longer, int64Max]
          omega
        · rw [if_neg (not_or.mpr ⟨minus, plus⟩)] at isOpen
          rcases grows (c :: rest) isOpen (by rw [List.length_cons]; omega) with ⟨longer, bound⟩
          rw [if_neg plus, if_neg plus, ← List.cons_append, longer, int64Max]
          omega

/-- An open number has no NUL byte, so the whole text is read. -/
theorem cString_open {text : Bytes} (isOpen : numberOpen text = true) : forall byte, byte ∈ text -> byte ≠ 0 := by
  have digit : forall byte, isDigit byte = true -> byte ≠ 0 := by
    rintro byte isDigit rfl
    cases isDigit
  have behind : forall byte, byte ∈ text.dropWhile isSpace -> byte ≠ 0 := by
    intro byte member
    rw [numberOpen] at isOpen
    cases left : text.dropWhile isSpace with
    | nil =>
        rw [left] at member
        cases member
    | cons c rest =>
        rw [left] at isOpen member
        dsimp only at isOpen
        split at isOpen
        · rename_i sign
          rcases List.mem_cons.mp member with rfl | later
          · rcases sign with rfl | rfl <;> decide
          · exact digit byte (List.all_eq_true.mp isOpen byte later)
        · exact digit byte (List.all_eq_true.mp isOpen byte member)
  intro byte member
  rw [← List.takeWhile_append_dropWhile (p := isSpace) (l := text)] at member
  rcases List.mem_append.mp member with front | back
  · rintro rfl
    cases List.mem_takeWhile_imp front
  · exact behind byte back

/-! ## What an accepted bundle stores -/

theorem cString_append_closed {text : Bytes} (closed : numberOpen text = false) (more : Bytes) :
    atoi64 (cString (text ++ more)) = atoi64 (cString text) := by
  rw [cString, cString, List.takeWhile_append]
  split
  · rename_i whole
    have same := (List.takeWhile_prefix (fun byte : UInt8 => decide (byte ≠ 0))).eq_of_length whole
    rw [same]
    exact atoi64_closed closed _
  · rfl

/-- The stored number is that of the value and something behind it: a byte of
the buffer, and what was on the stack. -/
theorem ival_of_accepts {env : ParseEnv} {b : Bundle} {rest : Bytes} {p : CfgProfile} {value : Bytes} {ival : Int}
    (accepts : Accepts env b rest p) (stored : IntegerAt b p value ival) (short : value.length ≤ 15) :
    exists src frame, ival = atoi64 (cString (value ++ fieldTail src frame value.length)) := by
  rcases stored with ⟨i, raw, e, entry, standing, integer, rfl, rfl⟩
  rw [accepts.head, storedFrom_get entry] at standing
  cases standing
  rw [storedEntry_ival _ _ _ integer]
  refine ⟨_, _, decodeField_short short (fun k inside => ?_) _⟩
  rw [ParseEnv.byteAt, if_pos (by rw [List.length_append]; omega), List.getD_eq_getElem?_getD,
    List.getD_eq_getElem?_getD, List.getElem?_append_left inside]

theorem fieldTail_full (src frame : Nat -> UInt8) : fieldTail src frame 15 = [0] :=
  rfl

/-- A value that fills the field, or ends its number, is read alone. -/
theorem decodedAlone_of_closed {value : Bytes} (short : value.length ≤ 15)
    (closed : value.length = 15 ∨ numberOpen value = false) : DecodedAlone value := by
  have own : forall env b rest p ival, Accepts env b rest p -> IntegerAt b p value ival ->
      ival = atoi64 (cString value) := by
    intro env b rest p ival accepts stored
    rcases ival_of_accepts accepts stored short with ⟨src, frame, same⟩
    rw [same]
    rcases closed with full | ends
    · have terminated : cString (value ++ [0]) = cString value := congrArg Subtype.val (ofBlock_terminated value)
      rw [full, fieldTail_full, terminated]
    · exact cString_append_closed ends _
  refine ⟨own, ?_⟩
  intro env b rest p ival env' b' rest' p' ival' accepts accepts' stored stored'
  exact (own env b rest p ival accepts stored).trans (own env' b' rest' p' ival' accepts' stored').symm

def numberEntry (value : Bytes) (fits : value.length ≤ cprofMaxValue) : RawEntry where
  name := ascii "port"
  type := 3
  value := value
  nameFits := by decide
  valueFits := fits

/-- A bundle with one number, in front of anything. -/
def numberBundle (value : Bytes) (fits : value.length ≤ cprofMaxValue) : Bundle where
  flags := greeting.flags
  entries := [numberEntry value fits]
  fits := Nat.le_of_ble_eq_true rfl

/-- A digit stands behind the value, and a clean stack ends the number there.
So the stored number has one digit more. -/
theorem numberBundle_accepted {value : Bytes} (short : value.length ≤ 14) (text : forall byte, byte ∈ value -> byte ≠ 0)
    (fits : value.length ≤ cprofMaxValue) :
    exists p, Accepts calm (numberBundle value fits) [49] p ∧
      IntegerAt (numberBundle value fits) p value (atoi64 (value ++ [49])) := by
  have small : ((numberBundle value fits).encode ++ [49]).length < 2 ^ 31 := by
    rw [List.length_append, Bundle.encode, List.length_append, Bundle.header_length]
    simp only [numberBundle, numberEntry, encodeEntries, RawEntry.encode, List.flatMap_cons, List.flatMap_nil,
      List.length_append, toLE_length, List.length_cons, List.length_nil]
    have name : (ascii "port").length = 4 := by decide
    rw [name, headerSize]
    omega
  have succeeds : calm.Succeeds := ⟨rfl, fun _ => rfl⟩
  rcases accepts_of_succeeds succeeds small with ⟨p, accepts⟩
  have entry : (numberBundle value fits).entries[0]? = some (numberEntry value fits) := rfl
  have standing := @storedFrom_get calm 0 _ _ entry 0 [49]
  rw [← accepts.head] at standing
  refine ⟨p, accepts, 0, _, _, entry, standing, rfl, rfl, ?_⟩
  · have holds : forall k, k < value.length -> calm.byteAt (value ++ [49]) k = value.getD k 0 := by
      intro k inside
      rw [ParseEnv.byteAt, if_pos (by rw [List.length_append]; omega), List.getD_eq_getElem?_getD,
        List.getD_eq_getElem?_getD, List.getElem?_append_left inside]
    have next : calm.byteAt (value ++ [49]) value.length = 49 := by
      rw [ParseEnv.byteAt, if_pos (by rw [List.length_append]; exact Nat.lt_succ_self _)]
      exact getD_append_length value 49 [] rfl
    have tail : exists more, fieldTail (calm.byteAt (value ++ [49])) (fun _ => 0) value.length = 49 :: 0 :: more := by
      have sizes : 16 - value.length = 14 - value.length + 1 + 1 := by omega
      rw [fieldTail, sizes, List.range_succ_eq_map, List.map_cons, List.range_succ_eq_map, List.map_cons, List.map_cons,
        if_neg (by omega), if_pos rfl, next]
      refine ⟨_, congrArg₂ List.cons rfl (congrArg₂ List.cons ?_ rfl)⟩
      split
      · rfl
      · rfl
    rcases tail with ⟨more, tail⟩
    have stored := decodeField_short (short.trans (by decide)) holds (fun _ => 0)
    have letters : forall byte, byte ∈ value -> decide (byte ≠ 0) = true := fun byte member =>
      decide_eq_true (text byte member)
    rw [tail, cString, List.takeWhile_append_of_pos letters] at stored
    exact (storedEntry_ival _ _ _ rfl).trans stored

theorem closed_of_decodedAlone {value : Bytes} (short : value.length ≤ 15) (alone : DecodedAlone value) :
    value.length = 15 ∨ numberOpen value = false := by
  by_contra other
  rw [not_or, Bool.not_eq_false] at other
  rcases other with ⟨notFull, isOpen⟩
  have few : value.length ≤ 14 := by omega
  have text := cString_open isOpen
  have fits : value.length ≤ cprofMaxValue := short.trans (by decide)
  rcases numberBundle_accepted few text fits with ⟨p, accepts, stored⟩
  have whole : cString value = value := List.takeWhile_eq_self_iff.mpr fun byte member =>
    decide_eq_true (text byte member)
  have same := alone.own calm _ [49] p _ accepts stored
  rw [whole] at same
  exact atoi64_open isOpen few same

/-- Every integer entry makes the decoder leave its bounds.  Its number is
that of its own bytes exactly when these fill the field up to the terminator
or end the number. -/
theorem integersOwn_iff (b : Bundle) (rest value : Bytes) :
    (IntegersOwn b rest ↔ forall raw, raw ∈ b.entries -> (raw.type.toNat : Int) ≠ cfgInt) ∧
    (value.length ≤ 15 -> (DecodedAlone value ↔ value.length = 15 ∨ numberOpen value = false)) := by
  refine ⟨?_, fun short => ⟨closed_of_decodedAlone short, decodedAlone_of_closed short⟩⟩
  constructor
  · intro owned raw member integer
    exact owned.inside raw member integer (.ofNat fieldSize 0) (decodeChecked_error raw.value _)
  · intro none
    have missing : forall p value ival, ¬ IntegerAt b p value ival := by
      rintro p value ival ⟨i, raw, e, entry, _, integer, _⟩
      exact none raw (List.mem_of_getElem? entry) integer
    exact ⟨fun env p value ival _ stored => absurd stored (missing p value ival),
      fun env p value ival _ stored => absurd stored (missing p value ival),
      fun raw member integer => absurd integer (none raw member)⟩

/-- A value that brings its own terminator. -/
theorem terminated_decodedAlone : DecodedAlone [56, 48, 0] :=
  ((integersOwn_iff greeting [] [56, 48, 0]).2 (by decide)).mpr (Or.inr (by decide))

theorem eighty_fits : (ascii "80").length ≤ cprofMaxValue := by
  have length : (ascii "80").length = 2 := by decide
  rw [length, cprofMaxValue]
  omega

/-- Port 80 in front of the digit 1 is port 801. -/
theorem portBundle_not_integersOwn : ¬ IntegersOwn (numberBundle (ascii "80") eighty_fits) [49] := by
  intro owned
  have short : (ascii "80").length ≤ 14 := by decide
  have isOpen : numberOpen (ascii "80") = true := by decide
  rcases numberBundle_accepted short (cString_open isOpen) eighty_fits with ⟨p, accepts, stored⟩
  have same := owned.own calm p _ _ accepts stored (by decide)
  revert same
  decide

end Cascade
end BugMuseum
