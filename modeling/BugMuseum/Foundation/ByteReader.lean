import Mathlib.Algebra.Group.Nat.Defs
import Mathlib.Algebra.Order.Group.Nat
import BugMuseum.Foundation.BlockHeap

namespace BugMuseum
namespace Foundation

/-!
# Reading fields from a byte string

A length-prefixed format is described here by consuming its input from the
left.  A field of known length is taken, or the input ends before it; a number
is a little-endian field.  The laws say that taking succeeds exactly on an
input that starts with such a field, so that a reader built from these pieces
is the inverse of the encoder.

Code that works on a fixed buffer keeps an offset instead of a shrinking
input.  The last section translates one view into the other: the input left at
an offset is what remains of the buffer behind it.
-/

/-- The low bytes of a number, least significant first.  A number that is too
large for the width is cut to it. -/
def toLE : Nat -> Nat -> Bytes
  | 0, _ => []
  | width + 1, value => UInt8.ofNat (value % 256) :: toLE width (value / 256)

def ofLE : Bytes -> Nat
  | [] => 0
  | low :: high => low.toNat + 256 * ofLE high

@[simp] theorem toLE_length (width value : Nat) : (toLE width value).length = width := by
  induction width generalizing value with
  | zero => rfl
  | succ width inductionHypothesis => rw [toLE, List.length_cons, inductionHypothesis]

/-- A number survives a field that is wide enough for it: what is read back
from the field is the number that was written. -/
theorem ofLE_toLE {width value : Nat} (fits : value < 256 ^ width) : ofLE (toLE width value) = value := by
  induction width generalizing value with
  | zero =>
      rw [Nat.pow_zero] at fits
      rw [toLE, ofLE]
      omega
  | succ width inductionHypothesis =>
      have high : value / 256 < 256 ^ width := by
        rw [Nat.pow_succ] at fits
        omega
      have low : (UInt8.ofNat (value % 256)).toNat = value % 256 := by
        rw [UInt8.toNat_ofNat']
        omega
      rw [toLE, ofLE, inductionHypothesis high, low]
      omega

/-- A field is determined by its length and its number.  So a reader that
keeps only the number has not lost anything of the field. -/
theorem toLE_ofLE (bytes : Bytes) : toLE bytes.length (ofLE bytes) = bytes := by
  induction bytes with
  | nil => rfl
  | cons low high inductionHypothesis =>
      have bound := low.toNat_lt
      have head : (low.toNat + 256 * ofLE high) % 256 = low.toNat := by omega
      have tail : (low.toNat + 256 * ofLE high) / 256 = ofLE high := by omega
      rw [List.length_cons, ofLE, toLE, head, tail, inductionHypothesis, UInt8.ofNat_toNat]

/-- The number of a field fits the field.  Where the code computes with it in
a word of that width, nothing is cut. -/
theorem ofLE_lt (bytes : Bytes) : ofLE bytes < 256 ^ bytes.length := by
  induction bytes with
  | nil => exact Nat.one_pos
  | cons low high inductionHypothesis =>
      have bound := low.toNat_lt
      rw [ofLE, List.length_cons, Nat.pow_succ]
      omega

/-- A byte string of a known length.  The length is part of the type, so a
reader that takes a field does not have to prove it again. -/
abbrev Field (length : Nat) :=
  { bytes : Bytes // bytes.length = length }

/-- The little-endian field of a number, cut to the width. -/
def Field.ofNat (width value : Nat) : Field width :=
  ⟨toLE width value, toLE_length width value⟩

def Field.toNat {width : Nat} (field : Field width) : Nat :=
  ofLE field.1

@[simp] theorem Field.toNat_ofNat {width value : Nat} (fits : value < 256 ^ width) :
    (Field.ofNat width value).toNat = value :=
  ofLE_toLE fits

theorem Field.ofNat_toNat {width : Nat} (field : Field width) :
    Field.ofNat width field.toNat = field := by
  apply Subtype.ext
  have restored := toLE_ofLE field.1
  rwa [field.2] at restored

theorem Field.toNat_lt {width : Nat} (field : Field width) : field.toNat < 256 ^ width := by
  have bound := ofLE_lt field.1
  rwa [field.2] at bound

/-- A field and the field behind it, as one field of the joint length. -/
def Field.append {front back : Nat} (first : Field front) (second : Field back) : Field (front + back) :=
  ⟨first.1 ++ second.1, by rw [List.length_append, first.2, second.2]⟩

/-- The two parts of a field, at a place that its type names.  A packed header
is read in one piece and then split into its members. -/
def Field.split {front back : Nat} (data : Field (front + back)) : Field front × Field back :=
  (⟨data.1.take front, List.length_take_of_le (data.2.symm ▸ Nat.le_add_right front back)⟩,
    ⟨data.1.drop front, by rw [List.length_drop, data.2, Nat.add_sub_cancel_left]⟩)

@[simp] theorem Field.split_append {front back : Nat} (first : Field front) (second : Field back) :
    (first.append second).split = (first, second) :=
  Prod.ext (Subtype.ext (List.take_left' first.2)) (Subtype.ext (List.drop_left' first.2))

section Taking

variable {ε : Type} (truncated : ε)

/-- Take the next field, or report that the input ends inside it.  Nothing is
consumed in that case, and the caller chooses the code of the report. -/
def takeField (length : Nat) (input : Bytes) : Except ε (Field length × Bytes) :=
  if enough : length ≤ input.length then
    .ok (⟨input.take length, List.length_take_of_le enough⟩, input.drop length)
  else .error truncated

/-- Check a limit and keep the evidence, so that the value can be stored in a
structure that carries the bound as a field. -/
def atMost (exceeded : ε) (value limit : Nat) : Except ε (PLift (value ≤ limit)) :=
  if within : value ≤ limit then .ok ⟨within⟩ else .error exceeded

/-- A field in front of the input is the field that is taken, and what is left
is the input behind it. -/
theorem takeField_append {length : Nat} {bytes : Bytes} (measured : bytes.length = length)
    (rest : Bytes) :
    takeField truncated length (bytes ++ rest) = .ok (⟨bytes, measured⟩, rest) := by
  subst measured
  have enough : bytes.length ≤ (bytes ++ rest).length := by
    rw [List.length_append]
    omega
  rw [takeField, dif_pos enough]
  simp only [List.take_left, List.drop_left]

theorem takeField_eq_ok {length : Nat} {input rest : Bytes} {field : Field length} :
    takeField truncated length input = .ok (field, rest) ↔ input = field.1 ++ rest := by
  constructor
  · intro taken
    unfold takeField at taken
    split at taken
    · cases taken
      exact (List.take_append_drop length input).symm
    · cases taken
  · intro split
    rw [split]
    exact takeField_append truncated field.2 rest

theorem takeField_of_short {length : Nat} {input : Bytes} (short : input.length < length) :
    takeField truncated length input = .error truncated := by
  rw [takeField, dif_neg (Nat.not_le.mpr short)]

/-- A field can be taken in one go or in two parts.  A program that reads a
packed header at once and one that reads it member by member come to the
same. -/
theorem takeField_add {α : Type} (front back : Nat) (input : Bytes)
    (next : Field (front + back) × Bytes -> Except ε α) :
    takeField truncated (front + back) input >>= next =
      takeField truncated front input >>= fun first =>
        takeField truncated back first.2 >>= fun second => next (first.1.append second.1, second.2) := by
  by_cases enough : front ≤ input.length
  · obtain ⟨first, rest, measured, split⟩ : exists first rest, first.length = front ∧ input = first ++ rest :=
      ⟨input.take front, input.drop front, List.length_take_of_le enough,
        (List.take_append_drop front input).symm⟩
    rw [split, takeField_append truncated measured]
    by_cases more : back ≤ rest.length
    · obtain ⟨second, behind, sized, parted⟩ : exists second behind, second.length = back ∧
          rest = second ++ behind :=
        ⟨rest.take back, rest.drop back, List.length_take_of_le more,
          (List.take_append_drop back rest).symm⟩
      have both : (first ++ second).length = front + back := by
        rw [List.length_append, measured, sized]
      rw [parted, ← List.append_assoc, takeField_append truncated both]
      dsimp only [bind, Except.bind]
      rw [takeField_append truncated sized]
      rfl
    · have short : (first ++ rest).length < front + back := by
        rw [List.length_append, measured]
        omega
      rw [takeField_of_short truncated short]
      dsimp only [bind, Except.bind]
      rw [takeField_of_short truncated (Nat.lt_of_not_le more)]
  · have short : input.length < front + back := by omega
    rw [takeField_of_short truncated short, takeField_of_short truncated (Nat.lt_of_not_le enough)]
    rfl

theorem atMost_of_le {exceeded : ε} {value limit : Nat} (within : value ≤ limit) :
    atMost exceeded value limit = .ok ⟨within⟩ := by
  rw [atMost, dif_pos within]

end Taking

/-- A reader in two steps succeeds exactly when both steps do, the second one
on what the first one has left. -/
theorem bind_eq_ok {ε α β : Type} {first : Except ε α} {next : α -> Except ε β} {result : β} :
    first >>= next = .ok result ↔ exists value, first = .ok value ∧ next value = .ok result := by
  cases first with
  | error code => simp [bind, Except.bind]
  | ok value => simp [bind, Except.bind]

/-- What holds at every place of a list holds at its first place and, counted
one less, at every later one. -/
theorem forall_place_cons {Node : Type} {holds : Nat -> Node -> Prop} {first : Node} {rest : List Node} :
    (forall j node, (first :: rest)[j]? = some node -> holds j node) ↔
      holds 0 first ∧ forall j node, rest[j]? = some node -> holds (j + 1) node := by
  constructor
  · intro all
    exact ⟨all 0 first rfl, fun j node standing => all (j + 1) node standing⟩
  · rintro ⟨front, later⟩ j node standing
    cases j with
    | zero =>
        cases standing
        exact front
    | succ j => exact later j node standing

/-- A walk over a list succeeds exactly when each of its steps does.  The
steps may give different results, but none depends on an earlier one. -/
theorem mapM_ok_iff {ε α β : Type} {step : α -> Except ε β} {nodes : List α} :
    (exists results, nodes.mapM step = .ok results) ↔
      forall node, node ∈ nodes -> exists result, step node = .ok result := by
  induction nodes with
  | nil => exact iff_of_true ⟨[], rfl⟩ (List.forall_mem_nil _)
  | cons first rest inductionHypothesis =>
      rw [List.mapM_cons, List.forall_mem_cons, ← inductionHypothesis]
      constructor
      · rintro ⟨results, walked⟩
        rcases bind_eq_ok.mp walked with ⟨result, stepped, later⟩
        rcases bind_eq_ok.mp later with ⟨others, walkedRest, _⟩
        exact ⟨⟨result, stepped⟩, others, walkedRest⟩
      · rintro ⟨⟨result, stepped⟩, others, walkedRest⟩
        exact ⟨_, bind_eq_ok.mpr ⟨result, stepped, bind_eq_ok.mpr ⟨others, walkedRest, rfl⟩⟩⟩

theorem mapM_some {α β : Type} {step : α -> Option β} {result : α -> β} {nodes : List α}
    (each : forall node, node ∈ nodes -> step node = some (result node)) :
    nodes.mapM step = some (nodes.map result) := by
  induction nodes with
  | nil => rfl
  | cons first rest inductionHypothesis =>
      have later := inductionHypothesis fun node member => each node (List.mem_cons_of_mem first member)
      rw [List.mapM_cons, each first List.mem_cons_self, later]
      rfl

theorem mapM_some_of_ok {ε α β : Type} {step : α -> Except ε β} {other : α -> Option β} {nodes : List α}
    (agrees : forall node result, step node = .ok result -> other node = some result) {results : List β}
    (walked : nodes.mapM step = .ok results) : nodes.mapM other = some results := by
  induction nodes generalizing results with
  | nil =>
      cases walked
      rfl
  | cons first rest inductionHypothesis =>
      rw [List.mapM_cons] at walked
      rcases bind_eq_ok.mp walked with ⟨result, stepped, later⟩
      rcases bind_eq_ok.mp later with ⟨others, walkedRest, whole⟩
      cases whole
      rw [List.mapM_cons, agrees first result stepped, inductionHypothesis walkedRest]
      rfl

/-- `if (bad) return code;`, as a step of a reader that goes on otherwise. -/
def failIf {ε : Type} (code : ε) (bad : Prop) [Decidable bad] : Except ε Unit :=
  if bad then .error code else .ok ()

theorem failIf_eq_ok {ε : Type} {code : ε} {bad : Prop} [Decidable bad] {done : Unit} :
    failIf code bad = .ok done ↔ ¬ bad := by
  unfold failIf
  split <;> simp [*]

/-- The reader fails with one of the listed codes only.  The rules below
collect the codes of a reader from those of its steps. -/
def FailsIn {ε α : Type} (codes : List ε) (reader : Except ε α) : Prop :=
  forall code, reader = .error code -> code ∈ codes

namespace FailsIn

variable {ε α β : Type} {codes : List ε}

theorem bind {first : Except ε α} {next : α -> Except ε β} (fails : FailsIn codes first)
    (rest : forall value, FailsIn codes (next value)) : FailsIn codes (first >>= next) := by
  intro code failed
  cases first with
  | error early =>
      cases failed
      exact fails code rfl
  | ok value => exact rest value code failed

theorem ok (value : α) : FailsIn codes (.ok value) :=
  fun _ impossible => nomatch impossible

theorem takeField {truncated : ε} (listed : truncated ∈ codes) (length : Nat) (input : Bytes) :
    FailsIn codes (takeField truncated length input) := by
  intro code failed
  unfold Foundation.takeField at failed
  split at failed
  · cases failed
  · cases failed
    exact listed

theorem atMost {exceeded : ε} (listed : exceeded ∈ codes) (value limit : Nat) :
    FailsIn codes (atMost exceeded value limit) := by
  intro code failed
  by_cases within : value ≤ limit
  · rw [atMost_of_le within] at failed
    cases failed
  · rw [Foundation.atMost, dif_neg within] at failed
    cases failed
    exact listed

theorem failIf {code : ε} (listed : code ∈ codes) (bad : Prop) [Decidable bad] :
    FailsIn codes (failIf code bad) := by
  intro other failed
  unfold Foundation.failIf at failed
  split at failed
  · cases failed
    exact listed
  · cases failed

end FailsIn

/-! ## Offsets into a buffer -/

/-- The bytes of a buffer between two offsets.  It is shorter than `length`
when the buffer ends before. -/
def slice (data : Bytes) (offset length : Nat) : Bytes :=
  (data.drop offset).take length

theorem slice_length {data : Bytes} {offset length : Nat} (inside : offset + length ≤ data.length) :
    (slice data offset length).length = length := by
  rw [slice, List.length_take, List.length_drop]
  omega

/-- What stands between two parts of a buffer is the slice at the offset where
the first part ends. -/
theorem slice_append (before middle after : Bytes) {offset length : Nat}
    (start : before.length = offset) (stop : middle.length = length) :
    slice (before ++ (middle ++ after)) offset length = middle := by
  rw [slice, ← start, ← stop, List.drop_left, List.take_left]

/-- A slice and the slice behind it are one slice of the joint length. -/
theorem slice_add (data : Bytes) (offset first second : Nat) :
    slice data offset (first + second) = slice data offset first ++ slice data (offset + first) second := by
  rw [slice, slice, slice, List.take_add, List.drop_drop]

/-- What is left at an offset starts with a slice, and goes on with what is
left behind it.  This is the step from the view of a shrinking input to that
of a moving offset. -/
theorem drop_eq_slice_append (data : Bytes) (offset length : Nat) :
    data.drop offset = slice data offset length ++ data.drop (offset + length) := by
  rw [slice, ← List.drop_drop, List.take_append_drop]

theorem slice_all (data : Bytes) : slice data 0 data.length = data := by
  rw [slice, List.drop_zero, List.take_length]

/-- A slice of the front of a buffer is a slice of the buffer, as long as it
ends inside the front. -/
theorem slice_take (data : Bytes) {offset length front : Nat} (inside : offset + length ≤ front) :
    slice (data.take front) offset length = slice data offset length := by
  rw [slice, slice, List.drop_take, List.take_take, Nat.min_eq_left (by omega)]

theorem slice_one {data : Bytes} {off : Nat} (inside : off + 1 ≤ data.length) :
    slice data off 1 = [data.getD off 0] := by
  have head : data.drop off = data[off] :: data.drop (off + 1) := List.drop_eq_getElem_cons (by omega)
  rw [slice, head, List.getD_eq_getElem?_getD, List.getElem?_eq_getElem (by omega)]
  rfl

/-- The number of a field, written again, gives the bytes of the field. -/
theorem toLE_slice {data : Bytes} {off width : Nat} (inside : off + width ≤ data.length) :
    toLE width (ofLE (slice data off width)) = slice data off width := by
  have restored := toLE_ofLE (slice data off width)
  rwa [slice_length inside] at restored

theorem ofLE_slice_lt {data : Bytes} {off width : Nat} (inside : off + width ≤ data.length) :
    ofLE (slice data off width) < 256 ^ width := by
  have bound := ofLE_lt (slice data off width)
  rwa [slice_length inside] at bound

/-- The byte behind the front of a buffer is the one at the offset where the
front ends. -/
theorem getD_append_length (before : Bytes) (byte : UInt8) (after : Bytes) {off : Nat}
    (start : before.length = off) : (before ++ ([byte] ++ after)).getD off 0 = byte := by
  rw [← start, List.getD_eq_getElem?_getD, List.getElem?_append_right (Nat.le_refl _), Nat.sub_self]
  rfl

/-- The field of that length at an offset of a buffer.  That it lies inside is
an argument, so no byte is made up. -/
def Field.slice {width : Nat} (data : Field width) (offset length : Nat)
    (inside : offset + length ≤ width) : Field length :=
  ⟨Foundation.slice data.1 offset length, slice_length (data.2.symm ▸ inside)⟩

/-- Two readers report the same failure, or both succeed with related results.
The first one is the code with its offsets, and the second one the reader of
the format. -/
inductive Agrees {ε α β : Type} (related : α -> β -> Prop) : Except ε α -> Except ε β -> Prop where
  | failed (code : ε) : Agrees related (.error code) (.error code)
  | read {left : α} {right : β} (same : related left right) : Agrees related (.ok left) (.ok right)

namespace Agrees

variable {ε α β γ δ : Type} {related : α -> β -> Prop} {later : γ -> δ -> Prop}

theorem bind {first : Except ε α} {second : Except ε β} {next : α -> Except ε γ}
    {follow : β -> Except ε δ} (agrees : Agrees related first second)
    (rest : forall left right, related left right -> Agrees later (next left) (follow right)) :
    Agrees later (first >>= next) (second >>= follow) := by
  cases agrees with
  | failed code => exact .failed code
  | read same => exact rest _ _ same

theorem outcome {first : Except ε α} {second : Except ε β} (agrees : Agrees related first second) :
    (exists code, first = .error code ∧ second = .error code) ∨
      exists left right, first = .ok left ∧ second = .ok right ∧ related left right := by
  cases agrees with
  | failed code => exact Or.inl ⟨code, rfl, rfl⟩
  | read same => exact Or.inr ⟨_, _, rfl, rfl, same⟩

/-- The second reader only builds its result from the common part, which is
the end of most readers. -/
theorem build {first : Except ε γ} {second : Except ε β} {result : β -> δ} {before : γ -> β -> Prop}
    (agrees : Agrees before first second)
    (rest : forall left right, before left right -> later left (result right)) :
    Agrees later first (second >>= fun right => pure (result right)) := by
  cases agrees with
  | failed code => exact .failed code
  | read same => exact .read (rest _ _ same)

/-- A test that both readers make.  Behind it, both may rely on its
outcome. -/
theorem bind_failIf {code : ε} {bad : Prop} [Decidable bad] {next : Except ε γ} {follow : Except ε δ}
    (rest : ¬ bad -> Agrees later next follow) :
    Agrees later (failIf code bad >>= fun _ => next) (failIf code bad >>= fun _ => follow) := by
  unfold failIf
  split
  · exact .failed code
  · rename_i good
    exact rest good

/-- A limit that the code tests and the reader checks.  The reader keeps the
evidence, which the code does not have. -/
theorem bind_limit {code : ε} {value bound : Nat} {next : Except ε γ}
    {follow : PLift (value ≤ bound) -> Except ε δ}
    (rest : forall within : value ≤ bound, Agrees later next (follow ⟨within⟩)) :
    Agrees later (failIf code (value > bound) >>= fun _ => next) (atMost code value bound >>= follow) := by
  by_cases within : value ≤ bound
  · rw [failIf, if_neg (Nat.not_lt.mpr within), atMost_of_le within]
    exact rest within
  · rw [failIf, atMost, if_pos (Nat.lt_of_not_le within), dif_neg within]
    exact .failed code

/-- The bounds check of the code against the field of the reader.  The sum
that the code forms must not wrap around, which is where the two part on a
narrow `size_t`. -/
theorem bind_room {code : ε} {modulus offset length : Nat} {data : Bytes} {next : Except ε γ}
    {follow : Field length × Bytes -> Except ε δ} (inside : offset ≤ data.length)
    (noWrap : offset + length < modulus)
    (rest : forall field : Field length, field.1 = slice data offset length ->
      offset + length ≤ data.length -> Agrees later next (follow (field, data.drop (offset + length)))) :
    Agrees later (failIf code ((offset + length) % modulus > data.length) >>= fun _ => next)
      (takeField code length (data.drop offset) >>= follow) := by
  have remaining : (data.drop offset).length = data.length - offset := List.length_drop
  rw [failIf, takeField, Nat.mod_eq_of_lt noWrap]
  by_cases within : offset + length ≤ data.length
  · rw [if_neg (Nat.not_lt.mpr within), dif_pos (by omega)]
    have after := rest ⟨slice data offset length, slice_length within⟩ rfl within
    rw [← List.drop_drop] at after
    exact after
  · rw [if_pos (Nat.lt_of_not_le within), dif_neg (by omega)]
    exact .failed code

end Agrees

end Foundation
end BugMuseum
