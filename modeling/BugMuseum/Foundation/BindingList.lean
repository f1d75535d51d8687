import Mathlib.Algebra.BigOperators.Group.Finset.Piecewise
import Mathlib.Data.List.Basic
import Mathlib.Logic.Function.Basic

namespace BugMuseum
namespace Foundation

/-!
# A store as a list of bindings

The simplest key-value store is the list of the bindings made so far, newest
first.  A lookup takes the newest binding of the key, and a deletion removes
that one, so an older binding of the same key comes into view again.

A hash table spreads the list over its buckets: each bucket has the bindings
whose keys belong to it, in the same order.  The laws of `share` say that the
three operations can be carried out in the bucket of the key alone.
-/

variable {Key Value : Type} [DecidableEq Key]

def isKey (k : Key) (binding : Key × Value) : Bool :=
  decide (binding.1 = k)

/-- The value of the newest binding of a key.  Older bindings of the same key
stay in the list behind it, where a lookup does not see them as long as the
newest one stands. -/
def newest (bindings : List (Key × Value)) (k : Key) : Option Value :=
  (bindings.find? (isKey k)).map Prod.snd

/-- Remove the newest binding of a key, and no other.  If there is an older
binding of the key, it is the newest one afterwards, and a lookup finds it. -/
def unbind (bindings : List (Key × Value)) (k : Key) : List (Key × Value) :=
  bindings.eraseP (isKey k)

theorem isKey_iff {k : Key} {binding : Key × Value} : isKey k binding = true ↔ binding.1 = k :=
  decide_eq_true_iff

theorem newest_cons_self (bindings : List (Key × Value)) (k : Key) (v : Value) :
    newest ((k, v) :: bindings) k = some v := by
  have first : isKey k (k, v) = true := isKey_iff.mpr rfl
  rw [newest, List.find?_cons_of_pos first]
  rfl

theorem newest_cons_of_ne (bindings : List (Key × Value)) {k other : Key} (v : Value)
    (different : k ≠ other) : newest ((k, v) :: bindings) other = newest bindings other := by
  rw [newest, List.find?_cons_of_neg (fun same => different (isKey_iff.mp same))]
  rfl

theorem newest_unbind_of_ne (bindings : List (Key × Value)) {k other : Key}
    (different : k ≠ other) : newest (unbind bindings k) other = newest bindings other := by
  induction bindings with
  | nil => rfl
  | cons binding rest inductionHypothesis =>
      by_cases removed : isKey k binding
      · have kept : ¬ isKey other binding := fun same =>
          different ((isKey_iff.mp removed).symm.trans (isKey_iff.mp same))
        rw [unbind, List.eraseP_cons_of_pos removed, newest, newest, List.find?_cons_of_neg kept]
      · rw [unbind, List.eraseP_cons_of_neg removed]
        rw [unbind, newest, newest] at inductionHypothesis
        rw [newest, newest, List.find?_cons, List.find?_cons]
        cases isKey other binding with
        | true => rfl
        | false => exact inductionHypothesis

/-- The bindings whose keys belong to a bucket, in the order in which the
whole list has them.  This is the part of the list that the chain of the
bucket stands for. -/
def share (home : Key -> Nat) (bucket : Nat) (bindings : List (Key × Value)) :
    List (Key × Value) :=
  bindings.filter fun binding => decide (home binding.1 = bucket)

variable {home : Key -> Nat}

omit [DecidableEq Key] in
theorem share_cons (bucket : Nat) (bindings : List (Key × Value)) (k : Key) (v : Value) :
    share home bucket ((k, v) :: bindings) =
      if home k = bucket then (k, v) :: share home bucket bindings
      else share home bucket bindings := by
  rw [share, List.filter_cons]
  simp only [decide_eq_true_eq]
  rfl

/-- The newest binding of a key is the first one in its bucket.  So a lookup
needs to walk one chain only, provided that the bucket of a key never
changes. -/
theorem find?_share (bindings : List (Key × Value)) (k : Key) :
    (share home (home k) bindings).find? (isKey k) = bindings.find? (isKey k) := by
  rw [share, List.find?_filter]
  apply congrArg (fun test => bindings.find? test)
  funext binding
  by_cases same : binding.1 = k <;> simp [isKey, same]

theorem share_unbind_self (bindings : List (Key × Value)) (k : Key) :
    share home (home k) (unbind bindings k) = (share home (home k) bindings).eraseP (isKey k) := by
  rw [share, share, List.eraseP_filter, unbind]
  apply congrArg (fun test => (bindings.eraseP test).filter _)
  funext binding
  by_cases same : binding.1 = k <;> simp [isKey, same]

theorem share_unbind_of_ne (bindings : List (Key × Value)) {k : Key} {bucket : Nat}
    (different : home k ≠ bucket) : share home bucket (unbind bindings k) = share home bucket bindings := by
  induction bindings with
  | nil => rfl
  | cons binding rest inductionHypothesis =>
      rcases binding with ⟨key, value⟩
      by_cases removed : isKey k (key, value)
      · have key_eq : key = k := isKey_iff.mp removed
        rw [unbind, List.eraseP_cons_of_pos removed, share_cons, key_eq, if_neg different]
      · rw [unbind, List.eraseP_cons_of_neg removed, share_cons, share_cons]
        rw [unbind] at inductionHypothesis
        rw [inductionHypothesis]

/-- A change of one chain adds and removes entries of that chain only.  The
statement is about the entries of all chains up to their order, which is what
a count or a sum over the whole table needs. -/
theorem flatMap_update {Node : Type} (chain : Nat -> List Node) {bucket size : Nat}
    (inside : bucket < size) (after : List Node) :
    ((List.range size).flatMap (Function.update chain bucket after) ++ chain bucket).Perm
      ((List.range size).flatMap chain ++ after) := by
  have member : bucket ∈ List.range size := List.mem_range.mpr inside
  have split := List.perm_cons_erase member
  have others : ((List.range size).erase bucket).flatMap (Function.update chain bucket after) =
      ((List.range size).erase bucket).flatMap chain := by
    apply List.flatMap_congr
    intro b listed
    have different : b ≠ bucket := (List.nodup_range.mem_erase_iff.mp listed).1
    rw [Function.update_of_ne different]
  have updated := split.flatMap_right (Function.update chain bucket after)
  have original := split.flatMap_right chain
  rw [List.flatMap_cons, Function.update_self, others] at updated
  rw [List.flatMap_cons] at original
  refine (updated.append_right _).trans (List.Perm.trans ?_ (original.append_right _).symm)
  rw [List.append_assoc]
  refine List.perm_append_comm.trans (List.Perm.append_right after ?_)
  exact List.perm_append_comm

omit [DecidableEq Key] in
/-- Together the buckets have the bindings of the list, each as often as the
list.  No binding is lost when every key has a bucket, and none is in two
buckets. -/
theorem flatMap_share_perm {size : Nat} (inside : forall k, home k < size) (bindings : List (Key × Value)) :
    ((List.range size).flatMap fun bucket => share home bucket bindings).Perm bindings := by
  induction bindings with
  | nil => simp [share]
  | cons binding rest inductionHypothesis =>
      rcases binding with ⟨k, v⟩
      have shares : (fun bucket => share home bucket ((k, v) :: rest)) =
          Function.update (fun bucket => share home bucket rest) (home k) ((k, v) :: share home (home k) rest) := by
        funext bucket
        rw [share_cons]
        by_cases own : home k = bucket
        · rw [if_pos own, ← own, Function.update_self]
        · rw [if_neg own, Function.update_of_ne (Ne.symm own)]
      have updated := flatMap_update (fun bucket => share home bucket rest) (inside k)
        ((k, v) :: share home (home k) rest)
      rw [← shares] at updated
      have moved : ((List.range size).flatMap (fun bucket => share home bucket rest) ++
          (k, v) :: share home (home k) rest).Perm
            ((k, v) :: ((List.range size).flatMap (fun bucket => share home bucket rest) ++
              share home (home k) rest)) := List.perm_middle
      have shifted := updated.trans moved
      rw [← List.cons_append] at shifted
      exact ((List.perm_append_right_iff _).mp shifted).trans (inductionHypothesis.cons _)

/-- A change of one chain changes the number of entries in all buckets by as
much as it changes the length of that chain. -/
theorem sum_length_update {Node : Type} (chain : Nat -> List Node) {bucket size : Nat}
    (inside : bucket < size) (after : List Node) :
    (∑ b ∈ Finset.range size, (Function.update chain bucket after b).length) + (chain bucket).length =
      (∑ b ∈ Finset.range size, (chain b).length) + after.length := by
  have member : bucket ∈ Finset.range size := Finset.mem_range.mpr inside
  have lengths : (fun b => (Function.update chain bucket after b).length) =
      Function.update (fun b => (chain b).length) bucket after.length :=
    Function.comp_update List.length chain bucket after
  rw [lengths, Finset.sum_update_of_mem member, Finset.sum_eq_sum_sdiff_singleton_add member]
  omega

end Foundation
end BugMuseum
