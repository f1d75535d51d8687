import Mathlib.Data.List.Basic
import Mathlib.Data.List.Nodup
import Mathlib.Data.List.Perm.Subperm

namespace BugMuseum
namespace Foundation

/-!
# Intrusive singly linked queues

The nodes of an intrusive list carry their own link, so the list is not a data
structure of its own: it is what one meets when following the links from the
head.  `Path link start nodes stop` says that this walk visits exactly the
given nodes and then arrives at `stop`; a finite list ends at `none`.

The rules below are the ones a queue needs.  A walk splits at any node, it
does not depend on the links of nodes outside it, and the two updates of a
queue, linking a node behind the last one and bypassing a node in the middle,
change the walk in the expected way.
-/

variable {Node : Type}

/-- Following `link` from `start` visits the listed nodes and reaches `stop`.
The list is finite, so a walk that reaches the null link has no cycle. -/
def Path (link : Node -> Option Node) : Option Node -> List Node -> Option Node -> Prop
  | start, [], stop => start = stop
  | start, node :: rest, stop => start = some node ∧ Path link (link node) rest stop

@[simp] theorem path_nil {link : Node -> Option Node} {start stop : Option Node} :
    Path link start [] stop ↔ start = stop :=
  Iff.rfl

@[simp] theorem path_cons {link : Node -> Option Node} {start stop : Option Node}
    {node : Node} {rest : List Node} :
    Path link start (node :: rest) stop ↔ start = some node ∧ Path link (link node) rest stop :=
  Iff.rfl

theorem path_append {link : Node -> Option Node} {start stop : Option Node}
    {before after : List Node} :
    Path link start (before ++ after) stop ↔
      exists middle, Path link start before middle ∧ Path link middle after stop := by
  induction before generalizing start with
  | nil => simp
  | cons node rest inductionHypothesis =>
      simp only [List.cons_append, path_cons, inductionHypothesis]
      constructor
      · rintro ⟨first, middle, walked, remaining⟩
        exact ⟨middle, ⟨first, walked⟩, remaining⟩
      · rintro ⟨middle, ⟨first, walked⟩, remaining⟩
        exact ⟨first, middle, walked, remaining⟩

/-- Only the links of visited nodes matter.  An update of any other node
leaves the walk as it is. -/
theorem Path.congr {link link' : Node -> Option Node} {start stop : Option Node}
    {nodes : List Node} (walked : Path link start nodes stop)
    (agree : forall node, node ∈ nodes -> link' node = link node) :
    Path link' start nodes stop := by
  induction nodes generalizing start with
  | nil => exact walked
  | cons node rest inductionHypothesis =>
      refine ⟨walked.1, ?_⟩
      rw [agree node List.mem_cons_self]
      exact inductionHypothesis walked.2
        (fun later member => agree later (List.mem_cons_of_mem node member))

/-- The nodes of a walk to the end of the list are determined by its start, so
a representation by a list is a function of the memory. -/
theorem Path.unique {link : Node -> Option Node} {start : Option Node} {left right : List Node}
    (leftWalk : Path link start left none) (rightWalk : Path link start right none) :
    left = right := by
  induction left generalizing start right with
  | nil =>
      cases right with
      | nil => rfl
      | cons node rest => cases leftWalk.symm.trans rightWalk.1
  | cons node rest inductionHypothesis =>
      cases right with
      | nil => cases rightWalk.symm.trans leftWalk.1
      | cons other others =>
          have same : node = other := Option.some.inj (leftWalk.1.symm.trans rightWalk.1)
          subst same
          rw [inductionHypothesis leftWalk.2 rightWalk.2]

theorem path_head {link : Node -> Option Node} {start : Option Node} {nodes : List Node}
    (walked : Path link start nodes none) : start = nodes.head? := by
  cases nodes with
  | nil => exact walked
  | cons node rest => exact walked.1

/-- The last node of a list ends at `stop`, and the walk before it ends at the
last node. -/
theorem path_concat {link : Node -> Option Node} {start stop : Option Node}
    {before : List Node} {last : Node} :
    Path link start (before ++ [last]) stop ↔
      Path link start before (some last) ∧ link last = stop := by
  rw [path_append]
  constructor
  · rintro ⟨middle, walked, reached, ended⟩
    exact ⟨reached ▸ walked, ended⟩
  · rintro ⟨walked, ended⟩
    exact ⟨some last, walked, rfl, ended⟩

/-- Link a new node behind the last one.  The nodes before keep their links,
and the new one ends the list. -/
theorem Path.push {link link' : Node -> Option Node} {start : Option Node}
    {before : List Node} {last fresh : Node}
    (walked : Path link start (before ++ [last]) none)
    (agree : forall node, node ∈ before -> link' node = link node)
    (linked : link' last = some fresh) (ended : link' fresh = none) :
    Path link' start (before ++ [last] ++ [fresh]) none := by
  have parts := path_concat.mp walked
  refine path_concat.mpr ⟨path_concat.mpr ⟨parts.1.congr agree, linked⟩, ended⟩

/-- Bypass a node that follows `previous`: its link goes to where the link of
the node went.  This is how a queue is unlinked from in the middle. -/
theorem Path.bypass {link link' : Node -> Option Node} {start stop : Option Node}
    {before rest : List Node} {previous node : Node}
    (walked : Path link start (before ++ [previous] ++ node :: rest) stop)
    (agreeBefore : forall other, other ∈ before -> link' other = link other)
    (agreeRest : forall other, other ∈ rest -> link' other = link other)
    (linked : link' previous = link node) :
    Path link' start (before ++ [previous] ++ rest) stop := by
  rcases path_append.mp walked with ⟨middle, front, reached, back⟩
  subst reached
  have parts := path_concat.mp front
  refine path_append.mpr ⟨link node, path_concat.mpr ⟨?_, linked⟩, back.congr agreeRest⟩
  exact parts.1.congr agreeBefore

/-- A list is no longer than the bound on its distinct elements.  It bounds
the turns of a loop that never meets a node twice. -/
theorem length_le_of_bounded {nodes : List Nat} {bound : Nat} (nodup : nodes.Nodup)
    (bounded : forall node, node ∈ nodes -> node < bound) : nodes.length ≤ bound := by
  have inside : nodes ⊆ List.range bound := fun node member => List.mem_range.mpr (bounded node member)
  simpa using (List.Nodup.subperm nodup inside).length_le

/-- Removing the first occurrence of a node that the front does not contain
leaves the front and what is behind the node. -/
theorem erase_append_cons [DecidableEq Node] {before rest : List Node} {node : Node}
    (absent : node ∉ before) : (before ++ node :: rest).erase node = before ++ rest := by
  rw [List.erase_append_right _ absent, List.erase_cons_head]

/-- The last node once a node is bypassed: another one only if it was the last
itself, which is the case in which the code must move its tail pointer. -/
theorem getLast?_bypass [DecidableEq Node] {before rest : List Node} {node : Node} (absent : node ∉ rest) :
    (if (before ++ node :: rest).getLast? = some node then before.getLast?
      else (before ++ node :: rest).getLast?) = (before ++ rest).getLast? := by
  rcases List.eq_nil_or_concat rest with empty | ⟨others, last, split⟩
  · subst empty
    rw [List.getLast?_concat, if_pos rfl, List.append_nil]
  · rw [List.concat_eq_append] at split
    subst split
    have notLast : last ≠ node := fun same => absent
      (same ▸ List.mem_append_right others List.mem_cons_self)
    rw [← List.cons_append, ← List.append_assoc, ← List.append_assoc,
      List.getLast?_concat, List.getLast?_concat, if_neg]
    exact fun same => notLast (Option.some.inj same)

/-- A part of a list without repetitions is what a filter keeps of it, order
included, as soon as the filter keeps exactly its members. -/
theorem eq_filter_of_sublist {Node : Type} {part whole : List Node} (sublist : part.Sublist whole)
    (nodup : whole.Nodup) (keep : Node -> Bool)
    (kept : forall node, node ∈ whole -> (keep node = true ↔ node ∈ part)) :
    part = whole.filter keep := by
  have contained : part.Sublist (whole.filter keep) := by
    have all : part.filter keep = part := List.filter_eq_self.mpr fun node member =>
      (kept node (sublist.subset member)).mpr member
    rw [← all]
    exact sublist.filter keep
  have same : part.Perm (whole.filter keep) := by
    apply (List.perm_ext_iff_of_nodup (nodup.sublist sublist) (nodup.filter keep)).mpr
    intro node
    rw [List.mem_filter]
    constructor
    · intro member
      have inside := sublist.subset member
      exact ⟨inside, (kept node inside).mpr member⟩
    · rintro ⟨inside, keeps⟩
      exact (kept node inside).mp keeps
  exact contained.eq_of_length same.length_eq

/-- A node leaves the queue, and so does its number when no other node has
it. -/
theorem map_erase_of_unique {Number : Type} [DecidableEq Node] [DecidableEq Number] {number : Node -> Number}
    {node : Node} {nodes : List Node}
    (unique : forall other, other ∈ nodes -> number other = number node -> other = node) :
    (nodes.erase node).map number = (nodes.map number).erase (number node) := by
  induction nodes with
  | nil => rfl
  | cons head rest inductionHypothesis =>
      have later := inductionHypothesis fun other member => unique other (List.mem_cons_of_mem head member)
      by_cases same : head = node
      · subst same
        rw [List.erase_cons_head, List.map_cons, List.erase_cons_head]
      · have apart : number head ≠ number node := fun equal => same (unique head List.mem_cons_self equal)
        rw [List.erase_cons_tail (by simpa using same), List.map_cons, List.map_cons,
          List.erase_cons_tail (by simpa using apart), later]

end Foundation
end BugMuseum
