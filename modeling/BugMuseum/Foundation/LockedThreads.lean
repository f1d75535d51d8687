import Mathlib.Logic.Function.Basic
import BugMuseum.Foundation.Runs

namespace BugMuseum
namespace Foundation

/-!
# Threads and a lock

Several threads run one program.  Outside the lock a thread changes only what is its
own.  Under the lock it also changes what the threads share, in as many steps as it
likes, and between any two of them the other threads may do what they do outside.  How it
goes on under the lock may depend on all that it sees there.

The abstract machine has no lock: a thread does all the work of a section in one act.
The two are connected by the state that is reached when the thread that holds the lock
is left to finish.  Entering a section is then an act of the abstract machine, the steps
inside and the release are none, and a step of another thread outside the lock commutes
with what is still to be done.  So every interleaving is a run of whole sections in the
order in which the lock was taken.
-/

variable {S Thread Shared Own Outside Inside : Type}

/-- Steps on a state; what comes behind a step may depend on what it found.
Between two steps of a routine the state may be changed by others. -/
inductive Routine (S : Type) where
  | done
  | step (act : S -> S) (next : S -> Routine S)

/-- All steps, with nothing between them.  This is the section as one act. -/
def Routine.finish : Routine S -> S -> S
  | .done, v => v
  | .step act next, v => (next v).finish (act v)

/-- What a thread does with what the system hands it: a step outside, which
sees only what is its own, or the section that it stands in front of. -/
structure Program (Shared Own Outside Inside : Type) where
  outside : Own -> Outside -> Option Own
  locked : Own -> Inside -> Option (Routine (Shared × Own))

/-- What the threads share, and what is their own.  Only the holder of the
lock touches the shared part. -/
structure Joint (Thread Shared Own : Type) where
  shared : Shared
  own : Thread -> Own

variable [DecidableEq Thread]

namespace Joint

variable (j : Joint Thread Shared Own)

def setOwn (k : Thread) (own : Own) : Joint Thread Shared Own :=
  { j with own := Function.update j.own k own }

/-- The thread executes a step, or all steps of a routine, on what is shared
and on its own. -/
def perform (k : Thread) (act : Shared × Own -> Shared × Own) : Joint Thread Shared Own :=
  let done := act (j.shared, j.own k)
  { shared := done.1, own := Function.update j.own k done.2 }

@[simp] theorem perform_id (k : Thread) : j.perform k (fun v => v) = j := by
  simp [perform]

theorem perform_comp (k : Thread) (first second : Shared × Own -> Shared × Own) :
    (j.perform k first).perform k second = j.perform k (fun v => second (first v)) := by
  simp [perform]

/-- What another thread does with what is its own commutes with the steps,
whichever they are. -/
theorem perform_setOwn {k other : Thread} (apart : other ≠ k) (own : Own)
    (act : Shared × Own -> Shared × Own) :
    (j.setOwn other own).perform k act = (j.perform k act).setOwn other own := by
  simp only [perform, setOwn, Function.update_of_ne apart.symm]
  rw [Function.update_comm apart]

end Joint

/-- The threads, and what the holder of the lock has still to do.  Nobody
holds the lock when the routine is used up and released. -/
structure Interleaved (Thread Shared Own : Type) where
  joint : Joint Thread Shared Own
  holder : Option (Thread × Routine (Shared × Own))

inductive Turn (Thread Outside Inside : Type) where
  | outside (thread : Thread) (input : Outside)
  | enter (thread : Thread) (input : Inside)
  | proceed (thread : Thread)     -- the next step under the lock, or its release

/-- What a thread does in the abstract machine, where a section has no
inside. -/
inductive Act (Thread Outside Inside : Type) where
  | outside (thread : Thread) (input : Outside)
  | whole (thread : Thread) (input : Inside)

/-- The turn in which the act begins: the step itself, or the one that takes
the lock. -/
def Act.turn : Act Thread Outside Inside -> Turn Thread Outside Inside
  | .outside k input => .outside k input
  | .whole k input => .enter k input

/-- The thread is under the lock, so it takes no step outside until it has
released it. -/
def Interleaved.HeldBy (c : Interleaved Thread Shared Own) (k : Thread) : Prop :=
  exists rest, c.holder = some (k, rest)

instance (c : Interleaved Thread Shared Own) (k : Thread) : Decidable (c.HeldBy k) :=
  match held : c.holder with
  | none => .isFalse fun ⟨_, inside⟩ => by rw [held] at inside; cases inside
  | some (holder, rest) =>
      if same : holder = k then .isTrue ⟨rest, by rw [held, same]⟩
      else .isFalse fun ⟨_, inside⟩ => by rw [held] at inside; cases inside; exact same rfl

namespace Program

variable (program : Program Shared Own Outside Inside)

/-- One turn of the scheduler.  A turn that the thread cannot take changes
nothing, so any list of turns is a schedule. -/
def step (c : Interleaved Thread Shared Own) : Turn Thread Outside Inside -> Interleaved Thread Shared Own
  | .outside k input =>
      if c.HeldBy k then c
      else
        match program.outside (c.joint.own k) input with
        | none => c
        | some own => { c with joint := c.joint.setOwn k own }
  | .enter k input =>
      match c.holder, program.locked (c.joint.own k) input with
      | none, some routine => { c with holder := some (k, routine) }
      | _, _ => c
  | .proceed k =>
      match c.holder with
      | none => c
      | some (holder, rest) =>
          if holder = k then
            match rest with
            | .done => { c with holder := none }
            | .step act next =>
                { joint := c.joint.perform k act, holder := some (k, next (c.joint.shared, c.joint.own k)) }
          else c

/-- The abstract machine.  A whole section is executed at once, and an act
that the thread cannot take changes nothing. -/
def act (j : Joint Thread Shared Own) : Act Thread Outside Inside -> Joint Thread Shared Own
  | .outside k input =>
      match program.outside (j.own k) input with
      | none => j
      | some own => j.setOwn k own
  | .whole k input =>
      match program.locked (j.own k) input with
      | none => j
      | some routine => j.perform k routine.finish

end Program

namespace Interleaved

variable (program : Program Shared Own Outside Inside) (c : Interleaved Thread Shared Own)

/-- The holder of the lock is left to finish.  This is the state that the
abstract machine has reached, as it did all of the section when the lock was
taken. -/
def finish : Joint Thread Shared Own :=
  match c.holder with
  | none => c.joint
  | some (k, rest) => c.joint.perform k rest.finish

/-- The act that begins with a turn, if one does: a step inside a section
belongs to the act that began when the lock was taken. -/
def effect : Turn Thread Outside Inside -> Option (Act Thread Outside Inside)
  | .outside k input => if c.HeldBy k then none else some (.outside k input)
  | .enter k input => if c.holder.isNone then some (.whole k input) else none
  | .proceed _ => none

/-- The acts of the abstract machine, one for each step outside and one for
each section, where the lock is taken. -/
def acts (turns : List (Turn Thread Outside Inside)) : List (Act Thread Outside Inside) :=
  emitted program.step effect c turns

variable {c}

theorem finish_free (free : c.holder = none) : c.finish = c.joint := by
  rw [finish, free]

theorem finish_held {k : Thread} {rest : Routine (Shared × Own)} (held : c.holder = some (k, rest)) :
    c.finish = c.joint.perform k rest.finish := by
  rw [finish, held]

/-- A thread that is not under the lock finds its own as it is, whatever the
holder has still to do. -/
theorem finish_own {k : Thread} (apart : ¬ c.HeldBy k) : c.finish.own k = c.joint.own k := by
  cases held : c.holder with
  | none => rw [finish_free held]
  | some holder =>
      rcases holder with ⟨holder, rest⟩
      rw [finish_held held]
      apply Function.update_of_ne
      rintro rfl
      exact apart ⟨rest, held⟩

/-- A step outside the lock, before or behind what is still to be done: the
result is the same. -/
theorem finish_setOwn {k : Thread} (apart : ¬ c.HeldBy k) (own : Own) :
    ({ c with joint := c.joint.setOwn k own } : Interleaved Thread Shared Own).finish = c.finish.setOwn k own := by
  cases held : c.holder with
  | none => rw [finish_free held, finish_free rfl]
  | some holder =>
      rcases holder with ⟨holder, rest⟩
      rw [finish_held held, finish_held rfl]
      apply c.joint.perform_setOwn
      rintro rfl
      exact apart ⟨rest, held⟩

/-- Each turn is the act that begins with it, or none.  It is the step of the
induction over a schedule. -/
theorem finish_step (turn : Turn Thread Outside Inside) :
    (program.step c turn).finish = run program.act c.finish (c.effect turn).toList := by
  cases turn with
  | outside k input =>
      rw [Program.step, effect]
      by_cases inside : c.HeldBy k
      · rw [if_pos inside, if_pos inside]
        rfl
      · rw [if_neg inside, if_neg inside]
        change _ = program.act c.finish (.outside k input)
        rw [Program.act, finish_own inside]
        cases program.outside (c.joint.own k) input with
        | none => rfl
        | some own => exact finish_setOwn inside own
  | enter k input =>
      rw [Program.step, effect]
      cases held : c.holder with
      | some holder => rfl
      | none =>
          change _ = program.act c.finish (.whole k input)
          rw [Program.act, finish_free held]
          cases program.locked (c.joint.own k) input with
          | none => exact finish_free held
          | some routine => rfl
  | proceed k =>
      rw [Program.step]
      change _ = c.finish
      cases held : c.holder with
      | none => rfl
      | some holder =>
          rcases holder with ⟨holder, rest⟩
          dsimp only
          by_cases same : holder = k
          · subst same
            rw [if_pos rfl, finish_held held]
            cases rest with
            | done => exact (c.joint.perform_id holder).symm
            | step act next =>
                rw [finish_held rfl]
                exact c.joint.perform_comp holder act _
          · rw [if_neg same]

/-- Every interleaving is a run of the abstract machine, up to the section in
progress.  So a property of whole sections holds along every schedule. -/
theorem finish_run (turns : List (Turn Thread Outside Inside)) :
    (run program.step c turns).finish = run program.act c.finish (c.acts program turns) := by
  have follows : forall (c : Interleaved Thread Shared Own) j turn, c.finish = j ->
      (program.step c turn).finish = run program.act j (c.effect turn).toList := by
    rintro c _ turn rfl
    exact finish_step program turn
  exact related_run follows rfl turns

/-- The acts keep the order of the turns, so the order in which sections take
effect is that in which the lock was taken. -/
theorem acts_sublist (turns : List (Turn Thread Outside Inside)) :
    ((c.acts program turns).map Act.turn).Sublist turns := by
  apply emitted_sublist
  intro c turn action begins
  cases turn with
  | outside k input =>
      rw [effect] at begins
      split at begins
      · cases begins
      · cases begins
        rfl
  | enter k input =>
      rw [effect] at begins
      split at begins
      · cases begins
        rfl
      · cases begins
  | proceed k => cases begins

end Interleaved

end Foundation
end BugMuseum
