import Mathlib.Data.List.Basic

namespace BugMuseum
namespace Foundation

/-!
# Runs of a deterministic step function

A store is driven by a list of calls, and its laws speak about the states
between the calls.  This module fixes that vocabulary once: the state a run
ends in, a property of every state of a run, and a condition on every call of
a run in the state the call is made in.

The last section is the rule that the defect theorems of the project use.  It
characterizes exactly the runs along which a property survives: an invariant
must be kept by every call that meets the condition, and every call that does
not meet it must break the property at once.
-/

variable {State Action : Type}

/-- The state reached by executing the calls from left to right. -/
def run (step : State -> Action -> State) (start : State) (actions : List Action) : State :=
  actions.foldl step start

@[simp] theorem run_nil (step : State -> Action -> State) (start : State) :
    run step start [] = start :=
  rfl

@[simp] theorem run_cons (step : State -> Action -> State) (start : State)
    (action : Action) (rest : List Action) :
    run step start (action :: rest) = run step (step start action) rest :=
  rfl

/-- The property holds before the first call, after the last call, and between
any two calls.  For a safety property this is what is meant by every reachable
state. -/
def Throughout (step : State -> Action -> State) (property : State -> Prop) :
    State -> List Action -> Prop
  | state, [] => property state
  | state, action :: rest => property state ∧ Throughout step property (step state action) rest

/-- Every call meets the condition in the state it is made in.  The condition
may look at that state, but not at what the call makes of it. -/
def Guarded (step : State -> Action -> State) (condition : State -> Action -> Prop) :
    State -> List Action -> Prop
  | _, [] => True
  | state, action :: rest =>
      condition state action ∧ Guarded step condition (step state action) rest

instance throughoutDecidable (step : State -> Action -> State) (property : State -> Prop)
    [DecidablePred property] :
    (state : State) -> (actions : List Action) -> Decidable (Throughout step property state actions)
  | state, [] => inferInstanceAs (Decidable (property state))
  | state, action :: rest =>
      @instDecidableAnd _ _ inferInstance (throughoutDecidable step property (step state action) rest)

instance guardedDecidable (step : State -> Action -> State) (condition : State -> Action -> Prop)
    [forall state action, Decidable (condition state action)] :
    (state : State) -> (actions : List Action) -> Decidable (Guarded step condition state actions)
  | _, [] => isTrue trivial
  | state, action :: rest =>
      @instDecidableAnd _ _ inferInstance (guardedDecidable step condition (step state action) rest)

/-- The states of a run are the ends of its initial segments, so the recursion
says what is wanted. -/
theorem throughout_iff_forall_take (step : State -> Action -> State) (property : State -> Prop)
    (state : State) (actions : List Action) :
    Throughout step property state actions ↔
      forall count, property (run step state (actions.take count)) := by
  induction actions generalizing state with
  | nil => simp [Throughout]
  | cons action rest inductionHypothesis =>
      rw [Throughout, inductionHypothesis]
      constructor
      · rintro ⟨first, later⟩ count
        cases count with
        | zero => exact first
        | succ count => exact later count
      · intro every
        exact ⟨every 0, fun count => every (count + 1)⟩

theorem throughout_end {step : State -> Action -> State} {property : State -> Prop}
    {state : State} {actions : List Action} (every : Throughout step property state actions) :
    property (run step state actions) := by
  have last := (throughout_iff_forall_take step property state actions).mp every actions.length
  rwa [List.take_length] at last

theorem Throughout.mono {step : State -> Action -> State} {strong weak : State -> Prop}
    (implies : forall state, strong state -> weak state) {state : State} {actions : List Action}
    (every : Throughout step strong state actions) : Throughout step weak state actions := by
  rw [throughout_iff_forall_take] at every ⊢
  exact fun count => implies _ (every count)

/-- An invariant of the offered calls holds in every state of their runs.
Each safety theorem is then its step lemma and the start. -/
theorem throughout_of_invariant {step : State -> Action -> State} (offered : Action -> Prop)
    {invariant : State -> Prop}
    (keeps : forall state action, invariant state -> offered action ->
      invariant (step state action))
    {state : State} (holds : invariant state) {actions : List Action}
    (allOffered : forall action, action ∈ actions -> offered action) :
    Throughout step invariant state actions := by
  induction actions generalizing state with
  | nil => exact holds
  | cons action rest inductionHypothesis =>
      refine ⟨holds, inductionHypothesis ?_ ?_⟩
      · exact keeps state action holds (allOffered action List.mem_cons_self)
      · exact fun later member => allOffered later (List.mem_cons_of_mem action member)

/-- An invariant that the calls keep when they meet the condition holds in
every state of a guarded run. -/
theorem throughout_of_guarded {step : State -> Action -> State} (offered : Action -> Prop)
    {condition : State -> Action -> Prop} {invariant : State -> Prop}
    (keeps : forall state action, invariant state -> offered action -> condition state action ->
      invariant (step state action))
    {state : State} (holds : invariant state) {actions : List Action}
    (allOffered : forall action, action ∈ actions -> offered action)
    (guarded : Guarded step condition state actions) : Throughout step invariant state actions := by
  induction actions generalizing state with
  | nil => exact holds
  | cons action rest inductionHypothesis =>
      refine ⟨holds, inductionHypothesis ?_ ?_ guarded.2⟩
      · exact keeps state action holds (allOffered action List.mem_cons_self) guarded.1
      · exact fun later member => allOffered later (List.mem_cons_of_mem action member)

/-- What the condition implies at every call of a guarded run, where the
invariant may be used for the implication. -/
theorem guarded_of_guarded {step : State -> Action -> State} (offered : Action -> Prop)
    {condition implied : State -> Action -> Prop} {invariant : State -> Prop}
    (keeps : forall state action, invariant state -> offered action -> condition state action ->
      invariant (step state action))
    (implies : forall state action, invariant state -> offered action -> condition state action ->
      implied state action)
    {state : State} (holds : invariant state) {actions : List Action}
    (allOffered : forall action, action ∈ actions -> offered action)
    (guarded : Guarded step condition state actions) : Guarded step implied state actions := by
  induction actions generalizing state with
  | nil => exact trivial
  | cons action rest inductionHypothesis =>
      have offeredNow := allOffered action List.mem_cons_self
      refine ⟨implies state action holds offeredNow guarded.1, inductionHypothesis ?_ ?_ guarded.2⟩
      · exact keeps state action holds offeredNow guarded.1
      · exact fun later member => allOffered later (List.mem_cons_of_mem action member)

/-- Two conditions that agree wherever the invariant holds guard the same
runs.  So a condition can be stated in the words of the code and used in those
of the proof. -/
theorem guarded_iff_of_invariant {step : State -> Action -> State} (offered : Action -> Prop)
    {left right : State -> Action -> Prop} {invariant : State -> Prop}
    (keeps : forall state action, invariant state -> offered action -> invariant (step state action))
    (same : forall state action, invariant state -> offered action -> (left state action ↔ right state action))
    {state : State} (holds : invariant state) {actions : List Action}
    (allOffered : forall action, action ∈ actions -> offered action) :
    Guarded step left state actions ↔ Guarded step right state actions := by
  constructor
  · exact guarded_of_guarded offered (fun s a kept isOffered _ => keeps s a kept isOffered)
      (fun s a kept isOffered => (same s a kept isOffered).mp) holds allOffered
  · exact guarded_of_guarded offered (fun s a kept isOffered _ => keeps s a kept isOffered)
      (fun s a kept isOffered => (same s a kept isOffered).mpr) holds allOffered

theorem Guarded.mono {step : State -> Action -> State} {strong weak : State -> Action -> Prop}
    (implies : forall state action, strong state action -> weak state action) {state : State}
    {actions : List Action} (guarded : Guarded step strong state actions) : Guarded step weak state actions := by
  induction actions generalizing state with
  | nil => exact trivial
  | cons action rest inductionHypothesis =>
      exact ⟨implies state action guarded.1, inductionHypothesis guarded.2⟩

/-- Two conditions guard a run together when each of them does, because both
are asked in the same states. -/
theorem guarded_and {step : State -> Action -> State} {first second : State -> Action -> Prop}
    {state : State} {actions : List Action} :
    Guarded step (fun s a => first s a ∧ second s a) state actions ↔
      Guarded step first state actions ∧ Guarded step second state actions := by
  induction actions generalizing state with
  | nil => exact (and_iff_left trivial).symm
  | cons action rest inductionHypothesis =>
      rw [Guarded, Guarded, Guarded, inductionHypothesis, and_and_and_comm]

theorem guarded_append {step : State -> Action -> State} {condition : State -> Action -> Prop}
    {state : State} {before after : List Action} :
    Guarded step condition state (before ++ after) ↔
      Guarded step condition state before ∧ Guarded step condition (run step state before) after := by
  induction before generalizing state with
  | nil => exact (and_iff_right trivial).symm
  | cons action rest inductionHypothesis =>
      rw [List.cons_append, Guarded, inductionHypothesis, Guarded, run_cons, and_assoc]

theorem run_append (step : State -> Action -> State) (start : State) (before after : List Action) :
    run step start (before ++ after) = run step (run step start before) after :=
  List.foldl_append

/-! ## Exactly the runs that keep a property -/

/-- The condition separates the calls that keep the invariant from the calls
that lose the property it implies.  There is no third kind of call. -/
structure ExactGuard (step : State -> Action -> State) (offered : Action -> Prop)
    (invariant property : State -> Prop) (condition : State -> Action -> Prop) : Prop where
  safe : forall state, invariant state -> property state
  keeps : forall state action, invariant state -> offered action -> condition state action ->
    invariant (step state action)
  breaks : forall state action, invariant state -> offered action -> ¬ condition state action ->
    ¬ property (step state action)

/-- The condition is exact for the calls within a limit, because the first
call that misses it leaves a state without the property. -/
theorem throughout_iff_of_within {step : State -> Action -> State} {invariant property : State -> Prop}
    {within condition : State -> Action -> Prop}
    (safe : forall state, invariant state -> property state)
    (keeps : forall state action, invariant state -> within state action -> condition state action ->
      invariant (step state action))
    (breaks : forall state action, invariant state -> within state action -> ¬ condition state action ->
      ¬ property (step state action))
    {state : State} (holds : invariant state) {actions : List Action}
    (inside : Guarded step within state actions) :
    Throughout step property state actions ↔ Guarded step condition state actions := by
  constructor
  · intro every
    induction actions generalizing state with
    | nil => exact trivial
    | cons action rest inductionHypothesis =>
        have next : property (step state action) := by
          have first := (throughout_iff_forall_take step property _ rest).mp every.2 0
          simpa using first
        have met : condition state action := by
          by_contra missed
          exact breaks state action holds inside.1 missed next
        exact ⟨met, inductionHypothesis (keeps state action holds inside.1 met) inside.2 every.2⟩
  · intro guarded
    induction actions generalizing state with
    | nil => exact safe state holds
    | cons action rest inductionHypothesis =>
        have kept := keeps state action holds inside.1 guarded.1
        exact ⟨safe state holds, inductionHypothesis kept inside.2 guarded.2⟩

/-- A limit on the calls alone, seen as a condition that does not look at the
state.  A list of limited calls is then a guarded run. -/
theorem guarded_of_forall {step : State -> Action -> State} (offered : Action -> Prop) {state : State}
    {actions : List Action} (allOffered : forall action, action ∈ actions -> offered action) :
    Guarded step (fun _ => offered) state actions := by
  induction actions generalizing state with
  | nil => exact trivial
  | cons action rest inductionHypothesis =>
      refine ⟨allOffered action List.mem_cons_self, inductionHypothesis ?_⟩
      exact fun later member => allOffered later (List.mem_cons_of_mem action member)

/-- The condition of an exact guard characterizes the runs of the offered
calls: the property survives a run exactly when all its calls meet the
condition. -/
theorem ExactGuard.throughout_iff {step : State -> Action -> State} {offered : Action -> Prop}
    {invariant property : State -> Prop} {condition : State -> Action -> Prop}
    (guard : ExactGuard step offered invariant property condition)
    {state : State} (holds : invariant state) {actions : List Action}
    (allOffered : forall action, action ∈ actions -> offered action) :
    Throughout step property state actions ↔ Guarded step condition state actions :=
  throughout_iff_of_within guard.safe guard.keeps guard.breaks holds (guarded_of_forall offered allOffered)

/-! ## Runs with replies -/

section Replies

variable {Reply Spec : Type}

/-- The replies to the calls of a run, in the order of the calls. -/
def replies (step : State -> Action -> State × Reply) : State -> List Action -> List Reply
  | _, [] => []
  | state, action :: rest => (step state action).2 :: replies step (step state action).1 rest

/-- A simulation by a specification: the same replies along every run, and the
ends of the runs are related.  The relation has to be kept by each call. -/
theorem replies_of_simulation {step : State -> Action -> State × Reply}
    {spec : Spec -> Action -> Spec × Reply} (offered : Action -> Prop) {related : State -> Spec -> Prop}
    (simulates : forall state model action, related state model -> offered action ->
      (step state action).2 = (spec model action).2 ∧
        related (step state action).1 (spec model action).1)
    {state : State} {model : Spec} (start : related state model) {actions : List Action}
    (allOffered : forall action, action ∈ actions -> offered action) :
    replies step state actions = replies spec model actions ∧
      related (run (fun s a => (step s a).1) state actions) (run (fun s a => (spec s a).1) model actions) := by
  induction actions generalizing state model with
  | nil => exact ⟨rfl, start⟩
  | cons action rest inductionHypothesis =>
      have now := simulates state model action start (allOffered action List.mem_cons_self)
      have later := inductionHypothesis now.2 fun other member =>
        allOffered other (List.mem_cons_of_mem action member)
      refine ⟨?_, later.2⟩
      rw [replies, replies, now.1, later.1]

/-- A simulation of the calls that meet a condition on the specification.  A
client can check the condition without looking into the memory. -/
theorem replies_of_guarded {step : State -> Action -> State × Reply}
    {spec : Spec -> Action -> Spec × Reply} {condition : Spec -> Action -> Prop}
    {related : State -> Spec -> Prop}
    (simulates : forall state model action, related state model -> condition model action ->
      (step state action).2 = (spec model action).2 ∧
        related (step state action).1 (spec model action).1)
    {state : State} {model : Spec} (start : related state model) {actions : List Action}
    (guarded : Guarded (fun m a => (spec m a).1) condition model actions) :
    replies step state actions = replies spec model actions ∧
      related (run (fun s a => (step s a).1) state actions) (run (fun s a => (spec s a).1) model actions) := by
  induction actions generalizing state model with
  | nil => exact ⟨rfl, start⟩
  | cons action rest inductionHypothesis =>
      have now := simulates state model action start guarded.1
      have later := inductionHypothesis now.2 guarded.2
      refine ⟨?_, later.2⟩
      rw [replies, replies, now.1, later.1]

/-- The same where the calls have no replies of their own, and only the states
are compared. -/
theorem related_of_guarded {step : State -> Action -> State} {spec : Spec -> Action -> Spec}
    {condition : Spec -> Action -> Prop} {related : State -> Spec -> Prop}
    (simulates : forall state model action, related state model -> condition model action ->
      related (step state action) (spec model action))
    {state : State} {model : Spec} (start : related state model) {actions : List Action}
    (guarded : Guarded spec condition model actions) : related (run step state actions) (run spec model actions) := by
  induction actions generalizing state model with
  | nil => exact start
  | cons action rest inductionHypothesis =>
      exact inductionHypothesis (simulates state model action start guarded.1) guarded.2

/-- Where each reply is right exactly under a condition on the model, all
replies of a run are right exactly when the condition holds at every call. -/
theorem replies_eq_iff_guarded {step : State -> Action -> State × Reply}
    {spec : Spec -> Action -> Spec × Reply} (offered : Action -> Prop) {related : State -> Spec -> Prop}
    {condition : Spec -> Action -> Prop}
    (compares : forall state model action, related state model -> offered action ->
      ((step state action).2 = (spec model action).2 ↔ condition model action) ∧
        related (step state action).1 (spec model action).1)
    {state : State} {model : Spec} (start : related state model) {actions : List Action}
    (allOffered : forall action, action ∈ actions -> offered action) :
    replies step state actions = replies spec model actions ↔
      Guarded (fun m a => (spec m a).1) condition model actions := by
  induction actions generalizing state model with
  | nil => exact iff_of_true rfl trivial
  | cons action rest inductionHypothesis =>
      have now := compares state model action start (allOffered action List.mem_cons_self)
      have later := inductionHypothesis now.2 fun other member =>
        allOffered other (List.mem_cons_of_mem action member)
      rw [replies, replies, List.cons_eq_cons, Guarded, now.1, later]

end Replies

section Emitted

variable {Event Other : Type}

/-- The calls of the other machine, which at most one call of a run stands
for. -/
def emitted (step : State -> Action -> State) (emit : State -> Action -> Option Event) :
    State -> List Action -> List Event
  | _, [] => []
  | state, action :: rest => (emit state action).toList ++ emitted step emit (step state action) rest

/-- The other machine follows every run, when each call is followed by what it
emits.  The induction is on the calls, and the relation is the invariant. -/
theorem related_run {step : State -> Action -> State} {emit : State -> Action -> Option Event}
    {follow : Other -> Event -> Other} {related : State -> Other -> Prop}
    (follows : forall state other action, related state other ->
      related (step state action) (run follow other (emit state action).toList))
    {state : State} {other : Other} (start : related state other) (actions : List Action) :
    related (run step state actions) (run follow other (emitted step emit state actions)) := by
  induction actions generalizing state other with
  | nil => exact start
  | cons action rest inductionHypothesis =>
      rw [run_cons, emitted, run_append]
      exact inductionHypothesis (follows state other action start)

/-- What is emitted keeps the order of the calls that it stands for. -/
theorem emitted_sublist {step : State -> Action -> State} {emit : State -> Action -> Option Event}
    {origin : Event -> Action}
    (stands : forall state action event, emit state action = some event -> origin event = action)
    (state : State) (actions : List Action) :
    ((emitted step emit state actions).map origin).Sublist actions := by
  induction actions generalizing state with
  | nil => exact .slnil
  | cons action rest inductionHypothesis =>
      rw [emitted, List.map_append]
      cases emits : emit state action with
      | none => exact (inductionHypothesis _).cons _
      | some event =>
          rw [← stands state action event emits]
          exact (inductionHypothesis _).cons_cons _

end Emitted

end Foundation
end BugMuseum
