import BugMuseum.Encore.Spoold
import BugMuseum.Encore.TableRuns
import BugMuseum.Foundation.ServerThreads

namespace BugMuseum
namespace Encore

open Foundation

/-!
# The threads of the spooler server

The pipe thread and the TCP loop of `spoold` share the table under `g_lock`.  A handler
makes one call of `spoolcore`, or none where the transport does not offer the operation.
So the calls of the store form one run, in the order in which the requests took the lock,
and the laws of every run of the store are laws of the server.
-/

/-- `serve`, in any of the threads; the connection is its transport. -/
def spoold (filters : Nat -> Option Filter) : Service Store Bool Request Answers where
  accept := fun isTcp _ => isTcp
  receive := fun _ answers s =>
    match requestFormat.receive answers.argument s with
    | .error stop => .closes (if stop = .big then ascii "ERR big\n" else [])
    | .ok (r, rest) => if r.op > opFlush then .refuses (ascii "ERR op\n") rest else .asks r rest
  handle := fun r answers s isTcp =>
    let served := dispatch filters s isTcp r answers.grant answers.outcome
    (served.1, isTcp, served.2)
  again := true

/-- The call of `spoolcore` that a request makes, if its transport offers
it. -/
def Request.call (r : Request) (filters : Nat -> Option Filter) (isTcp : Bool) (answers : Answers) : Option Op :=
  if r.op = opSubmit then
    some (.submit (r.fmt &&& filterIdMask).toNat (filterFor filters (r.fmt &&& filterIdMask)) r.arg answers.grant)
  else if r.op = opRender then some (.render r.id (List.replicate 256 0))
  else if r.op = opAppend then some (.append r.id r.arg answers.outcome)
  else if r.op = opCancel then some (.cancel r.id)
  else if r.op = opStatus then
    some (.status (decide (r.fmt &&& flagVerbose ≠ 0) && !isTcp) (List.replicate 256 0))
  else if r.op = opRecycle then if isTcp then none else some (.recycle r.id)
  else if r.op = opDup then if isTcp then some (.dup r.id answers.grant) else none
  else if isTcp then some .flush else none

/-- The store behind a request is the store behind the call that it makes, or
the store as it was. -/
theorem dispatch_store (filters : Nat -> Option Filter) (s : Store) (isTcp : Bool) (r : Request)
    (answers : Answers) :
    (dispatch filters s isTcp r answers.grant answers.outcome).1 =
      run step s (r.call filters isTcp answers).toList := by
  unfold dispatch Request.call
  by_cases submit : r.op = opSubmit
  · simp only [if_pos submit, hSubmit]
    split <;> rfl
  by_cases render : r.op = opRender
  · simp only [if_neg submit, if_pos render, hRender]
    split <;> rfl
  by_cases append : r.op = opAppend
  · simp only [if_neg submit, if_neg render, if_pos append, hAppend]
    split <;> rfl
  by_cases cancel : r.op = opCancel
  · simp only [if_neg submit, if_neg render, if_neg append, if_pos cancel]
    rfl
  by_cases status : r.op = opStatus
  · simp only [if_neg submit, if_neg render, if_neg append, if_neg cancel, if_pos status]
    rfl
  simp only [if_neg submit, if_neg render, if_neg append, if_neg cancel, if_neg status]
  by_cases recycle : r.op = opRecycle
  · simp only [if_pos recycle, hRecycle]
    cases isTcp <;> rfl
  by_cases dup : r.op = opDup
  · simp only [if_neg recycle, if_pos dup, hDup]
    cases isTcp with
    | true =>
        simp only [if_true]
        split <;> rfl
    | false => rfl
  · simp only [if_neg recycle, if_neg dup, hFlush]
    cases isTcp <;> rfl

/-- The threads, and the store. -/
abbrev Serving := Joint Nat Store (Attendant Bool Request)

/-- The call that an act stands for.  A step outside the lock stands for
none. -/
def callOf (filters : Nat -> Option Filter) (j : Serving) : Act Nat (Doing Answers) Answers -> Option Op
  | .outside _ _ => none
  | .whole k answers =>
      match (j.own k).stage with
      | .asking isTcp r _ => r.call filters isTcp answers
      | _ => none

theorem spoold_act {filters : Nat -> Option Filter} (j : Serving) (action : Act Nat (Doing Answers) Answers) :
    ((spoold filters).act j action).shared = run step j.shared (callOf filters j action).toList := by
  cases action with
  | outside k doing =>
      rw [Service.act]
      split <;> rfl
  | whole k answers =>
      rw [Service.act, Service.answer, callOf]
      cases (j.own k).stage with
      | idle => rfl
      | reading isTcp s => rfl
      | asking isTcp r s => exact dispatch_store filters j.shared isTcp r answers

/-- Whatever the threads do and however their steps interleave: once the
section in progress is finished, the store and what was sent are those of the
requests handled at once, in the order in which they took the lock.  So the
store comes from a run of its calls, and the table, the counter and the queue
agree. -/
theorem spoold_threads (found : Filter -> Bool) (cut : (spoold (loadFilters found)).Cut)
    (turns : List (Turn Nat (Doing Answers) Answers)) :
    let service := spoold (loadFilters found)
    let start := Service.idle Nat Request spoolNew
    let acts := (Service.Cut.start spoolNew).acts cut.program turns
    let finished := (run cut.program.step (Service.Cut.start spoolNew) turns).finish
    (acts.map Act.turn).Sublist turns ∧ finished = run service.act start acts ∧
      finished.shared = run step spoolNew (emitted service.act (callOf (loadFilters found)) start acts) ∧
      TableAgrees finished.shared := by
  have follows : forall (j : Serving) s action, j.shared = s ->
      ((spoold (loadFilters found)).act j action).shared =
        run step s (callOf (loadFilters found) j action).toList := by
    rintro j _ action rfl
    exact spoold_act j action
  have same : (Service.idle Nat Request spoolNew : Serving).shared = spoolNew := rfl
  have calls := related_run follows same ((Service.Cut.start spoolNew).acts cut.program turns)
  have serial := cut.serializes spoolNew turns
  refine ⟨Interleaved.acts_sublist cut.program turns, serial, ?_, ?_⟩
  · rw [serial]
    exact calls
  · rw [serial, calls]
    exact throughout_end (tableAgrees_throughout _)

end Encore
end BugMuseum
