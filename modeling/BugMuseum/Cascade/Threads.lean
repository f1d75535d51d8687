import BugMuseum.Cascade.ServiceMemory
import BugMuseum.Foundation.ServerThreads

namespace BugMuseum
namespace Cascade

open Foundation

/-!
# The threads of the configuration service

The pipe thread and the TCP loop of `cfgsvcd` read their requests at the same time, refuse
what their transport does not offer, and run the handlers under `g_lock`.
-/

/-- `serve`, in any of the threads.  What a transport does not offer is
refused before the lock is taken. -/
def cfgsvcd : OneShot CfgProfile Request ServiceEnv where
  receive := fun isTcp env s =>
    match receiveRequest env.payload s with
    | .error .big => .error (ascii "ERR too big\n")
    | .error _ => .error []
    | .ok (r, _) =>
        if r.op > opPush then .error (ascii "ERR op\n")
        else if isTcp ∧ r.op = opGet then .error (ascii "ERR unsupported\n")
        else .ok r
  handle := fun isTcp r env store =>
    let served := if r.op = opGet then handleGet env store r.payload else handlePush env isTcp store r.payload
    (served.store, served.reply)

/-- A connection, with what the source leaves open during its reads and in its
handler. -/
def visitOf (call : Exchange ServiceEnv) : Visit where
  env := { call.handling with payload := call.reading.payload }
  isTcp := call.isTcp
  s := call.s

theorem cfgsvcd_serve (store : CfgProfile) (call : Exchange ServiceEnv) :
    cfgsvcd.serve store call = visit store (visitOf call) := by
  rw [OneShot.serve, visit, serve]
  simp only [cfgsvcd, visitOf]
  cases receiveRequest call.reading.payload call.s with
  | error refusal => cases refusal <;> rfl
  | ok taken =>
      rcases taken with ⟨r, rest⟩
      dsimp only
      rw [perform]
      by_cases unknown : r.op > opPush
      · rw [if_pos unknown, if_pos unknown]
        rfl
      rw [if_neg unknown, if_neg unknown]
      by_cases unsupported : call.isTcp ∧ r.op = opGet
      · rw [if_pos unsupported, if_pos unsupported]
        rfl
      · rw [if_neg unsupported, if_neg unsupported]
        rfl

theorem follow_store (calls : List (Nat × Exchange ServiceEnv)) (store : CfgProfile) (told : Nat -> Bytes) :
    (run cfgsvcd.follow (store, told) calls).1 = storeAfter store (calls.map fun call => visitOf call.2) := by
  induction calls generalizing store told with
  | nil => rfl
  | cons call later inductionHypothesis =>
      rw [run_cons, OneShot.follow, inductionHypothesis, List.map_cons, storeAfter, storeAfter, run_cons,
        cfgsvcd_serve]

/-- Whatever the threads do and however their steps interleave: the store and
the replies are those of whole connections, served one after the other in the
order in which they took the lock. -/
theorem cfgsvcd_threads (cut : cfgsvcd.service.Cut) (turns : List (Turn Nat (Doing ServiceEnv) ServiceEnv)) :
    let acts := (Service.Cut.start cfgNew).acts cut.program turns
    let calls := emitted cfgsvcd.service.act cfgsvcd.exchangeOf (Service.idle Nat (ServiceEnv × Request) cfgNew) acts
    let finished := (run cut.program.step (Service.Cut.start cfgNew) turns).finish
    (acts.map Act.turn).Sublist turns ∧
      cfgsvcd.Decided finished (run cfgsvcd.follow (cfgNew, fun _ => []) calls) ∧
      finished.shared = storeAfter cfgNew (calls.map fun call => visitOf call.2) := by
  have decided := cfgsvcd.serializes cut cfgNew turns
  refine ⟨Interleaved.acts_sublist cut.program turns, decided, ?_⟩
  rw [← decided.shared]
  exact follow_store _ cfgNew _

end Cascade
end BugMuseum
