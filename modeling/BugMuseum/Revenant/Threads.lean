import BugMuseum.Foundation.ServerThreads
import BugMuseum.Revenant.Replay

namespace BugMuseum
namespace Revenant

open Foundation

/-!
# The threads of the session server

`pipe_thread` and `tcp_loop` run at the same time, and each serves one connection after
the other.  The requests are read outside `g_lock`, an op byte that is not in the table is
answered outside it too, and `g_ops[req.op]` is called under it.  Here each of these is a
step of its own, and a handler takes as many steps as it likes.  What comes of it is what
comes of the server that the rest of this development speaks about, whose requests are
executed at once.
-/

/-- `serve`, in any of the threads: the reads and the refusals outside the
lock, and the call of the table under it. -/
def sessiond (plugins : Nat -> Option Handler) : Service Store Conn Request Answers where
  accept := fun isTcp _ => { isTcp, cur := none }
  receive := fun _ answers s =>
    match requestFormat.receive answers.argument s with
    | .error stop => .closes (if stop = .big then ascii "ERR big\n" else [])
    | .ok (r, rest) => if r.op > opFlush then .refuses (ascii "ERR op\n") rest else .asks r rest
  handle := fun r answers store c => dispatch plugins store c r answers.grant answers.outcome
  again := true

/-- The threads, and the store. -/
abbrev Serving := Joint Nat Store (Attendant Conn Request)

/-- The event of the server that an act stands for.  A request that is refused
outside the lock is none. -/
def eventOf (j : Serving) : Act Nat (Doing Answers) Answers -> Option Event
  | .outside k (.accepts isTcp _) =>
      match (j.own k).stage with
      | .idle => some (.connect k isTcp)
      | _ => none
  | .outside k (.receives answers) =>
      match (j.own k).stage with
      | .reading _ s =>
          match requestFormat.receive answers.argument s with
          | .error _ => some (.disconnect k)
          | .ok _ => none
      | _ => none
  | .whole k answers =>
      match (j.own k).stage with
      | .asking _ r _ => some (.request k r answers.grant answers.outcome)
      | _ => none

/-- The server whose requests are executed at once has the same store and
connections. -/
structure Mirrors (plugins : Nat -> Option Handler) (j : Serving) (d : Daemon) : Prop where
  store : d.store = j.shared
  plugins : d.plugins = plugins
  conns : forall k, d.conns k = (j.own k).stage.conn
  known : forall k c r s, (j.own k).stage = .asking c r s ->
    ¬ r.op > opFlush ∧ ¬ r.arg.bytes.length > sessMaxArg

namespace Mirrors

variable {plugins : Nat -> Option Handler} {j : Serving} {d : Daemon}

theorem start (found : Handler -> Bool) :
    Mirrors (loadPlugins found) (Service.idle Nat Request sessNew) (sessiondNew found) where
  store := rfl
  plugins := rfl
  conns := fun _ => rfl
  known := nofun

/-- One thread goes on, and the server with it. -/
theorem update (mirrors : Mirrors plugins j d) (k : Nat) (store : Store) (t : Attendant Conn Request)
    (known : forall c r s, t.stage = .asking c r s -> ¬ r.op > opFlush ∧ ¬ r.arg.bytes.length > sessMaxArg) :
    Mirrors plugins { shared := store, own := Function.update j.own k t }
      { d with store := store, conns := Function.update d.conns k t.stage.conn } where
  store := rfl
  plugins := mirrors.plugins
  conns := by
    intro other
    dsimp only
    by_cases same : other = k
    · subst same
      rw [Function.update_self, Function.update_self]
    · rw [Function.update_of_ne same, Function.update_of_ne same]
      exact mirrors.conns other
  known := by
    intro other c r s asking
    dsimp only at asking
    by_cases same : other = k
    · subst same
      rw [Function.update_self] at asking
      exact known c r s asking
    · rw [Function.update_of_ne same] at asking
      exact mirrors.known other c r s asking

/-- It goes on without the store, as all steps outside the lock do. -/
theorem setOwn (mirrors : Mirrors plugins j d) (k : Nat) (t : Attendant Conn Request)
    (known : forall c r s, t.stage = .asking c r s -> ¬ r.op > opFlush ∧ ¬ r.arg.bytes.length > sessMaxArg) :
    Mirrors plugins (j.setOwn k t) { d with conns := Function.update d.conns k t.stage.conn } := by
  rcases d with ⟨store, loaded, conns⟩
  obtain rfl : store = j.shared := mirrors.store
  exact mirrors.update k j.shared t known

/-- It goes on with the connection that it had. -/
theorem stay (mirrors : Mirrors plugins j d) (k : Nat) (t : Attendant Conn Request)
    (conn : t.stage.conn = (j.own k).stage.conn)
    (known : forall c r s, t.stage = .asking c r s -> ¬ r.op > opFlush ∧ ¬ r.arg.bytes.length > sessMaxArg) :
    Mirrors plugins (j.setOwn k t) d := by
  have changed := mirrors.setOwn k t known
  rwa [conn, ← mirrors.conns k, Function.update_eq_self] at changed

/-- Each act is the event that it stands for, or none.  It is the step of the
induction over the acts. -/
theorem act (mirrors : Mirrors plugins j d) (action : Act Nat (Doing Answers) Answers) :
    Mirrors plugins ((sessiond plugins).act j action) (run daemonStep d (eventOf j action).toList) := by
  have connected := mirrors.conns
  cases action with
  | outside k doing =>
      specialize connected k
      rw [Service.act]
      cases doing with
      | accepts isTcp s =>
          rw [Service.alone, eventOf]
          cases at_ : (j.own k).stage with
          | idle =>
              rw [at_] at connected
              change Mirrors plugins (j.setOwn k _) (daemonStep d (.connect k isTcp))
              rw [daemonStep, connected]
              exact mirrors.setOwn k _ (by rintro _ _ _ ⟨⟩)
          | reading c s => exact mirrors
          | asking c r s => exact mirrors
      | receives answers =>
          rw [Service.alone, eventOf]
          cases at_ : (j.own k).stage with
          | idle => exact mirrors
          | asking c r s => exact mirrors
          | reading c s =>
              simp only [sessiond]
              rcases (requestFormat.receive_agrees answers.argument s).outcome with
                ⟨stop, received, _⟩ | ⟨⟨r, rest⟩, _, received, read, same, _⟩
              · rw [received]
                exact mirrors.setOwn k _ (by rintro _ _ _ ⟨⟩)
              · rw [received]
                dsimp only
                have fits : ¬ r.arg.bytes.length > sessMaxArg := by
                  rw [show r = _ from same]
                  exact Nat.not_lt.mpr (RecordFormat.readPacked_eq_ok.mp read).2.1
                by_cases refused : r.op > opFlush
                · rw [if_pos refused]
                  exact mirrors.stay k _ (congrArg Stage.conn at_).symm (by rintro _ _ _ ⟨⟩)
                · rw [if_neg refused]
                  refine mirrors.stay k _ (congrArg Stage.conn at_).symm ?_
                  rintro _ _ _ ⟨⟩
                  exact ⟨refused, fits⟩
  | whole k answers =>
      specialize connected k
      rw [Service.act, Service.answer, eventOf]
      cases at_ : (j.own k).stage with
      | idle =>
          rw [Function.update_eq_self]
          exact mirrors
      | reading c s =>
          rw [Function.update_eq_self]
          exact mirrors
      | asking c r s =>
          rcases mirrors.known k c r s at_ with ⟨known, fits⟩
          rw [at_] at connected
          change Mirrors plugins _ (daemonStep d (.request k r answers.grant answers.outcome))
          rw [daemonStep, connected]
          dsimp only [Stage.conn, sessiond]
          rw [serveRequest, if_neg fits, if_neg known, mirrors.plugins, mirrors.store]
          generalize dispatch plugins j.shared c r answers.grant answers.outcome = served
          have updated := mirrors.update k served.1
            { stage := .reading served.2.1 s, sent := (j.own k).sent ++ served.2.2 } (by rintro _ _ _ ⟨⟩)
          rwa [mirrors.plugins] at updated

end Mirrors

/-- Whatever the threads do and however their steps interleave: once the
section in progress is finished, the store, the connections and what was sent
are those of the requests handled at once, in the order in which they took the
lock. -/
theorem sessiond_threads (found : Handler -> Bool) (cut : (sessiond (loadPlugins found)).Cut)
    (turns : List (Turn Nat (Doing Answers) Answers)) :
    let service := sessiond (loadPlugins found)
    let start := Service.idle Nat Request sessNew
    let acts := (Service.Cut.start sessNew).acts cut.program turns
    let finished := (run cut.program.step (Service.Cut.start sessNew) turns).finish
    (acts.map Act.turn).Sublist turns ∧ finished = run service.act start acts ∧
      Mirrors (loadPlugins found) finished
        (run daemonStep (sessiondNew found) (emitted service.act eventOf start acts)) ∧
      Sound finished.shared := by
  have follows : forall j d action, Mirrors (loadPlugins found) j d ->
      Mirrors (loadPlugins found) ((sessiond (loadPlugins found)).act j action)
        (run daemonStep d (eventOf j action).toList) := fun _ _ action mirrors => mirrors.act action
  have mirrors := related_run follows (Mirrors.start found) ((Service.Cut.start sessNew).acts cut.program turns)
  have serial := cut.serializes sessNew turns
  refine ⟨Interleaved.acts_sublist cut.program turns, serial, ?_, ?_⟩
  · rw [serial]
    exact mirrors
  · rw [serial, ← mirrors.store]
    exact sound_run found _

end Revenant
end BugMuseum
