import BugMuseum.Foundation.Framing
import BugMuseum.Foundation.LockedThreads

namespace BugMuseum
namespace Foundation

/-!
# The threads of a server

Each thread of a server accepts one connection after the other.  On a connection it reads
a request outside the lock and handles it under the lock.  The loop may go on behind the
handler, or the connection ends there.

A handler is described as a whole, and a cut of it is any routine that comes to the same
when nothing comes between its steps.  Whatever the cut, the threads of the server do what
its handlers do as a whole, in the order in which the requests take the lock.
-/

/-- What comes of the reads at the head of the loop: the connection ends, the
request is refused without the lock, or it is handled under the lock. -/
inductive Received (R : Type) where
  | closes (reply : Bytes)                   -- the connection ends, after these bytes
  | refuses (reply : Bytes) (rest : Stream)  -- the request is answered without the lock
  | asks (r : R) (rest : Stream)

structure Service (Shared Conn R Answers : Type) where
  accept : Bool -> Stream -> Conn                               -- over TCP, or a pipe
  receive : Conn -> Answers -> Stream -> Received R
  handle : R -> Answers -> Shared -> Conn -> Shared × Conn × Bytes
  again : Bool                                                  -- the loop goes on behind a handler

variable {Thread Shared Conn R Answers : Type}

inductive Stage (Conn R : Type) where
  | idle
  | reading (c : Conn) (s : Stream)
  | asking (c : Conn) (r : R) (s : Stream)     -- in front of the lock, or under it

/-- The connection that is served, if the thread has accepted one. -/
def Stage.conn : Stage Conn R -> Option Conn
  | .idle => none
  | .reading c _ => some c
  | .asking c _ _ => some c

/-- A thread, and what it has sent on its connection.  A thread that accepts a
new connection starts with nothing sent. -/
structure Attendant (Conn R : Type) where
  stage : Stage Conn R
  sent : Bytes

/-- What the system hands a thread outside the lock: a connection, or the
outcomes of the allocations during its reads. -/
inductive Doing (Answers : Type) where
  | accepts (isTcp : Bool) (s : Stream)
  | receives (answers : Answers)

/-- A handler works on the shared state, its connection, and what was sent. -/
abbrev Work (Shared Conn : Type) := Shared × Conn × Bytes

namespace Service

variable (service : Service Shared Conn R Answers)

/-- A step of a thread outside the lock.  It accepts a connection when it has
none, and reads a request when it is at the head of the loop. -/
def alone (t : Attendant Conn R) : Doing Answers -> Option (Attendant Conn R)
  | .accepts isTcp s =>
      match t.stage with
      | .idle => some { stage := .reading (service.accept isTcp s) s, sent := [] }
      | _ => none
  | .receives answers =>
      match t.stage with
      | .reading c s =>
          match service.receive c answers s with
          | .closes reply => some { stage := .idle, sent := t.sent ++ reply }
          | .refuses reply rest => some { stage := .reading c rest, sent := t.sent ++ reply }
          | .asks r rest => some { stage := .asking c r rest, sent := t.sent }
      | _ => none

/-- Behind the handler the thread goes back to the head of the loop, or the
connection ends, as the server has it. -/
def onward (c : Conn) (s : Stream) : Stage Conn R :=
  if service.again then .reading c s else .idle

/-- The handler of the request that the thread has read, as a whole.  A thread
without a request does nothing. -/
def answer (answers : Answers) (v : Shared × Attendant Conn R) : Shared × Attendant Conn R :=
  match v.2.stage with
  | .asking c r s =>
      let handled := service.handle r answers v.1 c
      (handled.1, { stage := service.onward handled.2.1 s, sent := v.2.sent ++ handled.2.2 })
  | _ => v

/-- The server with its handlers as a whole, as the abstract machine of the
threads. -/
def act [DecidableEq Thread] (j : Joint Thread Shared (Attendant Conn R)) :
    Act Thread (Doing Answers) Answers -> Joint Thread Shared (Attendant Conn R)
  | .outside k doing =>
      match service.alone (j.own k) doing with
      | none => j
      | some t => j.setOwn k t
  | .whole k answers =>
      let answered := service.answer answers (j.shared, j.own k)
      { shared := answered.1, own := Function.update j.own k answered.2 }

/-- The steps of the handlers.  Any routines will do that come to the handlers
when nothing comes between their steps. -/
structure Cut where
  steps : R -> Answers -> Routine (Work Shared Conn)
  whole : forall r answers shared c sent, (steps r answers).finish (shared, c, sent) =
    ((service.handle r answers shared c).1, (service.handle r answers shared c).2.1,
      sent ++ (service.handle r answers shared c).2.2)

/-- No thread has accepted a connection, and nothing was sent.  The shared
state is given. -/
def idle (Thread R : Type) (shared : Shared) : Joint Thread Shared (Attendant Conn R) where
  shared := shared
  own := fun _ => { stage := .idle, sent := [] }

end Service

/-- A reply that is sent byte by byte, with a step for each. -/
def sends : Bytes -> Routine (Work Shared Conn)
  | [] => .done
  | byte :: rest => .step (fun v => (v.1, v.2.1, v.2.2 ++ [byte])) fun _ => sends rest

theorem sends_finish (reply : Bytes) (v : Work Shared Conn) :
    (sends reply).finish v = (v.1, v.2.1, v.2.2 ++ reply) := by
  induction reply generalizing v with
  | nil => simp [sends, Routine.finish]
  | cons byte rest inductionHypothesis => simp [sends, Routine.finish, inductionHypothesis]

/-- The work first, and then the bytes of the reply, each in a step of its
own.  It shows that a cut may be fine. -/
def Service.Cut.bytewise (service : Service Shared Conn R Answers) : service.Cut where
  steps := fun r answers =>
    .step (fun v => ((service.handle r answers v.1 v.2.1).1, (service.handle r answers v.1 v.2.1).2.1, v.2.2))
      fun v => sends (service.handle r answers v.1 v.2.1).2.2
  whole := fun _ _ _ _ _ => sends_finish ..

/-- A step of a handler in its thread, on the connection of that thread. -/
def stepOf (act : Work Shared Conn -> Work Shared Conn) (v : Shared × Attendant Conn R) :
    Shared × Attendant Conn R :=
  match v.2.stage with
  | .asking c r s =>
      let done := act (v.1, c, v.2.sent)
      (done.1, { stage := .asking done.2.1 r s, sent := done.2.2 })
  | _ => v

namespace Service
namespace Cut

variable {service : Service Shared Conn R Answers} (cut : service.Cut)

/-- The handler has returned: back to the head of the loop, or out of it. -/
def leave (service : Service Shared Conn R Answers) (v : Shared × Attendant Conn R) :
    Shared × Attendant Conn R :=
  match v.2.stage with
  | .asking c _ s => (v.1, { v.2 with stage := service.onward c s })
  | _ => v

/-- A handler in its thread, and the return from it as a last step. -/
def inThread (service : Service Shared Conn R Answers) :
    Routine (Work Shared Conn) -> Routine (Shared × Attendant Conn R)
  | .done => .step (leave service) fun _ => .done
  | .step act next =>
      .step (stepOf act) fun v =>
        match v.2.stage with
        | .asking c _ _ => inThread service (next (v.1, c, v.2.sent))
        | _ => .done

theorem inThread_finish (service : Service Shared Conn R Answers) (routine : Routine (Work Shared Conn))
    (v : Work Shared Conn) (r : R) (s : Stream) :
    (inThread service routine).finish (v.1, { stage := .asking v.2.1 r s, sent := v.2.2 }) =
      ((routine.finish v).1,
        { stage := service.onward (routine.finish v).2.1 s, sent := (routine.finish v).2.2 }) := by
  induction routine generalizing v with
  | done => rfl
  | step act next inductionHypothesis =>
      simp only [inThread, Routine.finish, stepOf]
      exact inductionHypothesis v (act v)

/-- What the threads run: steps outside the lock, and in front of the lock the
steps of the handler. -/
def program : Program Shared (Attendant Conn R) (Doing Answers) Answers where
  outside := service.alone
  locked := fun t answers =>
    match t.stage with
    | .asking _ r _ => some (inThread service (cut.steps r answers))
    | _ => none

variable [DecidableEq Thread]

/-- The steps of a section come to the handler as a whole, so the abstract
machine of the threads is the server with its handlers as a whole. -/
theorem program_act (j : Joint Thread Shared (Attendant Conn R)) (action : Act Thread (Doing Answers) Answers) :
    cut.program.act j action = service.act j action := by
  cases action with
  | outside k doing =>
      simp only [Program.act, Service.act, program]
      cases service.alone (j.own k) doing with
      | none => rfl
      | some t => rfl
  | whole k answers =>
      rcases j with ⟨shared, own⟩
      cases same : own k with
      | mk stage sent =>
          cases stage with
          | asking c r s =>
              have steps := inThread_finish service (cut.steps r answers) (shared, c, sent) r s
              rw [cut.whole] at steps
              simp only [Program.act, program, Service.act, Service.answer, Joint.perform, same]
              rw [steps]
          | _ =>
              have unchanged := Function.update_eq_self k own
              rw [same] at unchanged
              simp [Program.act, program, Service.act, Service.answer, same, unchanged]

/-- The threads before the first turn, when nobody holds the lock. -/
def start (shared : Shared) : Interleaved Thread Shared (Attendant Conn R) where
  joint := idle Thread R shared
  holder := none

/-- The threads of a server, in any interleaving: the requests that took the
lock were handled one after the other in that order, and what a thread did
outside the lock is unaffected. -/
theorem serializes (shared : Shared) (turns : List (Turn Thread (Doing Answers) Answers)) :
    (run cut.program.step (start shared) turns).finish =
      run service.act (idle Thread R shared) ((start shared).acts cut.program turns) := by
  rw [Interleaved.finish_run]
  congr 1
  funext j action
  exact cut.program_act j action

end Cut
end Service

/-! ## What a server is for

A specification of a server serves the same requests on a state of its own.  Where each
handler does what the specification says, the threads do so too.
-/

section Specification

variable {Model : Type}

/-- The server stands for the specification, on the requests that it can read
and that the specification offers.  The reads are the same on both sides, and
a handler has the reply of the specification. -/
structure Service.Refines (service : Service Shared Conn R Answers) (spec : Service Model Conn R Answers)
    (represents : Shared -> Model -> Prop) (known : R -> Prop) (offers : Model -> Conn -> R -> Answers -> Prop) :
    Prop where
  accept : spec.accept = service.accept
  receive : spec.receive = service.receive
  again : spec.again = service.again
  reads : forall c answers s r rest, service.receive c answers s = .asks r rest -> known r
  handle : forall shared model c r answers, represents shared model -> known r -> offers model c r answers ->
    represents (service.handle r answers shared c).1 (spec.handle r answers model c).1 ∧
      (service.handle r answers shared c).2 = (spec.handle r answers model c).2

/-- The request of a thread that takes the lock is offered.  Nothing is asked
of a thread that has not read a request. -/
def Stage.Offered (offers : Conn -> R -> Prop) : Stage Conn R -> Prop
  | .idle => True
  | .reading _ _ => True
  | .asking c r _ => offers c r

def Act.Offered (offers : Model -> Conn -> R -> Answers -> Prop) (v : Joint Thread Model (Attendant Conn R)) :
    Act Thread (Doing Answers) Answers -> Prop
  | .outside _ _ => True
  | .whole k answers => (v.own k).stage.Offered fun c r => offers v.shared c r answers

instance (offers : Conn -> R -> Prop) [forall c r, Decidable (offers c r)] (stage : Stage Conn R) :
    Decidable (stage.Offered offers) :=
  match stage with
  | .idle => inferInstanceAs (Decidable True)
  | .reading _ _ => inferInstanceAs (Decidable True)
  | .asking c r _ => inferInstanceAs (Decidable (offers c r))

instance (offers : Model -> Conn -> R -> Answers -> Prop) [forall p c r answers, Decidable (offers p c r answers)]
    (v : Joint Thread Model (Attendant Conn R)) (action : Act Thread (Doing Answers) Answers) :
    Decidable (action.Offered offers v) :=
  match action with
  | .outside _ _ => inferInstanceAs (Decidable True)
  | .whole k _ => inferInstanceAs (Decidable ((v.own k).stage.Offered _))

/-- The threads are at the same places, with requests that can be read, and
the shared states are related. -/
structure Alike (represents : Shared -> Model -> Prop) (known : R -> Prop)
    (j : Joint Thread Shared (Attendant Conn R)) (v : Joint Thread Model (Attendant Conn R)) : Prop where
  shared : represents j.shared v.shared
  own : j.own = v.own
  known : forall k c r s, (j.own k).stage = .asking c r s -> known r

namespace Alike

variable {represents : Shared -> Model -> Prop} {known : R -> Prop}
  {j : Joint Thread Shared (Attendant Conn R)} {v : Joint Thread Model (Attendant Conn R)}

theorem idle {shared : Shared} {model : Model} (start : represents shared model) :
    Alike represents known (Service.idle Thread R shared : Joint Thread Shared (Attendant Conn R))
      (Service.idle Thread R model) where
  shared := start
  own := rfl
  known := nofun

variable [DecidableEq Thread]

/-- A thread goes on, to a request that can be read if to a request, and the
shared states stay related. -/
theorem setOwn (alike : Alike represents known j v) (k : Thread) {t : Attendant Conn R}
    (reads : forall c r s, t.stage = .asking c r s -> known r) {shared : Shared} {model : Model}
    (kept : represents shared model) :
    Alike represents known { shared := shared, own := Function.update j.own k t }
      { shared := model, own := Function.update j.own k t } where
  shared := kept
  own := rfl
  known := by
    intro other c r s asking
    by_cases same : other = k
    · subst same
      exact reads c r s (by simpa using asking)
    · exact alike.known other c r s (by simpa [same] using asking)

end Alike

namespace Service
namespace Refines

variable {service : Service Shared Conn R Answers} {spec : Service Model Conn R Answers}
  {represents : Shared -> Model -> Prop} {known : R -> Prop} {offers : Model -> Conn -> R -> Answers -> Prop}

theorem alone_eq (refines : service.Refines spec represents known offers) (t : Attendant Conn R)
    (doing : Doing Answers) : spec.alone t doing = service.alone t doing := by
  cases doing with
  | accepts isTcp s => rw [alone, alone, refines.accept]
  | receives answers => rw [alone, alone, refines.receive]

/-- What a thread reads can be read, because a stage in front of the lock is
only entered behind the reads. -/
theorem alone_known (refines : service.Refines spec represents known offers) {t after : Attendant Conn R}
    {doing : Doing Answers} (steps : service.alone t doing = some after) :
    forall c r s, after.stage = .asking c r s -> known r := by
  intro c r s asking
  cases doing with
  | accepts isTcp s =>
      rw [alone] at steps
      split at steps
      · cases steps
        cases asking
      · cases steps
  | receives answers =>
      rw [alone] at steps
      split at steps
      · split at steps
        · cases steps
          cases asking
        · cases steps
          cases asking
        · rename_i received
          cases steps
          cases asking
          exact refines.reads _ _ _ _ _ received
      · cases steps

variable [DecidableEq Thread] {j : Joint Thread Shared (Attendant Conn R)}
  {v : Joint Thread Model (Attendant Conn R)}

theorem act (refines : service.Refines spec represents known offers) (alike : Alike represents known j v)
    {action : Act Thread (Doing Answers) Answers} (offered : action.Offered offers v) :
    Alike represents known (service.act j action) (spec.act v action) := by
  cases action with
  | outside k doing =>
      rw [Service.act, Service.act, refines.alone_eq, ← alike.own]
      cases steps : service.alone (j.own k) doing with
      | none => exact alike
      | some t =>
          dsimp only
          rw [Joint.setOwn, Joint.setOwn, ← alike.own]
          exact alike.setOwn k (refines.alone_known steps) alike.shared
  | whole k answers =>
      rw [Act.Offered, ← alike.own] at offered
      rw [Service.act, Service.act, ← alike.own]
      have stays := alike.setOwn k (alike.known k) alike.shared
      cases at_ : (j.own k).stage with
      | idle =>
          simp only [answer, at_]
          exact stays
      | reading c s =>
          simp only [answer, at_]
          exact stays
      | asking c r s =>
          rw [at_] at offered
          have served := refines.handle j.shared v.shared c r answers alike.shared (alike.known k c r s at_) offered
          simp only [answer, at_, onward, refines.again, served.2]
          refine alike.setOwn k ?_ served.1
          intro c r s asking
          dsimp only at asking
          split at asking <;> cases asking

/-- In any interleaving of the threads, with handlers in any steps, every
thread is where it would be, and has sent what it would have sent, if the
specification served the requests in the order in which they took the lock. -/
theorem threads (refines : service.Refines spec represents known offers) (cut : service.Cut) {shared : Shared}
    {model : Model} (start : represents shared model) {turns : List (Turn Thread (Doing Answers) Answers)}
    (offered : Guarded spec.act (fun v action => action.Offered offers v) (idle Thread R model)
      ((Cut.start shared).acts cut.program turns)) :
    let finished := (run cut.program.step (Cut.start shared) turns).finish
    let served := run spec.act (idle Thread R model) ((Cut.start shared).acts cut.program turns)
    finished.own = served.own ∧ represents finished.shared served.shared := by
  have simulates : forall (j : Joint Thread Shared (Attendant Conn R)) (v : Joint Thread Model (Attendant Conn R))
      (action : Act Thread (Doing Answers) Answers), Alike represents known j v -> action.Offered offers v ->
      Alike represents known (service.act j action) (spec.act v action) :=
    fun _ _ _ alike now => refines.act alike now
  have alike := related_of_guarded simulates (.idle start) offered
  dsimp only
  rw [cut.serializes]
  exact ⟨alike.own, alike.shared⟩

end Refines
end Service

end Specification

/-! ## One request on each connection -/

/-- A server that closes a connection behind its first request.  The reads
fail with the last bytes that are sent. -/
structure OneShot (Shared R Answers : Type) where
  receive : Bool -> Answers -> Stream -> Except Bytes R        -- or the last bytes sent
  handle : Bool -> R -> Answers -> Shared -> Shared × Bytes

/-- A connection, and what the system answers during its reads and in its
handler. -/
structure Exchange (Answers : Type) where
  isTcp : Bool
  s : Stream
  reading : Answers
  handling : Answers

namespace OneShot

variable (server : OneShot Shared R Answers)

/-- A whole connection, as if the server had no other one. -/
def serve (shared : Shared) (call : Exchange Answers) : Shared × Bytes :=
  match server.receive call.isTcp call.reading call.s with
  | .error reply => (shared, reply)
  | .ok r => server.handle call.isTcp r call.handling shared

/-- A connection remembers its stream, and a request the answers during its
reads.  In this way the server is one of the general kind. -/
def service : Service Shared (Bool × Stream) (Answers × R) Answers where
  accept := fun isTcp s => (isTcp, s)
  receive := fun c answers s =>
    match server.receive c.1 answers s with
    | .error reply => .closes reply
    | .ok r => .asks (answers, r) s
  handle := fun r answers shared c =>
    let handled := server.handle c.1 r.2 answers shared
    (handled.1, c, handled.2)
  again := false

/-- Where each handler does what the specification says, behind the same
reads, the server refines the specification. -/
theorem refines {Model : Type} {spec : OneShot Model R Answers} {represents : Shared -> Model -> Prop}
    {known : R -> Prop} {offers : Model -> Bool -> R -> Answers -> Prop} (receive : spec.receive = server.receive)
    (reads : forall isTcp answers s r, server.receive isTcp answers s = .ok r -> known r)
    (handle : forall shared model isTcp r answers, represents shared model -> known r ->
      offers model isTcp r answers ->
        represents (server.handle isTcp r answers shared).1 (spec.handle isTcp r answers model).1 ∧
          (server.handle isTcp r answers shared).2 = (spec.handle isTcp r answers model).2) :
    server.service.Refines spec.service represents (fun r => known r.2)
      fun model c r answers => offers model c.1 r.2 answers where
  accept := rfl
  receive := by
    funext c answers s
    simp only [service, receive]
  again := rfl
  reads := by
    intro c answers s r rest asks
    simp only [service] at asks
    split at asks
    · cases asks
    · rename_i received
      cases asks
      exact reads _ _ _ _ received
  handle := by
    intro shared model c r answers related isKnown offered
    have handled := handle shared model c.1 r.2 answers related isKnown offered
    exact ⟨handled.1, congrArg (Prod.mk c) handled.2⟩

/-- The connection that an act decides, with its thread: it is refused, or it
takes the lock.  Accepting a connection decides nothing yet. -/
def exchangeOf (j : Joint Thread Shared (Attendant (Bool × Stream) (Answers × R))) :
    Act Thread (Doing Answers) Answers -> Option (Thread × Exchange Answers)
  | .outside k (.receives answers) =>
      match (j.own k).stage with
      | .reading c s =>
          match server.receive c.1 answers s with
          | .error _ => some (k, ⟨c.1, c.2, answers, answers⟩)
          | .ok _ => none
      | _ => none
  | .outside _ (.accepts _ _) => none
  | .whole k answers =>
      match (j.own k).stage with
      | .asking c r _ => some (k, ⟨c.1, c.2, r.1, answers⟩)
      | _ => none

/-- The connections one after the other: the shared state, and the last reply
of each thread. -/
def follow [DecidableEq Thread] (v : Shared × (Thread -> Bytes)) (call : Thread × Exchange Answers) :
    Shared × (Thread -> Bytes) :=
  let served := server.serve v.1 call.2
  (served.1, Function.update v.2 call.1 served.2)

/-- Where a thread is between two acts: it has told its client the whole
reply, or nothing at all. -/
def Attends (t : Attendant (Bool × Stream) (Answers × R)) (told : Bytes) : Prop :=
  match t.stage with
  | .idle => t.sent = told
  | .reading c s => t.sent = [] ∧ s = c.2
  | .asking c r _ => t.sent = [] ∧ server.receive c.1 r.1 c.2 = .ok r.2

/-- The threads agree with the connections that were decided, in the shared
state and in what each client was told. -/
structure Decided (j : Joint Thread Shared (Attendant (Bool × Stream) (Answers × R)))
    (v : Shared × (Thread -> Bytes)) : Prop where
  shared : v.1 = j.shared
  attends : forall k, server.Attends (j.own k) (v.2 k)

namespace Decided

variable {server}
variable {j : Joint Thread Shared (Attendant (Bool × Stream) (Answers × R))} {v : Shared × (Thread -> Bytes)}

theorem start (shared : Shared) :
    server.Decided (Service.idle Thread (Answers × R) shared) (shared, fun _ => []) where
  shared := rfl
  attends := fun _ => rfl

variable [DecidableEq Thread]

/-- One thread has decided its connection, and its client is told the
reply. -/
theorem tell (decided : server.Decided j v) (k : Thread) (shared : Shared)
    {t : Attendant (Bool × Stream) (Answers × R)} {told : Bytes} (attends : server.Attends t told) :
    server.Decided { shared := shared, own := Function.update j.own k t } (shared, Function.update v.2 k told) where
  shared := rfl
  attends := by
    intro other
    by_cases same : other = k
    · subst same
      simpa using attends
    · simpa [same] using decided.attends other

/-- It goes on with its connection, without having decided it. -/
theorem stay (decided : server.Decided j v) (k : Thread) {t : Attendant (Bool × Stream) (Answers × R)}
    (attends : server.Attends t (v.2 k)) : server.Decided (j.setOwn k t) v := by
  have told := decided.tell k j.shared attends
  have same : v = (j.shared, v.2) := Prod.ext decided.shared rfl
  rw [Function.update_eq_self] at told
  rw [same]
  exact told

/-- Each act is the connection that it decides, or none.  It is the step of
the induction over the acts. -/
theorem act (decided : server.Decided j v) (action : Act Thread (Doing Answers) Answers) :
    server.Decided (server.service.act j action) (run server.follow v (server.exchangeOf j action).toList) := by
  cases action with
  | outside k doing =>
      have attends := decided.attends k
      rw [Service.act]
      cases doing with
      | accepts isTcp s =>
          rw [Service.alone, exchangeOf]
          cases at_ : (j.own k).stage with
          | idle => exact decided.stay k ⟨rfl, rfl⟩
          | reading c s => exact decided
          | asking c r s => exact decided
      | receives answers =>
          rw [Service.alone, exchangeOf]
          cases at_ : (j.own k).stage with
          | idle => exact decided
          | asking c r s => exact decided
          | reading c s =>
              rw [Attends, at_] at attends
              rcases attends with ⟨silent, rfl⟩
              simp only [service]
              cases received : server.receive c.1 answers c.2 with
              | error reply =>
                  have served : server.follow v (k, ⟨c.1, c.2, answers, answers⟩) =
                      (j.shared, Function.update v.2 k reply) := by
                    simp only [follow, serve, received, decided.shared]
                  change server.Decided _ (server.follow v _)
                  rw [served]
                  exact decided.tell k j.shared (congrArg (· ++ reply) silent)
              | ok r => exact decided.stay k ⟨silent, received⟩
  | whole k answers =>
      have attends := decided.attends k
      rw [Service.act, Service.answer, exchangeOf]
      cases at_ : (j.own k).stage with
      | idle =>
          rw [Function.update_eq_self]
          exact decided
      | reading c s =>
          rw [Function.update_eq_self]
          exact decided
      | asking c r s =>
          rw [Attends, at_] at attends
          rcases attends with ⟨silent, received⟩
          change server.Decided _ (server.follow v (k, ⟨c.1, c.2, r.1, answers⟩))
          simp only [follow, serve, received, decided.shared]
          exact decided.tell k _ (congrArg (· ++ _) silent)

end Decided

/-- The threads of a server with one request on each connection, in any
interleaving: the connections were decided one after the other, those that
take the lock in that order, and each client is told what it is told when
nobody else is served. -/
theorem serializes [DecidableEq Thread] (cut : server.service.Cut) (shared : Shared)
    (turns : List (Turn Thread (Doing Answers) Answers)) :
    server.Decided (run cut.program.step (Service.Cut.start shared) turns).finish
      (run server.follow (shared, fun _ => [])
        (emitted server.service.act server.exchangeOf (Service.idle Thread (Answers × R) shared)
          ((Service.Cut.start shared).acts cut.program turns))) := by
  have follows : forall (j : Joint Thread Shared _) v action, server.Decided j v ->
      server.Decided (server.service.act j action) (run server.follow v (server.exchangeOf j action).toList) :=
    fun _ _ action decided => decided.act action
  rw [cut.serializes]
  exact related_run follows (Decided.start shared) _

end OneShot

end Foundation
end BugMuseum
