import BugMuseum.Foundation.Framing
import BugMuseum.Revenant.Replay

namespace BugMuseum
namespace Revenant

open Foundation

/-!
# Requests that arrive in pieces

`conn_read` may return fewer bytes than it is asked for, and `conn_read_full`
repeats it.  Here the loop in `serve` runs on such a connection, and it notes the
requests for which `g_ops[req.op]` was called.  On the bytes as a whole it comes to
the same as the loop that the replay is compared with.
-/

/-- What has come of a connection, with the requests that were dispatched in
their order. -/
structure Attended where
  store : Store
  conn : Conn
  sent : Bytes
  dispatched : List Request

/-- One turn of the loop in `serve`, behind the reads.  A request beyond the
table is answered and goes no further. -/
def attend (plugins : Nat -> Option Handler) (answers : Nat -> Answers) (i : Nat) (v : Attended)
    (r : Request) : Attended :=
  if r.op > opFlush then { v with sent := v.sent ++ ascii "ERR op\n" }
  else
    let served := dispatch plugins v.store v.conn r (answers i).grant (answers i).outcome
    { store := served.1, conn := served.2.1, sent := v.sent ++ served.2.2,
      dispatched := v.dispatched ++ [r] }

/-- The loop is left; only a request that is too long is answered. -/
def hangUp (v : Attended) (stop : Stop) : Attended :=
  if stop = .big then { v with sent := v.sent ++ ascii "ERR big\n" } else v

/-- A connection is accepted: it has no current session yet, and nothing has
been sent on it. -/
def accepted (store : Store) (isTcp : Bool) : Attended where
  store := store
  conn := { isTcp, cur := none }
  sent := []
  dispatched := []

/-- `serve`, on one connection that has the store for itself. -/
def serveStream (plugins : Nat -> Option Handler) (answers : Nat -> Answers) (store : Store) (isTcp : Bool)
    (s : Stream) : Attended :=
  requestFormat.serve (fun i => (answers i).argument) (attend plugins answers) hangUp (s.input.length + 1) 0
    (accepted store isTcp) s

/-- The request is in the table of operations. -/
def Request.known (r : Request) : Prop :=
  ¬ r.op > opFlush

instance (r : Request) : Decidable r.known :=
  inferInstanceAs (Decidable (¬ _))

/-- The table is called for the requests in front of the input, whatever the
pieces, and the store, the connection and the replies are those of the turns
for these requests. -/
theorem serveStream_keepsFrames (plugins : Nat -> Option Handler) (answers : Nat -> Answers) (store : Store)
    (isTcp : Bool) :
    requestFormat.KeepsFrames (fun i => (answers i).argument) Request.known
      (attend plugins answers) hangUp (accepted store isTcp) (serveStream plugins answers store isTcp)
      Attended.dispatched := by
  apply requestFormat.keepsFrames _ (accepted store isTcp)
  · intro i v r
    by_cases listed : r.known
    · rw [attend, if_neg listed, if_pos listed]
    · rw [attend, if_pos (not_not.mp listed), if_neg listed, List.append_nil]
  · intro v stop
    rw [hangUp]
    split
    · rfl
    · rfl
  · rfl

/-- The loop on pieces and the loop on bytes come to the same store and have
sent the same. -/
theorem serve_attend {plugins : Nat -> Option Handler} {answers : Nat -> Answers} {k fuel i : Nat} {d : Daemon}
    {v : Attended} {s : Stream} (loaded : d.plugins = plugins) (connected : d.conns k = some v.conn)
    (same : d.store = v.store) :
    (serve answers k fuel i d s.input).1.store =
        (requestFormat.serve (fun i => (answers i).argument) (attend plugins answers) hangUp fuel i v s).store ∧
      (requestFormat.serve (fun i => (answers i).argument) (attend plugins answers) hangUp fuel i v s).sent =
        v.sent ++ (serve answers k fuel i d s.input).2 := by
  subst loaded
  induction fuel generalizing i d v s with
  | zero => exact ⟨same, (List.append_nil _).symm⟩
  | succ fuel inductionHypothesis =>
      rw [serve, connected, readRequest_eq_readPacked, RecordFormat.serve]
      dsimp only
      rcases (requestFormat.receive_agrees (answers i).argument s).outcome with
        ⟨stop, received, read⟩ | ⟨⟨r, later⟩, ⟨_, rest⟩, received, read, rfl, rfl⟩
      · rw [received, read]
        dsimp only
        rw [hangUp]
        split
        · exact ⟨same, rfl⟩
        · exact ⟨same, (List.append_nil _).symm⟩
      · rw [received, read]
        dsimp only
        have fits : ¬ r.arg.bytes.length > sessMaxArg :=
          Nat.not_lt.mpr (RecordFormat.readPacked_eq_ok.mp read).2.1
        rw [serveRequest, attend, if_neg fits]
        by_cases refused : r.op > opFlush
        · rw [if_pos refused, if_pos refused]
          rcases inductionHypothesis (i := i + 1) (d := d)
            (v := { v with sent := v.sent ++ ascii "ERR op\n" }) (s := later) connected same with
            ⟨store, sent⟩
          exact ⟨store, sent.trans (List.append_assoc _ _ _)⟩
        · rw [if_neg refused, if_neg refused]
          dsimp only
          rw [same]
          obtain ⟨served, result⟩ : exists served,
            dispatch d.plugins v.store v.conn r (answers i).grant (answers i).outcome = served := ⟨_, rfl⟩
          rw [result]
          rcases inductionHypothesis (i := i + 1)
            (d := { d with store := served.1, conns := Function.update d.conns k (some served.2.1) })
            (v := { store := served.1, conn := served.2.1, sent := v.sent ++ served.2.2,
                    dispatched := v.dispatched ++ [r] })
            (s := later) (Function.update_self ..) rfl with ⟨store, sent⟩
          exact ⟨store, sent.trans (List.append_assoc _ _ _)⟩

/-- A fresh server that gets these bytes on one connection, in any pieces, is
the server that the replay is compared with. -/
theorem serveBytes_eq_serveStream (found : Handler -> Bool) (answers : Nat -> Answers) (isTcp : Bool)
    (s : Stream) :
    (serveBytes found answers isTcp s.input).1.store =
        (serveStream (loadPlugins found) answers sessNew isTcp s).store ∧
      (serveBytes found answers isTcp s.input).2 =
        (serveStream (loadPlugins found) answers sessNew isTcp s).sent := by
  rw [serveBytes, serveStream]
  constructor
  · exact (serve_attend (v := accepted sessNew isTcp) rfl rfl rfl).1
  · exact (serve_attend (v := accepted sessNew isTcp) rfl rfl rfl).2.symm

end Revenant
end BugMuseum
