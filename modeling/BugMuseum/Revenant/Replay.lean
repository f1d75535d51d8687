import BugMuseum.Foundation.Framing
import BugMuseum.Foundation.Runs
import BugMuseum.Revenant.Connections
import BugMuseum.Revenant.OpLog
import BugMuseum.Revenant.SameState

namespace BugMuseum
namespace Revenant

open Foundation

/-!
# The replay tool

`sessreplay` reads an op-log and makes the calls of `sesscore` itself, with a
dispatch of its own.  It defers after a failed use as well as after a successful
one, and it never looks up the session it has opened.  Neither shows in the store.

The server is run here on the bytes of one connection.  What the two programs
share is the outcome of every allocation, given for each record by its number.
-/

/-- The outcomes of the allocations for one record: of the buffer for its
argument, in an open, and of a reallocation. -/
structure Answers where
  argument : Bool
  grant : Nat -> Grant
  outcome : Realloc

/-- The loop in `serve`: the daemon when the connection has ended, and
everything that was sent. -/
def serve (answers : Nat -> Answers) (k : Nat) : Nat -> Nat -> Daemon -> Bytes -> Daemon × Bytes
  | 0, _, d, _ => (d, [])
  | fuel + 1, i, d, input =>
      match d.conns k with
      | none => (d, [])
      | some c =>
          match readRequest (answers i).argument input with
          | .error stop =>
              (daemonStep d (.disconnect k), if stop = .big then ascii "ERR big\n" else [])
          | .ok (r, rest) =>
              let served := serveRequest d k c r (answers i).grant (answers i).outcome
              let later := serve answers k fuel (i + 1) served.1 rest
              (later.1, served.2 ++ later.2)

/-- A fresh server with one connection, on which these bytes arrive. -/
def serveBytes (found : Handler -> Bool) (answers : Nat -> Answers) (isTcp : Bool) (input : Bytes) :
    Daemon × Bytes :=
  serve answers 0 (input.length + 1) 0 (daemonStep (sessiondNew found) (.connect 0 isTcp)) input

structure Replay where
  store : Store
  out : Bytes         -- `char out[256]`
  stdout : Bytes

/-- The `switch` in the loop of `wmain`, with a dispatch of its own. -/
def replayRecord (plugins : Nat -> Option Handler) (p : Replay) (r : Request) (grant : Nat -> Grant)
    (outcome : Realloc) : Replay :=
  if r.op = opOpen then
    let type := r.type &&& handlerIdMask
    let result := sessOpen p.store type.toNat (pluginFor plugins type) r.arg grant
    { p with store := result.1, stdout := p.stdout ++ ascii "OPEN -> " ++ decimal result.2 ++ ascii "\n" }
  else if r.op = opUseRun then
    let result := sessUseRun p.store r.id r.arg p.out
    let printed := if result.2.2 ≥ 0 then result.2.1.take result.2.2.toNat ++ ascii "\n" else []
    { store := deferFlagged result.1 r, out := result.2.1, stdout := p.stdout ++ printed }
  else if r.op = opUseSet then
    { p with store := deferFlagged (sessUseSet p.store r.id r.arg).1 r }
  else if r.op = opUseAppend then { p with store := (sessUseAppend p.store r.id r.arg outcome).1 }
  else if r.op = opClose then { p with store := (sessClose p.store r.id).1 }
  else if r.op = opStat then
    let result := sessStat p.store (decide (r.type &&& flagVerbose ≠ 0)) p.out
    { store := result.1, out := result.2.1, stdout := p.stdout ++ cString result.2.1 ++ ascii "\n" }
  else if r.op = opFlush then { p with store := (sessFlush p.store r.arg).1 }
  else p

/-- The loop in `wmain`, over the announced number of records or up to the
first that cannot be read. -/
def replayRecords (plugins : Nat -> Option Handler) (answers : Nat -> Answers) :
    Nat -> Nat -> Replay -> Bytes -> Replay
  | 0, _, p, _ => p
  | count + 1, i, p, input =>
      match readRecord (answers i).argument input with
      | .error _ => p
      | .ok (r, rest) =>
          replayRecords plugins answers count (i + 1)
            (replayRecord plugins p r (answers i).grant (answers i).outcome) rest

/-- `wmain` on an opened file, up to `SessTableFree`: the exit code of a
rejected file, or the state behind the last record.  The buffer `out` starts
with what the stack holds. -/
def sessreplay (found : Handler -> Bool) (answers : Nat -> Answers) (residue : Field 256) (file : Bytes) :
    Except Int Replay := do
  let (magic, input) ← takeField 1 4 file
  let (count, body) ← takeField 1 4 input
  failIf 1 (magic.1 ≠ oplogMagic)
  failIf 1 (count.toNat > oplogMaxRecords)
  return replayRecords (loadPlugins found) answers count.toNat 0
    { store := sessNew, out := residue.1, stdout := [] } body

/-- Only the status looks at the verbose flag, and the status leaves no
trace. -/
theorem SameState.call {s s' : Store} (same : SameState s s') (r : Request)
    (plugins : Nat -> Option Handler) (verbose verbose' : Bool) (grant : Nat -> Grant) (outcome : Realloc) :
    SameState (Revenant.step s (r.call plugins verbose grant outcome))
      (Revenant.step s' (r.call plugins verbose' grant outcome)) := by
  by_cases status : r.op = opStat
  · have shown : forall verbose, r.call plugins verbose grant outcome =
        .stat verbose (List.replicate 256 0) := by
      intro verbose
      rw [Request.call, status]
      rfl
    rw [shown, shown]
    exact ((SameState.sessStat s _ _).symm.trans same).trans (SameState.sessStat s' _ _)
  · have unchanged : r.call plugins verbose grant outcome = r.call plugins verbose' grant outcome := by
      simp only [Request.call, if_neg status]
    rw [unchanged]
    exact same.step _

/-- The store does not depend on what the output buffer held, so it does not
matter that the tool keeps one. -/
theorem sessUseRun_store (s : Store) (id : Int) (arg : Payload) (out out' : Bytes) :
    (sessUseRun s id arg out).1 = (sessUseRun s id arg out').1 := by
  rw [sessUseRun, sessUseRun]
  split
  · rfl
  · rfl

theorem replayRecord_refused {plugins : Nat -> Option Handler} {p : Replay} {r : Request}
    {grant : Nat -> Grant} {outcome : Realloc} (refused : r.op > opFlush) :
    replayRecord plugins p r grant outcome = p := by
  have differs : forall op, op ≤ opFlush -> r.op ≠ op := by
    intro op small same
    exact UInt8.not_le.mpr refused (same ▸ small)
  rw [replayRecord, if_neg (differs opOpen (by decide)), if_neg (differs opUseRun (by decide)),
    if_neg (differs opUseSet (by decide)), if_neg (differs opUseAppend (by decide)),
    if_neg (differs opClose (by decide)), if_neg (differs opStat (by decide)),
    if_neg (differs opFlush (by decide))]

/-- A record makes the call of the request, and defers like it. -/
theorem replayRecord_store (plugins : Nat -> Option Handler) (p : Replay) {r : Request} (verbose : Bool)
    (grant : Nat -> Grant) (outcome : Realloc) (accepted : ¬ r.op > opFlush) :
    SameState
      (if r.uses then deferFlagged (step p.store (r.call plugins verbose grant outcome)) r
        else step p.store (r.call plugins verbose grant outcome))
      (replayRecord plugins p r grant outcome).store := by
  have uses : forall op, r.op = op -> (r.uses ↔ op = opUseRun ∨ op = opUseSet) :=
    fun op same => same ▸ Iff.rfl
  rcases op_cases accepted with same | same | same | same | same | same | same
  · rw [if_neg ((uses _ same).not.mpr (by decide)), Request.call, replayRecord, same]
    exact .refl _
  · rw [if_pos ((uses _ same).mpr (by decide)), Request.call, replayRecord, same]
    show SameState _ (deferFlagged (sessUseRun p.store r.id r.arg p.out).1 r)
    rw [sessUseRun_store _ _ _ p.out]
    exact .refl _
  · rw [if_pos ((uses _ same).mpr (by decide)), Request.call, replayRecord, same]
    exact .refl _
  · rw [if_neg ((uses _ same).not.mpr (by decide)), Request.call, replayRecord, same]
    exact .refl _
  · rw [if_neg ((uses _ same).not.mpr (by decide)), Request.call, replayRecord, same]
    exact .refl _
  · rw [if_neg ((uses _ same).not.mpr (by decide)), Request.call, replayRecord, same]
    exact (SameState.sessStat p.store _ _).symm.trans (SameState.sessStat p.store _ _)
  · rw [if_neg ((uses _ same).not.mpr (by decide)), Request.call, replayRecord, same]
    exact .refl _

/-- One request and one record, from states that a caller cannot tell apart,
lead to such states. -/
theorem serveRequest_replayRecord {d : Daemon} {k : Nat} {c : Conn} {p : Replay} {r : Request}
    (same : SameState d.store p.store) (fits : r.arg.bytes.length ≤ sessMaxArg)
    (direct : r.uses -> ¬ cached c r) (grant : Nat -> Grant) (outcome : Realloc) :
    SameState (serveRequest d k c r grant outcome).1.store
      (replayRecord d.plugins p r grant outcome).store := by
  rw [serveRequest, if_neg (Nat.not_lt.mpr fits)]
  by_cases refused : r.op > opFlush
  · rw [if_pos refused, replayRecord_refused refused]
    exact same
  · rw [if_neg refused]
    dsimp only
    rw [dispatch_store d.plugins d.store grant outcome direct]
    have called := same.call r d.plugins (verboseFor c r) (verboseFor c r) grant outcome
    refine .trans ?_ (replayRecord_store d.plugins p (verboseFor c r) grant outcome refused)
    split
    · exact called.deferFlagged r
    · exact called

/-- A request leaves the plug-ins and its connection in place, whatever it
does to the store. -/
theorem serveRequest_frame {d : Daemon} {k : Nat} {c : Conn} {r : Request} (connected : d.conns k = some c)
    (fits : r.arg.bytes.length ≤ sessMaxArg) (grant : Nat -> Grant) (outcome : Realloc) :
    (serveRequest d k c r grant outcome).1.plugins = d.plugins ∧
      exists c', (serveRequest d k c r grant outcome).1.conns k = some c' ∧ c'.isTcp = c.isTcp := by
  rw [serveRequest, if_neg (Nat.not_lt.mpr fits)]
  split
  · exact ⟨rfl, c, connected, rfl⟩
  · exact ⟨rfl, _, Function.update_self .., (dispatch_conn d.plugins d.store c r grant outcome).1⟩

/-! ## Whole logs -/

/-- The connection ends when its input does, or before. -/
theorem serve_ends (answers : Nat -> Answers) {k fuel i : Nat} {d : Daemon} {input : Bytes}
    (enough : input.length < fuel) : (serve answers k fuel i d input).1.conns k = none := by
  induction fuel generalizing i d input with
  | zero => exact absurd enough (Nat.not_lt_zero _)
  | succ fuel inductionHypothesis =>
      rw [serve]
      split
      · rename_i absent
        exact absent
      · split
        · exact Function.update_self ..
        · rename_i r rest read
          rw [readRequest_eq_readRecord] at read
          have split := (readRecord_eq_ok.mp read).1
          have measured := congrArg List.length split
          rw [List.length_append, r.encode_length] at measured
          exact inductionHypothesis (by omega)

/-- One request of the connection. -/
def serveNext (answers : Nat -> Answers) (k i : Nat) (d : Daemon) (r : Request) : Daemon :=
  daemonStep d (.request k r (answers i).grant (answers i).outcome)

/-- One record of the log. -/
def replayNext (plugins : Nat -> Option Handler) (answers : Nat -> Answers) (i : Nat) (p : Replay) (r : Request) :
    Replay :=
  replayRecord plugins p r (answers i).grant (answers i).outcome

theorem serveNext_connected {d : Daemon} {k : Nat} {c : Conn} (connected : d.conns k = some c)
    (answers : Nat -> Answers) (i : Nat) (r : Request) :
    serveNext answers k i d r = (serveRequest d k c r (answers i).grant (answers i).outcome).1 := by
  rw [serveNext, daemonStep, connected]

/-- The server handles the requests that stand in front of its input, one
after the other. -/
theorem serve_handleAll {answers : Nat -> Answers} {k i fuel : Nat} {d : Daemon} {c : Conn} {records : List Request}
    {rest input : Bytes} (frames : requestFormat.Frames (fun i => (answers i).argument) i records rest input)
    (connected : d.conns k = some c) (enough : input.length < fuel) :
    (serve answers k fuel i d input).1.store =
      (RecordFormat.handleAll (serveNext answers k) i d records).store := by
  induction records generalizing fuel i d c input with
  | nil =>
      obtain ⟨fuel, rfl⟩ := Nat.exists_eq_succ_of_ne_zero (Nat.ne_of_gt (Nat.zero_lt_of_lt enough))
      rcases frames.stops with ⟨stop, unread⟩
      rw [serve, connected, readRequest_eq_readPacked, unread]
      rfl
  | cons r later inductionHypothesis =>
      obtain ⟨fuel, rfl⟩ := Nat.exists_eq_succ_of_ne_zero (Nat.ne_of_gt (Nat.zero_lt_of_lt enough))
      rcases frames.tail with ⟨fits, framesLater, split⟩
      rcases serveRequest_frame connected fits.1 (answers i).grant (answers i).outcome with ⟨_, c', stays, _⟩
      rw [serve, connected, readRequest_eq_readPacked, RecordFormat.readPacked_eq_ok.mpr ⟨split, fits⟩,
        RecordFormat.handleAll, serveNext_connected connected]
      apply inductionHypothesis framesLater stays
      rw [split, List.length_append, requestFormat.encode_length] at enough
      omega

/-- The replay reads and handles record by record, so the laws of packed
records apply to it. -/
theorem replayRecords_eq (plugins : Nat -> Option Handler) (answers : Nat -> Answers) (count i : Nat) (p : Replay)
    (body : Bytes) :
    replayRecords plugins answers count i p body =
      requestFormat.replay (fun i => (answers i).argument) (replayNext plugins answers) count i p body := by
  induction count generalizing i p body with
  | zero => rfl
  | succ count inductionHypothesis =>
      rw [replayRecords, RecordFormat.replay, readRecord_eq_readFields]
      cases requestFormat.readFields (answers i).argument body with
      | error stop => rfl
      | ok taken => exact inductionHypothesis _ _ _

/-- The server and the replay have come to the same, and the connection is
still there.  This is the relation that both keep from record to record. -/
structure InStep (plugins : Nat -> Option Handler) (k : Nat) (isTcp : Bool) (d : Daemon) (p : Replay) : Prop where
  loaded : d.plugins = plugins
  connected : exists c, d.conns k = some c ∧ c.isTcp = isTcp
  store : SameState d.store p.store

theorem InStep.next {plugins : Nat -> Option Handler} {k i : Nat} {isTcp : Bool} {d : Daemon} {p : Replay}
    {answers : Nat -> Answers} {r : Request} (inStep : InStep plugins k isTcp d p)
    (fits : r.arg.bytes.length ≤ sessMaxArg)
    (direct : forall c : Conn, c.isTcp = isTcp -> r.uses -> ¬ cached c r) :
    InStep plugins k isTcp (serveNext answers k i d r) (replayNext plugins answers i p r) := by
  rcases inStep with ⟨rfl, ⟨c, connected, kind⟩, same⟩
  rcases serveRequest_frame connected fits (answers i).grant (answers i).outcome with ⟨loaded, c', stays, kept⟩
  rw [serveNext_connected connected]
  exact ⟨loaded, ⟨c', stays, kept.trans kind⟩,
    serveRequest_replayRecord same fits (direct c kind) (answers i).grant (answers i).outcome⟩

/-- The server on the bytes of the records, and the replay of the records. -/
theorem serve_replayRecords {answers : Nat -> Answers} {k : Nat} {d : Daemon} {c : Conn} {p : Replay}
    (count i : Nat) {fuel : Nat} {body : Bytes} (same : SameState d.store p.store)
    (connected : d.conns k = some c) (enough : (recordBytes count body).length < fuel)
    (direct : forall r, r ∈ recordsIn count body -> r.uses -> ¬ cached c r) :
    SameState (serve answers k fuel i d (recordBytes count body)).1.store
      (replayRecords d.plugins answers count i p body).store := by
  obtain ⟨records, rest, frames⟩ : exists records rest,
      requestFormat.Frames (fun i => (answers i).argument) i records rest (recordBytes count body) :=
    RecordFormat.Frames.exist _ i _
  rw [serve_handleAll frames connected enough]
  rw [recordBytes_eq] at frames
  have replayed : requestFormat.replay (fun i => (answers i).argument) (replayNext d.plugins answers) count i p body =
        RecordFormat.handleAll (replayNext d.plugins answers) i p records ∧
      forall r, r ∈ records -> r ∈ requestFormat.recordsIn count body := frames.replayed p
  have start : InStep d.plugins k c.isTcp d p := ⟨rfl, ⟨c, connected, rfl⟩, same⟩
  have inStep : InStep d.plugins k c.isTcp (RecordFormat.handleAll (serveNext answers k) i d records)
      (RecordFormat.handleAll (replayNext d.plugins answers) i p records) := by
    apply RecordFormat.handleAll_lockstep i start
    intro j _ _ r member inStep
    rcases List.getElem?_of_mem member with ⟨index, at_⟩
    apply inStep.next (frames.readable index r at_).1
    intro other kind uses through
    rw [cached, kind] at through
    exact direct r (recordsIn_eq count body ▸ replayed.2 r member) uses through
  rw [replayRecords_eq, replayed.1]
  exact inStep.store

/-- What arrives on a connection is a run of requests and at most one
disconnect, so the laws of every run of the server hold behind it. -/
theorem serve_run (answers : Nat -> Answers) (k fuel i : Nat) (d : Daemon) (input : Bytes) :
    exists events, (serve answers k fuel i d input).1 = run daemonStep d events := by
  induction fuel generalizing i d input with
  | zero => exact ⟨[], rfl⟩
  | succ fuel inductionHypothesis =>
      rw [serve]
      cases connected : d.conns k with
      | none => exact ⟨[], rfl⟩
      | some c =>
          dsimp only
          split
          · exact ⟨[.disconnect k], rfl⟩
          · rename_i r rest _
            have one : (serveRequest d k c r (answers i).grant (answers i).outcome).1 =
                daemonStep d (.request k r (answers i).grant (answers i).outcome) := by
              rw [daemonStep, connected]
            rcases inductionHypothesis (i + 1) _ rest with ⟨events, later⟩
            refine ⟨.request k r (answers i).grant (answers i).outcome :: events, ?_⟩
            rw [run_cons, ← one]
            exact later

theorem sessreplay_file (found : Handler -> Bool) (answers : Nat -> Answers) (residue : Field 256)
    (log : OpLog) :
    sessreplay found answers residue log.file = .ok
      (replayRecords (loadPlugins found) answers log.count 0
        { store := sessNew, out := residue.1, stdout := [] } log.body) := by
  have counted : (Field.ofNat 4 log.count).toNat = log.count :=
    Field.toNat_ofNat (Nat.lt_of_le_of_lt log.bounded (by decide))
  simp only [sessreplay, bind_eq_ok, Prod.exists, takeField_eq_ok, failIf_eq_ok]
  refine ⟨⟨oplogMagic, rfl⟩, _, rfl, .ofNat 4 log.count, log.body, rfl, (), not_not.mpr rfl, (), ?_, ?_⟩
  · rw [counted]
    exact Nat.not_lt.mpr log.bounded
  · rw [counted]
    rfl

/-- Replaying a log leaves the store as a fresh server leaves it that gets the
same bytes on one TCP connection, and, unless a run or a set names the recent
session, as one that gets them on a pipe.  In both cases the connection has
ended. -/
theorem sessreplay_serveBytes (found : Handler -> Bool) (answers : Nat -> Answers) (residue : Field 256)
    (log : OpLog) :
    exists replay, sessreplay found answers residue log.file = .ok replay ∧
      (forall isTcp, (serveBytes found answers isTcp log.bytes).1.conns 0 = none) ∧
      SameState (serveBytes found answers true log.bytes).1.store replay.store ∧
      ((forall r, r ∈ log.records -> r.uses -> r.id ≠ sessRecent) ->
        SameState (serveBytes found answers false log.bytes).1.store replay.store) := by
  have connected : forall isTcp, (daemonStep (sessiondNew found) (.connect 0 isTcp)).conns 0 =
      some { isTcp := isTcp, cur := none } := fun _ => rfl
  refine ⟨_, sessreplay_file found answers residue log, fun _ => serve_ends answers (Nat.lt_succ_self _),
    ?_, ?_⟩
  · apply serve_replayRecords log.count 0 (.refl sessNew) (connected true) (Nat.lt_succ_self _)
    exact fun r _ _ through => Bool.noConfusion through.1
  · intro ordinary
    apply serve_replayRecords log.count 0 (.refl sessNew) (connected false) (Nat.lt_succ_self _)
    exact fun r member uses through => ordinary r member uses through.2

/-- Every allocation succeeds and nothing moves. -/
def granting : Answers where
  argument := true
  grant := fun _ => some fun _ => 0
  outcome := .inPlace fun _ => 0

/-- A session is opened and its handler run. -/
def helloRecords : List Request :=
  [helloRequest opOpen 0, helloRequest opUseRun 0]

def helloLog : OpLog where
  count := 2
  body := helloRecords.flatMap Request.encode
  bounded := by decide

theorem helloLog_replays : exists replay,
    sessreplay (fun _ => true) (fun _ => granting) (.ofNat 256 0) helloLog.file = .ok replay ∧
      SameState (serveBytes (fun _ => true) (fun _ => granting) false helloLog.bytes).1.store replay.store := by
  rcases sessreplay_serveBytes (fun _ => true) (fun _ => granting) (.ofNat 256 0) helloLog with
    ⟨replay, accepted, _, _, pipe⟩
  refine ⟨replay, accepted, pipe ?_⟩
  have fits : forall r, r ∈ helloRecords -> r.fits true := by
    intro r member
    rcases List.mem_pair.mp member with rfl | rfl <;> exact ⟨by decide, Or.inr rfl⟩
  have written : helloLog.records = helloRecords :=
    (congrArg (recordsIn 2) (List.append_nil _).symm).trans (recordsIn_encoded fits []).1
  rw [written]
  decide

end Revenant
end BugMuseum
