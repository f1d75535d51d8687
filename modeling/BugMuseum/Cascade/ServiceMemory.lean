import BugMuseum.Cascade.Clients
import BugMuseum.Cascade.TcpReplies

namespace BugMuseum
namespace Cascade

open Foundation

/-!
# The service in memory

A push parses a profile, merges it into the live store and frees it, and every payload is in a
block of its own while its request is handled.  This module follows the requests on blocks, as
far as the first one that leaves a buffer or meets a null pointer.  Up to there the store in
memory stands for the store of the list model, the replies are the same, and nothing else is
kept from one request to the next.
-/

namespace Memory

/-- The first bytes of a value, filled up with zeros if the block has
fewer. -/
def readValue (m : Memory) (text : Block) (length : Nat) : Bytes :=
  (m.texts.cell text ++ List.replicate length 0).take length

theorem readValue_length (m : Memory) (text : Block) (length : Nat) : (m.readValue text length).length = length := by
  rw [readValue, List.length_take, List.length_append, List.length_replicate]
  omega

theorem readValue_eq {m : Memory} {text : Block} {length : Nat} (inside : length ≤ (m.texts.cell text).length) :
    m.readValue text length = (m.texts.cell text).take length :=
  List.take_append_of_le_length inside

/-- The entry at a block, as a function that only reads sees it. -/
def readEntry (m : Memory) (b : Block) : CfgEntry where
  name := (m.entry b).name.map fun text => CStr.ofBlock (m.texts.cell text)
  type := (m.entry b).type
  valueLen := (m.entry b).valueLen
  value := (m.entry b).value.map fun text => m.readValue text (m.entry b).valueLen
  ival := (m.entry b).ival
  sized := fun bytes read => by
    rcases Option.map_eq_some_iff.mp read with ⟨text, _, rfl⟩
    exact m.readValue_length text _

/-- The entries from one on, with fuel for their number. -/
def readEntries (m : Memory) : Nat -> Option Block -> List CfgEntry
  | 0, _ => []
  | _, none => []
  | fuel + 1, some e => m.readEntry e :: m.readEntries fuel (m.link e)

/-- The profile at a block, read from its first entry to its last. -/
def view (m : Memory) (p : Block) : CfgProfile where
  head := m.readEntries m.fuel (m.profile p).head
  count := (m.profile p).count

theorem Stands.read {m : Memory} {b : Block} {e : CfgEntry} (stands : Stands m b e) : m.readEntry b = e := by
  have value : (m.entry b).value.map (fun text => m.readValue text (m.entry b).valueLen) = e.value := by
    rw [← stands.value, stands.valueLen]
    exact Option.map_congr fun text valued => readValue_eq (stands.sized text valued)
  rcases e with ⟨name, type, valueLen, own, ival, sized⟩
  simp only [readEntry, CfgEntry.mk.injEq]
  exact ⟨stands.name, stands.type, stands.valueLen, value, stands.ival⟩

theorem readEntries_eq {m : Memory} {entries : List (Block × CfgEntry)} {start : Option Block} {fuel : Nat}
    (path : Path m.link start (entries.map Prod.fst) none) (enough : entries.length < fuel)
    (stands : forall pair, pair ∈ entries -> Stands m pair.1 pair.2) :
    m.readEntries fuel start = entries.map Prod.snd := by
  induction entries generalizing start fuel with
  | nil =>
      cases path
      cases fuel <;> rfl
  | cons pair rest inductionHypothesis =>
      cases fuel with
      | zero => exact absurd enough (Nat.not_lt_zero _)
      | succ fuel =>
          rcases path with ⟨rfl, later⟩
          rw [readEntries, (stands pair List.mem_cons_self).read, List.map_cons,
            inductionHypothesis later (Nat.lt_of_succ_lt_succ enough)
              fun other member => stands other (List.mem_cons_of_mem _ member)]

/-- What is kept is what is seen, so the functions that only read can work on
the list. -/
theorem Keeps.view_eq {m : Memory} {loose : List Block} {root : Root} {roots : List Root}
    (keeps : Keeps m loose roots) (member : root ∈ roots) : m.view root.block = root.profile := by
  have laid := keeps.laid root member
  have fits := keeps.length_lt_fuel member
  rw [Root.blocks, List.length_map] at fits
  rw [view, readEntries_eq laid.path fits laid.stands, laid.count]
  rfl

end Memory

/-- The process of the service, and `g_store`. -/
structure Server where
  proc : Process
  store : Block

/-- `main` has made the store. -/
def Server.start : Server where
  proc := { Process.empty with memory := (Memory.empty.cfgNew true).1 }
  store := Memory.empty.profiles.next

namespace Server

section Requests

variable (residue : Block -> Nat -> UInt8) (env : ServiceEnv) (s : Server)

def withMemory (memory : Memory) : Server :=
  { s with proc := { s.proc with memory } }

def handleGet (payload : Bytes) : Except Mishap Bytes :=
  let store := s.proc.memory.view s.store
  let key := CStr.ofBlock (payload.take 255 ++ [0])
  if 32 < key.1.length ∧ key.1.length < 64 then .error (.norm key)
  else
    match cfgLookup (some store) (some key) env.norm with
    | .nullName => .error .nullName
    | .absent => .ok (ascii "ERR not found\n")
    | .found e =>
        if e.type = cfgTemplate then
          match cfgExpandTemplate store e env.out.1 with
          | .error mishap => .error mishap
          | .ok (_, out) => .ok (cString out ++ ascii "\n")
        else .ok (ascii "OK\n")

/-- The full ingest: the pushed profile is parsed, merged and freed, and it is
freed whatever the merge says. -/
def ingest (payload : Bytes) : Except Mishap (Server × Bytes) :=
  if fieldOverruns env.parse payload then .error .field
  else
    match Memory.cfgParseBlob residue env.parse payload s.proc.memory with
    | (m, status, some p) =>
        if status = cfgOk then
          match materializeTemplates (m.view p) env.out.1 with
          | some mishap => .error mishap
          | none =>
              let merged := m.cfgMerge residue env.merge (some s.store) (some p)
              .ok (s.withMemory (merged.1.cfgFree (some p)), ascii "OK\n")
        else .ok (s.withMemory m, ascii "ERR parse\n")
    | (m, _, none) => .ok (s.withMemory m, ascii "ERR parse\n")

def handlePush (isTcp : Bool) (payload : Bytes) : Except Mishap (Server × Bytes) :=
  let copied :=
    if isTcp then
      match peekFirstBlob env.parse.arch payload with
      | some blob => cfgReadBlobInline blob
      | none => 0
    else 0
  if copied > scratchSize then .error (.scratch copied) else s.ingest residue env payload

/-- The request is known. -/
def perform (isTcp : Bool) (r : Request) : Except Mishap (Server × Bytes) :=
  if r.op > opPush then .ok (s, ascii "ERR op\n")
  else if isTcp ∧ r.op = opGet then .ok (s, ascii "ERR unsupported\n")
  else if r.op = opGet then (s.handleGet env r.payload).map fun reply => (s, reply)
  else s.handlePush residue env isTcp r.payload

/-- `payload = malloc(...)`, and the bytes that were read. -/
def takePayload (size : Nat) (bytes : Bytes) : Server :=
  let block := s.proc.buffers.next
  { s with proc := { s.proc with
      buffers := (s.proc.buffers.alloc
        (freshBytes (if size = 0 then 1 else size) (residue block))).write block 0 bytes } }

/-- `free(payload);` -/
def freePayload (block : Block) : Server :=
  { s with proc := { s.proc with buffers := s.proc.buffers.release block } }

def serve (isTcp : Bool) (input : Stream) : Except Mishap (Server × Bytes) :=
  match input.takeField Refusal.short (1 + (1 + (2 + 4))) with
  | .error _ => .ok (s, [])
  | .ok header =>
      let op := header.1.split
      let source := op.2.split
      let reserved := source.2.split
      let payloadLen := reserved.2.toNat
      if payloadLen > cascadeMaxPayload then .ok (s, ascii "ERR too big\n")
      else if !env.payload then .ok (s, [])
      else
        let block := s.proc.buffers.next
        match header.2.takeField Refusal.short payloadLen with
        | .error _ => .ok ((s.takePayload residue payloadLen []).freePayload block, [])
        | .ok payload =>
            let s := s.takePayload residue payloadLen payload.1.1
            let bytes := (s.proc.buffers.cell block).take payloadLen
            let r : Request := { op := UInt8.ofNat op.1.toNat, source := UInt8.ofNat source.1.toNat,
                                 reserved := UInt16.ofNat reserved.1.toNat, payload := bytes }
            (s.perform residue env isTcp r).map fun served => (served.1.freePayload block, served.2)

end Requests

/-- The connections one after the other, until a request goes wrong. -/
def serveAll (residue : Block -> Nat -> UInt8) : Server -> List Visit -> Except Mishap (Server × List Bytes)
  | s, [] => .ok (s, [])
  | s, v :: later => do
      let served ← s.serve residue v.env v.isTcp v.s
      let rest ← serveAll residue served.1 later
      return (rest.1, served.2 :: rest.2)

/-- The store in memory stands for this one; besides it there are only these
buffers. -/
def Stores (s : Server) (blocks : List Block) (store : CfgProfile) : Prop :=
  exists root : Root, root.block = s.store ∧ root.profile = store ∧ s.proc.memory.Keeps [] [root] ∧
    Retains s.proc.buffers blocks

/-- A request has the outcome that it has in the list model, or both go wrong
in the same place. -/
inductive Agrees (env : ServiceEnv) (store : CfgProfile) (blocks : List Block) :
    Except Mishap (Server × Bytes) -> Served -> Prop where
  | served {s : Server} {store' : CfgProfile} (stores : s.Stores blocks store') (reply : Bytes) (copied : Nat) :
      Agrees env store blocks (.ok (s, reply)) ⟨store', reply, copied⟩
  | undefined (mishap : Mishap) (copied : Nat) :
      Agrees env store blocks (.error mishap) { env.undefined mishap store with copied }

section Refinement

variable (residue : Block -> Nat -> UInt8) (env : ServiceEnv) {s : Server} {store : CfgProfile} {blocks : List Block}

theorem Stores.answered (stores : s.Stores blocks store) (reply : Bytes) :
    Agrees env store blocks (.ok (s, reply)) (answer store reply) :=
  .served stores reply 0

theorem handleGet_agrees (stores : s.Stores blocks store) (payload : Bytes) :
    Agrees env store blocks ((s.handleGet env payload).map fun reply => (s, reply))
      (Cascade.handleGet env store payload) := by
  have answered := stores.answered env
  have mishap : forall mishap, Agrees env store blocks (.error mishap) (env.undefined mishap store) :=
    fun mishap => .undefined mishap _
  rcases stores with ⟨root, block, rfl, keeps, buffers⟩
  have view : s.proc.memory.view s.store = root.profile := block ▸ keeps.view_eq List.mem_cons_self
  unfold handleGet Cascade.handleGet
  rw [view]
  dsimp only
  split
  · exact mishap _
  · cases cfgLookup (some root.profile) (some (CStr.ofBlock (payload.take 255 ++ [0]))) env.norm with
    | nullName => exact mishap _
    | absent => exact answered _
    | found e =>
        dsimp only
        split
        · cases cfgExpandTemplate root.profile e env.out.1 with
          | error failure => exact mishap failure
          | ok expanded => exact answered _
        · exact answered _

/-- The profile that was pushed is merged and given back, as the list model
says.  A bundle that goes wrong on the way goes wrong there too. -/
theorem ingest_agrees (stores : s.Stores blocks store) (payload : Bytes) :
    Agrees env store blocks (s.ingest residue env payload) (Cascade.ingest env store payload) := by
  rcases stores with ⟨root, block, rfl, keeps, buffers⟩
  have parsed := Memory.cfgParseBlob_parsed env.parse payload residue keeps
  unfold ingest Cascade.ingest
  split
  · exact .undefined _ _
  · generalize Memory.cfgParseBlob residue env.parse payload s.proc.memory = made at parsed ⊢
    generalize Cascade.cfgParseBlob env.parse (some payload) (some none) = list at parsed ⊢
    cases parsed with
    | @refused m _ failure kept =>
        have stored : (s.withMemory m).Stores blocks root.profile := ⟨root, block, rfl, kept, buffers⟩
        exact stored.answered env _
    | @done m pushed kept =>
        dsimp only
        rw [if_pos rfl, if_pos rfl, kept.view_eq List.mem_cons_self]
        cases materializeTemplates pushed.profile env.out.1 with
        | some mishap => exact .undefined _ _
        | none =>
            rcases Memory.cfgMerge_comes residue env.merge (kept.perm (List.Perm.swap ..)) with
              ⟨grown, same, _, list, merged⟩
            dsimp only
            rw [← block]
            generalize Cascade.cfgMerge (some root.profile) (some pushed.profile) env.merge = merge at list ⊢
            rcases merge with ⟨status, base⟩
            cases list
            have freed := (merged.perm (List.Perm.swap ..)).free
            have stored : (s.withMemory (Memory.cfgFree _ (some pushed.block))).Stores blocks grown.profile :=
              ⟨grown, same.trans block, rfl, freed, buffers⟩
            exact .served stored _ 0

theorem handlePush_agrees (stores : s.Stores blocks store) (isTcp : Bool) (payload : Bytes) :
    Agrees env store blocks (s.handlePush residue env isTcp payload)
      (Cascade.handlePush env isTcp store payload) := by
  have ingested := ingest_agrees residue env stores payload
  unfold handlePush Cascade.handlePush
  dsimp only
  generalize (if isTcp = true then _ else 0 : Nat) = count
  by_cases large : count > scratchSize
  · rw [if_pos large, if_pos large]
    exact .undefined _ _
  · rw [if_neg large, if_neg large]
    generalize s.ingest residue env payload = outcome at ingested ⊢
    generalize Cascade.ingest env store payload = list at ingested ⊢
    cases ingested with
    | served stores reply copied => exact .served stores reply _
    | undefined mishap copied => exact .undefined mishap _

theorem perform_agrees (stores : s.Stores blocks store) (isTcp : Bool) (r : Request) :
    Agrees env store blocks (s.perform residue env isTcp r) (Cascade.perform env isTcp store r) := by
  unfold perform Cascade.perform
  split
  · exact stores.answered env _
  · split
    · exact stores.answered env _
    · split
      · exact handleGet_agrees env stores r.payload
      · exact handlePush_agrees residue env stores isTcp r.payload

theorem takeField_error {ε : Type} {input : Stream} {truncated code : ε} {length : Nat}
    (failed : input.takeField truncated length = .error code) : code = truncated := by
  unfold Stream.takeField at failed
  split at failed
  · exact (Except.error.inj failed).symm
  · split at failed
    · cases failed
    · exact (Except.error.inj failed).symm

/-- The payload is in a new block, from which the handlers read it. -/
theorem Stores.takePayload (stores : s.Stores blocks store) {size : Nat} {bytes : Bytes}
    (fits : bytes.length ≤ size) :
    (s.takePayload residue size bytes).Stores (s.proc.buffers.next :: blocks) store := by
  rcases stores with ⟨root, block, profile, keeps, buffers⟩
  have room : bytes.length ≤ if size = 0 then 1 else size := by
    split <;> omega
  exact ⟨root, block, profile, keeps, buffers.freshCopy room _⟩

theorem takePayload_cell {size : Nat} {bytes : Bytes} (whole : bytes.length = size) :
    ((s.takePayload residue size bytes).proc.buffers.cell s.proc.buffers.next).take size = bytes := by
  have room : bytes.length ≤ if size = 0 then 1 else size := by
    split <;> omega
  have cell := freshCopy_cell s.proc.buffers room (residue s.proc.buffers.next)
  exact (congrArg (List.take size) cell).trans (whole ▸ List.take_left)

theorem Stores.freePayload {block : Block} (stores : s.Stores (block :: blocks) store) :
    (s.freePayload block).Stores blocks store := by
  rcases stores with ⟨root, same, profile, keeps, buffers⟩
  exact ⟨root, same, profile, keeps, buffers.release⟩

theorem Agrees.freePayload {block : Block} {outcome : Except Mishap (Server × Bytes)} {served : Served}
    (agrees : Agrees env store (block :: blocks) outcome served) :
    Agrees env store blocks (outcome.map fun served => (served.1.freePayload block, served.2)) served := by
  cases agrees with
  | served stores reply copied => exact .served stores.freePayload reply copied
  | undefined mishap copied => exact .undefined mishap copied

theorem serve_agrees (stores : s.Stores blocks store) (isTcp : Bool) (input : Stream) :
    Agrees env store blocks (s.serve residue env isTcp input) (Cascade.serve env isTcp store input) := by
  unfold serve Cascade.serve receiveRequest
  cases read : input.takeField Refusal.short (1 + (1 + (2 + 4))) with
  | error code =>
      cases takeField_error read
      exact stores.answered env _
  | ok taken =>
      rcases taken with ⟨header, behind⟩
      dsimp only [bind, Except.bind]
      generalize header.split.2.split.2.split.2.toNat = payloadLen
      by_cases big : payloadLen > cascadeMaxPayload
      · rw [if_pos big, failIf, if_pos big]
        exact stores.answered env _
      · rw [if_neg big, failIf, if_neg big]
        cases env.payload with
        | false => exact stores.answered env _
        | true =>
            cases rest : behind.takeField Refusal.short payloadLen with
            | error code =>
                cases takeField_error rest
                exact ((stores.takePayload residue (Nat.zero_le payloadLen)).freePayload).answered env _
            | ok taken =>
                rcases taken with ⟨payload, later⟩
                have same := takePayload_cell residue (s := s) payload.2
                have performed := perform_agrees residue env (stores.takePayload residue payload.2.le) isTcp
                  ⟨UInt8.ofNat header.split.1.toNat, UInt8.ofNat header.split.2.split.1.toNat,
                    UInt16.ofNat header.split.2.split.2.split.1.toNat, payload.1⟩
                dsimp only [failIf, pure, Except.pure]
                rw [if_neg (by decide), if_neg (by decide), same]
                exact performed.freePayload

end Refinement

/-! ## All requests -/

theorem start_stores : Server.start.Stores [] cfgNew :=
  ⟨⟨Memory.empty.profiles.next, [], 0⟩, rfl, rfl, Memory.keeps_empty.new, retains_empty⟩

end Server

/-- One connection in the list model: the store afterwards, and the reply. -/
def visit (store : CfgProfile) (v : Visit) : CfgProfile × Bytes :=
  let served := serve v.env v.isTcp store v.s
  (served.store, served.reply)

/-- The store after these connections in the list model. -/
def storeAfter (store : CfgProfile) (visits : List Visit) : CfgProfile :=
  run (fun store v => (visit store v).1) store visits

/-- The service came through all of these connections, or one of them goes
wrong in the list model too, and the service came through those before it. -/
def Server.Follows (residue : Block -> Nat -> UInt8) (s : Server) (store : CfgProfile) (visits : List Visit) : Prop :=
  match s.serveAll residue visits with
  | .ok (s', sent) => sent = replies visit store visits ∧ s'.Stores [] (storeAfter store visits)
  | .error mishap => exists before v later s' sent copied, visits = before ++ v :: later ∧
      s.serveAll residue before = .ok (s', sent) ∧
      Cascade.serve v.env v.isTcp (storeAfter store before) v.s =
        { v.env.undefined mishap (storeAfter store before) with copied }

/-- The service follows the list model from any store.  The induction is on
the connections. -/
theorem Server.Stores.follows {residue : Block -> Nat -> UInt8} {s : Server} {store : CfgProfile}
    (stores : s.Stores [] store) (visits : List Visit) : s.Follows residue store visits := by
  induction visits generalizing s store with
  | nil => exact ⟨rfl, stores⟩
  | cons v later inductionHypothesis =>
      have agrees := Server.serve_agrees residue v.env stores v.isTcp v.s
      unfold Server.Follows
      rw [Server.serveAll]
      cases agreed : s.serve residue v.env v.isTcp v.s with
      | error mishap =>
          rw [agreed] at agrees
          generalize listed : Cascade.serve v.env v.isTcp store v.s = served at agrees
          cases agrees with
          | undefined mishap copied => exact ⟨[], v, later, s, [], copied, rfl, rfl, listed⟩
      | ok pair =>
          rw [agreed] at agrees
          generalize listed : Cascade.serve v.env v.isTcp store v.s = served at agrees
          cases agrees with
          | @served s' store' stores reply copied =>
              have first : visit store v = (store', reply) := by
                rw [visit, listed]
              have state : forall others, storeAfter store (v :: others) = storeAfter store' others := by
                intro others
                rw [storeAfter, run_cons, first]
                rfl
              have rest := inductionHypothesis stores
              unfold Server.Follows at rest
              dsimp only [bind, Except.bind]
              cases more : s'.serveAll residue later with
              | ok pair =>
                  rw [more] at rest
                  refine ⟨?_, state later ▸ rest.2⟩
                  rw [replies, first]
                  exact congrArg (reply :: ·) rest.1
              | error mishap =>
                  rw [more] at rest
                  rcases rest with ⟨before, last, behind, s'', sent, copied, rfl, earlier, undefined⟩
                  refine ⟨v :: before, last, behind, s'', reply :: sent, copied, rfl, ?_, ?_⟩
                  · rw [Server.serveAll, agreed]
                    dsimp only [bind, Except.bind]
                    rw [earlier]
                    rfl
                  · rw [state before]
                    exact undefined

/-- Whatever is sent to the service, and whichever allocations fail: as long
as no request goes wrong, the replies are those of the list model, the store
in memory stands for its store, and every block that does not belong to the
store has been given back. -/
theorem server_refines (residue : Block -> Nat -> UInt8) (visits : List Visit) :
    Server.start.Follows residue cfgNew visits :=
  Server.start_stores.follows visits

end Cascade
end BugMuseum
