import BugMuseum.Avalanche.CacheFree
import BugMuseum.Avalanche.Threads
import BugMuseum.Avalanche.WireKeys

namespace BugMuseum
namespace Avalanche

open Foundation

/-!
# The blocks of the requests

`cached` once more, with the blocks of its connections beside those of the cache.  A refused
request has released what was read of it, and one that is served releases its key and its value
behind the handler, which releases its own block before.  So between two connections the live
blocks are those of the entries, whatever was sent and whichever allocations failed.

The inline value of the fast path is to fit into its entry.  What the other copies write behind
their blocks is taken to do no harm.
-/

/-- A block for bytes, when there are any.  For a length of zero nothing is
allocated. -/
def mallocUnless (empty : Bool) (blocks : Heap Unit) : Option Block × Heap Unit :=
  if empty then (none, blocks) else (some blocks.next, blocks.alloc ())

/-- A read of such a block. -/
def touchIf (pointer : Option Block) (blocks : Heap Unit) : Heap Unit :=
  match pointer with
  | none => blocks
  | some block => blocks.touch block

/-- A request with what `serve` holds of it under the lock: the block of its
key, and that of its value if there is one. -/
structure HeldRequest where
  request : Request
  key : Block
  value : Option Block

/-- What a handler reads of a request.  Both blocks are live until the handler
is done. -/
def HeldRequest.read (held : HeldRequest) (blocks : Heap Unit) : Heap Unit :=
  (touchIf held.value blocks).touch held.key

/-- The checks and the reads of `serve`, and what each return releases. -/
def readPayloadBlocks (grant : RequestGrant) (header : Header) (blocks : Heap Unit) (input : Bytes) :
    Heap Unit × Except Bytes HeldRequest :=
  if header.op > opStats then (blocks, .error (ascii "ERR op\n"))
  else
    match atMost (ascii "ERR too big\n") header.valueLen avlMaxPayload with
    | .error refusal => (blocks, .error refusal)
    | .ok fits =>
        if header.keyLen ≠ 0 ∧ grant.keyBytes = false then (blocks, .error [])
        else
          let kb := mallocUnless (header.keyLen == 0) blocks
          match takeField [] header.keyLen input with
          | .error refusal => (kb.2.releaseAt kb.1, .error refusal)
          | .ok (bytes, input) =>
              if grant.key = false then (kb.2.releaseAt kb.1, .error [])
              else
                let key := kb.2.next
                let blocks := (touchIf kb.1 (kb.2.alloc ())).releaseAt kb.1
                if header.valueLen ≠ 0 ∧ grant.value = false then (blocks.release key, .error [])
                else
                  let room := mallocUnless (header.valueLen == 0) blocks
                  match takeField [] header.valueLen input with
                  | .error refusal => ((room.2.release key).releaseAt room.1, .error refusal)
                  | .ok (value, _) =>
                      (room.2, .ok
                        { request := { header, key := cstr bytes.1, value, fits := withinPayload header fits }
                          key, value := room.1 })

def readRequestBlocks (grant : RequestGrant) (blocks : Heap Unit) (input : Bytes) :
    Heap Unit × Except Bytes HeldRequest :=
  match takeField [] 8 input with
  | .error refusal => (blocks, .error refusal)
  | .ok (packed, input) => readPayloadBlocks grant (Header.read packed) blocks input

/-- The cache with its blocks, and the blocks of the connections.  A handler
may use both. -/
structure ServerMemory where
  memory : Memory
  blocks : Heap Unit

/-- `handle_set`, with its work buffer on the fast path, which is released
whatever became of the entry. -/
def setBlocks (platform : Platform) (isTcp : Bool) (s : ServerMemory) (r : Request) (grant : RequestGrant) :
    ServerMemory :=
  if r.fast isTcp then
    match grant.work with
    | none => s
    | some residue =>
        let block := s.blocks.next
        let blocks := s.blocks.alloc ()
        let result := applyCodec (codecFor platform.codecs r.codecId) r.value.1
        let size := if r.header.valueLen = 0 then 1 else r.header.valueLen
        let work := overwrite (freshBytes size residue) 0 result.1
        let memory :=
          if result.2 < 0 then (s.memory.cacheInsertEmpty r.key grant.set).1
          else s.memory.setFast platform.overrun r.key work result.2.toNat grant.set
        { memory, blocks := (blocks.touch block).release block }
  else { s with memory := (s.memory.cacheSet r.key r.payload grant.set).1 }

/-- The loops of `handle_stats`; nothing is left when the preview of a null
key is copied. -/
def statsBlocks (verbose : Bool) (grant : RequestGrant) : List Block -> ServerMemory -> Option ServerMemory
  | [], s => some s
  | e :: rest, s =>
      let memory := s.memory.visit e
      let blocks := if grant.line e then (s.blocks.alloc ()).release s.blocks.next else s.blocks
      if verbose && grant.preview e then
        match (s.memory.cache.entry e).key with
        | none => none
        | some _ => statsBlocks verbose grant rest { memory, blocks := (blocks.alloc ()).release blocks.next }
      else statsBlocks verbose grant rest { memory, blocks }

/-- The handlers; no memory is left when the server crashes. -/
def dispatchBlocks (platform : Platform) (isTcp : Bool) (s : ServerMemory) (r : Request) (grant : RequestGrant) :
    Option ServerMemory :=
  let norm := normResidue grant.norm
  if r.header.op = opSet then some (setBlocks platform isTcp s r grant)
  else if r.header.op = opGet then
    (if isTcp then s.memory.cacheGetRaw r.key else s.memory.cacheGet r.key norm grant.norm.isSome).map fun memory =>
      { s with memory }
  else if r.header.op = opDel then
    if isTcp then some s
    else (s.memory.cacheDel r.key norm grant.norm.isSome).map fun memory => { s with memory }
  else statsBlocks (!isTcp && decide (r.header.flags &&& flagVerbose ≠ 0)) grant s.memory.cache.listed s

/-- One connection: its blocks are released behind the handler, in the order
in which the code does it. -/
def serveBlocks (platform : Platform) (isTcp : Bool) (s : ServerMemory) (grant : RequestGrant) (input : Bytes) :
    Option ServerMemory :=
  let read := readRequestBlocks grant s.blocks input
  match read.2 with
  | .error _ => some { s with blocks := read.1 }
  | .ok held =>
      (dispatchBlocks platform isTcp { s with blocks := held.read read.1 } held.request grant).map fun served =>
        { served with blocks := (served.blocks.release held.key).releaseAt held.value }

section Reads

variable {grant : RequestGrant} {blocks : Heap Unit} {held : List Block}

theorem mallocUnless_retains (empty : Bool) (holds : Retains blocks held) :
    Retains (mallocUnless empty blocks).2 ((mallocUnless empty blocks).1.toList ++ held) := by
  cases empty with
  | true => exact holds
  | false => exact holds.alloc ()

theorem touchIf_eq (holds : Retains blocks held) {pointer : Option Block}
    (member : forall block, pointer = some block -> block ∈ held) : touchIf pointer blocks = blocks := by
  cases pointer with
  | none => rfl
  | some block => exact holds.touch_eq (member block rfl)

/-- The blocks of a request that was read, and nothing behind a refusal. -/
def HeldRequest.all : Except Bytes HeldRequest -> List Block
  | .error _ => []
  | .ok r => r.key :: r.value.toList

theorem readPayloadBlocks_retains (header : Header) (input : Bytes) (holds : Retains blocks []) :
    Retains (readPayloadBlocks grant header blocks input).1
      (HeldRequest.all (readPayloadBlocks grant header blocks input).2) := by
  rw [readPayloadBlocks]
  by_cases op : header.op > opStats
  · rw [if_pos op]
    exact holds
  · rw [if_neg op]
    cases atMost (ascii "ERR too big\n") header.valueLen avlMaxPayload with
    | error _ => exact holds
    | ok fits =>
        dsimp only
        by_cases noBytes : header.keyLen ≠ 0 ∧ grant.keyBytes = false
        · rw [if_pos noBytes]
          exact holds
        · rw [if_neg noBytes]
          have copied := mallocUnless_retains (header.keyLen == 0) holds
          generalize mallocUnless (header.keyLen == 0) blocks = kb at copied ⊢
          cases takeField [] header.keyLen input with
          | error _ => exact copied.releaseAt
          | ok bytes =>
              dsimp only
              by_cases noKey : grant.key = false
              · rw [if_pos noKey]
                exact copied.releaseAt
              · rw [if_neg noKey]
                have grown := (copied.alloc ()).perm List.perm_middle.symm
                have keyed := grown.releaseAt
                have own : touchIf kb.1 (kb.2.alloc ()) = kb.2.alloc () :=
                  touchIf_eq grown fun block named => List.mem_append_left _ (Option.mem_toList.mpr named)
                rw [own]
                by_cases noValue : header.valueLen ≠ 0 ∧ grant.value = false
                · rw [if_pos noValue]
                  exact keyed.release
                · rw [if_neg noValue]
                  have valued := (mallocUnless_retains (header.valueLen == 0) keyed).perm
                    (List.perm_append_singleton ..)
                  generalize mallocUnless (header.valueLen == 0) ((kb.2.alloc ()).releaseAt kb.1) = room at valued ⊢
                  cases takeField [] header.valueLen bytes.2 with
                  | error _ =>
                      rw [← List.append_nil room.1.toList] at valued
                      exact valued.release.releaseAt
                  | ok value => exact valued

theorem readRequestBlocks_retains (input : Bytes) (holds : Retains blocks []) :
    Retains (readRequestBlocks grant blocks input).1 (HeldRequest.all (readRequestBlocks grant blocks input).2) := by
  rw [readRequestBlocks]
  cases takeField [] 8 input with
  | error _ => exact holds
  | ok packed => exact readPayloadBlocks_retains _ _ holds

theorem readPayloadBlocks_eq (header : Header) (input : Bytes) :
    (readPayloadBlocks grant header blocks input).2.map HeldRequest.request = readPayload grant header input := by
  rw [readPayloadBlocks, readPayload]
  dsimp only [bind, Except.bind, failIf]
  by_cases op : header.op > opStats
  · rw [if_pos op, if_pos op]
    rfl
  · rw [if_neg op, if_neg op]
    dsimp only
    cases atMost (ascii "ERR too big\n") header.valueLen avlMaxPayload with
    | error _ => rfl
    | ok fits =>
        dsimp only
        by_cases noBytes : header.keyLen ≠ 0 ∧ grant.keyBytes = false
        · rw [if_pos noBytes, if_pos noBytes]
          rfl
        · rw [if_neg noBytes, if_neg noBytes]
          dsimp only
          cases takeField [] header.keyLen input with
          | error _ => rfl
          | ok bytes =>
              dsimp only
              by_cases noKey : grant.key = false
              · rw [if_pos noKey, if_pos noKey]
                rfl
              · rw [if_neg noKey, if_neg noKey]
                dsimp only
                by_cases noValue : header.valueLen ≠ 0 ∧ grant.value = false
                · rw [if_pos noValue, if_pos noValue]
                  rfl
                · rw [if_neg noValue, if_neg noValue]
                  dsimp only
                  cases takeField [] header.valueLen bytes.2 with
                  | error _ => rfl
                  | ok value => rfl

theorem readRequestBlocks_eq (input : Bytes) :
    (readRequestBlocks grant blocks input).2.map HeldRequest.request = readRequest grant input := by
  rw [readRequestBlocks, readRequest]
  dsimp only [bind, Except.bind]
  cases takeField [] 8 input with
  | error _ => rfl
  | ok packed => exact readPayloadBlocks_eq _ _

end Reads

/-! ## The handlers -/

/-- The cache is in use, and these are the blocks of the connection.  Between
two connections there are none. -/
structure Stable (s : ServerMemory) (held : List Block) : Prop where
  memory : s.memory.Kept False
  blocks : Retains s.blocks held

/-- The run is that of the server without blocks, and it is stable.  It ends
exactly when there is a reply. -/
structure RunsAs (outcome : Cache × Option Bytes) (held : List Block) (run : Option ServerMemory) : Prop where
  ends : run = none ↔ outcome.2 = none
  stable : forall s, run = some s -> Stable s held ∧ s.memory.cache = outcome.1

/-- The value of the fast path fits into its entry, so the copy stays away
from the links. -/
def FitsInline (platform : Platform) (isTcp : Bool) (r : Request) : Prop :=
  r.fast isTcp -> (applyCodec (codecFor platform.codecs r.codecId) r.value.1).2 ≤ smallSize

section Handlers

variable {platform : Platform} {isTcp : Bool} {s : ServerMemory} {r : Request} {grant : RequestGrant}
  {held : List Block}

theorem RunsAs.of_some {c : Cache} {served : ServerMemory} (reply : Bytes) (stable : Stable served held)
    (cache : served.memory.cache = c) : RunsAs (c, some reply) held (some served) where
  ends := iff_of_false (Option.some_ne_none _) (Option.some_ne_none _)
  stable := by
    rintro _ ⟨⟩
    exact ⟨stable, cache⟩

theorem setBlocks_serves (inline : FitsInline platform isTcp r) (stable : Stable s held) :
    Stable (setBlocks platform isTcp s r grant) held ∧
      (setBlocks platform isTcp s r grant).memory.cache = (handleSet platform isTcp s.memory.cache r grant).1 := by
  rcases stable.memory with ⟨rows, keeps⟩
  rw [setBlocks, handleSet]
  by_cases fast : r.fast isTcp
  · rw [if_pos fast, if_pos fast]
    cases grant.work with
    | none => exact ⟨stable, rfl⟩
    | some residue =>
        have fits := inline fast
        have worked := stable.blocks.alloc ()
        have inserted := Memory.cacheInsertEmpty_cache s.memory r.key grant.set
        dsimp only
        rw [worked.touch_eq List.mem_cons_self]
        generalize applyCodec (codecFor platform.codecs r.codecId) r.value.1 = result at fits ⊢
        by_cases negative : result.2 < 0
        · refine ⟨⟨?_, worked.release⟩, ?_⟩
          · dsimp only
            rw [if_pos negative]
            exact keeps.cacheInsertEmpty r.key fun impossible => impossible.elim
          · rw [if_pos negative, inserted.1]
            split
            · rfl
            · rw [if_pos negative]
        · refine ⟨⟨?_, worked.release⟩, ?_⟩
          · dsimp only
            rw [if_neg negative]
            exact keeps.setFast platform.overrun r.key _ (by omega) fun impossible => impossible.elim
          · rw [if_neg negative, Memory.setFast_cache]
            cases (cacheInsertEmpty s.memory.cache (some r.key) grant.set).2 with
            | none => rfl
            | some e =>
                dsimp only
                rw [if_neg negative]
  · rw [if_neg fast, if_neg fast]
    exact ⟨⟨keeps.cacheSet _ _ fun impossible => impossible.elim, stable.blocks⟩, Memory.cacheSet_cache ..⟩

/-- A handler that leaves the blocks of the connection alone runs as the
server does, if the cache does. -/
theorem RunsAs.of_memory {outcome : Cache × Option Bytes} {memory : Option Memory} (blocks : Retains s.blocks held)
    (kept : forall m, memory = some m -> m.Kept False)
    (cache : memory.map Memory.cache = outcome.2.map fun _ => outcome.1) :
    RunsAs outcome held (memory.map fun memory => { s with memory }) where
  ends := by
    have same := congrArg Option.isNone cache
    rw [Option.isNone_map, Option.isNone_map] at same
    rw [Option.map_eq_none_iff, ← Option.isNone_iff_eq_none, same, Option.isNone_iff_eq_none]
  stable := by
    intro served run
    rcases Option.map_eq_some_iff.mp run with ⟨m, rfl, rfl⟩
    rcases Option.map_eq_some_iff.mp cache.symm with ⟨reply, _, same⟩
    exact ⟨⟨kept m rfl, blocks⟩, same.symm⟩

theorem getReply_runs (c : Cache) (search : Search) :
    (match search with
      | .nullKey => none
      | _ => some c) = (getReply c search).map fun _ => c := by
  cases search <;> rfl

theorem entryLines_eq_none_iff {verbose : Bool} {c : Cache} {e : Block} :
    entryLines verbose c grant e = none ↔ (verbose && grant.preview e) = true ∧ (c.entry e).key = none := by
  rw [entryLines]
  cases verbose <;> cases grant.preview e <;> simp

theorem mapM_cons_eq_none_iff {α β : Type} {f : α -> Option β} {first : α} {rest : List α} :
    (first :: rest).mapM f = none ↔ f first = none ∨ rest.mapM f = none := by
  rw [List.mapM_cons]
  cases f first with
  | none => simp
  | some _ => cases rest.mapM f <;> simp

/-- The lines are released one by one, and the entries are live.  The
induction is on the entries listed. -/
theorem statsBlocks_serves (verbose : Bool) {nodes : List Block}
    (visited : forall e, e ∈ nodes -> s.memory.visit e = s.memory) (stable : Stable s held) :
    (statsBlocks verbose grant nodes s = none ↔ nodes.mapM (entryLines verbose s.memory.cache grant) = none) ∧
      forall served, statsBlocks verbose grant nodes s = some served ->
        Stable served held ∧ served.memory = s.memory := by
  induction nodes generalizing s with
  | nil =>
      refine ⟨iff_of_false (Option.some_ne_none _) (Option.some_ne_none _), ?_⟩
      rintro _ ⟨⟩
      exact ⟨stable, rfl⟩
  | cons e rest inductionHypothesis =>
      rw [statsBlocks, mapM_cons_eq_none_iff, entryLines_eq_none_iff, visited e List.mem_cons_self]
      have others : forall other, other ∈ rest -> s.memory.visit other = s.memory := fun other member =>
        visited other (List.mem_cons_of_mem e member)
      have line : Retains (if grant.line e then (s.blocks.alloc ()).release s.blocks.next else s.blocks) held := by
        split
        · exact (stable.blocks.alloc ()).release
        · exact stable.blocks
      generalize (if grant.line e then (s.blocks.alloc ()).release s.blocks.next else s.blocks) = blocks at line ⊢
      by_cases printed : (verbose && grant.preview e) = true
      · rw [if_pos printed]
        cases (s.memory.cache.entry e).key with
        | none => exact ⟨iff_of_true rfl (Or.inl ⟨printed, rfl⟩), fun _ impossible => by cases impossible⟩
        | some copy =>
            have later := @inductionHypothesis { s with blocks := (blocks.alloc ()).release blocks.next } others
              ⟨stable.memory, (line.alloc ()).release⟩
            refine ⟨later.1.trans ⟨Or.inr, fun either => either.resolve_left ?_⟩, later.2⟩
            exact fun null => Option.some_ne_none copy null.2
      · rw [if_neg printed]
        have later := @inductionHypothesis { s with blocks } others ⟨stable.memory, line⟩
        exact ⟨later.1.trans ⟨Or.inr, fun either => either.resolve_left fun null => printed null.1⟩, later.2⟩

theorem handleStats_eq_none_iff {c : Cache} :
    handleStats isTcp c r grant = none ↔
      c.listed.mapM (entryLines (!isTcp && decide (r.header.flags &&& flagVerbose ≠ 0)) c grant) = none := by
  rw [handleStats]
  cases c.listed.mapM (entryLines (!isTcp && decide (r.header.flags &&& flagVerbose ≠ 0)) c grant) with
  | none => exact iff_of_true rfl rfl
  | some lines => exact iff_of_false (Option.some_ne_none _) (Option.some_ne_none _)

theorem dispatchBlocks_serves (inline : r.header.op = opSet -> FitsInline platform isTcp r) (stable : Stable s held) :
    RunsAs (dispatch platform isTcp s.memory.cache r grant) held (dispatchBlocks platform isTcp s r grant) := by
  rcases stable.memory with ⟨rows, keeps⟩
  rw [dispatch, dispatchBlocks]
  by_cases isSet : r.header.op = opSet
  · rw [if_pos isSet, if_pos isSet]
    have set := @setBlocks_serves platform isTcp s r grant held (inline isSet) stable
    exact .of_some _ set.1 set.2
  rw [if_neg isSet, if_neg isSet]
  by_cases isGet : r.header.op = opGet
  · rw [if_pos isGet, if_pos isGet, handleGet]
    cases isTcp with
    | false =>
        refine .of_memory stable.blocks (fun m ended => keeps.cacheGet _ _ _ ended) ?_
        exact (keeps.cacheGet_cache ..).trans (getReply_runs ..)
    | true =>
        refine .of_memory stable.blocks (fun m ended => keeps.cacheGetRaw _ ended) ?_
        exact (keeps.cacheGetRaw_cache ..).trans (getReply_runs ..)
  rw [if_neg isGet, if_neg isGet]
  by_cases isDel : r.header.op = opDel
  · rw [if_pos isDel, if_pos isDel, handleDel]
    cases isTcp with
    | false =>
        refine .of_memory stable.blocks (fun m ended => keeps.cacheDel _ _ _ ended) ?_
        simp only [Bool.false_eq_true, if_false, Option.map_map]
        exact keeps.cacheDel_cache ..
    | true => exact .of_some _ stable rfl
  rw [if_neg isDel, if_neg isDel]
  have lines := @statsBlocks_serves s grant held (!isTcp && decide (r.header.flags &&& flagVerbose ≠ 0)) _
    (fun e listed => keeps.visit_listed listed) stable
  refine ⟨lines.1.trans handleStats_eq_none_iff.symm, fun served run => ?_⟩
  have listed := lines.2 served run
  exact ⟨listed.1, congrArg Memory.cache listed.2⟩

end Handlers

/-- A connection: its transport, the outcomes of its allocations, and all that
is sent. -/
structure Incoming where
  isTcp : Bool
  grant : RequestGrant
  input : Bytes

def Incoming.FitsInline (platform : Platform) (incoming : Incoming) : Prop :=
  forall r, r ∈ (readRequest incoming.grant incoming.input).toOption -> r.header.op = opSet ->
    Avalanche.FitsInline platform incoming.isTcp r

instance (platform : Platform) (isTcp : Bool) (r : Request) : Decidable (FitsInline platform isTcp r) :=
  inferInstanceAs (Decidable (_ -> _))

instance (platform : Platform) (incoming : Incoming) : Decidable (incoming.FitsInline platform) :=
  inferInstanceAs (Decidable (forall r, r ∈ (readRequest incoming.grant incoming.input).toOption -> _))

/-- The connections one after the other, until the server crashes. -/
def serveEach (platform : Platform) : List Incoming -> Cache -> Option Cache
  | [], c => some c
  | first :: rest, c =>
      let served := serve platform first.isTcp c first.grant first.input
      served.2.bind fun _ => serveEach platform rest served.1

def serveEachBlocks (platform : Platform) : List Incoming -> ServerMemory -> Option ServerMemory
  | [], s => some s
  | first :: rest, s =>
      (serveBlocks platform first.isTcp s first.grant first.input).bind (serveEachBlocks platform rest)

section Connections

variable {platform : Platform} {s : ServerMemory}

theorem HeldRequest.settled (held : HeldRequest) {blocks : Heap Unit}
    (holds : Retains blocks (HeldRequest.all (.ok held))) :
    Retains ((blocks.release held.key).releaseAt held.value) [] := by
  rw [HeldRequest.all, ← List.append_nil held.value.toList] at holds
  exact holds.release.releaseAt

theorem HeldRequest.read_eq (held : HeldRequest) {blocks : Heap Unit}
    (holds : Retains blocks (HeldRequest.all (.ok held))) : held.read blocks = blocks := by
  have value : touchIf held.value blocks = blocks :=
    touchIf_eq holds fun block own => List.mem_cons_of_mem held.key (Option.mem_toList.mpr own)
  rw [HeldRequest.read, value, holds.touch_eq List.mem_cons_self]

theorem serveBlocks_serves {incoming : Incoming} (inline : incoming.FitsInline platform) (stable : Stable s []) :
    RunsAs (serve platform incoming.isTcp s.memory.cache incoming.grant incoming.input) []
      (serveBlocks platform incoming.isTcp s incoming.grant incoming.input) := by
  have reads := @readRequestBlocks_eq incoming.grant s.blocks incoming.input
  have holds := @readRequestBlocks_retains incoming.grant s.blocks incoming.input stable.blocks
  rw [Incoming.FitsInline, ← reads] at inline
  rw [serveBlocks, serve, ← reads]
  generalize readRequestBlocks incoming.grant s.blocks incoming.input = read at inline holds ⊢
  rcases read with ⟨blocks, refusal | held⟩
  · exact .of_some refusal ⟨stable.memory, holds⟩ rfl
  · dsimp only at holds ⊢
    rw [held.read_eq holds]
    have served := @dispatchBlocks_serves platform incoming.isTcp { s with blocks } held.request incoming.grant _
      (inline held.request rfl) ⟨stable.memory, holds⟩
    refine ⟨Option.map_eq_none_iff.trans served.ends, fun settled run => ?_⟩
    rcases Option.map_eq_some_iff.mp run with ⟨before, handled, rfl⟩
    have after := served.stable before handled
    exact ⟨⟨after.1.memory, held.settled after.1.blocks⟩, after.2⟩

/-- Between the connections no block of theirs is left, and the cache is that
of the server. -/
theorem serveEachBlocks_stable {incoming : List Incoming}
    (inline : forall each, each ∈ incoming -> each.FitsInline platform) (stable : Stable s []) :
    (serveEachBlocks platform incoming s).map (fun s => s.memory.cache) = serveEach platform incoming s.memory.cache ∧
      forall served, serveEachBlocks platform incoming s = some served -> Stable served [] := by
  induction incoming generalizing s with
  | nil =>
      refine ⟨rfl, ?_⟩
      rintro _ ⟨⟩
      exact stable
  | cons first rest inductionHypothesis =>
      have step := serveBlocks_serves (inline first List.mem_cons_self) stable
      rw [serveEachBlocks, serveEach]
      generalize serve platform first.isTcp s.memory.cache first.grant first.input = outcome at step ⊢
      cases run : serveBlocks platform first.isTcp s first.grant first.input with
      | none =>
          rw [step.ends.mp run]
          exact ⟨rfl, fun _ impossible => by cases impossible⟩
      | some next =>
          have stepped := step.stable next run
          rcases Option.ne_none_iff_exists'.mp fun crashed => Option.some_ne_none next
            (run.symm.trans (step.ends.mpr crashed)) with ⟨reply, answered⟩
          rw [answered, ← stepped.2]
          exact inductionHypothesis (fun each member => inline each (List.mem_cons_of_mem first member)) stepped.1

/-- A server that is asked anything by any number of clients leaks nothing:
behind each connection the live blocks are those that `CacheFree` would give
back. -/
theorem cached_returns {nbuckets : UInt32} {start : Memory}
    (made : (Memory.cacheNew nbuckets true true).2 = some start) {incoming : List Incoming}
    (inline : forall each, each ∈ incoming -> each.FitsInline platform) :
    (serveEachBlocks platform incoming ⟨start, .empty⟩).map (fun s => s.memory.cache) =
        serveEach platform incoming start.cache ∧
      forall served, serveEachBlocks platform incoming ⟨start, .empty⟩ = some served ->
        Retains served.blocks [] ∧ served.memory.cacheFree.Clean := by
  have begun : Stable ⟨start, .empty⟩ [] := ⟨Memory.kept_cacheNew made, retains_empty⟩
  have stable := serveEachBlocks_stable inline begun
  refine ⟨stable.1, fun served run => ?_⟩
  have kept := stable.2 served run
  rcases kept.memory with ⟨rows, keeps⟩
  exact ⟨kept.blocks, keeps.free⟩

end Connections

/-- A value over TCP, and its deletion over the pipe. -/
def fastThenDel : List Incoming :=
  [⟨true, allGranted, encodeRequest opSet flagFast [107] [5, 6]⟩,
    ⟨false, allGranted, encodeRequest opDel 0 [107] []⟩]

def twoBuckets : Memory :=
  (Memory.cacheNew 2 true true).2.get rfl

theorem fastThenDel_returns :
    (serveEachBlocks bare fastThenDel ⟨twoBuckets, .empty⟩).map (fun s => (s.memory.cache.count, s.blocks.next)) =
        some (0, 6) ∧
      forall served, serveEachBlocks bare fastThenDel ⟨twoBuckets, .empty⟩ = some served ->
        Retains served.blocks [] ∧ served.memory.cacheFree.Clean :=
  ⟨by decide, (cached_returns (Option.some_get rfl).symm (by decide)).2⟩

end Avalanche
end BugMuseum
