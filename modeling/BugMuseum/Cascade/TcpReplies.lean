import Mathlib.Data.List.Forall2
import BugMuseum.Cascade.PushPaths

namespace BugMuseum
namespace Cascade

open Foundation

/-!
# What a TCP client learns

A TCP client can only push, and the reply to a push says whether its bundle could be
read.  The templates are expanded inside the bundle, not inside the live store, and
the outcome of the merge is dropped.  So two services answer the same bytes in the same
way, whatever their stores hold, whatever is left on their stacks and behind the
payload, and whatever happens on the pipe in between.

This ends where a request leaves the bounds of a buffer.  The three conditions of
`FitsBuffers` exclude that.
-/

/-- Nothing in a payload is too long for the buffer that a push copies it to:
the first blob, the numbers, and the lines of the templates. -/
structure FitsBuffers (env : ParseEnv) (payload : Bytes) : Prop where
  blob : FirstBlobFits env.arch payload
  ints : fieldOverruns env payload = false
  templates : forall p, parseBundle env payload = .ok p -> forall e, e ∈ p.head -> e.type = cfgTemplate ->
    forall value text, e.value = some value -> resolve p value = some text -> (cString text).length < lineSize

/-- Two entries with the same texts.  Their numbers may differ, as the number
of an entry is decoded from more than the entry. -/
structure SameText (e e' : CfgEntry) : Prop where
  name : e'.name = e.name
  type : e'.type = e.type
  valueLen : e'.valueLen = e.valueLen
  value : e'.value = e.value

/-- The name of every entry is there. -/
def AllNamed (entries : List CfgEntry) : Prop :=
  forall e, e ∈ entries -> e.name ≠ none

/-- Two profiles with the same texts, all of them under a name.  Expansions
read no more of a profile than that. -/
structure SameTexts (p p' : CfgProfile) : Prop where
  entries : List.Forall₂ SameText p.head p'.head
  named : AllNamed p.head

theorem findFrom_sameText {entries entries' : List CfgEntry} (same : List.Forall₂ SameText entries entries')
    (named : AllNamed entries) (key : Bytes) :
    (findFrom key entries = .absent ∧ findFrom key entries' = .absent) ∨
      exists e e', findFrom key entries = .found e ∧ findFrom key entries' = .found e' ∧ SameText e e' := by
  induction same with
  | nil => exact Or.inl ⟨rfl, rfl⟩
  | cons first later inductionHypothesis =>
      rename_i e e' rest rest'
      have laterNamed : AllNamed rest := fun other member => named other (List.mem_cons_of_mem e member)
      rw [findFrom, findFrom, first.name]
      cases present : e.name with
      | none => exact absurd present (named e List.mem_cons_self)
      | some name =>
          dsimp only
          by_cases matching : name.1 = key
          · rw [if_pos matching, if_pos matching]
            exact Or.inr ⟨e, e', rfl, rfl, first⟩
          · rw [if_neg matching, if_neg matching]
            exact inductionHypothesis laterNamed

/-- The expansion reads names and values only, and it meets no entry without a
name. -/
theorem resolveFrom_sameTexts {p p' : CfgProfile} (same : SameTexts p p') (s : Bytes) (fuel i : Nat)
    (resolved : Bytes) : exists text,
      resolveFrom p s fuel i resolved = some text ∧ resolveFrom p' s fuel i resolved = some text := by
  induction fuel generalizing i resolved with
  | zero => exact ⟨resolved, rfl, rfl⟩
  | succ fuel inductionHypothesis =>
      rw [resolveFrom, resolveFrom]
      split
      · dsimp only
        split
        · rcases findFrom_sameText same.entries same.named
            (slice s (i + 2) (closingFrom s s.length (i + 2) - (i + 2))) with
            ⟨absent, absent'⟩ | ⟨e, e', found, found', sameEntry⟩
          · rw [findEntry, findEntry, absent, absent']
            exact inductionHypothesis _ _
          · rw [findEntry, findEntry, found, found']
            dsimp only
            rw [sameEntry.value]
            exact inductionHypothesis _ _
        · exact inductionHypothesis _ _
      · exact ⟨resolved, rfl, rfl⟩

/-- The same build, and the same outcomes of the allocations.  The bytes
behind the payload and on the stack may differ. -/
structure ParseEnv.SameOutcomes (env env' : ParseEnv) : Prop where
  arch : env'.arch = env.arch
  profile : env'.profile = env.profile
  grant : env'.grant = env.grant

section TwoPlaces

variable {env env' : ParseEnv} {data : Bytes}

theorem storeEntry_sameText (same : env.SameOutcomes env') (i : Nat) (name : Bytes) (type : UInt8)
    (value : Bytes) (off : Nat) :
    Agrees (fun e e' => SameText e e' ∧ e.name ≠ none) (storeEntry env data i name type value off)
      (storeEntry env' data i name type value off) := by
  unfold storeEntry
  rw [same.grant]
  apply Agrees.bind_failIf
  intro _
  apply Agrees.bind_failIf
  intro _
  dsimp only
  split
  · exact .read ⟨⟨rfl, rfl, rfl, rfl⟩, Option.some_ne_none _⟩
  · apply Agrees.bind_failIf
    intro _
    exact .read ⟨⟨rfl, rfl, rfl, rfl⟩, Option.some_ne_none _⟩

/-- What two parsed entries and the offsets behind them have in common. -/
structure SameStep (data : Bytes) (left right : CfgEntry × Nat) : Prop where
  entry : SameText left.1 right.1
  named : left.1.name ≠ none
  off : right.2 = left.2
  inside : left.2 ≤ data.length

theorem parseEntry_sameText (same : env.SameOutcomes env') (short : data.length < 2 ^ 31) (i : Nat) {off : Nat}
    (inside : off ≤ data.length) :
    Agrees (SameStep data) (parseEntry env data i off) (parseEntry env' data i off) := by
  have noMod := fun {n} => mod_sizeModulus env.arch (n := n)
  unfold parseEntry
  rw [same.arch]
  dsimp only
  apply Agrees.bind_failIf
  intro nameLenInside
  apply Agrees.bind_failIf
  intro nameLimit
  simp only [cprofMaxName] at nameLimit
  rw [noMod (by omega : off + 2 < 2 ^ 32)] at nameLenInside ⊢
  apply Agrees.bind_failIf
  intro nameInside
  rw [noMod (by omega : off + 2 + rdU16 data off < 2 ^ 32)] at nameInside ⊢
  apply Agrees.bind_failIf
  intro typeInside
  rw [noMod (by omega : off + 2 + rdU16 data off + 1 < 2 ^ 32)] at typeInside ⊢
  apply Agrees.bind_failIf
  intro valueLenInside
  rw [noMod (by omega : off + 2 + rdU16 data off + 1 + 4 < 2 ^ 32)] at valueLenInside ⊢
  apply Agrees.bind_failIf
  intro valueLimit
  simp only [cprofMaxValue] at valueLimit
  apply Agrees.bind_failIf
  intro valueInside
  have typeByte : forall env : ParseEnv, env.byteAt data (off + 2 + rdU16 data off) =
      (slice data (off + 2 + rdU16 data off) 1).headD 0 :=
    fun env => env.byteAt_inside (Nat.not_lt.mp typeInside)
  rw [typeByte, typeByte]
  apply (storeEntry_sameText same i _ _ _ _).bind
  rintro e e' ⟨sameText, named⟩
  exact .read ⟨sameText, named, rfl, Nat.not_lt.mp valueInside⟩

/-- The profiles that two parsers have come to.  The induction is on the
number of entries that are left. -/
theorem parseEntries_sameTexts (same : env.SameOutcomes env') (short : data.length < 2 ^ 31) (left i : Nat)
    {off : Nat} (inside : off ≤ data.length) {p p' : CfgProfile} (soFar : SameTexts p p') :
    Agrees SameTexts (parseEntries env data left i off p) (parseEntries env' data left i off p') := by
  induction left generalizing i off p p' with
  | zero => exact .read soFar
  | succ left inductionHypothesis =>
      unfold parseEntries
      apply (parseEntry_sameText same short i inside).bind
      rintro ⟨e, next⟩ ⟨e', _⟩ ⟨entry, named, rfl, nextInside⟩
      apply inductionHypothesis (i + 1) nextInside
      constructor
      · rw [appendEntry_head, appendEntry_head]
        exact List.rel_append soFar.entries (.cons entry .nil)
      · intro other member
        rw [appendEntry_head] at member
        rcases List.mem_append.mp member with earlier | last
        · exact soFar.named other earlier
        · exact List.mem_singleton.mp last ▸ named

theorem sameTexts_cfgNew : SameTexts cfgNew cfgNew where
  entries := .nil
  named := fun _ impossible => absurd impossible List.not_mem_nil

/-- A payload is read in both places or in neither, and with the same
texts. -/
theorem parseBundle_sameTexts (same : env.SameOutcomes env') (short : data.length < 2 ^ 31) :
    Agrees SameTexts (parseBundle env data) (parseBundle env' data) := by
  unfold parseBundle
  rw [same.profile]
  apply Agrees.bind_failIf
  intro whole
  apply Agrees.bind_failIf
  intro _
  apply Agrees.bind_failIf
  intro _
  apply Agrees.bind_failIf
  intro _
  apply Agrees.bind_failIf
  intro _
  exact parseEntries_sameTexts same short _ 0 (Nat.not_lt.mp whole) sameTexts_cfgNew

/-- A number is too long in both places or in neither. -/
theorem fieldOverrunsFrom_same (same : env.SameOutcomes env') (short : data.length < 2 ^ 31) (left i : Nat)
    {off : Nat} (inside : off ≤ data.length) :
    fieldOverrunsFrom env' data left i off = fieldOverrunsFrom env data left i off := by
  induction left generalizing i off with
  | zero => rfl
  | succ left inductionHypothesis =>
      rw [fieldOverrunsFrom, fieldOverrunsFrom]
      rcases (parseEntry_sameText same short i inside).outcome with
        ⟨code, failed, failed'⟩ | ⟨⟨e, next⟩, ⟨e', _⟩, parsed, parsed', ⟨entry, _, rfl, nextInside⟩⟩
      · rw [failed, failed']
      · rw [parsed, parsed']
        dsimp only at entry nextInside ⊢
        rw [entry.type, entry.valueLen, inductionHypothesis (i + 1) nextInside]

theorem fieldOverruns_same (same : env.SameOutcomes env') (short : data.length < 2 ^ 31) :
    fieldOverruns env' data = fieldOverruns env data := by
  rw [fieldOverruns, fieldOverruns, same.profile]
  split
  · rfl
  · rename_i accepted
    simp only [not_or, Nat.not_lt] at accepted
    exact fieldOverrunsFrom_same same short _ 0 accepted.1

/-- A payload fits in both places or in neither. -/
theorem FitsBuffers.same (fits : FitsBuffers env data) (same : env.SameOutcomes env') (short : data.length < 2 ^ 31) :
    FitsBuffers env' data where
  blob := by
    rw [same.arch]
    exact fits.blob
  ints := (fieldOverruns_same same short).trans fits.ints
  templates := by
    intro p' parsed' e' member template value text holds resolved
    rcases (parseBundle_sameTexts same short).outcome with ⟨_, _, impossible⟩ | ⟨p, q, parsed, found, texts⟩
    · rw [parsed'] at impossible
      cases impossible
    · rw [parsed'] at found
      cases found
      rcases List.forall₂_iff_get.mp texts.entries with ⟨lengths, each⟩
      rcases List.mem_iff_get.mp member with ⟨index, rfl⟩
      have entry := each index.1 (lengths.symm ▸ index.2) index.2
      rcases resolveFrom_sameTexts texts value value.length 0 [] with ⟨other, before, after⟩
      have sameText : text = other := Option.some.inj (resolved.symm.trans after)
      rw [sameText]
      exact fits.templates p parsed _ (List.get_mem _ _) (entry.type.symm.trans template) value other
        (entry.value.symm.trans holds) before

end TwoPlaces

theorem materializeFrom_expands {p : CfgProfile} {out : Bytes} {entries : List CfgEntry}
    (expands : forall e, e ∈ entries -> e.type = cfgTemplate ->
      exists result, cfgExpandTemplate p e out = .ok result) : materializeFrom p out entries = none := by
  induction entries with
  | nil => rfl
  | cons e later inductionHypothesis =>
      have rest := inductionHypothesis fun other member => expands other (List.mem_cons_of_mem e member)
      rw [materializeFrom]
      split
      · rename_i template
        rcases expands e List.mem_cons_self template with ⟨result, expanded⟩
        rw [expanded]
        exact rest
      · exact rest

/-- The expansions stay inside their buffers, so the push goes on to its
merge. -/
theorem materializeTemplates_fits {env : ParseEnv} {payload : Bytes} {p : CfgProfile} (out : Bytes)
    (fits : FitsBuffers env payload) (parsed : parseBundle env payload = .ok p) (named : AllNamed p.head) :
    materializeTemplates p out = none := by
  have texts : SameTexts p p := ⟨List.forall₂_same.mpr fun e _ => ⟨rfl, rfl, rfl, rfl⟩, named⟩
  apply materializeFrom_expands
  intro e member template
  rw [cfgExpandTemplate]
  cases holds : e.value with
  | none => exact ⟨_, rfl⟩
  | some value =>
      rcases resolveFrom_sameTexts texts value value.length 0 [] with ⟨text, resolved, _⟩
      have small := fits.templates p parsed e member template value text holds resolved
      dsimp only
      rw [resolve, resolved]
      exact ⟨_, if_pos small⟩

/-- What the reply to a request over TCP says.  The store does not enter into
it. -/
def tcpAnswer (env : ParseEnv) (r : Request) : Bytes :=
  if r.op > opPush then ascii "ERR op\n"
  else if r.op = opGet then ascii "ERR unsupported\n"
  else
    match parseBundle env r.payload with
    | .error _ => ascii "ERR parse\n"
    | .ok _ => ascii "OK\n"

/-- The reply to a push says whether the bundle could be read. -/
theorem ingest_reply {env : ServiceEnv} {payload : Bytes} (fits : FitsBuffers env.parse payload)
    (short : payload.length < 2 ^ 31) (store : CfgProfile) :
    (ingest env store payload).reply =
      match parseBundle env.parse payload with
      | .error _ => ascii "ERR parse\n"
      | .ok _ => ascii "OK\n" := by
  rw [ingest, fits.ints, if_neg Bool.false_ne_true, cfgParseBlob]
  cases parsed : parseBundle env.parse payload with
  | error code => rfl
  | ok p =>
      have same : env.parse.SameOutcomes env.parse := ⟨rfl, rfl, rfl⟩
      rcases (parseBundle_sameTexts same short).outcome with ⟨_, impossible, _⟩ | ⟨q, _, found, _, texts⟩
      · rw [parsed] at impossible
        cases impossible
      · rw [parsed] at found
        cases found
        dsimp only
        rw [if_pos rfl, materializeTemplates_fits env.out.1 fits parsed texts.named]
        rfl

/-- The policy of the transport comes before the store, and so the reply to a
GET does not depend on it either. -/
theorem perform_reply {env : ServiceEnv} {r : Request} (fits : FitsBuffers env.parse r.payload)
    (short : r.payload.length < 2 ^ 31) (store : CfgProfile) :
    (perform env true store r).reply = tcpAnswer env.parse r := by
  rw [perform, tcpAnswer]
  split
  · rfl
  · by_cases get : r.op = opGet
    · rw [if_pos ⟨rfl, get⟩, if_pos get]
      rfl
    · rcases handlePush_tcp short fits.blob store with ⟨copied, _, pushed⟩
      rw [if_neg fun both => get both.2, if_neg get, if_neg get, pushed]
      exact ingest_reply fits short store

/-- The request that some bytes hold, and the bytes behind it. -/
def readRequest (memory : Bool) (input : Bytes) : Except Refusal (Request × Bytes) := do
  let header ← takeField .short (1 + (1 + (2 + 4))) input
  let op := header.1.split
  let source := op.2.split
  let reserved := source.2.split
  let payloadLen := reserved.2.toNat
  failIf .big (payloadLen > cascadeMaxPayload)
  failIf .memory (memory = false)
  let payload ← takeField .short payloadLen header.2
  return ({ op := UInt8.ofNat op.1.toNat, source := UInt8.ofNat source.1.toNat,
            reserved := UInt16.ofNat reserved.1.toNat, payload := payload.1.1 }, payload.2)

theorem receiveRequest_agrees (memory : Bool) (s : Stream) :
    Agrees SameRest (receiveRequest memory s) (readRequest memory s.input) := by
  rw [receiveRequest, readRequest]
  apply (s.takeField_agrees _ _).bind
  rintro ⟨header, behind⟩ ⟨_, rest⟩ ⟨rfl, rfl⟩
  apply Agrees.bind_failIf
  intro _
  apply Agrees.bind_failIf
  intro _
  apply (behind.takeField_agrees _ _).bind
  rintro ⟨payload, later⟩ ⟨_, left⟩ ⟨rfl, rfl⟩
  exact .read ⟨rfl, rfl⟩

/-- No request has a longer payload than the service accepts. -/
theorem readRequest_short {memory : Bool} {input rest : Bytes} {r : Request}
    (read : readRequest memory input = .ok (r, rest)) : r.payload.length ≤ cascadeMaxPayload := by
  simp only [readRequest, bind_eq_ok, Prod.exists, failIf_eq_ok] at read
  rcases read with ⟨header, behind, _, _, within, _, _, payload, _, _, result⟩
  cases result
  rw [payload.2]
  exact Nat.not_lt.mp within

/-- What the service sends over TCP for these bytes.  It is a function of them
and of the allocations. -/
def tcpReply (env : ServiceEnv) (input : Bytes) : Bytes :=
  match readRequest env.payload input with
  | .error .big => ascii "ERR too big\n"
  | .error _ => []
  | .ok (r, _) => tcpAnswer env.parse r

/-- The payload of the request, if there is one, fits. -/
def RequestFits (env : ServiceEnv) (input : Bytes) : Prop :=
  forall r rest, readRequest env.payload input = .ok (r, rest) -> FitsBuffers env.parse r.payload

/-- The reply does not depend on the store, nor on the pieces of the
connection. -/
theorem serve_reply {env : ServiceEnv} {s : Stream} (fits : RequestFits env s.input) (store : CfgProfile) :
    (serve env true store s).reply = tcpReply env s.input := by
  rw [serve, tcpReply]
  rcases (receiveRequest_agrees env.payload s).outcome with
    ⟨refusal, received, read⟩ | ⟨⟨r, later⟩, ⟨_, rest⟩, received, read, rfl, _⟩
  · rw [received, read]
    cases refusal <;> rfl
  · rw [received, read]
    have short : r.payload.length < 2 ^ 31 := by
      have within := readRequest_short read
      simp only [cascadeMaxPayload] at within
      omega
    exact perform_reply (fits r rest read) short store

/-! ## Two services -/

/-- The same build, and the same outcomes of the allocations that a request
can fail on.  The outcomes of the merge, and all that the source leaves open,
may differ. -/
structure ServiceEnv.SameOutcomes (env env' : ServiceEnv) : Prop where
  parse : env.parse.SameOutcomes env'.parse
  payload : env'.payload = env.payload

section TwoServices

variable {env env' : ServiceEnv} {input : Bytes}

theorem RequestFits.same (fits : RequestFits env input) (same : env.SameOutcomes env') : RequestFits env' input := by
  intro r rest read
  rw [same.payload] at read
  have within := readRequest_short read
  simp only [cascadeMaxPayload] at within
  exact (fits r rest read).same same.parse (by omega)

theorem tcpReply_same (same : env.SameOutcomes env') : tcpReply env' input = tcpReply env input := by
  rw [tcpReply, tcpReply, same.payload]
  cases read : readRequest env.payload input with
  | error refusal => cases refusal <;> rfl
  | ok taken =>
      have within := readRequest_short read
      simp only [cascadeMaxPayload] at within
      dsimp only
      rw [tcpAnswer, tcpAnswer]
      have short : taken.1.payload.length < 2 ^ 31 := by omega
      rcases (parseBundle_sameTexts same.parse short).outcome with
        ⟨_, failed, failed'⟩ | ⟨_, _, parsed, parsed', _⟩
      · rw [failed, failed']
      · rw [parsed, parsed']

end TwoServices

/-- A connection with its one request, and with what the source leaves open
about it. -/
structure Visit where
  env : ServiceEnv
  isTcp : Bool
  s : Stream

/-- The replies over TCP, in a service that handles these connections.  A
service that does not survive a request handles no others, and its run ends
there. -/
def tcpReplies : CfgProfile -> List Visit -> List Bytes
  | _, [] => []
  | store, v :: later =>
      let served := serve v.env v.isTcp store v.s
      if v.isTcp then served.reply :: tcpReplies served.store later else tcpReplies served.store later

/-- Requests over TCP with the same bytes. -/
structure SameTcpRequest (v v' : Visit) : Prop where
  outcomes : v.env.SameOutcomes v'.env
  input : v'.s.input = v.s.input
  fits : RequestFits v.env v.s.input

theorem tcpReplies_eq_map {visits : List Visit}
    (fits : forall v, v ∈ visits.filter Visit.isTcp -> RequestFits v.env v.s.input) (store : CfgProfile) :
    tcpReplies store visits = (visits.filter Visit.isTcp).map fun v => tcpReply v.env v.s.input := by
  induction visits generalizing store with
  | nil => rfl
  | cons v later inductionHypothesis =>
      rw [tcpReplies]
      cases kind : v.isTcp with
      | false =>
          have only : (v :: later).filter Visit.isTcp = later.filter Visit.isTcp := by
            rw [List.filter_cons, kind, if_neg Bool.false_ne_true]
          rw [only] at fits ⊢
          exact inductionHypothesis fits _
      | true =>
          have first : (v :: later).filter Visit.isTcp = v :: later.filter Visit.isTcp := by
            rw [List.filter_cons, kind, if_pos rfl]
          rw [first] at fits ⊢
          rw [if_pos rfl, List.map_cons, serve_reply (fits v List.mem_cons_self)]
          congr 1
          exact inductionHypothesis (fun other member => fits other (List.mem_cons_of_mem v member)) _

theorem SameTcpRequest.fits' {v v' : Visit} (same : SameTcpRequest v v') : RequestFits v'.env v'.s.input := by
  rw [same.input]
  exact same.fits.same same.outcomes

theorem SameTcpRequest.reply {v v' : Visit} (same : SameTcpRequest v v') :
    tcpReply v.env v.s.input = tcpReply v'.env v'.s.input := by
  rw [same.input, tcpReply_same same.outcomes]

/-- Runs with the same TCP requests, in the same order. -/
theorem tcpReply_map_same {visits visits' : List Visit} (same : List.Forall₂ SameTcpRequest visits visits') :
    (forall v, v ∈ visits -> RequestFits v.env v.s.input) ∧
      (forall v, v ∈ visits' -> RequestFits v.env v.s.input) ∧
      (visits.map fun v => tcpReply v.env v.s.input) = visits'.map fun v => tcpReply v.env v.s.input := by
  induction same with
  | nil =>
      have none : forall v : Visit, v ∈ [] -> RequestFits v.env v.s.input :=
        fun _ impossible => absurd impossible List.not_mem_nil
      exact ⟨none, none, rfl⟩
  | cons first later inductionHypothesis =>
      rcases inductionHypothesis with ⟨fits, fits', replies⟩
      refine ⟨?_, ?_, ?_⟩
      · exact List.forall_mem_cons.mpr ⟨first.fits, fits⟩
      · exact List.forall_mem_cons.mpr ⟨first.fits', fits'⟩
      · rw [List.map_cons, List.map_cons, first.reply, replies]

/-- Two services send the same reply to the same bytes over TCP, whatever
their stores hold, and so the replies of a whole run depend on the bytes of
the TCP requests alone. -/
theorem tcpReplies_determined :
    (forall env env' store store' s s', env.SameOutcomes env' -> s'.input = s.input ->
      RequestFits env s.input -> (serve env true store s).reply = (serve env' true store' s').reply) ∧
    (forall store store' visits visits',
      List.Forall₂ SameTcpRequest (visits.filter Visit.isTcp) (visits'.filter Visit.isTcp) ->
        tcpReplies store visits = tcpReplies store' visits') := by
  constructor
  · intro env env' store store' s s' same input fits
    have fits' : RequestFits env' s'.input := input ▸ fits.same same
    rw [serve_reply fits, serve_reply fits', input, tcpReply_same same]
  · intro store store' visits visits' same
    rcases tcpReply_map_same same with ⟨fits, fits', replies⟩
    rw [tcpReplies_eq_map fits, tcpReplies_eq_map fits', replies]

def welcome : Bundle where
  flags := greeting.flags
  entries := [⟨ascii "name", 0, ascii "Ada", by decide, by decide⟩,
    ⟨ascii "line", 4, ascii "hello ${name}", by decide, by decide⟩]
  fits := by decide

def welcomePush : Bytes :=
  [opPush, 0, 0, 0] ++ (toLE 4 welcome.encode.length ++ welcome.encode)

def welcomeProfile : CfgProfile where
  head := [⟨some (.ofBlock (ascii "name" ++ [0])), cfgStr, 3, some (ascii "Ada"), 0, sized_self _⟩,
    ⟨some (.ofBlock (ascii "line" ++ [0])), cfgTemplate, 13, some (ascii "hello ${name}"), 0, sized_self _⟩]
  count := 2

theorem welcomePush_fits : RequestFits calmService welcomePush := by
  intro r rest read
  have request : readRequest true welcomePush = .ok (⟨opPush, 0, 0, welcome.encode⟩, []) := rfl
  have blobless : peekFirstBlob .x86 welcome.encode = none := rfl
  have stored : parseBundle calm welcome.encode = .ok welcomeProfile := rfl
  have expanded : resolve welcomeProfile (ascii "hello ${name}") = some (ascii "hello Ada") := rfl
  cases request.symm.trans read
  constructor
  · intro declared first
    rcases (peekFirstBlob_iff .x86 (by decide) declared).mpr first with ⟨value, peeked⟩
    cases blobless.symm.trans peeked
  · rfl
  · intro p parsed e member template value text holds resolved
    cases stored.symm.trans parsed
    rcases List.mem_pair.mp member with rfl | rfl
    · exact absurd template (by decide)
    · cases holds
      cases expanded.symm.trans resolved
      decide

/-- Two stores, and the connection brings the request in one piece or byte by
byte; with another client on the pipe, or with none. -/
theorem welcomePush_repliesAlike :
    (serve calmService true cfgNew (.of welcomePush fun _ => 0)).reply =
        (serve calmService true welcomeProfile (.of welcomePush fun _ => 100)).reply ∧
      tcpReplies cfgNew [⟨calmService, false, .of welcomePush fun _ => 0⟩,
          ⟨calmService, true, .of welcomePush fun _ => 0⟩] =
        tcpReplies welcomeProfile [⟨calmService, true, .of welcomePush fun _ => 100⟩] := by
  have same : calmService.SameOutcomes calmService := ⟨⟨rfl, rfl, rfl⟩, rfl⟩
  constructor
  · exact tcpReplies_determined.1 _ _ _ _ _ _ same rfl welcomePush_fits
  · apply tcpReplies_determined.2
    exact .cons ⟨same, rfl, welcomePush_fits⟩ .nil

end Cascade
end BugMuseum
