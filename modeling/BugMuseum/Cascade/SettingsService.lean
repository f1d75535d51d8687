import BugMuseum.Cascade.Settings
import BugMuseum.Cascade.Threads

namespace BugMuseum
namespace Cascade

open Foundation

/-!
# The configuration service as a service of settings

The handlers of `cfgsvcd` answer what the settings say, and so do its threads: for any
number of them, any interleaving of their steps and any failing allocations, each client
is told what it would be told if the settings were asked one request after the other.
-/

/-- The store has these settings, and every entry its name.  Without its name
an entry would stop every search that comes to it. -/
structure Represents (store : CfgProfile) (settings : Settings) : Prop where
  named : AllNamed store.head
  settings : settingsOf store.head = settings

namespace Represents

theorem start : Represents cfgNew .none where
  named := fun _ impossible => absurd impossible List.not_mem_nil
  settings := rfl

variable {store : CfgProfile} {settings : Settings}

/-- A template whose text fits in a line is expanded to it. -/
theorem expands (represents : Represents store settings) (e : CfgEntry) (out : Field 256)
    (fits : (settings.expand (e.value.getD [])).length < lineSize) :
    exists status filled, cfgExpandTemplate store e out.1 = .ok (status, filled) ∧
      cString filled = settings.expand (e.value.getD []) := by
  rw [cfgExpandTemplate]
  cases valued : e.value with
  | none =>
      have terminated : overwrite out.1 0 [0] = [0] ++ out.1.drop 1 :=
        overwrite_zero (show [(0 : UInt8)].length ≤ out.1.length by rw [out.2]; decide)
      have nothing : settings.expand (Option.none.getD []) = [] := by
        rw [Option.getD_none, Settings.expand, substitute, tokens_nil]
        rfl
      exact ⟨_, _, rfl, by rw [terminated, List.singleton_append, cString_zero, nothing]⟩
  | some s =>
      rw [valued, Option.getD_some, ← represents.settings, settingsOf_expand] at fits
      rw [Option.getD_some, ← represents.settings, settingsOf_expand]
      have resolved := (resolve_outcome store s).1 (unobstructed_of_named represents.named s)
      have whole : cString ((expansion store s).take (resolvedSize - 1)) = cString (expansion store s) := by
        rw [cString, ← List.take_takeWhile]
        exact List.take_of_length_le (fits.le.trans (by decide))
      have short : (cString (expansion store s)).length ≤ 255 := fits.le.trans (by decide)
      dsimp only
      rw [resolved]
      dsimp only
      rw [whole, if_pos fits]
      exact ⟨_, _, rfl, cString_deliver out.2 short (zero_not_mem_cString _)⟩

theorem readable (represents : Represents store settings) (key : CStr) :
    Readable CfgEntry.name key store.head := by
  rw [← seek_ne_keyless_iff, ← toSearch_inj.ne, ← findFrom_seek]
  exact findFrom_named represents.named key.1

/-- Nothing is set under a key, and no entry has it for a name. -/
theorem lacks (represents : Represents store settings) {key : CStr} (absent : settings key.1 = none) :
    Lacks CfgEntry.name key store.head := by
  rw [← seek_eq_absent_iff, ← toSearch_inj, ← findFrom_seek]
  have search := findFrom_find key.1 store.head
  rw [← represents.settings, settingsOf, Option.map_eq_none_iff] at absent
  cases outcome : findFrom key.1 store.head with
  | found e =>
      rw [outcome, absent] at search
      cases search
  | absent => rfl
  | nullName => exact absurd outcome (findFrom_named represents.named key.1)

theorem safe (represents : Represents store settings) {key : CStr} {frame : Nat -> UInt8}
    (offered : settings.OffersGet key frame) : LookupSafe store key frame := by
  rcases offered.1 with held | ⟨absent, absentCopy, fits⟩
  · exact Or.inl ⟨held, represents.readable key⟩
  · exact Or.inr ⟨represents.lacks absent, represents.lacks absentCopy, fits⟩

theorem get (represents : Represents store settings) (env : ServiceEnv) (payload : Bytes)
    (offered : settings.OffersGet (getKey payload) env.norm) :
    handleGet env store payload = answer store (settings.get (getKey payload).1) := by
  have agrees := (lookupAgrees_iff store (getKey payload) env.norm).mpr (represents.safe offered)
  have fits := (inBuffer_iff _).mp agrees.inBuffer
  have found := agrees.same.trans agrees.first
  have lines := offered.2
  rw [FitsNorm, CopyFits] at fits
  rw [Settings.get]
  rw [← represents.settings, settingsOf] at lines ⊢
  rw [getKey] at found fits lines ⊢
  rw [handleGet, if_neg (by omega), found]
  cases entry : store.head.find? (hasName (CStr.ofBlock (payload.take 255 ++ [0])).1) with
  | none => rfl
  | some e =>
      rw [entry] at lines
      have line := lines e.setting rfl
      dsimp only [Option.map_some]
      by_cases template : e.type = cfgTemplate
      · have marked : e.setting.template = true := decide_eq_true template
        have text := represents.expands e env.out
        rw [← represents.settings] at text
        rcases text (line marked) with ⟨status, filled, expanded, arrives⟩
        rw [if_pos template, expanded, if_pos marked]
        dsimp only
        rw [arrives]
        rfl
      · have plain : ¬ e.setting.template = true := by
          rw [CfgEntry.setting, decide_eq_true_eq]
          exact template
        rw [if_neg template, if_neg plain]

theorem storedFrom_mem {env : ParseEnv} {i : Nat} {raws : List RawEntry} {rest : Bytes} {e : CfgEntry}
    (member : e ∈ storedFrom env i raws rest) :
    exists raw, raw ∈ raws ∧ exists j tail, e = storedEntry env j raw tail := by
  induction raws generalizing i with
  | nil => cases member
  | cons first later inductionHypothesis =>
      rw [storedFrom] at member
      rcases List.mem_cons.mp member with rfl | behind
      · exact ⟨first, List.mem_cons_self, i, _, rfl⟩
      · rcases inductionHypothesis behind with ⟨raw, inside, stored⟩
        exact ⟨raw, List.mem_cons_of_mem first inside, stored⟩

/-- A parsed bundle, before it is merged, has the settings that it says by
itself. -/
theorem parsed {env : ParseEnv} {b : Bundle} {rest : Bytes} {p : CfgProfile}
    (head : p.head = storedFrom env 0 b.entries rest) : Represents p b.settings where
  named := head ▸ (settingsOf_stored env 0 0 b.entries rest).1
  settings := head ▸ (settingsOf_stored env 0 0 b.entries rest).2

/-- The templates of a bundle are expanded before it is merged, with its own
settings. -/
theorem materializes {env : ParseEnv} {b : Bundle} {rest : Bytes} {p : CfgProfile}
    (head : p.head = storedFrom env 0 b.entries rest) (fits : FitsLines b) (out : Field 256) :
    materializeTemplates p out.1 = none := by
  apply materializeFrom_expands
  intro e member template
  rw [head] at member
  rcases storedFrom_mem member with ⟨raw, inside, j, tail, rfl⟩
  rw [storedEntry_type] at template
  have text : (storedEntry env j raw tail).value = some raw.value :=
    storedEntry_value env j tail (by rw [template]; decide)
  have line := fits raw inside template
  rcases (parsed head).expands (storedEntry env j raw tail) out (by rw [text]; exact line) with
    ⟨status, filled, expanded, _⟩
  exact ⟨_, expanded⟩

theorem ingest (represents : Represents store settings) (env : ServiceEnv) {payload : Bytes}
    (short : payload.length ≤ cascadeMaxPayload) (narrow : fieldOverruns env.parse payload = false)
    (fits : forall read, read ∈ (readBundle payload).toOption -> FitsLines read.1 ∧
      keepsNames env.merge 0 read.1.entries = true) :
    Represents (Cascade.ingest env store payload).store (settings.push payload env).1 ∧
      (Cascade.ingest env store payload).reply = (settings.push payload env).2 := by
  simp only [cascadeMaxPayload] at short
  have room : env.parse.Room payload := Nat.le_of_lt (lt_sizeModulus env.parse.arch (by omega))
  rw [Cascade.ingest, narrow, if_neg Bool.false_ne_true, cfgParseBlob, Settings.push]
  cases read : readBundle payload with
  | error code =>
      rcases parseBundle_rejects room read with ⟨failure, failed⟩
      rw [failed]
      exact ⟨represents, rfl⟩
  | ok taken =>
      rcases taken with ⟨b, rest⟩
      have kept := fits (b, rest) (by rw [read]; rfl)
      have split := readBundle_eq_ok.mp read
      have outcome := @parseBundle_room env.parse b rest (by rw [← split]; omega)
      rw [← split] at outcome
      dsimp only
      by_cases roomy : (env.parse.profile && hasRoom env.parse.grant 0 b.types) = true
      · rw [if_pos roomy] at outcome ⊢
        rcases outcome with ⟨p, parsed, head⟩
        have merges := mergeFrom_settings env.parse env.merge 0 rest represents.named kept.2
        rw [← head, represents.settings] at merges
        rw [parsed]
        dsimp only
        rw [if_pos rfl, materializes head kept.1 env.out]
        exact ⟨⟨merges.1, merges.2⟩, rfl⟩
      · rw [if_neg roomy] at outcome ⊢
        rw [outcome]
        exact ⟨represents, rfl⟩

theorem push (represents : Represents store settings) (env : ServiceEnv) {isTcp : Bool} {payload : Bytes}
    (short : payload.length ≤ cascadeMaxPayload) (offered : OffersPush isTcp payload env) :
    Represents (handlePush env isTcp store payload).store (settings.push payload env).1 ∧
      (handlePush env isTcp store payload).reply = (settings.push payload env).2 := by
  have ingested := represents.ingest env short offered.2.1 offered.2.2
  cases isTcp with
  | false => exact ingested
  | true =>
      have narrow : payload.length < 2 ^ 31 := short.trans_lt (by decide)
      have blob : FirstBlobFits env.parse.arch payload := by
        intro declared first
        rcases (peekFirstBlob_iff env.parse.arch narrow declared).mpr first with ⟨value, peeked⟩
        exact offered.1 rfl _ peeked
      rcases handlePush_tcp narrow blob store with ⟨copied, _, pushed⟩
      rw [pushed]
      exact ingested

end Represents

/-! ## The threads -/

/-- The reads and the refusals of the server, and its requests answered by the
settings. -/
def settingsService : OneShot Settings Request ServiceEnv where
  receive := cfgsvcd.receive
  handle := fun _ r env settings => settings.serve r env

theorem receive_short {isTcp : Bool} {env : ServiceEnv} {s : Stream} {r : Request}
    (received : cfgsvcd.receive isTcp env s = .ok r) : r.payload.length ≤ cascadeMaxPayload := by
  simp only [cfgsvcd] at received
  rcases (receiveRequest_agrees env.payload s).outcome with
    ⟨refusal, refused, _⟩ | ⟨⟨taken, later⟩, ⟨_, rest⟩, taking, read, rfl, _⟩
  · rw [refused] at received
    cases refusal <;> cases received
  · rw [taking] at received
    dsimp only at received
    split at received
    · cases received
    · split at received
      · cases received
      · cases received
        exact readRequest_short read

theorem cfgsvcd_refines :
    cfgsvcd.service.Refines settingsService.service Represents (fun r => r.2.payload.length ≤ cascadeMaxPayload)
      fun settings c r env => settings.Offers c.1 r.2 env := by
  have receive : settingsService.receive = cfgsvcd.receive := rfl
  refine cfgsvcd.refines receive (fun _ _ _ _ received => receive_short received) ?_
  intro store settings isTcp r env represents short offered
  rw [Settings.Offers] at offered
  simp only [cfgsvcd, settingsService, Settings.serve]
  by_cases get : r.op = opGet
  · rw [if_pos get] at offered ⊢
    rw [if_pos get, represents.get env r.payload offered]
    exact ⟨represents, rfl⟩
  · rw [if_neg get] at offered ⊢
    rw [if_neg get]
    exact represents.push env short offered

/-- Any number of threads, on either transport, with requests in any pieces,
handlers in any steps and allocations that fail or not: once the section in
progress is finished, every thread is where it would be, and has sent what it
would have sent, if the settings had been asked and pushed by the requests in
the order in which they took the lock; and the store has these settings. -/
theorem cfgsvcd_settings (cut : cfgsvcd.service.Cut) (turns : List (Turn Nat (Doing ServiceEnv) ServiceEnv))
    (offered : Guarded settingsService.service.act
      (fun v action => action.Offered (fun settings c r env => settings.Offers c.1 r.2 env) v)
      (Service.idle Nat (ServiceEnv × Request) .none) ((Service.Cut.start cfgNew).acts cut.program turns)) :
    let finished := (run cut.program.step (Service.Cut.start cfgNew) turns).finish
    let served := run settingsService.service.act (Service.idle Nat (ServiceEnv × Request) .none)
      ((Service.Cut.start cfgNew).acts cut.program turns)
    finished.own = served.own ∧ Represents finished.shared served.shared :=
  cfgsvcd_refines.threads cut .start offered

theorem ada_fits : (ascii "Ada").length ≤ cprofMaxValue := by
  decide

/-- A template before the setting that it names. -/
def motto : Bundle where
  flags := greeting.flags
  entries := [⟨ascii "m", 4, ascii "Hi ${n}", by decide, by decide⟩, ⟨ascii "n", 0, ascii "Ada", by decide, ada_fits⟩]
  fits := by decide

/-- The bundle is pushed over TCP, and a client on a pipe asks while the reply
is being sent. -/
def pushThenGet : List (Turn Nat (Doing ServiceEnv) ServiceEnv) :=
  let push := [opPush, 0, 0, 0] ++ (toLE 4 motto.encode.length ++ motto.encode)
  let get := [opGet, 0, 0, 0] ++ (toLE 4 1 ++ ascii "m")
  [.outside 0 (.accepts true (.of push fun _ => 7)), .outside 1 (.accepts false (.of get fun _ => 3)),
    .outside 0 (.receives calmService), .enter 0 calmService, .proceed 0, .outside 1 (.receives calmService),
    .enter 1 calmService] ++ List.replicate 5 (.proceed 0) ++ [.enter 1 calmService] ++ List.replicate 7 (.proceed 1)

theorem pushThenGet_sent :
    let cut := Service.Cut.bytewise cfgsvcd.service
    let finished := (run cut.program.step (Service.Cut.start cfgNew) pushThenGet).finish
    (finished.own 0).sent = ascii "OK\n" ∧ (finished.own 1).sent = ascii "Hi Ada\n" := by
  have served := (cfgsvcd_settings (.bytewise _) pushThenGet (by decide +kernel)).1
  dsimp only at served ⊢
  rw [served]
  decide +kernel

end Cascade
end BugMuseum
