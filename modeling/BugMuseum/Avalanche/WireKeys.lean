import BugMuseum.Avalanche.Cached
import BugMuseum.Avalanche.CacheRuns

namespace BugMuseum
namespace Avalanche

open Foundation

/-!
# Keys on the wire

A key arrives as a length and that many bytes, is stored and looked up as the
text in front of its first zero byte, and so loses what follows.  A history of
plain sets and exact lookups is compared here with a list of bindings of the
bytes themselves.
-/

/-- `key_len` has two bytes, so a key has fewer than 65536. -/
abbrev WireKey :=
  { bytes : Bytes // bytes.length < 2 ^ 16 }

abbrev WireValue :=
  { bytes : Bytes // bytes.length ≤ avlMaxPayload }

/-- A plain set or a lookup.  A lookup may carry a value, which is not used.
The flags are free, but for the one of the fast path. -/
inductive WireRequest where
  | set (flags : UInt8) (plain : flags &&& flagFast = 0) (key : WireKey) (value : WireValue)
  | get (flags : UInt8) (key : WireKey) (value : WireValue)

def encodeRequest (op flags : UInt8) (key value : Bytes) : Bytes :=
  (op :: flags :: (toLE 2 key.length ++ toLE 4 value.length)) ++ (key ++ value)

def WireRequest.encode : WireRequest -> Bytes
  | .set flags _ key value => encodeRequest opSet flags key.1 value.1
  | .get flags key value => encodeRequest opGet flags key.1 value.1

/-- A request and the outcomes of the allocations for it. -/
abbrev Delivery := WireRequest × RequestGrant

/-- The allocations of plain requests succeed. -/
def Allocated (delivery : Delivery) : Prop :=
  delivery.2.keyBytes = true ∧ delivery.2.key = true ∧ delivery.2.value = true ∧ delivery.2.set = granted

/-- The server on TCP. -/
def tcpStep (platform : Platform) (c : Cache) (delivery : Delivery) : Cache × Option Bytes :=
  serve platform true c delivery.2 delivery.1.encode

/-- The reply that a stored value or its absence calls for. -/
def valueReply (value : Option Bytes) : Option Bytes :=
  match value with
  | some bytes => some (ascii "VALUE " ++ bytes ++ ascii "\n")
  | none => some (ascii "NOT_FOUND\n")

/-- The same requests on the bytes of the keys, as a client would understand
them. -/
def wireStep (bindings : List (Bytes × Bytes)) (delivery : Delivery) : List (Bytes × Bytes) × Option Bytes :=
  match delivery.1 with
  | .set _ _ key value => ((key.1, value.1) :: bindings, some (ascii "STORED\n"))
  | .get _ key _ => (bindings, valueReply (newest bindings key.1))

/-- The same requests on the texts of the keys, which is how the server
understands them. -/
def textStep (bindings : List (CStr × Bytes)) (delivery : Delivery) : List (CStr × Bytes) × Option Bytes :=
  match delivery.1 with
  | .set _ _ key value => ((cstr key.1, value.1) :: bindings, some (ascii "STORED\n"))
  | .get _ key _ => (bindings, valueReply (newest bindings (cstr key.1)))

/-- The last set of a key with the same text stored the value that the last
set of exactly this key stored. -/
def KeyApart (bindings : List (Bytes × Bytes)) (delivery : Delivery) : Prop :=
  match delivery.1 with
  | .set _ _ _ _ => True
  | .get _ key _ => forall binding,
      bindings.find? (fun binding => decide (cstr binding.1 = cstr key.1)) = some binding ->
        newest bindings key.1 = some binding.2

theorem header_read (op flags : UInt8) {key value : Bytes} (keyFits : key.length < 2 ^ 16)
    (valueFits : value.length ≤ avlMaxPayload)
    (measured : (op :: flags :: (toLE 2 key.length ++ toLE 4 value.length)).length = 8) :
    Header.read ⟨op :: flags :: (toLE 2 key.length ++ toLE 4 value.length), measured⟩ =
      { op, flags, keyLen := key.length, valueLen := value.length } := by
  have keyLen : slice (op :: flags :: (toLE 2 key.length ++ toLE 4 value.length)) 2 2 = toLE 2 key.length :=
    slice_append [op, flags] (toLE 2 key.length) (toLE 4 value.length) rfl (toLE_length ..)
  have valueLen : slice (op :: flags :: (toLE 2 key.length ++ toLE 4 value.length)) 4 4 =
      toLE 4 value.length := by
    have front : (op :: flags :: toLE 2 key.length).length = 4 := by simp
    have whole := slice_append (op :: flags :: toLE 2 key.length) (toLE 4 value.length) [] front
      (toLE_length ..)
    rw [List.append_nil] at whole
    exact whole
  have small : value.length < 256 ^ 4 := by
    simp only [avlMaxPayload] at valueFits
    omega
  simp only [Header.read, Field.toNat, Field.slice, keyLen, valueLen, ofLE_toLE small,
    ofLE_toLE (show key.length < 256 ^ 2 from keyFits)]
  rfl

/-- The server reads what was encoded, field by field. -/
theorem readRequest_encode (op flags : UInt8) {key value : Bytes} {grant : RequestGrant}
    (known : ¬ op > opStats) (keyFits : key.length < 2 ^ 16) (valueFits : value.length ≤ avlMaxPayload)
    (keyBytes : grant.keyBytes = true) (keyCopy : grant.key = true) (valueBytes : grant.value = true) :
    exists r, readRequest grant (encodeRequest op flags key value) = .ok r ∧
      r.header.op = op ∧ r.header.flags = flags ∧ r.key = cstr key ∧ r.value.1 = value := by
  have measured : (op :: flags :: (toLE 2 key.length ++ toLE 4 value.length)).length = 8 := by simp
  have header := header_read op flags keyFits valueFits measured
  refine ⟨{ header := { op, flags, keyLen := key.length, valueLen := value.length }, key := cstr key,
            value := ⟨value, rfl⟩, fits := valueFits }, ?_, rfl, rfl, rfl, rfl⟩
  refine bind_eq_ok.mpr ⟨_, takeField_append [] measured _, ?_⟩
  show readPayload grant (Header.read _) _ = _
  rw [header, readPayload]
  refine bind_eq_ok.mpr ⟨(), failIf_eq_ok.mpr known, ?_⟩
  refine bind_eq_ok.mpr ⟨⟨valueFits⟩, atMost_of_le valueFits, ?_⟩
  refine bind_eq_ok.mpr ⟨(), failIf_eq_ok.mpr ?_, ?_⟩
  · rintro ⟨_, refused⟩
    rw [keyBytes] at refused
    cases refused
  refine bind_eq_ok.mpr ⟨_, takeField_append [] rfl value, ?_⟩
  refine bind_eq_ok.mpr ⟨(), failIf_eq_ok.mpr ?_, ?_⟩
  · intro refused
    rw [keyCopy] at refused
    cases refused
  refine bind_eq_ok.mpr ⟨(), failIf_eq_ok.mpr ?_, ?_⟩
  · rintro ⟨_, refused⟩
    rw [valueBytes] at refused
    cases refused
  refine bind_eq_ok.mpr ⟨(⟨value, rfl⟩, []), ?_, rfl⟩
  have whole : takeField (ε := Bytes) [] value.length (value ++ []) = .ok (⟨value, rfl⟩, []) :=
    takeField_append [] rfl []
  rwa [List.append_nil] at whole

/-! ## One request -/

/-- The texts under which the server keeps the bindings. -/
def texts (bindings : List (Bytes × Bytes)) : List (CStr × Bytes) :=
  bindings.map fun binding => (cstr binding.1, binding.2)

theorem newest_texts (bindings : List (Bytes × Bytes)) (key : Bytes) :
    newest (texts bindings) (cstr key) =
      (bindings.find? fun binding => decide (cstr binding.1 = cstr key)).map Prod.snd := by
  rw [newest, texts, List.find?_map, Option.map_map]
  rfl

/-- The value found under the text is the one set under the bytes exactly when
no other key comes between. -/
theorem newest_texts_eq_iff (bindings : List (Bytes × Bytes)) (key : Bytes) :
    newest (texts bindings) (cstr key) = newest bindings key ↔
      forall binding, bindings.find? (fun binding => decide (cstr binding.1 = cstr key)) = some binding ->
        newest bindings key = some binding.2 := by
  rw [newest_texts]
  cases found : bindings.find? (fun binding => decide (cstr binding.1 = cstr key)) with
  | some binding =>
      constructor
      · intro same other found
        cases found
        exact same.symm
      · intro apart
        exact (apart binding rfl).symm
  | none =>
      have unset : newest bindings key = none := by
        rw [newest, Option.map_eq_none_iff, List.find?_eq_none]
        intro binding member same
        apply List.find?_eq_none.mp found binding member
        rw [decide_eq_true_eq, isKey_iff.mp same]
      rw [unset]
      refine iff_of_true rfl ?_
      intro binding found
      cases found

theorem valueReply_injective {left right : Option Bytes} (same : valueReply left = valueReply right) :
    left = right := by
  cases left with
  | none =>
      cases right with
      | none => rfl
      | some value => exact absurd (Option.some.inj same) (fun texts => by cases congrArg List.head? texts)
  | some value =>
      cases right with
      | none => exact absurd (Option.some.inj same) (fun texts => by cases congrArg List.head? texts)
      | some other =>
          have parts := List.append_cancel_right (Option.some.inj same)
          rw [List.append_cancel_left parts]

/-- The reply to a lookup is the one for the newest binding of the text. -/
theorem getReply_carried {c : Cache} {bindings : List (CStr × Bytes)} (carries : Carries c bindings)
    (key : CStr) : getReply c (cacheGetRaw c (some key)) = valueReply (newest bindings key) := by
  rcases carries with ⟨chain, rep⟩
  cases bound : newest bindings key with
  | some value =>
      rcases rep.getRaw_found bound with ⟨e, found, bytes⟩
      rw [found, getReply, bytes]
      rfl
  | none =>
      rw [rep.getRaw_absent bound]
      rfl

/-- One request: the server does what the texts call for. -/
theorem tcpStep_texts (platform : Platform) (c : Cache) (bindings : List (CStr × Bytes))
    (delivery : Delivery) (carries : Carries c bindings) (allocated : Allocated delivery) :
    (tcpStep platform c delivery).2 = (textStep bindings delivery).2 ∧
      Carries (tcpStep platform c delivery).1 (textStep bindings delivery).1 := by
  rcases delivery with ⟨request, grant⟩
  rcases allocated with ⟨keyBytes, keyCopy, valueBytes, set⟩
  cases request with
  | set flags plain key value =>
      rcases readRequest_encode opSet flags (by decide) key.2 value.2 keyBytes keyCopy valueBytes with
        ⟨r, read, op, sameFlags, text, bytes⟩
      have slow : ¬ r.fast true := by
        rintro ⟨_, flagged⟩
        rw [sameFlags] at flagged
        exact flagged plain
      have stored : tcpStep platform c (.set flags plain key value, grant) =
          ((cacheSet c (some (cstr key.1)) r.payload granted).1, some (ascii "STORED\n")) := by
        rw [tcpStep, serve, WireRequest.encode, read]
        simp only [dispatch, op, if_pos, handleSet, if_neg slow, text]
        rw [set]
      have offered : Offered (.set (cstr key.1) r.payload granted) := rfl
      have carried := (carries.step offered).2
      have bound : (bindingStep bindings (.set (cstr key.1) r.payload granted)).1 =
          (cstr key.1, value.1) :: bindings := by
        rw [← bytes]
        rfl
      rw [bound] at carried
      rw [stored]
      exact ⟨rfl, carried⟩
  | get flags key value =>
      rcases readRequest_encode opGet flags (by decide) key.2 value.2 keyBytes keyCopy valueBytes with
        ⟨r, read, op, _, text, _⟩
      have served : tcpStep platform c (.get flags key value, grant) =
          (c, valueReply (newest bindings (cstr key.1))) := by
        rw [tcpStep, serve, WireRequest.encode, read]
        simp only [dispatch, op, handleGet, text]
        exact congrArg (Prod.mk c) (getReply_carried carries (cstr key.1))
      rw [served]
      exact ⟨rfl, carries⟩

/-- The texts call for the reply to the bytes exactly when the key is
apart. -/
theorem textStep_compares (bindings : List (Bytes × Bytes)) (delivery : Delivery) :
    ((textStep (texts bindings) delivery).2 = (wireStep bindings delivery).2 ↔
        KeyApart bindings delivery) ∧
      (textStep (texts bindings) delivery).1 = texts (wireStep bindings delivery).1 := by
  rcases delivery with ⟨request, grant⟩
  cases request with
  | set flags plain key value => exact ⟨iff_of_true rfl trivial, rfl⟩
  | get flags key value =>
      refine ⟨Iff.trans ?_ (newest_texts_eq_iff bindings key.1), rfl⟩
      constructor
      · exact valueReply_injective
      · intro same
        exact congrArg valueReply same

/-- Every lookup of a history is answered by the last set of the same text.
So it is answered by the last set of exactly its key bytes as long as no set
of other bytes with the same text has come in between. -/
theorem tcp_keeps_texts (platform : Platform) (nbuckets : UInt32) (c : Cache)
    (made : cacheNew nbuckets true true = some c) (history : List Delivery)
    (allocated : forall delivery, delivery ∈ history -> Allocated delivery) :
    replies (tcpStep platform) c history = replies textStep [] history ∧
      (replies (tcpStep platform) c history = replies wireStep [] history ↔
        Guarded (fun bindings delivery => (wireStep bindings delivery).1) KeyApart [] history) := by
  have start : Carries c [] := ⟨_, represents_cacheNew made⟩
  refine ⟨?_, ?_⟩
  · exact (replies_of_simulation Allocated
      (fun c bindings delivery carries now => tcpStep_texts platform c bindings delivery carries now)
      start allocated).1
  · have compares : forall c bindings delivery, Carries c (texts bindings) -> Allocated delivery ->
        ((tcpStep platform c delivery).2 = (wireStep bindings delivery).2 ↔ KeyApart bindings delivery) ∧
          Carries (tcpStep platform c delivery).1 (texts (wireStep bindings delivery).1) := by
      intro c bindings delivery carries now
      have served := tcpStep_texts platform c (texts bindings) delivery carries now
      have compared := textStep_compares bindings delivery
      rw [served.1, ← compared.2]
      exact ⟨compared.1, served.2⟩
    exact replies_eq_iff_guarded Allocated compares start allocated

/-- A set of three bytes with a zero in the middle, and a lookup of the
first. -/
def truncatedHistory (second : UInt8) : List Delivery :=
  [(.set 0 UInt8.zero_and ⟨[107, second, 120], by simp⟩ ⟨[1], by simp [avlMaxPayload]⟩, allGranted),
    (.get 0 ⟨[107], by simp⟩ ⟨[], by simp⟩, allGranted)]

theorem truncatedHistory_allocated (second : UInt8) :
    forall delivery, delivery ∈ truncatedHistory second -> Allocated delivery := by
  intro delivery member
  simp only [truncatedHistory, List.mem_cons, List.not_mem_nil, or_false] at member
  rcases member with rfl | rfl <;> exact ⟨rfl, rfl, rfl, rfl⟩

theorem apartHistory_replies :
    replies (tcpStep bare) oneBucket (truncatedHistory 108) =
      [some (ascii "STORED\n"), some (ascii "NOT_FOUND\n")] := by
  have guarded : Guarded (fun bindings delivery => (wireStep bindings delivery).1) KeyApart []
      (truncatedHistory 108) := by
    refine ⟨trivial, ?_, trivial⟩
    intro binding found
    have none_stored : [([107, 108, 120], [1])].find?
        (fun binding : Bytes × Bytes => decide (cstr binding.1 = cstr [107])) = none := by decide
    exact absurd (none_stored.symm.trans found) (Option.some_ne_none binding).symm
  exact (tcp_keeps_texts bare 1 oneBucket rfl (truncatedHistory 108)
    (truncatedHistory_allocated 108)).2.mpr guarded

/-- The lookup of one byte is answered with the value of the three bytes. -/
theorem truncatedHistory_collides :
    replies (tcpStep bare) oneBucket (truncatedHistory 0) ≠ replies wireStep [] (truncatedHistory 0) := by
  decide

end Avalanche
end BugMuseum
