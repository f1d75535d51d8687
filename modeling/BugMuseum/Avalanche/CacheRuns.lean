import BugMuseum.Avalanche.BindingStore

namespace BugMuseum
namespace Avalanche

open Foundation

/-!
# Runs of the cache

A run is a list of sets, exact lookups and deletions.  Its replies are compared
with those of a list of bindings, and the picture of the chains holds in every
state of the run.
-/

inductive Op where
  | set (key : CStr) (val : Payload) (grant : SetGrant)
  | getRaw (key : CStr)
  | del (key : CStr) (fresh : Nat -> UInt8) (norm : Bool)

def Op.key : Op -> CStr
  | .set key _ _ => key
  | .getRaw key => key
  | .del key _ _ => key

/-- The allocations succeed, and a deleted key is its own normal form.
Otherwise the set would store nothing, or the deletion look for another
key. -/
def Offered : Op -> Prop
  | .set _ _ grant => grant = granted
  | .getRaw _ => True
  | .del key fresh norm => norm = true ∧ normalized key fresh = key

/-- What the caller learns: a status, an entry with its value bytes, no entry,
or an access through a null key. -/
inductive Reply where
  | status (code : Int)
  | entry (bytes : Option Bytes)
  | null
  | fault
  deriving DecidableEq

def getRawReply (c : Cache) (key : CStr) : Reply :=
  match cacheGetRaw c (some key) with
  | .found e => .entry (c.entry e).valueBytes
  | .absent => .null
  | .nullKey => .fault

def cacheStep (c : Cache) : Op -> Cache × Reply
  | .set key val grant =>
      let result := cacheSet c (some key) val grant
      (result.1, .status result.2)
  | .getRaw key => (c, getRawReply c key)
  | .del key fresh norm =>
      let result := cacheDel c (some key) fresh norm
      (result.1, match result.2 with
        | some code => .status code
        | none => .fault)

/-- The same calls on a list of bindings.  A set always adds a binding, and a
deletion takes the newest one of its key. -/
def bindingStep (bindings : List (CStr × Bytes)) : Op -> List (CStr × Bytes) × Reply
  | .set key val _ => ((key, val.bytes) :: bindings, .status cacheOk)
  | .getRaw key =>
      (bindings, match newest bindings key with
        | some bytes => .entry (some bytes)
        | none => .null)
  | .del key _ _ =>
      match newest bindings key with
      | some _ => (unbind bindings key, .status cacheOk)
      | none => (bindings, .status cacheEnotfound)

/-- The chains of the cache: each entry lies in the bucket of its key, the
counter is the number of chained entries, and a value is inlined exactly when
it is short. -/
structure Laws (c : Cache) (chain : Nat -> List Block) : Prop where
  walk : forall b, b < c.nbuckets -> Path c.link (c.buckets b) (chain b) none ∧ (chain b).Nodup
  live : forall b, b < c.nbuckets -> forall e, e ∈ chain b -> c.entries.Live e
  place : forall b, b < c.nbuckets -> forall e, e ∈ chain b ->
    exists copy, (c.entry e).key = some copy ∧ bucketOf c.nbuckets copy.text = b
  inlined : forall b, b < c.nbuckets -> forall e, e ∈ chain b ->
    ((c.entry e).value = .small ↔ (c.entry e).valueLen ≤ smallSize)
  count : ∑ b ∈ Finset.range c.nbuckets, (chain b).length < 2 ^ 32 ->
    c.count = ∑ b ∈ Finset.range c.nbuckets, (chain b).length

/-- What holds between two calls: the laws of the chains, that a stored value
of any length is read back byte for byte, and that no call changes what
another key returns. -/
structure Settled (c : Cache) : Prop where
  laws : exists chain, Laws c chain
  readBack : forall key val, getRawReply (cacheSet c (some key) val granted).1 key = .entry (some val.bytes)
  apart : forall op other, Offered op -> other ≠ op.key ->
    getRawReply (cacheStep c op).1 other = getRawReply c other

namespace Represents

variable {c : Cache} {bindings : List (CStr × Bytes)} {chain : Nat -> List Block}

theorem laws (rep : Represents c bindings chain) : Laws c chain where
  walk := fun b inside => ⟨(rep.chains b inside).path, (rep.chains b inside).nodup⟩
  live := fun b inside => (rep.chains b inside).live
  place := fun b inside e member => by
    rcases rep.home inside member with ⟨binding, bound, home⟩
    rcases binding_key bound with ⟨copy, hasKey, text⟩
    exact ⟨copy, hasKey, text ▸ home⟩
  inlined := fun b inside => (rep.chains b inside).inlined
  count := fun few => rep.count.trans (Nat.mod_eq_of_lt few)

theorem getRawReply_eq (rep : Represents c bindings chain) (key : CStr) :
    getRawReply c key =
      match newest bindings key with
      | some bytes => .entry (some bytes)
      | none => .null := by
  cases bound : newest bindings key with
  | some v =>
      rcases rep.getRaw_found bound with ⟨e, found, value⟩
      rw [getRawReply, found]
      simp only [value]
  | none => rw [getRawReply, rep.getRaw_absent bound]

/-- One call: the reply is that of the list, and the picture is kept.  Sets
and deletions were treated before, and a lookup only reads. -/
theorem step (rep : Represents c bindings chain) {op : Op} (offered : Offered op) :
    (cacheStep c op).2 = (bindingStep bindings op).2 ∧
      exists chain', Represents (cacheStep c op).1 (bindingStep bindings op).1 chain' := by
  cases op with
  | set key val grant =>
      cases offered
      have stored := cacheSet_granted c key val
      refine ⟨congrArg Reply.status stored.1, _, rep.insert stored.2⟩
  | getRaw key => exact ⟨rep.getRawReply_eq key, chain, rep⟩
  | del key fresh norm =>
      rcases offered with ⟨rfl, same⟩
      cases bound : newest bindings key with
      | some v =>
          rcases rep.del_found same (by rw [bound]; exact Option.some_ne_none v) with
            ⟨chain', status, after⟩
          simp only [cacheStep, bindingStep, bound, status]
          exact ⟨trivial, chain', after⟩
      | none =>
          simp only [cacheStep, bindingStep, bound, rep.del_absent same bound]
          exact ⟨trivial, chain, rep⟩

/-- What holds for the cache whatever the call.  All of it follows from the
picture, with no look at the calls that led there. -/
theorem settled (rep : Represents c bindings chain) : Settled c where
  laws := ⟨chain, rep.laws⟩
  readBack := fun key val => by
    rw [(rep.insert (cacheSet_granted c key val).2).getRawReply_eq, newest_cons_self]
  apart := fun op other offered different => by
    rcases rep.step offered with ⟨_, chain', after⟩
    rw [after.getRawReply_eq, rep.getRawReply_eq]
    have same : newest (bindingStep bindings op).1 other = newest bindings other := by
      cases op with
      | set key val grant => exact newest_cons_of_ne bindings val.bytes (Ne.symm different)
      | getRaw key => rfl
      | del key fresh norm =>
          rw [bindingStep]
          split
          · exact newest_unbind_of_ne bindings (Ne.symm different)
          · rfl
    rw [same]

end Represents

/-- The cache carries the bindings, on some chains. -/
def Carries (c : Cache) (bindings : List (CStr × Bytes)) : Prop :=
  exists chain, Represents c bindings chain

theorem Carries.step {c : Cache} {bindings : List (CStr × Bytes)} (carries : Carries c bindings)
    {op : Op} (offered : Offered op) :
    (cacheStep c op).2 = (bindingStep bindings op).2 ∧
      Carries (cacheStep c op).1 (bindingStep bindings op).1 := by
  rcases carries with ⟨chain, rep⟩
  exact rep.step offered

/-- The new cache carries no bindings, and all of its chains are empty. -/
theorem represents_cacheNew {nbuckets : UInt32} {c : Cache}
    (made : cacheNew nbuckets true true = some c) : Represents c [] fun _ => [] := by
  have positive : 0 < (if nbuckets = 0 then 256 else nbuckets).toNat := by
    split
    · decide
    · rename_i nonzero
      exact UInt32.pos_iff_ne_zero.mpr nonzero
  cases made
  refine ⟨positive, fun b _ => ?_, fun _ _ => rfl, ?_⟩
  · exact ⟨path_nil.mpr rfl, List.nodup_nil, List.forall_mem_nil _, rfl, List.forall_mem_nil _⟩
  · rw [List.length_nil, Finset.sum_const_zero, Nat.zero_mod]

/-- Whatever the number of buckets and however the keys collide, the cache
answers every call as a list of bindings does, and the laws of its chains hold
in every state of the run. -/
theorem cache_refines_bindings (nbuckets : UInt32) (c : Cache)
    (made : cacheNew nbuckets true true = some c) (ops : List Op)
    (offered : forall op, op ∈ ops -> Offered op) :
    replies cacheStep c ops = replies bindingStep [] ops ∧
      Throughout (fun c op => (cacheStep c op).1) Settled c ops := by
  have start : Carries c [] := ⟨_, represents_cacheNew made⟩
  refine ⟨?_, ?_⟩
  · exact (replies_of_simulation Offered (fun _ _ _ carries allowed => carries.step allowed)
      start offered).1
  · have carried : Throughout (fun c op => (cacheStep c op).1)
        (fun c => exists bindings, Carries c bindings) c ops := by
      apply throughout_of_invariant Offered ?_ ⟨[], start⟩ offered
      rintro c op ⟨bindings, carries⟩ allowed
      exact ⟨_, (carries.step allowed).2⟩
    apply carried.mono
    rintro c ⟨bindings, chain, rep⟩
    exact rep.settled

/-- Two keys in one bucket: the deletion uncovers the older value of its
key. -/
def collidingOps : List Op :=
  [.set (CStr.ofBlock [107]) (Payload.mk [1] (by decide)) granted,
    .set (CStr.ofBlock [108]) (Payload.mk [2, 3] (by decide)) granted,
    .set (CStr.ofBlock [107]) (Payload.mk (List.replicate 70 4) (by decide)) granted,
    .getRaw (CStr.ofBlock [107]), .del (CStr.ofBlock [107]) (fun _ => 0) true,
    .getRaw (CStr.ofBlock [107]), .getRaw (CStr.ofBlock [108])]

theorem collidingOps_offered : forall op, op ∈ collidingOps -> Offered op := by
  intro op member
  have own : normalized (CStr.ofBlock [107]) (fun _ => 0) = CStr.ofBlock [107] := by decide
  simp only [collidingOps, List.mem_cons, List.not_mem_nil, or_false] at member
  rcases member with rfl | rfl | rfl | rfl | rfl | rfl | rfl
  case inr.inr.inr.inr.inl => exact ⟨rfl, own⟩
  all_goals trivial

/-- What `CacheNew` returns for a single bucket. -/
def oneBucket : Cache where
  entries := .empty
  buckets := fun _ => none
  nbuckets := 1
  count := 0

theorem oneBucket_made : cacheNew 1 true true = some oneBucket :=
  rfl

theorem singleton_fits (byte : UInt8) : [byte].length < 2 ^ 32 := by
  simp

def oneByte (byte : UInt8) : Payload where
  bytes := [byte]
  fits := singleton_fits byte

/-- One bucket with one entry, for the key of one letter. -/
def oneKey : Cache :=
  (cacheSet oneBucket (some (CStr.ofBlock [107])) (oneByte 1) granted).1

theorem oneBucket_collidingOps :
    replies cacheStep oneBucket collidingOps =
        [.status 0, .status 0, .status 0, .entry (some (List.replicate 70 4)), .status 0,
          .entry (some [1]), .entry (some [2, 3])] ∧
      Throughout (fun c op => (cacheStep c op).1) Settled oneBucket collidingOps := by
  have refined := cache_refines_bindings 1 oneBucket rfl collidingOps collidingOps_offered
  refine ⟨refined.1.trans ?_, refined.2⟩
  decide

end Avalanche
end BugMuseum
