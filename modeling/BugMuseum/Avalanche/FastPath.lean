import BugMuseum.Avalanche.CacheRuns
import BugMuseum.Avalanche.Cached

namespace BugMuseum
namespace Avalanche

open Foundation

/-!
# The inline fast path

A set with `FLAG_FAST` runs a codec into a work buffer, links an empty entry and
copies the result into the entry's inline buffer.  With the identity codec the
result is the value, so up to the size of the buffer the entry is the one that a
plain set makes.  A longer value is copied past the buffer all the same.
-/

/-- What a client can see of an entry: its key, and the bytes of its value. -/
def Cache.contents (c : Cache) (e : Block) : Option CStr × Option Bytes :=
  (c.keyOf e, (c.entry e).valueBytes)

def isOverrun : Fault -> Bool
  | .overrun _ => true
  | .stale _ => false
  | .null => false

/-- The number of copies that went past an inline buffer.  Each of them is on
record in the heap of entries. -/
def Cache.overruns (c : Cache) : Nat :=
  c.entries.faults.countP isOverrun

/-- The same reply to every exact lookup, the same entries in every bucket and
the same count. -/
structure SameContents (c c' : Cache) : Prop where
  get : forall key, getReply c (cacheGetRaw c (some key)) = getReply c' (cacheGetRaw c' (some key))
  chain : forall b, (c.row b).map c.contents = (c'.row b).map c'.contents
  count : c.count = c'.count

theorem SameContents.refl (c : Cache) : SameContents c c where
  get := fun _ => rfl
  chain := fun _ => rfl
  count := rfl

/-- A change of an entry is no copy past its buffer; at most it is an access
to an entry that is not live. -/
theorem overruns_modify (heap : Heap CacheEntry) (e : Block) (change : CacheEntry -> CacheEntry) :
    (heap.modify e change).faults.countP isOverrun = heap.faults.countP isOverrun := by
  rw [Heap.modify_faults, Heap.touch]
  split
  · rfl
  · rw [List.countP_cons_of_neg]
    exact Bool.false_ne_true

theorem cacheInsertEmpty_overruns (c : Cache) (key : CStr) (grant : SetGrant) :
    (cacheInsertEmpty c (some key) grant).1.overruns = c.overruns := by
  rw [cacheInsertEmpty]
  split <;> rfl

theorem cacheSet_overruns (c : Cache) (key : CStr) (val : Payload) (grant : SetGrant) :
    (cacheSet c (some key) val grant).1.overruns = c.overruns := by
  rw [← cacheInsertEmpty_overruns c key grant, cacheSet]
  simp only
  split
  · rfl
  · split
    · exact overruns_modify ..
    · split
      · rfl
      · exact overruns_modify ..

/-- The request without its flags: a plain set of the same key and value. -/
def Request.plain (r : Request) : Request where
  header := { r.header with flags := 0 }
  key := r.key
  value := r.value
  fits := r.fits

theorem handleSet_plain (platform : Platform) (isTcp : Bool) (c : Cache) (r : Request)
    (grant : RequestGrant) :
    handleSet platform isTcp c r.plain grant =
      ((cacheSet c (some r.key) r.payload grant.set).1, ascii "STORED\n") := by
  have slow : ¬ r.plain.fast isTcp := by
    rintro ⟨_, flagged⟩
    exact flagged (UInt8.zero_and)
  rw [handleSet, if_neg slow]
  rfl

/-- Without a codec, or with the identity, the value is stored as it is. -/
theorem applyCodec_raw {codec : Option Codec} (raw : codec = none ∨ codec = some codecRaw) (value : Bytes) :
    applyCodec codec value = (value, (value.length : Int)) := by
  rcases raw with rfl | rfl
  · rfl
  · rw [applyCodec, codecRaw, if_neg (Nat.lt_irrefl _), List.take_length]

/-- The work buffer starts with the value, and what was in it before does not
matter. -/
theorem work_take {value : Bytes} {size : Nat} (room : value.length ≤ size) (residue : Nat -> UInt8) :
    (overwrite (freshBytes size residue) 0 value).take value.length = value := by
  apply take_overwrite_zero
  rwa [freshBytes_length]

/-- What the handler does on the fast path when it gets its work buffer and
its entry.  The codec is the identity, or there is none. -/
theorem handleSet_fast (platform : Platform) (c : Cache) (r : Request) {grant : RequestGrant}
    {residue : Nat -> UInt8} (fast : r.fast true)
    (raw : codecFor platform.codecs r.codecId = none ∨ codecFor platform.codecs r.codecId = some codecRaw)
    (work : grant.work = some residue) (entry : grant.set.entry = true) :
    (handleSet platform true c r grant).1 =
      cacheStoreFast platform.overrun (cacheInsertEmpty c (some r.key) grant.set).1 c.entries.next
        r.value.1 r.value.1.length := by
  have room : r.value.1.length ≤ if r.header.valueLen = 0 then 1 else r.header.valueLen := by
    rw [r.value.2]
    split <;> omega
  rw [handleSet, if_pos fast, work]
  simp only [applyCodec_raw raw, (cacheInsertEmpty_added c r.key entry).1]
  rw [if_neg (by omega), Int.toNat_natCast]
  simp only [cacheStoreFast, work_take room, List.take_length]

/-- Without its entry the handler changes nothing, whichever way it takes. -/
theorem handleSet_refused (platform : Platform) (isTcp : Bool) (c : Cache) (r : Request)
    {grant : RequestGrant} (entry : grant.set.entry = false) :
    (handleSet platform isTcp c r grant).1 = c := by
  have refused : cacheInsertEmpty c (some r.key) grant.set = (c, none) := by
    rw [cacheInsertEmpty, entry]
    rfl
  rw [handleSet]
  split
  · cases grant.work with
    | none => rfl
    | some residue => simp only [refused]
  · rw [cacheSet_refused c r.key r.payload entry]

/-- Nor does the fast path without its work buffer. -/
theorem handleSet_noWork (platform : Platform) (c : Cache) (r : Request) {grant : RequestGrant}
    (fast : r.fast true) (work : grant.work = none) : (handleSet platform true c r grant).1 = c := by
  rw [handleSet, if_pos fast, work]

/-- A value that fits is stored as a plain set stores it, down to the padding
of the buffer. -/
theorem cacheStoreFast_short (overrun : Option Block -> Bytes -> Option Block) (c : Cache) (r : Request)
    {grant : SetGrant} (entry : grant.entry = true) (short : r.header.valueLen ≤ smallSize) :
    cacheStoreFast overrun (cacheInsertEmpty c (some r.key) grant).1 c.entries.next r.value.1
        r.value.1.length =
      (cacheSet c (some r.key) r.payload grant).1 := by
  have inserted := cacheInsertEmpty_added c r.key entry
  have fits : r.value.1.length ≤ smallSize := r.value.2.trans_le short
  have plain : (cacheSet c (some r.key) r.payload grant).1 =
      { (cacheInsertEmpty c (some r.key) grant).1 with
        entries := (cacheInsertEmpty c (some r.key) grant).1.entries.modify c.entries.next fun old =>
          { old with small := overwrite old.small 0 r.value.1, value := .small,
                     valueLen := r.value.1.length } } := by
    rw [cacheSet]
    simp only [inserted.1]
    exact congrArg Prod.fst (if_pos fits)
  have cleared : ((cacheInsertEmpty c (some r.key) grant).1.entries.cell c.entries.next).small =
      List.replicate smallSize 0 := by
    rw [cacheInsertEmpty, entry]
    exact congrArg CacheEntry.small (Heap.alloc_cell_next ..)
  have bytes : overwrite (List.replicate smallSize (0 : UInt8)) 0 r.value.1 =
      r.value.1 ++ (List.replicate smallSize 0).drop r.value.1.length :=
    overwrite_zero (by rwa [List.length_replicate])
  rw [plain, cacheStoreFast]
  simp only [List.take_length, if_neg (Nat.not_lt.mpr fits)]
  refine congrArg (fun entries => Cache.mk entries _ _ _) (Heap.modify_congr _ ?_)
  rw [cleared, bytes]

/-- A copy goes past the buffer exactly when more than the buffer holds is
copied.  The recorded length is not what counts, but the bytes. -/
theorem cacheStoreFast_overruns (overrun : Option Block -> Bytes -> Option Block) (c : Cache) (e : Block)
    (src : Bytes) (declaredLen : Nat) :
    (cacheStoreFast overrun c e src declaredLen).overruns =
      c.overruns + if smallSize < (src.take declaredLen).length then 1 else 0 := by
  rw [cacheStoreFast]
  split
  · rw [Cache.overruns, Heap.flag, List.countP_cons_of_pos rfl, overruns_modify, Cache.overruns]
  · rw [Cache.overruns, overruns_modify, Cache.overruns, Nat.add_zero]

/-- A longer value is copied past the buffer, up to the limit of a request. -/
theorem cacheStoreFast_long (overrun : Option Block -> Bytes -> Option Block) (c : Cache) (r : Request)
    (grant : SetGrant) (long : smallSize < r.header.valueLen) :
    (cacheStoreFast overrun (cacheInsertEmpty c (some r.key) grant).1 c.entries.next r.value.1
        r.value.1.length).overruns = c.overruns + 1 := by
  have behind : smallSize < r.value.1.length := Nat.lt_of_lt_of_eq long r.value.2.symm
  rw [cacheStoreFast_overruns, List.take_length, if_pos behind, cacheInsertEmpty_overruns]

/-- The fast path leaves what a plain set leaves, without leaving the buffer,
exactly when no entry is made at all, or the work buffer is there and the
value fits. -/
theorem fastPath_agrees_iff (platform : Platform) (c : Cache) (r : Request) (grant : RequestGrant)
    (fast : r.fast true)
    (raw : codecFor platform.codecs r.codecId = none ∨ codecFor platform.codecs r.codecId = some codecRaw) :
    (SameContents (handleSet platform true c r grant).1 (handleSet platform true c r.plain grant).1 ∧
        (handleSet platform true c r grant).1.overruns = c.overruns) ↔
      grant.set.entry = false ∨ (grant.work.isSome = true ∧ r.header.valueLen ≤ smallSize) := by
  rw [handleSet_plain]
  cases entry : grant.set.entry with
  | false =>
      rw [handleSet_refused platform true c r entry, cacheSet_refused c r.key r.payload entry]
      exact iff_of_true ⟨.refl c, rfl⟩ (Or.inl rfl)
  | true =>
      have added := cacheSet_added c r.key r.payload entry
      cases work : grant.work with
      | none =>
          rw [handleSet_noWork platform c r fast work]
          refine iff_of_false (fun agrees => ?_) ?_
          · have count := agrees.1.count
            rw [added.count] at count
            omega
          · rintro (refused | ⟨allocated, _⟩)
            · cases refused
            · cases allocated
      | some residue =>
          rw [handleSet_fast platform c r fast raw work entry]
          by_cases short : r.header.valueLen ≤ smallSize
          · rw [cacheStoreFast_short platform.overrun c r entry short]
            exact iff_of_true ⟨.refl _, cacheSet_overruns ..⟩ (Or.inr ⟨rfl, short⟩)
          · refine iff_of_false (fun agrees => ?_) ?_
            · have more := cacheStoreFast_long platform.overrun c r grant.set (Nat.lt_of_not_le short)
              rw [agrees.2] at more
              omega
            · rintro (refused | ⟨_, fits⟩)
              · cases refused
              · exact short fits

def fastRequest (key : CStr) (value : Bytes) (fits : value.length ≤ avlMaxPayload) : Request where
  header := { op := opSet, flags := flagFast, keyLen := key.1.length, valueLen := value.length }
  key := key
  value := ⟨value, rfl⟩
  fits := fits

theorem fastRequest_agrees :
    SameContents (handleSet bare true oneKey (fastRequest (CStr.ofBlock [108]) [5, 6] (by decide)) allGranted).1
      (handleSet bare true oneKey (fastRequest (CStr.ofBlock [108]) [5, 6] (by decide)).plain allGranted).1 :=
  ((fastPath_agrees_iff bare oneKey (fastRequest (CStr.ofBlock [108]) [5, 6] (by decide)) allGranted
    ⟨rfl, by decide⟩ (Or.inl rfl)).mpr (Or.inr ⟨rfl, by decide⟩)).1

/-- Eighty zero bytes: the entry behind the new one is lost with its key, as
the copy reaches the pointer to it. -/
theorem fastRequest_disagrees :
    ¬ SameContents
      (handleSet bare true oneKey (fastRequest (CStr.ofBlock [108]) (List.replicate 80 0) (by decide))
        allGranted).1
      (handleSet bare true oneKey (fastRequest (CStr.ofBlock [108]) (List.replicate 80 0) (by decide)).plain
        allGranted).1 := by
  intro same
  have replies := same.get (CStr.ofBlock [107])
  revert replies
  decide

end Avalanche
end BugMuseum
