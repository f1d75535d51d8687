import BugMuseum.Foundation.ItemPrefix
import BugMuseum.Avalanche.WireKeys

namespace BugMuseum
namespace Avalanche

open Foundation

/-!
# Loading a snapshot

`cacheload` reads the entries of a snapshot file one by one and sets each in a fresh cache.
The first entry that it cannot read to its end, or that is too long, ends the loading, at
whichever of its fields, and no part of that entry is set.  The tag that is made of the
id of an entry is released unread.
-/

def avlDumpMagic : Bytes := ascii "AVL1"

def avlDumpMaxEntries : Nat := 65536

def avlDumpMaxKey : Nat := 4096

def avlDumpMaxValue : Nat := 2 ^ 20

/-- An entry on disk, with lengths that its fields can hold and that the
loader accepts. -/
structure SnapshotEntry where
  key : Bytes
  id : Bytes
  value : Bytes
  keyFits : key.length ≤ avlDumpMaxKey
  idFits : id.length < 2 ^ 8
  valueFits : value.length ≤ avlDumpMaxValue

def SnapshotEntry.encode (e : SnapshotEntry) : Bytes :=
  toLE 2 e.key.length ++ (e.key ++ (toLE 1 e.id.length ++ (e.id ++ (toLE 4 e.value.length ++ e.value))))

/-- A file with a header that announces so many entries, and with any bytes
behind the header. -/
def snapshotFile (count : Nat) (body : Bytes) : Bytes :=
  avlDumpMagic ++ (toLE 4 count ++ body)

theorem SnapshotEntry.valueLen_lt (e : SnapshotEntry) : e.value.length < 2 ^ 32 := by
  have fits := e.valueFits
  rw [avlDumpMaxValue] at fits
  omega

theorem SnapshotEntry.keyLen_lt (e : SnapshotEntry) : e.key.length < 2 ^ 16 := by
  have fits := e.keyFits
  rw [avlDumpMaxKey] at fits
  omega

/-- The value with its 32-bit length, as `CacheSet` takes it. -/
def SnapshotEntry.payload (e : SnapshotEntry) : Payload where
  bytes := e.value
  fits := e.valueLen_lt

/-- The outcomes of the allocations for one entry: its key, its id, its value,
and those of the set. -/
structure LoadGrant where
  key : Bool
  id : Bool
  value : Bool
  set : SetGrant

structure LoadEnv where
  cache : Bool
  buckets : Bool
  entry : Nat -> LoadGrant

/-- The exit code, and what is printed to `stderr`.  All refusals have the
same code, and only that of the header has a text. -/
structure Refusal where
  code : Int
  err : Bytes

/-- The cache as it is before `CacheFree`, and the counter, which is printed
and not compared with anything. -/
structure Loaded where
  cache : Cache
  loaded : Nat

/-- What is printed at the end.  It counts the sets, whatever came of them. -/
def Loaded.out (l : Loaded) : Bytes :=
  ascii "loaded " ++ decimal l.loaded ++ ascii " entrie(s)\n"

/-- The reads of one turn of the loop.  Each failure is one of its breaks. -/
def readSnapshotEntry (grant : LoadGrant) (input : Bytes) : Except Unit (SnapshotEntry × Bytes) := do
  let (keyLen, input) ← takeField () 2 input
  let keyFits ← atMost () keyLen.toNat avlDumpMaxKey
  failIf () (grant.key = false)
  let (key, input) ← takeField () keyLen.toNat input
  let (idLen, input) ← takeField () 1 input
  failIf () (grant.id = false)
  let (id, input) ← takeField () idLen.toNat input
  let (valueLen, input) ← takeField () 4 input
  let valueFits ← atMost () valueLen.toNat avlDumpMaxValue
  failIf () (grant.value = false)
  let (value, input) ← takeField () valueLen.toNat input
  return (⟨key.1, id.1, value.1, key.2.trans_le keyFits.down, id.2.trans_lt idLen.toNat_lt,
    value.2.trans_le valueFits.down⟩, input)

/-- `CacheSet(cache, key, value, value_len);`, of which the result is not
used. -/
def loadEntry (cache : Cache) (e : SnapshotEntry) (grant : SetGrant) : Cache :=
  (cacheSet cache (some (cstr e.key)) e.payload grant).1

/-- The loop from entry `i` on, with the number of entries that are still
announced. -/
def loadFrom (grant : Nat -> LoadGrant) : Nat -> Nat -> Loaded -> Bytes -> Loaded
  | 0, _, l, _ => l
  | left + 1, i, l, input =>
      match readSnapshotEntry (grant i) input with
      | .error _ => l
      | .ok (e, rest) =>
          let set := loadEntry l.cache e (grant i).set
          loadFrom grant left (i + 1) { cache := set, loaded := (l.loaded + 1) % 2 ^ 32 } rest

def badSnapshot : Refusal where
  code := 1
  err := ascii "cacheload: bad snapshot\n"

def silentRefusal : Refusal where
  code := 1
  err := []

/-- The two fields of a header. -/
theorem magic_inside : 0 + 4 ≤ 8 := by
  decide

theorem count_inside : 4 + 4 ≤ 8 := by
  decide

/-- `wmain` on an opened file, up to `CacheFree`.  Only a bad header has a
message. -/
def cacheload (env : LoadEnv) (file : Bytes) : Except Refusal Loaded := do
  let (h, body) ← takeField badSnapshot 8 file
  failIf badSnapshot ((h.slice 0 4 magic_inside).1 ≠ avlDumpMagic)
  let count := (h.slice 4 4 count_inside).toNat
  failIf silentRefusal (count > avlDumpMaxEntries)
  match cacheNew 1024 env.cache env.buckets with
  | none => .error silentRefusal
  | some cache => return loadFrom env.entry count 0 { cache, loaded := 0 } body

/-! ## What a snapshot stands for -/

/-- All allocations succeed, for the cache and for each entry. -/
structure LoadEnv.Succeeds (env : LoadEnv) : Prop where
  cache : env.cache = true
  buckets : env.buckets = true
  entry : forall i, env.entry i = { key := true, id := true, value := true, set := granted }

/-- The text of the key, and the value.  What follows a zero byte in the key
is lost. -/
def SnapshotEntry.binding (e : SnapshotEntry) : CStr × Bytes :=
  (cstr e.key, e.value)

/-- The result is that of setting the complete entries in front, as many as
are announced, in a fresh cache.  It carries their bindings and no others, and
is the same for any file with these entries in front. -/
structure SnapshotLoaded (env : LoadEnv) (count : Nat) (body : Bytes) (l : Loaded) : Prop where
  run : cacheload env (snapshotFile count body) = .ok l
  sets : exists fresh entries, cacheNew 1024 true true = some fresh ∧
    LongestFront SnapshotEntry.encode count body entries ∧
    l.cache = entries.foldl (fun cache e => loadEntry cache e granted) fresh ∧ l.loaded = entries.length ∧
    Carries l.cache (entries.reverse.map SnapshotEntry.binding)
  tail : forall entries count' body', LongestFront SnapshotEntry.encode count body entries ->
    LongestFront SnapshotEntry.encode count' body' entries -> count' ≤ avlDumpMaxEntries ->
    cacheload env (snapshotFile count' body') = .ok l

def allLoaded : LoadGrant where
  key := true
  id := true
  value := true
  set := granted

/-- What is read is what was written, and what was written is read. -/
theorem readSnapshotEntry_inverts : Inverts SnapshotEntry.encode (readSnapshotEntry allLoaded) := by
  intro input e rest
  simp only [readSnapshotEntry, bind_eq_ok, Prod.exists, takeField_eq_ok, failIf_eq_ok]
  constructor
  · rintro ⟨keyLen, _, rfl, keyFits, _, _, _, key, _, rfl, idLen, _, rfl, _, _, id, _, rfl, valueLen, _, rfl,
      valueFits, _, _, _, value, _, rfl, result⟩
    cases result
    have lengths : toLE 2 key.1.length = keyLen.1 ∧ toLE 1 id.1.length = idLen.1 ∧
        toLE 4 value.1.length = valueLen.1 := by
      rw [key.2, id.2, value.2]
      exact ⟨congrArg Subtype.val keyLen.ofNat_toNat, congrArg Subtype.val idLen.ofNat_toNat,
        congrArg Subtype.val valueLen.ofNat_toNat⟩
    simp only [SnapshotEntry.encode, lengths, List.append_assoc]
  · intro split
    have keyLen : (Field.ofNat 2 e.key.length).toNat = e.key.length := Field.toNat_ofNat e.keyLen_lt
    have idLen : (Field.ofNat 1 e.id.length).toNat = e.id.length := Field.toNat_ofNat e.idFits
    have valueLen : (Field.ofNat 4 e.value.length).toNat = e.value.length := Field.toNat_ofNat e.valueLen_lt
    have within := keyLen.trans_le e.keyFits
    have valueWithin := valueLen.trans_le e.valueFits
    refine ⟨.ofNat 2 e.key.length, _, ?_, ⟨within⟩, atMost_of_le within, (), Bool.noConfusion, ⟨e.key, keyLen.symm⟩, _,
      rfl, .ofNat 1 e.id.length, _, rfl, (), Bool.noConfusion, ⟨e.id, idLen.symm⟩, _, rfl,
      .ofNat 4 e.value.length, _, rfl, ⟨valueWithin⟩, atMost_of_le valueWithin, (), Bool.noConfusion,
      ⟨e.value, valueLen.symm⟩, rest, rfl, rfl⟩
    rw [split, SnapshotEntry.encode]
    simp only [List.append_assoc]
    rfl

/-- The entries that are set: the longest front of complete entries, up to the
announced number. -/
def entriesIn (count : Nat) (body : Bytes) : List SnapshotEntry :=
  itemsIn (readSnapshotEntry allLoaded) count body

theorem entriesIn_longest (count : Nat) (body : Bytes) :
    LongestFront SnapshotEntry.encode count body (entriesIn count body) :=
  readSnapshotEntry_inverts.longestFront count body

/-- The loop sets the entries in front one by one, and counts them.  The
induction is on the announced number. -/
theorem loadFrom_eq {grant : Nat -> LoadGrant} (succeeds : forall i, grant i = allLoaded) {left : Nat} (i : Nat)
    {l : Loaded} (few : l.loaded + left < 2 ^ 32) (body : Bytes) :
    loadFrom grant left i l body =
      { cache := (entriesIn left body).foldl (fun cache e => loadEntry cache e granted) l.cache
        loaded := l.loaded + (entriesIn left body).length } := by
  induction left generalizing i l body with
  | zero => rfl
  | succ left inductionHypothesis =>
      rw [loadFrom, entriesIn, itemsIn, succeeds i]
      cases readSnapshotEntry allLoaded body with
      | error _ => rfl
      | ok taken =>
          have counted : (l.loaded + 1) % 2 ^ 32 = l.loaded + 1 := Nat.mod_eq_of_lt (by omega)
          dsimp only
          rw [counted, inductionHypothesis (i + 1) (by dsimp only; omega), List.foldl_cons, List.length_cons,
            Nat.add_right_comm, Nat.add_assoc]
          rfl

/-- Setting entries adds their bindings in front of those that were there. -/
theorem carries_loadEntry {cache : Cache} {bindings : List (CStr × Bytes)} (carries : Carries cache bindings)
    (entries : List SnapshotEntry) :
    Carries (entries.foldl (fun cache e => loadEntry cache e granted) cache)
      (entries.reverse.map SnapshotEntry.binding ++ bindings) := by
  induction entries generalizing cache bindings with
  | nil => exact carries
  | cons e later inductionHypothesis =>
      have set := (@Carries.step _ _ carries (.set (cstr e.key) e.payload granted) rfl).2
      have all := inductionHypothesis set
      rw [List.reverse_cons, List.map_append, List.append_assoc]
      exact all

/-- What `CacheNew(1024)` returns. -/
def freshCache : Cache where
  entries := .empty
  buckets := fun _ => none
  nbuckets := 1024
  count := 0

theorem freshCache_made : cacheNew 1024 true true = some freshCache :=
  rfl

section File

variable {env : LoadEnv}

/-- The header of a file that announces so many entries, as one field of eight
bytes. -/
def snapshotHeader (count : Nat) : Field 8 :=
  ⟨avlDumpMagic ++ toLE 4 count, by
    rw [List.length_append, toLE_length]
    rfl⟩

theorem snapshotHeader_magic (count : Nat) : ((snapshotHeader count).slice 0 4 magic_inside).1 = avlDumpMagic :=
  slice_append [] avlDumpMagic (toLE 4 count) rfl rfl

theorem snapshotHeader_count {count : Nat} (within : count ≤ avlDumpMaxEntries) :
    ((snapshotHeader count).slice 4 4 count_inside).toNat = count := by
  have field := slice_append avlDumpMagic (toLE 4 count) [] rfl (toLE_length ..)
  rw [List.append_nil] at field
  have small : count < 256 ^ 4 := Nat.lt_of_le_of_lt within (by decide)
  exact (congrArg ofLE field).trans (ofLE_toLE small)

/-- A file with a valid header is loaded by the loop, from an empty cache
on. -/
theorem cacheload_eq (succeeds : env.Succeeds) {count : Nat} (within : count ≤ avlDumpMaxEntries) (body : Bytes) :
    cacheload env (snapshotFile count body) =
      .ok { cache := (entriesIn count body).foldl (fun cache e => loadEntry cache e granted) freshCache
            loaded := (entriesIn count body).length } := by
  have split : snapshotFile count body = (snapshotHeader count).1 ++ body := by
    rw [snapshotFile, snapshotHeader, List.append_assoc]
  have announced := snapshotHeader_count within
  have few : 0 + count < 2 ^ 32 := by
    rw [avlDumpMaxEntries] at within
    omega
  have looped := loadFrom_eq succeeds.entry 0 (l := { cache := freshCache, loaded := 0 }) few body
  rw [Nat.zero_add] at looped
  refine bind_eq_ok.mpr ⟨_, (takeField_eq_ok badSnapshot).mpr split,
    bind_eq_ok.mpr ⟨(), ?_, bind_eq_ok.mpr ⟨(), ?_, ?_⟩⟩⟩
  · exact failIf_eq_ok.mpr (not_not.mpr (snapshotHeader_magic count))
  · exact failIf_eq_ok.mpr (Nat.not_lt.mpr (announced.trans_le within))
  · rw [announced, succeeds.cache, succeeds.buckets, freshCache_made, ← looped]
    rfl

/-- A file that is loaded has a valid header: the magic, and a number of
entries within the limit. -/
theorem header_of_loaded {file : Bytes} {l : Loaded} (loads : cacheload env file = .ok l) :
    exists count body, file = snapshotFile count body ∧ count ≤ avlDumpMaxEntries := by
  rcases bind_eq_ok.mp loads with ⟨⟨h, body⟩, taken, afterHeader⟩
  rcases bind_eq_ok.mp afterHeader with ⟨_, magic, afterMagic⟩
  rcases bind_eq_ok.mp afterMagic with ⟨_, count, _⟩
  have sameMagic := not_not.mp (failIf_eq_ok.mp magic)
  have within := Nat.not_lt.mp (failIf_eq_ok.mp count)
  refine ⟨(h.slice 4 4 count_inside).toNat, body, ?_, within⟩
  have countField : toLE 4 (h.slice 4 4 count_inside).toNat = slice h.1 4 4 := toLE_slice (h.2.ge.trans' (by decide))
  have all := slice_all h.1
  rw [h.2] at all
  have parts : h.1 = slice h.1 0 4 ++ slice h.1 4 4 := by
    calc h.1 = slice h.1 0 (4 + 4) := all.symm
      _ = _ := slice_add ..
  rw [(takeField_eq_ok badSnapshot).mp taken, snapshotFile, countField, ← List.append_assoc, ← sameMagic]
  exact congrArg (· ++ body) parts

/-- Every refusal has the exit code 1, whether or not it has a message. -/
theorem refusal_code {file : Bytes} {refusal : Refusal} (refused : cacheload env file = .error refusal) :
    refusal.code = 1 := by
  have listed : FailsIn [badSnapshot, silentRefusal] (cacheload env file) := by
    apply FailsIn.bind (.takeField (by simp) _ _)
    intro taken
    apply FailsIn.bind (.failIf (by simp) _)
    intro _
    apply FailsIn.bind (.failIf (by simp) _)
    intro _
    split
    · intro code failed
      cases failed
      exact List.mem_cons_of_mem _ List.mem_cons_self
    · exact .ok _
  rcases List.mem_pair.mp (listed refusal refused) with rfl | rfl
  · rfl
  · rfl

/-- Every file with a valid header is loaded up to its last complete entry, at
most as many as the header announces, and every other file is refused. -/
theorem cacheload_snapshot (succeeds : env.Succeeds) (file : Bytes) :
    (forall count body, file = snapshotFile count body -> count ≤ avlDumpMaxEntries ->
        exists l, SnapshotLoaded env count body l) ∧
      ((¬ exists count body, file = snapshotFile count body ∧ count ≤ avlDumpMaxEntries) ->
        exists refusal, cacheload env file = .error refusal ∧ refusal.code = 1) := by
  constructor
  · intro count body _ within
    have run := cacheload_eq succeeds within body
    have longest := entriesIn_longest count body
    refine ⟨_, run, ⟨freshCache, entriesIn count body, freshCache_made, longest, rfl, rfl, ?_⟩, ?_⟩
    · have carries := carries_loadEntry ⟨_, represents_cacheNew freshCache_made⟩ (entriesIn count body)
      rwa [List.append_nil] at carries
    · intro entries count' body' front frontOther withinOther
      have same : entriesIn count' body' = entriesIn count body :=
        ((entriesIn_longest count' body').unique frontOther).trans (front.unique longest)
      rw [cacheload_eq succeeds withinOther, same]
  · intro invalid
    cases loads : cacheload env file with
    | error refusal => exact ⟨refusal, rfl, refusal_code loads⟩
    | ok l => exact absurd (header_of_loaded loads) invalid

end File

def allAllocated : LoadEnv where
  cache := true
  buckets := true
  entry := fun _ => allLoaded

theorem allAllocated_succeeds : allAllocated.Succeeds where
  cache := rfl
  buckets := rfl
  entry := fun _ => rfl

/-- Two entries are announced; the second ends inside its value. -/
def tornFile : Bytes :=
  snapshotFile 2 ([1, 0, 107, 2, 7, 7, 1, 0, 0, 0, 5] ++ [1, 0, 108, 0, 2, 0, 0, 0, 6])

theorem tornFile_loaded :
    exists l, SnapshotLoaded allAllocated 2 ([1, 0, 107, 2, 7, 7, 1, 0, 0, 0, 5] ++ [1, 0, 108, 0, 2, 0, 0, 0, 6]) l :=
  (cacheload_snapshot allAllocated_succeeds tornFile).1 2 _ rfl (by decide)

end Avalanche
end BugMuseum
