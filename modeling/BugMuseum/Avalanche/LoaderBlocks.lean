import BugMuseum.Avalanche.CacheFree
import BugMuseum.Avalanche.Snapshot

namespace BugMuseum
namespace Avalanche

open Foundation

/-!
# The blocks of the loader

`cacheload` once more, with the blocks of its loop beside those of the cache.  Each break of
the loop releases what its turn has allocated by then, and a turn that comes to its end
releases everything behind `CacheSet`, which has copied the key and the value.  So for every
file, well formed or not, and whichever allocations fail, the loader leaks nothing.

What `CacheDecodeId` and `dup_key` write behind their blocks is taken to do no harm.
-/

theorem keyWithin (keyLen : Field 2) (fits : PLift (keyLen.toNat ≤ avlDumpMaxKey)) (key : Field keyLen.toNat) :
    key.1.length ≤ avlDumpMaxKey :=
  key.2.trans_le fits.down

theorem idWithin (idLen : Field 1) (id : Field idLen.toNat) : id.1.length < 2 ^ 8 :=
  id.2.trans_lt idLen.toNat_lt

theorem valueWithin (valueLen : Field 4) (fits : PLift (valueLen.toNat ≤ avlDumpMaxValue))
    (value : Field valueLen.toNat) : value.1.length ≤ avlDumpMaxValue :=
  value.2.trans_le fits.down

/-- What a turn holds when it comes to `CacheSet`: an entry with the blocks of
its fields, and the input behind it. -/
structure LoadTurn where
  entry : SnapshotEntry
  key : Block
  decoded : Option Block
  value : Block
  rest : Bytes

/-- The key with its block, and the bytes of the id with the tag that was made
of them. -/
structure HeldFields where
  keyBytes : Bytes
  keyFits : keyBytes.length ≤ avlDumpMaxKey
  idBytes : Bytes
  idFits : idBytes.length < 2 ^ 8
  key : Block
  decoded : Option Block

/-- `free(key); free(decoded);` -/
def HeldFields.free (held : HeldFields) (blocks : Heap Unit) : Heap Unit :=
  (blocks.release held.key).releaseAt held.decoded

/-- A turn from the length of the value on.  A break releases the key and the
tag, which were made before. -/
def readValueBlocks (grant : LoadGrant) (held : HeldFields) (blocks : Heap Unit) (input : Bytes) :
    Heap Unit × Except Unit LoadTurn :=
  match takeField () 4 input with
  | .error _ => (held.free blocks, .error ())
  | .ok (valueLen, input) =>
      match atMost () valueLen.toNat avlDumpMaxValue with
      | .error _ => (held.free blocks, .error ())
      | .ok valueFits =>
          if grant.value = false then (held.free blocks, .error ())
          else
            let value := blocks.next
            let blocks := (blocks.alloc ()).touch value
            match takeField () valueLen.toNat input with
            | .error _ => ((held.free blocks).release value, .error ())
            | .ok (bytes, rest) =>
                (blocks, .ok
                  { entry :=
                      ⟨held.keyBytes, held.idBytes, bytes.1, held.keyFits, held.idFits,
                        valueWithin valueLen valueFits bytes⟩
                    key := held.key, decoded := held.decoded, value, rest })

/-- A turn from the length of the id on, with the key in its block.  The id
itself is released as soon as the tag is made. -/
def readIdBlocks (grant : LoadGrant) (tag : Bool) (key : Block) (keyBytes : Bytes)
    (keyFits : keyBytes.length ≤ avlDumpMaxKey) (blocks : Heap Unit) (input : Bytes) :
    Heap Unit × Except Unit LoadTurn :=
  match takeField () 1 input with
  | .error _ => (blocks.release key, .error ())
  | .ok (idLen, input) =>
      if grant.id = false then (blocks.release key, .error ())
      else
        let id := blocks.next
        let blocks := (blocks.alloc ()).touch id
        match takeField () idLen.toNat input with
        | .error _ => ((blocks.release key).release id, .error ())
        | .ok (bytes, input) =>
            -- `CacheDecodeId` reads the id only when it has a block for the tag
            let decoded := if tag then some blocks.next else none
            let blocks := if tag then (blocks.alloc ()).touch id else blocks
            readValueBlocks grant
              { keyBytes, keyFits, idBytes := bytes.1, idFits := idWithin idLen bytes, key, decoded }
              (blocks.release id) input

/-- The reads of one turn of the loop, and what their breaks release; `tag` is
the grant of `CacheDecodeId`. -/
def readTurnBlocks (grant : LoadGrant) (tag : Bool) (blocks : Heap Unit) (input : Bytes) :
    Heap Unit × Except Unit LoadTurn :=
  match takeField () 2 input with
  | .error _ => (blocks, .error ())
  | .ok (keyLen, input) =>
      match atMost () keyLen.toNat avlDumpMaxKey with
      | .error _ => (blocks, .error ())
      | .ok keyFits =>
          if grant.key = false then (blocks, .error ())
          else
            let key := blocks.next
            let blocks := (blocks.alloc ()).touch key
            match takeField () keyLen.toNat input with
            | .error _ => (blocks.release key, .error ())
            | .ok (bytes, input) =>
                readIdBlocks grant tag key bytes.1 (keyWithin keyLen keyFits bytes) (blocks.touch key) input

/-- `CacheSet` reads the key and the value, which are then released. -/
def LoadTurn.settle (turn : LoadTurn) (blocks : Heap Unit) : Heap Unit :=
  (((((blocks.touch turn.key).touch turn.value).release turn.key).releaseAt turn.decoded).release turn.value)

/-- The cache with its blocks, the blocks of the loop, and the counter. -/
structure LoadedBlocks where
  memory : Memory
  blocks : Heap Unit
  loaded : Nat

def LoadedBlocks.result (l : LoadedBlocks) : Loaded where
  cache := l.memory.cache
  loaded := l.loaded

/-- The loop from entry `i` on.  A break ends it without a message. -/
def loadBlocksFrom (grant : Nat -> LoadGrant) (tag : Nat -> Bool) : Nat -> Nat -> LoadedBlocks -> Bytes -> LoadedBlocks
  | 0, _, l, _ => l
  | left + 1, i, l, input =>
      let read := readTurnBlocks (grant i) (tag i) l.blocks input
      match read.2 with
      | .error _ => { l with blocks := read.1 }
      | .ok turn =>
          let set := (l.memory.cacheSet (cstr turn.entry.key) turn.entry.payload (grant i).set).1
          loadBlocksFrom grant tag left (i + 1)
            { memory := set, blocks := turn.settle read.1, loaded := (l.loaded + 1) % 2 ^ 32 } turn.rest

/-- `wmain` on an opened file, with what it leaves of the tables when there is
no cache. -/
def cacheloadBlocks (env : LoadEnv) (tag : Nat -> Bool) (file : Bytes) : Heap Unit × Except Refusal LoadedBlocks :=
  match takeField badSnapshot 8 file with
  | .error refusal => (.empty, .error refusal)
  | .ok (h, body) =>
      if (h.slice 0 4 magic_inside).1 ≠ avlDumpMagic then (.empty, .error badSnapshot)
      else if (h.slice 4 4 count_inside).toNat > avlDumpMaxEntries then (.empty, .error silentRefusal)
      else
        let made := Memory.cacheNew 1024 env.cache env.buckets
        match made.2 with
        | none => (made.1, .error silentRefusal)
        | some memory =>
            (made.1, .ok (loadBlocksFrom env.entry tag (h.slice 4 4 count_inside).toNat 0
              { memory, blocks := .empty, loaded := 0 } body))

/-! ## One turn -/

/-- What a turn holds: nothing after a break, and otherwise the key, the tag
if there is one, and the value. -/
def LoadTurn.held : Except Unit LoadTurn -> List Block
  | .error _ => []
  | .ok turn => turn.value :: (turn.decoded.toList ++ [turn.key])

/-- The entry of a turn and the input behind it. -/
def LoadTurn.taken (turn : LoadTurn) : SnapshotEntry × Bytes :=
  (turn.entry, turn.rest)

section Reads

variable {grant : LoadGrant} {blocks : Heap Unit}

theorem HeldFields.free_retains (held : HeldFields) {others : List Block}
    (holds : Retains blocks (held.decoded.toList ++ held.key :: others)) : Retains (held.free blocks) others :=
  (holds.perm List.perm_middle).release.releaseAt

theorem readValueBlocks_retains (held : HeldFields) (input : Bytes)
    (holds : Retains blocks (held.decoded.toList ++ [held.key])) :
    Retains (readValueBlocks grant held blocks input).1
      (LoadTurn.held (readValueBlocks grant held blocks input).2) := by
  have freed := held.free_retains holds
  rw [readValueBlocks]
  cases takeField () 4 input with
  | error _ => exact freed
  | ok length =>
      dsimp only
      cases atMost () length.1.toNat avlDumpMaxValue with
      | error _ => exact freed
      | ok valueFits =>
          dsimp only
          by_cases refused : grant.value = false
          · rw [if_pos refused]
            exact freed
          · rw [if_neg refused]
            have grown := holds.alloc ()
            have touched := grown.touch_eq List.mem_cons_self
            rw [touched]
            cases takeField () length.1.toNat length.2 with
            | error _ =>
                have last := grown.perm (List.perm_append_singleton ..).symm
                rw [List.append_assoc] at last
                exact (held.free_retains last).release
            | ok taken => exact grown

theorem readIdBlocks_retains (tag : Bool) {key : Block} {keyBytes : Bytes}
    (keyFits : keyBytes.length ≤ avlDumpMaxKey) (input : Bytes) (holds : Retains blocks [key]) :
    Retains (readIdBlocks grant tag key keyBytes keyFits blocks input).1
      (LoadTurn.held (readIdBlocks grant tag key keyBytes keyFits blocks input).2) := by
  have freed := holds.release
  rw [readIdBlocks]
  cases takeField () 1 input with
  | error _ => exact freed
  | ok length =>
      dsimp only
      by_cases refused : grant.id = false
      · rw [if_pos refused]
        exact freed
      · rw [if_neg refused]
        have grown := holds.alloc ()
        rw [grown.touch_eq List.mem_cons_self]
        cases takeField () length.1.toNat length.2 with
        | error _ => exact (grown.perm (.swap ..)).release.release
        | ok taken =>
            dsimp only
            cases tag with
            | false =>
                simp only [Bool.false_eq_true, if_false]
                exact readValueBlocks_retains _ _ grown.release
            | true =>
                have tagged := (grown.alloc ()).perm (.swap ..)
                simp only [if_true]
                rw [tagged.touch_eq List.mem_cons_self]
                exact readValueBlocks_retains _ _ tagged.release

/-- A break keeps nothing, and a turn that goes on holds its key, its tag and
its value. -/
theorem readTurnBlocks_retains (tag : Bool) (input : Bytes) (holds : Retains blocks []) :
    Retains (readTurnBlocks grant tag blocks input).1 (LoadTurn.held (readTurnBlocks grant tag blocks input).2) := by
  rw [readTurnBlocks]
  cases takeField () 2 input with
  | error _ => exact holds
  | ok length =>
      dsimp only
      cases atMost () length.1.toNat avlDumpMaxKey with
      | error _ => exact holds
      | ok keyFits =>
          dsimp only
          by_cases refused : grant.key = false
          · rw [if_pos refused]
            exact holds
          · rw [if_neg refused]
            have grown := holds.alloc ()
            rw [grown.touch_eq List.mem_cons_self]
            cases takeField () length.1.toNat length.2 with
            | error _ => exact grown.release
            | ok taken =>
                dsimp only
                rw [grown.touch_eq List.mem_cons_self]
                exact readIdBlocks_retains tag _ _ grown

/-- The blocks are those of the reads that `cacheload` makes, so following
them changes no entry. -/
theorem readTurnBlocks_eq (tag : Bool) (input : Bytes) :
    (readTurnBlocks grant tag blocks input).2.map LoadTurn.taken = readSnapshotEntry grant input := by
  rw [readTurnBlocks, readSnapshotEntry]
  dsimp only [bind, Except.bind]
  cases takeField () 2 input with
  | error _ => rfl
  | ok keyLen =>
      dsimp only
      cases atMost () keyLen.1.toNat avlDumpMaxKey with
      | error _ => rfl
      | ok keyFits =>
          dsimp only [failIf]
          by_cases noKey : grant.key = false
          · rw [if_pos noKey, if_pos noKey]
            rfl
          · rw [if_neg noKey, if_neg noKey]
            dsimp only
            cases takeField () keyLen.1.toNat keyLen.2 with
            | error _ => rfl
            | ok key =>
                dsimp only
                rw [readIdBlocks]
                cases takeField () 1 key.2 with
                | error _ => rfl
                | ok idLen =>
                    dsimp only
                    by_cases noId : grant.id = false
                    · rw [if_pos noId, if_pos noId]
                      rfl
                    · rw [if_neg noId, if_neg noId]
                      dsimp only
                      cases takeField () idLen.1.toNat idLen.2 with
                      | error _ => rfl
                      | ok id =>
                          dsimp only
                          rw [readValueBlocks]
                          cases takeField () 4 id.2 with
                          | error _ => rfl
                          | ok valueLen =>
                              dsimp only
                              cases atMost () valueLen.1.toNat avlDumpMaxValue with
                              | error _ => rfl
                              | ok valueFits =>
                                  dsimp only
                                  by_cases noValue : grant.value = false
                                  · rw [if_pos noValue, if_pos noValue]
                                    rfl
                                  · rw [if_neg noValue, if_neg noValue]
                                    dsimp only
                                    cases takeField () valueLen.1.toNat valueLen.2 with
                                    | error _ => rfl
                                    | ok value => rfl

theorem LoadTurn.settle_retains (turn : LoadTurn) (holds : Retains blocks (LoadTurn.held (.ok turn))) :
    Retains (turn.settle blocks) [] := by
  have placed : (LoadTurn.held (.ok turn)).Perm (turn.key :: (turn.decoded.toList ++ [turn.value])) := by
    rw [LoadTurn.held]
    refine (List.perm_append_singleton turn.value _).symm.trans ?_
    rw [List.append_assoc]
    exact List.perm_middle
  have moved := holds.perm placed
  have value : turn.value ∈ turn.key :: (turn.decoded.toList ++ [turn.value]) :=
    List.mem_cons_of_mem _ List.mem_concat_self
  rw [LoadTurn.settle, moved.touch_eq List.mem_cons_self, moved.touch_eq value]
  exact moved.release.releaseAt.release

end Reads

/-- The loop leaves no block of its own, and the cache is that of `loadFrom`.
The induction is on the number of entries that the header announces. -/
theorem loadBlocksFrom_keeps (grant : Nat -> LoadGrant) (tag : Nat -> Bool) {left i : Nat} {l : LoadedBlocks}
    (input : Bytes) (holds : Retains l.blocks []) (kept : l.memory.Kept False) :
    Retains (loadBlocksFrom grant tag left i l input).blocks [] ∧
      (loadBlocksFrom grant tag left i l input).memory.Kept False ∧
      loadFrom grant left i l.result input = (loadBlocksFrom grant tag left i l input).result := by
  induction left generalizing i l input with
  | zero => exact ⟨holds, kept, rfl⟩
  | succ left inductionHypothesis =>
      have reads := @readTurnBlocks_eq (grant i) l.blocks (tag i) input
      have held := @readTurnBlocks_retains (grant i) l.blocks (tag i) input holds
      rw [loadBlocksFrom, loadFrom, ← reads]
      dsimp only
      generalize readTurnBlocks (grant i) (tag i) l.blocks input = read at held ⊢
      rcases read with ⟨blocks, _ | turn⟩
      · exact ⟨held, kept, rfl⟩
      · rcases kept with ⟨rows, keeps⟩
        have set : (l.memory.cacheSet (cstr turn.entry.key) turn.entry.payload (grant i).set).1.Kept False :=
          keeps.cacheSet _ _ fun impossible => impossible.elim
        have later := @inductionHypothesis (i + 1)
          { memory := _, blocks := turn.settle blocks, loaded := (l.loaded + 1) % 2 ^ 32 } turn.rest
          (turn.settle_retains held) set
        simp only [LoadedBlocks.result, Memory.cacheSet_cache] at later
        exact later

/-- What `cacheload` comes to, and no block is left: of the loop, of the cache
that it frees, or of the cache that could not be made. -/
structure LeavesNothing (outcome : Except Refusal Loaded) (run : Heap Unit × Except Refusal LoadedBlocks) :
    Prop where
  agrees : run.2.map LoadedBlocks.result = outcome
  refused : forall refusal, run.2 = .error refusal -> Retains run.1 []
  loaded : forall l, run.2 = .ok l -> Retains l.blocks [] ∧ l.memory.cacheFree.Clean

theorem LeavesNothing.refusal {tables : Heap Unit} (refusal : Refusal) (holds : Retains tables []) :
    LeavesNothing (.error refusal) (tables, .error refusal) where
  agrees := rfl
  refused := fun _ _ => holds
  loaded := fun _ impossible => by cases impossible

/-- Whatever is in the file, and whichever allocations fail, the loader comes
to its end with every block given back. -/
theorem cacheload_returns (env : LoadEnv) (tag : Nat -> Bool) (file : Bytes) :
    LeavesNothing (cacheload env file) (cacheloadBlocks env tag file) := by
  rw [cacheload, cacheloadBlocks]
  dsimp only [bind, Except.bind]
  cases takeField badSnapshot 8 file with
  | error refusal => exact .refusal refusal retains_empty
  | ok taken =>
      dsimp only [failIf]
      by_cases magic : (taken.1.slice 0 4 magic_inside).1 ≠ avlDumpMagic
      · rw [if_pos magic, if_pos magic]
        exact .refusal badSnapshot retains_empty
      · rw [if_neg magic, if_neg magic]
        dsimp only
        by_cases many : (taken.1.slice 4 4 count_inside).toNat > avlDumpMaxEntries
        · rw [if_pos many, if_pos many]
          exact .refusal silentRefusal retains_empty
        · rw [if_neg many, if_neg many]
          dsimp only
          rw [← Memory.cacheNew_cache]
          cases made : (Memory.cacheNew 1024 env.cache env.buckets).2 with
          | none => exact .refusal silentRefusal (Memory.cacheNew_refused made)
          | some memory =>
              have looped := @loadBlocksFrom_keeps env.entry tag (taken.1.slice 4 4 count_inside).toNat 0
                { memory, blocks := .empty, loaded := 0 } taken.2 retains_empty (Memory.kept_cacheNew made)
              refine ⟨congrArg Except.ok looped.2.2.symm, fun _ impossible => (by cases impossible), ?_⟩
              rintro l ⟨⟩
              rcases looped.2.1 with ⟨rows, keeps⟩
              exact ⟨looped.1, keeps.free⟩

end Avalanche
end BugMuseum
