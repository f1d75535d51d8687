import BugMuseum.Foundation.PrefixWrites
import BugMuseum.Revenant.AppendText
import BugMuseum.Revenant.DeferredBatch

namespace BugMuseum
namespace Revenant

open Foundation

/-!
# What a flush writes

A flush copies the front of one argument into every buffer of the batch.  Each entry has
captured a length, and the copies for one buffer start at the same place, so the
longest of them is what the buffer holds in the end.
-/

/-- The length of the copy for one entry: the argument, cut to the length that
the entry has captured. -/
def flushLength (arg : Payload) (entry : Option Block × Nat) : Nat :=
  min arg.bytes.length entry.2

/-- The longest copy into a buffer, over all entries that name it. -/
def flushReach (arg : Payload) (batch : List (Option Block × Nat)) (block : Block) : Nat :=
  reach (batch.map fun entry => (entry.1, flushLength arg entry)) (some block)

/-- Every open session has a live buffer, as large as the session says. -/
def Housed (s : Store) : Prop :=
  forall x, s.Open x -> exists data, (s.session x).data = some data ∧ s.buffers.Live data ∧
    (s.buffers.cell data).length = (s.session x).cap

/-- Each buffer has the longest front that some entry asks for, and is as
before behind it.  All else is as before, and another batch with the same
entries has the same effect. -/
structure FlushEffect (s : Store) (arg : Payload) : Prop where
  emptied : (sessFlush s arg).1.batch = []
  within : forall block, flushReach arg s.batch block ≤ arg.bytes.length ∧
    flushReach arg s.batch block ≤ (s.buffers.cell block).length
  written : forall block i, i < flushReach arg s.batch block ->
    ((sessFlush s arg).1.buffers.cell block)[i]? = arg.bytes[i]?
  behind : forall block i, flushReach arg s.batch block ≤ i ->
    ((sessFlush s arg).1.buffers.cell block)[i]? = (s.buffers.cell block)[i]?
  others : forall block, ¬ s.batched (some block) ->
    (sessFlush s arg).1.buffers.cell block = s.buffers.cell block
  heap : (sessFlush s arg).1.buffers.next = s.buffers.next ∧
    (sessFlush s arg).1.buffers.releases = s.buffers.releases ∧
    (sessFlush s arg).1.buffers.faults = s.buffers.faults
  sessions : (sessFlush s arg).1.sessions = s.sessions
  table : (sessFlush s arg).1.slots = s.slots ∧ (sessFlush s arg).1.count = s.count
  recent : (sessFlush s arg).1.gRecent = s.gRecent
  unordered : forall batch, (forall entry, entry ∈ batch ↔ entry ∈ s.batch) ->
    sessFlush { s with batch := batch } arg = sessFlush s arg

theorem Sound.housed {s : Store} (sound : Sound s) : Housed s := by
  intro x isOpen
  rcases sound.backed isOpen with ⟨data, backed⟩
  exact ⟨data, backed.owned, backed.buffer, backed.size⟩

/-- The buffers by pointer; the null pointer leads to nothing. -/
def cells (buffers : Heap Bytes) : Option Block -> Bytes
  | none => []
  | some block => buffers.cell block

/-- An entry that a flush can copy to: its buffer is live, and the captured
length lies within it. -/
def Flushable (buffers : Heap Bytes) (entry : Option Block × Nat) : Prop :=
  exists data, entry.1 = some data ∧ buffers.Live data ∧ entry.2 ≤ (buffers.cell data).length

theorem flushable_of_current {s : Store} (housed : Housed s) {entry : Option Block × Nat}
    (current : Current s entry) : Flushable s.buffers entry := by
  rcases current with ⟨x, data, isOpen, owned, named, within⟩
  rcases housed x isOpen with ⟨other, otherOwned, live, size⟩
  have same : data = other := Option.some.inj (owned.symm.trans otherOwned)
  rw [← same] at live size
  exact ⟨data, named, live, within.trans size.ge⟩

theorem overwrite_front {old text : Bytes} {n : Nat} (inText : n ≤ text.length) (inOld : n ≤ old.length) :
    overwrite old 0 (text.take n) = covered text n old := by
  have front : (text.take n).length = n := List.length_take_of_le inText
  rw [overwrite, List.take_zero, List.nil_append, Nat.zero_add, front, covered]
  apply List.take_of_length_le
  rw [List.length_append, front, List.length_drop]
  omega

/-- One turn of the loop is one write of a front of the argument. -/
theorem flushEntry_rewritten {buffers : Heap Bytes} (arg : Payload) {entry : Option Block × Nat} {data : Block}
    (named : entry.1 = some data) (live : buffers.Live data) (within : entry.2 ≤ (buffers.cell data).length) :
    buffers.Rewritten (flushEntry arg buffers entry) data
      (covered arg.bytes (flushLength arg entry) (buffers.cell data)) := by
  have inText : flushLength arg entry ≤ arg.bytes.length := Nat.min_le_left _ _
  have inBuffer : flushLength arg entry ≤ (buffers.cell data).length := (Nat.min_le_right _ _).trans within
  have length : (if arg.bytes.length < entry.2 then arg.bytes.length else entry.2) = flushLength arg entry := by
    rw [flushLength, Nat.min_def]
    split <;> split <;> omega
  have fits : 0 + (arg.bytes.take (flushLength arg entry)).length ≤ (buffers.cell data).length := by
    rw [List.length_take_of_le inText, Nat.zero_add]
    exact inBuffer
  have written := Heap.write_rewritten live fits
  rw [overwrite_front inText inBuffer] at written
  rw [flushEntry, length, named]
  exact written

theorem cells_flushEntry {buffers : Heap Bytes} {arg : Payload} {entry : Option Block × Nat}
    (flushable : Flushable buffers entry) : cells (flushEntry arg buffers entry) =
      writeFront arg.bytes (cells buffers) (entry.1, flushLength arg entry) := by
  rcases flushable with ⟨data, named, live, within⟩
  have written := flushEntry_rewritten arg named live within
  funext pointer
  rw [writeFront, named]
  by_cases same : pointer = some data
  · rw [same, Function.update_self]
    exact written.here
  · rw [Function.update_of_ne same]
    cases pointer with
    | none => rfl
    | some block => exact written.others block fun other => same (congrArg some other)

theorem Flushable.flushEntry {buffers : Heap Bytes} {arg : Payload} {entry other : Option Block × Nat}
    (flushable : Flushable buffers other) : Flushable (flushEntry arg buffers entry) other := by
  rcases flushable with ⟨data, named, live, within⟩
  refine ⟨data, named, ?_, ?_⟩
  · exact (Heap.Live.congr (Heap.writeAt_next ..) (Heap.writeAt_releases ..)).mpr live
  · exact within.trans (Nat.le_of_eq (Heap.writeAt_cell_length ..).symm)

/-- The loop is the writes of the library, one after the other. -/
theorem cells_foldl_flushEntry (arg : Payload) {entries : List (Option Block × Nat)} {buffers : Heap Bytes}
    (flushable : forall entry, entry ∈ entries -> Flushable buffers entry) :
    cells (entries.foldl (flushEntry arg) buffers) =
      (entries.map fun entry => (entry.1, flushLength arg entry)).foldl (writeFront arg.bytes) (cells buffers) := by
  induction entries generalizing buffers with
  | nil => rfl
  | cons entry rest inductionHypothesis =>
      have later : forall other, other ∈ rest -> Flushable (flushEntry arg buffers entry) other := fun other member =>
        (flushable other (List.mem_cons_of_mem entry member)).flushEntry
      rw [List.foldl_cons, inductionHypothesis later, cells_flushEntry (flushable entry List.mem_cons_self),
        List.map_cons, List.foldl_cons]

theorem flushLength_le {arg : Payload} {entries : List (Option Block × Nat)} (write : Option Block × Nat)
    (member : write ∈ entries.map fun entry => (entry.1, flushLength arg entry)) :
    write.2 ≤ arg.bytes.length := by
  rcases List.mem_map.mp member with ⟨entry, _, rfl⟩
  exact Nat.min_le_left _ _

/-- A buffer holds the longest copy after the loop, and behind it what it held
before. -/
theorem foldl_flushEntry_covered (arg : Payload) {entries : List (Option Block × Nat)} {buffers : Heap Bytes}
    (flushable : forall entry, entry ∈ entries -> Flushable buffers entry) (block : Block) :
    (entries.foldl (flushEntry arg) buffers).cell block =
      covered arg.bytes (flushReach arg entries block) (buffers.cell block) := by
  have whole := congrFun (cells_foldl_flushEntry arg flushable) (some block)
  rw [foldl_writeFront flushLength_le] at whole
  exact whole

/-- Two batches with the same entries, in whatever order and however often
each stands there, have the same effect. -/
theorem foldl_flushEntry_congr {arg : Payload} {entries other : List (Option Block × Nat)} {buffers : Heap Bytes}
    (same : forall entry, entry ∈ other ↔ entry ∈ entries)
    (flushable : forall entry, entry ∈ entries -> Flushable buffers entry) :
    other.foldl (flushEntry arg) buffers = entries.foldl (flushEntry arg) buffers := by
  have otherFlushable : forall entry, entry ∈ other -> Flushable buffers entry := fun entry member =>
    flushable entry ((same entry).mp member)
  have left := foldl_flushEntry_frame arg other buffers
  have right := foldl_flushEntry_frame arg entries buffers
  apply Heap.ext
  · exact left.1.trans right.1.symm
  · funext block
    have writes : forall write, (write ∈ other.map fun entry => (entry.1, flushLength arg entry)) ↔
        write ∈ entries.map fun entry => (entry.1, flushLength arg entry) := by
      intro write
      rw [List.mem_map, List.mem_map]
      exact exists_congr fun entry => and_congr_left' (same entry)
    rw [foldl_flushEntry_covered arg otherFlushable, foldl_flushEntry_covered arg flushable, flushReach,
      reach_congr writes]
    rfl
  · exact left.2.1.trans right.2.1.symm
  · exact (foldl_flushEntry_faults arg other buffers otherFlushable).trans
      (foldl_flushEntry_faults arg entries buffers flushable).symm

/-! ## The effect -/

theorem flushReach_within {s : Store} (arg : Payload)
    (flushable : forall entry, entry ∈ s.batch -> Flushable s.buffers entry) (block : Block) :
    flushReach arg s.batch block ≤ arg.bytes.length ∧
      flushReach arg s.batch block ≤ (s.buffers.cell block).length := by
  constructor
  · exact reach_le fun write member _ => flushLength_le write member
  · apply reach_le
    intro write member named
    rcases List.mem_map.mp member with ⟨entry, inBatch, rfl⟩
    rcases flushable entry inBatch with ⟨data, sameName, _, within⟩
    have same : data = block := Option.some.inj (sameName.symm.trans named)
    exact (Nat.min_le_right _ _).trans (same ▸ within)

/-- Where every entry is current, a flush copies the longest front into each
buffer, in whatever order and however often the entries stand in the batch.
In all states that the calls or the requests to the service can reach, the
buffers are as the effect needs them. -/
theorem sessFlush_effect :
    (forall s, Housed s -> (forall entry, entry ∈ s.batch -> Current s entry) ->
      forall arg, FlushEffect s arg) ∧
    (forall ops, Housed (run step sessNew ops)) ∧
    (forall found events, Housed (run daemonStep (sessiondNew found) events).store) := by
  refine ⟨fun s housed current arg => ?_, fun ops => ?_, fun found events => (sound_run found events).housed⟩
  · have flushable : forall entry, entry ∈ s.batch -> Flushable s.buffers entry := fun entry member =>
      flushable_of_current housed (current entry member)
    have frame := foldl_flushEntry_frame arg s.batch s.buffers
    have within := flushReach_within arg flushable
    refine ⟨rfl, within, fun block i inside => ?_, fun block i outside => ?_, fun block absent => ?_,
      ⟨frame.1, frame.2.1, foldl_flushEntry_faults arg s.batch s.buffers flushable⟩, rfl, ⟨rfl, rfl⟩, rfl,
      fun batch same => ?_⟩
    · have cell := foldl_flushEntry_covered arg flushable block
      rw [sessFlush, cell, getElem?_covered (within block).1, if_pos inside]
    · have cell := foldl_flushEntry_covered arg flushable block
      rw [sessFlush, cell, getElem?_covered (within block).1, if_neg (Nat.not_lt.mpr outside)]
    · apply foldl_flushEntry_cell
      intro entry member named
      exact absent ⟨entry, member, named⟩
    · rw [sessFlush, sessFlush, foldl_flushEntry_congr same flushable]
  · have keeps : forall s op, Sound s -> True -> Sound (step s op) := fun _ op sound _ => sound.step op
    have every := throughout_of_invariant (fun _ => True) keeps sound_sessNew
      fun (op : Op) (_ : op ∈ ops) => trivial
    exact (throughout_end every).housed

def deferTwice : List Op :=
  [.opening 0 (some .echo) hello generous, .defer 0, .useSet 0 thirty, .defer 0]

theorem deferTwice_flushed : FlushEffect (run step sessNew deferTwice) thirty := by
  have batch : (run step sessNew deferTwice).batch = [(some 0, 5), (some 0, 30)] := by decide +kernel
  apply sessFlush_effect.1 _ (sessFlush_effect.2.1 deferTwice)
  intro entry member
  rw [batch, List.mem_pair] at member
  refine ⟨0, 0, ⟨0, by decide, rfl⟩, by decide +kernel, ?_⟩
  rcases member with rfl | rfl
  · exact ⟨rfl, by decide +kernel⟩
  · exact ⟨rfl, by decide +kernel⟩

end Revenant
end BugMuseum
