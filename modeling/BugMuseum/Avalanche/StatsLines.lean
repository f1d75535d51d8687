import BugMuseum.Avalanche.DeletedKeys
import BugMuseum.Avalanche.HexCodec

namespace BugMuseum
namespace Avalanche

open Foundation

/-!
# Key copies and the lines of STATS

Four sizes have to fit together: the length of a key on the wire, the block of its copy, and the
blocks of 32 and 128 bytes into which STATS prints.  None of them is compared with another.  The
copy of a key is one byte longer than its block, whatever the key, and the other two blocks are
too small for long keys.
-/

/-- `malloc(size)`, and the text printed there with its terminator.  A byte
outside the block is an error. -/
def writeFresh (size : Nat) (text : Bytes) (fresh : Grant) : Except Stray (Option Bytes) :=
  match fresh with
  | none => .ok none
  | some residue => do
      let block ← putString .outside text (freshBytes size residue)
      return some block

/-- `dup_key`, given what the fresh block holds. -/
def dupKeyChecked (key : CStr) (fresh : Grant) : Except Stray (Option Bytes) :=
  writeFresh key.1.length key.1 fresh

/-- `CachePreviewKey`; a null key is read when there is a block to copy it
to. -/
def previewKeyChecked (key : Option CStr) (fresh : Grant) : Except Stray (Option Bytes) :=
  match key with
  | none => if fresh.isSome then .error .nullKey else .ok none
  | some key => writeFresh 32 key.1 fresh

/-- What `%s` prints of a key. -/
def keyText : Option CStr -> Bytes
  | none => ascii "(null)"
  | some key => key.1

def lineText (key : Option CStr) (valueLen : Nat) : Bytes :=
  ascii "key=" ++ keyText key ++ ascii " len=" ++ decimal valueLen

/-- `CacheFormatLine`, of an entry with this key and this `value_len`. -/
def formatLineChecked (key : Option CStr) (valueLen : Nat) (fresh : Grant) : Except Stray (Option Bytes) :=
  writeFresh 128 (lineText key valueLen) fresh

/-- What the fresh blocks of a STATS request hold, for each entry, or that
they are refused. -/
structure StatsGrant where
  line : Block -> Grant
  preview : Block -> Grant

/-- What a line of a reply shows of a block, if it could be allocated. -/
def shown (front : Bytes) : Option Bytes -> Bytes
  | none => []
  | some block => front ++ cString block ++ ascii "\n"

/-- What STATS reads of an entry: the key and the length of the value, but no
byte of it. -/
def Cache.figures (c : Cache) (e : Block) : Option CStr × Nat :=
  (c.keyOf e, (c.entry e).valueLen)

/-- The body of the inner loop of `handle_stats`, with every write checked. -/
def entryLinesChecked (verbose : Bool) (c : Cache) (fresh : StatsGrant) (e : Block) : Except Stray Bytes := do
  let line ← formatLineChecked (c.figures e).1 (c.figures e).2 (fresh.line e)
  if verbose then do
    let p ← previewKeyChecked (c.figures e).1 (fresh.preview e)
    return shown [] line ++ shown (ascii "  preview=") p
  else return shown [] line

/-- `!c->is_tcp && (r->flags & FLAG_VERBOSE)` -/
def Request.verbose (r : Request) (isTcp : Bool) : Bool :=
  !isTcp && decide (r.header.flags &&& flagVerbose ≠ 0)

/-- `handle_stats` -/
def handleStatsChecked (isTcp : Bool) (c : Cache) (r : Request) (fresh : StatsGrant) : Except Stray Bytes := do
  let hdr := snprintf (List.replicate 64 0) 0 (ascii "ENTRIES " ++ decimal c.count ++ ascii "\n")
  let lines ← c.listed.mapM (entryLinesChecked (r.verbose isTcp) c fresh)
  return cString (overwrite hdr.1 63 [0]) ++ lines.flatten

/-! ## What is to hold -/

/-- The block is written inside its bounds and holds the text, whatever it
held before. -/
def Writes (write : Grant -> Except Stray (Option Bytes)) (text : Bytes) : Prop :=
  forall residue, exists block, write (some residue) = .ok (some block) ∧ cString block = text

/-- The line of an entry with this key. -/
def keyLine (key : CStr) (valueLen : Nat) : Bytes :=
  ascii "key=" ++ key.1 ++ ascii " len=" ++ decimal valueLen

/-- The key is copied, previewed and listed as it is, each time into a block
of its own that the text fits into. -/
structure KeyServed (key : CStr) (valueLen : Nat) : Prop where
  copy : Writes (dupKeyChecked key) key.1
  preview : Writes (previewKeyChecked (some key)) key.1
  line : Writes (formatLineChecked (some key) valueLen) (keyLine key valueLen)

/-- A STATS request writes inside its blocks, whatever they held before and
whichever of them could be allocated. -/
def StatsInside (isTcp : Bool) (r : Request) (c : Cache) : Prop :=
  forall fresh, exists reply, handleStatsChecked isTcp c r fresh = .ok reply

/-- The line of such an entry fits into 128 bytes, and where the key is
previewed, there is one and it fits into 32. -/
structure FiguresFit (verbose : Bool) (figures : Option CStr × Nat) : Prop where
  line : 9 + (keyText figures.1).length + (decimal figures.2).length ≤ 127
  preview : verbose = true -> exists key : CStr, figures.1 = some key ∧ key.1.length ≤ 31

theorem writeFresh_eq (size : Nat) (text : Bytes) (residue : Nat -> UInt8) :
    writeFresh size text (some residue) =
      if text.length < size then .ok (some (text ++ 0 :: (freshBytes size residue).drop (text.length + 1)))
      else .error .outside := by
  rw [writeFresh, putString_eq, freshBytes_length]
  split <;> rfl

/-- A string is written inside its block exactly when it is shorter than the
block.  The terminator needs the last byte. -/
theorem writes_writeFresh_iff {size : Nat} {text : Bytes} (clean : (0 : UInt8) ∉ text) :
    Writes (writeFresh size text) text ↔ text.length < size := by
  constructor
  · intro writes
    rcases writes fun _ => 0 with ⟨block, written, _⟩
    rw [writeFresh_eq] at written
    split at written
    · assumption
    · cases written
  · intro fits residue
    exact ⟨_, (writeFresh_eq size text residue).trans (if_pos fits), cString_append_zero clean _⟩

theorem keyText_clean (key : Option CStr) : (0 : UInt8) ∉ keyText key := by
  cases key with
  | none => exact (by decide : (0 : UInt8) ∉ ascii "(null)")
  | some key => exact key.2

theorem lineText_clean (key : Option CStr) (valueLen : Nat) : (0 : UInt8) ∉ lineText key valueLen := by
  simp only [lineText, List.mem_append, not_or]
  exact ⟨⟨⟨by decide, keyText_clean key⟩, by decide⟩, decimal_clean valueLen⟩

theorem lineText_length (key : Option CStr) (valueLen : Nat) :
    (lineText key valueLen).length = 9 + (keyText key).length + (decimal valueLen).length := by
  have front : (ascii "key=").length = 4 := rfl
  have between : (ascii " len=").length = 5 := rfl
  simp only [lineText, List.length_append, front, between]
  omega

/-- The terminator of a key copy is written behind its block, for every
key. -/
theorem dupKey_outside (key : CStr) : ¬ Writes (dupKeyChecked key) key.1 := fun writes =>
  absurd ((writes_writeFresh_iff key.2).mp writes) (Nat.lt_irrefl _)

theorem writes_previewKey_iff (key : CStr) : Writes (previewKeyChecked (some key)) key.1 ↔ key.1.length ≤ 31 :=
  (writes_writeFresh_iff key.2).trans Nat.lt_succ_iff

theorem writes_formatLine_iff (key : CStr) (valueLen : Nat) :
    Writes (formatLineChecked (some key) valueLen) (keyLine key valueLen) ↔
      9 + key.1.length + (decimal valueLen).length ≤ 127 := by
  have line := @writes_writeFresh_iff 128 _ (lineText_clean (some key) valueLen)
  rw [lineText_length] at line
  exact line.trans Nat.lt_succ_iff

/-! ## One request -/

theorem writeFresh_ok {size : Nat} {text : Bytes} (fits : text.length < size) (fresh : Grant) :
    exists written, writeFresh size text fresh = .ok written := by
  cases fresh with
  | none => exact ⟨_, rfl⟩
  | some residue => exact ⟨_, (writeFresh_eq size text residue).trans (if_pos fits)⟩

theorem fits_of_writeFresh {size : Nat} {text : Bytes} {residue : Nat -> UInt8} {written : Option Bytes}
    (ok : writeFresh size text (some residue) = .ok written) : text.length < size := by
  rw [writeFresh_eq] at ok
  split at ok
  · assumption
  · cases ok

theorem entryLinesChecked_ok {verbose : Bool} {c : Cache} {e : Block} (fits : FiguresFit verbose (c.figures e))
    (fresh : StatsGrant) : exists text, entryLinesChecked verbose c fresh e = .ok text := by
  have room : (lineText (c.figures e).1 (c.figures e).2).length < 128 := by
    rw [lineText_length]
    exact Nat.lt_succ_of_le fits.line
  rcases writeFresh_ok room (fresh.line e) with ⟨line, written⟩
  cases verbose with
  | false => exact ⟨_, bind_eq_ok.mpr ⟨line, written, rfl⟩⟩
  | true =>
      rcases fits.preview rfl with ⟨key, keyed, short⟩
      rcases writeFresh_ok (Nat.lt_succ_of_le short) (fresh.preview e) with ⟨p, previewed⟩
      have trimmed : previewKeyChecked (c.figures e).1 (fresh.preview e) = .ok p := by
        rw [keyed]
        exact previewed
      exact ⟨_, bind_eq_ok.mpr ⟨line, written, bind_eq_ok.mpr ⟨p, trimmed, rfl⟩⟩⟩

/-- Every block is granted, so a request shows all it can. -/
def allFresh : StatsGrant where
  line := fun _ => some fun _ => 0
  preview := fun _ => some fun _ => 0

theorem figuresFit_of_ok {verbose : Bool} {c : Cache} {e : Block} {text : Bytes}
    (ok : entryLinesChecked verbose c allFresh e = .ok text) : FiguresFit verbose (c.figures e) := by
  rcases bind_eq_ok.mp ok with ⟨line, written, rest⟩
  have room := fits_of_writeFresh written
  rw [lineText_length] at room
  refine ⟨Nat.le_of_lt_succ room, ?_⟩
  rintro rfl
  rcases bind_eq_ok.mp rest with ⟨p, previewed, _⟩
  cases keyed : (c.figures e).1 with
  | none =>
      rw [keyed] at previewed
      cases previewed
  | some key =>
      rw [keyed] at previewed
      exact ⟨key, rfl, Nat.le_of_lt_succ (fits_of_writeFresh previewed)⟩

/-- STATS writes inside its blocks exactly when what it reads of every entry
fits.  One long key anywhere in the cache is enough to break it. -/
theorem statsInside_iff (isTcp : Bool) (r : Request) (c : Cache) :
    StatsInside isTcp r c ↔ forall e, e ∈ c.listed -> FiguresFit (r.verbose isTcp) (c.figures e) := by
  constructor
  · intro inside e member
    rcases inside allFresh with ⟨reply, handled⟩
    rcases bind_eq_ok.mp handled with ⟨lines, printed, _⟩
    rcases mapM_ok_iff.mp ⟨lines, printed⟩ e member with ⟨text, ok⟩
    exact figuresFit_of_ok ok
  · intro fits fresh
    rcases mapM_ok_iff.mpr fun e member => entryLinesChecked_ok (fits e member) fresh with ⟨lines, printed⟩
    exact ⟨_, bind_eq_ok.mpr ⟨lines, printed, rfl⟩⟩

/-- The allocations of a STATS request, as the server's model counts them. -/
def StatsGrant.outcomes (fresh : StatsGrant) (grant : RequestGrant) : RequestGrant :=
  { grant with line := fun e => (fresh.line e).isSome, preview := fun e => (fresh.preview e).isSome }

/-- A block that was printed shows the text as it was, up to the
terminator. -/
theorem shown_writeFresh {size : Nat} {text : Bytes} (clean : (0 : UInt8) ∉ text) {fresh : Grant}
    {written : Option Bytes} (ok : writeFresh size text fresh = .ok written) (front : Bytes) :
    shown front written = if fresh.isSome then front ++ text ++ ascii "\n" else [] := by
  cases fresh with
  | none =>
      cases ok
      rfl
  | some residue =>
      have fits := fits_of_writeFresh ok
      rw [writeFresh_eq, if_pos fits] at ok
      cases ok
      rw [shown, cString_append_zero clean]
      rfl

theorem printedKey_eq (c : Cache) (e : Block) : printedKey (c.entry e).key = keyText (c.keyOf e) := by
  rw [Cache.keyOf]
  cases (c.entry e).key with
  | none => rfl
  | some copy => rfl

theorem cacheFormatLine_eq (c : Cache) (e : Block) (granted : Bool) :
    cacheFormatLine (c.entry e) granted =
      if granted then some ⟨128, ⟨lineText (c.figures e).1 (c.figures e).2, lineText_clean _ _⟩⟩ else none := by
  have text : CStr.ofBlock (ascii "key=" ++ printedKey (c.entry e).key ++ ascii " len=" ++
      decimal (c.entry e).valueLen) = ⟨lineText (c.figures e).1 (c.figures e).2, lineText_clean _ _⟩ := by
    rw [printedKey_eq]
    exact Subtype.ext (cString_clean (lineText_clean (c.keyOf e) (c.entry e).valueLen))
  rw [cacheFormatLine, text]

/-- The lines of an entry, in the terms of the checked model.  With it the two
models can be compared. -/
theorem entryLines_eq (verbose : Bool) (c : Cache) (grant : RequestGrant) (e : Block) :
    entryLines verbose c grant e =
      let line := if grant.line e then lineText (c.figures e).1 (c.figures e).2 ++ ascii "\n" else []
      if verbose && grant.preview e then
        (c.figures e).1.map fun key => line ++ (ascii "  preview=" ++ key.1 ++ ascii "\n")
      else some line := by
  rw [entryLines, cacheFormatLine_eq, Cache.figures, Cache.keyOf]
  cases (c.entry e).key with
  | none => cases grant.line e <;> cases verbose <;> cases grant.preview e <;> rfl
  | some copy =>
      cases grant.line e <;> cases verbose <;> cases grant.preview e <;>
        simp [cachePreviewKey]

theorem entryLines_of_checked {verbose : Bool} {c : Cache} {fresh : StatsGrant} {e : Block} {text : Bytes}
    (ok : entryLinesChecked verbose c fresh e = .ok text) (grant : RequestGrant) :
    entryLines verbose c (fresh.outcomes grant) e = some text := by
  rcases bind_eq_ok.mp ok with ⟨line, written, rest⟩
  have first := shown_writeFresh (lineText_clean _ _) written []
  rw [List.nil_append] at first
  have outcomes : (fresh.outcomes grant).line e = (fresh.line e).isSome ∧
      (fresh.outcomes grant).preview e = (fresh.preview e).isSome := ⟨rfl, rfl⟩
  rw [entryLines_eq, outcomes.1, outcomes.2, ← first]
  dsimp only
  cases verbose with
  | false =>
      cases rest
      rfl
  | true =>
      rcases bind_eq_ok.mp rest with ⟨p, previewed, last⟩
      cases last
      rw [Bool.true_and]
      cases key : (c.figures e).1 with
      | none =>
          rw [key] at previewed
          cases granted : (fresh.preview e).isSome with
          | false =>
              rw [previewKeyChecked, granted] at previewed
              cases previewed
              exact congrArg some (List.append_nil _).symm
          | true =>
              rw [previewKeyChecked, granted] at previewed
              cases previewed
      | some own =>
          rw [key] at previewed
          rw [shown_writeFresh own.2 previewed]
          split
          · rfl
          · rw [List.append_nil]

/-- A request that stays inside its blocks is answered as the server's model
says. -/
theorem handleStats_of_checked {isTcp : Bool} {c : Cache} {r : Request} {fresh : StatsGrant} {reply : Bytes}
    (handled : handleStatsChecked isTcp c r fresh = .ok reply) (grant : RequestGrant) :
    handleStats isTcp c r (fresh.outcomes grant) = some reply := by
  rcases bind_eq_ok.mp handled with ⟨lines, printed, whole⟩
  have listed := mapM_some_of_ok (fun e text ok => entryLines_of_checked ok grant) printed
  cases whole
  exact Option.bind_eq_some_iff.mpr ⟨lines, listed, rfl⟩

/-!
## Runs of SET requests

In a run the terminator of a key copy is taken to stay where it was written, behind the block,
so that a key is read back as it was given.
-/

/-- A SET request on one of the transports, with the outcomes of its
allocations. -/
structure SetCall where
  isTcp : Bool
  request : Request
  grant : RequestGrant

def setNext (platform : Platform) (c : Cache) (call : SetCall) : Cache :=
  (handleSet platform call.isTcp c call.request call.grant).1

/-- `outlen`, on the fast path: the result of the codec. -/
def SetCall.outlen (platform : Platform) (call : SetCall) : Int :=
  (applyCodec (codecFor platform.codecs call.request.codecId) call.request.value.1).2

/-- What the fast path copies fits into the inline buffer, so the links of the
entry are kept. -/
def SetCall.Inline (platform : Platform) (call : SetCall) : Prop :=
  call.request.fast call.isTcp -> (call.outlen platform).toNat ≤ smallSize

/-- The `value_len` that is stored.  It is zero when a long value gets no
block. -/
def SetCall.storedLen (platform : Platform) (call : SetCall) : Nat :=
  if call.request.fast call.isTcp then (call.outlen platform).toNat
  else if call.request.header.valueLen ≤ smallSize ∨ call.grant.set.value = true then call.request.header.valueLen
  else 0

/-- What STATS will read of the entry of this request, if it gets one. -/
def SetCall.stored (platform : Platform) (call : SetCall) : List (Option CStr × Nat) :=
  if call.grant.set.entry = true ∧ ¬ (call.request.fast call.isTcp ∧ call.grant.work = none) then
    [(if call.grant.set.key then some call.request.key else none, call.storedLen platform)]
  else []

theorem cacheInsertEmpty_valueLen (c : Cache) (key : CStr) {grant : SetGrant} (entry : grant.entry = true) :
    ((cacheInsertEmpty c (some key) grant).1.entry c.entries.next).valueLen = 0 := by
  rw [cacheInsertEmpty, entry]
  exact congrArg CacheEntry.valueLen (Heap.alloc_cell_next ..)

theorem cacheSet_valueLen (c : Cache) (key : CStr) (val : Payload) {grant : SetGrant} (entry : grant.entry = true) :
    ((cacheSet c (some key) val grant).1.entry c.entries.next).valueLen =
      if val.bytes.length ≤ smallSize ∨ grant.value = true then val.bytes.length else 0 := by
  have inserted := cacheInsertEmpty_added c key entry
  rw [cacheSet]
  simp only [inserted.1]
  by_cases short : val.bytes.length ≤ smallSize
  · rw [if_pos short, if_pos (Or.inl short), Cache.entry, Heap.modify_cell_self]
  · rw [if_neg short]
    cases value : grant.value with
    | false => simp only [Bool.not_false, if_true, Bool.false_eq_true, or_false, if_neg short,
        cacheInsertEmpty_valueLen c key entry]
    | true =>
        simp only [Bool.not_true, Bool.false_eq_true, if_false, or_true, if_true]
        rw [Cache.entry, Heap.modify_cell_self]

/-- What fits into the buffer does not touch the links of the new entry. -/
theorem Added.storeFast {c c' : Cache} {key : CStr} {copied : Bool} (added : Added c c' key copied)
    (overrun : Option Block -> Bytes -> Option Block) (src : Bytes) {declaredLen : Nat}
    (inline : declaredLen ≤ smallSize) :
    Added c (cacheStoreFast overrun c' c.entries.next src declaredLen) key copied ∧
      ((cacheStoreFast overrun c' c.entries.next src declaredLen).entry c.entries.next).valueLen = declaredLen := by
  have short : ¬ smallSize < (src.take declaredLen).length := by
    rw [List.length_take]
    omega
  rw [cacheStoreFast]
  simp only [if_neg short]
  refine ⟨added.fill _ (fun _ => rfl) fun _ => rfl, ?_⟩
  rw [Cache.entry, Heap.modify_cell_self]

/-- Its entry was added, and STATS reads this of it. -/
def AddedAs (c c' : Cache) (call : SetCall) (valueLen : Nat) : Prop :=
  Added c c' call.request.key call.grant.set.key ∧ (c'.entry c.entries.next).valueLen = valueLen

theorem setNext_addedAs {platform : Platform} {call : SetCall} (inline : call.Inline platform) (c : Cache)
    (entry : call.grant.set.entry = true) (worked : ¬ (call.request.fast call.isTcp ∧ call.grant.work = none)) :
    AddedAs c (setNext platform c call) call (call.storedLen platform) := by
  rw [SetCall.storedLen]
  by_cases fast : call.request.fast call.isTcp
  · rw [if_pos fast]
    rcases Option.ne_none_iff_exists'.mp fun failed => worked ⟨fast, failed⟩ with ⟨residue, work⟩
    have inserted := (cacheInsertEmpty_added c call.request.key entry).2
    have handled : setNext platform c call = if call.outlen platform < 0 then _ else _ :=
      handleSet_worked platform c fast work entry
    have within := inline fast
    rw [handled]
    split
    · rename_i failed
      rw [Int.toNat_of_nonpos (Int.le_of_lt failed)]
      exact ⟨inserted, cacheInsertEmpty_valueLen c call.request.key entry⟩
    · exact inserted.storeFast platform.overrun _ within
  · rw [if_neg fast]
    have handled : setNext platform c call =
        (cacheSet c (some call.request.key) call.request.payload call.grant.set).1 := by
      rw [setNext, handleSet, if_neg fast]
    have length : call.request.payload.bytes.length = call.request.header.valueLen := call.request.value.2
    rw [handled, ← length]
    exact ⟨cacheSet_added c call.request.key call.request.payload entry,
      cacheSet_valueLen c call.request.key call.request.payload entry⟩

theorem setNext_refused {platform : Platform} {call : SetCall} (c : Cache)
    (refused : ¬ (call.grant.set.entry = true ∧ ¬ (call.request.fast call.isTcp ∧ call.grant.work = none))) :
    setNext platform c call = c := by
  cases entry : call.grant.set.entry with
  | false => exact handleSet_refused platform call.isTcp c call.request entry
  | true =>
      have failed : call.request.fast call.isTcp ∧ call.grant.work = none := by
        by_contra worked
        exact refused ⟨entry, worked⟩
      rw [setNext, handleSet, if_pos failed.1, failed.2]

/-- The entries are in rows, and STATS reads this of them, in some order. -/
structure Lists (c : Cache) (figures : List (Option CStr × Nat)) : Prop where
  linked : exists rows, Rows c rows
  read : (c.listed.map c.figures).Perm figures

theorem lists_cacheNew {nbuckets : UInt32} {c : Cache} (made : cacheNew nbuckets true true = some c) : Lists c [] := by
  have start := keyed_cacheNew made
  have empty : c.listed = [] := by
    rw [← List.length_eq_zero_iff, ← start.1.keys_length, start.2, List.length_nil]
  exact ⟨start.1.linked, by rw [empty]; exact .nil⟩

/-- An entry more is listed with what STATS reads of it, and the others are
listed as before. -/
theorem Lists.add {c c' : Cache} {figures : List (Option CStr × Nat)} (lists : Lists c figures) {key : CStr}
    {copied : Bool} (added : Added c c' key copied) : Lists c' (c'.figures c.entries.next :: figures) := by
  rcases lists.linked with ⟨rows, linked⟩
  have kept : c.listed.map c'.figures = c.listed.map c.figures := by
    apply List.map_congr_left
    intro e member
    rw [linked.listed_eq] at member
    rcases List.mem_flatMap.mp member with ⟨b, inside, inRow⟩
    have live := linked.live b (List.mem_range.mp inside) e inRow
    rw [Cache.figures, Cache.keyOf, added.others e (Nat.ne_of_lt live.1), Cache.figures, Cache.keyOf]
  have permuted := (linked.added_keys added).1.map c'.figures
  rw [List.map_cons, kept] at permuted
  exact ⟨⟨_, linked.add added⟩, permuted.trans (lists.read.cons _)⟩

theorem Lists.step {platform : Platform} {call : SetCall} (inline : call.Inline platform) {c : Cache}
    {figures : List (Option CStr × Nat)} (lists : Lists c figures) :
    Lists (setNext platform c call) (call.stored platform ++ figures) := by
  rw [SetCall.stored]
  split
  · rename_i made
    have added := setNext_addedAs inline c made.1 made.2
    have more := lists.add added.1
    rw [Cache.figures, added.1.keyed, added.2] at more
    exact more
  · rename_i refused
    rw [setNext_refused c refused]
    exact lists

/-- After a run STATS reads what its requests stored. -/
theorem Lists.run {platform : Platform} {calls : List SetCall}
    (inline : forall call, call ∈ calls -> call.Inline platform) {c : Cache} {figures : List (Option CStr × Nat)}
    (lists : Lists c figures) :
    Lists (calls.foldl (setNext platform) c) (calls.flatMap (SetCall.stored platform) ++ figures) := by
  induction calls generalizing c figures with
  | nil => exact lists
  | cons call later inductionHypothesis =>
      have stepped := lists.step (inline call List.mem_cons_self)
      have all := inductionHypothesis (fun other member => inline other (List.mem_cons_of_mem call member)) stepped
      refine ⟨all.linked, all.read.trans ?_⟩
      rw [List.flatMap_cons, ← List.append_assoc]
      exact List.Perm.append_right figures List.perm_append_comm

/-- After a run that keeps to the inline buffers, STATS writes inside its
blocks exactly when everything that was stored fits. -/
theorem statsInside_run_iff {platform : Platform} {nbuckets : UInt32} {c : Cache}
    (made : cacheNew nbuckets true true = some c) {calls : List SetCall}
    (inline : forall call, call ∈ calls -> call.Inline platform) (isTcp : Bool) (r : Request) :
    StatsInside isTcp r (calls.foldl (setNext platform) c) ↔
      forall figures, figures ∈ calls.flatMap (SetCall.stored platform) -> FiguresFit (r.verbose isTcp) figures := by
  have lists := (lists_cacheNew made).run inline
  rw [List.append_nil] at lists
  rw [statsInside_iff, ← List.forall_mem_map]
  exact forall_congr' fun figures => imp_congr_left lists.read.mem_iff

/-- No key is copied within its block.  A preview fits up to 31 bytes, a line
up to 127, and a STATS request writes inside its blocks exactly when all it
reads fits: in any cache, and after a run of SETs in terms of what its
requests stored. -/
theorem keyServed_never {platform : Platform} {nbuckets : UInt32} {c : Cache}
    (made : cacheNew nbuckets true true = some c) {calls : List SetCall}
    (inline : forall call, call ∈ calls -> call.Inline platform) (isTcp : Bool) (r : Request) (key : CStr)
    (valueLen : Nat) :
    (¬ Writes (dupKeyChecked key) key.1 ∧ ¬ KeyServed key valueLen) ∧
      (Writes (previewKeyChecked (some key)) key.1 ↔ key.1.length ≤ 31) ∧
      (Writes (formatLineChecked (some key) valueLen) (keyLine key valueLen) ↔
        9 + key.1.length + (decimal valueLen).length ≤ 127) ∧
      (forall cache, StatsInside isTcp r cache ↔
        forall e, e ∈ cache.listed -> FiguresFit (r.verbose isTcp) (cache.figures e)) ∧
      (StatsInside isTcp r (calls.foldl (setNext platform) c) ↔
        forall figures, figures ∈ calls.flatMap (SetCall.stored platform) ->
          FiguresFit (r.verbose isTcp) figures) :=
  ⟨⟨dupKey_outside key, fun served => dupKey_outside key served.copy⟩, writes_previewKey_iff key,
    writes_formatLine_iff key valueLen, statsInside_iff isTcp r, statsInside_run_iff made inline isTcp r⟩

def verboseStats : Request where
  header := { op := opStats, flags := flagVerbose, keyLen := 0, valueLen := 0 }
  key := .ofBlock []
  value := ⟨[], rfl⟩
  fits := by decide

/-- A SET on the pipe. -/
def pipeSet (key : CStr) : SetCall :=
  ⟨false, fastRequest key [5, 6] (by decide), allGranted⟩

theorem pipeSet_slow (key : CStr) : ¬ (pipeSet key).request.fast (pipeSet key).isTcp := fun fast =>
  Bool.false_ne_true fast.1

theorem pipeSet_inline (key : CStr) : forall call, call ∈ [pipeSet key] -> call.Inline bare := by
  intro call member fast
  rw [List.mem_singleton.mp member] at fast
  exact absurd fast (pipeSet_slow key)

theorem pipeSet_stored (key : CStr) : [pipeSet key].flatMap (SetCall.stored bare) = [(some key, 2)] := by
  rw [List.flatMap_singleton, SetCall.stored, if_pos ⟨rfl, fun failed => pipeSet_slow key failed.1⟩,
    SetCall.storedLen, if_neg (pipeSet_slow key)]
  rfl

theorem shortKey_listed :
    ¬ KeyServed (.ofBlock [107]) 2 ∧
      StatsInside false verboseStats ([pipeSet (.ofBlock [107])].foldl (setNext bare) oneBucket) := by
  have never := keyServed_never oneBucket_made (pipeSet_inline (.ofBlock [107])) false verboseStats (.ofBlock [107]) 2
  refine ⟨never.1.2, never.2.2.2.2.mpr ?_⟩
  intro figures member
  rw [pipeSet_stored] at member
  rw [List.mem_singleton.mp member]
  exact ⟨by decide, fun _ => ⟨_, rfl, by decide⟩⟩

/-- The copy of a key of one letter, and the preview of one of 32. -/
theorem keys_notServed :
    ¬ KeyServed (.ofBlock [107]) 2 ∧
      ¬ StatsInside false verboseStats
        ([pipeSet (.ofBlock (List.replicate 32 107))].foldl (setNext bare) oneBucket) := by
  refine ⟨fun served => dupKey_outside _ served.copy, fun inside => ?_⟩
  have fits := (statsInside_run_iff oneBucket_made (pipeSet_inline _) false verboseStats).mp inside
  rw [pipeSet_stored] at fits
  rcases (fits _ List.mem_cons_self).preview (by decide) with ⟨key, same, short⟩
  cases same
  revert short
  decide

end Avalanche
end BugMuseum
