import BugMuseum.Cascade.Memory

namespace BugMuseum
namespace Cascade

open Foundation

/-!
# What the memory keeps

A profile in memory stands for a list of entries.  The memory keeps some profiles when their
blocks, the blocks of their entries and the blocks of the names and values are exactly the live
ones, and each profile is laid out as its list says.  Every construction function has one rule
here that says how the kept profiles change.
-/

namespace Memory

/-- The name and the value of an entry, as far as it has them. -/
def textsOf (m : Memory) (e : Block) : List Block :=
  (m.entry e).name.toList ++ (m.entry e).value.toList

/-- The entry in memory is this one, and its name and value can be read inside
their blocks.  A name ends within its block, and a value is as long as its
length says. -/
structure Stands (m : Memory) (b : Block) (e : CfgEntry) : Prop where
  name : (m.entry b).name.map (fun text => CStr.ofBlock (m.texts.cell text)) = e.name
  ended : forall text, (m.entry b).name = some text -> (0 : UInt8) ∈ m.texts.cell text
  type : (m.entry b).type = e.type
  valueLen : (m.entry b).valueLen = e.valueLen
  value : (m.entry b).value.map (fun text => (m.texts.cell text).take e.valueLen) = e.value
  sized : forall text, (m.entry b).value = some text -> e.valueLen ≤ (m.texts.cell text).length
  ival : (m.entry b).ival = e.ival

end Memory

/-- A profile in memory, and what stands there, entry by entry.  It joins the
block of each entry with the entry of the list model. -/
structure Root where
  block : Block
  entries : List (Block × CfgEntry)
  count : Nat

namespace Root

def profile (root : Root) : CfgProfile where
  head := root.entries.map Prod.snd
  count := root.count

def blocks (root : Root) : List Block :=
  root.entries.map Prod.fst

/-- With one entry more, at the end of the list. -/
def append (root : Root) (b : Block) (e : CfgEntry) : Root where
  block := root.block
  entries := root.entries ++ [(b, e)]
  count := (root.count + 1) % 2 ^ 32

theorem append_profile (root : Root) (b : Block) (e : CfgEntry) :
    (root.append b e).profile = appendEntry root.profile e := by
  rw [profile, appendEntry, linkLast_eq, append, List.map_append]
  rfl

theorem append_blocks (root : Root) (b : Block) (e : CfgEntry) :
    (root.append b e).blocks = root.blocks ++ [b] := by
  rw [blocks, append, List.map_append]
  rfl

end Root

namespace Memory

/-- The profile is laid out in memory: its entries are linked in order, each
stands in its block, and they are counted. -/
structure Laid (m : Memory) (root : Root) : Prop where
  path : Path m.link (m.profile root.block).head root.blocks none
  stands : forall pair, pair ∈ root.entries -> Stands m pair.1 pair.2
  count : (m.profile root.block).count = root.count

/-- The memory holds these entries, with their names and values, and no text
belongs to two of them. -/
structure Parts (m : Memory) (blocks : List Block) : Prop where
  entries : Retains m.entries blocks
  texts : Retains m.texts (blocks.flatMap m.textsOf)

/-- The memory keeps these profiles and some loose entries, and nothing else.
An entry is loose between its allocation and its place in a list. -/
structure Keeps (m : Memory) (loose : List Block) (roots : List Root) : Prop where
  profiles : Retains m.profiles (roots.map Root.block)
  parts : Parts m (loose ++ roots.flatMap Root.blocks)
  laid : forall root, root ∈ roots -> Laid m root

theorem keeps_empty : Keeps Memory.empty [] [] where
  profiles := retains_empty
  parts := ⟨retains_empty, retains_empty⟩
  laid := fun _ impossible => by cases impossible

section Frame

variable {m m' : Memory} {b : Block} {blocks : List Block}

theorem textsOf_congr (same : m'.entry b = m.entry b) : m'.textsOf b = m.textsOf b := by
  rw [textsOf, textsOf, same]

theorem flatMap_textsOf_congr (same : forall b, b ∈ blocks -> m'.textsOf b = m.textsOf b) :
    blocks.flatMap m'.textsOf = blocks.flatMap m.textsOf :=
  List.flatMap_congr same

theorem mem_textsOf_name {text : Block} (named : (m.entry b).name = some text) : text ∈ m.textsOf b := by
  rw [textsOf, named]
  exact List.mem_append_left _ List.mem_cons_self

theorem mem_textsOf_value {text : Block} (valued : (m.entry b).value = some text) : text ∈ m.textsOf b := by
  rw [textsOf, valued]
  exact List.mem_append_right _ List.mem_cons_self

/-- Only the fields of the entry and its own texts matter.  Its link may have
changed. -/
theorem Stands.congr {e : CfgEntry} (stands : Stands m b e)
    (same : { m'.entry b with next := none } = { m.entry b with next := none })
    (texts : forall text, text ∈ m.textsOf b -> m'.texts.cell text = m.texts.cell text) : Stands m' b e := by
  have fields := EntryCell.mk.inj same
  have names : forall text, (m.entry b).name = some text -> m'.texts.cell text = m.texts.cell text :=
    fun text named => texts text (mem_textsOf_name named)
  have values : forall text, (m.entry b).value = some text -> m'.texts.cell text = m.texts.cell text :=
    fun text valued => texts text (mem_textsOf_value valued)
  refine ⟨?_, ?_, fields.2.1.trans stands.type, fields.2.2.1.trans stands.valueLen, ?_, ?_,
    fields.2.2.2.2.1.trans stands.ival⟩
  · rw [fields.1, ← stands.name]
    exact Option.map_congr fun text named => by rw [names text named]
  · intro text named
    rw [fields.1] at named
    rw [names text named]
    exact stands.ended text named
  · rw [fields.2.2.2.1, ← stands.value]
    exact Option.map_congr fun text valued => by rw [values text valued]
  · intro text valued
    rw [fields.2.2.2.1] at valued
    rw [values text valued]
    exact stands.sized text valued

/-- Nothing that belongs to the profile has changed, so it is laid out as
before. -/
theorem Laid.congr {root : Root} (laid : Laid m root) (profile : m'.profile root.block = m.profile root.block)
    (entries : forall b, b ∈ root.blocks -> m'.entry b = m.entry b)
    (texts : forall b, b ∈ root.blocks -> forall text, text ∈ m.textsOf b ->
      m'.texts.cell text = m.texts.cell text) : Laid m' root where
  path := by
    rw [profile]
    exact laid.path.congr fun b member => congrArg EntryCell.next (entries b member)
  stands := fun pair member => by
    have block : pair.1 ∈ root.blocks := List.mem_map_of_mem member
    exact (laid.stands pair member).congr (by rw [entries pair.1 block]) (texts pair.1 block)
  count := by
    rw [profile]
    exact laid.count

end Frame

@[simp] theorem modifyEntry_entry_self (m : Memory) (e : Block) (change : EntryCell -> EntryCell) :
    (m.modifyEntry e change).entry e = change (m.entry e) :=
  Heap.modify_cell_self ..

theorem modifyEntry_entry_of_ne (m : Memory) {e b : Block} (change : EntryCell -> EntryCell) (different : b ≠ e) :
    (m.modifyEntry e change).entry b = m.entry b :=
  Heap.modify_cell_of_ne _ change different

theorem modifyProfile_profile_self (m : Memory) (p : Block) (change : ProfileCell -> ProfileCell) :
    (m.modifyProfile p change).profile p = change (m.profile p) :=
  Heap.modify_cell_self ..

theorem modifyProfile_profile_of_ne (m : Memory) {p other : Block} (change : ProfileCell -> ProfileCell)
    (different : other ≠ p) : (m.modifyProfile p change).profile other = m.profile other :=
  Heap.modify_cell_of_ne _ change different

theorem holds_modifyEntry {m : Memory} {e : Block} {blocks : List Block} (holds : Retains m.entries blocks)
    (member : e ∈ blocks) (change : EntryCell -> EntryCell) : Retains (m.modifyEntry e change).entries blocks :=
  holds.modify member change

theorem holds_modifyProfile {m : Memory} {p : Block} {blocks : List Block} (holds : Retains m.profiles blocks)
    (member : p ∈ blocks) (change : ProfileCell -> ProfileCell) :
    Retains (m.modifyProfile p change).profiles blocks :=
  holds.modify member change

theorem freeName_eq {m : Memory} {e : Block} (live : m.entries.Live e) :
    m.freeName e = { m with texts := m.texts.releaseAt (m.entry e).name } := by
  rw [freeName, touchEntry, Heap.touch_of_live live]

theorem freeValue_eq {m : Memory} {e : Block} (live : m.entries.Live e) :
    m.freeValue e = { m with texts := m.texts.releaseAt (m.entry e).value } := by
  rw [freeValue, touchEntry, Heap.touch_of_live live]

section Texts

variable {m : Memory} {residue : Block -> Nat -> UInt8} {size : Nat} {bytes : Bytes}

theorem copyText_holds {blocks : List Block} (held : Retains m.texts blocks) (fits : bytes.length ≤ size) :
    Retains (m.copyText residue size bytes).texts (m.texts.next :: blocks) :=
  held.freshCopy fits _

theorem copyText_cell (fits : bytes.length ≤ size) :
    (m.copyText residue size bytes).texts.cell m.texts.next =
      bytes ++ (freshBytes size (residue m.texts.next)).drop bytes.length :=
  freshCopy_cell _ fits _

theorem copyText_cell_of_ne {text : Block} (different : text ≠ m.texts.next) :
    (m.copyText residue size bytes).texts.cell text = m.texts.cell text := by
  rw [copyText, Heap.write_cell_of_ne _ _ _ different, Heap.alloc_cell_of_ne _ _ different]

end Texts

namespace Parts

variable {m m' : Memory} {e : Block} {blocks other : List Block}

/-- The order of the profiles does not matter. -/
theorem perm (parts : Parts m blocks) (same : blocks.Perm other) : Parts m other where
  entries := parts.entries.perm same
  texts := parts.texts.perm (same.flatMap_right _)

theorem not_mem (parts : Parts m (e :: blocks)) : e ∉ blocks :=
  (List.nodup_cons.mp parts.entries.nodup).1

/-- The texts of a held entry are held, and can be read. -/
theorem texts_live (parts : Parts m blocks) {b : Block} (member : b ∈ blocks) {text : Block}
    (own : text ∈ m.textsOf b) : m.texts.Live text :=
  parts.texts.live text (List.mem_flatMap.mpr ⟨b, member, own⟩)

theorem touch_eq (parts : Parts m blocks) (member : e ∈ blocks) : m.touchEntry e = m := by
  rw [touchEntry, parts.entries.touch_eq member]

/-- A new entry without texts.  It is loose until it is linked. -/
theorem calloc (parts : Parts m blocks) : Parts m.callocEntry (m.entries.next :: blocks) where
  entries := parts.entries.alloc default
  texts := by
    have none : m.callocEntry.textsOf m.entries.next = [] := by
      rw [textsOf, entry, callocEntry, Heap.alloc_cell_next]
      rfl
    have same : forall b, b ∈ blocks -> m.callocEntry.textsOf b = m.textsOf b := fun b member => by
      have different : b ≠ m.entries.next := fun same => parts.entries.next_not_mem (same ▸ member)
      exact textsOf_congr (Heap.alloc_cell_of_ne _ _ different)
    rw [List.flatMap_cons, none, List.nil_append, flatMap_textsOf_congr same]
    exact parts.texts

/-- A change of an entry, after which the heap of texts is as it should be. -/
theorem modify (parts : Parts m blocks) (member : e ∈ blocks) (change : EntryCell -> EntryCell)
    (texts : Retains m.texts (blocks.flatMap (m.modifyEntry e change).textsOf)) :
    Parts (m.modifyEntry e change) blocks where
  entries := parts.entries.modify member change
  texts := texts

/-- A change of an entry that keeps its texts.  The heap of texts does not
enter into it. -/
theorem adjust (parts : Parts m blocks) (member : e ∈ blocks) {change : EntryCell -> EntryCell}
    (name : (change (m.entry e)).name = (m.entry e).name)
    (value : (change (m.entry e)).value = (m.entry e).value) : Parts (m.modifyEntry e change) blocks := by
  refine parts.modify member change ?_
  have same : forall b, b ∈ blocks -> (m.modifyEntry e change).textsOf b = m.textsOf b := fun b _ => by
    by_cases here : b = e
    · rw [here, textsOf, textsOf, modifyEntry_entry_self, name, value]
    · exact textsOf_congr (modifyEntry_entry_of_ne m change here)
  rw [flatMap_textsOf_congr same]
  exact parts.texts

/-- A new text for an entry, which is a name or a value from then on. -/
theorem attach (parts : Parts m (e :: blocks)) {residue : Block -> Nat -> UInt8} {size : Nat} {bytes : Bytes}
    (fits : bytes.length ≤ size) {change : EntryCell -> EntryCell}
    (own : ((change (m.entry e)).name.toList ++ (change (m.entry e)).value.toList).Perm
      (m.texts.next :: m.textsOf e)) :
    Parts ((m.copyText residue size bytes).modifyEntry e change) (e :: blocks) := by
  refine ⟨parts.entries.modify List.mem_cons_self change, ?_⟩
  have here : ((m.copyText residue size bytes).modifyEntry e change).textsOf e =
      (change (m.entry e)).name.toList ++ (change (m.entry e)).value.toList := by
    rw [textsOf, modifyEntry_entry_self]
    rfl
  have same : forall b, b ∈ blocks ->
      ((m.copyText residue size bytes).modifyEntry e change).textsOf b = m.textsOf b := fun b member => by
    have different : b ≠ e := fun same => parts.not_mem (same ▸ member)
    exact textsOf_congr (modifyEntry_entry_of_ne _ change different)
  have held := parts.texts
  rw [List.flatMap_cons] at held
  rw [List.flatMap_cons, here, flatMap_textsOf_congr same]
  exact (copyText_holds held fits).perm (own.symm.append_right _)

/-- An entry is given back with its texts, and the others keep theirs. -/
theorem discard (parts : Parts m (e :: blocks)) : Parts (((m.freeName e).freeValue e).freeEntry e) blocks := by
  have live := parts.entries.live e List.mem_cons_self
  rw [freeName_eq live, freeValue_eq (m := { m with texts := m.texts.releaseAt (m.entry e).name }) live]
  refine ⟨parts.entries.release, ?_⟩
  have held := parts.texts
  rw [List.flatMap_cons, textsOf, List.append_assoc] at held
  exact held.releaseAt.releaseAt

end Parts

/-! ## Lists -/

/-- The cells are as they were; blocks may have been given back. -/
structure SameCells (m m' : Memory) : Prop where
  entries : m'.entries.cell = m.entries.cell
  texts : m'.texts.cell = m.texts.cell
  profiles : m'.profiles = m.profiles

theorem SameCells.refl (m : Memory) : SameCells m m :=
  ⟨rfl, rfl, rfl⟩

theorem SameCells.trans {m m' m'' : Memory} (left : SameCells m m') (right : SameCells m' m'') : SameCells m m'' :=
  ⟨right.entries.trans left.entries, right.texts.trans left.texts, right.profiles.trans left.profiles⟩

theorem SameCells.link {m m' : Memory} (same : SameCells m m') : m'.link = m.link := by
  funext b
  rw [Memory.link, entry, same.entries]
  rfl

theorem SameCells.laid {m m' : Memory} (same : SameCells m m') {root : Root} (laid : Laid m root) : Laid m' root :=
  laid.congr (by rw [profile, same.profiles]; rfl) (fun b _ => congrFun same.entries b)
    fun _ _ text _ => congrFun same.texts text

theorem sameCells_discard (m : Memory) (e : Block) :
    SameCells m (((m.freeName e).freeValue e).freeEntry e) where
  entries := by
    simp only [freeEntry, freeValue, freeName, touchEntry, Heap.release_cell, Heap.touch_cell]
  texts := by
    simp only [freeEntry, freeValue, freeName, touchEntry, Heap.releaseAt_cell]
  profiles := rfl

/-- The loop of `CfgFree` gives back the entries of a list with their texts.
The induction is on the list. -/
theorem freeEntries_parts {m : Memory} {nodes blocks : List Block} {start : Option Block} {fuel : Nat}
    (parts : Parts m (nodes ++ blocks)) (path : Path m.link start nodes none) (enough : nodes.length < fuel) :
    Parts (freeEntries fuel start m) blocks ∧ SameCells m (freeEntries fuel start m) := by
  induction nodes generalizing m start fuel with
  | nil =>
      rw [path_nil] at path
      subst path
      cases fuel <;> exact ⟨parts, SameCells.refl m⟩
  | cons e rest inductionHypothesis =>
      cases fuel with
      | zero => exact absurd enough (Nat.not_lt_zero _)
      | succ fuel =>
          rcases path with ⟨rfl, later⟩
          rw [List.cons_append] at parts
          have touched : m.touchEntry e = m := parts.touch_eq List.mem_cons_self
          have same := sameCells_discard m e
          have walked : Path (((m.freeName e).freeValue e).freeEntry e).link (m.link e) rest none := by
            rw [same.link]
            exact later
          have freed := inductionHypothesis parts.discard walked (Nat.lt_of_succ_lt_succ enough)
          rw [freeEntries]
          rw [touched]
          exact ⟨freed.1, same.trans freed.2⟩

/-- The walk to the last entry accesses live entries only, and changes
nothing. -/
theorem lastFrom_eq {m : Memory} {t : Block} {rest : List Block} {fuel : Nat}
    (live : forall b, b ∈ t :: rest -> m.entries.Live b) (path : Path m.link (some t) (t :: rest) none)
    (enough : rest.length < fuel) :
    lastFrom fuel t m = (m, (t :: rest).getLast (List.cons_ne_nil t rest)) := by
  induction rest generalizing t fuel with
  | nil =>
      cases fuel with
      | zero => exact absurd enough (Nat.not_lt_zero _)
      | succ fuel =>
          have ends : m.link t = none := path.2
          rw [lastFrom, touchEntry, Heap.touch_of_live (live t List.mem_cons_self)]
          rw [ends]
          rfl
  | cons next rest inductionHypothesis =>
      cases fuel with
      | zero => exact absurd enough (Nat.not_lt_zero _)
      | succ fuel =>
          have goes : m.link t = some next := path.2.1
          have later : Path m.link (some next) (next :: rest) none := ⟨rfl, path.2.2⟩
          rw [lastFrom, touchEntry, Heap.touch_of_live (live t List.mem_cons_self)]
          rw [goes]
          dsimp only
          rw [inductionHypothesis (fun b member => live b (List.mem_cons_of_mem _ member)) later
            (Nat.lt_of_succ_lt_succ enough), List.getLast_cons (List.cons_ne_nil next rest)]

namespace Keeps

variable {m m' : Memory} {loose : List Block} {root : Root} {roots : List Root} {e : Block}

/-- The order of the profiles does not matter. -/
theorem perm {other : List Root} (keeps : Keeps m loose roots) (same : roots.Perm other) : Keeps m loose other where
  profiles := keeps.profiles.perm (same.map _)
  parts := keeps.parts.perm ((same.flatMap_right _).append_left _)
  laid := fun root member => keeps.laid root (same.mem_iff.mpr member)

theorem live (keeps : Keeps m loose roots) (member : root ∈ roots) {b : Block} (own : b ∈ root.blocks) :
    m.entries.Live b :=
  keeps.parts.entries.live b (List.mem_append_right _ (List.mem_flatMap.mpr ⟨root, member, own⟩))

theorem touchProfile_eq (keeps : Keeps m loose roots) (member : root ∈ roots) :
    { m with profiles := m.profiles.touch root.block } = m := by
  rw [keeps.profiles.touch_eq (List.mem_map_of_mem member)]

/-- The entries of a profile are fewer than the fuel, so no loop over them is
cut short. -/
theorem length_lt_fuel (keeps : Keeps m loose roots) (member : root ∈ roots) : root.blocks.length < m.fuel := by
  have nodup : root.blocks.Nodup := by
    have all := (List.nodup_append.mp keeps.parts.entries.nodup).2.1
    exact (List.nodup_flatMap.mp all).1 root member
  exact Nat.lt_succ_of_le (length_le_of_bounded nodup fun b own => (keeps.live member own).1)

/-- `CfgNew`: a profile without entries, next to the others. -/
theorem new (keeps : Keeps m loose roots) :
    Keeps (m.cfgNew true).1 loose (⟨m.profiles.next, [], 0⟩ :: roots) where
  profiles := keeps.profiles.alloc default
  parts := ⟨keeps.parts.entries, keeps.parts.texts⟩
  laid := fun root member => by
    rcases List.mem_cons.mp member with rfl | old
    · have fresh : (m.cfgNew true).1.profile m.profiles.next = default := Heap.alloc_cell_next ..
      refine ⟨?_, (fun _ impossible => by cases impossible), ?_⟩
      · rw [fresh]
        rfl
      · rw [fresh]
        rfl
    · have different : root.block ≠ m.profiles.next := fun same =>
        keeps.profiles.next_not_mem (same ▸ List.mem_map_of_mem old)
      exact (keeps.laid root old).congr (Heap.alloc_cell_of_ne _ _ different) (fun _ _ => rfl) fun _ _ _ _ => rfl

/-- `CfgFree`: the profile is gone with all its entries, and the others are as
they were. -/
theorem free (keeps : Keeps m loose (root :: roots)) : Keeps (m.cfgFree (some root.block)) loose roots := by
  have touched := keeps.touchProfile_eq List.mem_cons_self
  have parts : Parts m (root.blocks ++ (loose ++ roots.flatMap Root.blocks)) := by
    refine keeps.parts.perm ?_
    rw [List.flatMap_cons, ← List.append_assoc, ← List.append_assoc]
    exact List.perm_append_comm.append_right _
  have freed := freeEntries_parts parts (keeps.laid root List.mem_cons_self).path
    (keeps.length_lt_fuel List.mem_cons_self)
  rw [cfgFree]
  rw [touched]
  have profiles := keeps.profiles
  rw [List.map_cons, ← freed.2.profiles] at profiles
  refine ⟨profiles.release, ⟨freed.1.entries, freed.1.texts⟩, fun other member => ?_⟩
  have laid := freed.2.laid (keeps.laid other (List.mem_cons_of_mem _ member))
  exact laid.congr rfl (fun _ _ => rfl) fun _ _ _ _ => rfl

/-- The entry is linked behind the entries of the profile, which is not
counted yet.  The two cases of `append_entry` have this in common. -/
structure Linked (m m' : Memory) (root : Root) (e : Block) : Prop where
  path : Path m'.link (m'.profile root.block).head (root.blocks ++ [e]) none
  fields : forall b, { m'.entry b with next := none } = { m.entry b with next := none }
  others : forall b, b ∉ root.blocks -> m'.entry b = m.entry b
  texts : m'.texts = m.texts
  entries : forall blocks, Retains m.entries blocks -> (forall b, b ∈ root.blocks -> b ∈ blocks) ->
    Retains m'.entries blocks
  profiles : forall blocks, Retains m.profiles blocks -> root.block ∈ blocks -> Retains m'.profiles blocks
  apart : forall p, p ≠ root.block -> m'.profile p = m.profile p
  count : (m'.profile root.block).count = (m.profile root.block).count

theorem Linked.textsOf {m m' : Memory} {root : Root} {e : Block} (linked : Linked m m' root e) :
    m'.textsOf = m.textsOf := by
  funext b
  have same := EntryCell.mk.inj (linked.fields b)
  rw [Memory.textsOf, Memory.textsOf, same.1, same.2.2.2.1]

/-- The first entry of a profile is linked at its head. -/
theorem linked_first {m : Memory} {root : Root} (empty : root.blocks = []) {e : Block} (last : m.link e = none) :
    Linked m (m.modifyProfile root.block fun old => { old with head := some e }) root e where
  path := by
    have head : ((m.modifyProfile root.block fun old => { old with head := some e }).profile root.block).head =
        some e := by
      rw [profile, modifyProfile, Heap.modify_cell_self]
    rw [head, empty]
    exact ⟨rfl, last⟩
  fields := fun _ => rfl
  others := fun _ _ => rfl
  texts := rfl
  entries := fun _ holds _ => holds
  profiles := fun _ holds member => holds_modifyProfile holds member _
  apart := fun _ different => modifyProfile_profile_of_ne m _ different
  count := by
    rw [profile, modifyProfile, Heap.modify_cell_self]
    rfl

/-- The next one is linked behind the last entry, which is the only one that
changes. -/
theorem linked_next {m : Memory} {root : Root} (laid : Laid m root) {before : List Block} {t e : Block}
    (split : root.blocks = before ++ [t]) (nodup : root.blocks.Nodup) (absent : e ∉ root.blocks)
    (last : m.link e = none) :
    Linked m (m.modifyEntry t fun old => { old with next := some e }) root e := by
  have others : forall b, b ≠ t -> (m.modifyEntry t fun old => { old with next := some e }).entry b = m.entry b :=
    fun b different => modifyEntry_entry_of_ne m _ different
  have member : t ∈ root.blocks := split ▸ List.mem_append_right _ List.mem_cons_self
  refine ⟨?_, ?_, ?_, rfl, fun _ holds inside => holds_modifyEntry holds (inside t member) _,
    fun _ holds _ => holds,
    fun _ _ => rfl, rfl⟩
  · have walked := laid.path
    rw [split] at walked nodup absent ⊢
    have apart := (List.nodup_append.mp nodup).2.2
    refine walked.push ?_ ?_ ?_
    · intro b earlier
      have different : b ≠ t := apart b earlier t List.mem_cons_self
      exact congrArg EntryCell.next (others b different)
    · rw [Memory.link, modifyEntry_entry_self]
    · have different : e ≠ t := fun same => absent (List.mem_append_right _ (same ▸ List.mem_cons_self))
      rw [Memory.link, others e different]
      exact last
  · intro b
    by_cases here : b = t
    · rw [here, modifyEntry_entry_self]
    · rw [others b here]
  · intro b absent
    exact others b fun same => absent (same ▸ member)

/-- `append_entry`: a loose entry becomes the last one of a profile. -/
theorem append (keeps : Keeps m (e :: loose) (root :: roots)) {x : CfgEntry} (stands : Stands m e x)
    (last : m.link e = none) : Keeps (m.appendEntry root.block e) loose (root.append e x :: roots) := by
  have laid := keeps.laid root List.mem_cons_self
  have nodup := keeps.parts.entries.nodup
  rw [List.flatMap_cons, List.cons_append, List.nodup_cons] at nodup
  have absent : e ∉ root.blocks := fun member =>
    nodup.1 (List.mem_append_right _ (List.mem_append_left _ member))
  have own : root.blocks.Nodup := (List.nodup_append.mp (List.nodup_append.mp nodup.2).2.1).1
  have apart : forall other, other ∈ roots -> forall b, b ∈ other.blocks -> b ∉ root.blocks := by
    intro other member b inOther inRoot
    exact (List.nodup_append.mp (List.nodup_append.mp nodup.2).2.1).2.2 b inRoot b
      (List.mem_flatMap.mpr ⟨other, member, inOther⟩) rfl
  obtain ⟨m', linked, appended⟩ : exists m', Linked m m' root e ∧
      m.appendEntry root.block e =
        m'.modifyProfile root.block fun old => { old with count := (old.count + 1) % 2 ^ 32 } := by
    rw [appendEntry, keeps.touchProfile_eq List.mem_cons_self]
    cases blocks : root.blocks with
    | nil =>
        have head : (m.profile root.block).head = none := by
          have path := laid.path
          rw [blocks] at path
          exact path
        dsimp only
        rw [head]
        exact ⟨_, linked_first blocks last, rfl⟩
    | cons t rest =>
        have path := laid.path
        rw [blocks] at path
        have fits := keeps.length_lt_fuel List.mem_cons_self
        rw [blocks] at fits
        have walked := lastFrom_eq (fun b member => keeps.live List.mem_cons_self (blocks ▸ member))
          (path.1 ▸ path) (Nat.lt_of_succ_lt fits)
        dsimp only
        rw [path.1]
        dsimp only
        rw [walked]
        have split := (List.dropLast_append_getLast (List.cons_ne_nil t rest)).symm
        exact ⟨_, linked_next laid (blocks.trans split) own absent last, rfl⟩
  rw [appended]
  have textsOf := linked.textsOf
  have held : Retains m'.entries (e :: loose ++ (root :: roots).flatMap Root.blocks) := by
    refine linked.entries _ keeps.parts.entries fun b member => ?_
    exact List.mem_append_right _ (List.mem_flatMap.mpr ⟨root, List.mem_cons_self, member⟩)
  have moved : (e :: loose ++ (root :: roots).flatMap Root.blocks).Perm
      (loose ++ (root.append e x :: roots).flatMap Root.blocks) := by
    rw [List.flatMap_cons, List.flatMap_cons, Root.append_blocks, List.append_assoc, List.cons_append,
      List.singleton_append]
    refine List.Perm.trans ?_ (List.perm_middle.symm.append_left _)
    exact List.perm_middle.symm
  have parts : Parts m' (loose ++ (root.append e x :: roots).flatMap Root.blocks) := by
    refine Parts.perm ⟨held, ?_⟩ moved
    rw [linked.texts, textsOf]
    exact keeps.parts.texts
  have standing : forall change b y, Stands m b y -> Stands (m'.modifyProfile root.block change) b y :=
    fun change b y stands =>
      (stands.congr (linked.fields b) fun text _ => by rw [linked.texts]).congr rfl fun _ _ => rfl
  refine ⟨?_, ⟨parts.entries, parts.texts⟩, ?_⟩
  · exact holds_modifyProfile (linked.profiles _ keeps.profiles List.mem_cons_self) List.mem_cons_self _
  · intro other member
    rcases List.mem_cons.mp member with rfl | old
    · have cell : (m'.modifyProfile root.block fun old => { old with count := (old.count + 1) % 2 ^ 32 }).profile
          root.block = { m'.profile root.block with count := ((m'.profile root.block).count + 1) % 2 ^ 32 } :=
        modifyProfile_profile_self ..
      refine ⟨?_, ?_, ?_⟩
      · rw [Root.append_blocks, show (root.append e x).block = root.block from rfl, cell]
        exact linked.path
      · intro pair member
        rcases List.mem_append.mp member with earlier | new
        · exact standing _ _ _ (laid.stands pair earlier)
        · rw [List.mem_singleton] at new
          rw [new]
          exact standing _ _ _ stands
      · rw [show (root.append e x).block = root.block from rfl, cell, linked.count, laid.count]
        rfl
    · have different : other.block ≠ root.block := fun same =>
        (List.nodup_cons.mp keeps.profiles.nodup).1 (same ▸ List.mem_map_of_mem old)
      refine (keeps.laid other (List.mem_cons_of_mem _ old)).congr ?_ ?_ ?_
      · rw [← linked.apart _ different]
        exact modifyProfile_profile_of_ne m' _ different
      · exact fun b own => linked.others b (apart other old b own)
      · intro b _ text _
        rw [show (m'.modifyProfile _ _).texts = m'.texts from rfl, linked.texts]

/-- A memory that agrees on all profiles and their entries keeps them too. -/
theorem frame (keeps : Keeps m loose roots) {other : List Block} (profiles : m'.profiles = m.profiles)
    (parts : Parts m' (other ++ roots.flatMap Root.blocks))
    (entries : forall root, root ∈ roots -> forall b, b ∈ root.blocks -> m'.entry b = m.entry b)
    (texts : forall root, root ∈ roots -> forall b, b ∈ root.blocks -> forall text, text ∈ m.textsOf b ->
      m'.texts.cell text = m.texts.cell text) : Keeps m' other roots where
  profiles := profiles ▸ keeps.profiles
  parts := parts
  laid := fun root member =>
    (keeps.laid root member).congr (by rw [profile, profiles]; rfl) (entries root member) (texts root member)

end Keeps

end Memory

end Cascade
end BugMuseum
