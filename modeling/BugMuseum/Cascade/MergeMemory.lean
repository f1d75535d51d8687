import BugMuseum.Cascade.ParseMemory

namespace BugMuseum
namespace Cascade

open Foundation

/-!
# Adding and merging in memory

`CfgAdd` gives back what it allocated when it fails.  `CfgMerge` does not: it links every copy
that it could allocate, with whatever texts it got for it, and leaves those copies in the list
when a later one fails.  Nothing is lost either way, because a copy belongs to the base from
the moment it is linked.
-/

namespace Memory

section Adding

variable (residue : Block -> Nat -> UInt8) {m : Memory} {root : Root} {roots : List Root}

theorem ofBlock_string (string : CStr) : CStr.ofBlock (string.1 ++ [0]) = string :=
  Subtype.ext (cString_append_zero string.2 [])

/-- `CfgAdd` in memory does what the list model says, and leaves nothing
behind when it fails. -/
theorem cfgAdd_comes (keeps : Keeps m [] (root :: roots)) (name : CStr) (type : Int) {len : Nat}
    (val : Option (Field len)) (grant : EntryGrant) :
    exists grown : Root, grown.block = root.block ∧
      (cfgAdd residue m (some root.block) (some name) type val grant).2 =
        (Cascade.cfgAdd (some root.profile) (some name) type val grant).1 ∧
      (Cascade.cfgAdd (some root.profile) (some name) type val grant).2 = some grown.profile ∧
      Keeps (cfgAdd residue m (some root.block) (some name) type val grant).1 [] (grown :: roots) := by
  have parts : Parts m ((root :: roots).flatMap Root.blocks) := keeps.parts
  unfold cfgAdd Cascade.cfgAdd
  cases grant.entry with
  | false => exact ⟨root, rfl, rfl, rfl, keeps⟩
  | true =>
      have drafted := (Draft.calloc parts).keeps keeps
      cases grant.name with
      | false =>
          have blank := Draft.calloc_entry m
          exact ⟨root, rfl, rfl, rfl, drafted.discardBlank (by rw [blank]; rfl) (by rw [blank]; rfl)⟩
      | true =>
          have named := Draft.named residue parts name.1 type len
          have cell := nameEntry_entry residue m name.1 type len
          have string := nameEntry_cell residue m.callocEntry m.entries.next name.1 type len
          have older := nameEntry_older residue m.callocEntry m.entries.next name.1 type len
          cases val with
          | none =>
              have stands := stands_named cell string
              rw [ofBlock_string] at stands
              exact ⟨root.append _ _, rfl, rfl, congrArg some (Root.append_profile ..).symm,
                (named.keeps keeps).append stands named.last⟩
          | some val =>
              cases grant.value with
              | false =>
                  exact ⟨root, rfl, rfl, rfl, (named.keeps keeps).discardNamed (by rw [cell])⟩
              | true =>
                  have valued := named.valued residue (by rw [cell]) val.1
                  have stands := stands_valueEntry residue cell string older val.2
                  rw [ofBlock_string] at stands
                  exact ⟨root.append _ _, rfl, rfl, congrArg some (Root.append_profile ..).symm,
                    (valued.keeps keeps).append stands valued.last⟩

end Adding

section Copying

variable (residue : Block -> Nat -> UInt8) {m m' : Memory} {s e : Block} {x : CfgEntry} {blocks : List Block}

/-- The name of a new entry is this one, and it can be read inside its
block. -/
structure NamedBy (m : Memory) (text : Option Block) (name : Option CStr) : Prop where
  same : text.map (fun text => CStr.ofBlock (m.texts.cell text)) = name
  ended : forall block, text = some block -> (0 : UInt8) ∈ m.texts.cell block
  issued : forall block, text = some block -> block < m.texts.next

/-- A further copy leaves the name as it is, since it goes to a block of its
own. -/
theorem NamedBy.copyText {text : Option Block} {name : Option CStr} (named : NamedBy m text name)
    {size : Nat} {bytes : Bytes} {change : EntryCell -> EntryCell} :
    NamedBy ((m.copyText residue size bytes).modifyEntry e change) text name := by
  have kept : forall block, text = some block ->
      ((m.copyText residue size bytes).modifyEntry e change).texts.cell block = m.texts.cell block :=
    fun block same => copyText_cell_of_ne (Nat.ne_of_lt (named.issued block same))
  refine ⟨?_, fun block same => (kept block same).symm ▸ named.ended block same, fun block same => ?_⟩
  · rw [← named.same]
    exact Option.map_congr fun block same => by rw [kept block same]
  · rw [modifyEntry, Memory.copyText, Heap.write_next]
    exact (named.issued block same).trans (Nat.lt_succ_self _)

theorem copyName_of_some {text : Block} (named : (m.entry s).name = some text) (live : m.texts.Live text)
    (name : Bool) :
    copyName residue m e s name =
      if name then
        (m.copyText residue ((cString (m.texts.cell text)).length + 1)
          (cString (m.texts.cell text) ++ [0])).modifyEntry e fun old => { old with name := some m.texts.next }
      else m := by
  unfold copyName
  simp only [named, Heap.touch_of_live live]
  cases name <;> rfl

theorem copyName_spec (parts : Parts m blocks) (member : s ∈ blocks) (stands : Stands m s x) (name : Bool) :
    exists text : Option Block,
      Draft m (copyName residue m.callocEntry m.entries.next s name) m.entries.next blocks ∧
      (copyName residue m.callocEntry m.entries.next s name).entry m.entries.next = ⟨text, 0, 0, none, 0, none⟩ ∧
      NamedBy (copyName residue m.callocEntry m.entries.next s name) text (if name then x.name else none) := by
  have drafted := Draft.calloc parts
  have blank := Draft.calloc_entry m
  have different : s ≠ m.entries.next := fun same => parts.entries.next_not_mem (same ▸ member)
  have nameless : NamedBy m.callocEntry none none :=
    ⟨rfl, (fun _ impossible => by cases impossible), (fun _ impossible => by cases impossible)⟩
  have older := drafted.older s different
  cases named : (m.entry s).name with
  | none =>
      have same : copyName residue m.callocEntry m.entries.next s name = m.callocEntry := by
        rw [copyName, older, named]
      have absent : x.name = none := by
        rw [← stands.name, named]
        rfl
      rw [same, absent, ite_self]
      exact ⟨none, drafted, blank, nameless⟩
  | some source =>
      have live : m.callocEntry.texts.Live source := parts.texts_live member (mem_textsOf_name named)
      rw [copyName_of_some residue (older ▸ named) live]
      cases name with
      | false => exact ⟨none, drafted, blank, nameless⟩
      | true =>
          let string := CStr.ofBlock (m.texts.cell source)
          have copied : (m.callocEntry.copyText residue (string.1.length + 1) (string.1 ++ [0])).texts.cell
              m.texts.next = string.1 ++ [0] := copyText_string string.1
          have own : x.name = some string := by
            rw [← stands.name, named]
            rfl
          refine ⟨some m.texts.next, drafted.attach (List.length_append).le ?_ rfl, ?_, ?_, ?_, ?_⟩
          · rw [textsOf, blank]
            exact List.Perm.refl _
          · rw [if_pos rfl, modifyEntry_entry_self]
            exact congrArg (fun old : EntryCell => { old with name := some m.texts.next }) blank
          · rw [if_pos rfl, own, ← ofBlock_string string]
            exact congrArg (fun cell => some (CStr.ofBlock cell)) copied
          · intro block same
            cases same
            exact (congrArg (fun cell => (0 : UInt8) ∈ cell) copied).mpr (string_ended string.1)
          · intro block same
            cases same
            rw [if_pos rfl, modifyEntry, copyText, Heap.write_next]
            exact Nat.lt_succ_self _

theorem copyOwnValue_of_some {content : Block} (valued : (m.entry s).value = some content)
    (live : m.texts.Live content) (value : Bool) :
    copyOwnValue residue m e s value =
      if value then
        (m.copyValue residue ((m.texts.cell content).take (m.entry s).valueLen)).modifyEntry e
          fun old => { old with value := some m.texts.next }
      else m := by
  unfold copyOwnValue
  simp only [valued, Heap.touch_of_live live]
  cases value <;> rfl

/-- The copy of an entry, before it is linked.  Its texts are in new blocks,
if they were granted. -/
def copyFields (m : Memory) (s : Block) (grant : EntryGrant) : Memory :=
  let e := m.entries.next
  let m := copyName residue m.callocEntry e s grant.name
  let m := m.modifyEntry e fun old =>
    { old with type := (m.entry s).type, valueLen := (m.entry s).valueLen, ival := (m.entry s).ival }
  copyOwnValue residue m e s grant.value

theorem stands_copy {text content : Option Block} {grant : EntryGrant}
    (cell : m.entry e = ⟨text, x.type, x.valueLen, content, x.ival, none⟩)
    (name : NamedBy m text (if grant.name then x.name else none))
    (value : content.map (fun block => (m.texts.cell block).take x.valueLen) = if grant.value then x.value else none)
    (sized : forall block, content = some block -> x.valueLen ≤ (m.texts.cell block).length) :
    Stands m e (copyEntry grant x) := by
  refine ⟨?_, ?_, by rw [cell]; rfl, by rw [cell]; rfl, ?_, ?_, by rw [cell]; rfl⟩
  · rw [cell]
    exact name.same
  · rw [cell]
    exact name.ended
  · rw [cell]
    exact value
  · rw [cell]
    exact sized

theorem copyFields_spec (parts : Parts m blocks) (member : s ∈ blocks) (stands : Stands m s x)
    (grant : EntryGrant) :
    Draft m (copyFields residue m s grant) m.entries.next blocks ∧
      Stands (copyFields residue m s grant) m.entries.next (copyEntry grant x) := by
  have different : s ≠ m.entries.next := fun same => parts.entries.next_not_mem (same ▸ member)
  rcases copyName_spec residue parts member stands grant.name with ⟨text, named, blank, name⟩
  unfold copyFields
  dsimp only
  generalize copyName residue m.callocEntry m.entries.next s grant.name = m1 at named blank name ⊢
  rw [named.older s different, stands.type, stands.valueLen, stands.ival]
  have fields := named.adjust (fun old => { old with type := x.type, valueLen := x.valueLen, ival := x.ival })
    rfl rfl rfl
  have cell : (m1.modifyEntry m.entries.next fun old =>
      { old with type := x.type, valueLen := x.valueLen, ival := x.ival }).entry m.entries.next =
      ⟨text, x.type, x.valueLen, none, x.ival, none⟩ := by
    rw [modifyEntry_entry_self, blank]
  replace name : NamedBy (m1.modifyEntry m.entries.next fun old =>
      { old with type := x.type, valueLen := x.valueLen, ival := x.ival }) text
      (if grant.name then x.name else none) := ⟨name.same, name.ended, name.issued⟩
  generalize m1.modifyEntry m.entries.next _ = m2 at fields cell name ⊢
  have older := fields.older s different
  have unsized : forall block, none = some block -> x.valueLen ≤ (m2.texts.cell block).length :=
    fun _ impossible => by cases impossible
  cases valued : (m.entry s).value with
  | none =>
      have same : copyOwnValue residue m2 m.entries.next s grant.value = m2 := by
        rw [copyOwnValue, older, valued]
      have absent : x.value = none := by
        rw [← stands.value, valued]
        rfl
      rw [same]
      refine ⟨fields, stands_copy cell name ?_ unsized⟩
      rw [absent, ite_self]
      rfl
  | some content =>
      have own := mem_textsOf_value valued
      have live : m2.texts.Live content :=
        fields.parts.texts_live (List.mem_cons_of_mem _ member) (textsOf_congr older ▸ own)
      have bytes : m2.texts.cell content = m.texts.cell content :=
        fields.texts content (parts.texts_live member own).1
      rw [copyOwnValue_of_some residue (older ▸ valued) live, older, stands.valueLen, bytes]
      cases granted : grant.value with
      | false =>
          refine ⟨fields, stands_copy cell name ?_ unsized⟩
          rw [granted]
          rfl
      | true =>
          have whole : x.value = some ((m.texts.cell content).take x.valueLen) := by
            rw [← stands.value, valued]
            rfl
          generalize (m.texts.cell content).take x.valueLen = bytes at whole ⊢
          have measured : bytes.length = x.valueLen := x.sized bytes whole
          obtain ⟨behind, copied⟩ : exists behind,
              (m2.copyValue residue bytes).texts.cell m2.texts.next = bytes ++ behind := copyValue_cell bytes
          have draft := fields.valued residue (by rw [cell]) bytes
          have filled : (valueEntry residue m2 m.entries.next bytes).entry m.entries.next =
              ⟨text, x.type, x.valueLen, some m2.texts.next, x.ival, none⟩ := by
            rw [valueEntry, modifyEntry_entry_self]
            exact congrArg (fun old : EntryCell => { old with value := some m2.texts.next }) cell
          refine ⟨draft, stands_copy filled (name.copyText residue) ?_ ?_⟩
          · rw [if_pos granted, whole]
            refine congrArg some ?_
            exact (congrArg (fun cell => cell.take x.valueLen) copied).trans
              (measured ▸ List.take_left)
          · intro block same
            cases same
            have length := (congrArg List.length copied).trans List.length_append
            exact measured ▸ (Nat.le_add_right _ _).trans length.ge

end Copying

/-! ## The merge -/

section Merging

variable (residue : Block -> Nat -> UInt8) (grant : Nat -> EntryGrant) {m : Memory} {base overlay : Root}
  {roots : List Root}

/-- The turn of the loop for one entry: the copy is linked behind the base,
and the overlay is as it was. -/
theorem Keeps.copyInto (keeps : Keeps m [] (base :: overlay :: roots)) {s : Block} {x : CfgEntry}
    (member : (s, x) ∈ overlay.entries) (one : EntryGrant) :
    Keeps ((copyFields residue m s one).appendEntry base.block m.entries.next) []
      (base.append m.entries.next (copyEntry one x) :: overlay :: roots) := by
  have own : s ∈ (base :: overlay :: roots).flatMap Root.blocks :=
    List.mem_flatMap.mpr ⟨overlay, List.mem_cons_of_mem _ List.mem_cons_self, List.mem_map_of_mem member⟩
  have laid := keeps.laid overlay (List.mem_cons_of_mem _ List.mem_cons_self)
  have parts : Parts m ((base :: overlay :: roots).flatMap Root.blocks) := keeps.parts
  have copied := copyFields_spec residue parts own (laid.stands _ member) one
  exact (copied.1.keeps keeps).append copied.2 copied.1.last

/-- The entry behind a given one, which is where the loop goes on. -/
theorem Laid.link_eq {root : Root} (laid : Laid m root) {before rest : List (Block × CfgEntry)} {s : Block}
    {x : CfgEntry} (split : root.entries = before ++ (s, x) :: rest) :
    m.link s = (rest.map Prod.fst).head? := by
  have path := laid.path
  rw [Root.blocks, split, List.map_append, path_append] at path
  rcases path with ⟨_, _, rfl, later⟩
  exact path_head later

/-- The loop of a merge does what the list model says.  The induction is on
the entries of the overlay that are left. -/
theorem mergeFrom_comes {before rest : List (Block × CfgEntry)} {fuel i : Nat}
    (keeps : Keeps m [] (base :: overlay :: roots)) (split : overlay.entries = before ++ rest)
    (enough : rest.length < fuel) :
    exists grown : Root, grown.block = base.block ∧
      ((mergeFrom residue grant fuel i (rest.map Prod.fst).head? base.block m).2, grown.profile) =
        Cascade.mergeFrom grant i (rest.map Prod.snd) base.profile ∧
      Keeps (mergeFrom residue grant fuel i (rest.map Prod.fst).head? base.block m).1 []
        (grown :: overlay :: roots) := by
  induction rest generalizing m base before fuel i with
  | nil => cases fuel <;> exact ⟨base, rfl, rfl, keeps⟩
  | cons pair rest inductionHypothesis =>
      rcases pair with ⟨s, x⟩
      cases fuel with
      | zero => exact absurd enough (Nat.not_lt_zero _)
      | succ fuel =>
          have member : (s, x) ∈ overlay.entries := split ▸ List.mem_append_right _ List.mem_cons_self
          have inside : forall first : Root, overlay ∈ first :: overlay :: roots :=
            fun first => List.mem_cons_of_mem first List.mem_cons_self
          have own : s ∈ overlay.blocks := List.mem_map_of_mem member
          have copied := keeps.copyInto residue member (grant i)
          have touched : m.callocEntry.touchEntry s = m.callocEntry :=
            (keeps.parts.calloc).touch_eq (List.mem_cons_of_mem _
              (List.mem_append_right _ (List.mem_flatMap.mpr ⟨overlay, inside base, own⟩)))
          rw [List.map_cons, List.map_cons, List.head?_cons, Cascade.mergeFrom]
          cases granted : (grant i).entry with
          | false =>
              rw [mergeFrom, granted]
              exact ⟨base, rfl, rfl, keeps⟩
          | true =>
              generalize linked :
                (copyFields residue m s (grant i)).appendEntry base.block m.entries.next = m' at copied
              have turn : mergeFrom residue grant (fuel + 1) i (some s) base.block m =
                  mergeFrom residue grant fuel (i + 1) (m'.link s) base.block (m'.touchEntry s) := by
                rw [mergeFrom, granted, touched, ← linked]
                rfl
              have still := copied.live (inside _) own
              have same : m'.touchEntry s = m' := by
                rw [touchEntry, Heap.touch_of_live still]
              rw [turn, same, (copied.laid overlay (inside _)).link_eq split, if_pos rfl, ← Root.append_profile]
              exact inductionHypothesis copied (split.trans (List.append_cons ..)) (Nat.lt_of_succ_lt_succ enough)

/-- `CfgMerge` in memory does what the list model says, whichever allocations
fail, and leaves the overlay as it was. -/
theorem cfgMerge_comes (keeps : Keeps m [] (base :: overlay :: roots)) :
    exists grown : Root, grown.block = base.block ∧
      (cfgMerge residue grant m (some base.block) (some overlay.block)).2 =
        (Cascade.cfgMerge (some base.profile) (some overlay.profile) grant).1 ∧
      (Cascade.cfgMerge (some base.profile) (some overlay.profile) grant).2 = some grown.profile ∧
      Keeps (cfgMerge residue grant m (some base.block) (some overlay.block)).1 [] (grown :: overlay :: roots) := by
  have member : overlay ∈ base :: overlay :: roots := List.mem_cons_of_mem _ List.mem_cons_self
  have touched := keeps.touchProfile_eq member
  have start := path_head (keeps.laid overlay member).path
  have fits := keeps.length_lt_fuel member
  rw [Root.blocks, List.length_map] at fits
  rcases mergeFrom_comes residue grant (i := 0) keeps (List.nil_append _).symm fits with ⟨grown, block, same, kept⟩
  have pair := Prod.mk.inj same
  unfold cfgMerge
  dsimp only
  rw [touched, start]
  exact ⟨grown, block, pair.1, congrArg some pair.2.symm, kept⟩

end Merging

end Memory

end Cascade
end BugMuseum
