import BugMuseum.Cascade.MemoryRules

namespace BugMuseum
namespace Cascade

open Foundation

/-!
# Parsing in memory

`CfgParseBlob` has eleven exits, and at most of them there is an unfinished profile, or an
unfinished entry too.  Each of these exits gives back exactly what was allocated, and a parse
that succeeds leaves the profile that the list model of the reader builds.
-/

namespace Memory

/-- One more entry has been made, which no list reaches yet.  Whatever was
there before is as it was. -/
structure Draft (m m' : Memory) (e : Block) (blocks : List Block) : Prop where
  parts : Parts m' (e :: blocks)
  profiles : m'.profiles = m.profiles
  older : forall b, b ≠ e -> m'.entry b = m.entry b
  texts : forall text, text < m.texts.next -> m'.texts.cell text = m.texts.cell text
  issued : m.texts.next ≤ m'.texts.next
  last : m'.link e = none

namespace Draft

variable {m m' : Memory} {e : Block} {blocks : List Block}

theorem calloc (parts : Parts m blocks) : Draft m m.callocEntry m.entries.next blocks where
  parts := parts.calloc
  profiles := rfl
  older := fun _ different => Heap.alloc_cell_of_ne _ _ different
  texts := fun _ _ => rfl
  issued := Nat.le_refl _
  last := congrArg EntryCell.next (Heap.alloc_cell_next ..)

theorem calloc_entry (m : Memory) : m.callocEntry.entry m.entries.next = default :=
  Heap.alloc_cell_next ..

/-- A text is copied for the new entry, to a block that is newer than all
others. -/
theorem attach (draft : Draft m m' e blocks) {residue : Block -> Nat -> UInt8} {size : Nat} {bytes : Bytes}
    (fits : bytes.length ≤ size) {change : EntryCell -> EntryCell}
    (own : ((change (m'.entry e)).name.toList ++ (change (m'.entry e)).value.toList).Perm
      (m'.texts.next :: m'.textsOf e))
    (next : (change (m'.entry e)).next = (m'.entry e).next) :
    Draft m ((m'.copyText residue size bytes).modifyEntry e change) e blocks where
  parts := draft.parts.attach fits own
  profiles := draft.profiles
  older := fun b different => (modifyEntry_entry_of_ne _ change different).trans (draft.older b different)
  texts := fun text old =>
    (copyText_cell_of_ne (Nat.ne_of_lt (old.trans_le draft.issued))).trans (draft.texts text old)
  issued := by
    refine draft.issued.trans ?_
    rw [modifyEntry, copyText, Heap.write_next]
    exact Nat.le_succ _
  last := by
    rw [link, modifyEntry_entry_self]
    exact next.trans draft.last

theorem adjust (draft : Draft m m' e blocks) (change : EntryCell -> EntryCell)
    (name : (change (m'.entry e)).name = (m'.entry e).name)
    (value : (change (m'.entry e)).value = (m'.entry e).value)
    (next : (change (m'.entry e)).next = (m'.entry e).next) : Draft m (m'.modifyEntry e change) e blocks where
  parts := draft.parts.adjust List.mem_cons_self name value
  profiles := draft.profiles
  older := fun b different => (modifyEntry_entry_of_ne _ change different).trans (draft.older b different)
  texts := draft.texts
  issued := draft.issued
  last := by
    rw [link, modifyEntry_entry_self]
    exact next.trans draft.last

/-- The kept profiles have not been touched, and the new entry is the only
loose one. -/
theorem keeps {roots : List Root} (draft : Draft m m' m.entries.next (roots.flatMap Root.blocks))
    (keeps : Keeps m [] roots) : Keeps m' [m.entries.next] roots := by
  have old : forall root, root ∈ roots -> forall b, b ∈ root.blocks -> b ≠ m.entries.next :=
    fun root member b own => Nat.ne_of_lt (keeps.live member own).1
  refine keeps.frame draft.profiles draft.parts (fun root member b own => draft.older b (old root member b own)) ?_
  intro root member b own text named
  exact draft.texts text (keeps.parts.texts_live (List.mem_flatMap.mpr ⟨root, member, own⟩) named).1

end Draft

section Texts

variable {m : Memory} {residue : Block -> Nat -> UInt8}

theorem copyText_string (bytes : Bytes) :
    (m.copyText residue (bytes.length + 1) (bytes ++ [0])).texts.cell m.texts.next = bytes ++ [0] := by
  have size : (bytes ++ [(0 : UInt8)]).length = bytes.length + 1 := List.length_append
  rw [copyText_cell size.le, List.drop_of_length_le (by rw [freshBytes_length, size]), List.append_nil]

theorem length_le_copyValue (bytes : Bytes) : bytes.length ≤ if bytes.length = 0 then 1 else bytes.length := by
  split
  · omega
  · exact Nat.le_refl _

theorem copyValue_cell (bytes : Bytes) :
    exists behind, (m.copyValue residue bytes).texts.cell m.texts.next = bytes ++ behind :=
  ⟨_, copyText_cell (length_le_copyValue bytes)⟩

end Texts

namespace Keeps

variable {m : Memory} {roots : List Root} {root : Root} {e : Block}

theorem discard (keeps : Keeps m [e] roots) : Keeps (((m.freeName e).freeValue e).freeEntry e) [] roots := by
  have same := sameCells_discard m e
  refine keeps.frame same.profiles keeps.parts.discard (fun _ _ b _ => congrFun same.entries b) ?_
  exact fun _ _ _ _ text _ => congrFun same.texts text

/-- An entry that has a name only is given back, with the name. -/
theorem discardNamed (keeps : Keeps m [e] roots) (value : (m.entry e).value = none) :
    Keeps ((m.freeName e).freeEntry e) [] roots := by
  have live := keeps.parts.entries.live e List.mem_cons_self
  have named := freeName_eq live
  have same : (m.freeName e).freeValue e = m.freeName e := by
    have valued : ((m.freeName e).entry e).value = none := by
      rw [named]
      exact value
    rw [freeValue_eq (named ▸ live), valued]
    rfl
  have discarded := keeps.discard
  rwa [same] at discarded

/-- An entry without texts is given back. -/
theorem discardBlank (keeps : Keeps m [e] roots) (name : (m.entry e).name = none)
    (value : (m.entry e).value = none) : Keeps (m.freeEntry e) [] roots := by
  have same : m.freeName e = m := by
    rw [freeName_eq (keeps.parts.entries.live e List.mem_cons_self), name]
    rfl
  have discarded := keeps.discardNamed value
  rwa [same] at discarded

end Keeps

section Fields

variable {m : Memory} {e : Block} {blocks : List Block} (residue : Block -> Nat -> UInt8)

/-- A new entry with its name, its type and the length of its value. -/
def nameEntry (m : Memory) (e : Block) (name : Bytes) (type : Int) (valueLen : Nat) : Memory :=
  (m.copyText residue (name.length + 1) (name ++ [0])).modifyEntry e fun old =>
    { old with name := some m.texts.next, type, valueLen }

/-- With its value, which has a block of at least one byte. -/
def valueEntry (m : Memory) (e : Block) (value : Bytes) : Memory :=
  (m.copyValue residue value).modifyEntry e fun old => { old with value := some m.texts.next }

theorem nameEntry_entry (m : Memory) (name : Bytes) (type : Int) (valueLen : Nat) :
    (nameEntry residue m.callocEntry m.entries.next name type valueLen).entry m.entries.next =
      ⟨some m.texts.next, type, valueLen, none, 0, none⟩ := by
  rw [nameEntry, modifyEntry_entry_self]
  exact congrArg (fun old : EntryCell => { old with name := some m.texts.next, type, valueLen })
    (Draft.calloc_entry m)

theorem nameEntry_cell (m : Memory) (e : Block) (name : Bytes) (type : Int) (valueLen : Nat) :
    (nameEntry residue m e name type valueLen).texts.cell m.texts.next = name ++ [0] :=
  copyText_string name

theorem nameEntry_older (m : Memory) (e : Block) (name : Bytes) (type : Int) (valueLen : Nat) :
    m.texts.next < (nameEntry residue m e name type valueLen).texts.next := by
  rw [nameEntry, modifyEntry, copyText, Heap.write_next]
  exact Nat.lt_succ_self _

theorem Draft.named (parts : Parts m blocks) (name : Bytes) (type : Int) (valueLen : Nat) :
    Draft m (nameEntry residue m.callocEntry m.entries.next name type valueLen) m.entries.next blocks := by
  have blank := Draft.calloc_entry m
  refine (Draft.calloc parts).attach (List.length_append).le ?_ rfl
  rw [textsOf, blank]
  exact List.Perm.refl _

theorem Draft.valued {m' : Memory} (draft : Draft m m' e blocks) (blank : (m'.entry e).value = none)
    (value : Bytes) : Draft m (valueEntry residue m' e value) e blocks := by
  refine draft.attach (length_le_copyValue value) ?_ rfl
  rw [textsOf, blank]
  exact (List.perm_append_comm).trans (List.Perm.of_eq (by simp))

theorem string_ended (name : Bytes) : (0 : UInt8) ∈ name ++ [0] :=
  List.mem_append_right _ List.mem_cons_self

/-- An entry without a value stands once its name is in its block. -/
theorem stands_named {text : Block} {name : Bytes} {type : Int} {valueLen : Nat} {ival : Int}
    {next : Option Block} (cell : m.entry e = ⟨some text, type, valueLen, none, ival, next⟩)
    (string : m.texts.cell text = name ++ [0]) :
    Stands m e ⟨some (CStr.ofBlock (name ++ [0])), type, valueLen, none, ival, sized_none valueLen⟩ := by
  refine ⟨?_, ?_, by rw [cell], by rw [cell], by rw [cell]; rfl, ?_, by rw [cell]⟩
  · rw [cell, ← string]
    rfl
  · intro other named
    rw [cell] at named
    cases named
    exact string ▸ string_ended name
  · intro other valued
    rw [cell] at valued
    cases valued

/-- An entry with a value stands once both of its texts are in their
blocks. -/
theorem stands_valued {text content : Block} {name value behind : Bytes} {type : Int} {valueLen : Nat}
    {ival : Int} {next : Option Block}
    (cell : m.entry e = ⟨some text, type, valueLen, some content, ival, next⟩)
    (string : m.texts.cell text = name ++ [0]) (copied : m.texts.cell content = value ++ behind)
    (measured : value.length = valueLen) :
    Stands m e ⟨some (CStr.ofBlock (name ++ [0])), type, valueLen, some value, ival, sized_some measured⟩ := by
  subst measured
  refine ⟨?_, ?_, by rw [cell], by rw [cell], ?_, ?_, by rw [cell]⟩
  · rw [cell, ← string]
    rfl
  · intro other named
    rw [cell] at named
    cases named
    exact string ▸ string_ended name
  · rw [cell]
    dsimp only [Option.map_some]
    rw [copied, List.take_left]
  · intro other valued
    rw [cell] at valued
    cases valued
    rw [copied, List.length_append]
    exact Nat.le_add_right _ _

/-- The value is copied behind the name, to a newer block, and so the name is
kept. -/
theorem stands_valueEntry {text : Block} {name value : Bytes} {type : Int} {valueLen : Nat}
    (cell : m.entry e = ⟨some text, type, valueLen, none, 0, none⟩)
    (string : m.texts.cell text = name ++ [0]) (older : text < m.texts.next)
    (measured : value.length = valueLen) :
    Stands (valueEntry residue m e value) e
      ⟨some (CStr.ofBlock (name ++ [0])), type, valueLen, some value, 0, sized_some measured⟩ := by
  obtain ⟨behind, copied⟩ : exists behind, (m.copyValue residue value).texts.cell m.texts.next = value ++ behind :=
    copyValue_cell value
  have entry : (valueEntry residue m e value).entry e = ⟨some text, type, valueLen, some m.texts.next, 0, none⟩ := by
    rw [valueEntry, modifyEntry_entry_self]
    exact congrArg (fun old : EntryCell => { old with value := some m.texts.next }) cell
  have kept : (valueEntry residue m e value).texts.cell text = name ++ [0] :=
    (copyText_cell_of_ne (Nat.ne_of_lt older)).trans string
  exact stands_valued entry kept copied measured

end Fields

/-- What has come of a reader for the memory: a failure has given back the
profile, and a success has left it as the list model of the reader says. -/
def Comes (roots : List Root) (p : Block) : Except Int CfgProfile -> Memory × Int -> Prop
  | .error code, made => made.2 = code ∧ code ≠ cfgOk ∧ Keeps made.1 [] roots
  | .ok q, made => made.2 = cfgOk ∧ exists root, root.block = p ∧ root.profile = q ∧ Keeps made.1 [] (root :: roots)

section Entries

variable (env : ParseEnv) (data : Bytes) (residue : Block -> Nat -> UInt8) {m : Memory} {root : Root}
  {roots : List Root}

theorem storeFields_comes (keeps : Keeps m [] (root :: roots)) (i : Nat) (f : Fields) :
    Comes roots root.block
      ((storeEntry env data i f.name f.type f.value f.valP).map (Cascade.appendEntry root.profile))
      (storeFields residue env data i f root.block m) := by
  have enomem : cfgEnomem ≠ cfgOk := by decide
  have parts : Parts m ((root :: roots).flatMap Root.blocks) := keeps.parts
  unfold storeFields storeEntry
  cases (env.grant i).entry with
  | false => exact ⟨rfl, enomem, keeps.free⟩
  | true =>
      have drafted := (Draft.calloc parts).keeps keeps
      cases (env.grant i).name with
      | false =>
          have blank := Draft.calloc_entry m
          exact ⟨rfl, enomem, (drafted.discardBlank (by rw [blank]; rfl) (by rw [blank]; rfl)).free⟩
      | true =>
          have named := Draft.named residue parts f.name f.type.toNat f.value.length
          have cell := nameEntry_entry residue m f.name f.type.toNat f.value.length
          have string := nameEntry_cell residue m.callocEntry m.entries.next f.name f.type.toNat f.value.length
          have older := nameEntry_older residue m.callocEntry m.entries.next f.name f.type.toNat f.value.length
          by_cases number : (f.type.toNat : Int) = cfgInt
          · simp only [number, if_true]
            generalize (decodeField (fun k => env.byteAt data (f.valP + k)) f.value.length (env.frame i)).1 = ival
            rw [number] at named cell string older
            have counted := named.adjust (fun old => { old with ival }) rfl rfl rfl
            have entry : ((nameEntry residue m.callocEntry m.entries.next f.name cfgInt
                f.value.length).modifyEntry m.entries.next fun old => { old with ival }).entry m.entries.next =
                ⟨some m.texts.next, cfgInt, f.value.length, none, ival, none⟩ := by
              rw [modifyEntry_entry_self]
              exact congrArg (fun old : EntryCell => { old with ival }) cell
            have stands := stands_named entry string
            have keeps := (counted.keeps keeps).append stands counted.last
            exact ⟨rfl, root.append _ _, rfl, Root.append_profile .., keeps⟩
          · simp only [number, if_false]
            cases (env.grant i).value with
            | false =>
                have drafted := named.keeps keeps
                exact ⟨rfl, enomem, (drafted.discardNamed (by rw [cell])).free⟩
            | true =>
                have valued := named.valued residue (by rw [cell]) f.value
                have stands := stands_valueEntry residue cell string older rfl
                have keeps := (valued.keeps keeps).append stands valued.last
                exact ⟨rfl, root.append _ _, rfl, Root.append_profile .., keeps⟩

theorem parseEntry_eq (i off : Nat) :
    parseEntry env data i off =
      match parseFields env data off with
      | .error code => .error code
      | .ok (f, off) => (storeEntry env data i f.name f.type f.value f.valP).map fun e => (e, off) := by
  have split : parseEntry env data i off = do
      let fields ← parseFields env data off
      let e ← storeEntry env data i fields.1.name fields.1.type fields.1.value fields.1.valP
      return (e, fields.2) := by
    simp only [parseEntry, parseFields, bind_assoc, pure_bind]
  rw [split]
  cases parseFields env data off with
  | error code => rfl
  | ok fields => cases storeEntry env data i fields.1.name fields.1.type fields.1.value fields.1.valP <;> rfl

theorem parseFields_fails (off : Nat) :
    FailsIn [cfgEtrunc, cfgElimit] (parseFields env data off) := by
  have trunc : cfgEtrunc ∈ [cfgEtrunc, cfgElimit] := List.mem_cons_self
  have limit : cfgElimit ∈ [cfgEtrunc, cfgElimit] := List.mem_cons_of_mem _ List.mem_cons_self
  refine (FailsIn.failIf trunc _).bind fun _ => (FailsIn.failIf limit _).bind fun _ =>
    (FailsIn.failIf trunc _).bind fun _ => (FailsIn.failIf trunc _).bind fun _ =>
    (FailsIn.failIf trunc _).bind fun _ => (FailsIn.failIf limit _).bind fun _ =>
    (FailsIn.failIf trunc _).bind fun _ => FailsIn.ok _

/-! ## The whole bundle -/

/-- The loop comes to what the list model says.  The induction is on the
entries that are left; the profile holds the entries before them. -/
theorem parseEntries_comes (left i off : Nat) (keeps : Keeps m [] (root :: roots)) :
    Comes roots root.block (Cascade.parseEntries env data left i off root.profile)
      (parseEntries residue env data left i off root.block m) := by
  induction left generalizing i off m root with
  | zero => exact ⟨rfl, root, rfl, rfl, keeps⟩
  | succ left inductionHypothesis =>
      rw [Cascade.parseEntries, parseEntry_eq, parseEntries]
      cases parsed : parseFields env data off with
      | error code =>
          have failure : code ≠ cfgOk := fun same => by
            have listed := parseFields_fails env data off code parsed
            rw [same] at listed
            exact absurd listed (by decide)
          exact ⟨rfl, failure, keeps.free⟩
      | ok fields =>
          have stored := storeFields_comes env data residue keeps i fields.1
          rcases fields with ⟨f, behind⟩
          dsimp only
          generalize storeFields residue env data i f root.block m = made at stored ⊢
          cases entry : storeEntry env data i f.name f.type f.value f.valP with
          | error code =>
              rw [entry] at stored
              rcases stored with ⟨status, failure, keeps⟩
              rw [if_pos (status ▸ failure)]
              exact ⟨status, failure, keeps⟩
          | ok e =>
              rw [entry] at stored
              rcases stored with ⟨status, longer, block, profile, keeps⟩
              rw [if_neg (not_not.mpr status)]
              have later := inductionHypothesis (i + 1) behind keeps
              rw [block, profile] at later
              exact later

theorem checkHeader_fails : FailsIn [cfgEtrunc, cfgEbadmagic, cfgEversion, cfgElimit] (checkHeader data) := by
  refine (FailsIn.failIf ?_ _).bind fun _ => (FailsIn.failIf ?_ _).bind fun _ =>
    (FailsIn.failIf ?_ _).bind fun _ => FailsIn.failIf ?_ _ <;> simp

theorem parseBundle_eq :
    parseBundle env data =
      match checkHeader data with
      | .error code => .error code
      | .ok () =>
          if env.profile then Cascade.parseEntries env data (rdU32 data 8) 0 headerSize Cascade.cfgNew
          else .error cfgEnomem := by
  have split : parseBundle env data =
      checkHeader data >>= fun _ => failIf cfgEnomem (env.profile = false) >>= fun _ =>
        Cascade.parseEntries env data (rdU32 data 8) 0 headerSize Cascade.cfgNew := by
    simp only [parseBundle, checkHeader, bind_assoc]
  rw [split]
  cases checkHeader data with
  | error code => rfl
  | ok done => cases env.profile <;> rfl

/-- The outcome of a parse in memory beside the outcome of the list model:
both refuse, or both have a profile. -/
inductive Parsed (roots : List Root) :
    Int × Option (Option CfgProfile) -> Memory × Int × Option Block -> Prop where
  | refused {m : Memory} {code : Int} (failure : code ≠ cfgOk) (keeps : Keeps m [] roots) :
      Parsed roots (code, some none) (m, code, none)
  | done {m : Memory} {root : Root} (keeps : Keeps m [] (root :: roots)) :
      Parsed roots (cfgOk, some (some root.profile)) (m, cfgOk, some root.block)

theorem parsed_of_comes {p : Block} {list : Except Int CfgProfile} {made : Memory × Int} :
    Comes roots p list made ->
    Parsed roots
      (match list with
        | .error code => (code, some none)
        | .ok q => (cfgOk, some (some q)))
      (made.1, made.2, if made.2 = cfgOk then some p else none) := by
  intro comes
  rcases made with ⟨m', status⟩
  cases list with
  | error code =>
      rcases comes with ⟨rfl, failure, keeps⟩
      rw [if_neg failure]
      exact .refused failure keeps
  | ok q =>
      rcases comes with ⟨rfl, root, rfl, rfl, keeps⟩
      rw [if_pos rfl]
      exact .done keeps

/-- `CfgParseBlob` in memory does what the list model says: the status is the
same, a profile that it returns stands for the list, and without one the
memory holds what it held before. -/
theorem cfgParseBlob_parsed (keeps : Keeps m [] roots) :
    Parsed roots (Cascade.cfgParseBlob env (some data) (some none)) (cfgParseBlob residue env data m) := by
  rw [Cascade.cfgParseBlob, parseBundle_eq, cfgParseBlob]
  cases checked : checkHeader data with
  | error code =>
      refine .refused (fun same => ?_) keeps
      have listed := checkHeader_fails data code checked
      rw [same] at listed
      exact absurd listed (by decide)
  | ok done =>
      cases env.profile with
      | false => exact .refused (by decide) keeps
      | true => exact parsed_of_comes (parseEntries_comes env data residue (rdU32 data 8) 0 headerSize keeps.new)

end Entries

end Memory

end Cascade
end BugMuseum
