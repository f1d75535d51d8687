import BugMuseum.Foundation.LinkedQueue
import BugMuseum.Foundation.LiveBlocks
import BugMuseum.Cascade.Cfgsvcd

namespace BugMuseum
namespace Cascade

open Foundation

/-!
# Profiles in memory

The construction functions of `cfgcore.c` once more, this time on blocks: an entry is a block
that points to its name, to its value and to the next entry, and a profile points to its first
entry.  Every `malloc` takes a new block and every `free` gives one back, in the order of the
source, so that all exits of `CfgParseBlob` can be followed.

What a new block of text holds at first is the parameter `residue`.
-/

/-- `CfgEntry` -/
structure EntryCell where
  name : Option Block
  type : Int
  valueLen : Nat
  value : Option Block
  ival : Int
  next : Option Block

/-- An entry as `calloc` returns it. -/
instance : Inhabited EntryCell :=
  ⟨⟨none, 0, 0, none, 0, none⟩⟩

/-- `CfgProfile` -/
structure ProfileCell where
  head : Option Block
  count : Nat

instance : Inhabited ProfileCell :=
  ⟨⟨none, 0⟩⟩

structure Memory where
  entries : Heap EntryCell
  texts : Heap Bytes          -- names and values
  profiles : Heap ProfileCell

/-- A process that has not allocated anything. -/
def Memory.empty : Memory where
  entries := .empty
  texts := .empty
  profiles := .empty

namespace Memory

def entry (m : Memory) (e : Block) : EntryCell :=
  m.entries.cell e

def profile (m : Memory) (p : Block) : ProfileCell :=
  m.profiles.cell p

def link (m : Memory) (e : Block) : Option Block :=
  (m.entry e).next

def touchEntry (m : Memory) (e : Block) : Memory :=
  { m with entries := m.entries.touch e }

def modifyEntry (m : Memory) (e : Block) (change : EntryCell -> EntryCell) : Memory :=
  { m with entries := m.entries.modify e change }

def modifyProfile (m : Memory) (p : Block) (change : ProfileCell -> ProfileCell) : Memory :=
  { m with profiles := m.profiles.modify p change }

/-- A list is no longer than the number of entries ever allocated. -/
def fuel (m : Memory) : Nat :=
  m.entries.next + 1

/-- `malloc(size)`, and a copy to the front of the new block.  The rest of it
keeps what fresh memory held. -/
def copyText (m : Memory) (residue : Block -> Nat -> UInt8) (size : Nat) (bytes : Bytes) : Memory :=
  let text := m.texts.next
  { m with texts := (m.texts.alloc (freshBytes size (residue text))).write text 0 bytes }

/-- `xcalloc(1, sizeof(CfgEntry))` -/
def callocEntry (m : Memory) : Memory :=
  { m with entries := m.entries.alloc default }

/-- `free(e);` -/
def freeEntry (m : Memory) (e : Block) : Memory :=
  { m with entries := m.entries.release e }

/-- `free(e->name);`, which may be null. -/
def freeName (m : Memory) (e : Block) : Memory :=
  let m := m.touchEntry e
  { m with texts := m.texts.releaseAt (m.entry e).name }

/-- `free(e->value);`, which may be null. -/
def freeValue (m : Memory) (e : Block) : Memory :=
  let m := m.touchEntry e
  { m with texts := m.texts.releaseAt (m.entry e).value }

/-- `while (t->next) t = t->next;`, with every entry on the way accessed. -/
def lastFrom : Nat -> Block -> Memory -> Memory × Block
  | 0, t, m => (m, t)
  | fuel + 1, t, m =>
      let m := m.touchEntry t
      match m.link t with
      | none => (m, t)
      | some next => lastFrom fuel next m

def appendEntry (m : Memory) (p e : Block) : Memory :=
  let m := { m with profiles := m.profiles.touch p }
  let m := match (m.profile p).head with
    | none => m.modifyProfile p fun old => { old with head := some e }
    | some t =>
        let walked := lastFrom m.fuel t m
        walked.1.modifyEntry walked.2 fun old => { old with next := some e }
  m.modifyProfile p fun old => { old with count := (old.count + 1) % 2 ^ 32 }

/-- The loop of `CfgFree`.  The pointer to the next entry is read before the
entry is given back. -/
def freeEntries : Nat -> Option Block -> Memory -> Memory
  | 0, _, m => m
  | _, none, m => m
  | fuel + 1, some e, m =>
      let m := m.touchEntry e
      let n := m.link e
      freeEntries fuel n (((m.freeName e).freeValue e).freeEntry e)

def cfgFree (m : Memory) : Option Block -> Memory
  | none => m
  | some p =>
      let m := { m with profiles := m.profiles.touch p }
      let m := freeEntries m.fuel (m.profile p).head m
      { m with profiles := m.profiles.release p }

def cfgNew (m : Memory) (profile : Bool) : Memory × Option Block :=
  if profile then ({ m with profiles := m.profiles.alloc default }, some m.profiles.next) else (m, none)

/-- `malloc(len ? len : 1)`, and the copy of a value to it. -/
def copyValue (m : Memory) (residue : Block -> Nat -> UInt8) (bytes : Bytes) : Memory :=
  m.copyText residue (if bytes.length = 0 then 1 else bytes.length) bytes

section Construction

variable (residue : Block -> Nat -> UInt8)

def cfgAdd (m : Memory) (p : Option Block) (name : Option CStr) (type : Int) {len : Nat}
    (val : Option (Field len)) (grant : EntryGrant) : Memory × Int :=
  match p, name with
  | some p, some name =>
      if !grant.entry then (m, cfgEnomem)
      else
        let e := m.entries.next
        let m := m.callocEntry
        if !grant.name then (m.freeEntry e, cfgEnomem)
        else
          let text := m.texts.next
          let m := m.copyText residue (name.1.length + 1) (name.1 ++ [0])
          let m := m.modifyEntry e fun old => { old with name := some text, type, valueLen := len }
          match val with
          | none => (m.appendEntry p e, cfgOk)
          | some val =>
              if !grant.value then ((m.freeName e).freeEntry e, cfgEnomem)
              else
                let text := m.texts.next
                let m := m.copyValue residue val.1
                ((m.modifyEntry e fun old => { old with value := some text }).appendEntry p e, cfgOk)
  | _, _ => (m, cfgEio)

/-- `e->name = _strdup(s->name);`.  Whether it succeeded is not looked at. -/
def copyName (m : Memory) (e s : Block) (name : Bool) : Memory :=
  match (m.entry s).name with
  | none => m
  | some source =>
      let m := { m with texts := m.texts.touch source }
      if !name then m
      else
        let string := cString (m.texts.cell source)
        let text := m.texts.next
        (m.copyText residue (string.length + 1) (string ++ [0])).modifyEntry e fun old =>
          { old with name := some text }

/-- `if (s->value) { ...  }`: a value that cannot be copied is left out, and
its length is kept. -/
def copyOwnValue (m : Memory) (e s : Block) (value : Bool) : Memory :=
  match (m.entry s).value with
  | none => m
  | some source =>
      if !value then m
      else
        let m := { m with texts := m.texts.touch source }
        let text := m.texts.next
        (m.copyValue residue ((m.texts.cell source).take (m.entry s).valueLen)).modifyEntry e fun old =>
          { old with value := some text }

/-- The loop of `CfgMerge` from an entry on.  Each copy is linked before the
next one is made. -/
def mergeFrom (grant : Nat -> EntryGrant) : Nat -> Nat -> Option Block -> Block -> Memory -> Memory × Int
  | 0, _, _, _, m => (m, cfgOk)
  | _, _, none, _, m => (m, cfgOk)
  | fuel + 1, i, some s, base, m =>
      if !(grant i).entry then (m, cfgEnomem)
      else
        let e := m.entries.next
        let m := m.callocEntry.touchEntry s
        let m := copyName residue m e s (grant i).name
        let m := m.modifyEntry e fun old =>
          { old with type := (m.entry s).type, valueLen := (m.entry s).valueLen, ival := (m.entry s).ival }
        let m := copyOwnValue residue m e s (grant i).value
        let m := m.appendEntry base e
        mergeFrom grant fuel (i + 1) (m.link s) base (m.touchEntry s)

def cfgMerge (grant : Nat -> EntryGrant) (m : Memory) (base overlay : Option Block) : Memory × Int :=
  match base, overlay with
  | some base, some overlay =>
      let m := { m with profiles := m.profiles.touch overlay }
      mergeFrom residue grant m.fuel 0 (m.profile overlay).head base m
  | _, _ => (m, cfgEio)

end Construction

end Memory

/-- The fields of an entry, where they were found in the buffer. -/
structure Fields where
  name : Bytes
  type : UInt8
  value : Bytes
  valP : Nat

/-- The checks in one turn of the loop, and the offset behind the entry.  No
memory is asked for before the last of them. -/
def parseFields (env : ParseEnv) (data : Bytes) (off : Nat) : Except Int (Fields × Nat) := do
  let size := env.arch.sizeModulus
  failIf cfgEtrunc ((off + 2) % size > data.length)
  let nameLen := rdU16 data off
  let off := (off + 2) % size
  failIf cfgElimit (nameLen > cprofMaxName)
  failIf cfgEtrunc ((off + nameLen) % size > data.length)
  let nameP := off
  let off := (off + nameLen) % size
  failIf cfgEtrunc ((off + 1) % size > data.length)
  let type := env.byteAt data off
  let off := (off + 1) % size
  failIf cfgEtrunc ((off + 4) % size > data.length)
  let valueLen := rdU32 data off
  let off := (off + 4) % size
  failIf cfgElimit (valueLen > cprofMaxValue)
  failIf cfgEtrunc ((off + valueLen) % size > data.length)
  let valP := off
  let off := (off + valueLen) % size
  return (⟨slice data nameP nameLen, type, slice data valP valueLen, valP⟩, off)

namespace Memory

section Parsing

variable (residue : Block -> Nat -> UInt8) (env : ParseEnv) (data : Bytes)

/-- The allocations of entry `i`.  Each failure frees what there is of the
entry, and the profile. -/
def storeFields (i : Nat) (f : Fields) (p : Block) (m : Memory) : Memory × Int :=
  if !(env.grant i).entry then (m.cfgFree (some p), cfgEnomem)
  else
    let e := m.entries.next
    let m := m.callocEntry
    if !(env.grant i).name then ((m.freeEntry e).cfgFree (some p), cfgEnomem)
    else
      let text := m.texts.next
      let m := m.copyText residue (f.name.length + 1) (f.name ++ [0])
      let m := m.modifyEntry e fun old =>
        { old with name := some text, type := f.type.toNat, valueLen := f.value.length }
      if (f.type.toNat : Int) = cfgInt then
        let ival := (decodeField (fun k => env.byteAt data (f.valP + k)) f.value.length (env.frame i)).1
        ((m.modifyEntry e fun old => { old with ival }).appendEntry p e, cfgOk)
      else if !(env.grant i).value then (((m.freeName e).freeEntry e).cfgFree (some p), cfgEnomem)
      else
        let text := m.texts.next
        let m := m.copyValue residue f.value
        ((m.modifyEntry e fun old => { old with value := some text }).appendEntry p e, cfgOk)

/-- The loop over the entries that are left.  Every way out of it but the last
frees the profile. -/
def parseEntries : Nat -> Nat -> Nat -> Block -> Memory -> Memory × Int
  | 0, _, _, _, m => (m, cfgOk)
  | left + 1, i, off, p, m =>
      match parseFields env data off with
      | .error code => (m.cfgFree (some p), code)
      | .ok (f, off) =>
          let stored := storeFields residue env data i f p m
          if stored.2 ≠ cfgOk then stored else parseEntries left (i + 1) off p stored.1

/-- The checks of the header, in the order of the source. -/
def checkHeader : Except Int Unit := do
  failIf cfgEtrunc (data.length < headerSize)
  failIf cfgEbadmagic (slice data 0 4 ≠ cprofMagic)
  failIf cfgEversion (rdU16 data 4 ≠ cprofVersion)
  failIf cfgElimit (rdU32 data 8 > cprofMaxEntries)

/-- `CfgParseBlob` on a buffer: the status, and what is stored in the caller's
variable. -/
def cfgParseBlob (m : Memory) : Memory × Int × Option Block :=
  match checkHeader data with
  | .error code => (m, code, none)
  | .ok () =>
      match m.cfgNew env.profile with
      | (m, none) => (m, cfgEnomem, none)
      | (m, some p) =>
          let parsed := parseEntries residue env data (rdU32 data 8) 0 headerSize p m
          (parsed.1, parsed.2, if parsed.2 = cfgOk then some p else none)

end Parsing

end Memory

end Cascade
end BugMuseum
