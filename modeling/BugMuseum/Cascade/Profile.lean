import BugMuseum.Foundation.ByteReader
import BugMuseum.Foundation.ByteStrings

namespace BugMuseum
namespace Cascade

open Foundation

/-!
# Configuration profiles

This module follows `cfgcore.h` and the construction and query functions of
`cfgcore.c`.  A profile is a list of entries in the order of their `next`
pointers, with the counter that the source keeps beside the list.

Every allocation is granted or refused by the caller.  `CfgMerge` does not look
at the results of `_strdup` and of the value's `malloc`, so an entry can have no
name; a search that meets one reads through a null pointer.
-/

def cfgStr : Int := 0
def cfgWstr : Int := 1
def cfgBlob : Int := 2
def cfgInt : Int := 3
def cfgTemplate : Int := 4

def cfgOk : Int := 0
def cfgEbadmagic : Int := -1
def cfgEversion : Int := -2
def cfgEtrunc : Int := -3
def cfgElimit : Int := -4
def cfgEnomem : Int := -5
def cfgEio : Int := -6

/-- `CfgEntry`.  A value that is present is `value_len` bytes long. -/
structure CfgEntry where
  name : Option CStr
  type : Int
  valueLen : Nat
  value : Option Bytes
  ival : Int
  sized : forall bytes, value = some bytes -> bytes.length = valueLen

structure CfgProfile where
  head : List CfgEntry
  count : Nat

theorem sized_none (len : Nat) (bytes : Bytes) (impossible : none = some bytes) : bytes.length = len :=
  absurd impossible.symm (Option.some_ne_none bytes)

theorem sized_some {value : Bytes} {len : Nat} (measured : value.length = len) (bytes : Bytes)
    (same : some value = some bytes) : bytes.length = len :=
  Option.some.inj same ▸ measured

theorem sized_self (value bytes : Bytes) (same : some value = some bytes) :
    bytes.length = value.length :=
  sized_some rfl bytes same

def cfgNew : CfgProfile :=
  { head := [], count := 0 }

/-- The walk of `append_entry` to the entry without a successor, behind which
the new one is linked. -/
def linkLast : List CfgEntry -> CfgEntry -> List CfgEntry
  | [], e => [e]
  | t :: rest, e => t :: linkLast rest e

def appendEntry (p : CfgProfile) (e : CfgEntry) : CfgProfile where
  head := linkLast p.head e
  count := (p.count + 1) % 2 ^ 32

/-- Which of the allocations for one entry succeed: the entry itself, its
name, and its value. -/
structure EntryGrant where
  entry : Bool
  name : Bool
  value : Bool

def granted : EntryGrant :=
  { entry := true, name := true, value := true }

/-- `CfgAdd`; the caller's value has the length it announces. -/
def cfgAdd (p : Option CfgProfile) (name : Option CStr) (type : Int) {len : Nat}
    (val : Option (Field len)) (grant : EntryGrant) : Int × Option CfgProfile :=
  match p, name with
  | some p, some name =>
      if !grant.entry then (cfgEnomem, some p)
      else if !grant.name then (cfgEnomem, some p)
      else
        match val with
        | none =>
            (cfgOk, some (appendEntry p ⟨some name, type, len, none, 0, sized_none len⟩))
        | some val =>
            if !grant.value then (cfgEnomem, some p)
            else
              (cfgOk, some (appendEntry p
                ⟨some name, type, len, some val.1, 0, sized_some val.2⟩))
  | p, _ => (cfgEio, p)

/-- The outcome of a search: an entry, none, or an access through the name of
an entry that has none. -/
inductive Search where
  | found (e : CfgEntry)
  | absent
  | nullName

/-- The loop of both lookups: the first entry with the name. -/
def findFrom (key : Bytes) : List CfgEntry -> Search
  | [] => .absent
  | e :: rest =>
      match e.name with
      | none => .nullName
      | some name => if name.1 = key then .found e else findFrom key rest

/-- `find_entry`: equal lengths and equal bytes. -/
def findEntry (p : CfgProfile) (name : Bytes) : Search :=
  findFrom name p.head

/-- `normalize_key`: the caller's frame, of which `out` is the first 32 bytes.
The bytes above it are what a long key reaches. -/
def normalizeKey (raw : CStr) (frame : Nat -> UInt8) : Nat -> UInt8 :=
  copyTrimmed 64 raw frame

/-- The string in `norm`. -/
def normalized (raw : CStr) (frame : Nat -> UInt8) : CStr :=
  .read 32 (normalizeKey raw frame)

def cfgLookup (p : Option CfgProfile) (key : Option CStr) (frame : Nat -> UInt8) : Search :=
  match p, key with
  | some p, some key => findFrom (normalized key frame).1 p.head
  | _, _ => .absent

/-- The copy that `CfgMerge` makes of one entry.  Its length is that of the
source, even when the value is missing. -/
def copyEntry (grant : EntryGrant) (s : CfgEntry) : CfgEntry where
  name := if grant.name then s.name else none
  type := s.type
  valueLen := s.valueLen
  value := if grant.value then s.value else none
  ival := s.ival
  sized := fun bytes copied => by
    split at copied
    · exact s.sized bytes copied
    · cases copied

/-- The loop of `CfgMerge` from the entry with the given number on.  It stops
at the first refused entry. -/
def mergeFrom (grant : Nat -> EntryGrant) : Nat -> List CfgEntry -> CfgProfile -> Int × CfgProfile
  | _, [], base => (cfgOk, base)
  | i, s :: rest, base =>
      if (grant i).entry then mergeFrom grant (i + 1) rest (appendEntry base (copyEntry (grant i) s))
      else (cfgEnomem, base)

def cfgMerge (base overlay : Option CfgProfile) (grant : Nat -> EntryGrant) : Int × Option CfgProfile :=
  match base, overlay with
  | some base, some overlay =>
      let merged := mergeFrom grant 0 overlay.head base
      (merged.1, some merged.2)
  | base, _ => (cfgEio, base)

@[simp] theorem linkLast_eq (entries : List CfgEntry) (e : CfgEntry) :
    linkLast entries e = entries ++ [e] := by
  induction entries with
  | nil => rfl
  | cons t rest inductionHypothesis => rw [linkLast, inductionHypothesis, List.cons_append]

@[simp] theorem appendEntry_head (p : CfgProfile) (e : CfgEntry) :
    (appendEntry p e).head = p.head ++ [e] :=
  linkLast_eq p.head e

/-- A search looks at later entries only when the earlier ones all have other
names. -/
theorem findFrom_append (key : Bytes) (earlier later : List CfgEntry) :
    findFrom key (earlier ++ later) =
      match findFrom key earlier with
      | .absent => findFrom key later
      | outcome => outcome := by
  induction earlier with
  | nil => rfl
  | cons e rest inductionHypothesis =>
      rw [List.cons_append, findFrom, findFrom]
      cases e.name with
      | none => rfl
      | some name =>
          dsimp only
          split
          · rfl
          · exact inductionHypothesis

end Cascade
end BugMuseum
