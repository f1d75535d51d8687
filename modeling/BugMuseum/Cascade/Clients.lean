import Mathlib.Data.List.ReduceOption
import BugMuseum.Foundation.Runs
import BugMuseum.Cascade.MergeMemory

namespace BugMuseum
namespace Cascade

open Foundation

/-!
# Clients of the profile functions

A client keeps pointers to profiles in its variables, and calls the exported functions in any
order.  It keeps to a discipline that the functions themselves do not check: it stores a new
profile only in an empty variable, it clears a variable whose profile it has freed, and it does
not merge a profile into itself, where `CfgMerge` would follow the list that it extends.

Whatever such a client parses, reads from a file, adds, merges and frees, and whichever
allocations fail, the profiles are those of the list model, and the memory holds them and
nothing else.  What `decode_field` writes behind `field`, for an integer with too many digits,
is taken to do no harm here.
-/

/-- What the file system has under a path, as far as `CfgOpenFile` comes to
see it. -/
structure OpenedFile where
  size : Option Nat     -- the result of `ftell`, unless it is negative
  content : Bytes       -- what can be read
  buffer : Bool         -- the allocation of the buffer

/-- A process: its profiles, and the buffers that files are read to.  Nothing
else is allocated by the functions. -/
structure Process where
  memory : Memory
  buffers : Heap Bytes

def Process.empty : Process where
  memory := .empty
  buffers := .empty

section Opening

variable (residue : Block -> Nat -> UInt8) (env : ParseEnv)

/-- `CfgOpenFile`; `fread` reads no more than was asked for, and the buffer is
given back behind the parse. -/
def Process.cfgOpenFile (proc : Process) : Option OpenedFile -> Process × Int × Option Block
  | none => (proc, cfgEio, none)
  | some f =>
      match f.size with
      | none => (proc, cfgEio, none)
      | some sz =>
          if !f.buffer then (proc, cfgEnomem, none)
          else
            let buf := proc.buffers.next
            let got := f.content.take sz
            let buffers := (proc.buffers.alloc (freshBytes (if sz = 0 then 1 else sz) (residue buf))).write buf 0 got
            let buffers := buffers.touch buf
            let parsed := Memory.cfgParseBlob residue env ((buffers.cell buf).take got.length) proc.memory
            ({ memory := parsed.1, buffers := buffers.release buf }, parsed.2)

/-- The same on lists, with no buffer to be followed. -/
def cfgOpenFile : Option OpenedFile -> Int × Option (Option CfgProfile)
  | none => (cfgEio, some none)
  | some f =>
      match f.size with
      | none => (cfgEio, some none)
      | some sz =>
          if !f.buffer then (cfgEnomem, some none)
          else cfgParseBlob env (some (f.content.take sz)) (some none)

end Opening

/-- A call; variables are given by their numbers.  A call that makes a profile
stores it in its variable, and `free` is `CfgFree(p); p = NULL;`. -/
inductive Call where
  | new (v : Nat) (profile : Bool)
  | parse (v : Nat) (env : ParseEnv) (data : Bytes)
  | openFile (v : Nat) (env : ParseEnv) (file : Option OpenedFile)
  | add (v : Nat) (name : Option CStr) (type : Int) (value : (len : Nat) × Option (Field len)) (grant : EntryGrant)
  | merge (base overlay : Nat) (grant : Nat -> EntryGrant)
  | free (v : Nat)

/-- What a variable holds; a variable that does not exist holds nothing. -/
def held {Item : Type} (vars : List (Option Item)) (v : Nat) : Option Item :=
  (vars[v]?).join

/-- The variable exists and holds nothing. -/
def isFree {Item : Type} (vars : List (Option Item)) (v : Nat) : Bool :=
  (vars[v]?).any Option.isNone

/-- A client and the pointers in its variables, of which some may be null. -/
structure Client where
  proc : Process
  vars : List (Option Block)

/-- A client before its first call. -/
def Client.start (size : Nat) : Client where
  proc := .empty
  vars := List.replicate size none

/-- The new profile is stored in the variable, over what was there. -/
def Client.receive (c : Client) (v : Nat) (made : Process × Int × Option Block) : Client × Int :=
  ({ proc := made.1, vars := c.vars.set v made.2.2 }, made.2.1)

def Client.withMemory (c : Client) (memory : Memory) : Client :=
  { c with proc := { c.proc with memory } }

/-- One call, with its status; `CfgNew` has none of its own.  The pointer that
was in the variable is lost when a new one is stored over it.  `CfgMerge` of a
profile into itself is not this one. -/
def Client.step (residue : Block -> Nat -> UInt8) (c : Client) : Call -> Client × Int
  | .new v profile =>
      let made := c.proc.memory.cfgNew profile
      c.receive v ({ c.proc with memory := made.1 }, if profile then cfgOk else cfgEnomem, made.2)
  | .parse v env data =>
      let made := Memory.cfgParseBlob residue env data c.proc.memory
      c.receive v ({ c.proc with memory := made.1 }, made.2)
  | .openFile v env file => c.receive v (c.proc.cfgOpenFile residue env file)
  | .add v name type value grant =>
      let added := c.proc.memory.cfgAdd residue (held c.vars v) name type value.2 grant
      (c.withMemory added.1, added.2)
  | .merge base overlay grant =>
      let merged := c.proc.memory.cfgMerge residue grant (held c.vars base) (held c.vars overlay)
      (c.withMemory merged.1, merged.2)
  | .free v =>
      let freed := c.withMemory (c.proc.memory.cfgFree (held c.vars v))
      ({ freed with vars := freed.vars.set v none }, cfgOk)

/-- The same call on lists, where a profile is a value and not a block. -/
def callOnLists (vars : List (Option CfgProfile)) : Call -> List (Option CfgProfile) × Int
  | .new v profile =>
      if profile then (vars.set v (some cfgNew), cfgOk) else (vars.set v none, cfgEnomem)
  | .parse v env data =>
      let made := cfgParseBlob env (some data) (some none)
      (vars.set v made.2.join, made.1)
  | .openFile v env file =>
      let made := cfgOpenFile env file
      (vars.set v made.2.join, made.1)
  | .add v name type value grant =>
      let added := cfgAdd (held vars v) name type value.2 grant
      (vars.set v added.2, added.1)
  | .merge base overlay grant =>
      let merged := cfgMerge (held vars base) (held vars overlay) grant
      (vars.set base merged.2, merged.1)
  | .free v => (vars.set v none, cfgOk)

/-- What the client owes to the functions: it stores a new profile in a
variable that holds none, and it merges one profile into another one.  None of
the functions checks it. -/
def Disciplined (vars : List (Option CfgProfile)) : Call -> Prop
  | .new v _ => isFree vars v = true
  | .parse v _ _ => isFree vars v = true
  | .openFile v _ _ => isFree vars v = true
  | .merge base overlay _ => base ≠ overlay
  | .add _ _ _ _ _ => True
  | .free _ => True

instance (vars : List (Option CfgProfile)) : (call : Call) -> Decidable (Disciplined vars call)
  | .new v _ => inferInstanceAs (Decidable (isFree vars v = true))
  | .parse v _ _ => inferInstanceAs (Decidable (isFree vars v = true))
  | .openFile v _ _ => inferInstanceAs (Decidable (isFree vars v = true))
  | .merge base overlay _ => inferInstanceAs (Decidable (base ≠ overlay))
  | .add _ _ _ _ _ => isTrue trivial
  | .free _ => isTrue trivial

section Variables

variable {Item Other : Type} {vars : List (Option Item)} {v w : Nat} {item : Item}

theorem held_map (f : Item -> Other) (vars : List (Option Item)) (v : Nat) :
    held (vars.map (Option.map f)) v = (held vars v).map f := by
  rw [held, held, List.getElem?_map]
  cases vars[v]? <;> rfl

theorem isFree_map (f : Item -> Other) (vars : List (Option Item)) (v : Nat) :
    isFree (vars.map (Option.map f)) v = isFree vars v := by
  rw [isFree, isFree, List.getElem?_map]
  rcases vars[v]? with _ | _ | _ <;> rfl

theorem held_set_of_ne (x : Option Item) (different : v ≠ w) : held (vars.set v x) w = held vars w := by
  rw [held, held, List.getElem?_set_ne different]

/-- To store what the variable holds changes nothing. -/
theorem set_held (vars : List (Option Item)) (v : Nat) : vars.set v (held vars v) = vars := by
  apply List.ext_getElem?
  intro i
  by_cases here : v = i
  · subst here
    rw [List.getElem?_set, if_pos rfl, held]
    split
    · rename_i inside
      rw [List.getElem?_eq_getElem inside]
      rfl
    · rename_i outside
      exact (List.getElem?_eq_none (Nat.not_lt.mp outside)).symm
  · rw [List.getElem?_set_ne here]

/-- The items in the variables, one of which is exchanged.  Their order is of
no account for what is held. -/
theorem reduceOption_set (inside : v < vars.length) (x : Option Item) :
    (vars.set v x).reduceOption.Perm (x.toList ++ (vars.set v none).reduceOption) := by
  induction vars generalizing v with
  | nil => exact absurd inside (Nat.not_lt_zero _)
  | cons first rest inductionHypothesis =>
      cases v with
      | zero => cases x <;> exact List.Perm.refl _
      | succ v =>
          have later := inductionHypothesis (Nat.lt_of_succ_lt_succ inside)
          rw [List.set_cons_succ, List.set_cons_succ]
          cases first with
          | none => exact later
          | some own => exact (later.cons own).trans List.perm_middle.symm

theorem lt_of_held (holds : held vars v = some item) : v < vars.length := by
  by_contra outside
  rw [held, List.getElem?_eq_none (Nat.not_lt.mp outside)] at holds
  cases holds

theorem reduceOption_held (holds : held vars v = some item) :
    vars.reduceOption.Perm (item :: (vars.set v none).reduceOption) := by
  have exchanged := reduceOption_set (lt_of_held holds) (held vars v)
  rw [set_held, holds] at exchanged
  exact exchanged

theorem lt_of_isFree (free : isFree vars v = true) : v < vars.length := by
  by_contra outside
  rw [isFree, List.getElem?_eq_none (Nat.not_lt.mp outside)] at free
  cases free

theorem set_none_of_isFree (free : isFree vars v = true) : vars.set v none = vars := by
  have inside := lt_of_isFree free
  rw [isFree, List.getElem?_eq_getElem inside, Option.any_some, Option.isNone_iff_eq_none] at free
  have empty : held vars v = none := by
    rw [held, List.getElem?_eq_getElem inside, free]
    rfl
  exact empty ▸ set_held vars v

/-- An item is stored in a free variable, and so no other item is lost. -/
theorem reduceOption_store (free : isFree vars v = true) (x : Option Item) :
    (vars.set v x).reduceOption.Perm (x.toList ++ vars.reduceOption) := by
  have exchanged := reduceOption_set (lt_of_isFree free) x
  rwa [set_none_of_isFree free] at exchanged

end Variables

/-! ## The refinement -/

/-- The variables of a client hold the profiles of the list model, and its
process holds these profiles and nothing else. -/
def Tracks (c : Client) (vars : List (Option CfgProfile)) : Prop :=
  exists slots : List (Option Root), c.vars = slots.map (Option.map Root.block) ∧
    vars = slots.map (Option.map Root.profile) ∧ c.proc.memory.Keeps [] slots.reduceOption ∧
    Retains c.proc.buffers []

theorem tracks_start (size : Nat) : Tracks (.start size) (List.replicate size none) := by
  refine ⟨List.replicate size none, ?_, ?_, ?_, retains_empty⟩
  · rw [List.map_replicate]
    rfl
  · rw [List.map_replicate]
    rfl
  · rw [List.reduceOption_replicate_none]
    exact Memory.keeps_empty

section Steps

variable {residue : Block -> Nat -> UInt8} {proc proc' : Process} {slots : List (Option Root)} {v : Nat}

theorem tracks_slots (proc : Process) (slots : List (Option Root)) (keeps : proc.memory.Keeps [] slots.reduceOption)
    (buffers : Retains proc.buffers []) :
    Tracks ⟨proc, slots.map (Option.map Root.block)⟩ (slots.map (Option.map Root.profile)) :=
  ⟨slots, rfl, rfl, keeps, buffers⟩

/-- A new profile, or none, is stored in a free variable, and the status is
that of the list model. -/
theorem tracks_receive {list : Int × Option (Option CfgProfile)} {made : Memory × Int × Option Block}
    (free : isFree slots v = true) (parsed : Memory.Parsed slots.reduceOption list made)
    (memory : proc'.memory = made.1) (buffers : Retains proc'.buffers []) :
    made.2.1 = list.1 ∧
      Tracks ⟨proc', (slots.map (Option.map Root.block)).set v made.2.2⟩
        ((slots.map (Option.map Root.profile)).set v list.2.join) := by
  cases parsed with
  | refused failure keeps =>
      have tracks := tracks_slots proc' (slots.set v none)
        (by rw [memory, set_none_of_isFree free]; exact keeps) buffers
      rw [List.map_set, List.map_set] at tracks
      exact ⟨rfl, tracks⟩
  | @done m root keeps =>
      have tracks := tracks_slots proc' (slots.set v (some root))
        (by rw [memory]; exact keeps.perm (reduceOption_store free (some root)).symm) buffers
      rw [List.map_set, List.map_set] at tracks
      exact ⟨rfl, tracks⟩

theorem profiles_stay (slots : List (Option Root)) (v : Nat) :
    (slots.map (Option.map Root.profile)).set v ((held slots v).map Root.profile) =
      slots.map (Option.map Root.profile) := by
  rw [← held_map, set_held]

/-- A profile takes the place of another one in its variable.  The block is
the same, as its entries changed. -/
theorem tracks_replace {root grown : Root} (holds : held slots v = some root) (block : grown.block = root.block)
    (keeps : proc'.memory.Keeps [] (grown :: (slots.set v none).reduceOption)) (buffers : Retains proc'.buffers []) :
    Tracks ⟨proc', slots.map (Option.map Root.block)⟩
      ((slots.map (Option.map Root.profile)).set v (some grown.profile)) := by
  have tracks := tracks_slots proc' (slots.set v (some grown))
    (keeps.perm (reduceOption_set (lt_of_held holds) (some grown)).symm) buffers
  have pointer : held (slots.map (Option.map Root.block)) v = some grown.block := by
    rw [held_map, holds, block]
    rfl
  rw [List.map_set, List.map_set, Option.map_some, ← pointer, set_held] at tracks
  exact tracks

/-- The file is parsed from a buffer, which is given back, whether or not the
parse succeeds. -/
theorem cfgOpenFile_parsed (proc : Process) {roots : List Root} (residue : Block -> Nat -> UInt8) (env : ParseEnv)
    (file : Option OpenedFile) (keeps : proc.memory.Keeps [] roots) (buffers : Retains proc.buffers []) :
    Memory.Parsed roots (cfgOpenFile env file)
        ((proc.cfgOpenFile residue env file).1.memory, (proc.cfgOpenFile residue env file).2) ∧
      Retains (proc.cfgOpenFile residue env file).1.buffers [] := by
  cases file with
  | none => exact ⟨.refused (by decide) keeps, buffers⟩
  | some f =>
      unfold cfgOpenFile Process.cfgOpenFile
      dsimp only
      cases f.size with
      | none => exact ⟨.refused (by decide) keeps, buffers⟩
      | some sz =>
          cases f.buffer with
          | false => exact ⟨.refused (by decide) keeps, buffers⟩
          | true =>
              have fits : (f.content.take sz).length ≤ if sz = 0 then 1 else sz := by
                have short := List.length_take_le sz f.content
                split <;> omega
              have filled := buffers.freshCopy fits (residue proc.buffers.next)
              have bytes := freshCopy_cell proc.buffers fits (residue proc.buffers.next)
              simp only [Bool.not_true, Bool.false_eq_true, if_false]
              rw [filled.touch_eq List.mem_cons_self, bytes, List.take_left]
              exact ⟨Memory.cfgParseBlob_parsed env (f.content.take sz) residue keeps, filled.release⟩

/-- Each call of a disciplined client has the status that it has on lists, and
the variables track the lists again. -/
theorem step_tracks (residue : Block -> Nat -> UInt8) {c : Client} {vars : List (Option CfgProfile)}
    (call : Call) (tracks : Tracks c vars) (disciplined : Disciplined vars call) :
    (c.step residue call).2 = (callOnLists vars call).2 ∧
      Tracks (c.step residue call).1 (callOnLists vars call).1 := by
  rcases c with ⟨proc, pointers⟩
  rcases tracks with ⟨slots, rfl, rfl, keeps, buffers⟩
  have unchanged := tracks_slots proc slots keeps buffers
  cases call with
  | new v profile =>
      have free : isFree slots v = true := (isFree_map Root.profile slots v).symm.trans disciplined
      unfold Client.step callOnLists
      cases profile with
      | false => exact tracks_receive free (.refused (by decide : cfgEnomem ≠ cfgOk) keeps) rfl buffers
      | true => exact tracks_receive free (.done keeps.new) rfl buffers
  | parse v env data =>
      have free : isFree slots v = true := (isFree_map Root.profile slots v).symm.trans disciplined
      unfold Client.step callOnLists
      exact tracks_receive free (Memory.cfgParseBlob_parsed env data residue keeps) rfl buffers
  | openFile v env file =>
      have free : isFree slots v = true := (isFree_map Root.profile slots v).symm.trans disciplined
      have opened := cfgOpenFile_parsed proc residue env file keeps buffers
      unfold Client.step callOnLists
      exact tracks_receive free opened.1 rfl opened.2
  | add v name type value grant =>
      have stay := profiles_stay slots v
      unfold Client.step callOnLists
      dsimp only
      rw [held_map, held_map]
      cases holds : held slots v with
      | none =>
          rw [holds] at stay
          exact ⟨rfl, stay.symm ▸ unchanged⟩
      | some root =>
          cases name with
          | none =>
              rw [holds] at stay
              exact ⟨rfl, stay.symm ▸ unchanged⟩
          | some name =>
              have apart := keeps.perm (reduceOption_held holds)
              rcases Memory.cfgAdd_comes residue apart name type value.2 grant with ⟨grown, block, status, list, kept⟩
              rw [Option.map_some, Option.map_some, list]
              exact ⟨status, tracks_replace holds block kept buffers⟩
  | merge base overlay grant =>
      have stay := profiles_stay slots base
      unfold Client.step callOnLists
      dsimp only
      rw [held_map, held_map, held_map, held_map]
      cases holds : held slots base with
      | none =>
          rw [holds] at stay
          exact ⟨rfl, stay.symm ▸ unchanged⟩
      | some root =>
          cases holdsOver : held slots overlay with
          | none =>
              rw [holds] at stay
              exact ⟨rfl, stay.symm ▸ unchanged⟩
          | some other =>
              have still : held (slots.set base none) overlay = some other := by
                rw [held_set_of_ne none disciplined, holdsOver]
              have apart := keeps.perm
                ((reduceOption_held holds).trans ((reduceOption_held still).cons root))
              rcases Memory.cfgMerge_comes residue grant apart with ⟨grown, block, status, list, kept⟩
              rw [Option.map_some, Option.map_some, Option.map_some, Option.map_some, list]
              exact ⟨status, tracks_replace holds block
                (kept.perm ((reduceOption_held still).symm.cons grown)) buffers⟩
  | free v =>
      unfold Client.step callOnLists
      dsimp only
      rw [held_map]
      refine ⟨rfl, ?_⟩
      cases holds : held slots v with
      | none =>
          have same : slots.set v none = slots := holds ▸ set_held slots v
          have tracks := tracks_slots proc (slots.set v none) (same.symm ▸ keeps) buffers
          rw [List.map_set, List.map_set] at tracks
          exact tracks
      | some root =>
          have apart := keeps.perm (reduceOption_held holds)
          have tracks := tracks_slots ⟨proc.memory.cfgFree (some root.block), proc.buffers⟩ (slots.set v none)
            apart.free buffers
          rw [List.map_set, List.map_set] at tracks
          exact tracks

end Steps

/-- The client after its calls. -/
def Client.after (residue : Block -> Nat -> UInt8) (c : Client) (calls : List Call) : Client :=
  run (fun c call => (c.step residue call).1) c calls

/-- The profiles in the variables after the calls. -/
def afterOnLists (vars : List (Option CfgProfile)) (calls : List Call) : List (Option CfgProfile) :=
  run (fun vars call => (callOnLists vars call).1) vars calls

/-- The client keeps to its discipline from its first call on. -/
def DisciplinedCalls (size : Nat) (calls : List Call) : Prop :=
  Guarded (fun vars call => (callOnLists vars call).1) Disciplined (List.replicate size none) calls

instance (size : Nat) (calls : List Call) : Decidable (DisciplinedCalls size calls) :=
  inferInstanceAs (Decidable (Guarded _ Disciplined _ calls))

theorem tracks_after (residue : Block -> Nat -> UInt8) {size : Nat} {calls : List Call}
    (disciplined : DisciplinedCalls size calls) :
    replies (Client.step residue) (.start size) calls = replies callOnLists (List.replicate size none) calls ∧
      Tracks (Client.after residue (.start size) calls) (afterOnLists (List.replicate size none) calls) :=
  replies_of_guarded (fun _ _ call tracks now => step_tracks residue call tracks now) (tracks_start size) disciplined

/-- Whatever a disciplined client calls, and whichever allocations fail, every
call has the status that it has on lists, and after the last one the variables
hold the profiles of the list model and the process holds these and nothing
else.  Such a client leaves out three things: a new profile stored over
another one, a profile freed twice, and `CfgMerge` of a profile into
itself. -/
theorem clients_refine (residue : Block -> Nat -> UInt8) {size : Nat} {calls : List Call}
    (disciplined : DisciplinedCalls size calls) :
    replies (Client.step residue) (.start size) calls = replies callOnLists (List.replicate size none) calls ∧
      Tracks (Client.after residue (.start size) calls) (afterOnLists (List.replicate size none) calls) :=
  tracks_after residue disciplined

/-- Two variables: an entry is added to the profile of the first one and
merged into the other. -/
def addThenMerge : List Call :=
  [.new 0 true, .new 1 true, .add 0 (some (.ofBlock [107])) cfgStr ⟨1, some ⟨[86], rfl⟩⟩ ⟨true, true, true⟩,
    .merge 1 0 fun _ => ⟨true, true, true⟩, .free 0]

theorem addThenMerge_refines :
    DisciplinedCalls 2 addThenMerge ∧
      replies (Client.step fun _ _ => 0) (.start 2) addThenMerge = [cfgOk, cfgOk, cfgOk, cfgOk, cfgOk] ∧
      Tracks (Client.after (fun _ _ => 0) (.start 2) addThenMerge)
        (afterOnLists (List.replicate 2 none) addThenMerge) := by
  have disciplined : DisciplinedCalls 2 addThenMerge := by decide
  have refines := clients_refine (fun _ _ => 0) disciplined
  refine ⟨disciplined, refines.1.trans ?_, refines.2⟩
  decide

/-! ## The end of a client -/

theorem callOnLists_length (vars : List (Option CfgProfile)) (call : Call) :
    (callOnLists vars call).1.length = vars.length := by
  cases call with
  | new v profile =>
      rw [callOnLists]
      split <;> exact List.length_set
  | parse v env data => exact List.length_set
  | openFile v env file => exact List.length_set
  | add v name type value grant => exact List.length_set
  | merge base overlay grant => exact List.length_set
  | free v => exact List.length_set

theorem afterOnLists_length (vars : List (Option CfgProfile)) (calls : List Call) :
    (afterOnLists vars calls).length = vars.length := by
  induction calls generalizing vars with
  | nil => rfl
  | cons call rest inductionHypothesis => exact (inductionHypothesis _).trans (callOnLists_length vars call)

/-- The client frees what its variables hold, one after the other. -/
def frees (size : Nat) : List Call :=
  (List.range size).map .free

theorem afterOnLists_frees {vars : List (Option CfgProfile)} {count : Nat} (inside : count ≤ vars.length) :
    afterOnLists vars (frees count) = List.replicate count none ++ vars.drop count := by
  induction count with
  | zero => rfl
  | succ count inductionHypothesis =>
      have earlier := inductionHypothesis (Nat.le_of_succ_le inside)
      have split : vars.drop count = vars[count] :: vars.drop (count + 1) := List.drop_eq_getElem_cons inside
      have last : afterOnLists vars (frees (count + 1)) = (afterOnLists vars (frees count)).set count none := by
        rw [frees, List.range_succ, List.map_append, afterOnLists, run_append]
        rfl
      rw [last, earlier, List.set_append_right _ _ (List.length_replicate.le), List.length_replicate, Nat.sub_self,
        split, List.set_cons_zero, List.replicate_succ', List.append_assoc, List.singleton_append]

/-- Every block of a heap was released once, and no access was a fault. -/
def Spent {Cell : Type} (heap : Heap Cell) : Prop :=
  heap.faults = [] ∧ forall block, block < heap.next -> heap.releases block = 1

theorem Spent.of_retains {Cell : Type} {heap : Heap Cell} (holds : Retains heap []) : Spent heap :=
  ⟨holds.clean, fun _ issued => holds.all_returned issued⟩

/-- A process that holds nothing has given back everything: profiles, entries,
texts and buffers. -/
structure Process.Clean (proc : Process) : Prop where
  profiles : Spent proc.memory.profiles
  entries : Spent proc.memory.entries
  texts : Spent proc.memory.texts
  buffers : Spent proc.buffers

theorem Process.clean_of_keeps {proc : Process} (keeps : proc.memory.Keeps [] []) (buffers : Retains proc.buffers []) :
    proc.Clean :=
  ⟨.of_retains keeps.profiles, .of_retains keeps.parts.entries, .of_retains keeps.parts.texts, .of_retains buffers⟩

theorem Tracks.clean {c : Client} {size : Nat} (tracks : Tracks c (List.replicate size none)) : c.proc.Clean := by
  rcases tracks with ⟨slots, _, empty, keeps, buffers⟩
  have nothing : slots.reduceOption = [] := by
    refine (List.reduceOption_eq_nil_iff slots).mpr ⟨slots.length, List.eq_replicate_of_mem fun slot member => ?_⟩
    have profile : slot.map Root.profile ∈ List.replicate size none := empty ▸ List.mem_map_of_mem member
    exact Option.map_eq_none_iff.mp (List.eq_of_mem_replicate profile)
  rw [nothing] at keeps
  exact Process.clean_of_keeps keeps buffers

/-- To free is disciplined in every state of the variables, since a freed
variable is cleared. -/
theorem disciplined_frees (vars : List (Option CfgProfile)) (freed : List Nat) :
    Guarded (fun vars call => (callOnLists vars call).1) Disciplined vars (freed.map .free) := by
  induction freed generalizing vars with
  | nil => trivial
  | cons first rest inductionHypothesis => exact ⟨trivial, inductionHypothesis _⟩

/-- A disciplined client that frees all its variables at the end has given
back every block exactly once, whatever it called before and whichever
allocations failed.  It has not stored a profile over another one, freed one
twice, or merged one into itself. -/
theorem clients_return_all (residue : Block -> Nat -> UInt8) {size : Nat} {calls : List Call}
    (disciplined : DisciplinedCalls size calls) :
    (Client.after residue (.start size) (calls ++ frees size)).proc.Clean := by
  have throughout : DisciplinedCalls size (calls ++ frees size) :=
    guarded_append.mpr ⟨disciplined, disciplined_frees _ _⟩
  have tracks := (tracks_after residue throughout).2
  have length : (afterOnLists (List.replicate size none) calls).length = size :=
    (afterOnLists_length _ calls).trans List.length_replicate
  have freed : afterOnLists (List.replicate size none) (calls ++ frees size) = List.replicate size none := by
    rw [afterOnLists, run_append]
    exact (afterOnLists_frees length.ge).trans (by rw [List.drop_of_length_le length.le, List.append_nil])
  rw [freed] at tracks
  exact tracks.clean

theorem addThenMerge_returned :
    (Client.after (fun _ _ => 0) (.start 2) (addThenMerge ++ frees 2)).proc.Clean :=
  clients_return_all (fun _ _ => 0) (by decide)

end Cascade
end BugMuseum
