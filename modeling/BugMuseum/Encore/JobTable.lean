import BugMuseum.Encore.ReadyQueue

namespace BugMuseum
namespace Encore

open Foundation

/-!
# Consistency of the job table and the ready queue

Four structures describe the same set of jobs: the slots, the counter, the
linked queue and its tail pointer.  `Consistent s pumped q` says that they
agree, where `q` is the queue as a list and `pumped` is the job that the
render pump has taken off the queue but not yet retired.  Between two calls no
job is being pumped.

The most-recent cache is part of the invariant: it only ever names a job of
the table, so no operation leaves the table through it.
-/

structure Consistent (s : Store) (pumped : Option Block) (q : List Block) : Prop where
  queue : ReadyQueue s q
  apart : forall j, pumped = some j -> j ∉ q
  ids : forall index j, s.slots index = some j -> index < spoolMax ∧ (s.job j).id = index
  counted : s.count = occupied spoolMax s.slots
  held : forall j, s.InTable j ↔ pumped = some j ∨ j ∈ q
  issued : forall j, s.InTable j -> j < s.jobs.next
  active : forall j, s.gActive = some j -> s.InTable j

/-- What the table and the queue depend on, apart from the heap counters.
Whatever keeps it keeps the consistency of the table. -/
structure SameSkeleton (s s' : Store) : Prop where
  next : s'.jobs.next = s.jobs.next
  ids : forall j, (s'.job j).id = (s.job j).id
  links : s'.link = s.link
  slots : s'.slots = s.slots
  count : s'.count = s.count
  qhead : s'.qhead = s.qhead
  qtail : s'.qtail = s.qtail
  gActive : s'.gActive = s.gActive

namespace SameSkeleton

theorem trans {first second third : Store} (left : SameSkeleton first second)
    (right : SameSkeleton second third) : SameSkeleton first third where
  next := right.next.trans left.next
  ids := fun j => (right.ids j).trans (left.ids j)
  links := right.links.trans left.links
  slots := right.slots.trans left.slots
  count := right.count.trans left.count
  qhead := right.qhead.trans left.qhead
  qtail := right.qtail.trans left.qtail
  gActive := right.gActive.trans left.gActive

theorem refl (s : Store) : SameSkeleton s s :=
  ⟨rfl, fun _ => rfl, rfl, rfl, rfl, rfl, rfl, rfl⟩

theorem touchJob (s : Store) (j : Block) : SameSkeleton s (s.touchJob j) :=
  ⟨Heap.touch_next .., fun _ => congrArg Job.id (s.touchJob_job ..), link_touchJob s j, rfl, rfl,
    rfl, rfl, rfl⟩

/-- A change of a job that keeps its id and its link leaves the table and the
queue alone. -/
theorem modifyJob (s : Store) (j : Block) (change : Job -> Job)
    (keepsId : forall job, (change job).id = job.id)
    (keepsLink : forall job, (change job).qnext = job.qnext) :
    SameSkeleton s (s.modifyJob j change) where
  next := Heap.modify_next ..
  ids := Store.modifyJob_field Job.id (keepsId _)
  links := by
    funext other
    exact Store.modifyJob_field Job.qnext (keepsLink _) other
  slots := rfl
  count := rfl
  qhead := rfl
  qtail := rfl
  gActive := rfl

theorem setState (s : Store) (j : Block) (state : JobState) :
    SameSkeleton s (s.modifyJob j fun job => { job with state }) :=
  .modifyJob s j _ (fun _ => rfl) fun _ => rfl

variable {s s' : Store}

/-- The buffers, the kept buffer and the render log are no part of it. -/
theorem buffers (same : SameSkeleton s s') (docs metas : Heap Bytes) (scratch : Option Block)
    (renders : List Render) :
    SameSkeleton s { s' with docs := docs, metas := metas, gScratch := scratch, renders := renders } :=
  ⟨same.next, same.ids, same.links, same.slots, same.count, same.qhead, same.qtail, same.gActive⟩

theorem inTable_iff (same : SameSkeleton s s') (j : Block) : s'.InTable j ↔ s.InTable j := by
  simp only [Store.InTable, same.slots]

end SameSkeleton

/-- Between two calls no job is being pumped, so there is nothing to show of
one. -/
theorem alone_of_none {j : Block} (k : Block) (impossible : none = some k) : k = j :=
  absurd impossible.symm (Option.some_ne_none k)

namespace Consistent

variable {s s' : Store} {pumped : Option Block} {q : List Block}

theorem numbered (consistent : Consistent s pumped q) : Numbered spoolMax s.slots fun j => (s.job j).id :=
  consistent.ids

theorem skeleton (consistent : Consistent s pumped q) (same : SameSkeleton s s') :
    Consistent s' pumped q where
  queue :=
    { path := by rw [same.links, same.qhead]; exact consistent.queue.path
      tail := same.qtail.trans consistent.queue.tail
      nodup := consistent.queue.nodup }
  apart := consistent.apart
  ids := by
    rw [same.slots]
    exact consistent.numbered.congr fun j _ => same.ids j
  counted := by rw [same.count, same.slots]; exact consistent.counted
  held := fun j => (same.inTable_iff j).trans (consistent.held j)
  issued := fun j inTable => by
    rw [same.next]
    exact consistent.issued j ((same.inTable_iff j).mp inTable)
  active := fun j named =>
    (same.inTable_iff j).mpr (consistent.active j (same.gActive ▸ named))

theorem setActive (consistent : Consistent s pumped q) (active : Option Block)
    (inTable : forall j, active = some j -> s.InTable j) :
    Consistent { s with gActive := active } pumped q where
  queue := ⟨consistent.queue.path, consistent.queue.tail, consistent.queue.nodup⟩
  apart := consistent.apart
  ids := consistent.ids
  counted := consistent.counted
  held := consistent.held
  issued := consistent.issued
  active := inTable

theorem lookup_inTable (consistent : Consistent s pumped q) {id : Int} {j : Block}
    (found : s.lookup id = some j) : s.InTable j := by
  unfold Store.lookup at found
  split at found
  · exact consistent.active j found
  · exact Store.slotAt_inTable found

theorem activate (consistent : Consistent s pumped q) {j : Block} (inTable : s.InTable j) :
    Consistent { s with gActive := some j } pumped q :=
  consistent.setActive (some j) fun _ same => Option.some.inj same ▸ inTable

/-! ## Entering and retiring a job -/

/-- A new `Job` block that no slot holds yet: it has been allocated, and the
call may still fail. -/
theorem extendJobs (consistent : Consistent s pumped q) {jobs : Heap Job} {value : Job}
    (extended : s.jobs.Extends jobs value) (docs metas : Heap Bytes) :
    Consistent { s with jobs := jobs, docs := docs, metas := metas } pumped q := by
  have older : forall j, s.InTable j -> jobs.cell j = s.jobs.cell j :=
    fun j inTable => extended.older j (Nat.ne_of_lt (consistent.issued j inTable))
  constructor
  · refine ⟨consistent.queue.path.congr fun j member => ?_, consistent.queue.tail,
      consistent.queue.nodup⟩
    exact congrArg Job.qnext (older j ((consistent.held j).mpr (Or.inr member)))
  · exact consistent.apart
  · exact consistent.numbered.congr fun j inTable => congrArg Job.id (older j inTable)
  · exact consistent.counted
  · exact consistent.held
  · intro j inTable
    change j < jobs.next
    rw [extended.next]
    exact Nat.lt_succ_of_lt (consistent.issued j inTable)
  · exact consistent.active

theorem releaseJob (consistent : Consistent s pumped q) (j : Block) :
    Consistent { s with jobs := s.jobs.release j } pumped q :=
  consistent.skeleton ⟨rfl, fun _ => rfl, rfl, rfl, rfl, rfl, rfl, rfl⟩

end Consistent

/-- Entering a job in the table adds exactly that job. -/
theorem enterJob_inTable {s : Store} {id : Nat} (inside : id < spoolMax) (free : s.slots id = none)
    (j k : Block) : (enterJob s id j).InTable k ↔ s.InTable k ∨ k = j := by
  have slots : (enterJob s id j).slots = Function.update s.slots id (some j) :=
    (enqueue_frame _ j).slots
  rw [Store.InTable, slots]
  exact held_fill inside free

namespace Consistent

variable {s : Store} {q : List Block}

theorem enterJob (consistent : Consistent s none q) {id : Nat} {j : Block}
    (inside : id < spoolMax) (free : s.slots id = none) (absent : ¬ s.InTable j)
    (named : (s.job j).id = id) (issued : j < s.jobs.next) :
    Consistent (enterJob s id j) none (q ++ [j]) := by
  let filled : Store :=
    { s with slots := Function.update s.slots id (some j), count := s.count + 1 }
  have notQueued : j ∉ q := fun member => absent ((consistent.held j).mpr (Or.inr member))
  have queue : ReadyQueue filled q :=
    ⟨consistent.queue.path, consistent.queue.tail, consistent.queue.nodup⟩
  have entered := enqueue_queue queue notQueued
  have frame := enqueue_frame filled j
  constructor
  · exact ⟨entered.path, entered.tail, entered.nodup⟩
  · exact fun k impossible => nomatch impossible
  · change Numbered spoolMax (enqueue filled j).slots fun k => ((enqueue filled j).job k).id
    rw [frame.slots]
    exact (consistent.numbered.fill inside named).congr fun k _ => frame.id k
  · change (enqueue filled j).count = (occupied spoolMax (enqueue filled j).slots : Int)
    rw [frame.count, frame.slots, occupied_fill j inside free]
    change s.count + 1 = _
    rw [consistent.counted]
    rfl
  · intro k
    rw [enterJob_inTable inside free, consistent.held k]
    simp
  · intro k inTable
    change k < (enqueue filled j).jobs.next
    rw [frame.next]
    rcases (enterJob_inTable inside free j k).mp inTable with old | same
    · exact consistent.issued k old
    · exact same ▸ issued
  · intro k named
    cases named
    exact (enterJob_inTable inside free j j).mpr (Or.inr rfl)

end Consistent

theorem freeJob_job (s : Store) (j k : Block) : (freeJob s j).job k = s.job k := by
  unfold freeJob
  by_cases named : s.gActive = some j
  · simp only [if_pos named]
    exact Store.touchJob_job ..
  · simp only [if_neg named]
    exact Store.touchJob_job ..

theorem freeJob_gActive (s : Store) (j : Block) :
    (freeJob s j).gActive = if s.gActive = some j then none else s.gActive := by
  unfold freeJob
  by_cases named : s.gActive = some j
  · simp only [if_pos named]
    rfl
  · simp only [if_neg named]
    rfl

/-- Everything else that `free_job` leaves alone: it releases blocks and
clears the cache, but not the slot. -/
theorem freeJob_skeleton (s : Store) (j : Block) :
    SameSkeleton s { freeJob s j with gActive := s.gActive } := by
  have fields : forall k, (freeJob s j).job k = s.job k := freeJob_job s j
  constructor
  · unfold freeJob
    by_cases named : s.gActive = some j <;> simp [named, Store.touchJob]
  · exact fun k => congrArg Job.id (fields k)
  · funext k
    exact congrArg Job.qnext (fields k)
  all_goals
    unfold freeJob
    by_cases named : s.gActive = some j <;> simp [named, Store.touchJob]

/-- A retirement finds no job, or it retires the one in the slot.  A property
kept in both cases is kept by the call. -/
theorem jobRetire_keeps {P : Store -> Prop} {s : Store} (id : Int) (kept : P s)
    (retired : forall j, s.slots id.toNat = some j -> P (retireHeld s id.toNat j)) : P (jobRetire s id).1 := by
  rw [jobRetire]
  cases found : s.slotAt id with
  | none => exact kept
  | some j => exact retired j (Store.slotAt_some found).2.2

theorem retireHeld_slots (s : Store) (index : Nat) (j : Block) :
    (retireHeld s index j).slots = Function.update s.slots index none := by
  have freed := (freeJob_skeleton (unlinkQueue s j) j).slots
  have unlinked := (unlinkQueue_frame s j).slots
  change Function.update (freeJob (unlinkQueue s j) j).slots index none = _
  rw [← unlinked, ← freed]

/-- A retired job is no longer the active one; another active job stays so. -/
theorem retireHeld_gActive (s : Store) (index : Nat) (j : Block) :
    (retireHeld s index j).gActive = if s.gActive = some j then none else s.gActive := by
  change (freeJob (unlinkQueue s j) j).gActive = _
  rw [freeJob_gActive, (unlinkQueue_frame s j).gActive]

namespace Consistent

variable {s : Store} {pumped : Option Block} {q : List Block}

theorem freeJob (consistent : Consistent s pumped q) (j : Block) :
    Consistent (freeJob s j) pumped q := by
  have same := consistent.skeleton (freeJob_skeleton s j)
  apply same.setActive (Encore.freeJob s j).gActive
  intro k named
  rw [freeJob_gActive] at named
  split at named
  · cases named
  · exact ((freeJob_skeleton s j).inTable_iff k).mpr (consistent.active k named)

theorem unlinkQueue (consistent : Consistent s pumped q) (j : Block) :
    ReadyQueue (unlinkQueue s j) (q.erase j) :=
  unlinkQueue_queue consistent.queue
    (fun k member => consistent.issued k ((consistent.held k).mpr (Or.inr member))) j

/-- Clearing a slot takes exactly its job out of the table. -/
theorem retireHeld_inTable (consistent : Consistent s pumped q) {index : Nat} {j : Block}
    (holds : s.slots index = some j) (k : Block) :
    (retireHeld s index j).InTable k ↔ s.InTable k ∧ k ≠ j := by
  rw [Store.InTable, retireHeld_slots]
  exact consistent.numbered.held_clear holds k

/-- Retiring a job that is queued, or that the pump has taken off the queue.
In both cases the table is consistent again with the job gone. -/
theorem retireHeld (consistent : Consistent s pumped q) {index : Nat} {j : Block}
    (holds : s.slots index = some j) (alone : forall k, pumped = some k -> k = j) :
    Consistent (retireHeld s index j) none (q.erase j) := by
  have inside := (consistent.ids index j holds).1
  have frame := unlinkQueue_frame s j
  have freed := freeJob_skeleton (Encore.unlinkQueue s j) j
  have queue := consistent.unlinkQueue j
  have member := consistent.retireHeld_inTable holds
  have slots := retireHeld_slots s index j
  have fields : forall k, ((Encore.retireHeld s index j).job k).id = (s.job k).id :=
    fun k => (freed.ids k).trans (frame.id k)
  constructor
  · refine ⟨?_, freed.qtail.trans queue.tail, queue.nodup⟩
    change Path (Encore.freeJob (Encore.unlinkQueue s j) j).link
      (Encore.freeJob (Encore.unlinkQueue s j) j).qhead _ none
    have links : (Encore.freeJob (Encore.unlinkQueue s j) j).link =
      (Encore.unlinkQueue s j).link := freed.links
    have head : (Encore.freeJob (Encore.unlinkQueue s j) j).qhead =
      (Encore.unlinkQueue s j).qhead := freed.qhead
    rw [links, head]
    exact queue.path
  · exact fun k impossible => nomatch impossible
  · rw [slots]
    exact (consistent.numbered.clear index).congr fun k _ => fields k
  · have counter : (Encore.retireHeld s index j).count = s.count - 1 :=
      congrArg (· - 1) (freed.count.trans frame.count)
    have cleared := occupied_clear inside holds
    rw [counter, slots, consistent.counted]
    omega
  · intro k
    rw [member, consistent.held k, List.Nodup.mem_erase_iff consistent.queue.nodup]
    constructor
    · rintro ⟨pumpedNow | queued, different⟩
      · exact absurd (alone k pumpedNow) different
      · exact Or.inr ⟨different, queued⟩
    · rintro (impossible | ⟨different, queued⟩)
      · cases impossible
      · exact ⟨Or.inr queued, different⟩
  · intro k inTable
    have bound := consistent.issued k ((member k).mp inTable).1
    have sameNext : (Encore.retireHeld s index j).jobs.next = s.jobs.next :=
      freed.next.trans frame.next
    rwa [sameNext]
  · intro k named
    rw [retireHeld_gActive] at named
    split at named
    · cases named
    · rename_i different
      refine (member k).mpr ⟨consistent.active k named, fun same => different ?_⟩
      rwa [← same]

end Consistent

end Encore
end BugMuseum
