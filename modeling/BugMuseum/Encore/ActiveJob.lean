import BugMuseum.Encore.Holdings

namespace BugMuseum
namespace Encore

open Foundation

/-!
# The most-recent fast path

`g_active` is a cache of the last touch: a submit, a duplication or a lookup that
found a job.  A history is kept here beside the store, naming the job of the last
touch whether or not it still exists, and the cache is compared with it after
every call.

The calls include the ones that only the render pump makes, so a job may be taken
off the queue and worked on in separate calls, and the pump may be given a job
that was retired in the meantime.
-/

/-- The calls that `spoolcore.h` declares.  Beyond the operations these are
the lookup and the two halves of the render pump, with any block as the
job. -/
inductive Call where
  | perform (op : Op)
  | get (id : Int)
  | dequeue
  | work (j : Block)

def Call.next (s : Store) : Call -> Store
  | .perform op => step s op
  | .get id => (jobGet s id).1
  | .dequeue => (jobDequeue s).1
  | .work j => jobWork s j

/-- The job that an operation submits, duplicates or looks up last.  A
duplication looks up the original first, and a new job of it is the later
touch. -/
def Op.touched (s : Store) : Op -> Option Block
  | .submit fmt filter init grant => entered (jobSubmit s fmt filter init grant)
  | .render id _ => (jobGet s id).2
  | .append id _ _ => (jobGet s id).2
  | .cancel id => (jobGet s id).2
  | .recycle id => (jobGet s id).2
  | .dup id grant => (entered (jobDup s id grant)).or (jobGet s id).2
  | .status _ _ => none
  | .flush => none
  | .retire _ => none

def Call.touched (s : Store) : Call -> Option Block
  | .perform op => op.touched s
  | .get id => (jobGet s id).2
  | .dequeue => none
  | .work _ => none

/-- The store with the job that was touched last, which may have left the
table since. -/
abbrev Remembered := Store × Option Block

def remember (history : Remembered) (call : Call) : Remembered :=
  (call.next history.1, (call.touched history.1).or history.2)

/-- Two ids name the same job to every call that takes one: the calls come to
the same store, the same bytes and the same result. -/
structure SameCalls (s : Store) (left right : Int) : Prop where
  render : forall out, jobRender s left out = jobRender s right out
  append : forall arg outcome, jobAppend s left arg outcome = jobAppend s right arg outcome
  cancel : jobCancel s left = jobCancel s right
  recycle : jobRecycle s left = jobRecycle s right
  dup : forall grant, jobDup s left grant = jobDup s right grant

/-- Every call that takes an id fails with this one and changes nothing, the
most-recent job included. -/
structure Refuses (s : Store) (id : Int) : Prop where
  render : forall out, jobRender s id out = (s, out, spoolErr)
  append : forall arg outcome, jobAppend s id arg outcome = (s, spoolErr)
  cancel : jobCancel s id = (s, spoolErr)
  recycle : jobRecycle s id = (s, spoolErr)
  dup : forall grant, jobDup s id grant = (s, spoolErr)

/-- The cache is exact: it names the last touched job as long as that is in
the table, and the reserved id stands for the id of that job.  When it is
empty, every call with the reserved id fails. -/
structure ActiveExact (history : Remembered) : Prop where
  slot : forall j, history.1.gActive = some j -> history.1.slotAt (history.1.job j).id = some j
  recent : forall j, history.1.gActive = some j ↔ history.2 = some j ∧ history.1.InTable j
  same : forall j, history.1.gActive = some j -> SameCalls history.1 spoolRecent (history.1.job j).id
  none_active : history.1.gActive = none -> Refuses history.1 spoolRecent

theorem sameCalls_of_jobGet {s : Store} {left right : Int} (same : jobGet s left = jobGet s right) :
    SameCalls s left right := by
  constructor
  · intro out
    rw [jobRender, same, jobRender]
  · intro arg outcome
    rw [jobAppend, same, jobAppend]
  · rw [jobCancel, same, jobCancel]
  · rw [jobRecycle, same, jobRecycle]
  · intro grant
    rw [jobDup, same, jobDup]

theorem refuses_of_jobGet {s : Store} {id : Int} (absent : jobGet s id = (s, none)) : Refuses s id := by
  constructor
  · intro out
    rw [jobRender, absent]
  · intro arg outcome
    rw [jobAppend, absent]
  · rw [jobCancel, absent]
  · rw [jobRecycle, absent]
  · intro grant
    rw [jobDup, absent]

theorem jobGet_snd (s : Store) (id : Int) : (jobGet s id).2 = s.lookup id := by
  cases found : s.lookup id with
  | none => rw [jobGet_absent found]
  | some j => rw [jobGet_found found]

/-! ## The invariant -/

/-- What the cache depends on: which blocks are jobs, their ids, the slots,
and the cache itself. -/
structure SameTable (s s' : Store) : Prop where
  next : s'.jobs.next = s.jobs.next
  ids : forall j, (s'.job j).id = (s.job j).id
  slots : s'.slots = s.slots
  gActive : s'.gActive = s.gActive

theorem SameSkeleton.sameTable {s s' : Store} (same : SameSkeleton s s') : SameTable s s' :=
  ⟨same.next, same.ids, same.slots, same.gActive⟩

theorem LinkFrame.sameTable {s s' : Store} (frame : LinkFrame s s') : SameTable s s' :=
  ⟨frame.next, frame.id, frame.slots, frame.gActive⟩

structure Exact (s : Store) (recent : Option Block) : Prop where
  ids : forall index j, s.slots index = some j -> index < spoolMax ∧ (s.job j).id = index
  issued : forall j, s.InTable j -> j < s.jobs.next
  active : forall j, s.gActive = some j ↔ recent = some j ∧ s.InTable j

namespace Exact

variable {s s' : Store} {recent : Option Block}

theorem numbered (exact : Exact s recent) : Numbered spoolMax s.slots fun j => (s.job j).id :=
  exact.ids

theorem keep (exact : Exact s recent) (same : SameTable s s') : Exact s' recent where
  ids := by
    rw [same.slots]
    exact exact.numbered.congr fun j _ => same.ids j
  issued := fun j inTable => by
    rw [Store.InTable, same.slots] at inTable
    rw [same.next]
    exact exact.issued j inTable
  active := fun j => by
    rw [same.gActive, Store.InTable, same.slots]
    exact exact.active j

theorem lookup_inTable (exact : Exact s recent) {id : Int} {j : Block} (found : s.lookup id = some j) :
    s.InTable j := by
  rw [Store.lookup] at found
  split at found
  · exact ((exact.active j).mp found).2
  · exact Store.slotAt_inTable found

/-- A touch of a job in the table makes it the job that the cache names, and
the history agrees. -/
theorem activate (exact : Exact s recent) {j : Block} (inTable : s.InTable j) :
    Exact { s with gActive := some j } (some j) where
  ids := exact.ids
  issued := exact.issued
  active := fun k => by
    constructor
    · intro named
      exact ⟨named, Option.some.inj named ▸ inTable⟩
    · exact fun touched => touched.1

/-- A job leaves the table, and the cache with it if it names the job.  This
is what `JobRetire` does with `g_active`. -/
theorem clear (exact : Exact s recent) {index : Nat} {j : Block} (holds : s.slots index = some j)
    (next : s'.jobs.next = s.jobs.next) (ids : forall k, (s'.job k).id = (s.job k).id)
    (slots : s'.slots = Function.update s.slots index none)
    (gActive : s'.gActive = if s.gActive = some j then none else s.gActive) : Exact s' recent := by
  have member : forall k, s'.InTable k ↔ s.InTable k ∧ k ≠ j := by
    intro k
    rw [Store.InTable, slots]
    exact exact.numbered.held_clear holds k
  refine ⟨?_, fun k inTable => ?_, fun k => ?_⟩
  · rw [slots]
    exact (exact.numbered.clear index).congr fun k _ => ids k
  · rw [next]
    exact exact.issued k ((member k).mp inTable).1
  · rw [gActive, member]
    by_cases named : s.gActive = some j
    · rw [if_pos named]
      have recent_eq := ((exact.active j).mp named).1
      refine iff_of_false (fun none_named => by cases none_named) ?_
      rintro ⟨touched, _, different⟩
      exact different (Option.some.inj (touched.symm.trans recent_eq))
    · rw [if_neg named, exact.active k]
      constructor
      · rintro ⟨touched, inTable⟩
        refine ⟨touched, inTable, ?_⟩
        rintro rfl
        exact named ((exact.active k).mpr ⟨touched, inTable⟩)
      · rintro ⟨touched, inTable, _⟩
        exact ⟨touched, inTable⟩

theorem retireHeld_id (s : Store) (index : Nat) (j k : Block) :
    ((Encore.retireHeld s index j).job k).id = (s.job k).id := by
  simpa using congrArg Job.id (retireHeld_fields s index j k)

theorem retireHeld (exact : Exact s recent) {index : Nat} {j : Block} (holds : s.slots index = some j) :
    Exact (retireHeld s index j) recent := by
  exact exact.clear holds (retireHeld_next s index j) (retireHeld_id s index j)
    (retireHeld_slots s index j) (retireHeld_gActive s index j)

theorem jobRetire (exact : Exact s recent) (id : Int) : Exact (jobRetire s id).1 recent := by
  exact jobRetire_keeps (P := fun s => Exact s recent) id exact fun j slot => exact.retireHeld slot

/-- The pump releases a cancelled job before the table is updated: for that
moment the cache is empty and the job still in its slot. -/
theorem discard (exact : Exact s recent) (j : Block) :
    Exact (Encore.jobRetire (freeJob s j) (s.job j).id).1 recent := by
  have freed := freeJob_skeleton s j
  by_cases inTable : s.InTable j
  · rcases Store.slotAt_id exact.numbered inTable with ⟨index, named, holds, found⟩
    have held : (freeJob s j).slots index = some j := by
      rw [← holds]
      exact congrFun freed.slots index
    have stillFound : (freeJob s j).slotAt (s.job j).id = some j := by
      rw [← found, Store.slotAt, Store.slotAt]
      exact congrArg (fun slots : Nat -> Option Block =>
        if (s.job j).id < 0 ∨ (s.job j).id ≥ spoolMax then none else slots (s.job j).id.toNat) freed.slots
    rw [Encore.jobRetire]
    simp only [stillFound]
    rw [named, Int.toNat_natCast]
    apply exact.clear holds
    · exact (retireHeld_next _ index j).trans freed.next
    · intro k
      exact (retireHeld_id _ index j k).trans (congrArg Job.id (freeJob_job s j k))
    · rw [retireHeld_slots]
      exact congrArg (fun slots => Function.update slots index none) freed.slots
    · rw [retireHeld_gActive, freeJob_gActive]
      by_cases active : s.gActive = some j
      · rw [if_pos active, if_neg (fun impossible => by cases impossible)]
      · rw [if_neg active, if_neg active]
  · have inactive : s.gActive ≠ some j := fun active => inTable ((exact.active j).mp active).2
    have kept : SameTable s (freeJob s j) := by
      refine ⟨freed.next, freed.ids, freed.slots, ?_⟩
      rw [freeJob_gActive, if_neg inactive]
    exact (exact.keep kept).jobRetire _

theorem jobWork (exact : Exact s recent) (j : Block) : Exact (jobWork s j) recent := by
  have touched := exact.keep (SameSkeleton.touchJob s j).sameTable
  rw [Encore.jobWork]
  dsimp only
  split
  · exact touched.discard j
  · exact (touched.keep (SameSkeleton.renderJob (s.touchJob j) j).sameTable).jobRetire _

theorem jobDequeue (exact : Exact s recent) : Exact (jobDequeue s).1 recent :=
  exact.keep (jobDequeue_frame s).sameTable

theorem flushLoop (fuel : Nat) (exact : Exact s recent) : Exact (flushLoop fuel s) recent := by
  induction fuel generalizing s with
  | zero => exact exact
  | succ fuel inductionHypothesis =>
      have dequeued := exact.jobDequeue
      rw [Encore.flushLoop]
      rcases result : Encore.jobDequeue s with ⟨t, found⟩
      rw [result] at dequeued
      cases found with
      | none => exact dequeued
      | some j => exact inductionHypothesis (dequeued.jobWork j)

theorem withdrawn (exact : Exact s recent) (value : Job) : Exact (withdrawn s value) recent := by
  have extended := Heap.alloc_extends s.jobs value
  refine ⟨?_, fun j inTable => ?_, exact.active⟩
  · exact exact.numbered.congr fun j inTable =>
      congrArg Job.id (extended.older j (Nat.ne_of_lt (exact.issued j inTable)))
  · exact Nat.lt_succ_of_lt (exact.issued j inTable)

theorem enter (exact : Exact s recent) {jobs : Heap Job} {docs : Heap Bytes} {id : Nat} {job : Job}
    {document : Bytes} (admission : Admission s jobs docs id job document)
    (slot : firstFree spoolMax s.slots = some id) (metas : Heap Bytes) :
    Exact (Encore.admitted s jobs docs metas id) (some s.jobs.next) := by
  have inside := (firstFree_some slot).1
  have member := admitted_inTable jobs docs metas slot
  have sameId : forall j, ((Encore.admitted s jobs docs metas id).job j).id = (jobs.cell j).id := by
    intro j
    simpa using congrArg Job.id (admitted_fields s jobs docs metas id j)
  refine ⟨?_, fun j inTable => ?_, fun j => ?_⟩
  · rw [admitted_slots]
    have older := exact.numbered.congr fun j inTable =>
      congrArg Job.id (admission.jobs.older j (Nat.ne_of_lt (exact.issued j inTable)))
    have named := (congrArg Job.id admission.jobs.fresh).trans admission.id
    exact (older.fill inside named).congr fun j _ => sameId j
  · rw [(admitted_frame s jobs docs metas id).1, admission.jobs.next]
    rcases (member j).mp inTable with old | same
    · exact Nat.lt_succ_of_lt (exact.issued j old)
    · exact same ▸ Nat.lt_succ_self _
  · rw [member]
    change some s.jobs.next = some j ↔ _
    constructor
    · intro same
      exact ⟨same, Or.inr (Option.some.inj same).symm⟩
    · exact fun touched => touched.1

/-- A call that fails returns no id, and no job is touched, even where a `Job`
block was allocated and given back. -/
theorem refused (exact : Exact s recent) (result : Store × Int) (failed : result.2 = spoolErr)
    (unchanged : result.1 = s ∨ exists value, result.1 = Encore.withdrawn s value) :
    Exact result.1 ((entered result).or recent) := by
  rw [entered_refused failed, Option.none_or]
  rcases unchanged with same | ⟨value, same⟩
  · rw [same]
    exact exact
  · rw [same]
    exact exact.withdrawn value

theorem admitted (exact : Exact s recent) {jobs : Heap Job} {docs metas : Heap Bytes} {id : Nat}
    {job : Job} {document : Bytes} (admission : Admission s jobs docs id job document)
    (slot : firstFree spoolMax s.slots = some id) (result : Store × Int)
    (same : result =
      (enterJob { s with jobs := jobs, docs := docs, metas := metas } id s.jobs.next, (id : Int))) :
    Exact result.1 ((entered result).or recent) := by
  rw [same, entered_admitted jobs docs metas slot]
  exact exact.enter admission slot metas

theorem jobSubmit (exact : Exact s recent) (fmt : Int) (filter : Option Filter) (init : Payload)
    (grant : Nat -> Grant) :
    Exact (jobSubmit s fmt filter init grant).1
      ((entered (Encore.jobSubmit s fmt filter init grant)).or recent) := by
  rcases jobSubmit_cases s fmt filter init grant with same | ⟨value, same⟩ |
    ⟨id, jobs, docs, metas, job, document, slot, admission, _, _, _, same⟩
  · exact exact.refused _ (congrArg Prod.snd same) (Or.inl (congrArg Prod.fst same))
  · exact exact.refused _ (congrArg Prod.snd same) (Or.inr ⟨value, congrArg Prod.fst same⟩)
  · exact exact.admitted admission slot _ same

theorem dupOf (exact : Exact s recent) {j : Block} (inTable : s.InTable j) (grant : Nat -> Grant) :
    Exact (dupOf s j grant).1 ((entered (Encore.dupOf s j grant)).or recent) := by
  have touched := exact.keep (SameSkeleton.touchJob s j).sameTable
  rcases dupOf_cases (exact.issued j inTable) grant with same | ⟨value, same⟩ |
    ⟨id, jobs, docs, job, document, slot, admission, _, _, _, same⟩
  · exact exact.refused _ (congrArg Prod.snd same) (Or.inl (congrArg Prod.fst same))
  · exact touched.refused _ (congrArg Prod.snd same) (Or.inr ⟨value, congrArg Prod.fst same⟩)
  · exact touched.admitted admission slot _ same

theorem handled (exact : Exact s recent) {op : Op} {id : Int} (handled : op.jobId = some id)
    (touches : op.touched s = (jobGet s id).2)
    (acts : forall {t : Store} {j : Block}, Exact t (some j) -> Exact (op.act t j) (some j)) :
    Exact (step s op) ((op.touched s).or recent) := by
  rw [touches, jobGet_snd]
  cases found : s.lookup id with
  | none =>
      rw [step_absent handled found]
      exact exact
  | some j =>
      rw [step_found handled found]
      exact acts (exact.activate (exact.lookup_inTable found))

theorem jobDup (exact : Exact s recent) (id : Int) (grant : Nat -> Grant) :
    Exact (jobDup s id grant).1
      (((entered (Encore.jobDup s id grant)).or (jobGet s id).2).or recent) := by
  rw [Encore.jobDup]
  cases found : s.lookup id with
  | none =>
      rw [jobGet_absent found]
      exact exact.refused (s, spoolErr) rfl (Or.inl rfl)
  | some j =>
      have inTable := exact.lookup_inTable found
      rw [jobGet_found found, Option.or_assoc]
      exact (exact.activate inTable).dupOf inTable grant

theorem jobStatus (exact : Exact s recent) (verbose : Bool) (out : Bytes) :
    Exact (jobStatus s verbose out).1 recent := by
  exact jobStatus_keeps (P := fun s => Exact s recent) verbose out exact fun j _ =>
    exact.keep (SameSkeleton.touchJob s j).sameTable

theorem step (exact : Exact s recent) (op : Op) :
    Exact (step s op) ((op.touched s).or recent) := by
  cases op with
  | submit fmt filter init grant => exact exact.jobSubmit fmt filter init grant
  | render id out =>
      refine exact.handled rfl rfl fun {t j} kept => ?_
      have same := (callFilter_frame t j out).toSameSkeleton.trans (.touchJob _ j)
      exact (kept.keep same.sameTable).jobRetire _
  | append id arg outcome =>
      exact exact.handled rfl rfl fun {t j} kept =>
        kept.keep (appendTo_frame t j arg outcome).toSameSkeleton.sameTable
  | cancel id =>
      exact exact.handled rfl rfl fun {t j} kept => kept.keep (SameSkeleton.setState t j _).sameTable
  | recycle id =>
      refine exact.handled rfl rfl fun {t j} kept => ?_
      have released := (SameSkeleton.refl t).buffers (t.docs.releaseAt t.gScratch) t.metas t.gScratch
        t.renders
      exact kept.keep ((released.trans (.touchJob _ j)).buffers _ _ _ _).sameTable
  | dup id grant => exact exact.jobDup id grant
  | status verbose out => exact exact.jobStatus verbose out
  | flush => exact exact.flushLoop _
  | retire id => exact exact.jobRetire id

theorem jobGet (exact : Exact s recent) (id : Int) :
    Exact (jobGet s id).1 ((Encore.jobGet s id).2.or recent) := by
  cases found : s.lookup id with
  | none =>
      rw [jobGet_absent found]
      exact exact
  | some j =>
      rw [jobGet_found found]
      exact exact.activate (exact.lookup_inTable found)

theorem next (exact : Exact s recent) (call : Call) :
    Exact (call.next s) ((call.touched s).or recent) := by
  cases call with
  | perform op => exact exact.step op
  | get id => exact exact.jobGet id
  | dequeue => exact exact.jobDequeue
  | work j => exact exact.jobWork j

/-! ## What the reserved id stands for -/

/-- The reserved id and the id of the active job are looked up alike, so no
later call can tell them apart. -/
theorem jobGet_recent (exact : Exact s recent) {j : Block} (named : s.gActive = some j) :
    Encore.jobGet s spoolRecent = Encore.jobGet s (s.job j).id := by
  rcases Store.slotAt_id exact.numbered ((exact.active j).mp named).2 with ⟨index, sameId, holds, found⟩
  have inside := (exact.ids index j holds).1
  have ordinary : (s.job j).id ≠ spoolRecent := by
    rw [sameId, spoolRecent]
    rw [spoolMax] at inside
    omega
  have explicit : s.lookup (s.job j).id = some j := by
    rw [Store.lookup, if_neg ordinary]
    exact found
  have reserved : s.lookup spoolRecent = some j := by
    rw [Store.lookup, if_pos rfl]
    exact named
  rw [jobGet_found explicit, jobGet_found reserved]

theorem activeExact {history : Remembered} (exact : Exact history.1 history.2) :
    ActiveExact history where
  slot := fun j named => by
    rcases Store.slotAt_id exact.numbered ((exact.active j).mp named).2 with ⟨_, _, _, found⟩
    exact found
  recent := exact.active
  same := fun _ named => sameCalls_of_jobGet (exact.jobGet_recent named)
  none_active := fun inactive => refuses_of_jobGet (jobGet_absent (by
    rw [Store.lookup, if_pos rfl]
    exact inactive))

end Exact

theorem exact_spoolNew : Exact spoolNew none where
  ids := fun _ _ impossible => by cases impossible
  issued := fun j inTable => absurd inTable (not_inTable_spoolNew j)
  active := fun j => by
    constructor
    · intro impossible
      cases impossible
    · rintro ⟨impossible, _⟩
      cases impossible

theorem exact_throughout (calls : List Call) :
    Throughout remember (fun history => Exact history.1 history.2) (spoolNew, none) calls := by
  have keeps : forall history call, Exact history.1 history.2 -> True ->
      Exact (remember history call).1 (remember history call).2 :=
    fun _ call exact _ => exact.next call
  have start : (fun history : Remembered => Exact history.1 history.2) (spoolNew, none) :=
    exact_spoolNew
  exact throughout_of_invariant (fun _ => True) keeps start fun _ _ => trivial

/-- The cache is exact between any two calls of any run.  The calls may come
in any order and with any blocks, as the other threads of the program may make
them. -/
theorem activeExact_throughout (calls : List Call) :
    Throughout remember ActiveExact (spoolNew, none) calls :=
  (exact_throughout calls).mono fun _ => Exact.activeExact

end Encore
end BugMuseum
