import BugMuseum.Encore.ActiveJob

namespace BugMuseum
namespace Encore

open Foundation

/-!
# A cancelled job and its filter

Cancelling only marks the job.  The pump honours the mark: it discards the job
without calling its filter.  `JobRender` calls the filter first and never looks at
the mark, so a run keeps the promise exactly when no render finds a cancelled job.

A history is kept beside the store: the jobs for which a cancel has succeeded.
-/

/-- The job that a cancel has marked, if it has found one. -/
def Call.cancels (s : Store) : Call -> Option Block
  | .perform (.cancel id) => if (jobCancel s id).2 = spoolOk then (jobGet s id).2 else none
  | _ => none

/-- The store with the jobs cancelled so far.  A job stays on the list when it
leaves the table. -/
abbrev Cancellations := Store × List Block

def noteCancel (history : Cancellations) (call : Call) : Cancellations :=
  (call.next history.1, history.2 ++ (call.cancels history.1).toList)

/-- The call invokes no filter of a job that was cancelled before.  The log of
the filters is what the call is judged by. -/
def SparesCancelled (history : Cancellations) (call : Call) : Prop :=
  exists new, (call.next history.1).renders = history.1.renders ++ new ∧
    forall r, r ∈ new -> r.job ∉ history.2

/-- The call is no render of a cancelled job, where the id of the render may
be the reserved one. -/
def RendersNoCancelled (history : Cancellations) : Call -> Prop
  | .perform (.render id _) => forall j, history.1.lookup id = some j ->
      (history.1.job j).state ≠ .cancelled
  | _ => True

/-- No job is new, and the marked jobs are the same.  Jobs may leave the
table. -/
structure KeepsMarks (s s' : Store) : Prop where
  next : s'.jobs.next = s.jobs.next
  inTable : forall k, s'.InTable k -> s.InTable k
  marks : forall k, (s'.job k).state = .cancelled ↔ (s.job k).state = .cancelled

/-- Besides, no filter of a marked job was called.  All calls but a render are
shown to be of this kind. -/
structure Honours (s s' : Store) : Prop extends KeepsMarks s s' where
  renders : exists new, s'.renders = s.renders ++ new ∧
    forall r, r ∈ new -> (s.job r.job).state ≠ .cancelled

theorem KeepsMarks.trans {first second third : Store} (left : KeepsMarks first second)
    (right : KeepsMarks second third) : KeepsMarks first third where
  next := right.next.trans left.next
  inTable := fun k stays => left.inTable k (right.inTable k stays)
  marks := fun k => (right.marks k).trans (left.marks k)

theorem callFilter_keepsMarks (s : Store) (j : Block) (out : Bytes) :
    KeepsMarks s (callFilter s j out).1 where
  next := Heap.touch_next ..
  inTable := fun _ inTable => inTable
  marks := fun k => by
    have same : (callFilter s j out).1.job k = s.job k := s.touchJob_job j k
    rw [same]

namespace Honours

variable {s s' : Store}

/-- A call that invokes no filter honours the marks that it keeps. -/
theorem quiet (kept : KeepsMarks s s') (renders : s'.renders = s.renders) : Honours s s' where
  toKeepsMarks := kept
  renders := ⟨[], by rw [renders, List.append_nil], fun _ impossible => absurd impossible List.not_mem_nil⟩

theorem refl (s : Store) : Honours s s :=
  quiet ⟨rfl, fun _ inTable => inTable, fun _ => Iff.rfl⟩ rfl

theorem trans {first second third : Store} (left : Honours first second)
    (right : Honours second third) : Honours first third where
  toKeepsMarks := left.toKeepsMarks.trans right.toKeepsMarks
  renders := by
    rcases left.renders with ⟨before, sameBefore, spared⟩
    rcases right.renders with ⟨after, sameAfter, sparedThen⟩
    refine ⟨before ++ after, ?_, fun r member => ?_⟩
    · rw [sameAfter, sameBefore, List.append_assoc]
    · rcases List.mem_append.mp member with early | late
      · exact spared r early
      · exact fun marked => sparedThen r late ((left.marks r.job).mpr marked)

theorem linked (frame : LinkFrame s s') : Honours s s' := by
  refine quiet ⟨frame.next, fun k inTable => ?_, fun k => ?_⟩ frame.renders
  · rwa [Store.InTable, frame.slots] at inTable
  · rw [frame.state]

/-- The filter of a job that is not marked may be called. -/
theorem callFilter {j : Block} (unmarked : (s.job j).state ≠ .cancelled) (out : Bytes) :
    Honours s (callFilter s j out).1 where
  toKeepsMarks := callFilter_keepsMarks s j out
  renders := by
    refine ⟨[⟨j, (s.job j).filter, s.document j⟩], rfl, fun r member => ?_⟩
    rw [List.mem_singleton.mp member]
    exact unmarked

theorem retireHeld {index : Nat} {j : Block} : Honours s (retireHeld s index j) := by
  refine quiet ⟨retireHeld_next s index j, fun k inTable => ?_, fun k => ?_⟩ (retireHeld_renders s index j)
  · rcases inTable with ⟨position, inside, holds⟩
    rw [retireHeld_slots] at holds
    by_cases same : position = index
    · rw [same, Function.update_self] at holds
      cases holds
    · rw [Function.update_of_ne same] at holds
      exact ⟨position, inside, holds⟩
  · have fields := congrArg Job.state (retireHeld_fields s index j k)
    rw [show ((Encore.retireHeld s index j).job k).state = (s.job k).state from fields]

theorem jobRetire (s : Store) (id : Int) : Honours s (jobRetire s id).1 := by
  exact jobRetire_keeps (P := Honours s) id (refl s) fun j _ => retireHeld

/-- The pump changes the state of a job that is not marked, to another one
than the mark. -/
theorem setState {j : Block} {state : JobState} (unmarked : (s.job j).state ≠ .cancelled)
    (other : state ≠ .cancelled) : Honours s (s.modifyJob j fun job => { job with state }) := by
  refine quiet ⟨Heap.modify_next .., fun _ inTable => inTable, fun k => ?_⟩ rfl
  by_cases same : k = j
  · rw [same, Store.modifyJob_job_self]
    exact iff_of_false other unmarked
  · rw [Store.modifyJob_job_of_ne _ _ same]

/-- The pump, whatever job it is given: it discards a marked one without
calling its filter. -/
theorem jobWork (s : Store) (j : Block) : Honours s (jobWork s j) := by
  have touched := linked (LinkFrame.touchJob s j)
  rw [Encore.jobWork]
  dsimp only
  split
  · have same := freeJob_skeleton (s.touchJob j) j
    have freed : Honours (s.touchJob j) (freeJob (s.touchJob j) j) := by
      refine quiet ⟨same.next, fun k => (same.inTable_iff k).mp, fun k => ?_⟩ (freeJob_renders _ j)
      rw [freeJob_job]
    exact (touched.trans freed).trans (jobRetire _ _)
  · rename_i unmarked
    have busy : JobState.rendering ≠ .cancelled := by decide
    have idle : JobState.done ≠ .cancelled := by decide
    have rendering := setState unmarked busy
    have still := fun marked => unmarked ((rendering.marks j).mp marked)
    have printed := callFilter still (List.replicate 256 0)
    have done := setState (fun marked => still ((printed.marks j).mp marked)) idle
    exact (((touched.trans rendering).trans printed).trans done).trans (jobRetire _ _)

theorem flushLoop (fuel : Nat) (s : Store) : Honours s (flushLoop fuel s) := by
  induction fuel generalizing s with
  | zero => exact refl s
  | succ fuel inductionHypothesis =>
      have dequeued := linked (jobDequeue_frame s)
      rw [Encore.flushLoop]
      rcases result : jobDequeue s with ⟨t, found⟩
      rw [result] at dequeued
      cases found with
      | none => exact dequeued
      | some j => exact (dequeued.trans (jobWork t j)).trans (inductionHypothesis _)

theorem setActive (s : Store) (active : Option Block) : Honours s { s with gActive := active } :=
  quiet ⟨rfl, fun _ inTable => inTable, fun _ => Iff.rfl⟩ rfl

theorem jobStatus (s : Store) (verbose : Bool) (out : Bytes) : Honours s (jobStatus s verbose out).1 := by
  exact jobStatus_keeps (P := Honours s) verbose out (refl s) fun j _ => linked (LinkFrame.touchJob s j)

theorem appendTo (s : Store) (j : Block) (arg : Payload) (outcome : Realloc) :
    Honours s (appendTo s j arg outcome).1 := by
  have frame := appendTo_frame s j arg outcome
  have same := appendTo_field Job.state (fun _ _ _ _ => rfl) s j arg outcome
  refine quiet ⟨frame.next, fun k => (frame.inTable_iff k).mp, fun k => ?_⟩ (same j).2
  rw [(same k).1]

/-- A call with the job it has found, when it neither makes nor marks a
job. -/
theorem act {j : Block} {op : Op} (makesNone : forall id grant, op ≠ .dup id grant)
    (marksNone : forall id, op ≠ .cancel id)
    (unmarked : forall id out, op = .render id out -> (s.job j).state ≠ .cancelled) :
    Honours s (op.act s j) := by
  cases op with
  | render id out =>
      have printed := callFilter (unmarked id out rfl) out
      exact (printed.trans (linked (LinkFrame.touchJob _ j))).trans (jobRetire _ _)
  | append id arg outcome => exact appendTo s j arg outcome
  | recycle id =>
      refine quiet ⟨Heap.touch_next .., fun _ inTable => inTable, fun k => ?_⟩ rfl
      have same : (Op.act s j (.recycle id)).job k = s.job k :=
        Store.touchJob_job { s with docs := s.docs.releaseAt s.gScratch } j k
      rw [same]
  | cancel id => exact absurd rfl (marksNone id)
  | dup id grant => exact absurd rfl (makesNone id grant)
  | _ => exact refl s

theorem handled {op : Op} {id : Int} (handled : op.jobId = some id)
    (makesNone : forall id grant, op ≠ .dup id grant) (marksNone : forall id, op ≠ .cancel id)
    (unmarked : forall j id' out, op = .render id' out -> s.lookup id = some j ->
      (s.job j).state ≠ .cancelled) : Honours s (step s op) := by
  cases found : s.lookup id with
  | none =>
      rw [step_absent handled found]
      exact refl s
  | some j =>
      rw [step_found handled found]
      exact (setActive s (some j)).trans
        (act makesNone marksNone fun id' out same => unmarked j id' out same found)

theorem append (s : Store) (id : Int) (arg : Payload) (outcome : Realloc) :
    Honours s (step s (.append id arg outcome)) := by
  apply handled rfl
  · intro other grant impossible
    cases impossible
  · intro other impossible
    cases impossible
  · intro j other out impossible
    cases impossible

theorem recycle (s : Store) (id : Int) : Honours s (step s (.recycle id)) := by
  apply handled rfl
  · intro other grant impossible
    cases impossible
  · intro other impossible
    cases impossible
  · intro j other out impossible
    cases impossible

/-- A render that finds no marked job honours the marks. -/
theorem render (id : Int) (out : Bytes)
    (unmarked : forall j, s.lookup id = some j -> (s.job j).state ≠ .cancelled) :
    Honours s (step s (.render id out)) := by
  apply handled rfl
  · intro other grant impossible
    cases impossible
  · intro other impossible
    cases impossible
  · intro j other out' _ found
    exact unmarked j found

end Honours

/-- A render keeps the marks, whatever job it renders.  It may call a filter
that it should not, but it clears no mark. -/
theorem render_keepsMarks (s : Store) (j : Block) (id : Int) (out : Bytes) :
    KeepsMarks s (Op.act s j (.render id out)) := by
  have touched := Honours.linked (LinkFrame.touchJob (callFilter s j out).1 j)
  exact (callFilter_keepsMarks s j out).trans (touched.trans (Honours.jobRetire _ _)).toKeepsMarks

/-! ## The history -/

/-- The marked jobs of the table are the cancelled ones, and marks do not
fade.  So the state of a job tells whether it was ever cancelled. -/
structure Marked (history : Cancellations) : Prop where
  exact : exists recent, Exact history.1 recent
  kept : forall k, k ∈ history.2 -> k < history.1.jobs.next ∧ (history.1.job k).state = .cancelled
  only : forall k, history.1.InTable k -> (history.1.job k).state = .cancelled -> k ∈ history.2

namespace Marked

variable {s s' : Store} {cancelled : List Block}

theorem keep (marked : Marked (s, cancelled)) (exact : exists recent, Exact s' recent)
    (keeps : KeepsMarks s s') : Marked (s', cancelled) where
  exact := exact
  kept := fun k member => by
    rcases marked.kept k member with ⟨issued, state⟩
    exact ⟨keeps.next ▸ issued, (keeps.marks k).mpr state⟩
  only := fun k inTable state =>
    marked.only k (keeps.inTable k inTable) ((keeps.marks k).mp state)

/-- A new job is not marked, and was not cancelled before. -/
theorem enter (marked : Marked (s, cancelled)) {jobs : Heap Job} {docs metas : Heap Bytes} {id : Nat}
    {job : Job} {document : Bytes} (admission : Admission s jobs docs id job document)
    (slot : firstFree spoolMax s.slots = some id)
    (exact : exists recent, Exact (admitted s jobs docs metas id) recent) :
    Marked (admitted s jobs docs metas id, cancelled) := by
  have states : forall k, ((admitted s jobs docs metas id).job k).state = (jobs.cell k).state := by
    intro k
    have fields := congrArg Job.state (admitted_fields s jobs docs metas id k)
    exact fields
  have older : forall k, k < s.jobs.next ->
      ((admitted s jobs docs metas id).job k).state = (s.job k).state := fun k issued =>
    (states k).trans (congrArg Job.state (admission.jobs.older k (Nat.ne_of_lt issued)))
  have newer : ((admitted s jobs docs metas id).job s.jobs.next).state = .queued := by
    rw [states, admission.jobs.fresh, admission.state]
  refine ⟨exact, fun k member => ?_, fun k inTable state => ?_⟩
  · rcases marked.kept k member with ⟨issued, state⟩
    refine ⟨?_, (older k issued).trans state⟩
    rw [(admitted_frame s jobs docs metas id).1, admission.jobs.next]
    exact Nat.lt_succ_of_lt issued
  · rcases (admitted_inTable jobs docs metas slot k).mp inTable with old | new
    · rcases marked.exact with ⟨recent, before⟩
      rw [older k (before.issued k old)] at state
      exact marked.only k old state
    · rw [new, newer] at state
      cases state

/-- A job block that was released again leaves the marks as they are. -/
theorem withdrawn (marked : Marked (s, cancelled)) (value : Job)
    (exact : exists recent, Exact (withdrawn s value) recent) :
    Marked (withdrawn s value, cancelled) := by
  have older : forall k, k < s.jobs.next -> (Encore.withdrawn s value).job k = s.job k :=
    fun k issued => s.jobs.alloc_cell_of_ne value (Nat.ne_of_lt issued)
  refine ⟨exact, fun k member => ?_, fun k inTable state => ?_⟩
  · rcases marked.kept k member with ⟨issued, state⟩
    rw [older k issued]
    exact ⟨Nat.lt_succ_of_lt issued, state⟩
  · rcases marked.exact with ⟨recent, before⟩
    rw [older k (before.issued k inTable)] at state
    exact marked.only k inTable state

/-- A cancel marks its job and notes it, once more if it was cancelled
already. -/
theorem mark (marked : Marked (s, cancelled)) {j : Block} (inTable : s.InTable j)
    (exact : exists recent, Exact (s.modifyJob j fun job => { job with state := .cancelled }) recent) :
    Marked (s.modifyJob j fun job => { job with state := .cancelled }, cancelled ++ [j]) := by
  rcases marked.exact with ⟨recent, before⟩
  have sameNext : (s.modifyJob j fun job => { job with state := .cancelled }).jobs.next = s.jobs.next :=
    Heap.modify_next ..
  refine ⟨exact, fun k member => ?_, fun k stays state => ?_⟩
  · rw [sameNext]
    by_cases same : k = j
    · rw [same, Store.modifyJob_job_self]
      exact ⟨before.issued j inTable, rfl⟩
    · rw [Store.modifyJob_job_of_ne _ _ same]
      rcases List.mem_append.mp member with old | new
      · exact marked.kept k old
      · exact absurd (List.mem_singleton.mp new) same
  · by_cases same : k = j
    · exact List.mem_append.mpr (Or.inr (List.mem_singleton.mpr same))
    · rw [Store.modifyJob_job_of_ne _ _ same] at state
      exact List.mem_append.mpr (Or.inl (marked.only k stays state))

/-- A call that honours the marks spares the cancelled jobs. -/
theorem spares (marked : Marked (s, cancelled)) (honours : Honours s s') :
    exists new, s'.renders = s.renders ++ new ∧ forall r, r ∈ new -> r.job ∉ cancelled := by
  rcases honours.renders with ⟨new, grown, unmarked⟩
  exact ⟨new, grown, fun r member isCancelled => unmarked r member (marked.kept r.job isCancelled).2⟩

theorem jobSubmit (marked : Marked (s, cancelled)) (fmt : Int) (filter : Option Filter)
    (init : Payload) (grant : Nat -> Grant)
    (exact : exists recent, Exact (jobSubmit s fmt filter init grant).1 recent) :
    Marked ((jobSubmit s fmt filter init grant).1, cancelled) ∧
      (Encore.jobSubmit s fmt filter init grant).1.renders = s.renders := by
  rcases jobSubmit_cases s fmt filter init grant with same | ⟨value, same⟩ |
    ⟨id, jobs, docs, metas, job, document, slot, admission, _, _, _, same⟩ <;> rw [same] at exact ⊢
  · exact ⟨marked, rfl⟩
  · exact ⟨marked.withdrawn value exact, rfl⟩
  · exact ⟨marked.enter admission slot exact, (admitted_frame s jobs docs metas id).2.2.2.2.2⟩

theorem dupOf (marked : Marked (s, cancelled)) {j : Block} (inTable : s.InTable j) (grant : Nat -> Grant)
    (exact : exists recent, Exact (dupOf s j grant).1 recent) :
    Marked ((dupOf s j grant).1, cancelled) ∧ (Encore.dupOf s j grant).1.renders = s.renders := by
  rcases marked.exact with ⟨recent, before⟩
  have touched := marked.keep ⟨recent, before.keep (SameSkeleton.touchJob s j).sameTable⟩
    (Honours.linked (LinkFrame.touchJob s j)).toKeepsMarks
  rcases dupOf_cases (before.issued j inTable) grant with same | ⟨value, same⟩ |
    ⟨id, jobs, docs, job, document, slot, admission, _, _, _, same⟩ <;> rw [same] at exact ⊢
  · exact ⟨marked, rfl⟩
  · exact ⟨touched.withdrawn value exact, rfl⟩
  · exact ⟨touched.enter admission slot exact, (admitted_frame (s.touchJob j) jobs docs s.metas id).2.2.2.2.2⟩

end Marked

/-- A call that honours the marks, or invokes no filter, spares the cancelled
jobs. -/
theorem spares_of_quiet {history : Cancellations} {call : Call}
    (renders : (call.next history.1).renders = history.1.renders) : SparesCancelled history call :=
  ⟨[], by rw [renders, List.append_nil], fun _ impossible => absurd impossible List.not_mem_nil⟩

/-- What each call does to the marks, and when it spares the cancelled jobs:
exactly when it is no render of one. -/
structure Settles (history : Cancellations) (call : Call) : Prop where
  marked : Marked (noteCancel history call)
  spares : SparesCancelled history call ↔ RendersNoCancelled history call

namespace Settles

variable {s : Store} {cancelled : List Block}

theorem of_honours (marked : Marked (s, cancelled)) {call : Call} (honours : Honours s (call.next s))
    (marksNone : call.cancels s = none) (condition : RendersNoCancelled (s, cancelled) call) :
    Settles (s, cancelled) call where
  marked := by
    rcases marked.exact with ⟨recent, before⟩
    have after := before.next call
    have same : noteCancel (s, cancelled) call = (call.next s, cancelled) := by
      rw [noteCancel, marksNone, Option.toList_none, List.append_nil]
    rw [same]
    exact marked.keep ⟨_, after⟩ honours.toKeepsMarks
  spares := iff_of_true (marked.spares honours) condition

/-- A call that may make a job, but invokes no filter and marks none. -/
theorem of_quiet {call : Call} (kept : Marked (call.next s, cancelled) ∧ (call.next s).renders = s.renders)
    (marksNone : call.cancels s = none) (condition : RendersNoCancelled (s, cancelled) call) :
    Settles (s, cancelled) call where
  marked := by
    have same : noteCancel (s, cancelled) call = (call.next s, cancelled) := by
      rw [noteCancel, marksNone, Option.toList_none, List.append_nil]
    rw [same]
    exact kept.1
  spares := iff_of_true (spares_of_quiet kept.2) condition

theorem submit (marked : Marked (s, cancelled)) (fmt : Int) (filter : Option Filter) (init : Payload)
    (grant : Nat -> Grant) : Settles (s, cancelled) (.perform (.submit fmt filter init grant)) := by
  rcases marked.exact with ⟨recent, before⟩
  exact of_quiet (marked.jobSubmit fmt filter init grant ⟨_, before.jobSubmit fmt filter init grant⟩)
    rfl trivial

theorem dup (marked : Marked (s, cancelled)) (id : Int) (grant : Nat -> Grant) :
    Settles (s, cancelled) (.perform (.dup id grant)) := by
  rcases marked.exact with ⟨recent, before⟩
  cases found : s.lookup id with
  | none =>
      have same : Call.next s (.perform (.dup id grant)) = s := step_absent rfl found
      exact of_quiet (by rw [same]; exact ⟨marked, rfl⟩) rfl trivial
  | some j =>
      have inTable := before.lookup_inTable found
      have active := marked.keep ⟨_, before.activate inTable⟩ (Honours.setActive s (some j)).toKeepsMarks
      have same : Call.next s (.perform (.dup id grant)) = (dupOf { s with gActive := some j } j grant).1 :=
        step_found rfl found
      have made := active.dupOf inTable grant ⟨_, (before.activate inTable).dupOf inTable grant⟩
      exact of_quiet (by rw [same]; exact made) rfl trivial

theorem cancel (marked : Marked (s, cancelled)) (id : Int) :
    Settles (s, cancelled) (.perform (.cancel id)) := by
  rcases marked.exact with ⟨recent, before⟩
  have after := before.next (.perform (.cancel id))
  cases found : s.lookup id with
  | none =>
      have same : Call.next s (.perform (.cancel id)) = s := step_absent rfl found
      have none_marked : Call.cancels s (.perform (.cancel id)) = none := by
        simp only [Call.cancels, jobCancel, jobGet_absent found, ite_self]
      exact of_quiet (by rw [same]; exact ⟨marked, rfl⟩) none_marked trivial
  | some j =>
      have inTable := before.lookup_inTable found
      have active := marked.keep ⟨_, before.activate inTable⟩ (Honours.setActive s (some j)).toKeepsMarks
      have same : Call.next s (.perform (.cancel id)) =
          Store.modifyJob { s with gActive := some j } j fun job => { job with state := .cancelled } :=
        step_found rfl found
      have marks : Call.cancels s (.perform (.cancel id)) = some j := by
        simp only [Call.cancels, jobCancel, jobGet_found found, if_true]
      rw [same] at after
      constructor
      · rw [noteCancel]
        dsimp only
        rw [same, marks]
        exact active.mark inTable ⟨_, after⟩
      · exact iff_of_true (spares_of_quiet (by rw [same]; rfl)) trivial

/-- A render calls the filter of its job, cancelled or not, and so it spares
the cancelled jobs exactly when it finds none of them. -/
theorem render (marked : Marked (s, cancelled)) (id : Int) (out : Bytes) :
    Settles (s, cancelled) (.perform (.render id out)) := by
  rcases marked.exact with ⟨recent, before⟩
  by_cases condition : RendersNoCancelled (s, cancelled) (.perform (.render id out))
  · exact of_honours marked (Honours.render id out condition) rfl condition
  · have missed := condition
    simp only [RendersNoCancelled, not_forall, not_not] at missed
    rcases missed with ⟨j, found, state⟩
    have inTable := before.lookup_inTable found
    have active := (Honours.setActive s (some j)).toKeepsMarks
    have same : Call.next s (.perform (.render id out)) =
        Op.act { s with gActive := some j } j (.render id out) := step_found rfl found
    constructor
    · have after := before.next (.perform (.render id out))
      have keeps := active.trans (render_keepsMarks { s with gActive := some j } j id out)
      have noted : noteCancel (s, cancelled) (.perform (.render id out)) =
          (Call.next s (.perform (.render id out)), cancelled) :=
        Prod.ext rfl (List.append_nil cancelled)
      rw [noted, same]
      rw [same] at after
      exact marked.keep ⟨_, after⟩ keeps
    · refine iff_of_false (fun spared => ?_) condition
      rcases spared with ⟨new, grown, apart⟩
      have touched := Honours.linked
        (LinkFrame.touchJob (callFilter { s with gActive := some j } j out).1 j)
      rcases (touched.trans (Honours.jobRetire _ _)).renders with ⟨later, grownLater, _⟩
      have print : (callFilter { s with gActive := some j } j out).1.renders =
          s.renders ++ [⟨j, (s.job j).filter, s.document j⟩] := rfl
      have log : (Call.next s (.perform (.render id out))).renders =
          s.renders ++ ([⟨j, (s.job j).filter, s.document j⟩] ++ later) := by
        rw [same, ← List.append_assoc, ← print]
        exact grownLater
      have sameNew := List.append_cancel_left (grown.symm.trans log)
      have printed : (⟨j, (s.job j).filter, s.document j⟩ : Render) ∈ new := by
        rw [sameNew]
        exact List.mem_cons_self
      exact apart _ printed (marked.only j inTable state)

/-- Every call settles, in every state that a run of calls can reach. -/
theorem all (marked : Marked (s, cancelled)) (call : Call) : Settles (s, cancelled) call := by
  cases call with
  | get id =>
      have honours : Honours s (jobGet s id).1 := by
        cases found : s.lookup id with
        | none =>
            rw [jobGet_absent found]
            exact .refl s
        | some j =>
            rw [jobGet_found found]
            exact .setActive s (some j)
      exact of_honours marked honours rfl trivial
  | dequeue => exact of_honours marked (.linked (jobDequeue_frame s)) rfl trivial
  | work j => exact of_honours marked (.jobWork s j) rfl trivial
  | perform op =>
      cases op with
      | submit fmt filter init grant => exact submit marked fmt filter init grant
      | render id out => exact render marked id out
      | append id arg outcome => exact of_honours marked (.append s id arg outcome) rfl trivial
      | cancel id => exact cancel marked id
      | recycle id => exact of_honours marked (.recycle s id) rfl trivial
      | dup id grant => exact dup marked id grant
      | status verbose out => exact of_honours marked (.jobStatus s verbose out) rfl trivial
      | flush => exact of_honours marked (.flushLoop _ s) rfl trivial
      | retire id => exact of_honours marked (.jobRetire s id) rfl trivial

end Settles

theorem marked_spoolNew : Marked (spoolNew, []) where
  exact := ⟨none, exact_spoolNew⟩
  kept := fun _ impossible => absurd impossible List.not_mem_nil
  only := fun k inTable _ => absurd inTable (not_inTable_spoolNew k)

/-- No filter of a cancelled job is invoked exactly in the runs without a
render that finds a cancelled job.  This holds for each call after a run, and
so for all calls of a run. -/
theorem sparesCancelled_iff_rendersNoCancelled (calls : List Call) :
    (Guarded noteCancel SparesCancelled (spoolNew, []) calls ↔
      Guarded noteCancel RendersNoCancelled (spoolNew, []) calls) ∧
    forall call, SparesCancelled (run noteCancel (spoolNew, []) calls) call ↔
      RendersNoCancelled (run noteCancel (spoolNew, []) calls) call := by
  have keeps : forall history call, Marked history -> True -> Marked (noteCancel history call) :=
    fun _ call marked _ => (Settles.all marked call).marked
  constructor
  · exact guarded_iff_of_invariant (fun _ => True) keeps
      (fun _ call marked _ => (Settles.all marked call).spares) marked_spoolNew fun _ _ => trivial
  · intro call
    have every := throughout_of_invariant (fun _ => True) keeps marked_spoolNew
      fun (call : Call) (_ : call ∈ calls) => trivial
    exact (Settles.all (throughout_end every) call).spares

def cancelThenRender : List Call :=
  [.perform (.submit 0 (some .raster) helloPage generous), .perform (.cancel 0)]

theorem cancelThenRender_not_spared : ¬ Guarded noteCancel SparesCancelled (spoolNew, [])
    (cancelThenRender ++ [.perform (.render spoolRecent [])]) := by
  intro every
  rcases (guarded_append.mp every).2.1 with ⟨new, grown, spared⟩
  have log : (Call.next (run noteCancel (spoolNew, []) cancelThenRender).1
      (.perform (.render spoolRecent []))).renders = [⟨0, .raster, helloPage.bytes⟩] := by decide +kernel
  have before : (run noteCancel (spoolNew, []) cancelThenRender).1.renders = [] := by decide +kernel
  have cancelled : (run noteCancel (spoolNew, []) cancelThenRender).2 = [0] := by decide +kernel
  rw [log, before, List.nil_append] at grown
  rw [cancelled, ← grown] at spared
  exact spared _ List.mem_cons_self List.mem_cons_self

end Encore
end BugMuseum
