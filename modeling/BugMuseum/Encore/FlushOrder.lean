import BugMuseum.Encore.Documents
import BugMuseum.Encore.CancelledRender

namespace BugMuseum
namespace Encore

open Foundation

/-!
# A flush drains the queue in order

A history is kept here beside the store: the jobs that submits and duplications
have made, the oldest first.  The queue is the part of it that is still in the
table, so a flush calls the filters in that order, skipping the cancelled jobs, and
it leaves the store empty.

`Drains` says what the loop of `JobFlush` does without a bound on its turns: the
loop ends in a state exactly when there is a derivation.
-/

/-- The store with the jobs made so far, the oldest first.  A job stays in the
list when it has left the table. -/
abbrev Chronicle := Store × List Block

def chronicle (history : Chronicle) (op : Op) : Chronicle :=
  (step history.1 op, history.2 ++ (op.created history.1).toList)

/-- The search of `unlink_queue` reaches the end of the queue: more fuel
changes nothing.  So the bound in the model is none in the code. -/
def SearchEnds (s : Store) : Prop :=
  forall j fuel, s.jobs.next < fuel -> unlinkFrom j fuel none s.qhead s = unlinkQueue s j

/-- The loop of `JobFlush`, turn by turn.  There is a derivation exactly when
the loop of the code comes to an end. -/
inductive Drains : Store -> Store -> Prop where
  | done {s s' : Store} (empty : jobDequeue s = (s', none)) : Drains s s'
  | turn {s s' t : Store} {j : Block} (taken : jobDequeue s = (t, some j)) (search : SearchEnds t)
      (later : Drains (jobWork t j) s') : Drains s s'

/-- What the filter of a job is handed: the first `len` bytes of its
document. -/
def Store.print (s : Store) (j : Block) : Render :=
  ⟨j, (s.job j).filter, s.document j⟩

/-- A job of the table that is not cancelled, which is what a flush is to
print. -/
def Store.Printable (s : Store) (j : Block) : Prop :=
  s.InTable j ∧ (s.job j).state ≠ .cancelled

instance (s : Store) (j : Block) : Decidable (s.InTable j) :=
  inferInstanceAs (Decidable (Held spoolMax s.slots j))

instance (s : Store) (j : Block) : Decidable (s.Printable j) :=
  inferInstanceAs (Decidable (_ ∧ _))

/-- The store after a flush: no slot, no counter, no queue and no cache names
a job. -/
structure Emptied (s : Store) : Prop where
  slots : forall index, s.slots index = none
  count : s.count = 0
  qhead : s.qhead = none
  qtail : s.qtail = none
  gActive : s.gActive = none

/-- A flush ends, prints the jobs of the table that are not cancelled, each
once and in the order they were made, and empties the store. -/
structure FlushesInOrder (history : Chronicle) : Prop where
  recorded : forall j, history.1.InTable j -> j ∈ history.2
  distinct : history.2.Nodup
  terminates : Drains history.1 (jobFlush history.1).1
  printed : (jobFlush history.1).1.renders =
    history.1.renders ++ (history.2.filter fun j => history.1.Printable j).map history.1.print
  emptied : Emptied (jobFlush history.1).1

/-- The search follows the links to their end, so any fuel beyond the length
of the queue gives the same result. -/
theorem unlinkFrom_fuel (j : Block) {nodes : List Block} {fuel enough : Nat} {prev cursor : Option Block}
    {s : Store} (path : Path s.link cursor nodes none) (left : nodes.length < fuel)
    (right : nodes.length < enough) :
    unlinkFrom j fuel prev cursor s = unlinkFrom j enough prev cursor s := by
  induction nodes generalizing fuel enough prev cursor s with
  | nil =>
      have ended : cursor = none := path
      rw [ended]
      cases fuel with
      | zero => exact absurd left (Nat.not_lt_zero _)
      | succ fuel =>
          cases enough with
          | zero => exact absurd right (Nat.not_lt_zero _)
          | succ enough => rfl
  | cons c rest inductionHypothesis =>
      have here : cursor = some c := path.1
      rw [here]
      cases fuel with
      | zero => exact absurd left (Nat.not_lt_zero _)
      | succ fuel =>
          cases enough with
          | zero => exact absurd right (Nat.not_lt_zero _)
          | succ enough =>
              by_cases found : c = j
              · simp only [unlinkFrom, if_pos found]
              · simp only [unlinkFrom, if_neg found]
                have walked : Path (s.touchJob c).link (s.link c) rest none := by
                  rw [link_touchJob]
                  exact path.2
                exact inductionHypothesis walked (Nat.lt_of_succ_lt_succ left)
                  (Nat.lt_of_succ_lt_succ right)

namespace Consistent

variable {s : Store} {pumped : Option Block} {q : List Block}

theorem searchEnds (consistent : Consistent s pumped q) : SearchEnds s := by
  have short := consistent.queue_length_le
  intro j fuel enough
  exact unlinkFrom_fuel j consistent.queue.path (Nat.lt_of_le_of_lt short enough)
    (Nat.lt_succ_of_le short)

theorem drains (consistent : Consistent s none q) {fuel : Nat} (enough : q.length < fuel) :
    Drains s (Encore.flushLoop fuel s) := by
  induction q generalizing s fuel with
  | nil =>
      rw [consistent.flushLoop_nil]
      exact .done (jobDequeue_nil consistent.queue)
  | cons j rest inductionHypothesis =>
      cases fuel with
      | zero => exact absurd enough (Nat.not_lt_zero _)
      | succ fuel =>
          rw [consistent.flushLoop_cons]
          have taken : jobDequeue s = ((jobDequeue s).1, some j) :=
            Prod.ext rfl consistent.dequeue.1
          exact .turn taken consistent.dequeue.2.searchEnds
            (inductionHypothesis consistent.turn (Nat.lt_of_succ_lt_succ enough))

/-- Nothing is left when the queue is empty, because the queue and the table
name the same jobs. -/
theorem emptied (consistent : Consistent s none []) : Emptied s := by
  have absent : forall j, ¬ s.InTable j := by
    intro j inTable
    rcases (consistent.held j).mp inTable with impossible | impossible
    · cases impossible
    · cases impossible
  have slots : forall index, s.slots index = none := by
    intro index
    cases held : s.slots index with
    | none => rfl
    | some j => exact absurd ⟨index, (consistent.ids index j held).1, held⟩ (absent j)
  refine ⟨slots, ?_, consistent.queue.path, consistent.queue.tail, ?_⟩
  · rw [consistent.counted, show s.slots = fun _ => none from funext slots, occupied_none]
    rfl
  · cases active : s.gActive with
    | none => rfl
    | some j => exact absurd (consistent.active j active) (absent j)

end Consistent

/-! ## What the filters are handed -/

/-- The renders of the queued jobs, the cancelled ones left out. -/
def Store.prints (s : Store) (q : List Block) : List Render :=
  (q.filter fun j => (s.job j).state ≠ .cancelled).map s.print

/-- What a call leaves of the documents: nothing is written, and the log grows
by these renders. -/
structure Prints (s s' : Store) (renders : List Render) : Prop where
  sheets : forall j, (s'.job j).sheet = (s.job j).sheet
  cells : s'.docs.cell = s.docs.cell
  renders : s'.renders = s.renders ++ renders

namespace Prints

variable {s s' : Store}

theorem trans {first second third : Store} {before after : List Render} (left : Prints first second before)
    (right : Prints second third after) : Prints first third (before ++ after) where
  sheets := fun j => (right.sheets j).trans (left.sheets j)
  cells := right.cells.trans left.cells
  renders := by rw [right.renders, left.renders, List.append_assoc]

theorem linked (frame : LinkFrame s s') : Prints s s' [] where
  sheets := fun j => sheet_of_fields (frame.fields j)
  cells := by rw [frame.docs]
  renders := by rw [frame.renders, List.append_nil]

theorem setState (s : Store) (j : Block) (state : JobState) :
    Prints s (s.modifyJob j fun job => { job with state }) [] where
  sheets := fun k => Store.modifyJob_field Job.sheet rfl k
  cells := rfl
  renders := (List.append_nil _).symm

theorem vacated {j : Block} (vacates : Vacates s s' j) : Prints s s' [] where
  sheets := vacates.sheets
  cells := vacates.cells
  renders := by rw [vacates.renders, List.append_nil]

theorem callFilter (s : Store) (j : Block) (out : Bytes) :
    Prints s (callFilter s j out).1 [s.print j] where
  sheets := fun k => congrArg Job.sheet (s.touchJob_job j k)
  cells := callFilter_cell s j out
  renders := rfl

/-- The documents of the jobs are the same, so a later render is handed the
same. -/
theorem print_eq {renders : List Render} (prints : Prints s s' renders) (j : Block) :
    s'.print j = s.print j := by
  have sheet := prints.sheets j
  simp only [Job.sheet, Prod.mk.injEq] at sheet
  rcases sheet with ⟨data, len, _, filter⟩
  rw [Store.print, Store.print, Store.document, Store.document, data, len, filter, prints.cells]

end Prints

/-- The pump prints the job unless it is cancelled, and touches no other
document. -/
theorem jobWork_prints {s : Store} {j : Block} {q : List Block} (consistent : Consistent s (some j) q) :
    Prints s (jobWork s j) (s.prints [j]) := by
  have inTable : s.InTable j := (consistent.held j).mpr (Or.inl rfl)
  have touched := Prints.linked (LinkFrame.touchJob s j)
  have table := consistent.skeleton (.touchJob s j)
  by_cases cancelled : (s.job j).state = .cancelled
  · have nothing : s.prints [j] = [] := by simp [Store.prints, cancelled]
    rw [nothing, jobWork]
    simp only [Store.touchJob_job, if_pos cancelled]
    have discarded := Vacates.discard table inTable
    rw [Store.touchJob_job] at discarded
    exact touched.trans (.vacated discarded)
  · have one : s.prints [j] = [s.print j] := by simp [Store.prints, cancelled]
    have same := SameSkeleton.renderJob (s.touchJob j) j
    have rendering := touched.trans (.setState _ j .rendering)
    have printed := rendering.trans (.callFilter _ j (List.replicate 256 0))
    have done := printed.trans (.setState _ j .done)
    rcases (table.skeleton same).jobRetire_named ((same.inTable_iff j).mpr inTable) with
        ⟨index, holds, result⟩
    rw [same.ids, Store.touchJob_job] at result
    have retired := done.trans (.vacated (.retireHeld (table.skeleton same) holds))
    rw [rendering.print_eq] at retired
    rw [one, jobWork]
    simp only [Store.touchJob_job, if_neg cancelled, result]
    exact retired

theorem prints_append (s : Store) (before after : List Block) :
    s.prints (before ++ after) = s.prints before ++ s.prints after := by
  rw [Store.prints, List.filter_append, List.map_append]
  rfl

/-- The renders of the jobs that a change leaves as they are do not change. -/
theorem Prints.prints_eq {s s' : Store} {renders : List Render} (prints : Prints s s' renders)
    {q : List Block} (states : forall j, j ∈ q -> (s'.job j).state = (s.job j).state) :
    s'.prints q = s.prints q := by
  have sameQueue : (q.filter fun j => (s'.job j).state ≠ .cancelled) =
      q.filter fun j => (s.job j).state ≠ .cancelled :=
    List.filter_congr fun j member => by rw [states j member]
  rw [Store.prints, Store.prints, sameQueue]
  exact List.map_congr_left fun j _ => prints.print_eq j

/-- One turn of the pump prints the head and leaves the others as they were.
It is the step of the induction over the queue. -/
theorem turn_prints {s : Store} {j : Block} {rest : List Block}
    (consistent : Consistent s none (j :: rest)) :
    (jobWork (jobDequeue s).1 j).renders ++ (jobWork (jobDequeue s).1 j).prints rest =
      s.renders ++ s.prints (j :: rest) := by
  have dequeued := Prints.linked (jobDequeue_frame s)
  have turned := dequeued.trans (jobWork_prints consistent.dequeue.2)
  have head : (jobDequeue s).1.prints [j] = s.prints [j] :=
    dequeued.prints_eq fun k _ => (jobDequeue_frame s).state k
  rw [turned.prints_eq fun k member => dequeue_state consistent member, turned.renders, head,
    List.nil_append, List.append_assoc, ← prints_append, List.singleton_append]

/-- A flush prints the queue, behind what was printed before. -/
theorem jobFlush_renders {s : Store} {q : List Block} (consistent : Consistent s none q) :
    (jobFlush s).1.renders = s.renders ++ s.prints q := by
  have flushed := (consistent.flushed (fun t rest => t.renders ++ t.prints rest = s.renders ++ s.prints q)
    (fun t j rest table kept => (turn_prints table).trans kept) rfl).2
  rwa [show (jobFlush s).1.prints [] = [] from rfl, List.append_nil] at flushed

/-- The queue is what the table still holds of the jobs made so far, in the
same order.  So to drain the queue is to go by age. -/
structure Chronicled (history : Chronicle) : Prop where
  queue : exists q, Consistent history.1 none q ∧ q.Sublist history.2
  distinct : history.2.Nodup
  issued : forall j, j ∈ history.2 -> j < history.1.jobs.next

/-- Blocks are numbered in the order in which they are made, so a new job is
none of the chronicle. -/
theorem created_next {s : Store} {q : List Block} (consistent : Consistent s none q) {op : Op} {j : Block}
    (new : op.created s = some j) : j = s.jobs.next := by
  cases op with
  | submit fmt filter init grant => exact entered_jobSubmit new
  | dup id grant =>
      rw [Op.created, jobDup] at new
      cases found : s.lookup id with
      | none =>
          rw [jobGet_absent found, entered_refused rfl] at new
          cases new
      | some k =>
          rw [jobGet_found found] at new
          exact entered_dupOf (s := { s with gActive := some k })
            (consistent.issued k (consistent.lookup_inTable found)) new
  | _ => cases new

theorem entered_inTable {result : Store × Int} {j : Block} (new : entered result = some j) :
    result.1.InTable j := by
  rw [entered] at new
  split at new
  · cases new
  · exact Store.slotAt_inTable new

theorem created_inTable {s : Store} {op : Op} {j : Block} (new : op.created s = some j) :
    (step s op).InTable j := by
  cases op with
  | submit fmt filter init grant => exact entered_inTable new
  | dup id grant => exact entered_inTable new
  | _ => cases new

theorem admitted_next_le {s : Store} {jobs : Heap Job} {docs : Heap Bytes} {id : Nat} {job : Job}
    {document : Bytes} (admission : Admission s jobs docs id job document) (metas : Heap Bytes) :
    s.jobs.next ≤ (admitted s jobs docs metas id).jobs.next := by
  rw [(admitted_frame s jobs docs metas id).1, admission.jobs.next]
  exact Nat.le_succ _

theorem dupOf_next_le {s : Store} {j : Block} (issued : j < s.jobs.next) (grant : Nat -> Grant) :
    s.jobs.next ≤ (dupOf s j grant).1.jobs.next := by
  have touched : (s.touchJob j).jobs.next = s.jobs.next := Heap.touch_next ..
  rcases dupOf_cases issued grant with same | ⟨value, same⟩ |
    ⟨id, jobs, docs, job, document, slot, admission, _, _, _, same⟩ <;> rw [same]
  · rw [← touched]
    exact Nat.le_succ _
  · rw [← touched]
    exact admitted_next_le admission s.metas

theorem step_next_le {s : Store} {q : List Block} (consistent : Consistent s none q) (op : Op) :
    s.jobs.next ≤ (step s op).jobs.next := by
  cases op with
  | submit fmt filter init grant =>
      simp only [step, perform]
      rcases jobSubmit_cases s fmt filter init grant with same | ⟨value, same⟩ |
        ⟨id, jobs, docs, metas, job, document, slot, admission, _, _, _, same⟩ <;> rw [same]
      · exact Nat.le_succ _
      · exact admitted_next_le admission metas
  | dup id grant =>
      cases found : s.lookup id with
      | none => rw [step_absent rfl found]
      | some j =>
          rw [step_found rfl found]
          exact dupOf_next_le (s := { s with gActive := some j })
            (consistent.issued j (consistent.lookup_inTable found)) grant
  | render id out =>
      cases found : s.lookup id with
      | none => rw [step_absent rfl found]
      | some j =>
          rw [step_found rfl found]
          exact Nat.le_of_eq (render_keepsMarks { s with gActive := some j } j id out).next.symm
  | cancel id =>
      cases found : s.lookup id with
      | none => rw [step_absent rfl found]
      | some j =>
          rw [step_found rfl found]
          exact Nat.le_of_eq (Heap.modify_next ..).symm
  | append id arg outcome => exact Nat.le_of_eq (Honours.append s id arg outcome).next.symm
  | recycle id => exact Nat.le_of_eq (Honours.recycle s id).next.symm
  | status verbose out => exact Nat.le_of_eq (Honours.jobStatus s verbose out).next.symm
  | flush => exact Nat.le_of_eq (Honours.flushLoop _ s).next.symm
  | retire id => exact Nat.le_of_eq (Honours.jobRetire s id).next.symm

namespace Chronicled

variable {history : Chronicle}

theorem chronicle (kept : Chronicled history) (op : Op) : Chronicled (chronicle history op) := by
  rcases kept.queue with ⟨q, consistent, sublist⟩
  rcases consistent.step_queue op with ⟨q', stepped, behind⟩
  have grows := step_next_le consistent op
  refine ⟨⟨q', stepped, behind.trans (sublist.append (List.Sublist.refl _))⟩, ?_, fun j member => ?_⟩
  · apply List.nodup_append.mpr
    refine ⟨kept.distinct, ?_, fun j old k new same => ?_⟩
    · cases op.created history.1 with
      | none => exact List.nodup_nil
      | some j => exact List.nodup_singleton j
    · have fresh := created_next consistent (Option.mem_toList.mp new)
      exact Nat.ne_of_lt (kept.issued j old) (same.trans fresh)
  · rcases List.mem_append.mp member with old | new
    · exact Nat.lt_of_lt_of_le (kept.issued j old) grows
    · exact stepped.issued j (created_inTable (Option.mem_toList.mp new))

theorem flushesInOrder (kept : Chronicled history) : FlushesInOrder history := by
  rcases kept.queue with ⟨q, consistent, sublist⟩
  have queued : forall j, history.1.InTable j ↔ j ∈ q := by
    intro j
    rw [consistent.held j]
    exact or_iff_right fun impossible => by cases impossible
  have order : q = history.2.filter fun j => history.1.InTable j := by
    apply eq_filter_of_sublist sublist kept.distinct
    intro j _
    rw [decide_eq_true_eq, queued j]
  refine ⟨fun j inTable => ?_, kept.distinct, ?_, ?_, consistent.jobFlush.emptied⟩
  · exact sublist.subset ((queued j).mp inTable)
  · exact consistent.drains (Nat.lt_succ_of_le consistent.queue_length_le)
  · have printed : (q.filter fun j => (history.1.job j).state ≠ .cancelled) =
        history.2.filter fun j => history.1.Printable j := by
      rw [order, List.filter_filter]
      apply List.filter_congr
      intro j _
      rw [← Bool.decide_and]
      exact decide_eq_decide.mpr and_comm
    rw [jobFlush_renders consistent, Store.prints, printed]

end Chronicled

theorem chronicled_spoolNew : Chronicled (spoolNew, []) where
  queue := ⟨[], consistent_spoolNew, List.Sublist.refl []⟩
  distinct := List.nodup_nil
  issued := fun _ impossible => absurd impossible List.not_mem_nil

/-- In every state that the calls can reach, a flush drains the queue in the
order in which the jobs were made and empties the store: it comes to an end,
handles each job exactly once, and leaves no slot, no counter and no pointer
behind. -/
theorem flushesInOrder_throughout (ops : List Op) :
    Throughout chronicle FlushesInOrder (spoolNew, []) ops := by
  have kept : Throughout chronicle Chronicled (spoolNew, []) ops :=
    throughout_of_invariant (fun _ => True) (fun _ op kept _ => kept.chronicle op) chronicled_spoolNew
      fun _ _ => trivial
  exact kept.mono fun _ => Chronicled.flushesInOrder

end Encore
end BugMuseum
