import BugMuseum.Encore.SpoolCore
import BugMuseum.Foundation.LinkedQueue

namespace BugMuseum
namespace Encore

open Foundation

/-!
# The ready queue

The queue is a head pointer, a tail pointer and the `qnext` links inside the
jobs.  `ReadyQueue s q` reads them as the list `q`.  The three helpers of the
source act on that list as one expects: `enqueue` appends, `JobDequeue` takes
the head and `unlink_queue` erases a job wherever it stands, or changes nothing
when the job is not queued.

`LinkFrame` is the other half of each specification: no helper changes
anything but the links and the two end pointers.
-/

structure ReadyQueue (s : Store) (q : List Block) : Prop where
  path : Path s.link s.qhead q none
  tail : s.qtail = q.getLast?
  nodup : q.Nodup

/-- Two stores that differ in the queue only: in the links of the jobs and in
the two end pointers. -/
structure LinkFrame (s s' : Store) : Prop where
  next : s'.jobs.next = s.jobs.next
  releases : s'.jobs.releases = s.jobs.releases
  fields : forall j, { s'.job j with qnext := none } = { s.job j with qnext := none }
  docs : s'.docs = s.docs
  metas : s'.metas = s.metas
  slots : s'.slots = s.slots
  count : s'.count = s.count
  gActive : s'.gActive = s.gActive
  gScratch : s'.gScratch = s.gScratch
  renders : s'.renders = s.renders

namespace LinkFrame

theorem refl (s : Store) : LinkFrame s s :=
  ⟨rfl, rfl, fun _ => rfl, rfl, rfl, rfl, rfl, rfl, rfl, rfl⟩

theorem trans {first second third : Store} (left : LinkFrame first second)
    (right : LinkFrame second third) : LinkFrame first third where
  next := right.next.trans left.next
  releases := right.releases.trans left.releases
  fields := fun j => (right.fields j).trans (left.fields j)
  docs := right.docs.trans left.docs
  metas := right.metas.trans left.metas
  slots := right.slots.trans left.slots
  count := right.count.trans left.count
  gActive := right.gActive.trans left.gActive
  gScratch := right.gScratch.trans left.gScratch
  renders := right.renders.trans left.renders

theorem touchJob (s : Store) (j : Block) : LinkFrame s (s.touchJob j) := by
  constructor <;> simp [Store.touchJob, Store.job]

theorem relink (s : Store) (j : Block) (target : Option Block) :
    LinkFrame s (s.modifyJob j fun job => { job with qnext := target }) where
  next := Heap.modify_next ..
  releases := Heap.modify_releases ..
  fields := fun other => by
    by_cases same : other = j
    · subst other
      rw [Store.modifyJob_job_self]
    · rw [Store.modifyJob_job_of_ne s _ same]
  docs := rfl
  metas := rfl
  slots := rfl
  count := rfl
  gActive := rfl
  gScratch := rfl
  renders := rfl

variable {s s' : Store}

theorem ends (frame : LinkFrame s s') (head tail : Option Block) :
    LinkFrame s { s' with qhead := head, qtail := tail } :=
  ⟨frame.next, frame.releases, frame.fields, frame.docs, frame.metas, frame.slots, frame.count,
    frame.gActive, frame.gScratch, frame.renders⟩

theorem id (frame : LinkFrame s s') (j : Block) : (s'.job j).id = (s.job j).id := by
  simpa using congrArg Job.id (frame.fields j)

theorem state (frame : LinkFrame s s') (j : Block) : (s'.job j).state = (s.job j).state := by
  simpa using congrArg Job.state (frame.fields j)

theorem filter (frame : LinkFrame s s') (j : Block) : (s'.job j).filter = (s.job j).filter := by
  simpa using congrArg Job.filter (frame.fields j)

theorem data (frame : LinkFrame s s') (j : Block) : (s'.job j).data = (s.job j).data := by
  simpa using congrArg Job.data (frame.fields j)

theorem metaBuf (frame : LinkFrame s s') (j : Block) : (s'.job j).metaBuf = (s.job j).metaBuf := by
  simpa using congrArg Job.metaBuf (frame.fields j)

theorem live_iff (frame : LinkFrame s s') (j : Block) : s'.jobs.Live j ↔ s.jobs.Live j := by
  simp only [Heap.Live, frame.next, frame.releases]

end LinkFrame

@[simp] theorem link_touchJob (s : Store) (j : Block) : (s.touchJob j).link = s.link := by
  funext other
  simp [Store.link]

theorem link_relink_self (s : Store) (j : Block) (target : Option Block) :
    (s.modifyJob j fun job => { job with qnext := target }).link j = target := by
  simp [Store.link]

theorem link_relink_of_ne (s : Store) {j other : Block} (target : Option Block)
    (different : other ≠ j) :
    (s.modifyJob j fun job => { job with qnext := target }).link other = s.link other := by
  rw [Store.link, Store.modifyJob_job_of_ne s _ different, Store.link]

theorem ReadyQueue.touchJob {s : Store} {q : List Block} (queue : ReadyQueue s q) (j : Block) :
    ReadyQueue (s.touchJob j) q where
  path := (link_touchJob s j).symm ▸ queue.path
  tail := queue.tail
  nodup := queue.nodup

theorem enqueue_frame (s : Store) (j : Block) : LinkFrame s (enqueue s j) := by
  unfold enqueue
  cases last : s.qtail with
  | none =>
      simp only [Store.modifyJob_qtail, last]
      exact (LinkFrame.relink s j none).ends _ _
  | some tail =>
      simp only [Store.modifyJob_qtail, last]
      exact ((LinkFrame.relink s j none).trans (LinkFrame.relink _ tail (some j))).ends _ _

theorem enqueue_queue {s : Store} {q : List Block} (queue : ReadyQueue s q) {j : Block}
    (absent : j ∉ q) : ReadyQueue (enqueue s j) (q ++ [j]) := by
  have nodup : (q ++ [j]).Nodup :=
    List.nodup_append.mpr ⟨queue.nodup, List.nodup_singleton j, fun a inQueue b fresh same =>
      absent (by rwa [same, List.mem_singleton.mp fresh] at inQueue)⟩
  unfold enqueue
  rcases List.eq_nil_or_concat q with empty | ⟨before, last, split⟩
  · subst empty
    have noTail : s.qtail = none := queue.tail
    simp only [Store.modifyJob_qtail, noTail]
    exact ⟨⟨rfl, link_relink_self s j none⟩, rfl, nodup⟩
  · rw [List.concat_eq_append] at split
    subst split
    have tail : s.qtail = some last := by rw [queue.tail, List.getLast?_concat]
    have lastApart : last ∉ before := fun member => by
      have apart := (List.nodup_append.mp queue.nodup).2.2 last member last List.mem_cons_self
      exact apart rfl
    have fresh : last ≠ j := fun same => absent (same ▸ List.mem_append_right before List.mem_cons_self)
    simp only [Store.modifyJob_qtail, tail]
    refine ⟨?_, (List.getLast?_concat ..).symm, nodup⟩
    refine Path.push queue.path (fun node member => ?_) (link_relink_self ..) ?_
    · have notLast : node ≠ last := fun same => lastApart (same ▸ member)
      have notFresh : node ≠ j := fun same => absent (same ▸ List.mem_append_left [last] member)
      exact (link_relink_of_ne _ _ notLast).trans (link_relink_of_ne s _ notFresh)
    · exact (link_relink_of_ne _ _ (Ne.symm fresh)).trans (link_relink_self s j none)

theorem jobDequeue_nil {s : Store} (queue : ReadyQueue s []) : jobDequeue s = (s, none) := by
  have empty : s.qhead = none := queue.path
  simp only [jobDequeue, empty]

theorem jobDequeue_frame (s : Store) : LinkFrame s (jobDequeue s).1 := by
  unfold jobDequeue
  cases head : s.qhead with
  | none => exact .refl s
  | some j =>
      have touched := LinkFrame.touchJob s j
      by_cases last : s.link j = none
      · simp only [last, if_true]
        exact (touched.ends none none).trans (LinkFrame.relink _ j none)
      · simp only [if_neg last]
        exact (touched.ends (s.link j) s.qtail).trans (LinkFrame.relink _ j none)

theorem jobDequeue_cons {s : Store} {j : Block} {rest : List Block}
    (queue : ReadyQueue s (j :: rest)) :
    (jobDequeue s).2 = some j ∧ ReadyQueue (jobDequeue s).1 rest := by
  have head : s.qhead = some j := queue.path.1
  have parts := List.nodup_cons.mp queue.nodup
  have agree : forall node, node ∈ rest ->
      ((s.touchJob j).modifyJob j fun job => { job with qnext := none }).link node = s.link node := by
    intro node member
    have different : node ≠ j := fun same => parts.1 (same ▸ member)
    rw [link_relink_of_ne _ none different, link_touchJob]
  have walked := Path.congr queue.path.2 agree
  unfold jobDequeue
  simp only [head]
  refine ⟨trivial, ?_⟩
  cases rest with
  | nil =>
      have last : s.link j = none := queue.path.2
      simp only [last, if_true]
      exact ⟨rfl, rfl, parts.2⟩
  | cons next later =>
      have more : s.link j = some next := queue.path.2.1
      simp only [more, reduceCtorEq, if_false]
      refine ⟨?_, ?_, parts.2⟩
      · rw [more] at walked
        exact walked
      · exact queue.tail.trans (List.getLast?_cons_cons ..)

theorem unlinkFrom_frame (j : Block) (fuel : Nat) (prev cursor : Option Block) (s : Store) :
    LinkFrame s (unlinkFrom j fuel prev cursor s) := by
  induction fuel generalizing prev cursor s with
  | zero => exact .refl s
  | succ fuel inductionHypothesis =>
      cases cursor with
      | none => exact .refl s
      | some c =>
          have touched := LinkFrame.touchJob s c
          by_cases found : c = j
          · simp only [unlinkFrom, if_pos found]
            have ends : forall s', LinkFrame s s' ->
                LinkFrame s (if s'.qtail = some c then { s' with qtail := prev } else s') := by
              intro s' frame
              split
              · exact frame.ends s'.qhead prev
              · exact frame
            apply ends
            cases prev with
            | none => exact touched.ends (s.link c) s.qtail
            | some previous => exact touched.trans (LinkFrame.relink _ previous _)
          · simp only [unlinkFrom, if_neg found]
            exact touched.trans (inductionHypothesis _ _ _)

/-- The job is found, and the one before it, if any, now points behind it.
The tail moves back if it was the last one. -/
theorem unlinkFrom_found {j : Block} (fuel : Nat) {before rest : List Block} {s : Store}
    (queue : ReadyQueue s (before ++ j :: rest)) :
    ReadyQueue (unlinkFrom j (fuel + 1) before.getLast? (some j) s) (before ++ rest) := by
  have apart := List.nodup_append.mp queue.nodup
  have nodup : (before ++ rest).Nodup :=
    queue.nodup.sublist (List.Sublist.append_left (List.sublist_cons_self j rest) before)
  have tail : (if s.qtail = some j then before.getLast? else s.qtail) = (before ++ rest).getLast? := by
    rw [queue.tail]
    exact getLast?_bypass (List.nodup_cons.mp apart.2.1).1
  -- the tail moves back exactly when nothing follows the job
  have ends : forall s' : Store, s'.qtail = s.qtail ->
      Path s'.link s'.qhead (before ++ rest) none ->
      ReadyQueue (if s'.qtail = some j then { s' with qtail := before.getLast? } else s')
        (before ++ rest) := by
    intro s' sameTail walked
    rw [← sameTail] at tail
    by_cases wasTail : s'.qtail = some j
    · rw [if_pos wasTail] at tail ⊢
      exact ⟨walked, tail, nodup⟩
    · rw [if_neg wasTail] at tail ⊢
      exact ⟨walked, tail, nodup⟩
  simp only [unlinkFrom, if_true]
  apply ends
  · cases before.getLast? <;> rfl
  · rcases List.eq_nil_or_concat before with empty | ⟨earlier, previous, split⟩
    · subst empty
      change Path (s.touchJob j).link (s.link j) rest none
      rw [link_touchJob]
      exact queue.path.2
    · rw [List.concat_eq_append] at split
      subst split
      rw [List.getLast?_concat]
      have previousApart : previous ∉ earlier := fun member =>
        (List.nodup_append.mp apart.1).2.2 previous member previous List.mem_cons_self rfl
      have previousRest : previous ∉ rest := fun member =>
        apart.2.2 previous (List.mem_append_right earlier List.mem_cons_self) previous
          (List.mem_cons_of_mem j member) rfl
      have walked : Path s.link s.qhead (earlier ++ [previous] ++ j :: rest) none := queue.path
      refine walked.bypass (fun other member => ?_) (fun other member => ?_) (link_relink_self ..)
      · have different : other ≠ previous := fun same => previousApart (same ▸ member)
        rw [link_relink_of_ne _ _ different, link_touchJob]
      · have different : other ≠ previous := fun same => previousRest (same ▸ member)
        rw [link_relink_of_ne _ _ different, link_touchJob]

/-- The invariant of the loop: `before` has been passed and does not contain
the job, `after` is still ahead. -/
theorem unlinkFrom_queue {j : Block} {fuel : Nat} {before after : List Block} {s : Store}
    (queue : ReadyQueue s (before ++ after)) (absent : j ∉ before)
    (enough : after.length ≤ fuel) :
    ReadyQueue (unlinkFrom j fuel before.getLast? after.head? s) ((before ++ after).erase j) := by
  induction fuel generalizing before after s with
  | zero =>
      have empty : after = [] := List.eq_nil_of_length_eq_zero (Nat.le_zero.mp enough)
      subst empty
      rw [List.append_nil] at queue ⊢
      rwa [List.erase_of_not_mem absent]
  | succ fuel inductionHypothesis =>
      cases after with
      | nil =>
          rw [List.append_nil] at queue ⊢
          rwa [List.erase_of_not_mem absent]
      | cons c rest =>
          by_cases found : c = j
          · subst found
            rw [erase_append_cons absent]
            exact unlinkFrom_found fuel queue
          · rcases path_append.mp queue.path with ⟨_, _, _, back⟩
            have cursor : s.link c = rest.head? := path_head back
            have advanced : (before ++ [c]) ++ rest = before ++ c :: rest := by simp
            simp only [List.head?_cons, unlinkFrom, if_neg found, cursor]
            have touched : ReadyQueue (s.touchJob c) ((before ++ [c]) ++ rest) :=
              advanced.symm ▸ queue.touchJob c
            have result := inductionHypothesis touched (by simp [absent, Ne.symm found])
              (Nat.le_of_succ_le_succ enough)
            rwa [List.getLast?_concat, advanced] at result

/-- `unlink_queue` takes a job out of the queue and leaves the others in
order.  A job that is not queued is not found, and nothing changes. -/
theorem unlinkQueue_queue {s : Store} {q : List Block} (queue : ReadyQueue s q)
    (issued : forall k, k ∈ q -> k < s.jobs.next) (j : Block) :
    ReadyQueue (unlinkQueue s j) (q.erase j) := by
  have enough : q.length ≤ s.jobs.next + 1 :=
    Nat.le_succ_of_le (length_le_of_bounded queue.nodup issued)
  have split : ReadyQueue s ([] ++ q) := queue
  have result := unlinkFrom_queue split (List.not_mem_nil (a := j)) enough
  rwa [← path_head queue.path] at result

theorem unlinkQueue_frame (s : Store) (j : Block) : LinkFrame s (unlinkQueue s j) :=
  unlinkFrom_frame j _ none s.qhead s

/-! ## The helpers access queued jobs only -/

theorem enqueue_faults {s : Store} {j : Block} (live : s.jobs.Live j)
    (liveTail : forall tail, s.qtail = some tail -> s.jobs.Live tail) :
    (enqueue s j).jobs.faults = s.jobs.faults := by
  unfold enqueue
  cases last : s.qtail with
  | none =>
      simp only [Store.modifyJob_qtail, last]
      exact Store.modifyJob_faults live _
  | some tail =>
      simp only [Store.modifyJob_qtail, last]
      have relinked : (s.modifyJob j fun job => { job with qnext := none }).jobs.Live tail :=
        (s.live_modifyJob_iff j tail _).mpr (liveTail tail last)
      exact (Store.modifyJob_faults relinked _).trans (Store.modifyJob_faults live _)

theorem jobDequeue_faults {s : Store}
    (liveHead : forall head, s.qhead = some head -> s.jobs.Live head) :
    (jobDequeue s).1.jobs.faults = s.jobs.faults := by
  unfold jobDequeue
  cases head : s.qhead with
  | none => rfl
  | some j =>
      have live := liveHead j head
      simp only [Store.touchJob_of_live live]
      by_cases last : s.link j = none
      · simp only [last, if_true]
        exact Store.modifyJob_faults (s := { s with qhead := none, qtail := none }) live _
      · simp only [if_neg last]
        exact Store.modifyJob_faults (s := { s with qhead := s.link j }) live _

theorem unlinkFrom_faults {j : Block} {fuel : Nat} {prev cursor : Option Block}
    {after : List Block} {s : Store} (walked : Path s.link cursor after none)
    (livePrev : forall previous, prev = some previous -> s.jobs.Live previous)
    (live : forall k, k ∈ after -> s.jobs.Live k) :
    (unlinkFrom j fuel prev cursor s).jobs.faults = s.jobs.faults := by
  induction fuel generalizing prev cursor after with
  | zero => rfl
  | succ fuel inductionHypothesis =>
      cases after with
      | nil =>
          have ended : cursor = none := walked
          subst ended
          rfl
      | cons c rest =>
          rcases walked with ⟨reached, back⟩
          subst reached
          have liveNow := live c List.mem_cons_self
          simp only [unlinkFrom, Store.touchJob_of_live liveNow]
          by_cases found : c = j
          · simp only [if_pos found]
            have bypassed : forall s' : Store, s'.jobs.faults = s.jobs.faults ->
                (if s'.qtail = some c then { s' with qtail := prev } else s').jobs.faults =
                  s.jobs.faults := by
              intro s' same
              split <;> exact same
            apply bypassed
            cases prev with
            | none => rfl
            | some previous => exact Store.modifyJob_faults (livePrev previous rfl) _
          · simp only [if_neg found]
            refine inductionHypothesis back (fun previous same => ?_) fun k member => ?_
            · exact Option.some.inj same ▸ liveNow
            · exact live k (List.mem_cons_of_mem c member)

theorem unlinkQueue_faults {s : Store} {q : List Block} (queue : ReadyQueue s q)
    (live : forall k, k ∈ q -> s.jobs.Live k) (j : Block) :
    (unlinkQueue s j).jobs.faults = s.jobs.faults :=
  unlinkFrom_faults queue.path (fun _ impossible => nomatch impossible) live

end Encore
end BugMuseum
