import BugMuseum.Encore.PrintService
import BugMuseum.Encore.Threads

namespace BugMuseum
namespace Encore

open Foundation

/-!
# The server as a spooler

The handlers of `spoold` answer what the spooler answers, and so do its threads: for any
number of them, any interleaving of their steps and any failing allocations, each client
is told what it would be told if the spooler served the requests one after the other.
-/

/-- A preview in a buffer of 256 bytes is read back whole.  The documents are
short enough for their sizes to fit. -/
theorem Filter.preview_answer (filter : Filter) {document out : Bytes} (short : document.length ≤ encMaxDoc)
    (size : out.length = 256) :
    0 ≤ (filter.preview document out).2 ∧
      (filter.preview document out).1.take (filter.preview document out).2.toNat = filter.answer document := by
  have printed : forall text : Bytes, text.length < 256 ->
      (snprintf out 0 text).1.take (max (snprintf out 0 text).2 0).toNat = text := by
    intro text fits
    rw [snprintf_whole (size ▸ fits), Int.max_eq_left (Int.natCast_nonneg _), Int.toNat_natCast, List.take_left]
  have length : (decimal document.length).length ≤ 7 := by
    rw [decimal_length_le_iff (by decide)]
    exact short.trans_lt (by decide)
  cases filter with
  | raster =>
      refine ⟨le_max_right _ _, printed _ ?_⟩
      have digits : (decimal (ink document)).length ≤ 10 := by
        rw [decimal_length_le_iff (by decide)]
        exact (wrappedSum_lt document).trans (by decide)
      have words : (ascii "raster: ").length = 8 ∧ (ascii " cells, ink=").length = 12 := by decide
      simp only [List.length_append]
      omega
  | text =>
      have taken : document.take (min document.length 255) = document.take 255 := by
        rw [List.take_eq_take_iff]
        omega
      have cut : (document.take 255).length = min document.length 255 := by
        rw [List.length_take, Nat.min_comm]
      have fits : (document.take 255 ++ [0]).length ≤ out.length := by
        rw [List.length_append, cut, List.length_singleton]
        omega
      simp only [Filter.preview, Filter.answer, size, if_neg (by decide : ¬ 256 = 0), Int.toNat_natCast,
        Nat.add_one_sub_one, taken]
      refine ⟨Int.natCast_nonneg _, ?_⟩
      rw [overwrite_zero fits, List.append_assoc, ← cut, List.take_left]
  | pdfish =>
      refine ⟨le_max_right _ _, printed _ ?_⟩
      have words : (ascii "%PDF-1.4 preview: ").length = 18 ∧ (ascii " bytes, head=0x").length = 15 := by decide
      have digits : (hexByte (document.headD 0)).length = 2 := by
        rw [hexByte, ascii, List.length_map, String.toList_ofList]
        rfl
      simp only [List.length_append]
      omega

/-! ## The server is the service -/

/-- The consuming filter is not loaded, so no job of the server has it. -/
theorem filterFor_borrows (found : Filter -> Bool) (id : UInt8) (chosen : Filter)
    (loaded : filterFor (loadFilters found) id = some chosen) : chosen.consumes = false := by
  unfold filterFor loadFilters at loaded
  split at loaded
  · split at loaded
    · split at loaded <;> cases loaded
      rfl
    · split at loaded <;> cases loaded
      rfl
    · cases loaded
  · cases loaded

namespace Represents

variable {s : Store} {p : Spooler}

theorem hSubmit (represents : Represents s p) (found : Filter -> Bool) (r : Request) (grant : Nat -> Grant) :
    let filter := filterFor (loadFilters found) (r.fmt &&& filterIdMask)
    Represents (hSubmit (loadFilters found) s r grant).1 (p.submit filter r.arg.bytes (Spooler.granted grant)).1 ∧
      (Encore.hSubmit (loadFilters found) s r grant).2 =
        (p.submit filter r.arg.bytes (Spooler.granted grant)).2 := by
  have submitted := represents.submit (r.fmt &&& filterIdMask).toNat
    (filterFor (loadFilters found) (r.fmt &&& filterIdMask)) r.arg grant (filterFor_borrows found _)
  rw [Encore.hSubmit]
  dsimp only
  split
  · rename_i refused
    rw [if_pos refused] at submitted
    exact submitted
  · rename_i accepted
    rw [if_neg accepted] at submitted
    exact submitted

theorem hRender (represents : Represents s p) (r : Request) :
    let served := match p.find r.job with
      | none => (p, ascii "ERR\n")
      | some (id, e) => (p.print id e, e.filter.answer e.text ++ ascii "\n")
    Represents (hRender s r).1 served.1 ∧ (Encore.hRender s r).2 = served.2 := by
  rcases represents.queue with ⟨q, consistent, _⟩
  rcases represents.filed with ⟨texts, filed⟩
  have named := represents.find r.job
  rw [Encore.hRender, named]
  cases found : s.lookup r.id with
  | none =>
      have absent : s.lookup r.job.toNat = none := found
      rw [jobRender, jobGet_absent found, absent]
      exact ⟨represents, rfl⟩
  | some j =>
      have present : s.lookup r.job.toNat = some j := found
      have inTable := consistent.lookup_inTable found
      have rendered := represents.render found (List.replicate 256 0)
      have fair := filed.fair j inTable
      have short : (s.document j).length ≤ encMaxDoc := by
        rw [fair.document]
        exact fair.short.trans fair.bounded
      have preview := (s.job j).filter.preview_answer short (List.length_replicate (n := 256) (a := (0 : UInt8)))
      have returned : (jobRender s r.id (List.replicate 256 0)).2 =
          (s.job j).filter.preview (s.document j) (List.replicate 256 0) := by
        rw [jobRender, jobGet_found found]
        rfl
      rw [present, returned]
      dsimp only
      rw [if_neg (Int.not_lt.mpr preview.1), preview.2]
      exact ⟨rendered, rfl⟩

theorem hAppend (represents : Represents s p) (r : Request) (outcome : Realloc)
    (stays : forall found, found ∈ p.find r.job -> found.2.Stays r.arg.bytes outcome) :
    let served := match p.find r.job with
      | none => (p, ascii "ERR\n")
      | some (id, e) => p.append id e r.arg.bytes outcome
    Represents (hAppend s r outcome).1 served.1 ∧ (Encore.hAppend s r outcome).2 = served.2 := by
  have named := represents.find r.job
  rw [Encore.hAppend, named]
  cases found : s.lookup r.id with
  | none =>
      have absent : s.lookup r.job.toNat = none := found
      rw [jobAppend, jobGet_absent found, absent]
      exact ⟨represents, rfl⟩
  | some j =>
      have present : s.lookup r.job.toNat = some j := found
      rw [present] at named ⊢
      have appended := represents.append found (stays _ (by rw [named]; rfl))
      dsimp only
      split
      · rename_i refused
        rw [if_pos refused] at appended
        exact appended
      · rename_i accepted
        rw [if_neg accepted] at appended
        exact appended

theorem hCancel (represents : Represents s p) (r : Request) :
    let served := match p.find r.job with
      | none => (p, ascii "OK\n")
      | some (id, e) => (p.put id { e with state := .cancelled }, ascii "OK\n")
    Represents (hCancel s r).1 served.1 ∧ (Encore.hCancel s r).2 = served.2 := by
  have named := represents.find r.job
  rw [Encore.hCancel, named]
  cases found : s.lookup r.id with
  | none =>
      have absent : s.lookup r.job.toNat = none := found
      rw [jobCancel, jobGet_absent found, absent]
      exact ⟨represents, rfl⟩
  | some j =>
      have present : s.lookup r.job.toNat = some j := found
      rw [present]
      exact ⟨represents.cancel found, rfl⟩

/-- A request is served as the service says: the reply is the same, and the
store holds the jobs of the service behind it. -/
theorem dispatch (represents : Represents s p) (found : Filter -> Bool) {isTcp : Bool} {r : Request}
    (listed : ¬ r.op > opFlush) {answers : Answers} (offered : p.Offers isTcp r answers) :
    Represents (dispatch (loadFilters found) s isTcp r answers.grant answers.outcome).1
        (p.serve (loadFilters found) isTcp r answers).1 ∧
      (Encore.dispatch (loadFilters found) s isTcp r answers.grant answers.outcome).2 =
        (p.serve (loadFilters found) isTcp r answers).2 := by
  rcases offered with ⟨stays, recycles, duplicates, alive⟩
  unfold Encore.dispatch Spooler.serve
  by_cases submit : r.op = opSubmit
  · rw [if_pos submit, if_pos submit]
    exact represents.hSubmit found r answers.grant
  rw [if_neg submit, if_neg submit]
  by_cases render : r.op = opRender
  · rw [if_pos render, if_pos render]
    exact represents.hRender r
  rw [if_neg render, if_neg render]
  by_cases append : r.op = opAppend
  · rw [if_pos append, if_pos append]
    exact represents.hAppend r answers.outcome (stays append)
  rw [if_neg append, if_neg append]
  by_cases cancel : r.op = opCancel
  · rw [if_pos cancel, if_pos cancel]
    exact represents.hCancel r
  rw [if_neg cancel, if_neg cancel]
  by_cases status : r.op = opStatus
  · rw [if_pos status, if_pos status, hStatus]
    have shown := represents.status (decide (r.fmt &&& flagVerbose ≠ 0) && !isTcp)
    refine ⟨?_, shown.2⟩
    rw [shown.1]
    exact represents
  rw [if_neg status, if_neg status]
  by_cases recycle : r.op = opRecycle
  · rw [if_pos recycle, if_pos recycle, recycles recycle]
    exact ⟨represents, rfl⟩
  rw [if_neg recycle, if_neg recycle]
  by_cases dup : r.op = opDup
  · rw [if_pos dup, if_pos dup, duplicates dup]
    exact ⟨represents, rfl⟩
  rw [if_neg dup, if_neg dup]
  cases isTcp with
  | false => exact ⟨represents, rfl⟩
  | true =>
      have flushes : r.op = opFlush := by
        have bound : r.op.toNat ≤ 7 := UInt8.le_iff_toNat_le.mp (UInt8.not_lt.mp listed)
        simp only [← UInt8.toNat_inj, opSubmit, opRender, opAppend, opCancel, opStatus, opRecycle, opDup, opFlush,
          UInt8.toNat_ofNat] at *
        omega
      exact ⟨represents.flush (alive flushes rfl), rfl⟩

end Represents

/-- `serve` around the service: the reads and the refusals of the server, and
its requests answered by the spooler. -/
def spooler (filters : Nat -> Option Filter) : Service Spooler Bool Request Answers where
  accept := (spoold filters).accept
  receive := (spoold filters).receive
  handle := fun r answers p isTcp =>
    let served := p.serve filters isTcp r answers
    (served.1, isTcp, served.2)
  again := true

/-- The server is the spooler, on the requests of the table of operations that
keep clear of the four mistakes. -/
theorem spoold_refines (found : Filter -> Bool) :
    (spoold (loadFilters found)).Refines (spooler (loadFilters found)) Represents (fun r => ¬ r.op > opFlush)
      fun p isTcp r answers => p.Offers isTcp r answers where
  accept := rfl
  receive := rfl
  again := rfl
  reads := by
    intro isTcp answers s r rest received
    simp only [spoold] at received
    split at received
    · cases received
    · split at received
      · cases received
      · cases received
        assumption
  handle := by
    intro s p isTcp r answers represents listed offered
    have served := represents.dispatch found listed offered
    exact ⟨served.1, Prod.ext rfl served.2⟩

/-- Any number of threads, on either transport, with requests in any pieces,
handlers in any steps and allocations that fail or not: once the section in
progress is finished, every thread is where it would be, and has sent what it
would have sent, if the spooler had served the requests in the order in which
they took the lock.  The store holds the jobs of that spooler, nothing was
released twice, and nothing was used behind its release. -/
theorem spoold_spools (found : Filter -> Bool) (cut : (spoold (loadFilters found)).Cut)
    (turns : List (Turn Nat (Doing Answers) Answers))
    (offered : Guarded (spooler (loadFilters found)).act
      (fun v action => action.Offered (fun p isTcp r answers => p.Offers isTcp r answers) v)
      (Service.idle Nat Request Spooler.start) ((Service.Cut.start spoolNew).acts cut.program turns)) :
    let finished := (run cut.program.step (Service.Cut.start spoolNew) turns).finish
    let served := run (spooler (loadFilters found)).act (Service.idle Nat Request Spooler.start)
      ((Service.Cut.start spoolNew).acts cut.program turns)
    finished.own = served.own ∧ Represents finished.shared served.shared ∧ ReleasedOnce finished.shared ∧
      finished.shared.docs.faults = [] := by
  have served := (spoold_refines found).threads cut .start offered
  have represents := served.2
  rcases represents.queue with ⟨q, consistent, _⟩
  rcases represents.filed with ⟨texts, filed⟩
  have disciplined : Disciplined _ := ⟨⟨q, consistent⟩, represents.owned⟩
  exact ⟨served.1, represents, disciplined.releasedOnce, filed.accesses⟩

/-- A job is submitted on a pipe while a request is read over TCP that renders
it. -/
def submitThenRender : List (Turn Nat (Doing Answers) Answers) :=
  let answers : Answers := { argument := true, grant := generous, outcome := .fails }
  let submit := requestFormat.encode { op := opSubmit, fmt := 0, job := 0, arg := helloPage }
  let render := requestFormat.encode { op := opRender, fmt := 0, job := 0, arg := ⟨[], by decide⟩ }
  [.outside 0 (.accepts false (.of submit fun _ => 7)), .outside 1 (.accepts true (.of render fun _ => 3)),
    .outside 0 (.receives answers), .enter 0 answers, .proceed 0, .outside 1 (.receives answers),
    .enter 1 answers] ++ List.replicate 11 (.proceed 0) ++ [.enter 1 answers] ++ List.replicate 32 (.proceed 1)

theorem submitThenRender_sent :
    let cut := Service.Cut.bytewise (spoold (loadFilters fun _ => true))
    let finished := (run cut.program.step (Service.Cut.start spoolNew) submitThenRender).finish
    (finished.own 0).sent = ascii "OK job=0\n" ∧ (finished.own 1).sent = ascii "raster: 10 cells, ink=977\n" := by
  have served := (spoold_spools (fun _ => true) (.bytewise _) submitThenRender (by decide +kernel)).1
  dsimp only at served ⊢
  rw [served]
  decide +kernel

end Encore
end BugMuseum
