import Stel.Batch
import Mathlib.Data.List.Nodup

/-!
# When a resumed batch is billed once

Runs on the same documents and options follow one another, each dying or failing anywhere. As long
as no run starts with a job whose record was cleared although some of its documents have no cached
response, the first partition that a run forms is the one whose job is persisted, and no request
of a job that was not cancelled is submitted again.

## Main definitions

* `Kept`: every job is still recorded, or all its documents have cached responses.
* `Sound`: the crash condition of a run.
* `Flushed`, `Resuming`, `Running`: where a run stands between, before and within its jobs.
* `History`: runs that follow one another.

## Main results

* `safe_extractBatch`: a run that starts well is sound at every point.
* `resumed_batches_billed_once`: the result on histories.
* `cleared_job_is_resubmitted`: a history in which a job is submitted twice.
-/

namespace Stel.Batch

variable {F : Type} {jobKey : JobKey} {documents : List String} {partitionSize : ℕ}

/-! ### Jobs and their documents -/

/-- A request whose document has a cached response. -/
def Cached (w : World F) (request : Request) : Prop :=
  w.1.cache request.1 ≠ none

/-- A job is recorded for its requests. -/
def Recorded (jobKey : JobKey) (w : World F) (job : Live) : Prop :=
  w.1.lookupJob jobKey job.requests = some job.batchId

/-- The documents of a job all have cached responses. -/
def Answered (w : World F) (job : Live) : Prop :=
  ∀ request ∈ job.requests, Cached w request

/-- The requests without a cached response. -/
def uncached (w : World F) (requests : List Request) : List Request :=
  requests.filter fun request => (w.1.cache request.1).isNone

/-- The partition that a run forms first. -/
def firstPartition (documents : List String) (partitionSize : ℕ) (w : World F) : List Request :=
  (uncached w documents.zipIdx).take partitionSize

/-- Every job is still recorded or has cached responses for all its documents. -/
def Kept (jobKey : JobKey) (w : World F) : Prop :=
  ∀ job ∈ w.2.live, Answered w job ∨ Recorded jobKey w job

/-- Nothing was submitted again, and jobs carry names that the provider has given out. -/
structure Fresh (w : World F) : Prop where
  once : w.2.resubmitted = false
  live : ∀ job ∈ w.2.live, job.batchId < w.1.submitted
  rows : ∀ key row, w.1.jobs key = some row → row.batchId < w.1.submitted

/-- The crash condition of a run: no job is left to resume, or one is, and it is resumed by the
first partition if the other jobs are answered. -/
structure Sound (jobKey : JobKey) (documents : List String) (partitionSize : ℕ) (w : World F) :
    Prop extends Fresh w where
  awaited : (∀ job ∈ w.2.live, Answered w job ∨ ¬ Recorded jobKey w job) ∨
    ∃ job ∈ w.2.live, Recorded jobKey w job ∧
      (∀ other ∈ w.2.live, other ≠ job → Answered w other ∨ ¬ Recorded jobKey w other) ∧
      ((∀ other ∈ w.2.live, other ≠ job → Answered w other) →
        job.requests = firstPartition documents partitionSize w)

/-- After the documents `before` were scanned and flushed, with none of their jobs recorded. -/
structure Flushed (jobKey : JobKey) (before : List Request) (w : World F) : Prop
    extends Fresh w where
  settled : ∀ job ∈ w.2.live, Answered w job ∨ ¬ Recorded jobKey w job
  covered : ∀ request ∈ before, Cached w request ∨ ∃ job ∈ w.2.live, request ∈ job.requests
  past : ∀ job ∈ w.2.live, ∀ request ∈ job.requests, Cached w request ∨ request ∈ before

/-- Before the first partition of a run that has a job to resume, with the documents `before`
found in the cache. -/
structure Resuming (jobKey : JobKey) (documents : List String) (partitionSize : ℕ)
    (before : List Request) (w : World F) : Prop extends Fresh w where
  job : ∃ job ∈ w.2.live, Recorded jobKey w job ∧
    job.requests = firstPartition documents partitionSize w ∧
      ∀ other ∈ w.2.live, other ≠ job → Answered w other
  cached : ∀ request ∈ before, Cached w request

/-- While the job of the partition scanned in `since` is under way. -/
structure Running (jobKey : JobKey) (documents : List String) (partitionSize : ℕ)
    (before since : List Request) (job : Live) (w : World F) : Prop extends Fresh w where
  mem : job ∈ w.2.live
  others : ∀ other ∈ w.2.live, other ≠ job → Answered w other ∨ ¬ Recorded jobKey w other
  covered : ∀ request ∈ before, Cached w request ∨ ∃ other ∈ w.2.live, request ∈ other.requests
  past : ∀ other ∈ w.2.live, other ≠ job →
    ∀ request ∈ other.requests, Cached w request ∨ request ∈ before
  first : (∀ request ∈ before, Cached w request) →
    job.requests = firstPartition documents partitionSize w
  fill : ∀ request ∈ since, Cached w request ∨ request ∈ job.requests
  subset : job.requests ⊆ since
  disjoint : ∀ request ∈ job.requests, request ∉ before

theorem Flushed.sound {before : List Request} {w : World F} (h : Flushed jobKey before w) :
    Sound jobKey documents partitionSize w where
  toFresh := h.toFresh
  awaited := .inl h.settled

theorem Resuming.sound {before : List Request} {w : World F}
    (h : Resuming jobKey documents partitionSize before w) :
    Sound jobKey documents partitionSize w := by
  obtain ⟨job, hjob, hrecorded, hrequests, hothers⟩ := h.job
  exact ⟨h.toFresh, .inr ⟨job, hjob, hrecorded, fun other hother hne =>
    .inl (hothers other hother hne), fun _ => hrequests⟩⟩

theorem Running.sound {before since : List Request} {job : Live} {w : World F}
    (h : Running jobKey documents partitionSize before since job w) :
    Sound jobKey documents partitionSize w := by
  refine ⟨h.toFresh, ?_⟩
  by_cases hrecorded : Recorded jobKey w job
  · refine .inr ⟨job, h.mem, hrecorded, h.others, fun hanswered => h.first fun request hrequest => ?_⟩
    -- a document in an earlier job is answered, and it is not in this one
    rcases h.covered request hrequest with hcached | ⟨other, hother, hmem⟩
    · exact hcached
    · rcases eq_or_ne other job with rfl | hne
      · exact absurd hrequest (h.disjoint request hmem)
      · exact hanswered other hother hne request hmem
  · refine .inl fun other hother => ?_
    rcases eq_or_ne other job with rfl | hne
    · exact .inr hrecorded
    · exact h.others other hother hne

/-- A run that starts with every job kept resumes the job left to resume, if there is one. -/
theorem Sound.start {w : World F} (h : Sound jobKey documents partitionSize w)
    (hkept : Kept jobKey w) :
    Flushed jobKey [] w ∨ Resuming jobKey documents partitionSize [] w := by
  rcases h.awaited with hsettled | ⟨job, hjob, hrecorded, hothers, hfirst⟩
  · left
    have hanswered : ∀ job ∈ w.2.live, Answered w job := by
      intro job hjob
      rcases hsettled job hjob with hanswered | hcleared
      · exact hanswered
      · exact (hkept job hjob).resolve_right hcleared
    exact ⟨h.toFresh, hsettled, by simp, fun job hjob request hrequest =>
      .inl (hanswered job hjob request hrequest)⟩
  · right
    have hanswered : ∀ other ∈ w.2.live, other ≠ job → Answered w other := by
      intro other hother hne
      rcases hothers other hother hne with hanswered | hcleared
      · exact hanswered
      · exact (hkept other hother).resolve_right hcleared
    exact ⟨h.toFresh, ⟨job, hjob, hrecorded, hfirst hanswered, hanswered⟩, by simp⟩

/-! ### One partition -/

section Partition

variable {before since pending : List Request} {w : World F}

theorem cached_of_notMem_uncached {requests : List Request} {request : Request}
    (hmem : request ∈ requests) (h : request ∉ uncached w requests) : Cached w request := by
  intro hnone
  exact h (List.mem_filter.mpr ⟨hmem, by rw [hnone]; rfl⟩)

theorem not_cached_of_mem_uncached {requests : List Request} {request : Request}
    (h : request ∈ uncached w requests) : ¬ Cached w request := by
  have hnone := (List.mem_filter.mp h).2
  rw [Cached, not_not]
  exact Option.isNone_iff_eq_none.mp hnone

/-- The pending documents of a run that is ready to form a partition of them. -/
structure Ready (jobKey : JobKey) (documents : List String) (partitionSize : ℕ)
    (before since pending : List Request) (w : World F) : Prop where
  phase : Flushed jobKey before w ∨ Resuming jobKey documents partitionSize before w
  scanned : pending = uncached w since
  first : (∀ request ∈ before, Cached w request) →
    pending = firstPartition documents partitionSize w
  disjoint : ∀ request ∈ pending, request ∉ before

theorem Ready.sound (h : Ready jobKey documents partitionSize before since pending w) :
    Sound jobKey documents partitionSize w := by
  rcases h.phase with hflushed | hresuming
  · exact hflushed.sound
  · exact hresuming.sound

theorem Ready.fill (h : Ready jobKey documents partitionSize before since pending w) :
    ∀ request ∈ since, Cached w request ∨ request ∈ pending := by
  intro request hrequest
  by_cases hmem : request ∈ pending
  · exact .inr hmem
  · exact .inl (cached_of_notMem_uncached hrequest (h.scanned ▸ hmem))

theorem Ready.subset (h : Ready jobKey documents partitionSize before since pending w) :
    pending ⊆ since := by
  intro request hrequest
  have hmem : request ∈ uncached w since := h.scanned ▸ hrequest
  exact List.mem_of_mem_filter hmem

/-- A persisted job is resumed for the partition. -/
theorem Ready.resume (h : Ready jobKey documents partitionSize before since pending w) {batchId : ℕ}
    (hjob : w.1.lookupJob jobKey pending = some batchId) :
    Running jobKey documents partitionSize before since ⟨batchId, pending⟩
      (w.1, { w.2 with live := ⟨batchId, pending⟩ :: w.2.live }) := by
  have hfresh : Fresh w := h.sound.toFresh
  have hrow : batchId < w.1.submitted := by
    obtain ⟨row, hrow, rfl⟩ := Option.map_eq_some_iff.mp hjob
    exact hfresh.rows _ row hrow
  have hothers : ∀ other ∈ w.2.live, other ≠ ⟨batchId, pending⟩ →
      (Answered w other ∨ ¬ Recorded jobKey w other) ∧
        ∀ request ∈ other.requests, Cached w request ∨ request ∈ before := by
    intro other hother hne
    rcases h.phase with hflushed | hresuming
    · exact ⟨hflushed.settled other hother, hflushed.past other hother⟩
    · obtain ⟨⟨id, requests⟩, hlive, hrecorded, hrequests, hothers⟩ := hresuming.job
      obtain rfl : requests = pending := hrequests.trans (h.first hresuming.cached).symm
      obtain rfl : id = batchId := Option.some.inj (hrecorded.symm.trans hjob)
      have hanswered := hothers other hother hne
      exact ⟨.inl hanswered, fun request hrequest => .inl (hanswered request hrequest)⟩
  have hold : ∀ other ∈ (⟨batchId, pending⟩ : Live) :: w.2.live, other ≠ ⟨batchId, pending⟩ →
      other ∈ w.2.live := fun other hother hne => (List.mem_cons.mp hother).resolve_left hne
  refine ⟨⟨hfresh.once, ?_, hfresh.rows⟩, List.mem_cons_self, ?_, ?_, ?_, h.first, h.fill,
    h.subset, h.disjoint⟩
  · rintro job hmem
    rcases List.mem_cons.mp hmem with rfl | hmem
    · exact hrow
    · exact hfresh.live job hmem
  · intro other hother hne
    exact (hothers other (hold other hother hne) hne).1
  · intro request hrequest
    rcases h.phase with hflushed | hresuming
    · rcases hflushed.covered request hrequest with hcached | ⟨job, hlive, hmem⟩
      · exact .inl hcached
      · exact .inr ⟨job, List.mem_cons_of_mem _ hlive, hmem⟩
    · exact .inl (hresuming.cached request hrequest)
  · intro other hother hne
    exact (hothers other (hold other hother hne) hne).2

/-- Without a persisted job for the partition there is no job to resume. -/
theorem Ready.flushed (h : Ready jobKey documents partitionSize before since pending w)
    (hjob : w.1.lookupJob jobKey pending = none) : Flushed jobKey before w := by
  rcases h.phase with hflushed | hresuming
  · exact hflushed
  · obtain ⟨job, hlive, hrecorded, hrequests, hothers⟩ := hresuming.job
    have hreq : job.requests = pending := hrequests.trans (h.first hresuming.cached).symm
    rw [Recorded, hreq, hjob] at hrecorded
    cases hrecorded

/-- No request of the partition belongs to a job. -/
theorem Ready.notMem_live (h : Ready jobKey documents partitionSize before since pending w)
    (hflushed : Flushed jobKey before w) {job : Live} (hjob : job ∈ w.2.live) {request : Request}
    (hrequest : request ∈ job.requests) : request ∉ pending := by
  intro hpending
  rcases hflushed.past job hjob request hrequest with hcached | hbefore
  · exact not_cached_of_mem_uncached (h.scanned ▸ hpending) hcached
  · exact h.disjoint request hpending hbefore

/-- Submitting the partition submits nothing again. -/
theorem Ready.submit (h : Ready jobKey documents partitionSize before since pending w)
    (hflushed : Flushed jobKey before w) :
    Ready jobKey documents partitionSize before since pending
        ({ w.1 with submitted := w.1.submitted + 1 }, mark jobKey (.submit pending) w.1 w.2) ∧
      Flushed jobKey before
        ({ w.1 with submitted := w.1.submitted + 1 }, mark jobKey (.submit pending) w.1 w.2) := by
  have honce : (mark jobKey (.submit pending : BatchOp F) w.1 w.2).resubmitted = false := by
    have hany : (w.2.live.any fun job => job.requests.any fun request => request ∈ pending) =
        false := by
      simp only [List.any_eq_false, decide_eq_true_eq, List.any_eq_true, not_exists, not_and]
      intro job hjob request hrequest
      exact h.notMem_live hflushed hjob hrequest
    simp [mark, hflushed.once, hany]
  have hfresh : Fresh (F := F)
      ({ w.1 with submitted := w.1.submitted + 1 }, mark jobKey (.submit pending) w.1 w.2) :=
    ⟨honce, fun job hjob => Nat.lt_succ_of_lt (hflushed.live job hjob),
      fun key row hrow => Nat.lt_succ_of_lt (hflushed.rows key row hrow)⟩
  have hflushed' : Flushed jobKey before
      ({ w.1 with submitted := w.1.submitted + 1 }, mark jobKey (.submit pending) w.1 w.2) :=
    ⟨hfresh, hflushed.settled, hflushed.covered, hflushed.past⟩
  exact ⟨⟨.inl hflushed', h.scanned, h.first, h.disjoint⟩, hflushed'⟩

theorem lookupJob_putJob (s : Store F) (partition : List Request) (row : JobRow)
    (requests : List Request) :
    ({ s with jobs := putJob s.jobs (keyOf jobKey partition) row } : Store F).lookupJob jobKey
        requests = some row.batchId ∨
      ∀ batchId, ({ s with jobs := putJob s.jobs (keyOf jobKey partition) row } :
        Store F).lookupJob jobKey requests = some batchId →
          s.lookupJob jobKey requests = some batchId := by
  by_cases hkey : keyOf jobKey requests = keyOf jobKey partition
  · left
    simp [Store.lookupJob, putJob, hkey]
  · right
    intro batchId hlookup
    simp only [Store.lookupJob, putJob, Function.update_of_ne hkey] at hlookup ⊢
    cases hrow : s.jobs (keyOf jobKey requests) with
    | none => simp [hrow] at hlookup
    | some r =>
      rw [hrow] at hlookup
      obtain ⟨r', hr', rfl⟩ := Option.map_eq_some_iff.mp hlookup
      obtain ⟨hsome, -⟩ := Option.filter_eq_some_iff.mp hr'
      obtain rfl := Option.some.inj hsome
      rfl

/-- A new job is persisted for the partition. -/
theorem Ready.persist (h : Ready jobKey documents partitionSize before since pending w)
    (hflushed : Flushed jobKey before w) (batchId now : ℕ) (hid : batchId < w.1.submitted)
    (hnew : ∀ job ∈ w.2.live, job.batchId < batchId) :
    Running jobKey documents partitionSize before since ⟨batchId, pending⟩
      ({ w.1 with jobs := putJob w.1.jobs (keyOf jobKey pending) ⟨batchId, now⟩ },
        { w.2 with live := ⟨batchId, pending⟩ :: w.2.live }) := by
  have hold : ∀ other ∈ (⟨batchId, pending⟩ : Live) :: w.2.live, other ≠ ⟨batchId, pending⟩ →
      other ∈ w.2.live := fun other hother hne => (List.mem_cons.mp hother).resolve_left hne
  refine ⟨⟨hflushed.once, ?_, ?_⟩, List.mem_cons_self, ?_, ?_, ?_, h.first, h.fill, h.subset,
    h.disjoint⟩
  · rintro job hmem
    rcases List.mem_cons.mp hmem with rfl | hmem
    · exact hid
    · exact hflushed.live job hmem
  · intro key row hrow
    by_cases hkey : key = keyOf jobKey pending
    · rw [hkey] at hrow
      have hsome : (some ⟨batchId, now⟩ : Option JobRow) = some row := by
        simpa [putJob] using hrow
      obtain rfl := Option.some.inj hsome
      exact hid
    · simp only [putJob, Function.update_of_ne hkey] at hrow
      exact hflushed.rows key row (Option.filter_eq_some_iff.mp hrow).1
  · intro other hother hne
    have hlive := hold other hother hne
    rcases hflushed.settled other hlive with hanswered | hcleared
    · exact .inl hanswered
    · right
      intro hrecorded
      rcases lookupJob_putJob w.1 pending ⟨batchId, now⟩ other.requests with hsame | hkept
      · have heq : other.batchId = batchId := Option.some.inj (hrecorded.symm.trans hsame)
        exact absurd heq (Nat.ne_of_lt (hnew other hlive))
      · exact hcleared (hkept _ hrecorded)
  · intro request hrequest
    rcases hflushed.covered request hrequest with hcached | ⟨job, hlive, hmem⟩
    · exact .inl hcached
    · exact .inr ⟨job, List.mem_cons_of_mem _ hlive, hmem⟩
  · intro other hother hne
    exact hflushed.past other (hold other hother hne)

/-! ### The run -/

variable {provider : Provider F} {env : Env}

/-- A partition that is ready gets a job. -/
theorem safe_acquireJob (h : Ready jobKey documents partitionSize before since pending w) :
    (acquireJob env pending : BatchProg F ℕ).Safe (loggedExec jobKey provider)
      (Sound jobKey documents partitionSize)
      (fun batchId t =>
        Running jobKey documents partitionSize before since ⟨batchId, pending⟩ t) w := by
  cases hjob : w.1.lookupJob jobKey pending with
  | some batchId =>
    have hrunning := h.resume hjob
    have hexec : loggedExec jobKey provider (.jobGet pending) w =
        ((w.1, { w.2 with live := ⟨batchId, pending⟩ :: w.2.live }), .ok (some batchId)) := by
      simp [loggedExec, Interp.ghost, BatchOp.exec, mark, hjob]
    refine Prog.Safe.call hexec h.sound ?_
    exact ⟨hrunning.sound, hrunning⟩
  | none =>
    have hexec : loggedExec jobKey provider (.jobGet pending) w = (w, .ok none) := by
      simp [loggedExec, Interp.ghost, BatchOp.exec, mark, hjob]
    refine Prog.Safe.call hexec h.sound ?_
    have hflushed := h.flushed hjob
    obtain ⟨hready, hsubmitted⟩ := h.submit hflushed
    refine Prog.Safe.call rfl h.sound ?_
    have hrunning := hready.persist hsubmitted w.1.submitted env.now (Nat.lt_succ_self _)
      hflushed.live
    exact Prog.Safe.call rfl hsubmitted.sound ⟨hrunning.sound, hrunning⟩

/-- A record that survives the removal of another one was there before. -/
theorem Recorded.of_delete {job : Live} {partition : List Request} {log : Log}
    (h : Recorded jobKey ({ w.1 with
      jobs := Function.update w.1.jobs (keyOf jobKey partition) none }, log) job) :
    Recorded jobKey w job ∧ job.requests ≠ partition := by
  by_cases hkey : keyOf jobKey job.requests = keyOf jobKey partition
  · simp [Recorded, Store.lookupJob, hkey] at h
  · refine ⟨?_, fun heq => hkey (by rw [heq])⟩
    simpa [Recorded, Store.lookupJob, hkey] using h

/-- The condition between the cancellation of a job and the removal of its record. -/
def Aborting (jobKey : JobKey) (documents : List String) (partitionSize : ℕ) (job : Live)
    (w : World F) : Prop :=
  Sound jobKey documents partitionSize w ∧
    ∀ other ∈ w.2.live, other ≠ job → Answered w other ∨ ¬ Recorded jobKey w other

theorem Running.cancel {job : Live}
    (h : Running jobKey documents partitionSize before since job w) :
    Aborting jobKey documents partitionSize job
      (w.1, { w.2 with live := w.2.live.filter fun other => other ≠ job }) := by
  have hothers : ∀ other ∈ w.2.live.filter fun other => other ≠ job,
      Answered w other ∨ ¬ Recorded jobKey w other := by
    intro other hother
    obtain ⟨hlive, hne⟩ := List.mem_filter.mp hother
    exact h.others other hlive (of_decide_eq_true hne)
  exact ⟨⟨⟨h.once, fun other hother => h.live other (List.mem_of_mem_filter hother), h.rows⟩,
    .inl hothers⟩, fun other hother _ => hothers other hother⟩

theorem Aborting.delete {job : Live} (h : Aborting jobKey documents partitionSize job w) :
    Sound jobKey documents partitionSize
      ({ w.1 with jobs := Function.update w.1.jobs (keyOf jobKey job.requests) none }, w.2) := by
  refine ⟨⟨h.1.once, h.1.live, fun key row hrow => ?_⟩, .inl fun other hother => ?_⟩
  · by_cases hkey : key = keyOf jobKey job.requests
    · simp [hkey] at hrow
    · simp only [Function.update_of_ne hkey] at hrow
      exact h.1.rows key row hrow
  · by_cases hne : other = job
    · exact .inr fun hrecorded => hrecorded.of_delete.2 (by rw [hne])
    · rcases h.2 other hother hne with hanswered | hcleared
      · exact .inl hanswered
      · exact .inr fun hrecorded => hcleared hrecorded.of_delete.1

/-- Polling leaves the job under way or gives it up. -/
theorem safe_pollLoop {job : Live} (polls : ℕ)
    (h : Running jobKey documents partitionSize before since job w) :
    (pollLoop job.batchId job.requests polls : BatchProg F Unit).Safe (loggedExec jobKey provider)
      (Sound jobKey documents partitionSize)
      (fun _ t => Running jobKey documents partitionSize before since job t) w := by
  induction polls generalizing w with
  | zero =>
    have hpolled : Running jobKey documents partitionSize before since job
        ({ w.1 with polls := w.1.polls + 1 }, w.2) :=
      ⟨⟨h.once, h.live, h.rows⟩, h.mem, h.others, h.covered, h.past, h.first, h.fill, h.subset,
        h.disjoint⟩
    refine Prog.Safe.call rfl h.sound ?_
    cases provider.done job.batchId w.1.polls with
    | true => exact ⟨hpolled.sound, hpolled⟩
    | false =>
      have hcancel : ((op (.cancel job.batchId job.requests)).tryCatch fun _ => .pure () :
          BatchProg F Unit).Safe (loggedExec jobKey provider)
          (Aborting jobKey documents partitionSize job)
          (fun _ t => Aborting jobKey documents partitionSize job t)
          ({ w.1 with polls := w.1.polls + 1 }, w.2) := by
        refine Prog.Safe.tryCatch ?_ fun e t ht => ⟨ht, ht⟩
        exact Prog.Safe.call rfl ⟨hpolled.sound, hpolled.others⟩ ⟨hpolled.cancel, hpolled.cancel⟩
      refine (hcancel.mono (fun _ ht => ht.1) fun _ _ _ ht => ht).bind fun _ t _ ht => ?_
      exact Prog.Safe.call rfl ht.1 ht.delete
  | succ polls ih =>
    have hpolled : Running jobKey documents partitionSize before since job
        ({ w.1 with polls := w.1.polls + 1 }, w.2) :=
      ⟨⟨h.once, h.live, h.rows⟩, h.mem, h.others, h.covered, h.past, h.first, h.fill, h.subset,
        h.disjoint⟩
    refine Prog.Safe.call rfl h.sound ?_
    cases provider.done job.batchId w.1.polls with
    | true => exact ⟨hpolled.sound, hpolled⟩
    | false => exact ih hpolled

theorem Running.clear {job : Live}
    (h : Running jobKey documents partitionSize before since job w) :
    Flushed jobKey (before ++ since)
      ({ w.1 with jobs := Function.update w.1.jobs (keyOf jobKey job.requests) none }, w.2) := by
  have habort : Aborting jobKey documents partitionSize job w := ⟨h.sound, h.others⟩
  refine ⟨habort.delete.toFresh, fun other hother => ?_, fun request hrequest => ?_,
    fun other hother request hrequest => ?_⟩
  · by_cases hne : other = job
    · exact .inr fun hrecorded => hrecorded.of_delete.2 (by rw [hne])
    · rcases h.others other hother hne with hanswered | hcleared
      · exact .inl hanswered
      · exact .inr fun hrecorded => hcleared hrecorded.of_delete.1
  · rcases List.mem_append.mp hrequest with hbefore | hsince
    · exact h.covered request hbefore
    · rcases h.fill request hsince with hcached | hmem
      · exact .inl hcached
      · exact .inr ⟨job, h.mem, hmem⟩
  · rcases eq_or_ne other job with rfl | hne
    · exact .inr (List.mem_append_right before (h.subset hrequest))
    · rcases h.past other hother hne request hrequest with hcached | hbefore
      · exact .inl hcached
      · exact .inr (List.mem_append_left since hbefore)

/-- A partition that is ready is submitted or resumed, fetched and cleared. -/
theorem safe_runMessageBatch (h : Ready jobKey documents partitionSize before since pending w) :
    (runMessageBatch env pending : BatchProg F (List (Option F))).Safe (loggedExec jobKey provider)
      (Sound jobKey documents partitionSize) (fun _ t => Flushed jobKey (before ++ since) t) w := by
  refine (safe_acquireJob h).bind fun batchId t _ ht => ?_
  refine (safe_pollLoop env.polls ht).bind fun _ u _ hu => ?_
  refine Prog.Safe.call rfl hu.sound ?_
  exact Prog.Safe.call rfl hu.sound ⟨hu.clear.sound, hu.clear⟩

theorem Cached.put {request : Request} (h : Cached w request) (key : String) (fields : F) :
    Cached ({ w.1 with cache := Function.update w.1.cache key (some fields) }, w.2) request := by
  rcases eq_or_ne request.1 key with heq | hne
  · simp [Cached, heq]
  · simpa [Cached, hne] using h

/-- Writing responses keeps what is flushed. -/
theorem Flushed.put (h : Flushed jobKey before w) (key : String) (fields : F) :
    Flushed jobKey before
      ({ w.1 with cache := Function.update w.1.cache key (some fields) }, w.2) := by
  refine ⟨⟨h.once, h.live, h.rows⟩, fun job hjob => ?_, fun request hrequest => ?_,
    fun job hjob request hrequest => ?_⟩
  · rcases h.settled job hjob with hanswered | hcleared
    · exact .inl fun request hrequest => (hanswered request hrequest).put key fields
    · exact .inr hcleared
  · rcases h.covered request hrequest with hcached | hjob
    · exact .inl (hcached.put key fields)
    · exact .inr hjob
  · rcases h.past job hjob request hrequest with hcached | hbefore
    · exact .inl (hcached.put key fields)
    · exact .inr hbefore

/-- A partition that is ready is flushed. -/
theorem safe_flushPartition (results : List (Request × Option F)) (hne : pending ≠ [])
    (h : Ready jobKey documents partitionSize before since pending w) :
    (flushPartition env ⟨results, pending⟩).Safe (loggedExec jobKey provider)
      (Sound jobKey documents partitionSize)
      (fun progress t => progress.pending = [] ∧ Flushed jobKey (before ++ since) t) w := by
  rw [flushPartition, if_neg hne]
  refine (safe_runMessageBatch h).bind fun items t _ ht => ?_
  have hcache : (Prog.forEach resolveBatchItem (pending.zip items) : BatchProg F Unit).Safe
      (loggedExec jobKey provider) (Sound jobKey documents partitionSize)
      (fun _ u => Flushed jobKey (before ++ since) u) t := by
    refine Prog.Safe.forEach ht.sound ht fun item _ u _ hu => ?_
    obtain ⟨request, _ | fields⟩ := item
    · exact ⟨hu.sound, hu⟩
    · have hput := hu.put request.1 fields
      exact Prog.Safe.call rfl hu.sound ⟨hput.sound, hput⟩
  exact hcache.bind fun _ u _ hu => ⟨hu.sound, rfl, hu⟩

end Partition

/-! ### Scanning the documents -/

section Scan

variable {before since rest : List Request} {w : World F}

/-- When all documents before the pending ones are cached, the pending ones are the first
partition as soon as it is full or the documents are exhausted. -/
theorem uncached_eq_firstPartition (hdocuments : documents.zipIdx = before ++ since ++ rest)
    (hbefore : ∀ request ∈ before, Cached w request)
    (hfull : (uncached w since).length = partitionSize ∨
      rest = [] ∧ (uncached w since).length ≤ partitionSize) :
    uncached w since = firstPartition documents partitionSize w := by
  have hnone : uncached w before = [] := by
    refine List.filter_eq_nil_iff.mpr fun request hrequest hisNone => ?_
    exact hbefore request hrequest (Option.isNone_iff_eq_none.mp hisNone)
  have hsplit : uncached w documents.zipIdx = uncached w since ++ uncached w rest := by
    rw [hdocuments, uncached, List.filter_append, List.filter_append]
    change uncached w before ++ uncached w since ++ uncached w rest = _
    rw [hnone, List.nil_append]
  rw [firstPartition, hsplit]
  rcases hfull with hlength | ⟨rfl, hlength⟩
  · rw [← hlength, List.take_left]
  · have hnil : uncached w [] = [] := rfl
    rw [hnil, List.append_nil, List.take_of_length_le hlength]

/-- A partition of scanned documents is ready when it is full or the documents are exhausted. -/
theorem ready_of_scanned (hdocuments : documents.zipIdx = before ++ since ++ rest)
    (hphase : Flushed jobKey before w ∨ Resuming jobKey documents partitionSize before w)
    (hfull : (uncached w since).length = partitionSize ∨
      rest = [] ∧ (uncached w since).length ≤ partitionSize) :
    Ready jobKey documents partitionSize before since (uncached w since) w where
  phase := hphase
  scanned := rfl
  first hbefore := uncached_eq_firstPartition hdocuments hbefore hfull
  disjoint request hrequest hbefore := by
    have hnodup : (before ++ since ++ rest).Nodup := by
      rw [← hdocuments]
      exact List.Nodup.of_map Prod.snd (by simp [List.nodup_range'])
    have hdisjoint := (List.nodup_append.mp (List.nodup_append.mp hnodup).1).2.2
    exact hdisjoint request hbefore request (List.mem_of_mem_filter hrequest) rfl

/-- Where a run stands after scanning `done`. -/
def Scanned (jobKey : JobKey) (documents : List String) (partitionSize : ℕ) (done : List Request)
    (progress : Progress F) (w : World F) : Prop :=
  ∃ before since, done = before ++ since ∧ progress.pending = uncached w since ∧
    progress.pending.length < partitionSize ∧
      (Flushed jobKey before w ∨ Resuming jobKey documents partitionSize before w)

variable {provider : Provider F} {env : Env}

theorem uncached_concat (w : World F) (requests : List Request) (request : Request) :
    uncached w (requests ++ [request]) = uncached w requests ++
      if (w.1.cache request.1).isNone then [request] else [] := by
  simp [uncached, List.filter_append, List.filter_cons]

/-- One document keeps the invariant of the scan. -/
theorem safe_scanDocument {scanned : List Request} {request : Request}
    (hdocuments : scanned ++ request :: rest = documents.zipIdx) {progress : Progress F}
    (hsound : Sound jobKey documents partitionSize w)
    (h : Scanned jobKey documents partitionSize scanned progress w) :
    (scanDocument env partitionSize progress request).Safe (loggedExec jobKey provider)
      (Sound jobKey documents partitionSize)
      (fun progress t =>
        Scanned jobKey documents partitionSize (scanned ++ [request]) progress t) w := by
  obtain ⟨before, since, rfl, hpending, hlength, hphase⟩ := h
  have hexec : loggedExec jobKey provider (.cacheGet request.1) w =
      (w, .ok (w.1.cache request.1)) := rfl
  refine Prog.Safe.call hexec hsound ?_
  have hconcat := uncached_concat w since request
  cases hcache : w.1.cache request.1 with
  | some fields =>
    simp only [hcache, Option.isNone_some, Bool.false_eq_true, if_false, List.append_nil] at hconcat
    refine ⟨hsound, before, since ++ [request], List.append_assoc _ _ _, ?_, hlength, hphase⟩
    rw [hconcat]
    exact hpending
  | none =>
    simp only [hcache, Option.isNone_none, if_true] at hconcat
    have hlength' : (progress.pending ++ [request]).length ≤ partitionSize := by
      rw [List.length_append, List.length_singleton]
      omega
    by_cases hfull : partitionSize ≤ (progress.pending ++ [request]).length
    · have hall : documents.zipIdx = before ++ (since ++ [request]) ++ rest := by
        simpa using hdocuments.symm
      have hready := ready_of_scanned hall hphase (.inl (by rw [hconcat, ← hpending]; omega))
      rw [hconcat, ← hpending] at hready
      simp only [hfull, if_true]
      refine (safe_flushPartition progress.results (by simp) hready).mono (fun _ ht => ht)
        fun progress' t _ ht => ?_
      refine ⟨before ++ (since ++ [request]), [], by simp, ht.1, ?_, .inl ht.2⟩
      rw [ht.1]
      exact Nat.lt_of_le_of_lt (Nat.zero_le _) hlength
    · simp only [hfull, if_false]
      refine ⟨hsound, before, since ++ [request], List.append_assoc _ _ _, ?_,
        Nat.lt_of_not_le hfull, hphase⟩
      rw [hconcat, ← hpending]

/-- A run that starts with every job kept is sound at every point. -/
theorem safe_extractBatch (hsize : 0 < partitionSize)
    (hsound : Sound jobKey documents partitionSize w) (hkept : Kept jobKey w) :
    (extractBatch env partitionSize documents).Safe (loggedExec jobKey provider)
      (Sound jobKey documents partitionSize) (fun _ _ => True) w := by
  have hscan : (Prog.foldM (scanDocument env partitionSize) ⟨[], []⟩ documents.zipIdx :
      BatchProg F (Progress F)).Safe (loggedExec jobKey provider)
      (Sound jobKey documents partitionSize)
      (fun progress t =>
        Scanned jobKey documents partitionSize documents.zipIdx progress t) w := by
    refine Prog.Safe.foldM (fun scanned progress t =>
      Scanned jobKey documents partitionSize scanned progress t) hsound ?_ ?_
    · exact ⟨[], [], rfl, rfl, hsize, hsound.start hkept⟩
    · intro scanned request rest hdocuments progress t ht hscanned
      exact safe_scanDocument hdocuments ht hscanned
  refine hscan.bind fun progress t ht hscanned => ?_
  have hflush : (flushPartition env progress).Safe (loggedExec jobKey provider)
      (Sound jobKey documents partitionSize) (fun _ _ => True) t := by
    obtain ⟨before, since, hdone, hpending, hlength, hphase⟩ := hscanned
    obtain ⟨results, pending⟩ := progress
    by_cases hne : pending = []
    · rw [flushPartition, if_pos hne]
      exact ⟨ht, trivial⟩
    · obtain rfl : pending = uncached t since := hpending
      have hall : documents.zipIdx = before ++ since ++ [] := by
        simpa using hdone
      have hready := ready_of_scanned hall hphase (.inr ⟨rfl, Nat.le_of_lt hlength⟩)
      exact (safe_flushPartition results hne hready).mono (fun _ hu => hu) fun _ _ _ _ => trivial
  exact hflush.bind fun _ u hu _ => ⟨hu, trivial⟩

end Scan

/-! ### Runs that follow one another -/

/-- The worlds that runs with the same documents and options reach one after another, each dying
or raising anywhere, or returning. Each starts in a world that `ok` allows. -/
inductive History (jobKey : JobKey) (provider : Provider F) (documents : List String)
    (maxBatchRequests : Option ℕ) (batchSize : ℕ) (ok : World F → Prop) : World F → Prop
  | start (s : Store F) (h : ∀ key row, s.jobs key = some row → row.batchId < s.submitted) :
      History jobKey provider documents maxBatchRequests batchSize ok (s, ⟨[], false⟩)
  | run {w t : World F} {out : Option (Except String (List (Request × Option F)))} (env : Env)
      (h : History jobKey provider documents maxBatchRequests batchSize ok w) (hok : ok w)
      (hends : (extractBatch env (effectiveBatchSize maxBatchRequests batchSize) documents).Ends
        (loggedExec jobKey provider) w t out) :
      History jobKey provider documents maxBatchRequests batchSize ok t

theorem History.sound {provider : Provider F} {maxBatchRequests : Option ℕ} {batchSize : ℕ}
    {w : World F}
    (h : History jobKey provider documents maxBatchRequests batchSize (Kept jobKey) w) :
    Sound jobKey documents (effectiveBatchSize maxBatchRequests batchSize) w := by
  induction h with
  | start s hrows => exact ⟨⟨rfl, by simp, hrows⟩, .inl (by simp)⟩
  | run env _ hkept hends ih =>
    exact ((safe_extractBatch (effectiveBatchSize_pos _ _) ih hkept).sound hends).1

/-- As long as every run starts with each job recorded or fully answered from the cache, no
request of a job that was persisted and not cancelled is ever submitted again, wherever the runs
die or raise. -/
theorem resumed_batches_billed_once (jobKey : JobKey) (provider : Provider F)
    (documents : List String) (maxBatchRequests : Option ℕ) (batchSize : ℕ) {w : World F}
    (h : History jobKey provider documents maxBatchRequests batchSize (Kept jobKey) w) :
    w.2.resubmitted = false :=
  h.sound.once

/-! ### Concrete histories -/

/-- A provider whose jobs are done at once and whose items all have a result. -/
def promptProvider : Provider Unit := ⟨fun _ _ => true, fun _ _ => some ()⟩

/-- An empty cache and an empty table of jobs. -/
def emptyStore : Store Unit := ⟨fun _ => none, fun _ => none, 0, 0⟩

/-- A run over one document. -/
def sampleRun : BatchProg Unit (List (Request × Option Unit)) :=
  extractBatch ⟨3, 0⟩ (effectiveBatchSize none 1) ["k"]

/-- The world after a run over one document has died behind some of its operations. -/
def diedAfter (operations : ℕ) : World Unit :=
  sampleRun.crashAfter (loggedExec String.join promptProvider) operations (emptyStore, ⟨[], false⟩)

/-- The world after an undisturbed run that follows. -/
def rerunAfter (operations : ℕ) : World Unit :=
  (sampleRun.exec (loggedExec String.join promptProvider) (diedAfter operations)).1

theorem history_rerunAfter {ok : World Unit → Prop} (operations : ℕ)
    (hstart : ok (emptyStore, ⟨[], false⟩)) (hrerun : ok (diedAfter operations)) :
    History String.join promptProvider ["k"] none 1 ok (rerunAfter operations) :=
  .run ⟨3, 0⟩ (.run ⟨3, 0⟩ (.start emptyStore nofun) hstart (Prog.ends_crashAfter _ _ _ _)) hrerun
    (Prog.ends_exec _ _ _)

/-- A run that dies after its job was persisted is resumed without a second submission. -/
theorem resumed_batches_billed_once_sample :
    (rerunAfter 4).1.submitted = 1 ∧ (rerunAfter 4).2.resubmitted = false := by
  have hkept : Kept String.join (diedAfter 4) := by
    intro job hjob
    obtain rfl : job = ⟨0, [("k", 0)]⟩ := List.mem_singleton.mp hjob
    exact .inr rfl
  exact ⟨by decide +kernel, resumed_batches_billed_once _ _ _ _ _
    (history_rerunAfter 4 nofun hkept)⟩

/-- A run that dies after the record of its job was removed and before the response of its document
is in the cache: the next run submits the document again. -/
theorem cleared_job_is_resubmitted : ¬ ∀ w,
    History String.join promptProvider ["k"] none 1 (fun _ => True) w →
      w.2.resubmitted = false := by
  intro h
  have honce := h _ (history_rerunAfter 7 trivial trivial)
  revert honce
  decide +kernel

end Stel.Batch
