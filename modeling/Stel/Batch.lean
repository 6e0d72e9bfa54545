import Stel.Program.Faults
import Mathlib.Data.List.Enum

/-!
# Native batch extraction

`extract_batch_with_metrics` answers documents from the response cache and submits the others in
partitions. The identifier of a provider job is persisted under the job key of its partition
before the job is polled, and removed when its results have been fetched; afterwards the response
of each document is written to the cache.

## Main definitions

* `Request`, `JobRow`, `Store`: documents, persisted jobs, and what lasts between runs.
* `BatchOp`, `BatchOp.exec`: the operations on the cache, the job table and the provider.
* `runMessageBatch`, `flushPartition`, `extractBatch`: the program.
* `Live`, `mark`: the jobs that stand for submitted requests, and what was submitted twice.
-/

namespace Stel.Batch

/-- A document of a run that can be read: its cache key, and its place among the documents. -/
abbrev Request : Type := String × ℕ

/-- A row of the table of submitted jobs. Provider jobs are named by the number of jobs submitted
before them. -/
structure JobRow where
  batchId : ℕ
  createdAt : ℕ

/-- The response cache, the table of submitted jobs by job key, and the number of jobs that the
provider has accepted and of polls it has answered. -/
structure Store (F : Type) where
  cache : String → Option F
  jobs : String → Option JobRow
  submitted : ℕ
  polls : ℕ

/-- The identity of a partition: a hash of the cache keys of its documents beside what does not
change between runs with the same options. -/
abbrev JobKey : Type := List String → String

/-- The provider: whether a job is done at a poll, and what it returns for a request of a job. -/
structure Provider (F : Type) where
  done : ℕ → ℕ → Bool
  result : ℕ → Request → Option F

/-- The seconds after which the record of a submitted job is stale. -/
def staleJobSeconds : ℕ := 30 * 24 * 60 * 60

/-- The job key of a partition. -/
def keyOf (jobKey : JobKey) (partition : List Request) : String :=
  jobKey (partition.map Prod.fst)

/-- `_job_put`: drops stale rows, then inserts the row or replaces the one with its key. -/
def putJob (jobs : String → Option JobRow) (key : String) (row : JobRow) : String → Option JobRow :=
  Function.update
    (fun k => (jobs k).filter fun r => row.createdAt ≤ r.createdAt + staleJobSeconds) key (some row)

/-- The persisted job of a partition. -/
def Store.lookupJob {F : Type} (s : Store F) (jobKey : JobKey) (partition : List Request) :
    Option ℕ :=
  (s.jobs (keyOf jobKey partition)).map JobRow.batchId

/-- The operations of a batch run: on the response cache, on the job of a partition, and on the
provider. -/
inductive BatchOp (F : Type) where
  | cacheGet (key : String)
  | cachePut (key : String) (fields : F)
  | jobGet (partition : List Request)
  | jobPut (partition : List Request) (batchId now : ℕ)
  | jobDelete (partition : List Request)
  | submit (partition : List Request)
  | poll (batchId : ℕ)
  | cancel (batchId : ℕ) (partition : List Request)
  | fetch (batchId : ℕ) (partition : List Request)

/-- The replies: cached fields, a job, the name of a new job, whether a job is done, the validated
items of a job in the order of its requests. -/
@[reducible] def BatchOp.Ret {F : Type} : BatchOp F → Type
  | .cacheGet _ => Option F
  | .jobGet _ => Option ℕ
  | .submit _ => ℕ
  | .poll _ => Bool
  | .fetch _ _ => List (Option F)
  | .cachePut _ _ | .jobPut _ _ _ | .jobDelete _ | .cancel _ _ => Unit

/-- The effect of an operation. -/
def BatchOp.exec {F : Type} (jobKey : JobKey) (provider : Provider F) :
    Interp (BatchOp F) BatchOp.Ret String (Store F)
  | .cacheGet key, s => (s, .ok (s.cache key))
  | .cachePut key fields, s =>
    ({ s with cache := Function.update s.cache key (some fields) }, .ok ())
  | .jobGet partition, s => (s, .ok (s.lookupJob jobKey partition))
  | .jobPut partition batchId now, s =>
    ({ s with jobs := putJob s.jobs (keyOf jobKey partition) ⟨batchId, now⟩ }, .ok ())
  | .jobDelete partition, s =>
    ({ s with jobs := Function.update s.jobs (keyOf jobKey partition) none }, .ok ())
  | .submit _, s => ({ s with submitted := s.submitted + 1 }, .ok s.submitted)
  | .poll batchId, s => ({ s with polls := s.polls + 1 }, .ok (provider.done batchId s.polls))
  | .cancel _ _, s => (s, .ok ())
  | .fetch batchId partition, s => (s, .ok (partition.map (provider.result batchId)))

/-- Programs over the operations of a batch run. -/
abbrev BatchProg (F α : Type) : Type := Prog (BatchOp F) BatchOp.Ret String α

variable {F : Type}

/-- The program that calls one operation. -/
def op (o : BatchOp F) : BatchProg F o.Ret := Prog.perform o

/-- The circumstances of a run: the number of polls before its deadline, and the time. -/
structure Env where
  polls : ℕ
  now : ℕ

/-- The polling loop. A job that is not done at the deadline is cancelled as far as possible, and
its record is removed. -/
def pollLoop (batchId : ℕ) (partition : List Request) : ℕ → BatchProg F Unit
  | 0 => do
    let done : Bool ← op (.poll batchId)
    if done then .pure ()
    else do
      (op (.cancel batchId partition)).tryCatch fun _ => .pure ()
      op (.jobDelete partition)
      .throw "provider batch exceeded batch_timeout_seconds and was cancelled"
  | polls + 1 => do
    let done : Bool ← op (.poll batchId)
    if done then .pure () else pollLoop batchId partition polls

/-- The job of a partition: the persisted one, or a new one that is persisted at once. -/
def acquireJob (env : Env) (partition : List Request) : BatchProg F ℕ := do
  let persisted : Option ℕ ← op (.jobGet partition)
  match persisted with
  | some batchId => .pure batchId
  | none => do
    let batchId : ℕ ← op (.submit partition)
    op (.jobPut partition batchId env.now)
    .pure batchId

/-- `_run_message_batch`: submits or resumes a job, polls and fetches it, and clears its record. -/
def runMessageBatch (env : Env) (partition : List Request) : BatchProg F (List (Option F)) := do
  let batchId ← acquireJob env partition
  pollLoop batchId partition env.polls
  let items : List (Option F) ← op (.fetch batchId partition)
  op (.jobDelete partition)
  .pure items

/-- `_resolve_batch_item`: the response of a document that has one is written to the cache. -/
def resolveBatchItem (item : Request × Option F) : BatchProg F Unit :=
  match item.2 with
  | some fields => op (.cachePut item.1.1 fields)
  | none => .pure ()

/-- `_effective_batch_size`: the size of the partitions. -/
def effectiveBatchSize (maxBatchRequests : Option ℕ) (batchSize : ℕ) : ℕ :=
  max (match maxBatchRequests with
    | none => batchSize
    | some limit => min batchSize limit) 1

theorem effectiveBatchSize_pos (maxBatchRequests : Option ℕ) (batchSize : ℕ) :
    0 < effectiveBatchSize maxBatchRequests batchSize :=
  Nat.lt_of_lt_of_le Nat.one_pos (Nat.le_max_right _ _)

/-- The results gathered so far, and the documents waiting for their partition to fill. -/
structure Progress (F : Type) where
  results : List (Request × Option F)
  pending : List Request

/-- `_flush_partition`. -/
def flushPartition (env : Env) (progress : Progress F) : BatchProg F (Progress F) :=
  if progress.pending = [] then .pure progress
  else do
    let items ← runMessageBatch env progress.pending
    Prog.forEach resolveBatchItem (progress.pending.zip items)
    .pure ⟨progress.results ++ progress.pending.zip items, []⟩

/-- One document: answered from the cache, or put into the pending partition, which is flushed when
it is full. -/
def scanDocument (env : Env) (partitionSize : ℕ) (progress : Progress F) (request : Request) :
    BatchProg F (Progress F) := do
  let cached : Option F ← op (.cacheGet request.1)
  match cached with
  | some fields => .pure { progress with results := progress.results ++ [(request, some fields)] }
  | none =>
    let progress := { progress with pending := progress.pending ++ [request] }
    if partitionSize ≤ progress.pending.length then flushPartition env progress
    else .pure progress

/-- `extract_batch_with_metrics` on the cache keys of its documents. -/
def extractBatch (env : Env) (partitionSize : ℕ) (documents : List String) :
    BatchProg F (List (Request × Option F)) := do
  let progress ← Prog.foldM (scanDocument env partitionSize) ⟨[], []⟩ documents.zipIdx
  let progress ← flushPartition env progress
  .pure progress.results

/-! ### What was submitted -/

/-- A provider job that was persisted or resumed for requests. -/
structure Live where
  batchId : ℕ
  requests : List Request
  deriving DecidableEq

/-- The jobs persisted for requests and not cancelled since, and whether a request of such a job
was submitted again. -/
structure Log where
  live : List Live
  resubmitted : Bool

/-- What an operation adds to the log. -/
def mark (jobKey : JobKey) : BatchOp F → Store F → Log → Log
  | .jobGet partition, s, log =>
    match s.lookupJob jobKey partition with
    | some batchId => { log with live := ⟨batchId, partition⟩ :: log.live }
    | none => log
  | .jobPut partition batchId _, _, log => { log with live := ⟨batchId, partition⟩ :: log.live }
  | .cancel batchId partition, _, log =>
    { log with live := log.live.filter fun job => job ≠ ⟨batchId, partition⟩ }
  | .submit partition, _, log =>
    { log with resubmitted := log.resubmitted ||
        log.live.any fun job => job.requests.any fun request => request ∈ partition }
  | .cacheGet _, _, log | .cachePut _ _, _, log | .jobDelete _, _, log | .poll _, _, log
  | .fetch _ _, _, log => log

/-- The store with the log of what was submitted. -/
abbrev World (F : Type) : Type := Store F × Log

/-- The operations on the store with the log. -/
abbrev loggedExec (jobKey : JobKey) (provider : Provider F) :
    Interp (BatchOp F) BatchOp.Ret String (World F) :=
  (BatchOp.exec jobKey provider).ghost (mark jobKey)

end Stel.Batch
