import Stel.Batch
import Stel.Budget.Extraction
import Mathlib.Data.Finset.Dedup

/-!
# Native batch runs with request ids

`extract_batch_with_metrics` on a list of paths. A path that cannot be read is answered with its
error and one whose content is cached with the cached fields. The others wait in a partition, by
their index among the paths, until it is full. The requests of a partition are numbered from zero.
The provider returns its items in any order, `validate_batch_result` compares their ids with those of
the requests, and each waiting document looks up the item of its own request.

The provider job of a partition is one call here: `Stel.Batch` has its submission, its polls and the
record of it that a later run resumes.

## Main definitions

* `BatchInferenceRequest`, `BatchInferenceItem`, `validateBatchResult`, `resolveBatchItem`.
* `Env`, `State`: what a run is given, and what it keeps between two paths.
* `flushPartition`, `scanPath`, `extractBatch`: the program.
-/

namespace Stel.NativeBatch

open Budget (BudgetExceededError InferenceFailure Metrics Provenance ProviderUsage)

/-! ### Requests and items -/

/-- `InferenceRequest`. -/
structure InferenceRequest (S : Type) where
  model : String
  content : String
  systemPrompt : String
  outputSchema : S
  outputName : String
  outputDescription : String
  temperature : ℚ
  maxTokens : ℕ
  deriving DecidableEq

/-- What the requests of a run have in common. -/
structure Settings (S : Type) where
  model : String
  system : String
  outputSchema : S
  temperature : ℚ
  maxTokens : ℕ

/-- `_inference_request` for one object. -/
def inferenceRequest {S : Type} (settings : Settings S) (content : String) : InferenceRequest S where
  model := settings.model
  content := content
  systemPrompt := settings.system
  outputSchema := settings.outputSchema
  outputName := "extract"
  outputDescription := "Return the extracted structured fields from the document."
  temperature := settings.temperature
  maxTokens := settings.maxTokens

/-- `BatchInferenceRequest`. -/
structure BatchInferenceRequest (S : Type) where
  requestId : String
  request : InferenceRequest S
  deriving DecidableEq

/-- A provider error: its text, and the billed failure attached to it. -/
structure ProviderError where
  message : String
  failure : Option InferenceFailure

/-- `InferenceResult`: structured output and usage. -/
structure InferenceResult (F : Type) where
  output : F
  usage : ProviderUsage

/-- A result, or an error with the usage billed for it. -/
inductive Outcome (F : Type)
  | result (result : InferenceResult F)
  | error (error : ProviderError) (usage : Option ProviderUsage)

/-- `BatchInferenceItem`, with exactly one of a result and an error. -/
structure BatchInferenceItem (F : Type) where
  requestId : String
  outcome : Outcome F

/-- What stands at an index of the list that a run returns instead of a result: what reading the
path raised, or a provider error, or a `RuntimeError`. -/
inductive ItemError (ε : Type)
  | read (error : ε)
  | provider (error : ProviderError)
  | runtime (message : String)

/-- `ExtractionResult`: the fields, and the metrics with the number of cache hits. -/
structure ExtractionResult (F : Type) where
  fields : F
  metrics : Metrics
  cacheHits : ℕ

/-- An entry of the list that a run returns. -/
abbrev Entry (F ε : Type) : Type := Except (ItemError ε) (ExtractionResult F)

/-- The entry of a document whose fields are cached. -/
def cachedEntry {F ε : Type} (fields : F) : Entry F ε := .ok ⟨fields, Budget.cachedMetrics, 1⟩

/-! ### Runs -/

/-- A path: the size that `stat` reports and the text that `read_text` returns. -/
structure Path (ε : Type) where
  size : Except ε ℕ
  text : Except ε String

/-- What ends a run: the budget, a second `stat`, a provider job, or a lookup without an entry. -/
inductive Raised (ε : Type)
  | budget (error : BudgetExceededError)
  | stat (error : ε)
  | provider (error : ProviderError)
  | keyError (index : ℕ)

/-- The methods of a budget guard that a run calls, on the ledgers `γ` behind it. -/
structure Guard (γ : Type) where
  checkFileBytes : ℕ → γ → Except BudgetExceededError Unit
  chargeBytes : ℕ → γ → Except BudgetExceededError γ
  ensureHeadroom : ℕ → γ → Except BudgetExceededError Unit
  chargeMetrics : Metrics → γ → γ

/-- The provider of a run. `runJob` is what its job for the `n`-th partition ends with: the items, and
whether a persisted job was resumed. `validateResult` raises a provider error or another one
(`none`). -/
structure Provider (S F : Type) where
  name : String
  implementationIdentity : String
  maxBatchRequests : Option ℕ+
  runJob : ℕ → List (BatchInferenceRequest S) →
    Except ProviderError (List (BatchInferenceItem F) × Bool)
  validateResult : InferenceResult F → Except (Option ProviderError) (InferenceResult F)
  safeMessage : String → ProviderError → String

/-- What a run is given. `stored` is what the JSON text of fields in the cache reads back as. -/
structure Env (S F γ : Type) where
  settings : Settings S
  provider : Provider S F
  batchSize : ℕ+
  cachePath : Bool
  budget : Option (Guard γ)
  contentHash : String → String
  cacheKey : String → String
  stored : F → F

variable {S F ε γ : Type}

/-- `_effective_batch_size` for the provider and the batch size of a run. -/
def Env.partitionSize (env : Env S F γ) : ℕ :=
  Batch.effectiveBatchSize (env.provider.maxBatchRequests.map PNat.val) env.batchSize

/-- The cache key of a text. -/
def Env.keyOf (env : Env S F γ) (text : String) : String := env.cacheKey (env.contentHash text)

/-- `sanitized_provider_error`: the text is replaced and the billed failure survives. -/
def Provider.sanitized (provider : Provider S F) (operation : String) (error : ProviderError) :
    ProviderError :=
  ⟨provider.safeMessage operation error, error.failure⟩

/-- The outcome of an item as `validate_batch_result` builds it anew. -/
def Provider.validateOutcome (provider : Provider S F) : Outcome F → Outcome F
  | .error error _ => .error (provider.sanitized "batch item" error) none
  | .result result =>
    match provider.validateResult result with
    | .ok validated => .result validated
    | .error (some error) => .error (provider.sanitized "batch item" error) none
    | .error none =>
      .error ⟨provider.name ++ " batch item returned an invalid response", none⟩ none

/-- An item as `validate_batch_result` builds it anew. -/
def Provider.validateItem (provider : Provider S F) (item : BatchInferenceItem F) :
    BatchInferenceItem F :=
  ⟨item.requestId, provider.validateOutcome item.outcome⟩

/-- The test of `validate_batch_result`: the same ids, and as many items as requests. -/
def OneToOne (requests : List (BatchInferenceRequest S)) (items : List (BatchInferenceItem F)) :
    Prop :=
  (requests.map BatchInferenceRequest.requestId).toFinset =
    (items.map BatchInferenceItem.requestId).toFinset ∧ requests.length = items.length

instance (requests : List (BatchInferenceRequest S)) (items : List (BatchInferenceItem F)) :
    Decidable (OneToOne requests items) :=
  inferInstanceAs (Decidable (_ ∧ _))

/-- `validate_batch_result`. -/
def validateBatchResult (provider : Provider S F) (requests : List (BatchInferenceRequest S))
    (items : List (BatchInferenceItem F)) : Except ProviderError (List (BatchInferenceItem F)) :=
  if OneToOne requests items then .ok (items.map provider.validateItem)
  else .error
    ⟨provider.name ++ " batch result did not align one-to-one with requests", none⟩

/-- `_run_message_batch`: the job of the `n`-th partition, and the validation of its items. Errors are
sanitized. -/
def runMessageBatch (env : Env S F γ) (n : ℕ) (requests : List (BatchInferenceRequest S)) :
    Except (Raised ε) (List (BatchInferenceItem F) × List (BatchInferenceItem F) × Bool) :=
  match env.provider.runJob n requests with
  | .error error => .error (.provider (env.provider.sanitized "batch inference" error))
  | .ok (fetched, resumed) =>
    match validateBatchResult env.provider requests fetched with
    | .error error => .error (.provider (env.provider.sanitized "batch inference" error))
    | .ok validated => .ok (fetched, validated, resumed)

/-- A document waiting for its partition. -/
structure Pending where
  index : ℕ
  text : String
  contentHash : String
  cacheKey : String
  deriving DecidableEq

/-- A partition that was handed to the provider: its documents, their requests, and the items that
the provider returned. -/
structure Job (S F : Type) where
  documents : List Pending
  requests : List (BatchInferenceRequest S)
  items : List (BatchInferenceItem F)

/-- What a run keeps between two paths: the response cache, the ledgers of its budget, `by_index`,
the pending partition, the partitions handed to the provider so far, how many of them were resumed,
and the metrics of billed failures. -/
structure State (S F ε γ : Type) where
  cache : String → Option F
  ledgers : γ
  byIndex : ℕ → Option (Entry F ε)
  pending : List Pending
  jobs : List (Job S F)
  resumed : ℕ
  failed : List Metrics

/-- The state at the start of a run. -/
def State.initial (cache : String → Option F) (ledgers : γ) : State S F ε γ :=
  ⟨cache, ledgers, fun _ => none, [], [], 0, []⟩

/-- The id of a request: its place in the partition. -/
def requestId (j : ℕ) : String := "req-" ++ toString j

/-- The requests of a partition. -/
def requestsOf (env : Env S F γ) (partition : List Pending) : List (BatchInferenceRequest S) :=
  partition.zipIdx.map fun entry =>
    ⟨requestId entry.2, inferenceRequest env.settings entry.1.text⟩

/-- `items.get(request_id)` on the dictionary of the items by their ids. -/
def lookupItem (items : List (BatchInferenceItem F)) (requestId : String) :
    Option (BatchInferenceItem F) :=
  items.reverse.find? fun item => item.requestId = requestId

/-- `_resolve_batch_item`, without the write to the cache. -/
def resolveBatchItem (env : Env S F γ) : Option (BatchInferenceItem F) → Entry F ε
  | none => .error (.runtime "Provider batch returned no result for document")
  | some ⟨_, .error error none⟩ => .error (.provider error)
  | some ⟨_, .error error (some usage)⟩ =>
    match error.failure with
    | some _ => .error (.provider error)
    | none => .error (.provider { error with failure := some ⟨"batch_item_failed", usage, 1,
        ⟨env.provider.name, env.settings.model, env.provider.implementationIdentity⟩⟩ })
  | some ⟨_, .result result⟩ => .ok ⟨result.output, result.usage.callMetrics, 0⟩

/-- The metrics that a resolved item is charged with. -/
def billedMetrics : Entry F ε → Option Metrics
  | .ok result => some result.metrics
  | .error (.provider error) =>
    error.failure.map fun failure => failure.usage.toMetrics failure.billedRequests
  | .error (.read _) | .error (.runtime _) => none

/-- `budget.charge_metrics`, where there is a budget. -/
def charge (env : Env S F γ) (metrics : Option Metrics) (ledgers : γ) : γ :=
  match env.budget, metrics with
  | some guard, some metrics => guard.chargeMetrics metrics ledgers
  | _, _ => ledgers

/-- The write of `_resolve_batch_item` to the cache. -/
def putCache (env : Env S F γ) (cache : String → Option F) (key : String) (entry : Entry F ε) :
    String → Option F :=
  match entry with
  | .ok result =>
    if env.cachePath then Function.update cache key (some (env.stored result.fields)) else cache
  | .error _ => cache

/-- One pass of the loop over a partition whose items have arrived. -/
def recordItem (env : Env S F γ) (items : List (BatchInferenceItem F)) (s : State S F ε γ)
    (entry : Pending × ℕ) : State S F ε γ :=
  let resolved : Entry F ε := resolveBatchItem env (lookupItem items (requestId entry.2))
  { s with
    cache := putCache env s.cache entry.1.cacheKey resolved
    ledgers := charge env (billedMetrics resolved) s.ledgers
    byIndex := Function.update s.byIndex entry.1.index (some resolved)
    failed :=
      match resolved with
      | .error _ => s.failed ++ (billedMetrics resolved).toList
      | .ok _ => s.failed }

/-- A check of the budget, where there is one. -/
def checkBudget (env : Env S F γ) (check : Guard γ → Except BudgetExceededError Unit) :
    Except (Raised ε) Unit :=
  match env.budget with
  | none => .ok ()
  | some guard =>
    match check guard with
    | .ok () => .ok ()
    | .error error => .error (.budget error)

/-- `_flush_partition`. -/
def flushPartition (env : Env S F γ) (s : State S F ε γ) : Except (Raised ε) (State S F ε γ) :=
  if s.pending = [] then .ok s
  else do
    checkBudget env fun guard => guard.ensureHeadroom s.pending.length s.ledgers
    let requests := requestsOf env s.pending
    let (fetched, items, resumed) ← runMessageBatch env s.jobs.length requests
    let recorded := s.pending.zipIdx.foldl (recordItem env items) s
    .ok { recorded with
      pending := []
      jobs := s.jobs ++ [⟨s.pending, requests, fetched⟩]
      resumed := s.resumed + if resumed then 1 else 0 }

/-- The text of a path, or what reading it raised. A file over the size cap ends the run. -/
def readPath (env : Env S F γ) (ledgers : γ) (path : Path ε) :
    Except (Raised ε) (Except ε String) :=
  match env.budget with
  | none => .ok path.text
  | some guard =>
    match path.size with
    | .error error => .ok (.error error)
    | .ok size =>
      match guard.checkFileBytes size ledgers with
      | .error error => .error (.budget error)
      | .ok () => .ok path.text

/-- `budget.charge_bytes` for a path that is not cached. -/
def chargeBytes (env : Env S F γ) (ledgers : γ) (path : Path ε) : Except (Raised ε) γ :=
  match env.budget with
  | none => .ok ledgers
  | some guard =>
    match path.size with
    | .error error => .error (.stat error)
    | .ok size =>
      match guard.chargeBytes size ledgers with
      | .error error => .error (.budget error)
      | .ok ledgers => .ok ledgers

/-- `_cache_get` for a text, where the run has a cache. -/
def cached (env : Env S F γ) (s : State S F ε γ) (text : String) : Option F :=
  if env.cachePath then s.cache (env.keyOf text) else none

/-- One pass of the loop over the paths. -/
def scanPath (env : Env S F γ) (s : State S F ε γ) (entry : Path ε × ℕ) :
    Except (Raised ε) (State S F ε γ) := do
  match ← readPath env s.ledgers entry.1 with
  | .error error =>
    .ok { s with byIndex := Function.update s.byIndex entry.2 (some (.error (.read error))) }
  | .ok text =>
    match cached env s text with
    | some fields =>
      .ok { s with byIndex := Function.update s.byIndex entry.2 (some (cachedEntry fields)) }
    | none => do
      let ledgers ← chargeBytes env s.ledgers entry.1
      let s := { s with
        ledgers
        pending := s.pending ++ [⟨entry.2, text, env.contentHash text, env.keyOf text⟩] }
      if env.partitionSize ≤ s.pending.length then flushPartition env s else .ok s

/-- The loop over paths, from the start of a run. -/
def scanPaths (env : Env S F γ) (paths : List (Path ε)) (cache : String → Option F) (ledgers : γ) :
    Except (Raised ε) (State S F ε γ) :=
  paths.zipIdx.foldlM (scanPath env) (State.initial cache ledgers)

/-- `extract_batch_with_metrics`: the entries of the paths, and the state at the end. -/
def extractBatch (env : Env S F γ) (paths : List (Path ε)) (cache : String → Option F)
    (ledgers : γ) : Except (Raised ε) (List (Entry F ε) × State S F ε γ) := do
  let scanned ← scanPaths env paths cache ledgers
  let s ← flushPartition env scanned
  let entries ← (List.range paths.length).mapM fun i =>
    match s.byIndex i with
    | some entry => .ok entry
    | none => .error (.keyError i)
  .ok (entries, s)

end Stel.NativeBatch
