import Stel.Search.Store
import Stel.Warehouse.Frame
import Stel.Program.Faults

/-!
# Search publication

`run_search_model` of `execution/search.py` as a program over the operations of the store, the
publication state and the serving ledger, with the classification of
`state_reconciliation.classify_batch`. The resolution of the project's configuration is summed up
in `SearchModel`, which stays fixed.

## Main definitions

* `SearchModel`: the resolved search resource.
* `indexedRows`, `classifyBatch`, `verifyCollectionConfig`: the parts of a publication.
* `publishBatch`, `publishStalePage`, `reconcile`, `publishCollection`: its loops.
* `runSearchModel`: the whole attempt, with its exception handler, and `untilMarkReady`.
-/

namespace Stel.Search

open Stel.Warehouse Stel.Retrieval

/-- `search.on_index_change`. -/
inductive OnIndexChange
  | fail
  | online
  deriving DecidableEq, Repr

/-- A search resource, resolved against its project, over upstream rows `R` and indexed values
`V`. -/
structure SearchModel (R V : Type) where
  scope : StateScope
  codeVersion : String
  spec : CollectionSpec
  /-- The cell of `id_field`. -/
  recordId : R → Cell
  /-- The checks of `_indexed_rows` on the other fields, and the values with the vector
  normalized to floats. -/
  normalize : R → Except Failure V
  /-- `canonical_fingerprint({"config": …, "row": values})`. -/
  fingerprint : V → String
  /-- `search.access == "governed"`. -/
  governed : Bool
  batchSize : ℕ
  maxIdBytes : Option ℕ
  onIndexChange : OnIndexChange
  /-- `classify_descriptor_changes`: whether some change requires a rebuild, and the list of
  changes in words. -/
  descriptorChanges : String → String → Bool × String
  /-- The nonce of a state page reader. -/
  nonce : String
  /-- `batch_size` is declared with `ge=1` and `le=100_000`. -/
  batchSize_pos : 0 < batchSize
  batchSize_le : batchSize ≤ maxStateSubsetKeys

/-- Programs of the executor. -/
abbrev SearchProg (V α : Type) : Type :=
  Prog (DataOp V ⊕ Stmt) (SumRet DataOp.Ret Stmt.Ret) Failure α

/-- One operation on the store, the state or the counters. -/
def data {V : Type} (o : DataOp V) : SearchProg V o.Ret :=
  .call (.inl o) .pure .throw

/-- A call of the serving coordinator. -/
def ledger {V α : Type} (p : Coord α) : SearchProg V α :=
  p.inr

/-! ### Rows and their classification -/

section Rows

variable {R V : Type} (search : SearchModel R V)

/-- `_indexed_rows`, for one row. -/
def indexedRow (raw : R) : Except Failure (IndexedRow V) :=
  match search.recordId raw with
  | .string recordId =>
    if recordId = "" ∨ '\x00' ∈ recordId.toList ∨
        ∃ m ∈ search.maxIdBytes, m < recordId.utf8ByteSize then
      .error (.runError ("Search input IDs must be non-empty, NUL-free strings within the " ++
        "retrieval store byte limit"))
    else do
      let values ← search.normalize raw
      return ⟨recordId, values, search.fingerprint values⟩
  | _ => .error (.runError ("Search input IDs must be non-empty, NUL-free strings within the " ++
      "retrieval store byte limit"))

/-- `_indexed_rows`. -/
def indexedRows : List R → Except Failure (List (IndexedRow V))
  | [] => .ok []
  | raw :: batch => do
    let row ← indexedRow search raw
    let rows ← indexedRows batch
    return row :: rows

/-- The check of `key_column` when a table snapshot is opened. -/
def validateKeyDomain (upstream : List R) : Except Failure Unit :=
  let cells := upstream.map search.recordId
  let keys := cells.filter (· ≠ .null)
  let nullCount := cells.length - keys.length
  let duplicateCount := keys.length - keys.dedup.length
  if nullCount = 0 ∧ duplicateCount = 0 then .ok ()
  else .error (.adapterError ("Table snapshot key domain is invalid: " ++ toString nullCount ++
    " NULL and " ++ toString duplicateCount ++ " duplicate value(s)"))

/-- The keys that the absence probe finds in the upstream relation. -/
def upstreamKeys (upstream : List R) : List String :=
  upstream.filterMap fun raw =>
    match search.recordId raw with
    | .string k => some k
    | _ => none

variable {search}

/-- The rows are the indexed upstream rows, one for one. -/
def Indexed (search : SearchModel R V) : List R → List (IndexedRow V) → Prop :=
  List.Forall₂ fun raw row => indexedRow search raw = .ok row

theorem indexedRows_eq_ok {batch : List R} {rows : List (IndexedRow V)} :
    indexedRows search batch = .ok rows ↔ Indexed search batch rows := by
  induction batch generalizing rows with
  | nil => simp [indexedRows, Indexed, eq_comm]
  | cons raw batch ih =>
    simp only [indexedRows, bind, Except.bind, Indexed, List.forall₂_cons_left_iff]
    cases hrow : indexedRow search raw with
    | error e => simp
    | ok row =>
      cases hrows : indexedRows search batch with
      | error e =>
        simp only [reduceCtorEq, Except.ok.injEq, false_iff, not_exists, not_and]
        intro row' rest _ hrest
        rw [ih.mpr hrest] at hrows
        cases hrows
      | ok rest =>
        simp only [pure, Except.pure, Except.ok.injEq]
        constructor
        · rintro rfl
          exact ⟨row, rest, rfl, ih.mp hrows, rfl⟩
        · rintro ⟨row', rest', rfl, hrest, rfl⟩
          rw [ih.mpr hrest] at hrows
          cases hrows
          rfl

/-- An indexed row carries the id and the fingerprint of its record. -/
theorem indexedRow_eq_ok {raw : R} {row : IndexedRow V} (h : indexedRow search raw = .ok row) :
    search.recordId raw = .string row.recordId ∧ row.recordId ≠ "" ∧
      row.inputFingerprint = search.fingerprint row.values := by
  unfold indexedRow at h
  split at h
  · rename_i id hid
    split at h
    · cases h
    · rename_i hvalid
      cases hv : search.normalize raw with
      | error e => simp [hv, bind, Except.bind] at h
      | ok v =>
        simp only [hv, bind, Except.bind, pure, Except.pure, Except.ok.injEq] at h
        subst h
        exact ⟨hid, fun he => hvalid (.inl he), rfl⟩
  · cases h

theorem Indexed.recordIds {batch : List R} {rows : List (IndexedRow V)}
    (h : Indexed search batch rows) :
    rows.map (·.recordId) = upstreamKeys search batch := by
  induction h with
  | nil => rfl
  | cons hrow _ ih =>
    rw [List.map_cons, ih]
    simp only [upstreamKeys, List.filterMap_cons, (indexedRow_eq_ok hrow).1]

theorem Indexed.exists_raw {batch : List R} {rows : List (IndexedRow V)}
    (h : Indexed search batch rows) {row : IndexedRow V} (hrow : row ∈ rows) :
    ∃ raw ∈ batch, indexedRow search raw = .ok row := by
  induction h with
  | nil => cases hrow
  | cons hhead _ ih =>
    rcases List.mem_cons.mp hrow with rfl | hrow
    · exact ⟨_, List.mem_cons_self, hhead⟩
    · obtain ⟨raw, hraw, hok⟩ := ih hrow
      exact ⟨raw, List.mem_cons_of_mem _ hraw, hok⟩

theorem Indexed.exists_row {batch : List R} {rows : List (IndexedRow V)}
    (h : Indexed search batch rows) {raw : R} (hraw : raw ∈ batch) :
    ∃ row ∈ rows, indexedRow search raw = .ok row := by
  induction h with
  | nil => cases hraw
  | cons hhead _ ih =>
    rcases List.mem_cons.mp hraw with rfl | hraw
    · exact ⟨_, List.mem_cons_self, hhead⟩
    · obtain ⟨row, hrow, hok⟩ := ih hraw
      exact ⟨row, List.mem_cons_of_mem _ hrow, hok⟩

/-- A validated snapshot has no two records with one key. -/
theorem nodup_upstreamKeys {upstream : List R} {u : Unit}
    (h : validateKeyDomain search upstream = .ok u) : (upstreamKeys search upstream).Nodup := by
  simp only [validateKeyDomain] at h
  split at h
  · rename_i hcount
    set keys := (upstream.map search.recordId).filter (· ≠ .null) with hkeys
    have hle : keys.dedup.length ≤ keys.length := (List.dedup_sublist keys).length_le
    have hself : keys.dedup = keys :=
      (List.dedup_sublist keys).eq_of_length (by omega)
    have hnodup : keys.Nodup := List.dedup_eq_self.mp hself
    have hmap : upstreamKeys search upstream = keys.filterMap fun cell =>
        match cell with
        | .string k => some k
        | _ => none := by
      rw [hkeys, List.filterMap_filter, List.filterMap_map, upstreamKeys]
      congr 1
      funext raw
      simp only [Function.comp_apply]
      cases search.recordId raw <;> simp
    rw [hmap]
    refine hnodup.filterMap fun a b k ha hb => ?_
    cases a <;> cases b <;> simp_all
  · cases h

end Rows

/-- `UpstreamRecord`. -/
structure UpstreamRecord where
  recordKey : String
  inputFingerprint : String
  deriving DecidableEq, Repr

/-- `BatchClassification`. -/
structure BatchClassification where
  new : List UpstreamRecord := []
  changed : List UpstreamRecord := []
  unchanged : List UpstreamRecord := []
  deriving DecidableEq, Repr

/-- `classify_batch`. -/
def classifyBatch (prior : List (String × StateValue)) (codeVersion : String)
    (forcePublish : Bool) : List UpstreamRecord → BatchClassification
  | [] => {}
  | record :: records =>
    let rest := classifyBatch prior codeVersion forcePublish records
    match prior.lookup record.recordKey with
    | none => { rest with new := record :: rest.new }
    | some previous =>
      if ¬ forcePublish ∧ previous.inputFingerprint = record.inputFingerprint ∧
          previous.codeVersion = codeVersion then
        { rest with unchanged := record :: rest.unchanged }
      else { rest with changed := record :: rest.changed }

/-- The pending records are those that the prior state does not vouch for. -/
theorem mem_pendingKeys {prior : List (String × StateValue)} {codeVersion : String}
    {forcePublish : Bool} {records : List UpstreamRecord} {k : String} :
    k ∈ ((classifyBatch prior codeVersion forcePublish records).new ++
        (classifyBatch prior codeVersion forcePublish records).changed).map (·.recordKey) ↔
      ∃ r ∈ records, r.recordKey = k ∧
        ¬ (forcePublish = false ∧
          prior.lookup r.recordKey = some ⟨r.inputFingerprint, codeVersion⟩) := by
  induction records with
  | nil => simp [classifyBatch]
  | cons r records ih =>
    rw [List.mem_map] at ih ⊢
    simp only [List.mem_append, List.mem_cons, exists_eq_or_imp] at ih ⊢
    rw [← ih]
    simp only [classifyBatch]
    cases hp : prior.lookup r.recordKey with
    | none =>
      simp only [List.mem_cons, reduceCtorEq, and_false, not_false_eq_true, and_true]
      constructor
      · rintro ⟨x, (rfl | hx) | hx, rfl⟩
        · exact .inl rfl
        · exact .inr ⟨x, .inl hx, rfl⟩
        · exact .inr ⟨x, .inr hx, rfl⟩
      · rintro (rfl | ⟨x, hx | hx, rfl⟩)
        · exact ⟨r, .inl (.inl rfl), rfl⟩
        · exact ⟨x, .inl (.inr hx), rfl⟩
        · exact ⟨x, .inr hx, rfl⟩
    | some v =>
      have hv : (¬ forcePublish = true ∧ v.inputFingerprint = r.inputFingerprint ∧
          v.codeVersion = codeVersion) ↔
          (forcePublish = false ∧ some v = some ⟨r.inputFingerprint, codeVersion⟩) := by
        cases v
        simp
      by_cases hu : forcePublish = false ∧ some v = some ⟨r.inputFingerprint, codeVersion⟩
      · simp only [if_pos (hv.mpr hu)]
        simp [hu]
      · simp only [if_neg fun h => hu (hv.mp h)]
        simp only [hu, not_false_eq_true, and_true, List.mem_cons]
        constructor
        · rintro ⟨x, hx | rfl | hx, rfl⟩
          · exact .inr ⟨x, .inl hx, rfl⟩
          · exact .inl rfl
          · exact .inr ⟨x, .inr hx, rfl⟩
        · rintro (rfl | ⟨x, hx | hx, rfl⟩)
          · exact ⟨r, .inr (.inl rfl), rfl⟩
          · exact ⟨x, .inl hx, rfl⟩
          · exact ⟨x, .inr (.inr hx), rfl⟩

/-! ### The collection -/

/-- `_schema_matches_by_name`: equality of the two schemas as dicts. -/
def schemaMatchesByName (existing declared : List (String × String)) : Bool :=
  (existing ++ declared).all fun c =>
    existing.reverse.lookup c.1 = declared.reverse.lookup c.1

section Publication

variable {R V : Type} (search : SearchModel R V)

/-- `_validate_collection_schema`. -/
def validateCollectionSchema (existing : CollectionMetadata) : Except Failure Unit :=
  if schemaMatchesByName existing.schema search.spec.arrowSchema then .ok ()
  else .error (.runError "Search index schema does not match the declared collection contract")

/-- `_verify_collection_config`. -/
def verifyCollectionConfig (existing : CollectionMetadata) : SearchProg V Bool :=
  match existing.descriptor with
  | none =>
    if existing.configFingerprint = some search.spec.legacyConfigFingerprint then do
      data (.restampCollection search.spec)
      return false
    else .throw (.runError ("Search index configuration changed. This collection predates " ++
      "configuration classification, so the changed fields cannot be named; publish under a " ++
      "new collection name, validate it, and cut consumers over."))
  | some descriptor =>
    if descriptor = search.spec.descriptor then .pure false
    else
      let changes := search.descriptorChanges descriptor search.spec.descriptor
      let detail := if changes.2 = "" then "store contract" else changes.2
      if changes.1 then
        .throw (.runError ("Search index configuration changed and requires a rebuild: " ++
          detail ++ ". Rows already written were indexed under the previous definition, so " ++
          "publish under a new collection name, validate it, and cut consumers over."))
      else if search.onIndexChange = .online then do
        let added := (search.spec.arrowSchema.map Prod.fst).filter
          (· ∉ existing.schema.map Prod.fst)
        data (.evolveCollection search.spec added)
        return true
      else
        .throw (.runError ("Search index configuration changed: " ++ detail ++ ". The change " ++
          "is additive and the existing collection could serve it — set `on_index_change: " ++
          "online` to widen it in place, or publish under a new collection name."))

/-- The checks on a collection that exists before the publication. -/
def checkCollection : Option CollectionMetadata → SearchProg V Unit
  | none => .pure ()
  | some existing => do
    let evolved ← verifyCollectionConfig search existing
    if evolved then do
      let now ← data .inspectCollection
      .ofExcept (validateCollectionSchema search (now.getD existing))
    else .ofExcept (validateCollectionSchema search existing)

/-! ### The loops -/

/-- The locals of the executor that its loops change. -/
structure Progress where
  counts : Counts := {}
  rowsSeen : ℕ := 0
  rowsWritten : ℕ := 0
  collectionExists : Bool
  deriving DecidableEq, Repr

/-- Refuses a receipt that does not acknowledge every row. -/
def requireReceipt (receipt : MutationReceipt) (expected : ℕ) (message : String) :
    Except Failure Unit :=
  if ¬ receipt.acknowledged ∨ receipt.outcomes ≠ expected then .error (.runError message)
  else .ok ()

/-- Revokes the governed rows that a batch is about to change. -/
def revokeChanged (changedIds : List String) : SearchProg V Unit :=
  if search.governed ∧ changedIds ≠ [] then do
    let receipt ← data (.delete changedIds)
    .ofExcept (requireReceipt receipt changedIds.length
      "Retrieval store did not return an exact durable governed-revoke receipt")
  else .pure ()

/-- Creates the collection unless it exists. -/
def ensureCollection (collectionExists : Bool) : SearchProg V Unit :=
  if collectionExists then .pure () else data (.createCollection search.spec)

/-- Writes the pending rows of a batch to the store, and then their state. -/
def publishPending (lease : PublishLease) (p : Progress) (prior : List (String × StateValue))
    (pending : List (IndexedRow V)) (inserted updated : ℕ) : SearchProg V Progress := do
  ledger (ServingCoordinator.verifyPublish lease)
  ensureCollection search p.collectionExists
  revokeChanged search ((pending.filter fun row => (prior.lookup row.recordId).isSome).map
    (·.recordId))
  let receipt ← data (.upsert pending)
  Prog.ofExcept (requireReceipt receipt pending.length
    "Retrieval store did not return an exact durable upsert receipt")
  ledger (ServingCoordinator.verifyPublish lease)
  data (.upsertState (pending.map fun row =>
    ⟨row.recordId, row.inputFingerprint, search.codeVersion⟩))
  let counts := { p.counts with
    inserted := p.counts.inserted + inserted
    updated := p.counts.updated + updated }
  data (.setCounts counts)
  return { p with
    counts := counts
    rowsWritten := p.rowsWritten + pending.length
    collectionExists := true }

/-- `prior_state_for`, which a batch without records does not call. -/
def priorStateFor (records : List UpstreamRecord) : SearchProg V (List (String × StateValue)) :=
  if records = [] then .pure [] else data (.fetchStateSubset (records.map (·.recordKey)))

/-- The body of the loop over the batches of the upstream snapshot. -/
def publishBatch (lease : PublishLease) (forcePublish : Bool) (p : Progress) (batch : List R) :
    SearchProg V Progress := do
  let indexed ← Prog.ofExcept (indexedRows search batch)
  let records := indexed.map fun row => UpstreamRecord.mk row.recordId row.inputFingerprint
  let prior ← priorStateFor records
  let outcome := classifyBatch prior search.codeVersion forcePublish records
  let counts := { p.counts with skipped := p.counts.skipped + outcome.unchanged.length }
  data (.setCounts counts)
  let pendingKeys := (outcome.new ++ outcome.changed).map (·.recordKey)
  let pending := indexed.filter (·.recordId ∈ pendingKeys)
  let p := { p with counts := counts, rowsSeen := p.rowsSeen + indexed.length }
  if pending = [] then return p
  else publishPending search lease p prior pending outcome.new.length outcome.changed.length

/-- The body of the loop over the pages of stale state records. -/
def publishStalePage (lease : PublishLease) (p : Progress) (stalePage : List StateRecord) :
    SearchProg V Progress := do
  let recordIds := stalePage.map (·.recordKey)
  ledger (ServingCoordinator.verifyPublish lease)
  let receipt ← data (.delete recordIds)
  Prog.ofExcept (requireReceipt receipt recordIds.length
    "Retrieval store did not return an exact durable delete receipt")
  data (.deleteState recordIds)
  let counts := { p.counts with deleted := p.counts.deleted + recordIds.length }
  data (.setCounts counts)
  return { p with counts := counts }

/-- The loop over the stale pages, which the error of the page reader may end. -/
def publishStale (lease : PublishLease) (p : Progress) (keys : List String) :
    SearchProg V Progress := do
  let snapshot ← data (.openStatePages keys)
  let pages := iterStalePages search.nonce search.batchSize snapshot
  let p ← Prog.foldM (publishStalePage lease) p pages.1
  match pages.2 with
  | none => return p
  | some e => .throw e

/-- The publication up to the indexes of the collection. -/
def reconcile (lease : PublishLease) (batches : List (List R)) :
    SearchProg V (CollectionMetadata × Progress) := do
  let existing ← data .inspectCollection
  checkCollection search existing
  let p ← Prog.foldM (publishBatch search lease existing.isNone)
    { collectionExists := existing.isSome } batches
  let p ← publishStale search lease p (upstreamKeys search batches.flatten)
  if p.collectionExists then
    let metadata ← data .ensureIndexes
    return (metadata, p)
  else do
    ledger (ServingCoordinator.verifyPublish lease)
    data (.createCollection search.spec)
    let metadata ← data .ensureIndexes
    return (metadata, p)

/-- The publication up to the generation that can be activated. -/
def publishCollection (lease : PublishLease) (batches : List (List R)) :
    SearchProg V (String × Progress) := do
  let (metadata, p) ← reconcile search lease batches
  if metadata.configFingerprint ≠ some search.spec.configFingerprint then
    .throw (.runError
      "Retrieval collection failed post-publication configuration validation")
  else if metadata.rowCount ≠ p.rowsSeen then
    .throw (.runError "Retrieval collection failed post-publication row-count validation")
  else return (metadata.physicalGeneration, p)

/-! ### The attempt -/

/-- The fields of `ModelRunResult` that a publication reports about itself. -/
structure SearchRunResult where
  counts : Counts
  rowsWritten : ℕ
  activeGeneration : String
  fencingToken : ℕ
  deriving DecidableEq, Repr

/-- The exceptions that the handler turns into a `RunError`. -/
def isHandled : Failure → Bool
  | .adapterError _ | .runError _ => true
  | e => e.isRetrieval

/-- `raise` for a `RunError`, `raise RunError(str(error))` otherwise. -/
def asRunError : Failure → Failure
  | .runError m => .runError m
  | e => if isHandled e then .runError e.message else e

/-- `_mark_search_publication_failed`. -/
def markSearchPublicationFailed (lease : PublishLease) (error : Failure) (counts : Counts) :
    Coord Unit :=
  let code :=
    if error.isCoordination then "coordination_error"
    else if error.isRetrieval then "store_error"
    else match error with
      | .adapterError _ => "warehouse_error"
      | _ => "publication_failed"
  (ServingCoordinator.markFailed lease code counts).tryCatch fun e =>
    if e.isCoordination then .pure () else .throw e

/-- The attempt up to the publication lease. -/
def acquireLease (batches : List (List R)) : SearchProg V PublishLease := do
  ledger ServingCoordinator.ensureTables
  data (.setCounts {})
  (do Prog.ofExcept (validateKeyDomain search batches.flatten)
      ledger (ServingCoordinator.acquirePublish search.scope search.codeVersion
        search.spec.configFingerprint)).tryCatch fun e => .throw (asRunError e)

/-- The attempt under its lease, up to the activation. -/
def publishUnderLease (lease : PublishLease) (batches : List (List R)) :
    SearchProg V (String × Progress) := do
  let result ← publishCollection search lease batches
  ledger (ServingCoordinator.verifyPublish lease)
  return result

/-- The exception handler. -/
def failPublication {α : Type} (lease : PublishLease) (e : Failure) : SearchProg V α :=
  if isHandled e then do
    let counts ← data .getCounts
    ledger (markSearchPublicationFailed lease e counts)
    .throw (asRunError e)
  else .throw e

/-- `run_search_model`, on the batches in which the upstream snapshot is read. -/
def runSearchModel (batches : List (List R)) : SearchProg V SearchRunResult := do
  let lease ← acquireLease search batches
  (do let (generation, p) ← publishUnderLease search lease batches
      ledger (ServingCoordinator.markReady lease generation search.spec.configFingerprint
        p.counts)
      return SearchRunResult.mk p.counts p.rowsWritten generation lease.fencingToken).tryCatch
    (failPublication lease)

/-- The part of an attempt before its call of `mark_ready`. -/
def untilMarkReady (batches : List (List R)) : SearchProg V (String × Progress) := do
  let lease ← acquireLease search batches
  publishUnderLease search lease batches

end Publication

end Stel.Search
