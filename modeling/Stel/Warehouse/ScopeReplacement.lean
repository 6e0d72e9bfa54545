import Stel.Program.Transaction
import Stel.Retrieval.ServingLedger
import Stel.Warehouse.StateTable
import Mathlib.Data.List.Nodup

/-!
# Replacing a state scope

`replace_state_scope` of `adapters/base.py` on both adapters. DuckDB verifies the fence, clears the
scope and inserts batch by batch in one transaction. BigQuery stages the batches and replaces the scope
in one MERGE, whose source query checks the fence and the staged keys and holds a sentinel row.

## Main definitions

* `RecordBatches`, `validatedStateBatches`: the batches, which may raise midway.
* `StateStore`, `StateRow`: the state table, the serving ledger and the staging table.
* `replaceStateScope`: the operation on either adapter.
* `Admissible`, `ScopeReplaced`: when the scope is replaced, and by what.

## Main results

* `replaceStateScope_spec`: the scope is replaced, or the operation raises and changes nothing, alike
  on both adapters, with `StaleStateFenceError` for a stale fence unless the records are refused first.
* `stale_fence_hidden`: BigQuery raises the error of the batches before it looks at the fence.
-/

namespace Stel.Warehouse

open Retrieval (StateScope LedgerRow)

/-! ### Batches -/

/-- An iterator of record batches: those that it yields, and what it raises after them. -/
structure RecordBatches where
  batches : List (List StateRecord)
  raises : Option Failure := none

/-- `_validated_state_batches`: the batches that are not empty, up to one that repeats a key. -/
def validatedStateBatches (raises : Option Failure) : List (List StateRecord) → RecordBatches
  | [] => ⟨[], raises⟩
  | batch :: batches =>
    match validateStateRecords batch with
    | .error e => ⟨[], some e⟩
    | .ok () =>
      let rest := validatedStateBatches raises batches
      if batch = [] then rest else ⟨batch :: rest.batches, rest.raises⟩

/-- The keys of records. -/
def recordKeys (records : List StateRecord) : List String := records.map StateRecord.recordKey

/-! ### The warehouse -/

/-- `StateScopeFence`, as its `__post_init__` accepts it. -/
structure StateScopeFence where
  publicationId : String
  fencingToken : ℕ
  named : publicationId ≠ ""
  positive : 1 ≤ fencingToken

/-- A row of the state table. -/
structure StateRow (τ : Type) where
  scope : StateScope
  record : StateRecord
  lastRunAt : τ
  deriving DecidableEq

/-- The tables that the operation reads and writes. There may be no serving ledger, and the staging
table has a name of its own. -/
structure StateStore (τ : Type) where
  rows : List (StateRow τ)
  ledger : Option (List LedgerRow)
  staging : Option (List StateRecord) := none

/-- What the gate of the MERGE raises, or its analysis without a ledger. -/
inductive MergeError
  | staleFence
  | duplicateKeys
  | ledgerNotFound
  | ambiguousSource
  deriving DecidableEq

inductive ReplaceFailure
  | staleStateFenceError (message : String)
  | constraintException
  | query (error : MergeError)
  | raised (error : Failure)
  deriving DecidableEq

/-- The ledger rows of a scope that carry the claim of a fence. -/
def claimRows (ledger : List LedgerRow) (scope : StateScope) (fence : StateScopeFence) :
    List LedgerRow :=
  ledger.filter fun row => row.scope = scope ∧ row.publicationId = some fence.publicationId ∧
    row.fencingToken = fence.fencingToken

/-- The error of a claim that was reassigned. -/
def reassigned : ReplaceFailure :=
  .staleStateFenceError ("Serving publication authority was reassigned; state scope replacement " ++
    "aborted without mutation")

/-- The error of keys that are repeated in different batches. -/
def duplicateKeys : ReplaceFailure :=
  .raised (.adapterError "State scope replacement contains duplicate record keys across batches")

section Operations

variable {τ : Type} (scope : StateScope) (now : τ)

abbrev StateScript (τ α : Type) : Type := Script Unit (StateStore τ) ReplaceFailure α

/-! ### DuckDB -/

/-- `_verify_state_fence`: an UPDATE that assigns the token to itself, and the number of its rows. -/
def verifyStateFence (fence : StateScopeFence) : StateScript τ Unit := do
  let s ← Script.query ()
  match s.ledger with
  | none => .throw (.staleStateFenceError
      "Fenced state replacement requires a serving ledger, and this schema has none")
  | some ledger => if (claimRows ledger scope fence).length ≠ 1 then .throw reassigned else .pure ()

/-- `_clear_state_rows`. -/
def clearStateRows (s : StateStore τ) : Except ReplaceFailure (StateStore τ) :=
  .ok { s with rows := s.rows.filter fun row => row.scope ≠ scope }

/-- An INSERT, which the primary key refuses if there is a row with the key. -/
def insertStateRow (rows : List (StateRow τ)) (r : StateRecord) :
    Except ReplaceFailure (List (StateRow τ)) :=
  if rows.any fun row => row.scope = scope ∧ row.record.recordKey = r.recordKey then
    .error .constraintException
  else .ok (rows ++ [⟨scope, r, now⟩])

/-- `_insert_state_rows`. -/
def insertStateRows (batch : List StateRecord) (s : StateStore τ) :
    Except ReplaceFailure (StateStore τ) :=
  (batch.foldlM (insertStateRow scope now) s.rows).map fun rows => { s with rows := rows }

/-- `for batch in record_batches: self._insert_state_rows(scope, batch)`. -/
def insertBatches (batches : List (List StateRecord)) : StateScript τ PUnit :=
  Prog.forEach (fun batch => do
    let _ ← Script.statement () (insertStateRows scope now batch)
    return ⟨⟩) batches

/-- What the iterator of batches does after the last one. -/
def finishBatches (input : RecordBatches) : StateScript τ Unit :=
  match input.raises with
  | none => .pure ()
  | some e => .throw (.raised e)

/-- The fence, if there is one. -/
def verifyFence (fence : Option StateScopeFence) : StateScript τ Unit :=
  match fence with
  | none => .pure ()
  | some fence => verifyStateFence scope fence

/-- The body of the transaction. -/
def replaceBody (input : RecordBatches) (fence : Option StateScopeFence) : StateScript τ Unit := do
  verifyFence scope fence
  let _ ← Script.statement () (clearStateRows scope)
  insertBatches scope now input.batches
  finishBatches input

/-- `DuckDBAdapter._replace_state_scope`. -/
def replaceStateScopeDuckdb (input : RecordBatches) (fence : Option StateScopeFence) :
    StateScript τ ℕ := do
  let _ ← (Script.transaction () () () (replaceBody scope now input fence)).tryCatch fun
      | .constraintException => .throw duplicateKeys
      | e => .throw e
  return input.batches.flatten.length

/-! ### BigQuery -/

/-- The check of the staged keys: their number, less that of the distinct ones, is zero. -/
def checkRecordKeys (staged : List StateRecord) : Except MergeError Unit :=
  if (recordKeys staged).length - (recordKeys staged).dedup.length = 0 then .ok ()
  else .error .duplicateKeys

/-- The check of the fence: the ledger has one row with its claim. -/
def checkFence (ledger : List LedgerRow) (fence : StateScopeFence) : Except MergeError Unit :=
  if (claimRows ledger scope fence).length = 1 then .ok () else .error .staleFence

/-- The gate in the source query of the MERGE, whose checks are evaluated in either order. -/
def gate (fenceFirst : Bool) (fence : Option StateScopeFence) (ledger : Option (List LedgerRow))
    (staged : List StateRecord) : Except MergeError Unit :=
  match fence with
  | none => checkRecordKeys staged
  | some fence =>
    match ledger with
    | none => .error .ledgerNotFound
    | some ledger =>
      if fenceFirst then checkFence scope ledger fence >>= fun _ => checkRecordKeys staged
      else checkRecordKeys staged >>= fun _ => checkFence scope ledger fence

/-- The join condition of the MERGE; `none` is the sentinel row. -/
def mergeOn (target : StateRow τ) (source : Option StateRecord) : Bool :=
  match source with
  | none => false
  | some r => target.scope = scope ∧ target.record.recordKey = r.recordKey

/-- What the MERGE makes of a row of the state table. -/
def mergeTarget (source : List (Option StateRecord)) (target : StateRow τ) : Option (StateRow τ) :=
  match source.find? (mergeOn scope target) with
  | some (some r) => some ⟨target.scope, r, now⟩
  | _ => if target.scope = scope then none else some target

/-- The MERGE. A row of the state table that two source rows match is an error. -/
def mergeState (fenceFirst : Bool) (fence : Option StateScopeFence) (s : StateStore τ) :
    Except ReplaceFailure (StateStore τ) := do
  let staged := s.staging.getD []
  (gate scope fenceFirst fence s.ledger staged).mapError .query
  let source := staged.map some ++ [none]
  if s.rows.any fun target => 1 < (source.filter (mergeOn scope target)).length then
    .error (.query .ambiguousSource)
  else
    let inserted := staged.filter fun r => ¬ ∃ target ∈ s.rows, mergeOn scope target (some r) = true
    .ok { s with rows := s.rows.filterMap (mergeTarget scope now source) ++
                   inserted.map fun r => ⟨scope, r, now⟩ }

/-- The handler of `_run_state_replace_merge`. -/
def mergeFailure : ReplaceFailure → ReplaceFailure
  | .query .staleFence => reassigned
  | .query .duplicateKeys => duplicateKeys
  | .query .ledgerNotFound => .staleStateFenceError
      "Fenced state replacement requires a serving ledger, and this dataset has none"
  | e => e

/-- `_run_state_replace_merge`. -/
def runStateReplaceMerge (fenceFirst : Bool) (fence : Option StateScopeFence) :
    StateScript τ Unit :=
  (do
    let _ ← Script.statement () (mergeState scope now fenceFirst fence)
    return ()).tryCatch fun e => .throw (mergeFailure e)

/-- `_load_parquet` of a batch, appending to the staging table. -/
def loadBatch (batch : List StateRecord) (s : StateStore τ) :
    Except ReplaceFailure (StateStore τ) :=
  .ok { s with staging := some (s.staging.getD [] ++ batch) }

/-- `for batch in record_batches: self._load_parquet(staging, …)`. -/
def loadBatches (batches : List (List StateRecord)) : StateScript τ PUnit :=
  Prog.forEach (fun batch => do
    let _ ← Script.statement () (loadBatch batch)
    return ⟨⟩) batches

/-- The staging table of a replacement without rows. -/
def createStaging (total : ℕ) (s : StateStore τ) : Except ReplaceFailure (StateStore τ) :=
  .ok (if total = 0 then { s with staging := some [] } else s)

/-- The body of the `try`. -/
def stageAndMerge (fenceFirst : Bool) (input : RecordBatches) (fence : Option StateScopeFence) :
    StateScript τ ℕ := do
  loadBatches input.batches
  finishBatches input
  let _ ← Script.statement () (createStaging input.batches.flatten.length)
  runStateReplaceMerge scope now fenceFirst fence
  return input.batches.flatten.length

/-- `self.client.delete_table(self._table_id(staging), not_found_ok=True)`. -/
def dropStaging : StateScript τ PUnit := do
  let _ ← Script.statement () fun s => .ok { s with staging := none }
  return ⟨⟩

/-- `BigQueryAdapter._replace_state_scope`. -/
def replaceStateScopeBigquery (fenceFirst : Bool) (input : RecordBatches)
    (fence : Option StateScopeFence) : StateScript τ ℕ :=
  Prog.andFinally (stageAndMerge scope now fenceFirst input fence) dropStaging

end Operations

/-! ### The operation -/

/-- An adapter. BigQuery evaluates the two checks of the gate in either order. -/
inductive StateAdapter
  | duckdb
  | bigquery (fenceFirst : Bool)
  deriving DecidableEq

/-- `replace_state_scope`. -/
def replaceStateScope {τ : Type} (adapter : StateAdapter) (scope : StateScope) (now : τ)
    (input : RecordBatches) (fence : Option StateScopeFence) (s : StateStore τ) :
    StateStore τ × Except ReplaceFailure ℕ :=
  let validated := validatedStateBatches input.raises input.batches
  let script := match adapter with
    | .duckdb => replaceStateScopeDuckdb scope now validated fence
    | .bigquery fenceFirst => replaceStateScopeBigquery scope now fenceFirst validated fence
  let result := script.exec (Session.interp fun _ => none) ⟨s, none⟩
  (result.1.store, result.2)

/-- The ledger carries the claim of a fence. -/
def FenceHolds (ledger : Option (List LedgerRow)) (scope : StateScope) (fence : StateScopeFence) :
    Prop :=
  ∃ rows ∈ ledger, (claimRows rows scope fence).length = 1

/-- The fence holds, the batches do not raise, and no key is repeated. -/
structure Admissible (ledger : Option (List LedgerRow)) (scope : StateScope) (input : RecordBatches)
    (fence : Option StateScopeFence) : Prop where
  fence : ∀ f ∈ fence, FenceHolds ledger scope f
  completes : input.raises = none
  distinct : (recordKeys input.batches.flatten).Nodup

/-- The primary key of a row. -/
def StateRow.key {τ : Type} (row : StateRow τ) : StateScope × String :=
  (row.scope, row.record.recordKey)

/-- A state table, with its primary key. -/
structure StateTableRows (τ : Type) where
  rows : List (StateRow τ)
  nodup : (rows.map StateRow.key).Nodup

/-- The rows of the scope are the records, and the other rows are those from before. -/
structure ScopeReplaced {τ : Type} (scope : StateScope) (now : τ) (records : List StateRecord)
    (before after : List (StateRow τ)) : Prop where
  replaced : (after.filter fun row => row.scope = scope).Perm
    (records.map fun r => ⟨scope, r, now⟩)
  others : (after.filter fun row => ¬ row.scope = scope) =
    before.filter fun row => ¬ row.scope = scope

/-! ### The batches -/

section Batches

variable {raises : Option Failure} {batches : List (List StateRecord)}

theorem validated_raises : (validatedStateBatches raises batches).raises = none ↔
    raises = none ∧ ∀ batch ∈ batches, (recordKeys batch).Nodup := by
  induction batches with
  | nil => simp [validatedStateBatches]
  | cons batch batches ih =>
    rw [validatedStateBatches, validateStateRecords]
    by_cases hbatch : (batch.map fun r => r.recordKey).Nodup
    · have hrest : (if batch = [] then validatedStateBatches raises batches else
          ⟨batch :: (validatedStateBatches raises batches).batches,
            (validatedStateBatches raises batches).raises⟩ : RecordBatches).raises =
          (validatedStateBatches raises batches).raises := by
        split <;> rfl
      rw [if_pos hbatch]
      simp only [hrest, ih, List.forall_mem_cons]
      exact ⟨fun h => ⟨h.1, hbatch, h.2⟩, fun h => ⟨h.1, h.2.2⟩⟩
    · rw [if_neg hbatch]
      simp only [List.forall_mem_cons, reduceCtorEq, false_iff]
      exact fun h => hbatch h.2.1

theorem validated_flatten (h : (validatedStateBatches raises batches).raises = none) :
    (validatedStateBatches raises batches).batches.flatten = batches.flatten := by
  induction batches with
  | nil => rfl
  | cons batch batches ih =>
    obtain ⟨hraises, hall⟩ := validated_raises.mp h
    obtain ⟨hbatch, hall⟩ := List.forall_mem_cons.mp hall
    have hrest := ih (validated_raises.mpr ⟨hraises, hall⟩)
    have hkeys : (batch.map fun r => r.recordKey).Nodup := hbatch
    rw [validatedStateBatches, validateStateRecords, if_pos hkeys]
    by_cases hempty : batch = []
    · simp [hempty, hrest]
    · simp [hempty, hrest]

/-- The batches can be refused for two reasons only. -/
theorem admissible_iff {ledger : Option (List LedgerRow)} {scope : StateScope}
    {fence : Option StateScopeFence} : Admissible ledger scope ⟨batches, raises⟩ fence ↔
      (∀ f ∈ fence, FenceHolds ledger scope f) ∧
        (validatedStateBatches raises batches).raises = none ∧
          (recordKeys (validatedStateBatches raises batches).batches.flatten).Nodup := by
  constructor
  · rintro ⟨hfence, hraises, hdistinct⟩
    have hall : ∀ batch ∈ batches, (recordKeys batch).Nodup := fun batch hbatch =>
      hdistinct.sublist ((List.sublist_flatten_of_mem hbatch).map _)
    have hvalid := validated_raises.mpr ⟨hraises, hall⟩
    exact ⟨hfence, hvalid, by rw [validated_flatten hvalid]; exact hdistinct⟩
  · rintro ⟨hfence, hvalid, hdistinct⟩
    rw [validated_flatten hvalid] at hdistinct
    exact ⟨hfence, (validated_raises.mp hvalid).1, hdistinct⟩

end Batches

/-! ### DuckDB -/

section Duckdb

variable {τ : Type} {scope : StateScope} {now : τ}

/-- The keys of the rows of a scope. -/
def scopeKeys (scope : StateScope) (rows : List (StateRow τ)) : List String :=
  (rows.filter fun row => row.scope = scope).map fun row => row.record.recordKey

/-- The rows of records. -/
def recordRows (scope : StateScope) (now : τ) (records : List StateRecord) : List (StateRow τ) :=
  records.map fun r => ⟨scope, r, now⟩

theorem scopeKeys_append_recordRows (scope : StateScope) (now : τ) (rows : List (StateRow τ))
    (records : List StateRecord) :
    scopeKeys scope (rows ++ recordRows scope now records) =
      scopeKeys scope rows ++ recordKeys records := by
  have hall : (recordRows scope now records).filter (fun row => row.scope = scope) =
      recordRows scope now records := List.filter_eq_self.mpr fun row hrow => by
    obtain ⟨r, -, rfl⟩ := List.mem_map.mp hrow
    exact decide_eq_true rfl
  rw [scopeKeys, List.filter_append, hall, List.map_append, recordRows, List.map_map]
  rfl

/-- Inserting records one by one. -/
theorem insertStateRows_eq (batch : List StateRecord) {rows : List (StateRow τ)}
    (hrows : (scopeKeys scope rows).Nodup) :
    batch.foldlM (insertStateRow scope now) rows =
      if (scopeKeys scope rows ++ recordKeys batch).Nodup then
        .ok (rows ++ recordRows scope now batch)
      else .error .constraintException := by
  induction batch generalizing rows with
  | nil => simp [recordKeys, recordRows, hrows, pure, Except.pure]
  | cons r batch ih =>
    have hany : (rows.any fun row => row.scope = scope ∧ row.record.recordKey = r.recordKey) =
        true ↔ r.recordKey ∈ scopeKeys scope rows := by
      simp [scopeKeys, and_assoc]
    have hkeys := scopeKeys_append_recordRows scope now rows [r]
    rw [List.foldlM_cons, insertStateRow]
    by_cases hr : r.recordKey ∈ scopeKeys scope rows
    · rw [if_pos (hany.mpr hr), if_neg]
      · rfl
      · intro hnodup
        exact (List.nodup_append'.mp hnodup).2.2 hr List.mem_cons_self
    · have hnodup : (scopeKeys scope (rows ++ recordRows scope now [r])).Nodup := by
        rw [hkeys]
        exact List.nodup_append'.mpr ⟨hrows, List.nodup_singleton _, by simpa [recordKeys] using hr⟩
      rw [if_neg (fun h => hr (hany.mp h))]
      refine (ih hnodup).trans ?_
      rw [hkeys]
      simp only [recordKeys, recordRows, List.map_cons, List.map_nil, List.append_assoc,
        List.singleton_append]

theorem exec_insertBatches_cons (batch : List StateRecord) (batches : List (List StateRecord))
    (s : StateStore τ) (saved : Option (StateStore τ)) :
    (insertBatches scope now (batch :: batches)).exec (Session.interp fun _ => none) ⟨s, saved⟩ =
      match insertStateRows scope now batch s with
      | .ok t => (insertBatches scope now batches).exec (Session.interp fun _ => none) ⟨t, saved⟩
      | .error e => (⟨s, saved⟩, .error e) := by
  rw [insertBatches, Prog.forEach, Prog.exec_bind, Prog.exec_bind, Script.exec_statement]
  cases insertStateRows scope now batch s <;> rfl

/-- Inserting batch after batch: all of them, or an exception of the primary key. -/
theorem exec_insertBatches (scope : StateScope) (now : τ) (batches : List (List StateRecord))
    {s : StateStore τ}
    (hrows : (scopeKeys scope s.rows).Nodup) (saved : Option (StateStore τ)) :
    ((scopeKeys scope s.rows ++ recordKeys batches.flatten).Nodup ∧
      (insertBatches scope now batches).exec (Session.interp fun _ => none) ⟨s, saved⟩ =
        (⟨{ s with rows := s.rows ++ recordRows scope now batches.flatten }, saved⟩, .ok ⟨⟩)) ∨
    (¬ (scopeKeys scope s.rows ++ recordKeys batches.flatten).Nodup ∧ ∃ t,
      (insertBatches scope now batches).exec (Session.interp fun _ => none) ⟨s, saved⟩ =
        (⟨t, saved⟩, .error .constraintException)) := by
  induction batches generalizing s with
  | nil =>
    refine .inl ⟨by simpa [recordKeys] using hrows, ?_⟩
    simp [insertBatches, Prog.forEach, recordRows]
  | cons batch batches ih =>
    have hsplit : recordKeys (batch :: batches).flatten =
        recordKeys batch ++ recordKeys batches.flatten := List.map_append
    rw [exec_insertBatches_cons, hsplit, ← List.append_assoc, insertStateRows,
      insertStateRows_eq batch hrows]
    by_cases hbatch : (scopeKeys scope s.rows ++ recordKeys batch).Nodup
    · have hkeys := scopeKeys_append_recordRows scope now s.rows batch
      have hnext := ih (s := { s with rows := s.rows ++ recordRows scope now batch })
        (by rw [hkeys]; exact hbatch)
      have hrecords : recordRows scope now (batch :: batches).flatten =
          recordRows scope now batch ++ recordRows scope now batches.flatten := List.map_append
      rw [if_pos hbatch, hrecords, ← List.append_assoc]
      rw [← hkeys]
      exact hnext
    · rw [if_neg hbatch]
      exact .inr ⟨fun h => hbatch (List.nodup_append'.mp h).1, s, rfl⟩

theorem exec_verifyFence {fence : Option StateScopeFence} {s : StateStore τ}
    (saved : Option (StateStore τ)) (h : ∀ f ∈ fence, FenceHolds s.ledger scope f) :
    (verifyFence scope fence).exec (Session.interp fun _ => none) ⟨s, saved⟩ =
      (⟨s, saved⟩, .ok ()) := by
  cases fence with
  | none => rfl
  | some f =>
    obtain ⟨rows, hrows, hone⟩ := h f rfl
    rw [verifyFence, verifyStateFence, Script.query, Prog.exec_bind, Script.exec_statement]
    simp only [Option.mem_def.mp hrows, hone]
    rfl

theorem exec_verifyFence_stale {f : StateScopeFence} {s : StateStore τ}
    (saved : Option (StateStore τ)) (h : ¬ FenceHolds s.ledger scope f) : ∃ message,
    (verifyFence scope (some f)).exec (Session.interp fun _ => none) ⟨s, saved⟩ =
      (⟨s, saved⟩, .error (.staleStateFenceError message)) := by
  rw [verifyFence, verifyStateFence, Script.query, Prog.exec_bind, Script.exec_statement]
  cases hledger : s.ledger with
  | none => exact ⟨_, by simp only [hledger]; rfl⟩
  | some rows =>
    have hcount : (claimRows rows scope f).length ≠ 1 := fun hone => h ⟨rows, hledger, hone⟩
    refine ⟨"Serving publication authority was reassigned; state scope replacement " ++
      "aborted without mutation", ?_⟩
    simp only [hledger, if_pos hcount]
    rfl

variable {input : RecordBatches} {fence : Option StateScopeFence} {s : StateStore τ}

/-- The body of the transaction, when the fence holds. -/
theorem exec_replaceBody (saved : Option (StateStore τ))
    (h : ∀ f ∈ fence, FenceHolds s.ledger scope f) :
    (input.raises = none ∧ (recordKeys input.batches.flatten).Nodup ∧
      (replaceBody scope now input fence).exec (Session.interp fun _ => none) ⟨s, saved⟩ =
        (⟨{ s with rows := (s.rows.filter fun row => row.scope ≠ scope) ++
              recordRows scope now input.batches.flatten }, saved⟩, .ok ())) ∨
    (¬ (input.raises = none ∧ (recordKeys input.batches.flatten).Nodup) ∧ ∃ t e,
      (replaceBody scope now input fence).exec (Session.interp fun _ => none) ⟨s, saved⟩ =
        (⟨t, saved⟩, .error e)) := by
  have hempty : scopeKeys scope (s.rows.filter fun row => row.scope ≠ scope) = [] := by
    simp [scopeKeys, List.filter_filter]
  have hinserts := exec_insertBatches scope now input.batches
    (s := { s with rows := s.rows.filter fun row => row.scope ≠ scope })
    (by rw [hempty]; exact List.nodup_nil) saved
  simp only [hempty, List.nil_append] at hinserts
  have hclear := Script.exec_statement () (clearStateRows scope) ⟨s, saved⟩
  rw [replaceBody, Prog.exec_bind_ok _ (exec_verifyFence saved h), Prog.exec_bind_ok _ hclear]
  rcases hinserts with ⟨hnodup, hexec⟩ | ⟨hdup, t, hexec⟩
  · rw [Prog.exec_bind_ok _ hexec, finishBatches]
    cases hraises : input.raises with
    | none => exact .inl ⟨rfl, hnodup, rfl⟩
    | some e => exact .inr ⟨fun hnone => Option.some_ne_none e hnone.1, _, _, rfl⟩
  · rw [Prog.exec_bind_error _ hexec]
    exact .inr ⟨fun hnone => hdup hnone.2, t, _, rfl⟩

/-- The transaction on DuckDB replaces the scope, or raises and changes nothing. -/
theorem exec_replaceStateScopeDuckdb (scope : StateScope) (now : τ) (input : RecordBatches)
    (h : ∀ f ∈ fence, FenceHolds s.ledger scope f) :
    (input.raises = none ∧ (recordKeys input.batches.flatten).Nodup ∧
      (replaceStateScopeDuckdb scope now input fence).exec (Session.interp fun _ => none) ⟨s, none⟩ =
        (⟨{ s with rows := (s.rows.filter fun row => row.scope ≠ scope) ++
              recordRows scope now input.batches.flatten }, none⟩,
          .ok input.batches.flatten.length)) ∨
    (¬ (input.raises = none ∧ (recordKeys input.batches.flatten).Nodup) ∧ ∃ e,
      (replaceStateScopeDuckdb scope now input fence).exec (Session.interp fun _ => none) ⟨s, none⟩ =
        (⟨s, none⟩, .error e)) := by
  rw [replaceStateScopeDuckdb, Prog.exec_bind, Prog.exec_tryCatch]
  rcases exec_replaceBody (some s) h with ⟨hraises, hnodup, hexec⟩ | ⟨hnot, t, e, hexec⟩
  · rw [Script.exec_transaction_ok hexec]
    exact .inl ⟨hraises, hnodup, rfl⟩
  · rw [Script.exec_transaction_error hexec rfl]
    refine .inr ⟨hnot, ?_⟩
    cases e <;> exact ⟨_, rfl⟩

theorem exec_replaceStateScopeDuckdb_stale (now : τ) (input : RecordBatches) {f : StateScopeFence}
    (h : ¬ FenceHolds s.ledger scope f) : ∃ message,
      (replaceStateScopeDuckdb scope now input (some f)).exec (Session.interp fun _ => none)
          ⟨s, none⟩ = (⟨s, none⟩, .error (.staleStateFenceError message)) := by
  obtain ⟨message, hfence⟩ := exec_verifyFence_stale (some s) h
  have hbody : (replaceBody scope now input (some f)).exec (Session.interp fun _ => none)
      ⟨s, some s⟩ = (⟨s, some s⟩, .error (.staleStateFenceError message)) :=
    Prog.exec_bind_error _ hfence _
  refine ⟨message, ?_⟩
  rw [replaceStateScopeDuckdb, Prog.exec_bind, Prog.exec_tryCatch,
    Script.exec_transaction_error hbody rfl]
  rfl

end Duckdb

/-! ### The MERGE -/

section Merge

variable {τ : Type} {scope : StateScope} {now : τ} {rows : List (StateRow τ)}
  {staged : List StateRecord}

/-- The rows that the MERGE leaves. -/
def mergedRows (scope : StateScope) (now : τ) (rows : List (StateRow τ))
    (staged : List StateRecord) : List (StateRow τ) :=
  rows.filterMap (mergeTarget scope now (staged.map some ++ [none])) ++
    (staged.filter fun r => ¬ ∃ target ∈ rows, mergeOn scope target (some r) = true).map fun r =>
      ⟨scope, r, now⟩

theorem mergeOn_some {target : StateRow τ} {r : StateRecord} :
    mergeOn scope target (some r) = true ↔ target.key = (scope, r.recordKey) := by
  rw [mergeOn, decide_eq_true_iff, StateRow.key, Prod.mk.injEq]

/-- A row that a staged record matches is updated from it; another one of the scope is deleted. -/
theorem mergeTarget_eq (scope : StateScope) (now : τ) (staged : List StateRecord)
    (target : StateRow τ) :
    (∃ r ∈ staged, target.key = (scope, r.recordKey) ∧
      mergeTarget scope now (staged.map some ++ [none]) target = some ⟨scope, r, now⟩) ∨
    ((∀ r ∈ staged, target.key ≠ (scope, r.recordKey)) ∧
      mergeTarget scope now (staged.map some ++ [none]) target =
        if target.scope = scope then none else some target) := by
  rw [mergeTarget]
  cases hfind : (staged.map some ++ [none]).find? (mergeOn scope target) with
  | none =>
    refine .inr ⟨fun r hr hkey => ?_, rfl⟩
    have hnone := List.find?_eq_none.mp hfind (some r)
      (List.mem_append_left _ (List.mem_map_of_mem hr))
    exact hnone (mergeOn_some.mpr hkey)
  | some source =>
    have hon := List.find?_some hfind
    cases source with
    | none => cases hon
    | some r =>
      have hkey := mergeOn_some.mp hon
      have hr : r ∈ staged := by simpa using List.mem_of_find?_eq_some hfind
      exact .inl ⟨r, hr, hkey, by rw [show target.scope = scope from congrArg Prod.fst hkey]⟩

theorem filterMap_keys_sublist {α κ : Type} {f : α → Option α} {key : α → κ}
    (h : ∀ a b, f a = some b → key b = key a) (xs : List α) :
    ((xs.filterMap f).map key).Sublist (xs.map key) := by
  induction xs with
  | nil => exact List.Sublist.slnil
  | cons x xs ih =>
    cases hx : f x with
    | none =>
      rw [List.filterMap_cons_none hx, List.map_cons]
      exact ih.cons _
    | some y =>
      rw [List.filterMap_cons_some hx, List.map_cons, List.map_cons, h x y hx]
      exact ih.cons_cons _

theorem mergeTarget_key {target row : StateRow τ}
    (h : mergeTarget scope now (staged.map some ++ [none]) target = some row) :
    row.key = target.key := by
  rcases mergeTarget_eq scope now staged target with ⟨r, -, hkey, heq⟩ | ⟨-, heq⟩
  · rw [heq] at h
    obtain rfl := Option.some.inj h
    exact hkey.symm
  · rw [heq] at h
    split at h
    · cases h
    · obtain rfl := Option.some.inj h
      rfl

/-- The MERGE keeps the primary key. -/
theorem nodup_mergedRows (scope : StateScope) (now : τ) (hrows : (rows.map StateRow.key).Nodup)
    (hstaged : (recordKeys staged).Nodup) :
    ((mergedRows scope now rows staged).map StateRow.key).Nodup := by
  rw [mergedRows, List.map_append]
  have hkept : ((rows.filterMap (mergeTarget scope now (staged.map some ++ [none]))).map
      StateRow.key).Sublist (rows.map StateRow.key) :=
    filterMap_keys_sublist (fun _ _ => mergeTarget_key) rows
  refine List.nodup_append'.mpr ⟨hrows.sublist hkept, ?_, ?_⟩
  · rw [List.map_map]
    have hkeys : (recordKeys (staged.filter fun r =>
        ¬ ∃ target ∈ rows, mergeOn scope target (some r) = true)).Nodup :=
      hstaged.sublist (List.filter_sublist.map _)
    refine List.Nodup.map_on (fun a ha b hb hab => ?_) (List.Nodup.of_map _ hkeys)
    exact List.inj_on_of_nodup_map hkeys ha hb (congrArg Prod.snd hab)
  · intro key hkey hnew
    obtain ⟨row, hrow, rfl⟩ := List.mem_map.mp hnew
    obtain ⟨r, hr, rfl⟩ := List.mem_map.mp hrow
    obtain ⟨target, htarget, htargetKey⟩ := List.mem_map.mp (hkept.subset hkey)
    obtain ⟨-, hunmatched⟩ := List.mem_filter.mp hr
    exact of_decide_eq_true hunmatched ⟨target, htarget, mergeOn_some.mpr htargetKey⟩

/-- The MERGE replaces the scope. -/
theorem scopeReplaced_mergedRows (hrows : (rows.map StateRow.key).Nodup)
    (hstaged : (recordKeys staged).Nodup) :
    ScopeReplaced scope now staged rows (mergedRows scope now rows staged) := by
  have hnodup := nodup_mergedRows scope now hrows hstaged
  constructor
  · have hrecords : (staged.map fun r => (⟨scope, r, now⟩ : StateRow τ)).Nodup := by
      refine (List.Nodup.of_map _ hstaged).map fun a b hab => ?_
      exact (StateRow.mk.inj hab).2.1
    refine (List.perm_ext_iff_of_nodup ((List.Nodup.of_map _ hnodup).filter _) hrecords).mpr
      fun row => ?_
    rw [List.mem_filter, decide_eq_true_iff, mergedRows, List.mem_append, List.mem_filterMap]
    constructor
    · rintro ⟨⟨target, -, htarget⟩ | hnew, hscope⟩
      · rcases mergeTarget_eq scope now staged target with ⟨r, hr, -, heq⟩ | ⟨-, heq⟩
        · rw [heq] at htarget
          exact List.mem_map.mpr ⟨r, hr, Option.some.inj htarget⟩
        · rw [heq] at htarget
          split at htarget
          · cases htarget
          · rename_i hne
            exact absurd ((Option.some.inj htarget) ▸ hscope) hne
      · obtain ⟨r, hr, rfl⟩ := List.mem_map.mp hnew
        exact List.mem_map.mpr ⟨r, List.mem_of_mem_filter hr, rfl⟩
    · intro hrow
      obtain ⟨r, hr, rfl⟩ := List.mem_map.mp hrow
      refine ⟨?_, rfl⟩
      by_cases hmatched : ∃ target ∈ rows, mergeOn scope target (some r) = true
      · obtain ⟨target, htarget, hon⟩ := hmatched
        refine .inl ⟨target, htarget, ?_⟩
        rcases mergeTarget_eq scope now staged target with ⟨r', hr', hkey, heq⟩ | ⟨hnone, -⟩
        · have hsame : r' = r := List.inj_on_of_nodup_map hstaged hr' hr
            (congrArg Prod.snd (hkey.symm.trans (mergeOn_some.mp hon)))
          rw [heq, hsame]
        · exact absurd (mergeOn_some.mp hon) (hnone r hr)
      · exact .inr (List.mem_map.mpr
          ⟨r, List.mem_filter.mpr ⟨hr, decide_eq_true hmatched⟩, rfl⟩)
  · have hnew : ((staged.filter fun r =>
        ¬ ∃ target ∈ rows, mergeOn scope target (some r) = true).map fun r =>
          (⟨scope, r, now⟩ : StateRow τ)).filter (fun row => ¬ row.scope = scope) = [] := by
      refine List.filter_eq_nil_iff.mpr fun row hrow => ?_
      obtain ⟨r, -, rfl⟩ := List.mem_map.mp hrow
      simp
    rw [mergedRows, List.filter_append, hnew, List.append_nil]
    clear hrows hnodup hnew
    induction rows with
    | nil => rfl
    | cons target rows ih =>
      rcases mergeTarget_eq scope now staged target with ⟨r, -, hkey, heq⟩ | ⟨-, heq⟩
      · have hscope : target.scope = scope := congrArg Prod.fst hkey
        rw [List.filterMap_cons_some heq]
        simpa [hscope] using ih
      · by_cases hscope : target.scope = scope
        · rw [if_pos hscope] at heq
          rw [List.filterMap_cons_none heq]
          simpa [hscope] using ih
        · rw [if_neg hscope] at heq
          rw [List.filterMap_cons_some heq]
          simpa [hscope] using ih

end Merge

/-! ### BigQuery -/

section Bigquery

variable {τ : Type} {scope : StateScope} {now : τ} {input : RecordBatches}
  {fence : Option StateScopeFence} {s : StateStore τ} {staged : List StateRecord}

theorem distinct_count {keys : List String} : keys.length - keys.dedup.length = 0 ↔ keys.Nodup := by
  rw [Nat.sub_eq_zero_iff_le]
  constructor
  · intro h
    rw [← (List.dedup_sublist keys).eq_of_length_le h]
    exact List.nodup_dedup keys
  · intro h
    rw [h.dedup]

theorem gate_ok (fenceFirst : Bool) (h : ∀ f ∈ fence, FenceHolds s.ledger scope f)
    (hstaged : (recordKeys staged).Nodup) :
    gate scope fenceFirst fence s.ledger staged = .ok () := by
  have hkeys : checkRecordKeys staged = .ok () := if_pos (distinct_count.mpr hstaged)
  cases fence with
  | none => exact hkeys
  | some f =>
    obtain ⟨rows, hrows, hone⟩ := h f rfl
    have hfence : checkFence scope rows f = .ok () := if_pos hone
    simp only [gate, Option.mem_def.mp hrows, hkeys, hfence]
    cases fenceFirst <;> rfl

theorem gate_duplicate (scope : StateScope) (fenceFirst : Bool) (fence : Option StateScopeFence)
    (ledger : Option (List LedgerRow)) (hstaged : ¬ (recordKeys staged).Nodup) :
    ∃ e, gate scope fenceFirst fence ledger staged = .error e := by
  have hkeys : checkRecordKeys staged = .error .duplicateKeys := if_neg (mt distinct_count.mp hstaged)
  cases fence with
  | none => exact ⟨_, hkeys⟩
  | some f =>
    cases ledger with
    | none => exact ⟨_, rfl⟩
    | some rows =>
      simp only [gate, hkeys]
      cases fenceFirst with
      | true => cases checkFence scope rows f <;> exact ⟨_, rfl⟩
      | false => exact ⟨_, rfl⟩

theorem gate_stale {f : StateScopeFence} (fenceFirst : Bool) (h : ¬ FenceHolds s.ledger scope f)
    (hstaged : (recordKeys staged).Nodup) :
    gate scope fenceFirst (some f) s.ledger staged = .error .staleFence ∨
      gate scope fenceFirst (some f) s.ledger staged = .error .ledgerNotFound := by
  have hkeys : checkRecordKeys staged = .ok () := if_pos (distinct_count.mpr hstaged)
  cases hledger : s.ledger with
  | none => exact .inr rfl
  | some rows =>
    have hfence : checkFence scope rows f = .error .staleFence :=
      if_neg fun hone => h ⟨rows, hledger, hone⟩
    simp only [gate, hkeys, hfence]
    cases fenceFirst <;> exact .inl rfl

theorem length_le_one {α : Type} {xs : List α} (hnodup : xs.Nodup)
    (h : ∀ a ∈ xs, ∀ b ∈ xs, a = b) : xs.length ≤ 1 := by
  match xs with
  | [] => exact Nat.zero_le 1
  | [_] => exact le_rfl
  | a :: b :: xs =>
    have hab : a = b := h a List.mem_cons_self b (List.mem_cons_of_mem _ List.mem_cons_self)
    exact absurd (hab ▸ List.mem_cons_self) (List.nodup_cons.mp hnodup).1

/-- The MERGE, when its gate is open. -/
theorem mergeState_eq (fenceFirst : Bool) (h : ∀ f ∈ fence, FenceHolds s.ledger scope f)
    (hstaged : (recordKeys (s.staging.getD [])).Nodup) :
    mergeState scope now fenceFirst fence s =
      .ok { s with rows := mergedRows scope now s.rows (s.staging.getD []) } := by
  have hunique : (s.rows.any fun target =>
      1 < (((s.staging.getD []).map some ++ [none]).filter (mergeOn scope target)).length) =
        false := by
    rw [List.any_eq_false]
    intro target _
    rw [decide_eq_true_iff, not_lt]
    have hsource : ((s.staging.getD []).map some ++ [none]).Nodup := by
      refine List.nodup_append'.mpr
        ⟨(List.Nodup.of_map _ hstaged).map (Option.some_injective _), List.nodup_singleton _, ?_⟩
      simp
    refine length_le_one (hsource.filter _) fun a ha b hb => ?_
    obtain ⟨hamem, haon⟩ := List.mem_filter.mp ha
    obtain ⟨hbmem, hbon⟩ := List.mem_filter.mp hb
    cases a with
    | none => cases haon
    | some r =>
      cases b with
      | none => cases hbon
      | some r' =>
        have hr : r ∈ s.staging.getD [] := by simpa using hamem
        have hr' : r' ∈ s.staging.getD [] := by simpa using hbmem
        have hkey := (mergeOn_some.mp haon).symm.trans (mergeOn_some.mp hbon)
        rw [List.inj_on_of_nodup_map hstaged hr hr' (congrArg Prod.snd hkey)]
  rw [mergeState, gate_ok fenceFirst h hstaged]
  simp only [hunique, Except.mapError]
  rfl

theorem mergeState_error (fenceFirst : Bool) {e : MergeError}
    (h : gate scope fenceFirst fence s.ledger (s.staging.getD []) = .error e) :
    mergeState scope now fenceFirst fence s = .error (.query e) := by
  rw [mergeState, h]
  rfl

theorem exec_loadBatches (batches : List (List StateRecord)) (s : StateStore τ) :
    ∃ staging, (loadBatches batches).exec (Session.interp fun _ => none) ⟨s, none⟩ =
        (⟨{ s with staging := staging }, none⟩, .ok ⟨⟩) ∧
      staging.getD [] = s.staging.getD [] ++ batches.flatten := by
  induction batches generalizing s with
  | nil => exact ⟨s.staging, rfl, by simp⟩
  | cons batch batches ih =>
    obtain ⟨staging, hexec, hstaging⟩ :=
      ih { s with staging := some (s.staging.getD [] ++ batch) }
    refine ⟨staging, ?_, ?_⟩
    · have hload := Script.exec_statement () (loadBatch batch) ⟨s, none⟩
      rw [loadBatches, Prog.forEach, Prog.exec_bind, Prog.exec_bind_ok _ hload]
      exact hexec
    · rw [hstaging]
      simp

theorem exec_dropStaging {p : StateScript τ ℕ} {t : StateStore τ} {r : Except ReplaceFailure ℕ}
    (h : p.exec (Session.interp fun _ => none) ⟨s, none⟩ = (⟨t, none⟩, r)) :
    (p.andFinally dropStaging).exec (Session.interp fun _ => none) ⟨s, none⟩ =
      (⟨{ t with staging := none }, none⟩, r) := by
  rw [Prog.andFinally, Prog.exec_bind, Prog.exec_tryCatch, h]
  cases r <;> rfl

/-- Once the batches are staged, the MERGE decides. -/
theorem exec_stageAndMerge (scope : StateScope) (now : τ) (fenceFirst : Bool)
    (fence : Option StateScopeFence) (hs : s.staging = none) (hraises : input.raises = none) :
    ∃ staging, staging.getD [] = input.batches.flatten ∧
      (stageAndMerge scope now fenceFirst input fence).exec (Session.interp fun _ => none) ⟨s, none⟩ =
        match mergeState scope now fenceFirst fence { s with staging := staging } with
        | .ok t => (⟨t, none⟩, .ok input.batches.flatten.length)
        | .error e => (⟨{ s with staging := staging }, none⟩, .error (mergeFailure e)) := by
  obtain ⟨loaded, hload, hloaded⟩ := exec_loadBatches input.batches s
  rw [hs] at hloaded
  have hfinish : (finishBatches input : StateScript τ Unit).exec (Session.interp fun _ => none)
      ⟨{ s with staging := loaded }, none⟩ = (⟨{ s with staging := loaded }, none⟩, .ok ()) := by
    rw [finishBatches, hraises]
    rfl
  obtain ⟨staging, hstaging, hcreate⟩ : ∃ staging, staging.getD [] = input.batches.flatten ∧
      createStaging input.batches.flatten.length { s with staging := loaded } =
        .ok { s with staging := staging } := by
    rw [createStaging]
    split
    · rename_i hempty
      exact ⟨some [], (List.length_eq_zero_iff.mp hempty).symm, rfl⟩
    · exact ⟨loaded, hloaded, rfl⟩
  refine ⟨staging, hstaging, ?_⟩
  rw [stageAndMerge, Prog.exec_bind_ok _ hload, Prog.exec_bind_ok _ hfinish, Prog.exec_bind,
    Script.exec_statement]
  simp only [hcreate]
  rw [runStateReplaceMerge, Prog.exec_bind, Prog.exec_tryCatch, Prog.exec_bind,
    Script.exec_statement]
  cases mergeState scope now fenceFirst fence { s with staging := staging } <;> rfl

/-- The MERGE on BigQuery replaces the scope. -/
theorem exec_replaceStateScopeBigquery (now : τ) (fenceFirst : Bool) (hs : s.staging = none)
    (hraises : input.raises = none) (hkeys : (recordKeys input.batches.flatten).Nodup)
    (h : ∀ f ∈ fence, FenceHolds s.ledger scope f) :
    (replaceStateScopeBigquery scope now fenceFirst input fence).exec
        (Session.interp fun _ => none) ⟨s, none⟩ =
      (⟨{ s with rows := mergedRows scope now s.rows input.batches.flatten }, none⟩,
        .ok input.batches.flatten.length) := by
  obtain ⟨staging, hstaging, hexec⟩ := exec_stageAndMerge scope now fenceFirst fence hs hraises
  rw [← hstaging] at hkeys
  rw [mergeState_eq (s := { s with staging := staging }) fenceFirst h hkeys] at hexec
  rw [replaceStateScopeBigquery, exec_dropStaging hexec, hstaging, ← hs]

theorem exec_replaceStateScopeBigquery_stale (now : τ) {f : StateScopeFence} (fenceFirst : Bool)
    (hs : s.staging = none) (hraises : input.raises = none)
    (hkeys : (recordKeys input.batches.flatten).Nodup) (h : ¬ FenceHolds s.ledger scope f) :
    ∃ message, (replaceStateScopeBigquery scope now fenceFirst input (some f)).exec
        (Session.interp fun _ => none) ⟨s, none⟩ =
      (⟨s, none⟩, .error (.staleStateFenceError message)) := by
  obtain ⟨staging, hstaging, hexec⟩ := exec_stageAndMerge scope now fenceFirst (some f) hs hraises
  rw [← hstaging] at hkeys
  have hback : { s with staging := none } = s := by rw [← hs]
  rcases gate_stale fenceFirst h hkeys with hgate | hgate
  · rw [mergeState_error (s := { s with staging := staging }) fenceFirst hgate] at hexec
    exact ⟨_, by rw [replaceStateScopeBigquery, exec_dropStaging hexec, hback]; rfl⟩
  · rw [mergeState_error (s := { s with staging := staging }) fenceFirst hgate] at hexec
    exact ⟨_, by rw [replaceStateScopeBigquery, exec_dropStaging hexec, hback]; rfl⟩

/-- Records that raise or repeat a key change nothing on BigQuery. -/
theorem exec_replaceStateScopeBigquery_error (scope : StateScope) (now : τ) (fenceFirst : Bool)
    (fence : Option StateScopeFence) (hs : s.staging = none)
    (h : ¬ (input.raises = none ∧ (recordKeys input.batches.flatten).Nodup)) :
    ∃ e, (replaceStateScopeBigquery scope now fenceFirst input fence).exec
        (Session.interp fun _ => none) ⟨s, none⟩ = (⟨s, none⟩, .error e) := by
  have hback : { s with staging := none } = s := by rw [← hs]
  cases hraises : input.raises with
  | some e =>
    obtain ⟨loaded, hload, -⟩ := exec_loadBatches input.batches s
    have hexec : (stageAndMerge scope now fenceFirst input fence).exec
        (Session.interp fun _ => none) ⟨s, none⟩ =
          (⟨{ s with staging := loaded }, none⟩, .error (.raised e)) := by
      rw [stageAndMerge, Prog.exec_bind_ok _ hload, finishBatches, hraises]
      rfl
    exact ⟨_, by rw [replaceStateScopeBigquery, exec_dropStaging hexec, hback]⟩
  | none =>
    obtain ⟨staging, hstaging, hexec⟩ := exec_stageAndMerge scope now fenceFirst fence hs hraises
    obtain ⟨e, hgate⟩ := gate_duplicate scope fenceFirst fence s.ledger fun hnodup =>
      h ⟨hraises, hstaging ▸ hnodup⟩
    rw [mergeState_error (s := { s with staging := staging }) fenceFirst hgate] at hexec
    exact ⟨_, by rw [replaceStateScopeBigquery, exec_dropStaging hexec, hback]⟩

end Bigquery

/-! ### Both adapters -/

section Adapters

variable {τ : Type} {scope : StateScope} {now : τ} {input : RecordBatches}
  {fence : Option StateScopeFence} {ledger : Option (List LedgerRow)}

/-- Clearing the scope and inserting the records replaces it, and keeps the primary key. -/
theorem scopeReplaced_cleared (scope : StateScope) (now : τ) (table : StateTableRows τ)
    {records : List StateRecord} (hkeys : (recordKeys records).Nodup) :
    ScopeReplaced scope now records table.rows
        ((table.rows.filter fun row => row.scope ≠ scope) ++ recordRows scope now records) ∧
      (((table.rows.filter fun row => row.scope ≠ scope) ++
        recordRows scope now records).map StateRow.key).Nodup := by
  have hold : (table.rows.filter fun row => row.scope ≠ scope).filter (fun row => row.scope = scope) =
      [] := List.filter_eq_nil_iff.mpr fun row hrow => by
    simpa using (List.mem_filter.mp hrow).2
  have hkept : (table.rows.filter fun row => row.scope ≠ scope).filter
      (fun row => ¬ row.scope = scope) = table.rows.filter fun row => ¬ row.scope = scope :=
    List.filter_eq_self.mpr fun row hrow => (List.mem_filter.mp hrow).2
  have hnew : ∀ row ∈ recordRows scope now records, row.scope = scope := by
    intro row hrow
    obtain ⟨r, -, rfl⟩ := List.mem_map.mp hrow
    rfl
  have hall : (recordRows scope now records).filter (fun row => row.scope = scope) =
      recordRows scope now records :=
    List.filter_eq_self.mpr fun row hrow => decide_eq_true (hnew row hrow)
  have hnone : (recordRows scope now records).filter (fun row => ¬ row.scope = scope) = [] :=
    List.filter_eq_nil_iff.mpr fun row hrow => by simpa using hnew row hrow
  refine ⟨⟨?_, ?_⟩, ?_⟩
  · rw [List.filter_append, hold, hall, List.nil_append]
    exact .refl _
  · rw [List.filter_append, hkept, hnone, List.append_nil]
  · rw [List.map_append]
    refine List.nodup_append'.mpr
      ⟨table.nodup.sublist (List.filter_sublist.map _), ?_, ?_⟩
    · rw [recordRows, List.map_map]
      exact List.Nodup.of_map Prod.snd (by rw [List.map_map]; exact hkeys)
    · intro key hkey hkey'
      obtain ⟨row, hrow, rfl⟩ := List.mem_map.mp hkey
      obtain ⟨row', hrow', heq⟩ := List.mem_map.mp hkey'
      have hscope : row.scope = scope := (congrArg Prod.fst heq).symm.trans (hnew row' hrow')
      exact of_decide_eq_true (List.mem_filter.mp hrow).2 hscope

/-- Two tables that replace a scope alike have the same rows. -/
theorem ScopeReplaced.perm {records : List StateRecord} {before after after' : List (StateRow τ)}
    (h : ScopeReplaced scope now records before after)
    (h' : ScopeReplaced scope now records before after') : after.Perm after' := by
  have hsplit : ∀ rows : List (StateRow τ), ((rows.filter fun row => row.scope = scope) ++
      rows.filter fun row => ¬ row.scope = scope).Perm rows := fun rows => by
    simpa using List.filter_append_perm (fun row => decide (row.scope = scope)) rows
  refine (hsplit after).symm.trans (List.Perm.trans ?_ (hsplit after'))
  rw [h.others, h'.others]
  exact (h.replaced.trans h'.replaced.symm).append_right _

/-- An admissible replacement succeeds on either adapter, and any other one raises and changes
nothing. -/
theorem replaceStateScope_cases (table : StateTableRows τ) (ledger : Option (List LedgerRow))
    (scope : StateScope) (now : τ) (input : RecordBatches) (fence : Option StateScopeFence)
    (adapter : StateAdapter) :
    (Admissible ledger scope input fence ∧ ∃ after : StateTableRows τ,
      replaceStateScope adapter scope now input fence ⟨table.rows, ledger, none⟩ =
          (⟨after.rows, ledger, none⟩, .ok input.batches.flatten.length) ∧
        ScopeReplaced scope now input.batches.flatten table.rows after.rows) ∨
    (¬ Admissible ledger scope input fence ∧ ∃ e,
      replaceStateScope adapter scope now input fence ⟨table.rows, ledger, none⟩ =
        (⟨table.rows, ledger, none⟩, .error e)) := by
  obtain ⟨batches, raises⟩ := input
  by_cases hadmissible : Admissible ledger scope ⟨batches, raises⟩ fence
  · refine .inl ⟨hadmissible, ?_⟩
    obtain ⟨hfence, hvalid, hkeys⟩ := admissible_iff.mp hadmissible
    have hflat := validated_flatten hvalid
    cases adapter with
    | duckdb =>
      rw [hflat] at hkeys
      obtain ⟨hreplaced, hnodup⟩ := scopeReplaced_cleared scope now table hkeys
      refine ⟨⟨_, hnodup⟩, ?_, hreplaced⟩
      rcases exec_replaceStateScopeDuckdb scope now (validatedStateBatches raises batches)
          (s := ⟨table.rows, ledger, none⟩) hfence with
        ⟨-, -, hexec⟩ | ⟨hnot, -⟩
      · simp only [replaceStateScope, hexec, hflat]
      · exact absurd ⟨hvalid, hflat ▸ hkeys⟩ hnot
    | bigquery fenceFirst =>
      have hexec := exec_replaceStateScopeBigquery now (s := ⟨table.rows, ledger, none⟩) fenceFirst
        rfl hvalid hkeys hfence
      rw [hflat] at hkeys
      refine ⟨⟨_, nodup_mergedRows scope now table.nodup hkeys⟩, ?_,
        scopeReplaced_mergedRows table.nodup hkeys⟩
      simp only [replaceStateScope, hexec, hflat]
  · refine .inr ⟨hadmissible, ?_⟩
    by_cases hfence : ∀ f ∈ fence, FenceHolds ledger scope f
    · have hnot : ¬ ((validatedStateBatches raises batches).raises = none ∧
          (recordKeys (validatedStateBatches raises batches).batches.flatten).Nodup) :=
        fun h => hadmissible (admissible_iff.mpr ⟨hfence, h⟩)
      cases adapter with
      | duckdb =>
        rcases exec_replaceStateScopeDuckdb scope now (validatedStateBatches raises batches)
          (s := ⟨table.rows, ledger, none⟩) hfence with
          ⟨hraises, hkeys, -⟩ | ⟨-, e, hexec⟩
        · exact absurd ⟨hraises, hkeys⟩ hnot
        · exact ⟨e, by simp only [replaceStateScope, hexec]⟩
      | bigquery fenceFirst =>
        obtain ⟨e, hexec⟩ := exec_replaceStateScopeBigquery_error scope now
          (s := ⟨table.rows, ledger, none⟩) fenceFirst fence rfl hnot
        exact ⟨e, by simp only [replaceStateScope, hexec]⟩
    · push Not at hfence
      obtain ⟨f, hf, hstale⟩ := hfence
      obtain rfl := Option.mem_def.mp hf
      cases adapter with
      | duckdb =>
        obtain ⟨message, hexec⟩ := exec_replaceStateScopeDuckdb_stale now
          (validatedStateBatches raises batches) (s := ⟨table.rows, ledger, none⟩) hstale
        exact ⟨.staleStateFenceError message, by simp only [replaceStateScope, hexec]⟩
      | bigquery fenceFirst =>
        by_cases hinput : (validatedStateBatches raises batches).raises = none ∧
            (recordKeys (validatedStateBatches raises batches).batches.flatten).Nodup
        · obtain ⟨message, hexec⟩ := exec_replaceStateScopeBigquery_stale now
            (s := ⟨table.rows, ledger, none⟩) fenceFirst rfl hinput.1 hinput.2 hstale
          exact ⟨.staleStateFenceError message, by simp only [replaceStateScope, hexec]⟩
        · obtain ⟨e, hexec⟩ := exec_replaceStateScopeBigquery_error scope now
            (s := ⟨table.rows, ledger, none⟩) fenceFirst (some f) rfl hinput
          exact ⟨e, by simp only [replaceStateScope, hexec]⟩

/-- **Replacing a state scope.** On either adapter an admissible replacement leaves exactly the
records in the scope, each key once, and the other scopes as they were; any other one raises and
changes nothing. The adapters agree on raising and on the rows. A stale fence raises
`StaleStateFenceError`, on BigQuery if the batches neither raise nor repeat a key. -/
theorem replaceStateScope_spec (table : StateTableRows τ) (ledger : Option (List LedgerRow))
    (scope : StateScope) (now : τ) (input : RecordBatches) (fence : Option StateScopeFence) :
    (∀ adapter,
      (Admissible ledger scope input fence ∧ ∃ after : StateTableRows τ,
        replaceStateScope adapter scope now input fence ⟨table.rows, ledger, none⟩ =
            (⟨after.rows, ledger, none⟩, .ok input.batches.flatten.length) ∧
          ScopeReplaced scope now input.batches.flatten table.rows after.rows) ∨
      (¬ Admissible ledger scope input fence ∧ ∃ e,
        replaceStateScope adapter scope now input fence ⟨table.rows, ledger, none⟩ =
          (⟨table.rows, ledger, none⟩, .error e))) ∧
    (∀ adapter adapter',
      (replaceStateScope adapter scope now input fence ⟨table.rows, ledger, none⟩).2.isOk =
          (replaceStateScope adapter' scope now input fence ⟨table.rows, ledger, none⟩).2.isOk ∧
        (replaceStateScope adapter scope now input fence ⟨table.rows, ledger, none⟩).1.rows.Perm
          (replaceStateScope adapter' scope now input fence ⟨table.rows, ledger, none⟩).1.rows) ∧
    ∀ f ∈ fence, ¬ FenceHolds ledger scope f →
      (∃ message, replaceStateScope .duckdb scope now input fence ⟨table.rows, ledger, none⟩ =
        (⟨table.rows, ledger, none⟩, .error (.staleStateFenceError message))) ∧
      (input.raises = none → (recordKeys input.batches.flatten).Nodup → ∀ fenceFirst, ∃ message,
        replaceStateScope (.bigquery fenceFirst) scope now input fence
            ⟨table.rows, ledger, none⟩ =
          (⟨table.rows, ledger, none⟩, .error (.staleStateFenceError message))) := by
  have hcases := replaceStateScope_cases table ledger scope now input fence
  refine ⟨hcases, fun adapter adapter' => ?_, ?_⟩
  · rcases hcases adapter with ⟨hadmissible, after, hexec, hreplaced⟩ | ⟨hrefused, e, hexec⟩
    · rcases hcases adapter' with ⟨-, after', hexec', hreplaced'⟩ | ⟨hrefused, -⟩
      · rw [hexec, hexec']
        exact ⟨rfl, hreplaced.perm hreplaced'⟩
      · exact absurd hadmissible hrefused
    · rcases hcases adapter' with ⟨hadmissible, -⟩ | ⟨-, e', hexec'⟩
      · exact absurd hadmissible hrefused
      · rw [hexec, hexec']
        exact ⟨rfl, .refl _⟩
  · obtain ⟨batches, raises⟩ := input
    intro f hf hstale
    obtain rfl := Option.mem_def.mp hf
    constructor
    · obtain ⟨message, hexec⟩ := exec_replaceStateScopeDuckdb_stale now
        (validatedStateBatches raises batches) (s := ⟨table.rows, ledger, none⟩) hstale
      exact ⟨message, by simp only [replaceStateScope, hexec]⟩
    · intro hraises hkeys fenceFirst
      have hinput : Admissible ledger scope ⟨batches, raises⟩ none := ⟨nofun, hraises, hkeys⟩
      obtain ⟨-, hvalid, hvalidKeys⟩ := admissible_iff.mp hinput
      obtain ⟨message, hexec⟩ := exec_replaceStateScopeBigquery_stale now
        (s := ⟨table.rows, ledger, none⟩) fenceFirst rfl hvalid hvalidKeys hstale
      exact ⟨message, by simp only [replaceStateScope, hexec]⟩

end Adapters

/-! ### A stale fence behind batches that raise -/

/-- A state table with one row. -/
def policyRows : StateTableRows ℕ where
  rows := [⟨⟨"policies", "extract", "main"⟩, ⟨"p1", "f1", "v1"⟩, 0⟩]
  nodup := List.nodup_singleton _

/-- A claim that no row of the ledger carries. -/
def lostClaim : StateScopeFence := ⟨"publication", 3, by decide, by decide⟩

/-- BigQuery raises what the batches raise, although the fence is stale. -/
theorem stale_fence_hidden :
    ¬ ∀ (table : StateTableRows ℕ) (ledger : Option (List LedgerRow)) (scope : StateScope) (now : ℕ)
      (input : RecordBatches) (f : StateScopeFence) (adapter : StateAdapter),
      ¬ FenceHolds ledger scope f → ∃ message,
        (replaceStateScope adapter scope now input (some f) ⟨table.rows, ledger, none⟩).2 =
          .error (.staleStateFenceError message) := by
  intro h
  obtain ⟨message, hraised⟩ := h policyRows (some []) ⟨"policies", "extract", "main"⟩ 1
    ⟨[], some (.other "the source is gone")⟩ lostClaim (.bigquery true) (by
      rintro ⟨rows, hrows, hone⟩
      obtain rfl := Option.some.inj (Option.mem_def.mp hrows)
      cases hone)
  cases hraised

end Stel.Warehouse
