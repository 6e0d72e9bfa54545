import Stel.Warehouse.StateTable
import Stel.Retrieval.Coordinator

/-!
# The retrieval store and the publication state

What one search publication acts on besides the serving ledger: the collection of the retrieval
store (`retrieval/lancedb.py`), the warehouse's publication state for the serving scope, and the
row counters that the executor reports. Every operation is atomic and durable.

The operations of the store carry a mutation digest, which the store only echoes; it is left out.

## Main definitions

* `CollectionSpec`, `CollectionMetadata`, `Collection`, `IndexedRow`.
* `SearchData`: the state acted on.
* `DataOp`, `DataOp.Ret`, `DataOp.exec`: the operations, their replies and their effect.
-/

namespace Stel.Search

open Stel.Warehouse Stel.Retrieval

/-- What the executor requires of its collection. -/
structure CollectionSpec where
  physicalName : String
  configFingerprint : String
  descriptor : String
  legacyConfigFingerprint : String
  /-- The names and types of the declared columns. -/
  arrowSchema : List (String × String)
  deriving DecidableEq, Repr

/-- What the store reports about a collection. -/
structure CollectionMetadata where
  configFingerprint : Option String
  descriptor : Option String
  physicalGeneration : String
  rowCount : ℕ
  schema : List (String × String)
  deriving DecidableEq, Repr

/-- A row as the store keeps it. -/
structure IndexedRow (V : Type) where
  recordId : String
  values : V
  inputFingerprint : String
  deriving DecidableEq, Repr

/-- A collection of the store: its rows by record id, and a version that every mutation
advances. -/
structure Collection (V : Type) where
  configFingerprint : Option String
  descriptor : Option String
  schema : List (String × String)
  version : ℕ
  rows : Keyed String V

/-- A durable receipt. -/
structure MutationReceipt where
  acknowledged : Bool
  outcomes : ℕ
  deriving DecidableEq, Repr

/-- The publication state of one scope, the collection, and the counters of the executor. -/
structure SearchData (V : Type) where
  state : StateTable := ∅
  collection : Option (Collection V) := none
  counts : Counts := {}

/-- The store row of a record id. -/
def SearchData.storeRow {V : Type} (s : SearchData V) (k : String) : Option V :=
  s.collection.bind (·.rows.lookup k)

/-- The operations of the executor besides those of the serving ledger. -/
inductive DataOp (V : Type)
  /-- `fetch_state_subset`. -/
  | fetchStateSubset (recordKeys : List String)
  /-- `upsert_state`. -/
  | upsertState (records : List StateRecord)
  /-- `delete_state`. -/
  | deleteState (recordKeys : List String)
  /-- `state_page_reader`: opens the snapshot of the state records absent from the upstream. -/
  | openStatePages (upstreamKeys : List String)
  /-- `inspect_collection`. -/
  | inspectCollection
  /-- `create_collection`. -/
  | createCollection (spec : CollectionSpec)
  /-- `evolve_collection`. -/
  | evolveCollection (spec : CollectionSpec) (added : List String)
  /-- `restamp_collection`. -/
  | restampCollection (spec : CollectionSpec)
  /-- `upsert`. -/
  | upsert (rows : List (IndexedRow V))
  /-- `delete`. -/
  | delete (recordIds : List String)
  /-- `ensure_indexes`. -/
  | ensureIndexes
  /-- Assigns the counters. -/
  | setCounts (counts : Counts)
  /-- Reads the counters in the exception handler. -/
  | getCounts

/-- What an operation replies. -/
@[reducible] def DataOp.Ret {V : Type} : DataOp V → Type
  | .fetchStateSubset _ => List (String × StateValue)
  | .openStatePages _ => List StateRecord
  | .inspectCollection => Option CollectionMetadata
  | .upsert _ | .delete _ => MutationReceipt
  | .ensureIndexes => CollectionMetadata
  | .getCounts => Counts
  | _ => Unit

section Exec

variable {V : Type}

/-- `canonical_fingerprint` of a physical generation, from the version and the row count. -/
abbrev Generation : Type := ℕ → ℕ → String

/-- `inspect_collection` on an existing collection. -/
def Collection.metadata (generation : Generation) (c : Collection V) : CollectionMetadata where
  configFingerprint := c.configFingerprint
  descriptor := c.descriptor
  physicalGeneration := generation c.version c.rows.keys.length
  rowCount := c.rows.keys.length
  schema := c.schema

/-- A new collection. -/
def Collection.create (spec : CollectionSpec) : Collection V where
  configFingerprint := some spec.configFingerprint
  descriptor := some spec.descriptor
  schema := spec.arrowSchema
  version := 1
  rows := ∅

/-- The collection carries the stamp of the spec. -/
def Collection.stamp (spec : CollectionSpec) (c : Collection V) : Collection V :=
  { c with
    configFingerprint := some spec.configFingerprint
    descriptor := some spec.descriptor
    version := c.version + 1 }

/-- The collection has the columns `added` too, if the spec declares them all. -/
def Collection.evolve (spec : CollectionSpec) (added : List String) (c : Collection V) :
    Except Failure (Collection V) :=
  let missing := added.filter (· ∉ c.schema.map Prod.fst)
  if ∃ name ∈ missing, name ∉ spec.arrowSchema.map Prod.fst then
    .error (.retrievalError "LanceDB cannot evolve a collection to add an undeclared column")
  else
    .ok (({ c with schema := c.schema ++ spec.arrowSchema.filter (·.1 ∈ missing) } :
      Collection V).stamp spec)

/-- The collection after a batch of upserted rows. -/
def Collection.upsert (rows : List (IndexedRow V)) (c : Collection V) : Collection V :=
  { c with
    version := c.version + 1
    rows := Keyed.upsertAll c.rows (rows.map fun row => (row.recordId, row.values)) }

/-- The collection without a batch of record ids. -/
def Collection.delete (recordIds : List String) (c : Collection V) : Collection V :=
  { c with version := c.version + 1, rows := Keyed.eraseAll c.rows recordIds }

/-- The effect of an operation on the collection that has to exist for it. -/
def withCollection {α : Type} (s : SearchData V) (missing : String)
    (f : Collection V → Except Failure (Collection V × α)) : SearchData V × Except Failure α :=
  match s.collection with
  | none => (s, .error (.retrievalError missing))
  | some c =>
    match f c with
    | .ok (c, reply) => ({ s with collection := some c }, .ok reply)
    | .error e => (s, .error e)

/-- The effect of an operation. -/
def DataOp.exec (generation : Generation) : Interp (DataOp V) DataOp.Ret Failure (SearchData V)
  | .fetchStateSubset keys, s =>
      (s, (do
        validateStateKeys keys
        if maxStateSubsetKeys < keys.length then
          .error (.adapterError "State subset lookups are bounded to 100000 keys")
        return s.state.subset keys))
  | .upsertState records, s =>
      match validateStateRecords records with
      | .ok _ => ({ s with state := s.state.upsert records }, .ok ())
      | .error e => (s, .error e)
  | .deleteState keys, s =>
      match validateStateKeys keys with
      | .ok _ => ({ s with state := s.state.delete keys }, .ok ())
      | .error e => (s, .error e)
  | .openStatePages keys, s => (s, .ok (s.state.absentFrom keys))
  | .inspectCollection, s => (s, .ok (s.collection.map (·.metadata generation)))
  | .createCollection spec, s =>
      match s.collection with
      | some _ => (s, .error (.retrievalError
          "LanceDB operation 'create collection' failed (code=lancedb_create_failed)"))
      | none => ({ s with collection := some (.create spec) }, .ok ())
  | .evolveCollection spec added, s =>
      withCollection s "LanceDB operation 'open' failed" fun c =>
        (c.evolve spec added).map fun c => (c, ())
  | .restampCollection spec, s =>
      withCollection s "LanceDB operation 'open' failed" fun c => .ok (c.stamp spec, ())
  | .upsert rows, s =>
      if rows = [] then (s, .ok ⟨true, 0⟩)
      else withCollection s "LanceDB operation 'upsert' failed (code=lancedb_upsert_failed)"
        fun c => .ok (c.upsert rows, ⟨true, rows.length⟩)
  | .delete ids, s =>
      if ids = [] then (s, .ok ⟨true, 0⟩)
      else withCollection s "LanceDB operation 'delete' failed (code=lancedb_delete_failed)"
        fun c => .ok (c.delete ids, ⟨true, ids.length⟩)
  | .ensureIndexes, s =>
      withCollection s "LanceDB operation 'index creation' failed (code=lancedb_index_failed)"
        fun c => .ok (c, c.metadata generation)
  | .setCounts counts, s => ({ s with counts := counts }, .ok ())
  | .getCounts, s => (s, .ok s.counts)

end Exec

end Stel.Search
