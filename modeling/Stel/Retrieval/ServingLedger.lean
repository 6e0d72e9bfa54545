import Stel.Failure
import Stel.Program.Basic
import Mathlib.Data.List.MinMax
import Mathlib.Data.String.Basic

/-!
# The serving ledger and its SQL statements

The warehouse keeps one ledger table and one shared-lease table for all serving scopes
(`retrieval/coordination.py`). Neither has an enforced key, so both are lists of rows. Every
statement the coordinator issues is one operation, atomic by itself; a protocol step is a program
over these statements (`Stel.Retrieval.Coordinator`).

Identifiers come from `uuid4().hex`. A draw is local to the session and is used by exactly one
statement, so the statement that first uses it draws it: the `n`-th draw is `uuid n`, for an
arbitrary sequence `uuid` of distinct identifiers. The two timestamp columns are left out; no
statement reads them.

## Main definitions

* `StateScope`, `LedgerRow`, `LeaseRow`, `ServingDb`.
* `PublishLease`, `QueryLease`.
* `Stmt`, `Stmt.Ret`: the statements and what they reply.
* `Stmt.exec`: their effect, an interpretation on `ServingDb`.
-/

namespace Stel.Retrieval

/-- The triple by which the state table and the serving tables address one scope. -/
structure StateScope where
  modelName : String
  stage : String
  targetIdentity : String
  deriving DecidableEq, Repr

/-- The `status` column. -/
inductive ServingStatus
  | publishing
  | ready
  | failed
  | unpublished
  deriving DecidableEq, Repr

/-- The four row counters of a publication: inserted, updated, skipped, deleted. -/
structure Counts where
  inserted : ℕ := 0
  updated : ℕ := 0
  skipped : ℕ := 0
  deleted : ℕ := 0
  deriving DecidableEq, Repr

/-- A row of the serving ledger; `none` is SQL `NULL`. -/
structure LedgerRow where
  scope : StateScope
  rowId : String
  fencingToken : ℕ
  status : ServingStatus
  publicationId : Option String := none
  expectedCodeVersion : Option String := none
  configFingerprint : Option String := none
  activeGeneration : Option String := none
  safeErrorCode : Option String := none
  counts : Counts := {}
  deriving DecidableEq, Repr

/-- A row of the query-lease table. -/
structure LeaseRow where
  scope : StateScope
  leaseId : String
  fencingToken : ℕ
  pinnedGeneration : String
  configFingerprint : String
  deriving DecidableEq, Repr

/-- The two serving tables, and how many identifiers have been drawn. -/
structure ServingDb where
  ledger : List LedgerRow := []
  leases : List LeaseRow := []
  drawn : ℕ := 0
  deriving DecidableEq, Repr

/-- Exclusive fenced publication claim for one serving scope. -/
structure PublishLease where
  scope : StateScope
  publicationId : String
  fencingToken : ℕ
  deriving DecidableEq, Repr

/-- Shared query lease pinning one ready physical generation. -/
structure QueryLease where
  scope : StateScope
  leaseId : String
  fencingToken : ℕ
  pinnedGeneration : String
  configFingerprint : String
  deriving DecidableEq, Repr

namespace ServingDb

/-- The ledger rows of a scope. -/
def rowsOf (db : ServingDb) (scope : StateScope) : List LedgerRow :=
  db.ledger.filter (·.scope = scope)

/-- The lease rows of a scope. -/
def leasesOf (db : ServingDb) (scope : StateScope) : List LeaseRow :=
  db.leases.filter (·.scope = scope)

/-- The `WHERE` clause of the claim: no publisher owns the row, no query lease is active, and the
scope has exactly one row. -/
def Claimable (db : ServingDb) (scope : StateScope) (row : LedgerRow) : Prop :=
  row.scope = scope ∧ row.publicationId = none ∧ db.leasesOf scope = [] ∧
    (db.rowsOf scope).length = 1

instance (db : ServingDb) (scope : StateScope) (row : LedgerRow) :
    Decidable (db.Claimable scope row) :=
  inferInstanceAs (Decidable (_ ∧ _ ∧ _ ∧ _))

/-- The row a claim leaves behind. -/
def claimed (row : LedgerRow) (publicationId expectedCodeVersion configFingerprint : String) :
    LedgerRow :=
  { row with
    publicationId := some publicationId
    fencingToken := row.fencingToken + 1
    status := .publishing
    expectedCodeVersion := some expectedCodeVersion
    configFingerprint := some configFingerprint
    safeErrorCode := none }

/-- The `WHERE` clause of every completion: the row still carries the lease's claim. -/
def Holds (lease : PublishLease) (row : LedgerRow) : Prop :=
  row.scope = lease.scope ∧ row.publicationId = some lease.publicationId ∧
    row.fencingToken = lease.fencingToken

instance (lease : PublishLease) (row : LedgerRow) : Decidable (Holds lease row) :=
  inferInstanceAs (Decidable (_ ∧ _ ∧ _))

/-- The row a completion leaves behind. -/
def finished (row : LedgerRow) (status : ServingStatus)
    (activeGeneration safeErrorCode : Option String) (counts : Counts) : LedgerRow :=
  { row with
    status := status
    activeGeneration := activeGeneration
    safeErrorCode := safeErrorCode
    counts := counts
    publicationId := none }

/-- `SELECT MIN(row_id)` over the rows of a scope. -/
def minRowId (db : ServingDb) (scope : StateScope) : Option String :=
  ((db.rowsOf scope).map (·.rowId)).min?

/-- `SELECT COALESCE(MAX(fencing_token), 0)` over the rows of a scope. -/
def maxFence (db : ServingDb) (scope : StateScope) : ℕ :=
  ((db.rowsOf scope).map (·.fencingToken)).foldr max 0

/-- The rows that `_ensure_row` collapses: unclaimed `unpublished` rows of the scope other than
the one with the smallest `row_id`. -/
def Duplicate (db : ServingDb) (scope : StateScope) (row : LedgerRow) : Prop :=
  row.scope = scope ∧ row.status = .unpublished ∧ row.publicationId = none ∧
    ∃ m ∈ db.minRowId scope, row.rowId ≠ m

instance (db : ServingDb) (scope : StateScope) (row : LedgerRow) :
    Decidable (db.Duplicate scope row) :=
  inferInstanceAs (Decidable (_ ∧ _ ∧ _ ∧ _))

/-- The `WHERE EXISTS` clause of the lease insert. -/
def Admits (scope : StateScope) (fencingToken : ℕ) (pinnedGeneration : String)
    (row : LedgerRow) : Prop :=
  row.scope = scope ∧ row.status = .ready ∧ row.publicationId = none ∧
    row.fencingToken = fencingToken ∧ row.activeGeneration = some pinnedGeneration

instance (scope : StateScope) (t : ℕ) (g : String) (row : LedgerRow) :
    Decidable (Admits scope t g row) :=
  inferInstanceAs (Decidable (_ ∧ _ ∧ _ ∧ _ ∧ _))

end ServingDb

/-- The SQL statements of the coordinator. -/
inductive Stmt
  /-- `_ensure_tables`: `CREATE TABLE IF NOT EXISTS`, for either table. -/
  | createTable
  /-- `_ensure_row`: `INSERT … WHERE NOT EXISTS`, with a fresh `row_id`. -/
  | insertRowIfAbsent (scope : StateScope)
  /-- `_ensure_row`: the `DELETE` that collapses duplicates. -/
  | deleteDuplicates (scope : StateScope)
  /-- `_read_row`. -/
  | selectRows (scope : StateScope)
  /-- `_lease_count`. -/
  | countLeases (scope : StateScope)
  /-- `acquire_publish`: the conditional `UPDATE`, with a fresh publication id. -/
  | claim (scope : StateScope) (expectedCodeVersion configFingerprint : String)
  /-- `_finish`: the conditional `UPDATE`. -/
  | finish (lease : PublishLease) (status : ServingStatus)
      (activeGeneration safeErrorCode : Option String) (counts : Counts)
  /-- `acquire_query`: the conditional `INSERT`, with a fresh lease id. -/
  | insertLease (scope : StateScope) (fencingToken : ℕ) (pinnedGeneration : String)
      (configFingerprint : String)
  /-- `acquire_query`: `SELECT 1 … WHERE lease_id = ?`. -/
  | selectLease (leaseId : String)
  /-- `release_query`. -/
  | deleteLease (leaseId : String)
  /-- `recover`: the `DELETE` on the lease table. -/
  | deleteLeases (scope : StateScope)
  /-- `recover`: `SELECT COALESCE(MAX(fencing_token), 0)`. -/
  | selectMaxFence (scope : StateScope)
  /-- `recover`: the `DELETE` on the ledger. -/
  | deleteLedger (scope : StateScope)
  /-- `recover`: the unconditional `INSERT`, with a fresh `row_id`. -/
  | insertRecovered (scope : StateScope) (nextFence : ℕ)
  deriving DecidableEq, Repr

/-- What a statement replies; the three that draw an identifier used by the caller reply it. -/
@[reducible] def Stmt.Ret : Stmt → Type
  | .selectRows _ => List LedgerRow
  | .countLeases _ | .selectMaxFence _ => ℕ
  | .claim .. | .insertLease .. => String
  | .selectLease _ => Bool
  | _ => Unit

/-- The error code of a recovered row. -/
def recoveryErrorCode : String := "administrative_recovery"

open ServingDb in
/-- The effect of a statement, identifiers being drawn from `uuid`. -/
def Stmt.exec (uuid : ℕ → String) : Interp Stmt Stmt.Ret Failure ServingDb
  | .createTable, db => (db, .ok ())
  | .insertRowIfAbsent scope, db =>
      (if db.rowsOf scope = [] then
        { db with
          ledger := db.ledger ++
            [{ scope, rowId := uuid db.drawn, fencingToken := 0, status := .unpublished }]
          drawn := db.drawn + 1 }
       else { db with drawn := db.drawn + 1 }, .ok ())
  | .deleteDuplicates scope, db =>
      ({ db with ledger := db.ledger.filter fun row => ¬ db.Duplicate scope row }, .ok ())
  | .selectRows scope, db => (db, .ok (db.rowsOf scope))
  | .countLeases scope, db => (db, .ok (db.leasesOf scope).length)
  | .claim scope code config, db =>
      ({ db with
          ledger := db.ledger.map fun row =>
            if db.Claimable scope row then claimed row (uuid db.drawn) code config else row
          drawn := db.drawn + 1 }, .ok (uuid db.drawn))
  | .finish lease status generation errorCode counts, db =>
      ({ db with
          ledger := db.ledger.map fun row =>
            if Holds lease row then finished row status generation errorCode counts else row },
        .ok ())
  | .insertLease scope token generation config, db =>
      (if ∃ row ∈ db.ledger, Admits scope token generation row then
        { db with
          leases := db.leases ++ [⟨scope, uuid db.drawn, token, generation, config⟩]
          drawn := db.drawn + 1 }
       else { db with drawn := db.drawn + 1 }, .ok (uuid db.drawn))
  | .selectLease leaseId, db => (db, .ok (db.leases.any (·.leaseId = leaseId)))
  | .deleteLease leaseId, db =>
      ({ db with leases := db.leases.filter (·.leaseId ≠ leaseId) }, .ok ())
  | .deleteLeases scope, db =>
      ({ db with leases := db.leases.filter (·.scope ≠ scope) }, .ok ())
  | .selectMaxFence scope, db => (db, .ok (db.maxFence scope))
  | .deleteLedger scope, db =>
      ({ db with ledger := db.ledger.filter (·.scope ≠ scope) }, .ok ())
  | .insertRecovered scope nextFence, db =>
      ({ db with
          ledger := db.ledger ++
            [{ scope, rowId := uuid db.drawn, fencingToken := nextFence, status := .failed,
               safeErrorCode := some recoveryErrorCode }]
          drawn := db.drawn + 1 }, .ok ())

end Stel.Retrieval
