import Stel.Retrieval.ServingLedger
import Stel.Program.Interleaving

/-!
# The serving coordinator

`ServingCoordinator` of `retrieval/coordination.py`, each method as a program over single SQL
statements. There is no transaction around a method: between two statements of one session any
statements of other sessions can execute, and a session can die.

## Main definitions

* `acquirePublish`, `verifyPublish`, `markReady`, `markFailed`: publication claims.
* `acquireQuery`, `validateQuery`, `releaseQuery`: query leases.
* `recover`, `status`: administrative recovery and the ledger entry.
* `Call`, `Call.code`: the calls a session can make.
-/

namespace Stel.Retrieval

/-- Programs over the coordinator's statements. -/
abbrev Coord (α : Type) : Type := Prog Stmt Stmt.Ret Failure α

namespace ServingCoordinator

/-- `_ensure_tables`, run by the constructor. -/
def ensureTables : Coord Unit := do
  Prog.perform Stmt.createTable
  Prog.perform Stmt.createTable

/-- `_ensure_row`. -/
def ensureRow (scope : StateScope) : Coord Unit := do
  Prog.perform (Stmt.insertRowIfAbsent scope)
  Prog.perform (Stmt.deleteDuplicates scope)

/-- The single row among the rows read for one scope. -/
def singleRow : List LedgerRow → Except Failure (Option LedgerRow)
  | [] => .ok none
  | [row] => .ok (some row)
  | _ => .error (.servingCoordinationError
      ("Serving ledger holds conflicting rows for one scope; run `stel serving recover` after " ++
       "terminating all publishers"))

/-- `_read_row`. -/
def readRow (scope : StateScope) : Coord (Option LedgerRow) :=
  .call (.selectRows scope) (fun rows => .ofExcept (singleRow rows)) .throw

/-- Safe, artifact-visible readiness metadata for one serving scope. -/
structure LedgerEntry where
  status : ServingStatus
  fencingToken : ℕ
  publicationId : Option String
  expectedCodeVersion : Option String
  configFingerprint : Option String
  activeGeneration : Option String
  safeErrorCode : Option String
  counts : Counts
  queryLeases : ℕ
  deriving DecidableEq, Repr

/-- `status`. -/
def status (scope : StateScope) : Coord LedgerEntry := do
  match ← readRow scope with
  | none => return ⟨.unpublished, 0, none, none, none, none, none, {}, 0⟩
  | some row =>
    .call (.countLeases scope) (fun n => .pure ⟨row.status, row.fencingToken, row.publicationId,
      row.expectedCodeVersion, row.configFingerprint, row.activeGeneration, row.safeErrorCode,
      row.counts, n⟩) .throw

/-! ### Publication claims -/

/-- What the claimant concludes from the row it reads back. -/
def proveClaim (scope : StateScope) (publicationId : String) :
    Option LedgerRow → Except Failure PublishLease
  | none => .error (.servingCoordinationError "Serving ledger row disappeared during claim")
  | some row =>
    if row.publicationId = some publicationId then
      .ok ⟨scope, publicationId, row.fencingToken⟩
    else if row.publicationId.isSome then
      .error (.servingBusyError
        ("Another publisher owns this serving scope; if its process is dead, terminate it and " ++
         "run `stel serving recover`"))
    else
      .error (.servingBusyError "Active query leases block publication for this serving scope")

/-- `acquire_publish`. -/
def acquirePublish (scope : StateScope) (expectedCodeVersion configFingerprint : String) :
    Coord PublishLease := do
  ensureRow scope
  .call (.claim scope expectedCodeVersion configFingerprint) (fun publicationId => do
    let row ← readRow scope
    .ofExcept (proveClaim scope publicationId row)) .throw

/-- The row read for a lease still carries its claim. -/
def Current (lease : PublishLease) (row : Option LedgerRow) : Prop :=
  ∃ r ∈ row, r.publicationId = some lease.publicationId ∧ r.fencingToken = lease.fencingToken

instance (lease : PublishLease) (row : Option LedgerRow) : Decidable (Current lease row) :=
  inferInstanceAs (Decidable (∃ r ∈ row, _))

/-- `verify_publish`. -/
def verifyPublish (lease : PublishLease) : Coord Unit := do
  let row ← readRow lease.scope
  if Current lease row then return ()
  else .throw (.staleServingLeaseError
    "Serving publication authority was reassigned; aborting before further store I/O")

/-- The row read after a completion is the completed one. -/
def Completed (lease : PublishLease) (status : ServingStatus) (row : Option LedgerRow) : Prop :=
  ∃ r ∈ row, r.fencingToken = lease.fencingToken ∧ r.status = status ∧ r.publicationId = none

instance (lease : PublishLease) (status : ServingStatus) (row : Option LedgerRow) :
    Decidable (Completed lease status row) :=
  inferInstanceAs (Decidable (∃ r ∈ row, _))

/-- `_finish`. -/
def finish (lease : PublishLease) (status : ServingStatus)
    (activeGeneration safeErrorCode : Option String) (counts : Counts) : Coord Unit := do
  Prog.perform (Stmt.finish lease status activeGeneration safeErrorCode counts)
  let row ← readRow lease.scope
  if Completed lease status row then return ()
  else .throw (.staleServingLeaseError
    "Serving publication authority was reassigned before completion")

/-- `mark_ready`. -/
def markReady (lease : PublishLease) (activeGeneration configFingerprint : String)
    (counts : Counts) : Coord Unit := do
  if activeGeneration = "" then
    .throw (.servingCoordinationError "Ready activation requires a physical generation")
  else
    let row ← readRow lease.scope
    if ¬ Current lease row then
      .throw (.staleServingLeaseError
        "Serving publication authority was reassigned before activation")
    else if row.bind (·.configFingerprint) ≠ some configFingerprint then
      .throw (.servingCoordinationError
        "Ready activation does not match the claimed configuration fingerprint")
    else
      finish lease .ready (some activeGeneration) none counts

/-- `^[a-z][a-z0-9_]{0,63}$`. -/
def isSafeErrorCode (code : String) : Bool :=
  match code.toList with
  | [] => false
  | c :: cs => ('a' ≤ c && c ≤ 'z') && cs.length ≤ 63 &&
      cs.all fun d => ('a' ≤ d && d ≤ 'z') || ('0' ≤ d && d ≤ '9') || d = '_'

/-- `validate_safe_error_code`. -/
def validateSafeErrorCode (code : String) : Except Failure String :=
  if isSafeErrorCode code then .ok code
  else .error (.servingCoordinationError
    "Serving ledger error codes must be short lowercase identifiers")

/-- `mark_failed`. -/
def markFailed (lease : PublishLease) (safeErrorCode : String) (counts : Counts) :
    Coord Unit := do
  let code ← .ofExcept (validateSafeErrorCode safeErrorCode)
  finish lease .failed none (some code) counts

/-! ### Query leases -/

/-- The row read for a query lease still pins its generation. -/
def Pinned (lease : QueryLease) (row : Option LedgerRow) : Prop :=
  ∃ r ∈ row, r.fencingToken = lease.fencingToken ∧ r.status = .ready ∧ r.publicationId = none ∧
    r.activeGeneration = some lease.pinnedGeneration

instance (lease : QueryLease) (row : Option LedgerRow) : Decidable (Pinned lease row) :=
  inferInstanceAs (Decidable (∃ r ∈ row, _))

/-- `validate_query`. -/
def validateQuery (lease : QueryLease) : Coord Unit := do
  let row ← readRow lease.scope
  if Pinned lease row then return ()
  else .throw (.staleServingLeaseError
    "The pinned search-index generation is no longer active; retry the query")

/-- `release_query`. -/
def releaseQuery (lease : QueryLease) : Coord Unit :=
  Prog.perform (Stmt.deleteLease lease.leaseId)

/-- The fence, generation and configuration a query would pin, if the scope is ready. -/
def admission : Option LedgerRow → Except Failure (ℕ × String × String)
  | none => .error (.servingNotReadyError
      "This search index has not been published; run `stel run`")
  | some row =>
    if row.status = .unpublished then
      .error (.servingNotReadyError "This search index has not been published; run `stel run`")
    else if row.publicationId.isSome then
      .error (.servingBusyError
        "A publisher is reconciling this search index; retry after it completes")
    else match row.status, row.activeGeneration with
      | .ready, some generation =>
        .ok (row.fencingToken, generation, row.configFingerprint.getD "")
      | _, _ => .error (.servingNotReadyError
          ("This search index has no ready publication; re-run `stel run` and resolve any " ++
           "recorded failure first"))

/-- `acquire_query`. -/
def acquireQuery (scope : StateScope) : Coord QueryLease := do
  let row ← readRow scope
  let (token, generation, config) ← Prog.ofExcept (admission row)
  .call (.insertLease scope token generation config) (fun leaseId =>
    .call (.selectLease leaseId) (fun held =>
      let lease : QueryLease := ⟨scope, leaseId, token, generation, config⟩
      if held then do
        (validateQuery lease).tryCatch fun e => do
          if e.isCoordination then releaseQuery lease
          .throw e
        return lease
      else .throw (.servingBusyError
        "A publisher claimed this search index during query admission; retry")) .throw) .throw

/-! ### Administrative recovery -/

/-- `recover`. -/
def recover (scope : StateScope) (ownerTerminated : Bool) : Coord LedgerEntry := do
  if ¬ ownerTerminated then
    .throw (.servingCoordinationError
      ("Serving recovery requires terminating the previous owner first; re-run with the " ++
       "owner-terminated confirmation"))
  else
    Prog.perform (Stmt.deleteLeases scope)
    .call (.selectMaxFence scope) (fun m => do
      Prog.perform (Stmt.deleteLedger scope)
      Prog.perform (Stmt.insertRecovered scope (m + 1))
      status scope) .throw

/-! ### The statements that the methods issue -/


theorem calls_readRow {A : Stmt → Prop} (scope : StateScope) (h : A (.selectRows scope)) :
    (readRow scope).Calls A :=
  ⟨h, fun _ => Prog.calls_ofExcept _, fun _ => trivial⟩

theorem calls_status {A : Stmt → Prop} (scope : StateScope) (h : A (.selectRows scope))
    (h' : A (.countLeases scope)) : (status scope).Calls A := by
  refine (calls_readRow scope h).bind fun row => ?_
  cases row with
  | none => trivial
  | some row => exact ⟨h', fun _ => trivial, fun _ => trivial⟩

theorem calls_acquirePublish {A : Stmt → Prop} (scope : StateScope) (code config : String)
    (h : A (.selectRows scope)) (hi : A (.insertRowIfAbsent scope))
    (hd : A (.deleteDuplicates scope)) (hc : A (.claim scope code config)) :
    (acquirePublish scope code config).Calls A := by
  refine ⟨hi, fun _ => ⟨hd, fun _ => ⟨hc, fun _ => ?_, fun _ => trivial⟩, fun _ => trivial⟩,
    fun _ => trivial⟩
  exact (calls_readRow scope h).bind fun row => Prog.calls_ofExcept _

theorem calls_verifyPublish {A : Stmt → Prop} (lease : PublishLease)
    (h : A (.selectRows lease.scope)) : (verifyPublish lease).Calls A := by
  refine (calls_readRow _ h).bind fun row => ?_
  split <;> trivial

theorem calls_finish {A : Stmt → Prop} (lease : PublishLease) (status : ServingStatus)
    (generation errorCode : Option String) (counts : Counts) (h : A (.selectRows lease.scope))
    (hf : A (.finish lease status generation errorCode counts)) :
    (finish lease status generation errorCode counts).Calls A := by
  refine ⟨hf, fun _ => (calls_readRow _ h).bind fun row => ?_, fun _ => trivial⟩
  split <;> trivial

theorem calls_markReady {A : Stmt → Prop} (lease : PublishLease) (generation config : String)
    (counts : Counts) (h : A (.selectRows lease.scope))
    (hf : A (.finish lease .ready (some generation) none counts)) :
    (markReady lease generation config counts).Calls A := by
  unfold markReady
  split
  · trivial
  · refine (calls_readRow _ h).bind fun row => ?_
    split
    · trivial
    · split
      · trivial
      · exact calls_finish lease _ _ _ _ h hf

theorem calls_markFailed {A : Stmt → Prop} (lease : PublishLease) (code : String)
    (counts : Counts) (h : A (.selectRows lease.scope))
    (hf : ∀ code, A (.finish lease .failed none (some code) counts)) :
    (markFailed lease code counts).Calls A :=
  (Prog.calls_ofExcept _).bind fun code => calls_finish lease _ _ _ _ h (hf code)

theorem calls_validateQuery {A : Stmt → Prop} (lease : QueryLease)
    (h : A (.selectRows lease.scope)) : (validateQuery lease).Calls A := by
  refine (calls_readRow _ h).bind fun row => ?_
  split <;> trivial

theorem calls_acquireQuery {A : Stmt → Prop} (scope : StateScope) (h : A (.selectRows scope))
    (hi : ∀ t g c, A (.insertLease scope t g c)) (hs : ∀ i, A (.selectLease i))
    (hd : ∀ i, A (.deleteLease i)) : (acquireQuery scope).Calls A := by
  refine (calls_readRow _ h).bind fun row => (Prog.calls_ofExcept _).bind ?_
  rintro ⟨token, generation, config⟩
  refine ⟨hi _ _ _, fun i => ⟨hs i, fun held => ?_, fun _ => trivial⟩, fun _ => trivial⟩
  cases held with
  | false => trivial
  | true =>
    refine Prog.Calls.bind (Prog.Calls.tryCatch (calls_validateQuery _ h) fun e => ?_)
      fun _ => trivial
    cases e.isCoordination with
    | false => trivial
    | true => exact ⟨hd i, fun _ => trivial, fun _ => trivial⟩

theorem calls_recover {A : Stmt → Prop} (scope : StateScope) (ownerTerminated : Bool)
    (h : A (.selectRows scope)) (hn : A (.countLeases scope)) (hl : A (.deleteLeases scope))
    (hm : A (.selectMaxFence scope)) (hd : A (.deleteLedger scope))
    (hi : ∀ t, A (.insertRecovered scope t)) : (recover scope ownerTerminated).Calls A := by
  cases ownerTerminated with
  | false => trivial
  | true =>
    refine ⟨hl, fun _ => ⟨hm, fun m => ⟨hd, fun _ => ⟨hi _, fun _ => calls_status scope h hn,
      fun _ => trivial⟩, fun _ => trivial⟩, fun _ => trivial⟩, fun _ => trivial⟩

end ServingCoordinator

/-! ### Sessions -/

/-- A call of one coordinator method. -/
inductive Call
  | acquirePublish (scope : StateScope) (expectedCodeVersion configFingerprint : String)
  | verifyPublish (lease : PublishLease)
  | markReady (lease : PublishLease) (activeGeneration configFingerprint : String)
      (counts : Counts)
  | markFailed (lease : PublishLease) (safeErrorCode : String) (counts : Counts)
  | acquireQuery (scope : StateScope)
  | validateQuery (lease : QueryLease)
  | releaseQuery (lease : QueryLease)
  | recover (scope : StateScope) (ownerTerminated : Bool)

/-- What a call returns. -/
inductive Reply
  | done
  | publishLease (lease : PublishLease)
  | queryLease (lease : QueryLease)
  | entry (entry : ServingCoordinator.LedgerEntry)
  deriving DecidableEq

open ServingCoordinator in
/-- The program of a call. -/
def Call.code : Call → Coord Reply
  | .acquirePublish scope code config => do
      return .publishLease (← ServingCoordinator.acquirePublish scope code config)
  | .verifyPublish lease => do
      ServingCoordinator.verifyPublish lease
      return .done
  | .markReady lease generation config counts => do
      ServingCoordinator.markReady lease generation config counts
      return .done
  | .markFailed lease code counts => do
      ServingCoordinator.markFailed lease code counts
      return .done
  | .acquireQuery scope => do
      return .queryLease (← ServingCoordinator.acquireQuery scope)
  | .validateQuery lease => do
      ServingCoordinator.validateQuery lease
      return .done
  | .releaseQuery lease => do
      ServingCoordinator.releaseQuery lease
      return .done
  | .recover scope ownerTerminated => do
      return .entry (← ServingCoordinator.recover scope ownerTerminated)

/-- Coordinator sessions, numbered, on the serving tables. -/
abbrev Sessions : Type := Pool ℕ Stmt Stmt.Ret Failure ServingDb Reply

namespace Sessions

/-- Some run of the coordinator's sessions leads from `c` to `d`. -/
abbrev Leads (uuid : ℕ → String) (c d : Sessions) : Prop :=
  c.Reaches (Stmt.exec uuid) Call.code Pool.anyOp d

/-- Some run from empty tables leads to `c`. -/
abbrev Reachable (uuid : ℕ → String) (c : Sessions) : Prop :=
  Leads uuid (.initial {}) c

/-- Where a schedule leads from empty tables. -/
abbrev after (uuid : ℕ → String) (as : List (Pool.Act ℕ Call)) : Sessions :=
  Pool.after (Stmt.exec uuid) Call.code Pool.anyOp (.initial {}) as

end Sessions

/-- A sequence of distinct identifiers. -/
def sampleUuid (n : ℕ) : String := String.ofList (List.replicate n 'f')

theorem sampleUuid_injective : Function.Injective sampleUuid := by
  intro m n h
  have hlist := congrArg (fun s => s.toList.length) h
  simpa [sampleUuid] using hlist

end Stel.Retrieval
