import Stel.Retrieval.Coordinator
import Stel.Program.Amid

/-!
# What a publisher is told

`mark_ready` and `mark_failed` end with a conditional `UPDATE` and a separate read that checks it.
Statements of other sessions can execute in between.

## Main definitions

* `Effective`: the `UPDATE` changed a row.
* `Displaces`: a statement of another session that takes the completed row away.
* `Undisturbed`: a list of statements without such a one.

## Main results

* `stale_of_undisturbed`: a call between whose `UPDATE` and read no completed row is taken away
  reports a stale lease only if the `UPDATE` changed no row.
-/

namespace Stel.Retrieval

open ServingCoordinator ServingDb

/-- The statement is the completion of a lease. -/
def IsFinish (lease : PublishLease) : Stmt → Prop
  | .finish lease' _ _ _ _ => lease' = lease
  | _ => False

/-- The step is the completion of a lease, and it changed a row. -/
def Effective (lease : PublishLease) (step : Prog.OwnStep Stmt ServingDb) : Prop :=
  IsFinish lease step.op ∧ ∃ row ∈ step.before.ledger, Holds lease row

/-- The statement takes the completed row of a scope away: a claim of the scope that succeeds, or
the `DELETE` of a recovery of the scope. -/
def Displaces (scope : StateScope) (db : ServingDb) : Stmt → Prop
  | .claim scope' _ _ => scope' = scope ∧ ∃ row ∈ db.ledger, db.Claimable scope row
  | .deleteLedger scope' => scope' = scope
  | _ => False

/-- No statement of the list takes the completed row away. -/
def Undisturbed (uuid : ℕ → String) (scope : StateScope) : ServingDb → List Stmt → Prop
  | _, [] => True
  | db, o :: ops =>
    ¬ Displaces scope db o ∧ Undisturbed uuid scope (Stmt.exec uuid o db).1 ops

/-- The scope has a row that is completed by the lease. -/
def HasCompleted (lease : PublishLease) (status : ServingStatus) (db : ServingDb) : Prop :=
  ∃ row ∈ db.rowsOf lease.scope, row.fencingToken = lease.fencingToken ∧ row.status = status ∧
    row.publicationId = none

/-- The exceptions of a statement that fails. -/
def IsFault : Failure → Prop
  | .adapterError _ | .other _ => True
  | _ => False

section Steps

variable {uuid : ℕ → String} {lease : PublishLease} {status : ServingStatus} {db : ServingDb}

variable (uuid status) in
/-- The `UPDATE` completes the row that it changes. -/
theorem hasCompleted_finish (generation errorCode : Option String) (counts : Counts)
    (h : ∃ row ∈ db.ledger, Holds lease row) :
    HasCompleted lease status
      (Stmt.exec uuid (.finish lease status generation errorCode counts) db).1 := by
  obtain ⟨row, hrow, hholds⟩ := h
  refine ⟨finished row status generation errorCode counts, ?_, hholds.2.2, rfl, rfl⟩
  refine List.mem_filter.mpr ⟨List.mem_map.mpr ⟨row, hrow, if_pos hholds⟩, ?_⟩
  exact decide_eq_true hholds.1

/-- A statement that does not take the completed row away keeps it. -/
theorem HasCompleted.exec (hstatus : status ≠ .unpublished) (h : HasCompleted lease status db)
    (o : Stmt) (ho : ¬ Displaces lease.scope db o) :
    HasCompleted lease status (Stmt.exec uuid o db).1 := by
  obtain ⟨row, hrow, htoken, hrowStatus, hpublication⟩ := h
  obtain ⟨hledger, hscope⟩ := List.mem_filter.mp hrow
  have hscope : row.scope = lease.scope := by simpa using hscope
  have keeps {ledger : List LedgerRow} {leases : List LeaseRow} {drawn : ℕ} (hmem : row ∈ ledger) :
      HasCompleted lease status ⟨ledger, leases, drawn⟩ :=
    ⟨row, List.mem_filter.mpr ⟨hmem, by simpa using hscope⟩, htoken, hrowStatus, hpublication⟩
  cases o with
  | createTable | selectRows scope | countLeases scope | selectLease leaseId
  | selectMaxFence scope => exact keeps hledger
  | insertRowIfAbsent scope =>
    simp only [Stmt.exec]
    split_ifs
    · exact keeps (List.mem_append_left _ hledger)
    · exact keeps hledger
  | deleteDuplicates scope =>
    refine keeps (List.mem_filter.mpr ⟨hledger, ?_⟩)
    have hkept : ¬ db.Duplicate scope row := fun hduplicate =>
      hstatus (hrowStatus.symm.trans hduplicate.2.1)
    simpa using hkept
  | claim scope code config =>
    refine keeps (List.mem_map.mpr ⟨row, hledger, if_neg fun hclaimable => ?_⟩)
    have heq : scope = lease.scope := hclaimable.1.symm.trans hscope
    exact ho ⟨heq, row, hledger, heq ▸ hclaimable⟩
  | finish lease' status' generation errorCode counts =>
    refine keeps (List.mem_map.mpr ⟨row, hledger, if_neg fun hholds => ?_⟩)
    cases hpublication.symm.trans hholds.2.1
  | insertLease scope token generation config =>
    simp only [Stmt.exec]
    split_ifs
    · exact keeps hledger
    · exact keeps hledger
  | deleteLease leaseId => exact keeps hledger
  | deleteLeases scope => exact keeps hledger
  | deleteLedger scope =>
    refine keeps (List.mem_filter.mpr ⟨hledger, ?_⟩)
    have hne : row.scope ≠ scope := fun heq => ho (heq.symm.trans hscope)
    simpa using hne
  | insertRecovered scope nextFence => exact keeps (List.mem_append_left _ hledger)

theorem HasCompleted.afterAll (hstatus : status ≠ .unpublished) (ops : List Stmt)
    (h : HasCompleted lease status db) (hops : Undisturbed uuid lease.scope db ops) :
    HasCompleted lease status (Prog.afterAll (Stmt.exec uuid) db ops) := by
  induction ops generalizing db with
  | nil => exact h
  | cons o ops ih => exact ih (h.exec hstatus o hops.1) hops.2

/-- A single row that is read while the scope has a completed one is that one. -/
theorem HasCompleted.completed (h : HasCompleted lease status db) {row : Option LedgerRow}
    (hrow : singleRow (db.rowsOf lease.scope) = .ok row) : Completed lease status row := by
  obtain ⟨completed, hmem, hcompleted⟩ := h
  match hrows : db.rowsOf lease.scope with
  | [] =>
    rw [hrows] at hmem
    cases hmem
  | [single] =>
    rw [hrows] at hmem hrow
    obtain rfl := List.mem_singleton.mp hmem
    cases hrow
    exact ⟨completed, rfl, hcompleted⟩
  | _ :: _ :: _ =>
    rw [hrows] at hrow
    cases hrow

/-! ### The outcomes of a call -/

/-- A read of the ledger before the rest of a call. -/
theorem amid_readRow_bind {β : Type} {scope : StateScope} {f : Option LedgerRow → Coord β}
    {steps : List (Prog.OwnStep Stmt ServingDb)} {x : Except Failure β}
    (h : (readRow scope >>= f).Amid (Stmt.exec uuid) IsFault db steps x) :
    (∃ e, IsFault e ∧ steps = [] ∧ x = .error e) ∨
    ∃ foreign rest, steps =
        ⟨foreign, .selectRows scope, Prog.afterAll (Stmt.exec uuid) db foreign⟩ :: rest ∧
      ((∃ row, singleRow ((Prog.afterAll (Stmt.exec uuid) db foreign).rowsOf scope) = .ok row ∧
        (f row).Amid (Stmt.exec uuid) IsFault (Prog.afterAll (Stmt.exec uuid) db foreign) rest x) ∨
      ∃ message, rest = [] ∧ x = .error (.servingCoordinationError message)) := by
  obtain ⟨foreign, ⟨rest, rfl, hown⟩ | ⟨e, he, hfault⟩⟩ := h
  · refine .inr ⟨foreign, rest, rfl, ?_⟩
    obtain ⟨t, rows, hexec, hnext⟩ | ⟨t, e, hexec, -⟩ := hown
    · cases hexec
      dsimp only at hnext
      match hsingle : singleRow ((Prog.afterAll (Stmt.exec uuid) db foreign).rowsOf scope) with
      | .ok row =>
        rw [hsingle] at hnext
        exact .inl ⟨row, rfl, hnext⟩
      | .error e =>
        rw [hsingle] at hnext
        obtain ⟨rfl, rfl⟩ := hnext
        match hrows : (Prog.afterAll (Stmt.exec uuid) db foreign).rowsOf scope with
        | [] | [_] =>
          rw [hrows] at hsingle
          cases hsingle
        | _ :: _ :: _ =>
          rw [hrows] at hsingle
          cases hsingle
          exact .inr ⟨_, rfl, rfl⟩
    · cases hexec
  · obtain ⟨rfl, rfl⟩ := hfault
    exact .inl ⟨e, he, rfl, rfl⟩

/-- Between the completion in a list of steps and the step after it, no statement of another
session takes the completed row away. -/
def UndisturbedRead (uuid : ℕ → String) (lease : PublishLease)
    (steps : List (Prog.OwnStep Stmt ServingDb)) : Prop :=
  ∀ earlier update read later, steps = earlier ++ update :: read :: later →
    IsFinish lease update.op →
    Undisturbed uuid lease.scope (Stmt.exec uuid update.op update.before).1 read.foreign

/-- A completion reports a stale lease only if it changed no row. -/
theorem not_effective_of_finish (hstatus : status ≠ .unpublished)
    {generation errorCode : Option String} {counts : Counts}
    {steps : List (Prog.OwnStep Stmt ServingDb)} {message : String}
    (h : (finish lease status generation errorCode counts).Amid (Stmt.exec uuid) IsFault db steps
      (.error (.staleServingLeaseError message)))
    (hread : UndisturbedRead uuid lease steps) :
    ∀ step ∈ steps, ¬ Effective lease step := by
  obtain ⟨foreign, ⟨rest, rfl, hown⟩ | ⟨e, he, hfault⟩⟩ := h
  · obtain ⟨t, r, hexec, hnext⟩ | ⟨t, e, hexec, -⟩ := hown
    · have ht : t = (Stmt.exec uuid (.finish lease status generation errorCode counts)
          (Prog.afterAll (Stmt.exec uuid) db foreign)).1 := by rw [hexec]
      obtain ⟨e, he, -, hx⟩ | ⟨foreign', rest', rfl, hrow⟩ := amid_readRow_bind hnext
      · cases hx
        cases he
      · obtain ⟨row, hrow, hcheck⟩ | ⟨message', -, hx⟩ := hrow
        · -- The read did not find the completed row, so the update had not made one.
          have hnot : ¬ Completed lease status row := by
            intro hcompleted
            rw [if_pos hcompleted] at hcheck
            cases hcheck.2
          rw [if_neg hnot] at hcheck
          obtain ⟨rfl, -⟩ := hcheck
          rintro step hstep ⟨hfinish, heffective⟩
          rcases List.mem_cons.mp hstep with rfl | hstep
          · have hundisturbed := hread [] _ _ [] rfl rfl
            have hcompleted := hasCompleted_finish uuid status generation
              errorCode counts heffective
            rw [← ht] at hcompleted hundisturbed
            exact hnot ((hcompleted.afterAll hstatus foreign' hundisturbed).completed hrow)
          · obtain rfl := List.mem_singleton.mp hstep
            exact hfinish
        · cases hx
    · cases hexec
  · obtain ⟨rfl, hx⟩ := hfault
    simp

/-- The calls that end a publication. -/
def CompletesWith (lease : PublishLease) (call : Coord Unit) : Prop :=
  (∃ generation config counts, call = markReady lease generation config counts) ∨
    ∃ code counts, call = markFailed lease code counts

end Steps

/-- A call of `mark_ready` or `mark_failed` between whose `UPDATE` and read no completed row is taken
away reports a stale lease only if its `UPDATE` changed no row. -/
theorem stale_of_undisturbed (uuid : ℕ → String) (lease : PublishLease) (call : Coord Unit)
    (db : ServingDb) (steps : List (Prog.OwnStep Stmt ServingDb)) (message : String)
    (hcall : CompletesWith lease call)
    (hstale : call.Amid (Stmt.exec uuid) IsFault db steps
      (.error (.staleServingLeaseError message)))
    (hread : UndisturbedRead uuid lease steps) :
    ∀ step ∈ steps, ¬ Effective lease step := by
  obtain ⟨generation, config, counts, rfl⟩ | ⟨code, counts, rfl⟩ := hcall
  · unfold markReady at hstale
    split_ifs at hstale
    · obtain ⟨rfl, hx⟩ := hstale
      simp
    · obtain ⟨e, he, rfl, hx⟩ | ⟨foreign, rest, rfl, hrow⟩ := amid_readRow_bind hstale
      · simp
      · rw [List.forall_mem_cons]
        refine ⟨fun heffective => heffective.1, ?_⟩
        obtain ⟨row, -, hnext⟩ | ⟨message', rfl, -⟩ := hrow
        · split at hnext
          · obtain ⟨rfl, -⟩ := hnext
            simp
          split at hnext
          · obtain ⟨rfl, -⟩ := hnext
            simp
          · refine not_effective_of_finish (by decide) hnext ?_
            intro earlier update read later hrest
            exact hread (_ :: earlier) update read later (by rw [hrest, List.cons_append])
        · simp
  · unfold markFailed at hstale
    cases hcode : validateSafeErrorCode code with
    | error e =>
      rw [hcode] at hstale
      obtain ⟨rfl, -⟩ := hstale
      simp
    | ok code' =>
      rw [hcode] at hstale
      exact not_effective_of_finish (by decide) hstale hread

/-! ### A claim between the `UPDATE` and the read -/

/-- The scope of an index. -/
def policyScope : StateScope := ⟨"policies", "retrieval_publish", "lancedb"⟩

/-- The lease of its first publication. -/
def firstLease : PublishLease := ⟨policyScope, "f", 1⟩

/-- The ledger during the first publication. -/
def publishingDb : ServingDb where
  ledger := [{
    scope := policyScope
    rowId := ""
    fencingToken := 1
    status := .publishing
    publicationId := some "f"
    expectedCodeVersion := some "v1"
    configFingerprint := some "c1" }]
  drawn := 2

/-- The first publication is activated. -/
def firstReady : Coord Unit := markReady firstLease "g1" "c1" {}

/-- The steps of the activation, with statements of other sessions before the last read. -/
def readySteps (others : List Stmt) : List (Prog.OwnStep Stmt ServingDb) :=
  let update := Stmt.finish firstLease .ready (some "g1") none {}
  let after := (Stmt.exec sampleUuid update publishingDb).1
  [⟨[], .selectRows policyScope, publishingDb⟩, ⟨[], update, publishingDb⟩,
    ⟨others, .selectRows policyScope, Prog.afterAll (Stmt.exec sampleUuid) after others⟩]

/-- A lease whose claim was taken over. -/
def lostLease : PublishLease := ⟨policyScope, "e", 1⟩

/-- The steps of the failure of the publication with that lease. -/
def failedSteps : List (Prog.OwnStep Stmt ServingDb) :=
  let update := Stmt.finish lostLease .failed none (some "failed") {}
  [⟨[], update, publishingDb⟩,
    ⟨[], .selectRows policyScope, (Stmt.exec sampleUuid update publishingDb).1⟩]

theorem stale_of_undisturbed_lost :
    (markFailed lostLease "failed" {}).Amid (Stmt.exec sampleUuid) IsFault publishingDb failedSteps
      (.error (.staleServingLeaseError
        "Serving publication authority was reassigned before completion")) ∧
    ∀ step ∈ failedSteps, ¬ Effective lostLease step := by
  have hstale : (markFailed lostLease "failed" {}).Amid (Stmt.exec sampleUuid) IsFault publishingDb
      failedSteps (.error (.staleServingLeaseError
        "Serving publication authority was reassigned before completion")) := by
    refine ⟨[], .inl ⟨_, rfl, .inl ⟨_, _, rfl, ?_⟩⟩⟩
    refine ⟨[], .inl ⟨_, rfl, .inl ⟨_, _, rfl, ?_⟩⟩⟩
    exact ⟨rfl, rfl⟩
  have hread : UndisturbedRead sampleUuid lostLease failedSteps := by
    intro earlier update read later hsteps _
    have hforeign : read.foreign = [] := by
      have hmem : read ∈ failedSteps := by simp [hsteps]
      rcases List.mem_cons.mp hmem with rfl | hmem
      · rfl
      · obtain rfl := List.mem_singleton.mp hmem
        rfl
    rw [hforeign]
    trivial
  exact ⟨hstale, stale_of_undisturbed sampleUuid lostLease _ publishingDb failedSteps _
    (.inr ⟨_, _, rfl⟩) hstale hread⟩

/-- A publication is activated, another publisher claims the scope before the read, and the owner of
the first publication is told that its lease is stale. -/
theorem activated_told_stale :
    ∃ (uuid : ℕ → String) (lease : PublishLease) (call : Coord Unit) (db : ServingDb)
      (steps : List (Prog.OwnStep Stmt ServingDb)) (message : String),
      CompletesWith lease call ∧
      call.Amid (Stmt.exec uuid) IsFault db steps (.error (.staleServingLeaseError message)) ∧
      ∃ step ∈ steps, Effective lease step := by
  refine ⟨sampleUuid, firstLease, firstReady, publishingDb, readySteps [.claim policyScope "v2" "c2"],
    "Serving publication authority was reassigned before completion", .inl ⟨_, _, _, rfl⟩, ?_, ?_⟩
  · refine ⟨[], .inl ⟨_, rfl, .inl ⟨_, _, rfl, ?_⟩⟩⟩
    refine ⟨[], .inl ⟨_, rfl, .inl ⟨_, _, rfl, ?_⟩⟩⟩
    refine ⟨[.claim policyScope "v2" "c2"], .inl ⟨_, rfl, .inl ⟨_, _, rfl, ?_⟩⟩⟩
    exact ⟨rfl, rfl⟩
  · refine ⟨_, List.mem_cons_of_mem _ List.mem_cons_self, rfl, _, List.mem_cons_self, ?_⟩
    exact ⟨rfl, rfl, rfl⟩

end Stel.Retrieval
