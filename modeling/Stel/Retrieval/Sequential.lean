import Stel.Retrieval.Coordinator
import Stel.Program.Faults

/-!
# The coordinator without competitors

When the calls on a scope follow one another, each possibly cut short, the scope never has two
ledger rows. A scope without a claim or a query lease can then be claimed, and its claim can be
verified and completed.

## Main definitions

* `Single`: the scope has at most one ledger row.
* `Held`: the single row of the scope carries the lease.

## Main results

* `Single.exec`, `safe_code`: calls that follow one another keep the scope single.
* `returns_acquirePublish`, `returns_verifyPublish`, `returns_markReady`: the calls succeed.
-/

namespace Stel.Retrieval

open ServingDb

variable {uuid : ℕ → String} {scope : StateScope} {db : ServingDb}

/-- The scope has at most one ledger row. -/
def Single (scope : StateScope) (db : ServingDb) : Prop :=
  (db.rowsOf scope).length ≤ 1

/-- The single ledger row of the scope carries the lease and the configuration. -/
def Held (lease : PublishLease) (configFingerprint : String) (db : ServingDb) : Prop :=
  ∃ row, db.rowsOf lease.scope = [row] ∧ Holds lease row ∧
    row.configFingerprint = some configFingerprint

theorem rowsOf_map (db : ServingDb) {f : LedgerRow → LedgerRow} {drawn : ℕ}
    (hf : ∀ row, (f row).scope = row.scope) :
    rowsOf { db with ledger := db.ledger.map f, drawn := drawn } scope =
      (db.rowsOf scope).map f := by
  simp [rowsOf, List.filter_map, Function.comp_def, hf]

theorem rowsOf_append {row : LedgerRow} {drawn : ℕ} :
    rowsOf { db with ledger := db.ledger ++ [row], drawn := drawn } scope =
      if row.scope = scope then db.rowsOf scope ++ [row] else db.rowsOf scope := by
  by_cases h : row.scope = scope <;> simp [rowsOf, List.filter_append, h]

theorem scope_claim (db' : ServingDb) (sc : StateScope) (p code config : String)
    (row : LedgerRow) :
    (if db'.Claimable sc row then claimed row p code config else row).scope = row.scope := by
  split <;> rfl

theorem scope_finish (lease : PublishLease) (status : ServingStatus)
    (generation errorCode : Option String) (counts : Counts) (row : LedgerRow) :
    (if Holds lease row then finished row status generation errorCode counts else row).scope =
      row.scope := by
  split <;> rfl

/-! ### Single scopes -/

/-- Only the insertion of a recovered row can give a scope a second row. -/
theorem Single.exec (h : Single scope db) {o : Stmt}
    (ho : ∀ sc t, o ≠ .insertRecovered sc t) : Single scope (o.exec uuid db).1 := by
  have hfilter : ∀ keep : LedgerRow → Bool,
      Single scope { db with ledger := db.ledger.filter keep } := fun keep =>
    (((List.filter_sublist (p := keep) (l := db.ledger)).filter _).length_le).trans h
  cases o with
  | insertRowIfAbsent sc =>
    simp only [Stmt.exec]
    split
    · rename_i hnone
      unfold Single
      rw [rowsOf_append]
      split
      · rename_i hsc
        rw [← hsc, hnone]
        simp
      · exact h
    · exact h
  | deleteDuplicates sc => exact hfilter _
  | claim sc code config =>
    unfold Single
    simp only [Stmt.exec]
    rw [rowsOf_map db (scope_claim db sc (uuid db.drawn) code config), List.length_map]
    exact h
  | finish lease status generation errorCode counts =>
    unfold Single
    simp only [Stmt.exec]
    rw [rowsOf_map db (scope_finish lease status generation errorCode counts), List.length_map]
    exact h
  | insertLease sc t g c =>
    simp only [Stmt.exec]
    split <;> exact h
  | deleteLedger sc => exact hfilter _
  | insertRecovered sc t => exact absurd rfl (ho sc t)
  | _ => exact h

/-- A recovered row can be inserted for a scope without rows. -/
theorem Single.insertRecovered (h : Single scope db) {sc : StateScope} {t : ℕ}
    (hnone : sc = scope → db.rowsOf scope = []) :
    Single scope ((Stmt.insertRecovered sc t).exec uuid db).1 := by
  unfold Single
  simp only [Stmt.exec]
  rw [rowsOf_append]
  split
  · rename_i hsc
    rw [hnone hsc]
    simp
  · exact h

open ServingCoordinator in
/-- A recovery that is cut short anywhere keeps the scope single. -/
theorem safe_recover (h : Single scope db) (sc : StateScope) (ownerTerminated : Bool) :
    (recover sc ownerTerminated).Safe (Stmt.exec uuid) (Single scope) (fun _ _ => True) db := by
  unfold recover
  split
  · exact h
  refine Prog.Safe.call rfl h (Prog.Safe.call rfl h ?_)
  have hdeleted : Single scope ((Stmt.deleteLedger sc).exec uuid
      ((Stmt.deleteLeases sc).exec uuid db).1).1 :=
    @Single.exec uuid scope _ h (.deleteLedger sc) (by simp)
  have hrows : sc = scope → (((Stmt.deleteLedger sc).exec uuid
      ((Stmt.deleteLeases sc).exec uuid db).1).1).rowsOf scope = [] := by
    rintro rfl
    simp [Stmt.exec, rowsOf]
  refine Prog.Safe.call rfl h (Prog.Safe.call rfl hdeleted ?_)
  refine Prog.safe_of_calls (A := fun o => ∀ sc t, o ≠ .insertRecovered sc t)
    (fun o t ho ht => ht.exec ho) (calls_status sc (by simp) (by simp)) ?_
  exact hdeleted.insertRecovered hrows

open ServingCoordinator in
/-- Calls that follow one another, each possibly cut short, keep the scope single. -/
theorem safe_code (h : Single scope db) (call : Call) :
    call.code.Safe (Stmt.exec uuid) (Single scope) (fun _ _ => True) db := by
  have hcalls : ∀ p : Coord Reply, p.Calls (fun o => ∀ sc t, o ≠ .insertRecovered sc t) →
      p.Safe (Stmt.exec uuid) (Single scope) (fun _ _ => True) db := fun p hp =>
    Prog.safe_of_calls (fun o t ho ht => ht.exec ho) hp h
  cases call with
  | acquirePublish sc code config =>
    exact hcalls _ ((calls_acquirePublish sc code config (by simp) (by simp) (by simp)
      (by simp)).bind fun _ => trivial)
  | verifyPublish lease =>
    exact hcalls _ ((calls_verifyPublish lease (by simp)).bind fun _ => trivial)
  | markReady lease generation config counts =>
    exact hcalls _ ((calls_markReady lease generation config counts (by simp) (by simp)).bind
      fun _ => trivial)
  | markFailed lease code counts =>
    exact hcalls _ ((calls_markFailed lease code counts (by simp) (by simp)).bind
      fun _ => trivial)
  | acquireQuery sc =>
    exact hcalls _ ((calls_acquireQuery sc (by simp) (by simp) (by simp) (by simp)).bind
      fun _ => trivial)
  | validateQuery lease =>
    exact hcalls _ ((calls_validateQuery lease (by simp)).bind fun _ => trivial)
  | releaseQuery lease => exact hcalls _ ⟨by simp, fun _ => trivial, fun _ => trivial⟩
  | recover sc ownerTerminated =>
    exact (safe_recover h sc ownerTerminated).bind fun _ _ ht _ => ⟨ht, trivial⟩

/-! ### Calls that succeed -/

namespace ServingCoordinator

theorem returns_readRow {row : LedgerRow} (hrow : db.rowsOf scope = [row]) :
    (readRow scope).Returns (Stmt.exec uuid) (fun r db' => r = some row ∧ db = db') db := by
  refine Prog.Returns.call (t := db) (r := db.rowsOf scope) rfl ?_
  rw [hrow]
  exact .pure ⟨rfl, rfl⟩

/-- A lease that is held can be verified. -/
theorem returns_verifyPublish {lease : PublishLease} {config : String}
    (h : Held lease config db) :
    (verifyPublish lease).Returns (Stmt.exec uuid) (fun _ db' => db = db') db := by
  obtain ⟨row, hrow, hholds, -⟩ := h
  refine (returns_readRow hrow).bind ?_
  rintro _ _ ⟨rfl, rfl⟩
  have hcurrent : Current lease (some row) := ⟨row, rfl, hholds.2⟩
  rw [if_pos hcurrent]
  exact .pure rfl

/-- The statement of `_ensure_row` gives a scope without rows an unclaimed one. -/
theorem rowsOf_ensureRow (uuid : ℕ → String) (hsingle : Single scope db)
    (hidle : ∀ row ∈ db.rowsOf scope, row.publicationId = none) :
    ∃ row, ((Stmt.insertRowIfAbsent scope).exec uuid db).1.rowsOf scope = [row] ∧
      row.scope = scope ∧ row.publicationId = none := by
  simp only [Stmt.exec]
  by_cases hnone : db.rowsOf scope = []
  · rw [if_pos hnone, rowsOf_append, if_pos rfl, hnone]
    exact ⟨_, rfl, rfl, rfl⟩
  · rw [if_neg hnone]
    have hlen : (db.rowsOf scope).length = 1 :=
      le_antisymm hsingle (List.length_pos_iff.mpr hnone)
    obtain ⟨row, hrow⟩ := List.length_eq_one_iff.mp hlen
    have hmem : row ∈ db.rowsOf scope := by simp [hrow]
    have hscope : row.scope = scope := by simpa using (List.mem_filter.mp hmem).2
    exact ⟨row, hrow, hscope, hidle row hmem⟩

theorem rowsOf_deleteDuplicates (uuid : ℕ → String) {row : LedgerRow} (hrow : db.rowsOf scope = [row]) :
    ((Stmt.deleteDuplicates scope).exec uuid db).1.rowsOf scope = [row] := by
  have hkept : ∀ r ∈ db.rowsOf scope, ¬ db.Duplicate scope r := by
    rw [hrow]
    intro r hr hdup
    obtain rfl := List.mem_singleton.mp hr
    obtain ⟨-, -, -, m, hm, hne⟩ := hdup
    simp only [minRowId, hrow, List.map_cons, List.map_nil, List.min?_singleton,
      Option.mem_some_iff] at hm
    exact hne hm
  have hfilter : (db.rowsOf scope).filter (fun r => ¬ db.Duplicate scope r) = db.rowsOf scope :=
    List.filter_eq_self.mpr fun r hr => by simpa using hkept r hr
  rw [← hrow, ← hfilter]
  simp only [Stmt.exec, rowsOf, List.filter_filter, Bool.and_comm]

/-- A scope without a claim or a query lease can be claimed. -/
theorem returns_acquirePublish {code config : String} (hsingle : Single scope db)
    (hidle : ∀ row ∈ db.rowsOf scope, row.publicationId = none)
    (hfree : db.leasesOf scope = []) :
    (acquirePublish scope code config).Returns (Stmt.exec uuid)
      (fun lease db' => lease.scope = scope ∧ Held lease config db') db := by
  obtain ⟨row, hrow, hscope, hp⟩ := rowsOf_ensureRow uuid hsingle hidle
  set db₁ := ((Stmt.insertRowIfAbsent scope).exec uuid db).1 with hdb₁
  have hrow₂ := rowsOf_deleteDuplicates uuid hrow
  set db₂ := ((Stmt.deleteDuplicates scope).exec uuid db₁).1 with hdb₂
  have hfree₂ : db₂.leasesOf scope = [] := by
    rw [hdb₂, hdb₁]
    simp only [Stmt.exec]
    split <;> exact hfree
  have hclaimable : db₂.Claimable scope row := ⟨hscope, hp, hfree₂, by rw [hrow₂]; rfl⟩
  have hrow₃ : ((Stmt.claim scope code config).exec uuid db₂).1.rowsOf scope =
      [claimed row (uuid db₂.drawn) code config] := by
    simp only [Stmt.exec]
    rw [rowsOf_map db₂ (scope_claim db₂ scope (uuid db₂.drawn) code config), hrow₂,
      List.map_singleton, if_pos hclaimable]
  refine Prog.Returns.call (t := db₁) (r := ()) rfl ?_
  refine Prog.Returns.call (t := db₂) (r := ()) rfl ?_
  refine Prog.Returns.call (t := ((Stmt.claim scope code config).exec uuid db₂).1)
    (r := uuid db₂.drawn) rfl ?_
  refine (returns_readRow hrow₃).bind ?_
  rintro _ _ ⟨rfl, rfl⟩
  have hproven : proveClaim scope (uuid db₂.drawn)
      (some (claimed row (uuid db₂.drawn) code config)) =
      .ok ⟨scope, uuid db₂.drawn, row.fencingToken + 1⟩ := by
    simp [proveClaim, claimed]
  rw [hproven]
  exact .pure ⟨rfl, _, hrow₃, ⟨hscope, rfl, rfl⟩, rfl⟩

/-- A lease that is held can be activated. -/
theorem returns_markReady {lease : PublishLease} {generation config : String} {counts : Counts}
    (hgeneration : generation ≠ "") (h : Held lease config db) :
    (markReady lease generation config counts).Returns (Stmt.exec uuid) (fun _ _ => True) db := by
  obtain ⟨row, hrow, hholds, hconfig⟩ := h
  unfold markReady
  rw [if_neg hgeneration]
  refine (returns_readRow hrow).bind ?_
  rintro _ _ ⟨rfl, rfl⟩
  have hcurrent : Current lease (some row) := ⟨row, rfl, hholds.2⟩
  have hrow' : ((Stmt.finish lease .ready (some generation) none counts).exec uuid db).1.rowsOf
      lease.scope = [finished row .ready (some generation) none counts] := by
    simp only [Stmt.exec]
    rw [rowsOf_map db (scope_finish lease .ready (some generation) none counts), hrow,
      List.map_singleton, if_pos hholds]
  rw [if_neg (not_not.mpr hcurrent), if_neg (by simp [hconfig])]
  refine Prog.Returns.call (r := ()) rfl ((returns_readRow hrow').bind ?_)
  rintro _ _ ⟨rfl, rfl⟩
  rw [if_pos ⟨_, rfl, hholds.2.2, rfl, rfl⟩]
  exact .pure trivial

end ServingCoordinator

end Stel.Retrieval
