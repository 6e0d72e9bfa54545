import Stel.Search.Mirror
import Stel.Retrieval.Sequential

/-!
# When a rerun recovers a failed publication

After any history of failed attempts, an attempt without faults on a scope that nobody else claims
or queries either activates its collection or stops at one of two checks: a state page whose
cursor is too long, and the row count. The row count is right exactly if as many store rows are
unknown to both the upstream and the publication state as there are upstream records that the
publication state vouches for although the store has dropped them.

## Main definitions

* `Configured`, `Sound`: the invariants of a history, besides the half-recorded keys.
* `Recoverable`: the condition on the state before the attempt.

## Main results

* `History.sound`: the invariants hold along every history.
* `rerun_recovers_iff`: when the attempt activates its collection.
* `removed_record_is_stuck`: a history after which it does not.
-/

namespace Stel.Search

open Stel.Warehouse Stel.Retrieval

variable {R V : Type}

/-! ### The collection keeps the spec of the resource -/

/-- The collection carries the spec of the resource, and no recorded key is empty. -/
structure Configured (search : SearchModel R V) (s : SearchData V) : Prop where
  stamped : ∀ c ∈ s.collection, c.configFingerprint = some search.spec.configFingerprint ∧
    c.descriptor = some search.spec.descriptor ∧ c.schema = search.spec.arrowSchema
  keys : ∀ k, s.state.lookup k ≠ none → k ≠ ""

/-- The operations that an attempt can call. -/
def Allowed (search : SearchModel R V) : DataOp V ⊕ Stmt → Prop
  | .inl (.createCollection spec) => spec = search.spec
  | .inl (.evolveCollection spec _) => spec = search.spec
  | .inl (.restampCollection spec) => spec = search.spec
  | .inl (.upsertState records) => ∀ r ∈ records, r.recordKey ≠ ""
  | .inl _ => True
  | .inr o => ∀ sc t, o ≠ .insertRecovered sc t

/-- The invariants of a history of one scope, besides the half-recorded keys. -/
def Sound (search : SearchModel R V) (w : World V) : Prop :=
  Configured search w.1 ∧ Single search.scope w.2

section Invariant

variable {search : SearchModel R V} {generation : Generation} {uuid : ℕ → String}
  {s : SearchData V}

/-- An operation on an existing collection that keeps its stamp. -/
theorem Configured.withCollection {α : Type} (h : Configured search s) {missing : String}
    {f : Collection V → Except Failure (Collection V × α)}
    (hf : ∀ c c' r, s.collection = some c → f c = .ok (c', r) →
      c'.configFingerprint = some search.spec.configFingerprint ∧
        c'.descriptor = some search.spec.descriptor ∧ c'.schema = search.spec.arrowSchema) :
    Configured search (withCollection s missing f).1 := by
  unfold Stel.Search.withCollection
  cases hc : s.collection with
  | none => exact h
  | some c =>
    cases hfc : f c with
    | error e =>
      simp only [hfc]
      exact h
    | ok reply =>
      obtain ⟨c', r⟩ := reply
      simp only [hfc]
      refine ⟨fun d hd => ?_, h.keys⟩
      obtain rfl := Option.mem_some_iff.mp hd
      exact hf c c' r hc hfc

theorem Configured.exec (h : Configured search s) {o : DataOp V} (ho : Allowed search (.inl o)) :
    Configured search (o.exec generation s).1 := by
  cases o with
  | upsertState records =>
    simp only [DataOp.exec]
    split
    · refine ⟨h.stamped, fun k hk => ?_⟩
      by_cases hmem : k ∈ records.map (·.recordKey)
      · obtain ⟨r, hr, rfl⟩ := List.mem_map.mp hmem
        exact ho r hr
      · rw [StateTable.lookup_upsert_of_notMem hmem] at hk
        exact h.keys k hk
    · exact h
  | deleteState keys =>
    simp only [DataOp.exec]
    split
    · refine ⟨h.stamped, fun k hk => h.keys k fun hnone => hk ?_⟩
      rw [StateTable.lookup_delete, hnone, ite_self]
    · exact h
  | createCollection spec =>
    obtain rfl : spec = search.spec := ho
    simp only [DataOp.exec]
    split
    · exact h
    · refine ⟨fun c hc => ?_, h.keys⟩
      obtain rfl := Option.mem_some_iff.mp hc
      exact ⟨rfl, rfl, rfl⟩
  | evolveCollection spec added =>
    obtain rfl : spec = search.spec := ho
    refine h.withCollection fun c c' r hc hf => ?_
    obtain ⟨-, -, hschema⟩ := h.stamped c hc
    simp only [Collection.evolve] at hf
    split at hf
    · cases hf
    · rename_i hdeclared
      cases hf
      refine ⟨rfl, rfl, ?_⟩
      -- every column of the spec is there already, so none is added
      have hnone : search.spec.arrowSchema.filter
          (·.1 ∈ added.filter (· ∉ c.schema.map Prod.fst)) = [] := by
        refine List.filter_eq_nil_iff.mpr fun column hcolumn => ?_
        have hmem : column.1 ∈ c.schema.map Prod.fst := by
          rw [hschema]
          exact List.mem_map_of_mem hcolumn
        simp only [List.mem_filter, decide_not, Bool.not_eq_true', decide_eq_true_eq,
          decide_eq_false_iff_not, not_and, not_not]
        exact fun _ => hmem
      show c.schema ++ _ = _
      rw [hnone, List.append_nil, hschema]
  | restampCollection spec =>
    obtain rfl : spec = search.spec := ho
    refine h.withCollection fun c c' r hc hf => ?_
    cases hf
    exact ⟨rfl, rfl, (h.stamped c hc).2.2⟩
  | upsert rows =>
    simp only [DataOp.exec]
    split
    · exact h
    · refine h.withCollection fun c c' r hc hf => ?_
      cases hf
      exact h.stamped c hc
  | delete ids =>
    simp only [DataOp.exec]
    split
    · exact h
    · refine h.withCollection fun c c' r hc hf => ?_
      cases hf
      exact h.stamped c hc
  | ensureIndexes =>
    refine h.withCollection fun c c' r hc hf => ?_
    cases hf
    exact h.stamped c hc
  | fetchStateSubset | openStatePages | inspectCollection | setCounts | getCounts =>
    exact ⟨h.stamped, h.keys⟩

theorem Sound.exec {w : World V} (h : Sound search w) {o : DataOp V ⊕ Stmt}
    (ho : Allowed search o) : Sound search (searchInterp generation uuid o w).1 := by
  cases o with
  | inl o => exact ⟨h.1.exec ho, h.2⟩
  | inr o => exact ⟨h.1, h.2.exec ho⟩

theorem calls_data_bind {α : Type} {o : DataOp V} {f : o.Ret → SearchProg V α}
    (ho : Allowed search (.inl o)) (hf : ∀ r, (f r).Calls (Allowed search)) :
    (data o >>= f).Calls (Allowed search) :=
  ⟨ho, hf, fun _ => trivial⟩

theorem calls_ledger {α : Type} {p : Coord α}
    (hp : p.Calls fun o => ∀ sc t, o ≠ .insertRecovered sc t) :
    (ledger p : SearchProg V α).Calls (Allowed search) :=
  Prog.calls_inr hp

theorem calls_verify_bind {α : Type} {lease : PublishLease} {f : Unit → SearchProg V α}
    (hf : (f ()).Calls (Allowed search)) :
    (ledger (ServingCoordinator.verifyPublish lease) >>= f).Calls (Allowed search) :=
  (calls_ledger (ServingCoordinator.calls_verifyPublish lease (by simp))).bind fun _ => hf

theorem calls_checkCollection (existing : Option CollectionMetadata) :
    (checkCollection search existing).Calls (Allowed search) := by
  cases existing with
  | none => trivial
  | some existing =>
    have hverify : (verifyCollectionConfig search existing).Calls (Allowed search) := by
      unfold verifyCollectionConfig
      split
      · split
        · exact calls_data_bind rfl fun _ => trivial
        · trivial
      · split
        · trivial
        · dsimp only
          split
          · trivial
          · split
            · exact calls_data_bind rfl fun _ => trivial
            · trivial
    refine hverify.bind fun evolved => ?_
    split
    · exact calls_data_bind trivial fun _ => Prog.calls_ofExcept _
    · exact Prog.calls_ofExcept _

theorem calls_publishPending {lease : PublishLease} {p : Progress}
    {prior : List (String × StateValue)} {pending : List (IndexedRow V)} {inserted updated : ℕ}
    (hids : ∀ row ∈ pending, row.recordId ≠ "") :
    (publishPending search lease p prior pending inserted updated).Calls (Allowed search) := by
  refine calls_verify_bind (Prog.Calls.bind ?_ fun _ => Prog.Calls.bind ?_ fun _ => ?_)
  · unfold ensureCollection
    split
    · trivial
    · exact ⟨rfl, fun _ => trivial, fun _ => trivial⟩
  · unfold revokeChanged
    split
    · exact calls_data_bind trivial fun _ => Prog.calls_ofExcept _
    · trivial
  refine calls_data_bind trivial fun _ => (Prog.calls_ofExcept _).bind fun _ =>
    calls_verify_bind (calls_data_bind (fun r hr => ?_) fun _ =>
      calls_data_bind trivial fun _ => trivial)
  obtain ⟨row, hrow, rfl⟩ := List.mem_map.mp hr
  exact hids row hrow

theorem calls_publishBatch {lease : PublishLease} {force : Bool} {p : Progress} {batch : List R} :
    (publishBatch search lease force p batch).Calls (Allowed search) := by
  refine Prog.calls_ofExcept_bind fun indexed hok => Prog.Calls.bind ?_ fun prior =>
    calls_data_bind trivial fun _ => ?_
  · unfold priorStateFor
    split
    · trivial
    · exact ⟨trivial, fun _ => trivial, fun _ => trivial⟩
  · dsimp only
    split
    · trivial
    · refine calls_publishPending fun row hrow => ?_
      obtain ⟨raw, -, hraw⟩ :=
        (indexedRows_eq_ok.mp hok).exists_raw (List.mem_of_mem_filter hrow)
      exact (indexedRow_eq_ok hraw).2.1

theorem calls_publishStale {lease : PublishLease} {p : Progress} {keys : List String} :
    (publishStale search lease p keys).Calls (Allowed search) := by
  refine calls_data_bind trivial fun snapshot => Prog.Calls.bind ?_ fun p => ?_
  · refine Prog.Calls.foldM fun p page => ?_
    exact calls_verify_bind (calls_data_bind trivial fun _ => (Prog.calls_ofExcept _).bind fun _ =>
      calls_data_bind trivial fun _ => calls_data_bind trivial fun _ => trivial)
  · split <;> trivial

theorem calls_publishUnderLease {lease : PublishLease} {batches : List (List R)} :
    (publishUnderLease search lease batches).Calls (Allowed search) := by
  have hreconcile : (reconcile search lease batches).Calls (Allowed search) := by
    refine calls_data_bind trivial fun existing => (calls_checkCollection existing).bind fun _ =>
      (Prog.Calls.foldM fun p batch => calls_publishBatch).bind fun p =>
        calls_publishStale.bind fun p => ?_
    split
    · exact calls_data_bind trivial fun _ => trivial
    · exact calls_verify_bind (calls_data_bind rfl fun _ => calls_data_bind trivial fun _ => trivial)
  refine Prog.Calls.bind (hreconcile.bind fun result => ?_) fun _ => calls_verify_bind trivial
  dsimp only
  split
  · trivial
  · split <;> trivial

theorem calls_acquireLease {batches : List (List R)} :
    (acquireLease search batches).Calls (Allowed search) := by
  have htables : (ledger ServingCoordinator.ensureTables : SearchProg V Unit).Calls
      (Allowed search) :=
    calls_ledger (p := ServingCoordinator.ensureTables)
      ⟨by simp, fun _ => ⟨by simp, fun _ => trivial, fun _ => trivial⟩, fun _ => trivial⟩
  refine htables.bind fun _ => calls_data_bind trivial fun _ =>
    Prog.Calls.tryCatch ?_ fun _ => trivial
  exact (Prog.calls_ofExcept _).bind fun _ => calls_ledger
    (ServingCoordinator.calls_acquirePublish _ _ _ (by simp) (by simp) (by simp) (by simp))

/-- The operations of an attempt are allowed. -/
theorem calls_runSearchModel (batches : List (List R)) :
    (runSearchModel search batches).Calls (Allowed search) := by
  refine calls_acquireLease.bind fun lease => Prog.Calls.tryCatch ?_ fun e => ?_
  · exact calls_publishUnderLease.bind fun result => (calls_ledger
      (ServingCoordinator.calls_markReady lease _ _ _ (by simp) (by simp))).bind fun _ => trivial
  · unfold failPublication
    split
    · refine calls_data_bind trivial fun counts => (calls_ledger ?_).bind fun _ => trivial
      refine Prog.Calls.tryCatch ?_ fun e => ?_
      · exact ServingCoordinator.calls_markFailed lease _ counts (by simp) (by simp)
      · split <;> trivial
    · trivial

/-- **The invariants of a history.** However its attempts and coordinator calls ended, the
collection carries the spec of the resource, no recorded key is empty, and the scope has at most
one ledger row. -/
theorem History.sound {w : World V × Set String} (h : History search generation uuid w) :
    Sound search w.1 := by
  induction h with
  | empty =>
    refine ⟨⟨?_, fun k hk => absurd rfl hk⟩, by simp [Single, ServingDb.rowsOf]⟩
    intro c hc
    cases hc
  | attempt batches _ hrun ih =>
    exact ((Prog.safe_of_calls (fun o w ho hw => hw.exec ho)
      (calls_runSearchModel batches) ih).sound hrun.of_ghost).1
  | @coordinate s t _ call _ hrun ih =>
    have hsafe : (ledger call.code : SearchProg V Reply).Safe (searchInterp generation uuid)
        (fun w => w.1 = s.1.1 ∧ Single search.scope w.2) (fun _ _ => True) s.1 :=
      (safe_code ih.2 call).inr
    obtain ⟨⟨hdata, hledger⟩, -⟩ := hsafe.sound hrun.of_ghost
    exact ⟨hdata ▸ ih.1, hledger⟩

end Invariant

/-! ### The row count -/

/-- The record ids of the collection. -/
def SearchData.storeKeys (s : SearchData V) : List String :=
  match s.collection with
  | none => []
  | some c => c.rows.keys

theorem mem_storeKeys {s : SearchData V} {k : String} :
    k ∈ s.storeKeys ↔ s.storeRow k ≠ none := by
  unfold SearchData.storeKeys SearchData.storeRow
  cases s.collection with
  | none => simp
  | some c => simp [Keyed.mem_iff_isSome, Option.isSome_iff_ne_none]

theorem nodup_storeKeys (s : SearchData V) : s.storeKeys.Nodup := by
  unfold SearchData.storeKeys
  cases s.collection with
  | none => exact List.nodup_nil
  | some c => exact c.rows.keys_nodup

/-- The rows of upstream records that the publication state vouches for although the store has
dropped them. -/
def droppedRows (search : SearchModel R V) (s : SearchData V)
    (rows : List (IndexedRow V)) : List (IndexedRow V) :=
  rows.filter fun row => s.state.lookup row.recordId = some (search.stateValue row.values) ∧
    s.storeRow row.recordId = none

/-- The store rows that neither the upstream nor the publication state knows. -/
def strayKeys (s : SearchData V) (rows : List (IndexedRow V)) : List String :=
  s.storeKeys.filter fun k => k ∉ rows.map (·.recordId) ∧ s.state.lookup k = none

/-- The condition under which a rerun recovers: as many rows are dropped as are stray, and the
cursors of the stale pages fit. -/
structure Recoverable (search : SearchModel R V) (s : SearchData V)
    (rows : List (IndexedRow V)) : Prop where
  balanced : (droppedRows search s rows).length = (strayKeys s rows).length
  paged : Paged search.nonce search.batchSize (s.state.absentFrom (rows.map (·.recordId)))

section Count

variable {search : SearchModel R V} {s₀ s : SearchData V} {P₀ P : Set String}
  {rows : List (IndexedRow V)} {c : Collection V}

/-- A published record is missing from the store exactly if it was dropped before. -/
theorem Reconciled.missing_iff (h : Reconciled search s₀ P₀ rows s P) (hs : Recorded search s P)
    (hnodup : (rows.map (·.recordId)).Nodup) {row : IndexedRow V} (hrow : row ∈ rows) :
    s.storeRow row.recordId = none ↔
      s₀.state.lookup row.recordId = some (search.stateValue row.values) ∧
        s₀.storeRow row.recordId = none := by
  have hunique : ∀ row' ∈ rows, row'.recordId = row.recordId → row' = row := fun row' hrow' =>
    List.inj_on_of_nodup_map hnodup hrow' hrow
  by_cases hv : s₀.state.lookup row.recordId = some (search.stateValue row.values)
  · have hnot : ¬ Rewritten search s₀ rows row.recordId := by
      rintro (⟨row', hrow', hid, hp⟩ | ⟨hout, -⟩)
      · obtain rfl := hunique row' hrow' hid
        exact hp hv
      · exact hout (List.mem_map_of_mem hrow)
    rw [h.store _ hnot, and_iff_right hv]
  · have hrw : Rewritten search s₀ rows row.recordId := .inl ⟨row, hrow, rfl, hv⟩
    have hagree := (hs.agrees row.recordId).mp fun hk => ((h.marks _).mp hk).2 hrw
    rw [h.written row hrow] at hagree
    refine iff_of_false (fun hnone => ?_) fun hc => hv hc.1
    rw [hnone] at hagree
    cases hagree

/-- A store row outside the upstream survives exactly if it was stray before. -/
theorem Reconciled.extra_iff (h : Reconciled search s₀ P₀ rows s P) (hs : Recorded search s P)
    {k : String} (hk : k ∉ rows.map (·.recordId)) :
    s.storeRow k ≠ none ↔ s₀.storeRow k ≠ none ∧ s₀.state.lookup k = none := by
  by_cases hstate : s₀.state.lookup k = none
  · have hnot : ¬ Rewritten search s₀ rows k := by
      rintro (⟨row, hrow, hid, -⟩ | ⟨-, hsome⟩)
      · exact hk (hid ▸ List.mem_map_of_mem hrow)
      · exact hsome hstate
    rw [h.store k hnot, and_iff_left hstate]
  · have hagree := (hs.agrees k).mp fun hmem => ((h.marks k).mp hmem).2 (.inr ⟨hk, hstate⟩)
    rw [h.gone k hk] at hagree
    refine iff_of_false (fun hsome => hsome ?_) fun hc => hstate hc.2
    exact Option.map_eq_none_iff.mp hagree.symm

/-- The store has as many rows as the upstream exactly if as many rows were dropped as were
stray. -/
theorem Reconciled.count_iff (h : Reconciled search s₀ P₀ rows s P) (hs : Recorded search s P)
    (hc : s.collection = some c) (hnodup : (rows.map (·.recordId)).Nodup) :
    c.rows.keys.length = rows.length ↔
      (droppedRows search s₀ rows).length = (strayKeys s₀ rows).length := by
  have hkeys : ∀ k, k ∈ c.rows.keys ↔ s.storeRow k ≠ none := by
    intro k
    rw [← mem_storeKeys, SearchData.storeKeys, hc]
  have hcount := Keyed.length_keys_eq_iff (t := c.rows) hnodup
  rw [List.length_map] at hcount
  have hmissing : ((rows.map (·.recordId)).filter fun k => k ∉ c.rows.keys).length =
      (droppedRows search s₀ rows).length := by
    rw [List.filter_map, List.length_map]
    refine congrArg List.length (List.filter_congr fun row hrow => ?_)
    simp only [Function.comp_apply, decide_eq_decide, hkeys, not_not]
    exact h.missing_iff hs hnodup hrow
  have hextra : (c.rows.keys.filter fun k => k ∉ rows.map (·.recordId)).length =
      (strayKeys s₀ rows).length := by
    refine List.Perm.length_eq ((List.perm_ext_iff_of_nodup (c.rows.keys_nodup.filter _)
      ((nodup_storeKeys s₀).filter _)).mpr fun k => ?_)
    simp only [List.mem_filter, decide_eq_true_eq, hkeys, mem_storeKeys]
    constructor
    · rintro ⟨hsome, hk⟩
      obtain ⟨hstore, hstate⟩ := (h.extra_iff hs hk).mp hsome
      exact ⟨hstore, hk, hstate⟩
    · rintro ⟨hstore, hk, hstate⟩
      exact ⟨(h.extra_iff hs hk).mpr ⟨hstore, hstate⟩, hk⟩
  rw [hcount, hmissing, hextra]

end Count

/-! ### Attempts without faults -/

section Returns

variable {search : SearchModel R V} {generation : Generation} {uuid : ℕ → String}
  {lease : PublishLease} {config : String} {w : World V}

theorem returns_data_bind {α : Type} {o : DataOp V} {f : o.Ret → SearchProg V α}
    {Q : α → World V → Prop} {d : SearchData V} {r : o.Ret}
    (h : o.exec generation w.1 = (d, .ok r))
    (hf : (f r).Returns (searchInterp generation uuid) Q (d, w.2)) :
    (data o >>= f).Returns (searchInterp generation uuid) Q w :=
  Prog.Returns.call (by simp only [Interp.sum, h]) hf

theorem returns_verify_bind {α : Type} {f : Unit → SearchProg V α} {Q : α → World V → Prop}
    (hheld : Held lease config w.2) (hf : (f ()).Returns (searchInterp generation uuid) Q w) :
    (ledger (ServingCoordinator.verifyPublish lease) >>= f).Returns
      (searchInterp generation uuid) Q w := by
  refine (@ServingCoordinator.returns_verifyPublish uuid _ _ _ hheld).inr.bind ?_
  rintro _ ⟨d, db⟩ ⟨rfl, rfl⟩
  exact hf

theorem requireReceipt_eq {n : ℕ} {message : String} :
    requireReceipt ⟨true, n⟩ n message = .ok () := by
  simp [requireReceipt]

theorem exec_upsert_eq (generation : Generation) {s : SearchData V} (rows : List (IndexedRow V))
    (hs : s.collection ≠ none) : ∃ d, (DataOp.upsert rows).exec generation s =
      (d, .ok ⟨true, rows.length⟩) := by
  obtain ⟨c, hc⟩ := Option.ne_none_iff_exists'.mp hs
  by_cases hrows : rows = []
  · exact ⟨s, by simp [DataOp.exec, hrows]⟩
  · exact ⟨{ s with collection := some (c.upsert rows) }, by
      simp [DataOp.exec, hrows, withCollection, hc]⟩

theorem exec_delete_eq (generation : Generation) {s : SearchData V} (ids : List String)
    (hs : ids ≠ [] → s.collection ≠ none) : ∃ d, (DataOp.delete ids : DataOp V).exec generation s =
      (d, .ok ⟨true, ids.length⟩) ∧ (s.collection ≠ none → d.collection ≠ none) := by
  by_cases hids : ids = []
  · exact ⟨s, by simp [DataOp.exec, hids], id⟩
  · obtain ⟨c, hc⟩ := Option.ne_none_iff_exists'.mp (hs hids)
    exact ⟨{ s with collection := some (c.delete ids) }, by
      simp [DataOp.exec, hids, withCollection, hc], by simp⟩

theorem returns_publishPending {p : Progress} {prior : List (String × StateValue)}
    {pending : List (IndexedRow V)} {inserted updated : ℕ} (hheld : Held lease config w.2)
    (hexists : p.collectionExists = w.1.collection.isSome)
    (hids : (pending.map (·.recordId)).Nodup) :
    (publishPending search lease p prior pending inserted updated).Returns
      (searchInterp generation uuid) (fun _ w' => w.2 = w'.2) w := by
  obtain ⟨s, db⟩ := w
  unfold publishPending
  refine returns_verify_bind hheld (Prog.Returns.bind
    (Q := fun _ w' => db = w'.2 ∧ w'.1.collection ≠ none) ?_ ?_)
  · unfold ensureCollection
    cases hc : s.collection with
    | none =>
      rw [if_neg (by simp [hexists, hc])]
      refine Prog.Returns.call (t := ({ s with collection := some (.create search.spec) }, db))
        (r := ()) ?_ (.pure ⟨rfl, by simp⟩)
      simp [Interp.sum, DataOp.exec, hc]
    | some c =>
      rw [if_pos (by simp [hexists, hc])]
      exact .pure ⟨rfl, by simp [hc]⟩
  rintro _ ⟨s₁, _⟩ ⟨rfl, hs₁⟩
  refine Prog.Returns.bind (Q := fun _ w' => db = w'.2 ∧ w'.1.collection ≠ none) ?_ ?_
  · unfold revokeChanged
    split
    · obtain ⟨d, hexec, hd⟩ := exec_delete_eq generation _ fun _ => hs₁
      refine returns_data_bind hexec ?_
      rw [requireReceipt_eq]
      exact .pure ⟨rfl, hd hs₁⟩
    · exact .pure ⟨rfl, hs₁⟩
  rintro _ ⟨s₂, _⟩ ⟨rfl, hs₂⟩
  obtain ⟨s₃, hupsert⟩ := exec_upsert_eq generation pending hs₂
  refine returns_data_bind hupsert ?_
  rw [requireReceipt_eq]
  refine returns_verify_bind hheld ?_
  have hvalid : validateStateRecords (pending.map fun row =>
      StateRecord.mk row.recordId row.inputFingerprint search.codeVersion) = .ok () := by
    rw [validateStateRecords, List.map_map, Function.comp_def, if_pos hids]
  refine returns_data_bind (r := ()) (by simp only [DataOp.exec, hvalid]; rfl) ?_
  exact returns_data_bind (r := ()) rfl (.pure rfl)

theorem validateStateKeys_eq {keys : List String} (hempty : ∀ k ∈ keys, k ≠ "")
    (hnodup : keys.Nodup) : validateStateKeys keys = .ok () := by
  rw [validateStateKeys, if_neg fun hmem => hempty "" hmem rfl, if_pos hnodup]

theorem returns_publishBatch {force : Bool} {p : Progress} {batch : List R}
    {indexed : List (IndexedRow V)} (hheld : Held lease config w.2)
    (hexists : p.collectionExists = w.1.collection.isSome)
    (hindexed : Indexed search batch indexed) (hlength : batch.length ≤ search.batchSize)
    (hnodup : (upstreamKeys search batch).Nodup) :
    (publishBatch search lease force p batch).Returns (searchInterp generation uuid)
      (fun _ w' => w.2 = w'.2) w := by
  obtain ⟨s, db⟩ := w
  have hids : (indexed.map (·.recordId)).Nodup := hindexed.recordIds ▸ hnodup
  have hempty : ∀ k ∈ indexed.map (·.recordId), k ≠ "" := by
    intro k hk
    obtain ⟨row, hrow, rfl⟩ := List.mem_map.mp hk
    obtain ⟨raw, -, hraw⟩ := hindexed.exists_raw hrow
    exact (indexedRow_eq_ok hraw).2.1
  have hbound : indexed.length ≤ maxStateSubsetKeys := by
    rw [← hindexed.length_eq]
    exact hlength.trans search.batchSize_le
  unfold publishBatch
  rw [indexedRows_eq_ok.mpr hindexed, Prog.ofExcept_ok, Prog.pure_bind]
  refine Prog.Returns.bind (Q := fun _ w' => (s, db) = w') ?_ ?_
  · unfold priorStateFor
    split
    · exact .pure rfl
    · refine Prog.Returns.call (t := (s, db)) (r := s.state.subset (indexed.map (·.recordId)))
        ?_ (.pure rfl)
      simp [Interp.sum, DataOp.exec, Function.comp_def, validateStateKeys_eq hempty hids, bind,
        Except.bind, hbound, pure, Except.pure]
  rintro prior _ rfl
  refine returns_data_bind (r := ()) rfl ?_
  dsimp only
  split
  · exact .pure rfl
  · exact returns_publishPending hheld hexists (hids.sublist (List.filter_sublist.map _))

theorem returns_publishStalePage {p : Progress} {page : List StateRecord}
    (hheld : Held lease config w.2) (hstored : page ≠ [] → w.1.collection ≠ none)
    (hnodup : (page.map (·.recordKey)).Nodup) (hempty : ∀ r ∈ page, r.recordKey ≠ "") :
    (publishStalePage lease p page : SearchProg V Progress).Returns (searchInterp generation uuid)
      (fun _ w' => w.2 = w'.2 ∧ (w.1.collection ≠ none → w'.1.collection ≠ none)) w := by
  obtain ⟨s, db⟩ := w
  unfold publishStalePage
  refine returns_verify_bind hheld ?_
  obtain ⟨d, hdelete, hkept⟩ := exec_delete_eq generation (page.map (·.recordKey))
    fun h => hstored fun hnil => h (by simp [hnil])
  refine returns_data_bind hdelete ?_
  rw [requireReceipt_eq]
  have hkeys : validateStateKeys (page.map (·.recordKey)) = .ok () := by
    refine validateStateKeys_eq (fun k hk => ?_) hnodup
    obtain ⟨r, hr, rfl⟩ := List.mem_map.mp hk
    exact hempty r hr
  refine returns_data_bind (r := ()) (by simp only [DataOp.exec, hkeys]; rfl) ?_
  exact returns_data_bind (r := ()) rfl (.pure ⟨rfl, hkept⟩)

/-- The loop over the stale pages returns if the cursors of the full pages fit. -/
theorem returns_publishStale {p : Progress} {keys : List String} (hheld : Held lease config w.2)
    (hw : Configured search w.1)
    (hfresh : w.1.collection = none → ∀ k, w.1.state.lookup k = none)
    (hpaged : Paged search.nonce search.batchSize (w.1.state.absentFrom keys)) :
    (publishStale search lease p keys).Returns (searchInterp generation uuid)
      (fun _ w' => w.2 = w'.2) w := by
  set snapshot := w.1.state.absentFrom keys with hsnapshot
  unfold publishStale
  refine returns_data_bind (d := w.1) (r := snapshot) rfl ?_
  have hsorted : snapshot.Pairwise fun a b => a.recordKey < b.recordKey :=
    StateTable.pairwise_absentFrom
  obtain ⟨-, hall, hnone⟩ := @iterStalePages_spec search.nonce _ snapshot search.batchSize_pos
    hsorted
  set pages := iterStalePages search.nonce search.batchSize snapshot with hpages
  have hend : pages.2 = none := hnone.mpr hpaged
  have hflat : pages.1.flatten = snapshot := hall hend
  have hmem : ∀ page ∈ pages.1, ∀ r ∈ page, r ∈ snapshot := fun page hpage r hr =>
    hflat ▸ List.mem_flatten.mpr ⟨page, hpage, hr⟩
  have hknown : ∀ r ∈ snapshot, w.1.state.lookup r.recordKey ≠ none := fun r hr => by
    rw [(StateTable.mem_absentFrom.mp hr).1]
    simp
  refine (Prog.Returns.foldM (J := fun _ _ w' => w.2 = w'.2 ∧
    (w.1.collection ≠ none → w'.1.collection ≠ none)) ⟨rfl, id⟩ ?_).bind ?_
  · rintro done page rest hdone b w' ⟨hledger, hkept⟩
    have hpage : page ∈ pages.1 := by
      rw [← hdone]
      simp
    refine (returns_publishStalePage (hledger ▸ hheld) (fun hne => hkept fun hnocoll => ?_) ?_
      fun r hr => ?_).mono fun _ w'' h => ⟨hledger.trans h.1, fun hsome => h.2 (hkept hsome)⟩
    · obtain ⟨r, hr⟩ := List.exists_mem_of_ne_nil page hne
      exact hknown r (hmem page hpage r hr) (hfresh hnocoll _)
    · have hsub : page.Sublist snapshot := hflat ▸ List.sublist_flatten_of_mem hpage
      exact StateTable.nodup_absentFrom.sublist (hsub.map _)
    · exact hw.keys _ (hknown r (hmem page hpage r hr))
  · rintro p' w' ⟨hledger, -⟩
    rw [hend]
    exact .pure hledger

theorem schemaMatchesByName_self (schema : List (String × String)) :
    schemaMatchesByName schema schema = true := by
  simp [schemaMatchesByName]

theorem returns_checkCollection (hw : Configured search w.1) :
    (checkCollection search (w.1.collection.map (·.metadata generation))).Returns
      (searchInterp generation uuid) (fun _ w' => w = w') w := by
  cases hc : w.1.collection with
  | none => exact .pure rfl
  | some c =>
    obtain ⟨-, hdescriptor, hschema⟩ := hw.stamped c hc
    simp only [Option.map_some, checkCollection, verifyCollectionConfig, Collection.metadata,
      hdescriptor, if_true, validateCollectionSchema, hschema, schemaMatchesByName_self]
    exact .pure rfl

theorem Indexed.exists_of_sublist {upstream batch : List R} {rows : List (IndexedRow V)}
    (h : Indexed search upstream rows) (hsub : batch ⊆ upstream) :
    ∃ indexed, Indexed search batch indexed := by
  induction batch with
  | nil => exact ⟨[], .nil⟩
  | cons raw batch ih =>
    obtain ⟨hraw, hrest⟩ := List.cons_subset.mp hsub
    obtain ⟨row, -, hok⟩ := h.exists_row hraw
    obtain ⟨indexed, hindexed⟩ := ih hrest
    exact ⟨row :: indexed, .cons hok hindexed⟩

/-- The loop over the upstream batches returns. -/
theorem returns_publishBatches {s : World V × Set String} {force : Bool} {p : Progress}
    {batches : List (List R)} {rows : List (IndexedRow V)} (hs : Crash search s)
    (hheld : Held lease config s.1.2) (hexists : p.collectionExists = s.1.1.collection.isSome)
    (hseen : p.rowsSeen = 0) (hforce : force = true → ∀ k, s.1.1.state.lookup k = none)
    (hnodup : (upstreamKeys search batches.flatten).Nodup)
    (hrows : Indexed search batches.flatten rows)
    (hlength : ∀ batch ∈ batches, batch.length ≤ search.batchSize) :
    (Prog.foldM (publishBatch search lease force) p batches).Returns (markedInterp generation uuid)
      (fun _ t => s.1.2 = t.1.2) s := by
  refine (Prog.Returns.foldM (J := fun done p' t => s.1.2 = t.1.2 ∧ Crash search t ∧
    ∃ rows', Indexed search done.flatten rows' ∧ Batched search s.1.1 s.2 rows' p' t.1.1 t.2)
    ⟨rfl, hs, [], .nil, ⟨hexists, hseen, by simp, fun _ _ => rfl, fun _ _ => rfl,
      fun k => by simp [Touched]⟩⟩ ?_).mono fun _ _ h => h.1
  rintro done batch rest hdone b t ⟨hledger, ht, rows', hrows', hbatched⟩
  have hsub : batch ⊆ batches.flatten := by
    intro raw hraw
    rw [← hdone]
    simp [hraw]
  obtain ⟨indexed, hindexed⟩ := hrows.exists_of_sublist hsub
  have hkeys : (upstreamKeys search done.flatten ++ upstreamKeys search batch).Nodup := by
    rw [← hdone] at hnodup
    simp only [upstreamKeys, List.flatten_append, List.flatten_cons, List.filterMap_append,
      ← List.append_assoc] at hnodup ⊢
    exact hnodup.sublist (List.sublist_append_left _ _)
  have hreturns : (publishBatch search lease force b batch).Returns (searchInterp generation uuid)
      (fun _ w' => t.1.2 = w'.2) t.1 :=
    returns_publishBatch (hledger ▸ hheld) hbatched.exists_eq hindexed
      (hlength batch (by rw [← hdone]; simp)) (List.nodup_append'.mp hkeys).2.1
  refine ((safe_publishBatch ht hbatched hforce (hrows'.recordIds ▸ hkeys)).returns
    hreturns.ghost).mono ?_
  rintro b' u ⟨hu, ⟨indexed', hindexed', hbatched'⟩, hledger'⟩
  refine ⟨hledger.trans hledger', hu, rows' ++ indexed', ?_, hbatched'⟩
  rw [List.flatten_append, List.flatten_singleton]
  exact List.rel_append hrows' hindexed'

/-- An execution of allowed operations that returns ends in a sound state. -/
theorem Sound.returns {α : Type} {p : SearchProg V α} {Q : α → World V × Set String → Prop}
    {s : World V × Set String} (hs : Sound search s.1) (hp : p.Calls (Allowed search))
    (h : p.Returns (markedInterp generation uuid) Q s) :
    p.Returns (markedInterp generation uuid) (fun a t => Sound search t.1 ∧ Q a t) s := by
  obtain ⟨t, a, hexec, hQ⟩ := h
  have hsound := Prog.exec_invariant (I := markedInterp generation uuid) (A := Allowed search)
    (J := fun t => Sound search t.1) (fun o t ho ht => ht.exec ho) hp hs
  rw [hexec] at hsound
  exact ⟨t, a, hexec, hsound, hQ⟩

theorem Indexed.unique {upstream : List R} {rows rows' : List (IndexedRow V)}
    (h : Indexed search upstream rows) (h' : Indexed search upstream rows') : rows = rows' := by
  have hok := (indexedRows_eq_ok.mpr h).symm.trans (indexedRows_eq_ok.mpr h')
  exact Except.ok.inj hok

theorem returns_ensureIndexes {p : Progress} (hw : Configured search w.1)
    (hsome : w.1.collection ≠ none) :
    (data (.ensureIndexes : DataOp V) >>= fun metadata => Prog.pure (metadata, p)).Returns
      (searchInterp generation uuid) (fun result w' => w.2 = w'.2 ∧
        result.1.configFingerprint = some search.spec.configFingerprint) w := by
  obtain ⟨c, hc⟩ := Option.ne_none_iff_exists'.mp hsome
  refine returns_data_bind (d := { w.1 with collection := some c })
    (r := c.metadata generation) ?_ (.pure ⟨rfl, (hw.stamped c hc).1⟩)
  simp only [DataOp.exec, withCollection, hc]

/-- The publication returns if the cursors of the stale pages fit. -/
theorem returns_reconcile {s : World V × Set String} {batches : List (List R)}
    {rows : List (IndexedRow V)} (hs : Crash search s) (hsound : Sound search s.1)
    (hheld : Held lease config s.1.2) (hnodup : (upstreamKeys search batches.flatten).Nodup)
    (hrows : Indexed search batches.flatten rows)
    (hlength : ∀ batch ∈ batches, batch.length ≤ search.batchSize)
    (hpaged : Paged search.nonce search.batchSize
      (s.1.1.state.absentFrom (rows.map (·.recordId)))) :
    (reconcile search lease batches).Returns (markedInterp generation uuid)
      (fun result t => s.1.2 = t.1.2 ∧
        result.1.configFingerprint = some search.spec.configFingerprint) s := by
  unfold reconcile
  set existing := s.1.1.collection.map (·.metadata generation) with hexisting
  have hisSome : existing.isSome = s.1.1.collection.isSome := Option.isSome_map ..
  refine Prog.Returns.call (t := s) (r := existing) rfl ?_
  refine ((safe_checkCollection hs).returns (returns_checkCollection hsound.1).ghost).bind ?_
  rintro _ ⟨w, P⟩ ⟨h₁, hsame, hw⟩
  obtain rfl : s.1 = w := hw
  obtain rfl : P = s.2 := hsame.marks
  have hforce : existing.isNone = true → ∀ k, s.1.1.state.lookup k = none := fun hnone =>
    hs.fresh (by simpa [hexisting] using hnone)
  refine (hsound.returns (Prog.Calls.foldM fun p batch => calls_publishBatch)
    ((safe_publishBatches h₁ hisSome rfl hforce hnodup).returns
      (returns_publishBatches h₁ hheld hisSome rfl hforce hnodup hrows hlength))).bind ?_
  rintro p t₂ ⟨hsound₂, h₂, ⟨rows', hrows', hbatched⟩, hledger₂⟩
  obtain rfl := hrows.unique hrows'
  rw [← StateTable.absentFrom_congr hbatched.untouched, hrows.recordIds] at hpaged
  refine (hsound₂.returns calls_publishStale ((safe_publishStale h₂).returns
    (returns_publishStale (hledger₂ ▸ hheld) hsound₂.1 h₂.fresh hpaged).ghost)).bind ?_
  rintro p' t₃ ⟨hsound₃, h₃, ⟨-, hremoved⟩, hledger₃⟩
  have hledger : s.1.2 = t₃.1.2 := hledger₂.trans hledger₃
  have hexists : p'.collectionExists = t₃.1.1.collection.isSome := by
    rw [hremoved.exists_eq, hbatched.exists_eq, hremoved.collection]
  have hensure : ∀ w : World V, Configured search w.1 → w.1.collection ≠ none → s.1.2 = w.2 →
      (data (.ensureIndexes : DataOp V) >>= fun metadata => Prog.pure (metadata, p')).Returns
        (searchInterp generation uuid) (fun result w' => s.1.2 = w'.2 ∧
          result.1.configFingerprint = some search.spec.configFingerprint) w :=
    fun w hw hsome hsame => (returns_ensureIndexes hw hsome).mono fun _ _ h =>
      ⟨hsame.trans h.1, h.2⟩
  by_cases hp : p'.collectionExists = true
  · simp only [if_pos hp]
    rw [hexists] at hp
    exact (hensure t₃.1 hsound₃.1 (Option.isSome_iff_ne_none.mp hp) hledger).ghost
  · simp only [if_neg hp]
    have hnone : t₃.1.1.collection = none := by
      rw [hexists] at hp
      simpa using hp
    set d : SearchData V := { t₃.1.1 with collection := some (.create search.spec) } with hd
    have hcreate : (DataOp.createCollection search.spec).exec generation t₃.1.1 = (d, .ok ()) := by
      simp only [DataOp.exec, hnone, hd]
    have hconfigured : Configured search d := by
      have hexec : Configured search ((DataOp.createCollection search.spec).exec generation
          t₃.1.1).1 := hsound₃.1.exec rfl
      rwa [hcreate] at hexec
    have hprog : (ledger (ServingCoordinator.verifyPublish lease) >>= fun _ =>
        data (.createCollection search.spec) >>= fun _ =>
          data (.ensureIndexes : DataOp V) >>= fun metadata => Prog.pure (metadata, p')).Returns
        (searchInterp generation uuid) (fun result w' => s.1.2 = w'.2 ∧
          result.1.configFingerprint = some search.spec.configFingerprint) t₃.1 :=
      returns_verify_bind (hledger ▸ hheld) (returns_data_bind hcreate
        (hensure (d, t₃.1.2) hconfigured (by simp [hd]) hledger))
    exact hprog.ghost

/-- The publication returns a generation to activate if the scope is recoverable. -/
theorem returns_publishCollection {s : World V × Set String} {batches : List (List R)}
    {rows : List (IndexedRow V)} (hs : Crash search s) (hsound : Sound search s.1)
    (hheld : Held lease config s.1.2) (hnodup : (upstreamKeys search batches.flatten).Nodup)
    (hrows : Indexed search batches.flatten rows)
    (hlength : ∀ batch ∈ batches, batch.length ≤ search.batchSize)
    (hrec : Recoverable search s.1.1 rows) :
    (publishCollection search lease batches).Returns (markedInterp generation uuid)
      (fun result t => s.1.2 = t.1.2 ∧
        ∃ version count, result.1 = generation version count) s := by
  have hids : (rows.map (·.recordId)).Nodup := hrows.recordIds ▸ hnodup
  unfold publishCollection
  refine ((safe_reconcile hs hnodup).returns
    (returns_reconcile hs hsound hheld hnodup hrows hlength hrec.paged)).bind ?_
  rintro ⟨metadata, p⟩ t ⟨ht, ⟨rows', c, hrows', hreconciled, hc, hmeta, hseen⟩, hledger, hconfig⟩
  obtain rfl := hrows.unique hrows'
  dsimp only at hmeta hseen hconfig ⊢
  have hcount : metadata.rowCount = p.rowsSeen := by
    rw [hmeta, hseen]
    exact (hreconciled.count_iff ht hc hids).mpr hrec.balanced
  rw [if_neg (not_not.mpr hconfig), if_neg (not_not.mpr hcount)]
  exact .pure ⟨hledger, _, _, by rw [hmeta]; rfl⟩

/-- The attempt acquires its lease if nobody claims or queries the scope. -/
theorem returns_acquireLease {batches : List (List R)}
    (hdomain : validateKeyDomain search batches.flatten = .ok ())
    (hsingle : Single search.scope w.2)
    (hidle : ∀ row ∈ w.2.rowsOf search.scope, row.publicationId = none)
    (hfree : w.2.leasesOf search.scope = []) :
    (acquireLease search batches).Returns (searchInterp generation uuid)
      (fun lease w' => w'.1 = { w.1 with counts := {} } ∧
        Held lease search.spec.configFingerprint w'.2) w := by
  obtain ⟨s, db⟩ := w
  unfold acquireLease
  refine Prog.Returns.bind (Q := fun _ w' => (s, db) = w')
    (.call (t := (s, db)) (r := ()) rfl (.call (t := (s, db)) (r := ()) rfl (.pure rfl))) ?_
  rintro _ _ rfl
  refine returns_data_bind (r := ()) rfl ?_
  rw [hdomain]
  have hacquire : (ServingCoordinator.acquirePublish search.scope search.codeVersion
      search.spec.configFingerprint).Returns (Stmt.exec uuid) (fun lease db' =>
        lease.scope = search.scope ∧ Held lease search.spec.configFingerprint db') db :=
    ServingCoordinator.returns_acquirePublish hsingle hidle hfree
  have hledger : (ledger (ServingCoordinator.acquirePublish search.scope search.codeVersion
      search.spec.configFingerprint) : SearchProg V PublishLease).Returns
      (searchInterp generation uuid) (fun lease w' => w'.1 = { s with counts := {} } ∧
        lease.scope = search.scope ∧ Held lease search.spec.configFingerprint w'.2)
      ({ s with counts := {} }, db) :=
    Prog.Returns.inr (s := ({ s with counts := {} }, db)) hacquire
  exact (hledger.mono fun lease w' h => ⟨h.1, h.2.2⟩).tryCatch

/-- An attempt without faults activates its collection if the scope is recoverable. -/
theorem returns_runSearchModel (hgeneration : ∀ version count, generation version count ≠ "")
    {s : World V × Set String} {batches : List (List R)} {rows : List (IndexedRow V)}
    (hs : Crash search s) (hsound : Sound search s.1)
    (hdomain : validateKeyDomain search batches.flatten = .ok ())
    (hrows : Indexed search batches.flatten rows)
    (hlength : ∀ batch ∈ batches, batch.length ≤ search.batchSize)
    (hidle : ∀ row ∈ s.1.2.rowsOf search.scope, row.publicationId = none)
    (hfree : s.1.2.leasesOf search.scope = []) (hrec : Recoverable search s.1.1 rows) :
    (runSearchModel search batches).Returns (markedInterp generation uuid) (fun _ _ => True) s := by
  have hacquire : (acquireLease search batches).Returns (searchInterp generation uuid)
      (fun lease w' => w'.1 = { s.1.1 with counts := {} } ∧
        Held lease search.spec.configFingerprint w'.2) s.1 :=
    returns_acquireLease hdomain hsound.2 hidle hfree
  unfold runSearchModel
  refine (hsound.returns calls_acquireLease
    ((safe_acquireLease hs).returns hacquire.ghost)).bind ?_
  rintro lease ⟨⟨d, db⟩, P⟩ ⟨hsound₁, h₁, ⟨-, hnodup⟩, hd, hheld⟩
  obtain rfl : d = { s.1.1 with counts := {} } := hd
  refine Prog.Returns.tryCatch ?_
  have hunder : (publishUnderLease search lease batches).Returns (markedInterp generation uuid)
      (fun result t => db = t.1.2 ∧ ∃ version count, result.1 = generation version count)
      (({ s.1.1 with counts := {} }, db), P) := by
    refine (returns_publishCollection h₁ hsound₁ hheld hnodup hrows hlength
      ⟨hrec.balanced, hrec.paged⟩).bind ?_
    rintro result ⟨⟨d, db'⟩, P'⟩ ⟨rfl, hresult⟩
    have hverify : (ledger (ServingCoordinator.verifyPublish lease) >>= fun _ =>
        Prog.pure result).Returns (searchInterp generation uuid) (fun result t => db = t.2 ∧
          ∃ version count, result.1 = generation version count) (d, db) :=
      returns_verify_bind hheld (.pure ⟨rfl, hresult⟩)
    exact Prog.Returns.ghost (s := ((d, db), P')) hverify
  refine hunder.bind ?_
  rintro ⟨active, p⟩ ⟨⟨d, db'⟩, P'⟩ ⟨rfl, version, count, rfl⟩
  have hready : (ServingCoordinator.markReady lease (generation version count)
      search.spec.configFingerprint p.counts).Returns (Stmt.exec uuid) (fun _ _ => True) db :=
    ServingCoordinator.returns_markReady (hgeneration version count) hheld
  have hledger : (ledger (ServingCoordinator.markReady lease (generation version count)
      search.spec.configFingerprint p.counts) : SearchProg V Unit).Returns
      (searchInterp generation uuid) (fun _ t => t.1 = d ∧ True) (d, db) :=
    Prog.Returns.inr (s := (d, db)) hready
  exact (Prog.Returns.ghost (s := ((d, db), P')) hledger).bind fun _ _ _ => .pure trivial

/-- **When a rerun recovers.** After any history of one scope, an attempt without faults on a scope
that nobody else claims or queries activates its collection exactly if as many rows are stray as
are dropped and the cursors of the stale pages fit. -/
theorem rerun_recovers_iff (hgeneration : ∀ version count, generation version count ≠ "")
    {s : World V × Set String} (hs : History search generation uuid s)
    {batches : List (List R)} {rows : List (IndexedRow V)}
    (hdomain : validateKeyDomain search batches.flatten = .ok ())
    (hrows : indexedRows search batches.flatten = .ok rows)
    (hlength : ∀ batch ∈ batches, batch.length ≤ search.batchSize)
    (hidle : ∀ row ∈ s.1.2.rowsOf search.scope, row.publicationId = none)
    (hfree : s.1.2.leasesOf search.scope = []) :
    (∃ result, ((runSearchModel search batches).exec (searchInterp generation uuid) s.1).2 =
      .ok result) ↔ Recoverable search s.1.1 rows := by
  have hnodup := nodup_upstreamKeys hdomain
  have hindexed := indexedRows_eq_ok.mp hrows
  have hreply : ((runSearchModel search batches).exec (searchInterp generation uuid) s.1).2 =
      ((runSearchModel search batches).exec (markedInterp generation uuid) s).2 :=
    (Prod.mk.inj (Prog.exec_ghost _ _ _ _)).2.symm
  rw [hreply]
  constructor
  · rintro ⟨result, hok⟩
    have hends := Prog.ends_exec (markedInterp generation uuid) (runSearchModel search batches) s
    rw [hok] at hends
    obtain ⟨hcrash, hQ⟩ := (safe_runSearchModel hs.recorded).sound hends
    obtain ⟨rows', c, hrows', hrec, hc, hlen⟩ := hQ result rfl
    obtain rfl := hindexed.unique hrows'
    exact ⟨(hrec.count_iff hcrash hc (hindexed.recordIds ▸ hnodup)).mp hlen, hrec.paged⟩
  · intro hrec
    obtain ⟨t, result, hexec, -⟩ := returns_runSearchModel hgeneration hs.recorded hs.sound hdomain
      hindexed hlength hidle hfree hrec
    exact ⟨result, by rw [hexec]⟩

end Returns

/-! ### Histories with a dropped or a stray row -/

theorem sampleGeneration_ne (version count : ℕ) : sampleGeneration version count ≠ "" := by
  intro h
  have hlength := congrArg String.length h
  simp [sampleGeneration, sampleUuid] at hlength

/-- A rerun on the half-recorded scope recovers. -/
theorem rerun_recovers_halfRecorded : ∃ result,
    ((runSearchModel sampleSearch [[("a", 1)], [("b", 1)]]).exec
      (searchInterp sampleGeneration sampleUuid) halfRecorded.1).2 = .ok result := by
  have hstale : halfRecorded.1.1.state.absentFrom ["a", "b"] = [] := by decide
  have hrows : indexedRows sampleSearch [[("a", 1)], [("b", 1)]].flatten =
      .ok [⟨"a", 1, sampleUuid 1⟩, ⟨"b", 1, sampleUuid 1⟩] := by rfl
  refine (rerun_recovers_iff sampleGeneration_ne history_halfRecorded
    (by decide) hrows (by decide)
    (by decide) (by decide)).mpr ⟨by decide, fun i r hi => ?_⟩
  simp [hstale] at hi

/-- The publisher of a second record dies before it records it, and the claim is recovered. -/
def strayed : World ℕ × Set String :=
  ((ledger (Call.recover sampleScope true).code : SearchProg ℕ Reply).exec sampleInterp
    ((runSearchModel sampleSearch [[("a", 1), ("b", 1)]]).crashAfter sampleInterp 12
      published)).1

theorem history_strayed : History sampleSearch sampleGeneration sampleUuid strayed :=
  .coordinate (.recover sampleScope true)
    (.attempt [[("a", 1), ("b", 1)]] history_published (Prog.ends_crashAfter _ _ _ _))
    (Prog.ends_exec _ _ _)

/-- **A removed record is stuck.** The publisher of a new record dies before it records it, the
record is removed upstream, and the rerun fails its row count. -/
theorem removed_record_is_stuck : ∃ s, History sampleSearch sampleGeneration sampleUuid s ∧
    (∀ row ∈ s.1.2.rowsOf sampleScope, row.publicationId = none) ∧
      s.1.2.leasesOf sampleScope = [] ∧
        ((runSearchModel sampleSearch [[("a", 1)]]).exec
          (searchInterp sampleGeneration sampleUuid) s.1).2 =
            .error (.runError
              "Retrieval collection failed post-publication row-count validation") :=
  ⟨strayed, history_strayed, by decide, by decide, by decide⟩

end Stel.Search
