import Stel.Search.Publication

/-!
# What an interrupted publication leaves behind

A publication writes a record to the store first and records it afterwards. The record keys whose
store row was changed by an operation that the publication state has not caught up with are kept
as a ghost component beside the state. Between any two operations of any attempt these are exactly
the keys on which the store and the publication state disagree.

## Main definitions

* `DataOp.mark`: how an operation changes the half-recorded keys.
* `Recorded`: the invariant.
* `Batched`: what the loop over the upstream batches has done.

## Main results

* `safe_publishCollection`: a publication keeps the invariant at every fault, and what it has done
  when it returns.
-/

namespace Stel.Search

open Stel.Warehouse Stel.Retrieval

variable {R V : Type}

/-- The state of the executor: the data and the serving ledger. -/
abbrev World (V : Type) : Type := SearchData V × ServingDb

/-- The half-recorded keys after an operation: a store mutation adds its keys, a state write
removes them. -/
def DataOp.marks : DataOp V → Set String → Set String
  | .upsert rows, P => P ∪ {k | k ∈ rows.map (·.recordId)}
  | .delete ids, P => P ∪ {k | k ∈ ids}
  | .upsertState records, P => P \ {k | k ∈ records.map (·.recordKey)}
  | .deleteState keys, P => P \ {k | k ∈ keys}
  | _, P => P

section Ghost

variable (generation : Generation) (uuid : ℕ → String)

/-- The interpretation of the operations on the data and the serving ledger. -/
abbrev searchInterp : Interp (DataOp V ⊕ Stmt) (SumRet DataOp.Ret Stmt.Ret) Failure (World V) :=
  (DataOp.exec generation).sum (Stmt.exec uuid)

/-- Operations that raise change no mark. -/
def mark : DataOp V ⊕ Stmt → World V → Set String → Set String
  | .inl o, w, P =>
    match (o.exec generation w.1).2 with
    | .ok _ => o.marks P
    | .error _ => P
  | .inr _, _, P => P

/-- The interpretation with the half-recorded keys beside the state. -/
abbrev markedInterp :
    Interp (DataOp V ⊕ Stmt) (SumRet DataOp.Ret Stmt.Ret) Failure (World V × Set String) :=
  (searchInterp generation uuid).ghost (mark generation)

end Ghost

/-- The state value under which a publication records a row's values. -/
def SearchModel.stateValue (search : SearchModel R V) (v : V) : StateValue :=
  ⟨search.fingerprint v, search.codeVersion⟩

/-- A missing collection has no state, and the half-recorded keys are those on which the store
and the publication state disagree. -/
structure Recorded (search : SearchModel R V) (s : SearchData V) (P : Set String) : Prop where
  fresh : s.collection = none → ∀ k, s.state.lookup k = none
  agrees : ∀ k, k ∉ P ↔ s.state.lookup k = (s.storeRow k).map search.stateValue

theorem DataOp.exec_error (generation : Generation) {o : DataOp V} {s s' : SearchData V}
    {e : Failure} (h : o.exec generation s = (s', .error e)) : s' = s := by
  have hwith : ∀ {α : Type} (missing : String)
      (f : Collection V → Except Failure (Collection V × α)) (t : SearchData V),
      withCollection s missing f = (t, .error e) → t = s := by
    intro α missing f t ht
    unfold withCollection at ht
    split at ht
    · exact (Prod.mk.inj ht).1.symm
    · split at ht
      · cases ht
      · exact (Prod.mk.inj ht).1.symm
  cases o <;> simp only [DataOp.exec] at h
  case upsert rows =>
    split at h
    · cases h
    · exact hwith _ _ _ h
  case delete ids =>
    split at h
    · cases h
    · exact hwith _ _ _ h
  case evolveCollection | restampCollection | ensureIndexes => exact hwith _ _ _ h
  case upsertState | deleteState | createCollection =>
    split at h
    · first | exact (Prod.mk.inj h).1.symm | cases h
    · first | exact (Prod.mk.inj h).1.symm | cases h
  case setCounts => cases h
  all_goals exact (Prod.mk.inj h).1.symm

/-! ### Single operations -/

section Safe

variable {search : SearchModel R V} {generation : Generation} {uuid : ℕ → String}

/-- The crash condition of a publication. -/
def Crash (search : SearchModel R V) (s : World V × Set String) : Prop :=
  Recorded search s.1.1 s.2

/-- An operation on the data, from what it does when it replies. -/
theorem safe_data {o : DataOp V} {s : World V × Set String}
    {Q : o.Ret → World V × Set String → Prop} (hs : Crash search s)
    (hok : ∀ r d, o.exec generation s.1.1 = (d, .ok r) →
      Recorded search d (o.marks s.2) ∧ Q r ((d, s.1.2), o.marks s.2)) :
    (data o).Safe (markedInterp generation uuid) (Crash search) Q s := by
  cases hexec : o.exec generation s.1.1 with
  | mk d r =>
    cases r with
    | error e =>
      have hd := DataOp.exec_error generation hexec
      subst hd
      have hafter : (markedInterp generation uuid (.inl o) s).1 = s := by
        simp [markedInterp, Interp.ghost, Interp.sum, mark, hexec]
      refine Prog.Safe.callOrRaise hs (by rw [hafter]; exact hs) fun r hr => ?_
      simp [markedInterp, Interp.ghost, Interp.sum, hexec] at hr
    | ok r =>
      obtain ⟨hrec, hQ⟩ := hok r d hexec
      have hafter : markedInterp generation uuid (.inl o) s =
          (((d, s.1.2), o.marks s.2), .ok r) := by
        simp [markedInterp, Interp.ghost, Interp.sum, mark, hexec]
      exact Prog.Safe.call hafter hs ⟨hrec, hQ⟩

/-- A call of the serving coordinator leaves the data and the marks alone. -/
theorem safe_ledger {α : Type} {p : Coord α} {s : World V × Set String} (hs : Crash search s) :
    (ledger p : SearchProg V α).Safe (markedInterp generation uuid) (Crash search)
      (fun _ t => (t.1.1, t.2) = (s.1.1, s.2)) s := by
  refine Prog.safe_frame (f := fun t : World V × Set String => (t.1.1, t.2))
    (A := fun o => ∃ st, o = .inr st) ?_
    (Prog.calls_inr (Prog.calls_of_forall (fun st => ⟨st, rfl⟩) p)) ?_
  · rintro _ t ⟨st, rfl⟩
    rfl
  · intro t ht
    obtain ⟨hd, hP⟩ := Prod.mk.inj ht
    unfold Crash
    rw [hd, hP]
    exact hs

/-! ### What the operations do to the invariant -/

variable {s : SearchData V} {P : Set String}

theorem storeRow_upsert {c : Collection V} {rows : List (IndexedRow V)}
    (hnodup : (rows.map (·.recordId)).Nodup) {row : IndexedRow V} (hrow : row ∈ rows) :
    ({ s with collection := some (c.upsert rows) } : SearchData V).storeRow row.recordId =
      some row.values := by
  refine Keyed.lookup_upsertAll (by simpa [Function.comp_def] using hnodup) ?_
  exact List.mem_map_of_mem (f := fun row : IndexedRow V => (row.recordId, row.values)) hrow

theorem storeRow_upsert_of_notMem {c : Collection V} (hc : s.collection = some c)
    {rows : List (IndexedRow V)} {k : String} (hk : k ∉ rows.map (·.recordId)) :
    ({ s with collection := some (c.upsert rows) } : SearchData V).storeRow k = s.storeRow k := by
  have h : (c.upsert rows).rows.lookup k = c.rows.lookup k :=
    Keyed.lookup_upsertAll_of_notMem (by simpa [Function.comp_def] using hk)
  simpa [SearchData.storeRow, hc] using h

/-- What a deletion does. -/
theorem exec_delete {d : SearchData V} {ids : List String} {r : MutationReceipt}
    (h : (DataOp.delete ids).exec generation s = (d, .ok r)) :
    d.state = s.state ∧ d.collection.isSome = s.collection.isSome ∧
      ∀ k, d.storeRow k = if k ∈ ids then none else s.storeRow k := by
  simp only [DataOp.exec] at h
  split at h
  · rename_i hnil
    cases h
    exact ⟨rfl, rfl, fun k => by simp [hnil]⟩
  · cases hc : s.collection with
    | none => simp [withCollection, hc] at h
    | some c =>
      simp only [withCollection, hc] at h
      cases h
      refine ⟨rfl, rfl, fun k => ?_⟩
      have hrow : (c.delete ids).rows.lookup k = if k ∈ ids then none else c.rows.lookup k :=
        Keyed.lookup_eraseAll c.rows ids k
      simpa [SearchData.storeRow, hc] using hrow

namespace Recorded

theorem congr (h : Recorded search s P) {s' : SearchData V} (hstate : s'.state = s.state)
    (hnone : s'.collection = none → s.collection = none)
    (hrow : ∀ k, s'.storeRow k = s.storeRow k) : Recorded search s' P where
  fresh hs' k := by
    rw [hstate]
    exact h.fresh (hnone hs') k
  agrees k := by
    rw [hstate, hrow]
    exact h.agrees k

/-- Writing rows that the publication state does not vouch for leaves them half recorded. -/
theorem upsert (h : Recorded search s P) {c : Collection V} (hc : s.collection = some c)
    {rows : List (IndexedRow V)} (hnodup : (rows.map (·.recordId)).Nodup)
    (hnew : ∀ row ∈ rows, s.state.lookup row.recordId ≠ some (search.stateValue row.values)) :
    Recorded search { s with collection := some (c.upsert rows) }
      (P ∪ {k | k ∈ rows.map (·.recordId)}) where
  fresh hnone := by cases hnone
  agrees k := by
    by_cases hk : k ∈ rows.map (·.recordId)
    · obtain ⟨row, hrow, rfl⟩ := List.mem_map.mp hk
      rw [storeRow_upsert hnodup hrow]
      exact iff_of_false (fun h => h (.inr hk)) (hnew row hrow)
    · rw [storeRow_upsert_of_notMem hc hk]
      have hP : k ∉ P ∪ {k | k ∈ rows.map (·.recordId)} ↔ k ∉ P :=
        ⟨fun h hp => h (.inl hp), fun h hp => hp.elim h hk⟩
      exact hP.trans (h.agrees k)

/-- Deleting rows that the publication state records leaves them half recorded. -/
theorem delete (h : Recorded search s P) {d : SearchData V} {ids : List String}
    {r : MutationReceipt} (hexec : (DataOp.delete ids).exec generation s = (d, .ok r))
    (hknown : ∀ k ∈ ids, s.state.lookup k ≠ none) : Recorded search d (P ∪ {k | k ∈ ids}) := by
  obtain ⟨hstate, hcoll, hrow⟩ := exec_delete hexec
  refine ⟨fun hnone k => ?_, fun k => ?_⟩
  · rw [hstate]
    exact h.fresh (by simpa [hnone] using hcoll) k
  · rw [hstate, hrow]
    by_cases hk : k ∈ ids
    · rw [if_pos hk]
      exact iff_of_false (fun h => h (.inr hk)) (hknown k hk)
    · have hP : k ∉ P ∪ {k | k ∈ ids} ↔ k ∉ P :=
        ⟨fun h hp => h (.inl hp), fun h hp => hp.elim h hk⟩
      rw [if_neg hk, hP]
      exact h.agrees k

/-- Recording what the store holds. -/
theorem upsertState (h : Recorded search s P) (hsome : s.collection ≠ none)
    {records : List StateRecord} (hnodup : (records.map (·.recordKey)).Nodup)
    (hheld : ∀ r ∈ records, some r.value = (s.storeRow r.recordKey).map search.stateValue) :
    Recorded search { s with state := s.state.upsert records }
      (P \ {k | k ∈ records.map (·.recordKey)}) where
  fresh hnone := absurd hnone hsome
  agrees k := by
    by_cases hk : k ∈ records.map (·.recordKey)
    · obtain ⟨r, hr, rfl⟩ := List.mem_map.mp hk
      have hstate := StateTable.lookup_upsert (t := s.state) hnodup hr
      exact iff_of_true (fun h => h.2 hk) (hstate.trans (hheld r hr))
    · have hstate := StateTable.lookup_upsert_of_notMem (t := s.state) hk
      have hP : k ∉ P \ {k | k ∈ records.map (·.recordKey)} ↔ k ∉ P :=
        ⟨fun h hp => h ⟨hp, hk⟩, fun h hp => h hp.1⟩
      rw [hP, hstate]
      exact h.agrees k

/-- Removing the record of rows that the store does not hold. -/
theorem deleteState (h : Recorded search s P) {keys : List String}
    (hgone : ∀ k ∈ keys, s.storeRow k = none) :
    Recorded search { s with state := s.state.delete keys } (P \ {k | k ∈ keys}) where
  fresh hnone k := by
    show (s.state.delete keys).lookup k = none
    rw [StateTable.lookup_delete, h.fresh hnone, ite_self]
  agrees k := by
    show k ∉ P \ _ ↔ (s.state.delete keys).lookup k = (s.storeRow k).map _
    rw [StateTable.lookup_delete]
    by_cases hk : k ∈ keys
    · rw [if_pos hk, hgone k hk]
      exact iff_of_true (fun h => h.2 hk) rfl
    · rw [if_neg hk]
      simpa [hk] using h.agrees k

end Recorded

/-! ### The pending rows of a batch -/

/-- Nothing but the store rows and the marks of the given keys has changed. -/
structure OnlyStore (ids : List String) (s : SearchData V) (P : Set String) (s' : SearchData V)
    (P' : Set String) : Prop where
  state : s'.state = s.state
  store : ∀ k ∉ ids, s'.storeRow k = s.storeRow k
  marks : ∀ k ∉ ids, (k ∈ P' ↔ k ∈ P)

theorem OnlyStore.refl {ids : List String} : OnlyStore ids s P s P :=
  ⟨rfl, fun _ _ => rfl, fun _ _ => Iff.rfl⟩

/-- The collection exists afterwards, and holds what it held. -/
theorem safe_ensureCollection {s : World V × Set String} {collectionExists : Bool}
    (hs : Crash search s) (hexists : collectionExists = s.1.1.collection.isSome) :
    (ensureCollection search collectionExists).Safe (markedInterp generation uuid) (Crash search)
      (fun _ t => OnlyStore [] s.1.1 s.2 t.1.1 t.2 ∧ t.1.1.collection ≠ none) s := by
  unfold ensureCollection
  cases hc : s.1.1.collection with
  | some c =>
    rw [hc] at hexists
    subst hexists
    exact ⟨hs, .refl, by simp [hc]⟩
  | none =>
    rw [hc] at hexists
    subst hexists
    refine safe_data hs fun r d hexec => ?_
    simp only [DataOp.exec, hc] at hexec
    cases hexec
    have hrow : ∀ k, ({ s.1.1 with collection := some (.create search.spec) } :
        SearchData V).storeRow k = s.1.1.storeRow k := by
      intro k
      simp [SearchData.storeRow, hc, Collection.create]
    exact ⟨hs.congr rfl (fun h => by cases h) hrow,
      ⟨rfl, fun k _ => hrow k, fun _ _ => Iff.rfl⟩, by simp⟩

/-- Revoking rows that the publication state records. -/
theorem safe_revokeChanged {s : World V × Set String} {changedIds : List String}
    (hs : Crash search s) (hknown : ∀ k ∈ changedIds, s.1.1.state.lookup k ≠ none)
    (hsome : s.1.1.collection ≠ none) :
    (revokeChanged search changedIds).Safe (markedInterp generation uuid) (Crash search)
      (fun _ t => OnlyStore changedIds s.1.1 s.2 t.1.1 t.2 ∧ t.1.1.collection ≠ none) s := by
  unfold revokeChanged
  split
  · refine Prog.Safe.bind (Q := fun _ t =>
      OnlyStore changedIds s.1.1 s.2 t.1.1 t.2 ∧ t.1.1.collection ≠ none) ?_ ?_
    · refine safe_data hs fun r d hexec => ?_
      obtain ⟨hstate, hcoll, hrow⟩ := exec_delete hexec
      refine ⟨hs.delete hexec hknown, ⟨hstate, fun k hk => ?_, fun k hk => ?_⟩, ?_⟩
      · rw [hrow, if_neg hk]
      · exact ⟨fun h => h.resolve_right hk, .inl⟩
      · simpa [← Option.isSome_iff_ne_none, hcoll] using hsome
    · intro r t ht hQ
      exact Prog.safe_ofExcept ht fun _ _ => hQ
  · exact ⟨hs, .refl, hsome⟩

/-- What the publication of the pending rows has done. -/
structure Published (search : SearchModel R V) (pending : List (IndexedRow V)) (s : SearchData V)
    (P : Set String) (s' : SearchData V) (P' : Set String) : Prop where
  written : ∀ row ∈ pending,
    s'.state.lookup row.recordId = some (search.stateValue row.values)
  untouched : ∀ k ∉ pending.map (·.recordId), s'.state.lookup k = s.state.lookup k
  store : ∀ k ∉ pending.map (·.recordId), s'.storeRow k = s.storeRow k
  marks : ∀ k, k ∈ P' ↔ k ∈ P ∧ k ∉ pending.map (·.recordId)

theorem safe_publishPending {s : World V × Set String} {lease : PublishLease} {p : Progress}
    {prior : List (String × StateValue)} {pending : List (IndexedRow V)} {inserted updated : ℕ}
    (hs : Crash search s) (hexists : p.collectionExists = s.1.1.collection.isSome)
    (hne : pending ≠ []) (hnodup : (pending.map (·.recordId)).Nodup)
    (hfp : ∀ row ∈ pending, row.inputFingerprint = search.fingerprint row.values)
    (hprior : ∀ row ∈ pending, prior.lookup row.recordId = s.1.1.state.lookup row.recordId)
    (hnew : ∀ row ∈ pending,
      s.1.1.state.lookup row.recordId ≠ some (search.stateValue row.values)) :
    (publishPending search lease p prior pending inserted updated).Safe
      (markedInterp generation uuid) (Crash search)
      (fun p' t => Published search pending s.1.1 s.2 t.1.1 t.2 ∧
        p'.rowsSeen = p.rowsSeen ∧ p'.collectionExists = t.1.1.collection.isSome) s := by
  have hinside : ∀ k, k ∈ (pending.filter fun row => (prior.lookup row.recordId).isSome).map
      (·.recordId) → k ∈ pending.map (·.recordId) := by
    intro k hk
    exact (List.filter_sublist.map _).mem hk
  unfold publishPending
  refine (safe_ledger hs).bind fun _ t₁ h₁ hsame₁ => ?_
  obtain ⟨hd₁, hP₁⟩ := Prod.mk.inj hsame₁
  refine (safe_ensureCollection h₁ (by rw [hd₁, hexists])).bind fun _ t₂ h₂ hQ₂ => ?_
  obtain ⟨honly₂, hsome₂⟩ := hQ₂
  have hstate₂ : t₂.1.1.state = s.1.1.state := honly₂.state.trans (by rw [hd₁])
  refine (safe_revokeChanged h₂ ?_ hsome₂).bind fun _ t₃ h₃ hQ₃ => ?_
  · intro k hk
    obtain ⟨row, hrow, rfl⟩ := List.mem_map.mp hk
    obtain ⟨hmem, hisSome⟩ := List.mem_filter.mp hrow
    rw [hstate₂, ← hprior row hmem]
    exact Option.isSome_iff_ne_none.mp hisSome
  obtain ⟨honly₃, hsome₃⟩ := hQ₃
  have hstate₃ : t₃.1.1.state = s.1.1.state := honly₃.state.trans hstate₂
  obtain ⟨c, hc⟩ := Option.ne_none_iff_exists'.mp hsome₃
  refine Prog.Safe.bind (Q := fun _ t => t = ((({ t₃.1.1 with
    collection := some (c.upsert pending) } : SearchData V), t₃.1.2),
    t₃.2 ∪ {k | k ∈ pending.map (·.recordId)})) (safe_data h₃ fun r d hexec => ?_) ?_
  · simp only [DataOp.exec, if_neg hne, withCollection, hc] at hexec
    cases hexec
    exact ⟨h₃.upsert hc hnodup fun row hrow => by rw [hstate₃]; exact hnew row hrow, rfl⟩
  rintro receipt t₄ h₄ rfl
  refine Prog.safe_ofExcept_bind h₄ fun _ _ => ?_
  refine (safe_ledger h₄).bind fun _ t₆ h₆ hsame₆ => ?_
  obtain ⟨hd₆, hP₆⟩ := Prod.mk.inj hsame₆
  set records : List StateRecord := pending.map fun row =>
    ⟨row.recordId, row.inputFingerprint, search.codeVersion⟩ with hrecords
  have hkeys : records.map (·.recordKey) = pending.map (·.recordId) := by
    simp [hrecords, Function.comp_def]
  have hvalue : ∀ r ∈ records, ∃ row ∈ pending, r.recordKey = row.recordId ∧
      r.value = search.stateValue row.values := by
    intro r hr
    obtain ⟨row, hrow, rfl⟩ := List.mem_map.mp hr
    refine ⟨row, hrow, rfl, ?_⟩
    simp only [StateRecord.value, SearchModel.stateValue, hfp row hrow]
  refine Prog.Safe.bind (Q := fun _ t => t = ((({ t₆.1.1 with
    state := t₆.1.1.state.upsert records } : SearchData V), t₆.1.2),
    t₆.2 \ {k | k ∈ records.map (·.recordKey)})) (safe_data h₆ fun r d hexec => ?_) ?_
  · simp only [DataOp.exec, validateStateRecords, hkeys, if_pos hnodup] at hexec
    cases hexec
    refine ⟨h₆.upsertState (by rw [hd₆]; simp) (by rw [hkeys]; exact hnodup) fun r hr => ?_, rfl⟩
    obtain ⟨row, hrow, hkey, hval⟩ := hvalue r hr
    rw [hd₆, hkey, storeRow_upsert hnodup hrow, hval]
    rfl
  rintro _ t₇ h₇ rfl
  refine Prog.Safe.bind (Q := fun _ t => t.1.1.state = t₆.1.1.state.upsert records ∧
    t.1.1.collection = t₆.1.1.collection ∧ t.2 = t₆.2 \ {k | k ∈ records.map (·.recordKey)})
    (safe_data h₇ fun r d hexec => ?_) ?_
  · simp only [DataOp.exec] at hexec
    cases hexec
    exact ⟨h₇.congr rfl id fun _ => rfl, rfl, rfl, rfl⟩
  rintro _ t₈ h₈ ⟨hstate₈, hcoll₈, hP₈⟩
  have hstate₆ : t₆.1.1.state = s.1.1.state := by rw [hd₆, ← hstate₃]
  refine ⟨h₈, ⟨fun row hrow => ?_, fun k hk => ?_, fun k hk => ?_, fun k => ?_⟩, rfl,
    by rw [hcoll₈, hd₆]; rfl⟩
  · obtain ⟨r, hr, hkey, hval⟩ : ∃ r ∈ records, r.recordKey = row.recordId ∧
        r.value = search.stateValue row.values := by
      refine ⟨⟨row.recordId, row.inputFingerprint, search.codeVersion⟩,
        List.mem_map_of_mem hrow, rfl, ?_⟩
      simp only [StateRecord.value, SearchModel.stateValue, hfp row hrow]
    rw [hstate₈, ← hkey, StateTable.lookup_upsert (by rw [hkeys]; exact hnodup) hr, hval]
  · rw [hstate₈, StateTable.lookup_upsert_of_notMem (by rw [hkeys]; exact hk), hstate₆]
  · have hrow₈ : t₈.1.1.storeRow k = t₆.1.1.storeRow k := by
      simp only [SearchData.storeRow, hcoll₈]
    rw [hrow₈, hd₆, storeRow_upsert_of_notMem hc hk,
      honly₃.store k fun h => hk (hinside k h), honly₂.store k (by simp), hd₁]
  · rw [hP₈, hP₆, hkeys]
    by_cases hk : k ∈ pending.map (·.recordId)
    · exact iff_of_false (fun h => h.2 hk) fun h => h.2 hk
    · have hold : k ∈ t₃.2 ↔ k ∈ s.2 := by
        rw [honly₃.marks k fun h => hk (hinside k h), honly₂.marks k (by simp), hP₁]
      constructor
      · rintro ⟨h | h, -⟩
        · exact ⟨hold.mp h, hk⟩
        · exact absurd h hk
      · rintro ⟨h, -⟩
        exact ⟨.inl (hold.mpr h), hk⟩

/-! ### The loop over the upstream batches -/

/-- The publication state does not vouch for the row. -/
def Pending (search : SearchModel R V) (s₀ : SearchData V) (row : IndexedRow V) : Prop :=
  s₀.state.lookup row.recordId ≠ some (search.stateValue row.values)

/-- The key belongs to one of the rows for which the publication state does not vouch. -/
def Touched (search : SearchModel R V) (s₀ : SearchData V) (rows : List (IndexedRow V))
    (k : String) : Prop :=
  ∃ row ∈ rows, row.recordId = k ∧ Pending search s₀ row

/-- What the loop over the upstream batches has done with the rows read so far, since it started
with the state `s₀` and the half-recorded keys `P₀`. -/
structure Batched (search : SearchModel R V) (s₀ : SearchData V) (P₀ : Set String)
    (rows : List (IndexedRow V)) (p : Progress) (s : SearchData V) (P : Set String) : Prop where
  exists_eq : p.collectionExists = s.collection.isSome
  rowsSeen : p.rowsSeen = rows.length
  written : ∀ row ∈ rows, s.state.lookup row.recordId = some (search.stateValue row.values)
  untouched : ∀ k ∉ rows.map (·.recordId), s.state.lookup k = s₀.state.lookup k
  store : ∀ k, ¬ Touched search s₀ rows k → s.storeRow k = s₀.storeRow k
  marks : ∀ k, k ∈ P ↔ k ∈ P₀ ∧ ¬ Touched search s₀ rows k

theorem Batched.extend {s₀ s s' : SearchData V} {P₀ P P' : Set String}
    {rows indexed pending : List (IndexedRow V)} {p p' : Progress}
    (h : Batched search s₀ P₀ rows p s P) (hpub : Published search pending s P s' P')
    (hdisj : ∀ row ∈ indexed, row.recordId ∉ rows.map (·.recordId))
    (hpending : ∀ row, row ∈ pending ↔ row ∈ indexed ∧ Pending search s₀ row)
    (hunique : ∀ row ∈ indexed, ∀ row' ∈ indexed, row.recordId = row'.recordId → row = row')
    (hexists : p'.collectionExists = s'.collection.isSome)
    (hseen : p'.rowsSeen = p.rowsSeen + indexed.length) :
    Batched search s₀ P₀ (rows ++ indexed) p' s' P' := by
  have hids : ∀ k, k ∈ pending.map (·.recordId) ↔ Touched search s₀ indexed k := by
    intro k
    simp only [List.mem_map, Touched, hpending]
    constructor
    · rintro ⟨row, ⟨hrow, hp⟩, hk⟩
      exact ⟨row, hrow, hk, hp⟩
    · rintro ⟨row, hrow, hk, hp⟩
      exact ⟨row, ⟨hrow, hp⟩, hk⟩
  have hsplit : ∀ k, Touched search s₀ (rows ++ indexed) k ↔
      Touched search s₀ rows k ∨ Touched search s₀ indexed k := by
    intro k
    simp only [Touched, List.mem_append, or_and_right, exists_or]
  have hrows : ∀ row ∈ rows, row.recordId ∉ pending.map (·.recordId) := by
    intro row hrow hmem
    obtain ⟨row', hrow', hk, -⟩ := (hids _).mp hmem
    exact hdisj row' hrow' (hk ▸ List.mem_map_of_mem hrow)
  refine ⟨hexists, by rw [hseen, h.rowsSeen, List.length_append], ?_, ?_, ?_, ?_⟩
  · intro row hrow
    rcases List.mem_append.mp hrow with hrow | hrow
    · rw [hpub.untouched _ (hrows row hrow)]
      exact h.written row hrow
    · by_cases hp : Pending search s₀ row
      · exact hpub.written row ((hpending row).mpr ⟨hrow, hp⟩)
      · have hout : row.recordId ∉ pending.map (·.recordId) := by
          rw [hids]
          rintro ⟨row', hrow', hk, hp'⟩
          exact hp (hunique row' hrow' row hrow hk ▸ hp')
        rw [hpub.untouched _ hout, h.untouched _ (hdisj row hrow)]
        exact not_not.mp hp
  · intro k hk
    rw [List.map_append, List.mem_append, not_or] at hk
    have hout : k ∉ pending.map (·.recordId) := by
      rw [hids]
      rintro ⟨row, hrow, rfl, -⟩
      exact hk.2 (List.mem_map_of_mem hrow)
    rw [hpub.untouched k hout, h.untouched k hk.1]
  · intro k hk
    rw [hsplit, not_or, ← hids] at hk
    rw [hpub.store k hk.2, h.store k hk.1]
  · intro k
    rw [hpub.marks, h.marks, hids, hsplit, not_or, and_assoc]

theorem exec_fetchStateSubset {s d : SearchData V} {keys : List String}
    {prior : List (String × StateValue)}
    (h : (DataOp.fetchStateSubset keys).exec generation s = (d, .ok prior)) :
    d = s ∧ prior = s.state.subset keys := by
  simp only [DataOp.exec, Prod.mk.injEq] at h
  obtain ⟨rfl, h⟩ := h
  refine ⟨rfl, ?_⟩
  cases hv : validateStateKeys keys with
  | error e => simp [hv, bind, Except.bind] at h
  | ok u =>
    simp only [hv, bind, Except.bind] at h
    split at h
    · cases h
    · cases h
      rfl

/-- The prior state agrees with the publication state on the keys it was read for. -/
theorem safe_priorStateFor {s : World V × Set String} {records : List UpstreamRecord}
    (hs : Crash search s) :
    (priorStateFor records : SearchProg V _).Safe (markedInterp generation uuid) (Crash search)
      (fun prior t => (t.1.1, t.2) = (s.1.1, s.2) ∧ ∀ r ∈ records,
        prior.lookup r.recordKey = s.1.1.state.lookup r.recordKey) s := by
  unfold priorStateFor
  split
  · rename_i hnil
    exact ⟨hs, rfl, by simp [hnil]⟩
  · refine safe_data hs fun prior d hexec => ?_
    obtain ⟨rfl, rfl⟩ := exec_fetchStateSubset hexec
    exact ⟨hs, rfl, fun r hr => StateTable.lookup_subset (List.mem_map_of_mem hr)⟩

/-- One batch of the upstream snapshot. -/
theorem safe_publishBatch {s₀ : SearchData V} {P₀ : Set String} {s : World V × Set String}
    {lease : PublishLease} {force : Bool} {p : Progress} {rows : List (IndexedRow V)}
    {batch : List R} (hs : Crash search s) (h : Batched search s₀ P₀ rows p s.1.1 s.2)
    (hforce : force = true → ∀ k, s₀.state.lookup k = none)
    (hnodup : (rows.map (·.recordId) ++ upstreamKeys search batch).Nodup) :
    (publishBatch search lease force p batch).Safe (markedInterp generation uuid) (Crash search)
      (fun p' t => ∃ indexed, Indexed search batch indexed ∧
        Batched search s₀ P₀ (rows ++ indexed) p' t.1.1 t.2) s := by
  unfold publishBatch
  refine Prog.safe_ofExcept_bind hs fun indexed hok => ?_
  have hindexed := indexedRows_eq_ok.mp hok
  rw [← hindexed.recordIds] at hnodup
  obtain ⟨-, hbatch, hcross⟩ := List.nodup_append'.mp hnodup
  have hdisj : ∀ row ∈ indexed, row.recordId ∉ rows.map (·.recordId) := fun row hrow hmem =>
    hcross hmem (List.mem_map_of_mem hrow)
  have hunique : ∀ row ∈ indexed, ∀ row' ∈ indexed, row.recordId = row'.recordId → row = row' :=
    fun row hrow row' hrow' => List.inj_on_of_nodup_map hbatch hrow hrow'
  have hfp : ∀ row ∈ indexed, row.inputFingerprint = search.fingerprint row.values := by
    intro row hrow
    obtain ⟨raw, -, hraw⟩ := hindexed.exists_raw hrow
    exact (indexedRow_eq_ok hraw).2.2
  refine (safe_priorStateFor hs).bind fun prior t₁ h₁ hQ₁ => ?_
  obtain ⟨hsame₁, hprior⟩ := hQ₁
  obtain ⟨hd₁, hP₁⟩ := Prod.mk.inj hsame₁
  refine Prog.Safe.bind (Q := fun _ t => t.1.1.state = s.1.1.state ∧
    t.1.1.collection = s.1.1.collection ∧ t.2 = s.2) (safe_data h₁ fun r d hexec => ?_) ?_
  · simp only [DataOp.exec] at hexec
    cases hexec
    exact ⟨h₁.congr rfl id fun _ => rfl, by rw [hd₁], by rw [hd₁], hP₁⟩
  rintro _ t₂ h₂ ⟨hstate₂, hcoll₂, hP₂⟩
  have hprior₀ : ∀ row ∈ indexed, prior.lookup row.recordId = s₀.state.lookup row.recordId := by
    intro row hrow
    rw [← h.untouched _ (hdisj row hrow)]
    exact hprior ⟨row.recordId, row.inputFingerprint⟩ (List.mem_map_of_mem hrow)
  set pendingKeys := ((classifyBatch prior search.codeVersion force (indexed.map fun row =>
      UpstreamRecord.mk row.recordId row.inputFingerprint)).new ++
    (classifyBatch prior search.codeVersion force (indexed.map fun row =>
      UpstreamRecord.mk row.recordId row.inputFingerprint)).changed).map (·.recordKey)
    with hpendingKeys
  have hkeys : ∀ row ∈ indexed, (row.recordId ∈ pendingKeys ↔ Pending search s₀ row) := by
    intro row hrow
    rw [hpendingKeys, mem_pendingKeys]
    have hvalue : (⟨row.inputFingerprint, search.codeVersion⟩ : StateValue) =
        search.stateValue row.values := by
      rw [SearchModel.stateValue, hfp row hrow]
    constructor
    · rintro ⟨r, hr, hk, hnot⟩ hsame
      obtain ⟨row', hrow', rfl⟩ := List.mem_map.mp hr
      obtain rfl := hunique row' hrow' row hrow hk
      cases hf : force with
      | true => simp [hforce hf] at hsame
      | false => exact hnot ⟨hf, by rw [hprior₀ row' hrow, hsame, hvalue]⟩
    · intro hp
      refine ⟨_, List.mem_map_of_mem hrow, rfl, fun hsame => hp ?_⟩
      rw [← hprior₀ row hrow, hsame.2, hvalue]
  set pending := indexed.filter (·.recordId ∈ pendingKeys) with hpendingDef
  have hpending : ∀ row, row ∈ pending ↔ row ∈ indexed ∧ Pending search s₀ row := by
    intro row
    rw [hpendingDef, List.mem_filter, decide_eq_true_eq]
    exact and_congr_right fun hrow => hkeys row hrow
  have hsub : ∀ row ∈ pending, row ∈ indexed := fun row hrow => ((hpending row).mp hrow).1
  show (if pending = [] then Prog.pure _ else _ : SearchProg V Progress).Safe _ _ _ _
  by_cases hempty : pending = []
  · rw [if_pos hempty]
    rw [hempty] at hpending
    have hpub : Published search [] s.1.1 s.2 t₂.1.1 t₂.2 := by
      refine ⟨by simp, fun k _ => by rw [hstate₂], fun k _ => ?_, fun k => by simp [hP₂]⟩
      simp only [SearchData.storeRow, hcoll₂]
    refine ⟨h₂, indexed, hindexed, h.extend hpub hdisj hpending hunique ?_ rfl⟩
    rw [hcoll₂]
    exact h.exists_eq
  · rw [if_neg hempty]
    refine (safe_publishPending h₂ ?_ hempty ?_ (fun row hrow => hfp row (hsub row hrow)) ?_ ?_).mono
      (fun _ ht => ht) ?_
    · rw [hcoll₂]
      exact h.exists_eq
    · exact hbatch.sublist (List.filter_sublist.map _)
    · intro row hrow
      rw [hstate₂, hprior₀ row (hsub row hrow), h.untouched _ (hdisj row (hsub row hrow))]
    · intro row hrow
      rw [hstate₂, h.untouched _ (hdisj row (hsub row hrow))]
      exact ((hpending row).mp hrow).2
    · rintro p' t - ⟨hpub, hseen, hexists⟩
      have hpub' : Published search pending s.1.1 s.2 t.1.1 t.2 := by
        refine ⟨hpub.written, fun k hk => ?_, fun k hk => ?_, fun k => ?_⟩
        · rw [hpub.untouched k hk, hstate₂]
        · rw [hpub.store k hk]
          simp only [SearchData.storeRow, hcoll₂]
        · rw [hpub.marks, hP₂]
      exact ⟨indexed, hindexed, h.extend hpub' hdisj hpending hunique hexists hseen⟩

/-- The loop over the upstream batches. -/
theorem safe_publishBatches {s : World V × Set String} {lease : PublishLease} {force : Bool}
    {p : Progress} {batches : List (List R)} (hs : Crash search s)
    (hexists : p.collectionExists = s.1.1.collection.isSome) (hseen : p.rowsSeen = 0)
    (hforce : force = true → ∀ k, s.1.1.state.lookup k = none)
    (hnodup : (upstreamKeys search batches.flatten).Nodup) :
    (Prog.foldM (publishBatch search lease force) p batches).Safe (markedInterp generation uuid)
      (Crash search) (fun p' t => ∃ rows, Indexed search batches.flatten rows ∧
        Batched search s.1.1 s.2 rows p' t.1.1 t.2) s := by
  have hinit : Batched search s.1.1 s.2 [] p s.1.1 s.2 :=
    ⟨hexists, hseen, by simp, fun _ _ => rfl, fun _ _ => rfl, fun k => by simp [Touched]⟩
  refine Prog.Safe.foldM (J := fun done p' t => ∃ rows, Indexed search done.flatten rows ∧
    Batched search s.1.1 s.2 rows p' t.1.1 t.2) hs ⟨[], .nil, hinit⟩ ?_
  rintro done batch rest hdone p' t ht ⟨rows, hrows, hbatched⟩
  refine (safe_publishBatch ht hbatched hforce ?_).mono (fun _ h => h) ?_
  · rw [hrows.recordIds]
    rw [← hdone] at hnodup
    simp only [upstreamKeys, List.flatten_append, List.flatten_cons, List.filterMap_append,
      ← List.append_assoc] at hnodup ⊢
    exact hnodup.sublist (List.sublist_append_left _ _)
  · rintro p'' u - ⟨indexed, hindexed, hbatched'⟩
    refine ⟨rows ++ indexed, ?_, hbatched'⟩
    rw [List.flatten_append, List.flatten_singleton]
    exact List.rel_append hrows hindexed

/-! ### The loop over the stale pages -/

/-- What the loop over the stale pages has done with the keys removed so far. -/
structure Removed (keys : List String) (p₀ : Progress) (s₀ : SearchData V) (P₀ : Set String)
    (p : Progress) (s : SearchData V) (P : Set String) : Prop where
  exists_eq : p.collectionExists = p₀.collectionExists
  collection : s.collection.isSome = s₀.collection.isSome
  rowsSeen : p.rowsSeen = p₀.rowsSeen
  state : ∀ k, s.state.lookup k = if k ∈ keys then none else s₀.state.lookup k
  store : ∀ k, s.storeRow k = if k ∈ keys then none else s₀.storeRow k
  marks : ∀ k, k ∈ P ↔ k ∈ P₀ ∧ k ∉ keys

theorem safe_publishStalePage {s : World V × Set String} {lease : PublishLease} {p : Progress}
    {page : List StateRecord} (hs : Crash search s)
    (hknown : ∀ r ∈ page, s.1.1.state.lookup r.recordKey ≠ none) :
    (publishStalePage lease p page : SearchProg V Progress).Safe (markedInterp generation uuid)
      (Crash search)
      (fun p' t => Removed (page.map (·.recordKey)) p s.1.1 s.2 p' t.1.1 t.2) s := by
  set ids := page.map (·.recordKey) with hids
  unfold publishStalePage
  refine (safe_ledger hs).bind fun _ t₁ h₁ hsame₁ => ?_
  obtain ⟨hd₁, hP₁⟩ := Prod.mk.inj hsame₁
  refine Prog.Safe.bind (Q := fun _ t => t.1.1.state = s.1.1.state ∧
    t.1.1.collection.isSome = s.1.1.collection.isSome ∧
    (∀ k, t.1.1.storeRow k = if k ∈ ids then none else s.1.1.storeRow k) ∧
    t.2 = s.2 ∪ {k | k ∈ ids}) (safe_data h₁ fun r d hexec => ?_) ?_
  · obtain ⟨hstate, hcoll, hrow⟩ := exec_delete hexec
    rw [hd₁] at hstate hcoll hrow
    refine ⟨h₁.delete hexec fun k hk => ?_, hstate, hcoll, hrow, by rw [← hP₁]; rfl⟩
    obtain ⟨r, hr, rfl⟩ := List.mem_map.mp hk
    rw [hd₁]
    exact hknown r hr
  rintro receipt t₂ h₂ hQ₂
  refine Prog.safe_ofExcept_bind h₂ fun _ _ => ?_
  obtain ⟨hstate₂, hcoll₂, hrow₂, hP₂⟩ := hQ₂
  refine Prog.Safe.bind (Q := fun _ t => t.1.1.state = t₂.1.1.state.delete ids ∧
    t.1.1.collection = t₂.1.1.collection ∧ t.2 = t₂.2 \ {k | k ∈ ids})
    (safe_data h₂ fun r d hexec => ?_) ?_
  · simp only [DataOp.exec] at hexec
    split at hexec
    · cases hexec
      refine ⟨h₂.deleteState fun k hk => ?_, rfl, rfl, rfl⟩
      rw [hrow₂, if_pos hk]
    · cases hexec
  rintro _ t₃ h₃ ⟨hstate₃, hcoll₃, hP₃⟩
  refine Prog.Safe.bind (Q := fun _ t => t.1.1.state = t₃.1.1.state ∧
    t.1.1.collection = t₃.1.1.collection ∧ t.2 = t₃.2) (safe_data h₃ fun r d hexec => ?_) ?_
  · simp only [DataOp.exec] at hexec
    cases hexec
    exact ⟨h₃.congr rfl id fun _ => rfl, rfl, rfl, rfl⟩
  rintro _ t₄ h₄ ⟨hstate₄, hcoll₄, hP₄⟩
  have hcoll : t₄.1.1.collection = t₂.1.1.collection := hcoll₄.trans hcoll₃
  refine ⟨h₄, rfl, by rw [hcoll, hcoll₂], rfl, fun k => ?_, fun k => ?_, fun k => ?_⟩
  · rw [hstate₄, hstate₃, StateTable.lookup_delete, hstate₂]
  · rw [← hrow₂ k]
    simp only [SearchData.storeRow, hcoll]
  · rw [hP₄, hP₃, hP₂]
    by_cases hk : k ∈ ids
    · exact iff_of_false (fun h => h.2 hk) fun h => h.2 hk
    · exact ⟨fun h => ⟨h.1.resolve_right hk, hk⟩, fun h => ⟨.inl h.1, hk⟩⟩

theorem Removed.trans {keys keys' : List String} {p₀ p p' : Progress} {s₀ s s' : SearchData V}
    {P₀ P P' : Set String} (h : Removed keys p₀ s₀ P₀ p s P)
    (h' : Removed keys' p s P p' s' P') : Removed (keys ++ keys') p₀ s₀ P₀ p' s' P' where
  exists_eq := h'.exists_eq.trans h.exists_eq
  collection := h'.collection.trans h.collection
  rowsSeen := h'.rowsSeen.trans h.rowsSeen
  state k := by
    rw [h'.state, h.state]
    by_cases hk : k ∈ keys' <;> simp [hk]
  store k := by
    rw [h'.store, h.store]
    by_cases hk : k ∈ keys' <;> simp [hk]
  marks k := by
    rw [h'.marks, h.marks, List.mem_append, not_or, and_assoc]

/-- The loop over the stale pages removes exactly the records whose keys are absent from the
upstream. -/
theorem safe_publishStale {s : World V × Set String} {lease : PublishLease} {p : Progress}
    {keys : List String} (hs : Crash search s) :
    (publishStale search lease p keys).Safe (markedInterp generation uuid) (Crash search)
      (fun p' t => Paged search.nonce search.batchSize (s.1.1.state.absentFrom keys) ∧
        Removed ((s.1.1.state.absentFrom keys).map (·.recordKey)) p s.1.1 s.2 p' t.1.1 t.2)
      s := by
  set snapshot := s.1.1.state.absentFrom keys with hsnapshot
  unfold publishStale
  refine Prog.Safe.bind (Q := fun reply t => reply = snapshot ∧ s = t)
    (safe_data hs fun r d hexec => ?_) ?_
  · simp only [DataOp.exec] at hexec
    cases hexec
    exact ⟨hs, rfl, rfl⟩
  rintro _ _ - ⟨rfl, rfl⟩
  set pages := iterStalePages search.nonce search.batchSize snapshot with hpages
  have hsorted : snapshot.Pairwise fun a b => a.recordKey < b.recordKey :=
    StateTable.pairwise_absentFrom
  obtain ⟨⟨tail, hprefix⟩, hall, hpaged⟩ := @iterStalePages_spec search.nonce _ snapshot
    search.batchSize_pos hsorted
  have hkeys : (pages.1.flatten.map (·.recordKey)).Nodup :=
    List.Nodup.sublist (List.IsPrefix.sublist ⟨tail.map (·.recordKey), by
      rw [← List.map_append, hprefix]⟩) StateTable.nodup_absentFrom
  refine (Prog.Safe.foldM (J := fun done p' t =>
    Removed (done.flatten.map (·.recordKey)) p s.1.1 s.2 p' t.1.1 t.2) hs ?_ ?_).bind ?_
  · exact ⟨rfl, rfl, rfl, by simp, by simp, by simp⟩
  · intro done page rest hdone p' t ht hremoved
    rw [← hdone, List.flatten_append, List.flatten_cons, List.map_append, List.map_append] at hkeys
    have hdisj := (List.nodup_append'.mp hkeys).2.2
    refine (safe_publishStalePage ht fun r hr => ?_).mono (fun _ h => h) ?_
    · have hout : r.recordKey ∉ done.flatten.map (·.recordKey) := fun hmem =>
        hdisj hmem (List.mem_append_left _ (List.mem_map_of_mem hr))
      have hmem : r ∈ snapshot := by
        rw [← hprefix]
        refine List.mem_append_left _ (List.mem_flatten.mpr ⟨page, ?_, hr⟩)
        rw [← hpages, ← hdone]
        simp
      rw [hremoved.state, if_neg hout, (StateTable.mem_absentFrom.mp hmem).1]
      simp
    · intro p'' u _ h
      rw [List.flatten_append, List.flatten_singleton, List.map_append]
      exact hremoved.trans h
  · intro p' t ht hremoved
    cases he : pages.2 with
    | some e => exact ht
    | none =>
      rw [← hpages, he] at hall hpaged
      rw [hall rfl] at hremoved
      exact ⟨ht, hpaged.mp rfl, hremoved⟩

/-! ### The whole publication -/

/-- The collection may carry another stamp and more columns; the rows, the publication state and
the marks are unchanged. -/
structure SameRows (s : SearchData V) (P : Set String) (s' : SearchData V) (P' : Set String) :
    Prop where
  state : s'.state = s.state
  collection : s'.collection.isSome = s.collection.isSome
  store : ∀ k, s'.storeRow k = s.storeRow k
  marks : P' = P

theorem SameRows.recorded {s' : SearchData V} {P' : Set String} (h : SameRows s P s' P')
    (hs : Recorded search s P) : Recorded search s' P' := by
  obtain ⟨hstate, hcoll, hrow, rfl⟩ := h
  exact hs.congr hstate (fun hnone => by simpa [hnone] using hcoll) hrow

/-- An operation that only replaces the collection by one with the same rows. -/
theorem sameRows_withCollection {α : Type} {missing : String} {d : SearchData V} {r : α}
    {f : Collection V → Except Failure (Collection V × α)}
    (hf : ∀ c c' r, f c = .ok (c', r) → c'.rows = c.rows)
    (h : withCollection s missing f = (d, .ok r)) : SameRows s P d P := by
  unfold withCollection at h
  cases hc : s.collection with
  | none => simp [hc] at h
  | some c =>
    simp only [hc] at h
    cases hfc : f c with
    | error e => simp [hfc] at h
    | ok reply =>
      obtain ⟨c', r'⟩ := reply
      simp only [hfc] at h
      cases h
      refine ⟨rfl, by simp [hc], fun k => ?_, rfl⟩
      simp [SearchData.storeRow, hc, hf c c' _ hfc]

theorem safe_checkCollection {s : World V × Set String} {existing : Option CollectionMetadata}
    (hs : Crash search s) :
    (checkCollection search existing).Safe (markedInterp generation uuid) (Crash search)
      (fun _ t => SameRows s.1.1 s.2 t.1.1 t.2) s := by
  have hrefl : SameRows s.1.1 s.2 s.1.1 s.2 := ⟨rfl, rfl, fun _ => rfl, rfl⟩
  cases existing with
  | none => exact ⟨hs, hrefl⟩
  | some existing =>
    have hrestamp : (data (.restampCollection search.spec)).Safe (markedInterp generation uuid)
        (Crash search) (fun _ t => SameRows s.1.1 s.2 t.1.1 t.2) s := by
      refine safe_data hs fun r d hexec => ?_
      simp only [DataOp.exec] at hexec
      have hsame : SameRows s.1.1 s.2 d s.2 := by
        refine sameRows_withCollection (fun c c' r hf => ?_) hexec
        cases hf
        rfl
      exact ⟨hsame.recorded hs, hsame⟩
    have hevolve : ∀ added, (data (.evolveCollection search.spec added)).Safe
        (markedInterp generation uuid) (Crash search)
        (fun _ t => SameRows s.1.1 s.2 t.1.1 t.2) s := by
      intro added
      refine safe_data hs fun r d hexec => ?_
      simp only [DataOp.exec] at hexec
      have hsame : SameRows s.1.1 s.2 d s.2 := by
        refine sameRows_withCollection (fun c c' r hf => ?_) hexec
        simp only [Collection.evolve] at hf
        split at hf <;> cases hf
        rfl
      exact ⟨hsame.recorded hs, hsame⟩
    have hverify : (verifyCollectionConfig search existing).Safe (markedInterp generation uuid)
        (Crash search) (fun _ t => SameRows s.1.1 s.2 t.1.1 t.2) s := by
      unfold verifyCollectionConfig
      split
      · split
        · exact hrestamp.bind fun _ t ht hQ => ⟨ht, hQ⟩
        · exact hs
      · rename_i descriptor _
        split
        · exact ⟨hs, hrefl⟩
        · by_cases hrebuild : (search.descriptorChanges descriptor search.spec.descriptor).1
          · simp only [hrebuild, if_true]
            exact hs
          · by_cases honline : search.onIndexChange = .online
            · simp only [hrebuild, honline, if_true]
              exact (hevolve _).bind fun _ t ht hQ => ⟨ht, hQ⟩
            · simp only [hrebuild, honline, if_false]
              exact hs
    refine hverify.bind fun evolved t ht hsame => ?_
    split
    · refine Prog.Safe.bind (Q := fun _ u => t = u) (safe_data ht fun r d hexec => ?_) ?_
      · simp only [DataOp.exec] at hexec
        cases hexec
        exact ⟨ht, rfl⟩
      · rintro _ _ - rfl
        exact Prog.safe_ofExcept ht fun _ _ => hsame
    · exact Prog.safe_ofExcept ht fun _ _ => hsame

/-- The store row of the key is written or removed by a publication of the rows that starts
in `s₀`. -/
def Rewritten (search : SearchModel R V) (s₀ : SearchData V) (rows : List (IndexedRow V))
    (k : String) : Prop :=
  Touched search s₀ rows k ∨ k ∉ rows.map (·.recordId) ∧ s₀.state.lookup k ≠ none

/-- What a publication of the rows has done when it returns. -/
structure Reconciled (search : SearchModel R V) (s₀ : SearchData V) (P₀ : Set String)
    (rows : List (IndexedRow V)) (s : SearchData V) (P : Set String) : Prop where
  written : ∀ row ∈ rows, s.state.lookup row.recordId = some (search.stateValue row.values)
  gone : ∀ k ∉ rows.map (·.recordId), s.state.lookup k = none
  store : ∀ k, ¬ Rewritten search s₀ rows k → s.storeRow k = s₀.storeRow k
  marks : ∀ k, k ∈ P ↔ k ∈ P₀ ∧ ¬ Rewritten search s₀ rows k
  paged : Paged search.nonce search.batchSize (s₀.state.absentFrom (rows.map (·.recordId)))

theorem Batched.reconciled {s₀ s s' : SearchData V} {P₀ P P' : Set String}
    {rows : List (IndexedRow V)} {p p' : Progress} (h : Batched search s₀ P₀ rows p s P)
    (hpaged : Paged search.nonce search.batchSize (s.state.absentFrom (rows.map (·.recordId))))
    (hr : Removed ((s.state.absentFrom (rows.map (·.recordId))).map (·.recordKey)) p s P
      p' s' P') : Reconciled search s₀ P₀ rows s' P' := by
  have hkeys : ∀ k, k ∈ (s.state.absentFrom (rows.map (·.recordId))).map (·.recordKey) ↔
      k ∉ rows.map (·.recordId) ∧ s₀.state.lookup k ≠ none := by
    intro k
    constructor
    · intro hk
      obtain ⟨r, hr, rfl⟩ := List.mem_map.mp hk
      obtain ⟨hlook, hout⟩ := StateTable.mem_absentFrom.mp hr
      refine ⟨hout, ?_⟩
      rw [← h.untouched _ hout, hlook]
      simp
    · rintro ⟨hout, hlook⟩
      rw [← h.untouched _ hout] at hlook
      obtain ⟨v, hv⟩ := Option.ne_none_iff_exists'.mp hlook
      exact List.mem_map.mpr ⟨⟨k, v.inputFingerprint, v.codeVersion⟩,
        StateTable.mem_absentFrom.mpr ⟨hv, hout⟩, rfl⟩
  refine ⟨fun row hrow => ?_, fun k hk => ?_, fun k hk => ?_, fun k => ?_,
    StateTable.absentFrom_congr h.untouched ▸ hpaged⟩
  · rw [hr.state, if_neg fun hmem => ((hkeys _).mp hmem).1 (List.mem_map_of_mem hrow)]
    exact h.written row hrow
  · rw [hr.state]
    split
    · rfl
    · rename_i hout
      rw [hkeys] at hout
      rw [h.untouched k hk]
      exact not_not.mp fun hne => hout ⟨hk, hne⟩
  · rw [Rewritten, not_or] at hk
    rw [hr.store, if_neg fun hmem => hk.2 ((hkeys k).mp hmem), h.store k hk.1]
  · rw [hr.marks, h.marks, hkeys, Rewritten, not_or, and_assoc]

/-- **A publication at every fault.** The half-recorded keys stay those on which the store and the
publication state disagree; when the publication returns it has rewritten what it saw change. -/
theorem safe_reconcile {s : World V × Set String} {lease : PublishLease}
    {batches : List (List R)} (hs : Crash search s)
    (hnodup : (upstreamKeys search batches.flatten).Nodup) :
    (reconcile search lease batches).Safe (markedInterp generation uuid) (Crash search)
      (fun result t => ∃ rows c, Indexed search batches.flatten rows ∧
        Reconciled search s.1.1 s.2 rows t.1.1 t.2 ∧ t.1.1.collection = some c ∧
        result.1 = c.metadata generation ∧ result.2.rowsSeen = rows.length) s := by
  unfold reconcile
  refine Prog.Safe.bind (Q := fun existing t => existing.isSome = s.1.1.collection.isSome ∧ s = t)
    (safe_data hs fun r d hexec => ?_) ?_
  · simp only [DataOp.exec] at hexec
    cases hexec
    exact ⟨hs, by simp, rfl⟩
  rintro existing _ - ⟨hexisting, rfl⟩
  refine (safe_checkCollection hs).bind fun _ t₁ h₁ hsame => ?_
  have hforce : existing.isNone = true → ∀ k, t₁.1.1.state.lookup k = none := by
    intro hnone k
    rw [hsame.state]
    refine hs.fresh ?_ k
    cases existing with
    | none => simpa using hexisting.symm
    | some _ => cases hnone
  refine (safe_publishBatches h₁ (hexisting.trans hsame.collection.symm) rfl hforce hnodup).bind
    fun p t₂ h₂ hQ₂ => ?_
  obtain ⟨rows, hrows, hbatched⟩ := hQ₂
  refine (safe_publishStale h₂).bind fun p' t₃ h₃ hQ₃ => ?_
  rw [← hrows.recordIds] at hQ₃
  obtain ⟨hpaged, hremoved⟩ := hQ₃
  have hrec : Reconciled search s.1.1 s.2 rows t₃.1.1 t₃.2 := by
    obtain ⟨hwritten, hgone, hstore, hmarks, hpaged⟩ := hbatched.reconciled hpaged hremoved
    have hrw : ∀ k, Rewritten search t₁.1.1 rows k ↔ Rewritten search s.1.1 rows k := by
      intro k
      simp only [Rewritten, Touched, Pending, hsame.state]
    refine ⟨hwritten, hgone, fun k hk => ?_, fun k => ?_, hsame.state ▸ hpaged⟩
    · rw [hstore k (by rwa [hrw]), hsame.store]
    · rw [hmarks, hrw, hsame.marks]
  have hseen : p'.rowsSeen = rows.length := hremoved.rowsSeen.trans hbatched.rowsSeen
  have hensure : ∀ u, Crash search u → Reconciled search s.1.1 s.2 rows u.1.1 u.2 →
      (data (.ensureIndexes : DataOp V) >>= fun metadata => Prog.pure (metadata, p')).Safe
        (markedInterp generation uuid) (Crash search)
        (fun result t => ∃ rows c, Indexed search batches.flatten rows ∧
          Reconciled search s.1.1 s.2 rows t.1.1 t.2 ∧ t.1.1.collection = some c ∧
          result.1 = c.metadata generation ∧ result.2.rowsSeen = rows.length) u := by
    intro u hu hrec
    refine Prog.Safe.bind (Q := fun metadata t => u = t ∧ ∃ c, u.1.1.collection = some c ∧
      metadata = c.metadata generation) (safe_data hu fun r d hexec => ?_) ?_
    · simp only [DataOp.exec, withCollection] at hexec
      cases hc : u.1.1.collection with
      | none => simp [hc] at hexec
      | some c =>
        have hself : { u.1.1 with collection := some c } = u.1.1 := by rw [← hc]
        simp only [hc, hself] at hexec
        cases hexec
        exact ⟨hu, rfl, c, rfl, rfl⟩
    · rintro metadata _ - ⟨rfl, c, hc, rfl⟩
      exact ⟨hu, rows, c, hrows, hrec, hc, rfl, hseen⟩
  have hexists : p'.collectionExists = t₃.1.1.collection.isSome := by
    rw [hremoved.exists_eq, hbatched.exists_eq, hremoved.collection]
  by_cases hp : p'.collectionExists = true
  · simp only [if_pos hp]
    exact hensure t₃ h₃ hrec
  · simp only [if_neg hp]
    refine (safe_ledger h₃).bind fun _ t₄ h₄ hsame₄ => ?_
    obtain ⟨hd₄, hP₄⟩ := Prod.mk.inj hsame₄
    have hnone : t₄.1.1.collection = none := by
      rw [hexists] at hp
      rw [hd₄]
      simpa using hp
    refine Prog.Safe.bind (Q := fun _ t => t.1.1.state = t₄.1.1.state ∧
      (∀ k, t.1.1.storeRow k = t₄.1.1.storeRow k) ∧ t.2 = t₄.2)
      (safe_data h₄ fun r d hexec => ?_) ?_
    · simp only [DataOp.exec, hnone] at hexec
      cases hexec
      have hrow : ∀ k, ({ t₄.1.1 with collection := some (.create search.spec) } :
          SearchData V).storeRow k = t₄.1.1.storeRow k := by
        intro k
        simp [SearchData.storeRow, hnone, Collection.create]
      exact ⟨h₄.congr rfl (fun h => by cases h) hrow, rfl, hrow, rfl⟩
    · rintro _ t₅ h₅ ⟨hstate₅, hrow₅, hP₅⟩
      rw [hd₄] at hstate₅ hrow₅
      rw [hP₄] at hP₅
      refine hensure t₅ h₅ ⟨fun row hrow => ?_, fun k hk => ?_, fun k hk => ?_, fun k => ?_,
        hrec.paged⟩
      · rw [hstate₅]
        exact hrec.written row hrow
      · rw [hstate₅]
        exact hrec.gone k hk
      · rw [hrow₅]
        exact hrec.store k hk
      · rw [hP₅]
        exact hrec.marks k

/-- What holds when a publication of the upstream has a generation to activate. -/
def Activatable (search : SearchModel R V) (upstream : List R) (s₀ : SearchData V)
    (P₀ : Set String) (s : SearchData V) (P : Set String) : Prop :=
  ∃ rows c, Indexed search upstream rows ∧ Reconciled search s₀ P₀ rows s P ∧
    s.collection = some c ∧ c.rows.keys.length = rows.length

theorem safe_publishCollection {s : World V × Set String} {lease : PublishLease}
    {batches : List (List R)} (hs : Crash search s)
    (hnodup : (upstreamKeys search batches.flatten).Nodup) :
    (publishCollection search lease batches).Safe (markedInterp generation uuid) (Crash search)
      (fun _ t => Activatable search batches.flatten s.1.1 s.2 t.1.1 t.2) s := by
  unfold publishCollection
  refine (safe_reconcile hs hnodup).bind fun result t ht hQ => ?_
  obtain ⟨metadata, p⟩ := result
  obtain ⟨rows, c, hrows, hrec, hc, hmeta, hseen⟩ := hQ
  dsimp only at hmeta hseen ⊢
  split
  · exact ht
  · split
    · exact ht
    · rename_i hcount
      rw [hmeta, hseen] at hcount
      exact ⟨ht, rows, c, hrows, hrec, hc, not_not.mp hcount⟩

end Safe

end Stel.Search
