import Stel.Hashing.Known
import Stel.Search.Recovery
import Stel.Search.Tuning

/-!
# A publication with other settings

A publication right after a successful one of the same upstream, by a resource that reads the rows
alike and records them under the same code version, has nothing to publish.

## Main definitions

* `Settled`: what a successful publication leaves.
* `ReadsAlike`: two resources that read the rows alike.
* `NonSemantic`: two configurations share their index, and the publications of it.

## Main results

* `settled_of_ends`, `safe_rerun`: the two runs.
* `nonSemantic_tuned_iff`: settings are shared exactly if they are equal.
-/

namespace Stel.Search

open Stel.Hashing Stel.Warehouse Stel.Retrieval JsonValue

variable {R V : Type} {search search' : SearchModel R V} {generation : Generation} {uuid : ℕ → String}

/-! ### What a successful publication leaves -/

/-- The collection, if any, carries the descriptor of the resource. -/
def Described (search : SearchModel R V) (s : SearchData V) : Prop :=
  ∀ c, s.collection = some c → c.descriptor = some search.spec.descriptor

theorem Described.withCollection {s : SearchData V} {α : Type} {missing : String}
    {f : Collection V → Except Failure (Collection V × α)} (h : Described search s)
    (hf : ∀ c c' r, s.collection = some c → f c = .ok (c', r) →
      c'.descriptor = some search.spec.descriptor) :
    Described search (withCollection s missing f).1 := by
  unfold Stel.Search.withCollection
  cases hc : s.collection with
  | none => exact h
  | some c =>
    cases hfc : f c with
    | error e =>
      simp only [hfc]
      exact h
    | ok reply =>
      obtain ⟨c', r⟩ := reply
      simp only [hfc]
      intro other hother
      obtain rfl := Option.some_inj.mp hother
      exact hf c c' r hc hfc

/-- Every operation of an attempt keeps the descriptor. -/
theorem Described.exec {s : SearchData V} (h : Described search s) {o : DataOp V}
    (ho : Allowed search (.inl o)) : Described search (o.exec generation s).1 := by
  cases o with
  | createCollection spec =>
    obtain rfl : spec = search.spec := ho
    simp only [DataOp.exec]
    split
    · exact h
    · intro c hc
      obtain rfl := Option.some_inj.mp hc
      rfl
  | evolveCollection spec added =>
    obtain rfl : spec = search.spec := ho
    refine h.withCollection fun c c' r hc hf => ?_
    simp only [Collection.evolve] at hf
    split at hf <;> cases hf
    rfl
  | restampCollection spec =>
    obtain rfl : spec = search.spec := ho
    refine h.withCollection fun c c' r hc hf => ?_
    cases hf
    rfl
  | upsert rows =>
    simp only [DataOp.exec]
    split
    · exact h
    · refine h.withCollection fun c c' r hc hf => ?_
      cases hf
      exact h c hc
  | delete ids =>
    simp only [DataOp.exec]
    split
    · exact h
    · refine h.withCollection fun c c' r hc hf => ?_
      cases hf
      exact h c hc
  | ensureIndexes =>
    refine h.withCollection fun c c' r hc hf => ?_
    cases hf
    exact h c hc
  | upsertState | deleteState =>
    simp only [DataOp.exec]
    split <;> exact h
  | fetchStateSubset | openStatePages | inspectCollection | setCounts | getCounts => exact h

/-- The rule for a program that calls allowed operations only. -/
theorem safe_described {α : Type} {p : SearchProg V α} (hp : p.Calls (Allowed search)) {w : World V}
    (hw : Described search w.1) :
    p.Safe (searchInterp generation uuid) (fun _ => True) (fun _ t => Described search t.1) w := by
  have hcrash : p.Safe (searchInterp generation uuid) (fun t => Described search t.1)
      (fun _ _ => True) w := by
    refine Prog.safe_of_calls (fun o t ho ht => ?_) hp hw
    cases o with
    | inl o => exact ht.exec ho
    | inr o => exact ht
  exact hcrash.mono (fun _ _ => trivial) fun _ _ ht _ => ht

/-- The rule for an operation on the data of which only the reply matters. -/
theorem safe_reply {o : DataOp V} {w : World V} {Q : o.Ret → World V → Prop}
    (h : ∀ r d, o.exec generation w.1 = (d, .ok r) → Q r (d, w.2)) :
    (data o).Safe (searchInterp generation uuid) (fun _ => True) Q w := by
  refine Prog.Safe.callOrRaise trivial trivial fun r hr => ⟨trivial, ?_⟩
  have hexec : o.exec generation w.1 = ((o.exec generation w.1).1, .ok r) := Prod.ext rfl hr
  exact h r _ hexec

/-- A collection that passed the checks carries the descriptor of the resource. -/
theorem safe_checkCollection_described {w : World V} :
    (checkCollection search (w.1.collection.map (·.metadata generation))).Safe
      (searchInterp generation uuid) (fun _ => True) (fun _ t => Described search t.1) w := by
  cases hc : w.1.collection with
  | none =>
    refine ⟨trivial, fun c hsome => ?_⟩
    rw [hc] at hsome
    cases hsome
  | some c =>
    have hverify : (verifyCollectionConfig search (c.metadata generation)).Safe
        (searchInterp generation uuid) (fun _ => True) (fun _ t => Described search t.1) w := by
      have hstamp : ∀ {f : Collection V → Except Failure (Collection V × Unit)} {d : SearchData V}
          {r : Unit} {missing : String}, (∀ c c' r, f c = .ok (c', r) →
            c'.descriptor = some search.spec.descriptor) →
          withCollection w.1 missing f = (d, .ok r) → Described search d := by
        intro f d r missing hf hexec
        unfold withCollection at hexec
        simp only [hc] at hexec
        split at hexec
        · rename_i c' r' hfc
          cases hexec
          intro other hother
          obtain rfl := Option.some_inj.mp hother
          exact hf _ _ _ hfc
        · cases hexec
      unfold verifyCollectionConfig
      split
      · split
        · refine Prog.Safe.bind (Q := fun _ t => Described search t.1) (safe_reply fun r d hexec => ?_)
            fun _ t _ ht => ⟨trivial, ht⟩
          simp only [DataOp.exec] at hexec
          refine hstamp (fun c c' r hf => ?_) hexec
          cases hf
          rfl
        · trivial
      · rename_i descriptor hdescriptor
        split
        · rename_i hsame
          refine ⟨trivial, fun other hother => ?_⟩
          obtain rfl := Option.some_inj.mp (hc.symm.trans hother)
          rw [← hsame]
          exact hdescriptor
        · dsimp only
          split
          · trivial
          · split
            · refine Prog.Safe.bind (Q := fun _ t => Described search t.1)
                (safe_reply fun r d hexec => ?_) fun _ t _ ht => ⟨trivial, ht⟩
              simp only [DataOp.exec] at hexec
              refine hstamp (fun c c' r hf => ?_) hexec
              simp only [Collection.evolve] at hf
              split at hf <;> cases hf
              rfl
            · trivial
    refine hverify.bind fun evolved t _ ht => ?_
    split
    · exact safe_described (calls_data_bind (o := .inspectCollection) trivial fun _ =>
        Prog.calls_ofExcept _) ht
    · exact safe_described (Prog.calls_ofExcept _) ht

/-- What is left by a publication of the upstream that returned: the collection carries the descriptor
of the resource, and the publication state records the upstream rows and no other. -/
structure Settled (search : SearchModel R V) (upstream : List R) (s : SearchData V) : Prop where
  collection : ∃ c, s.collection = some c ∧ c.descriptor = some search.spec.descriptor
  written : ∀ raw ∈ upstream, ∀ row, indexedRow search raw = .ok row →
    s.state.lookup row.recordId = some (search.stateValue row.values)
  gone : ∀ k ∉ upstreamKeys search upstream, s.state.lookup k = none

/-- A state without a collection records nothing. -/
def Fresh (s : SearchData V) : Prop := s.collection = none → ∀ k, s.state.lookup k = none

theorem safe_publishUnderLease_described {lease : PublishLease} {batches : List (List R)} {w : World V} :
    (publishUnderLease search lease batches).Safe (searchInterp generation uuid) (fun _ => True)
      (fun _ t => Described search t.1) w := by
  have hreconcile : (reconcile search lease batches).Safe (searchInterp generation uuid)
      (fun _ => True) (fun _ t => Described search t.1) w := by
    unfold reconcile
    refine Prog.Safe.bind (Q := fun existing t =>
      existing = w.1.collection.map (·.metadata generation) ∧ t = w) (safe_reply fun r d hexec => ?_) ?_
    · simp only [DataOp.exec] at hexec
      cases hexec
      exact ⟨rfl, rfl⟩
    rintro _ _ - ⟨rfl, rfl⟩
    refine safe_checkCollection_described.bind fun _ t _ ht => safe_described ?_ ht
    refine (Prog.Calls.foldM fun p batch => calls_publishBatch).bind fun p =>
      calls_publishStale.bind fun p => ?_
    split
    · exact calls_data_bind (o := .ensureIndexes) trivial fun _ => trivial
    · exact calls_verify_bind (calls_data_bind (o := .createCollection search.spec) rfl fun _ =>
        calls_data_bind (o := .ensureIndexes) trivial fun _ => trivial)
  unfold publishUnderLease publishCollection
  refine Prog.Safe.bind (Q := fun _ t => Described search t.1) ?_ fun result t _ ht => ?_
  · refine hreconcile.bind fun result t _ ht => ?_
    dsimp only
    split
    · trivial
    · split
      · trivial
      · exact ⟨trivial, ht⟩
  · refine safe_described (calls_verify_bind ?_) ht
    trivial

theorem safe_runSearchModel_described {batches : List (List R)} {w : World V} :
    (runSearchModel search batches).Safe (searchInterp generation uuid) (fun _ => True)
      (fun _ t => Described search t.1) w := by
  have htrue : ∀ {α : Type} (p : SearchProg V α) (u : World V), p.Safe (searchInterp generation uuid)
      (fun _ => True) (fun _ _ => True) u := by
    intro α p u
    exact Prog.safe_of_calls (A := fun _ => True) (fun _ _ _ _ => trivial)
      (Prog.calls_of_forall (fun _ => trivial) p) trivial
  unfold runSearchModel
  refine (htrue _ w).bind fun lease t _ _ => Prog.Safe.tryCatch ?_ fun e u _ => ?_
  · refine safe_publishUnderLease_described.bind fun result u _ hu => safe_described ?_ hu
    exact (calls_ledger (ServingCoordinator.calls_markReady lease _ _ _ (by simp) (by simp))).bind
      fun _ => trivial
  · -- the handler raises
    unfold failPublication
    split
    · exact (htrue _ u).bind fun _ v _ _ => (htrue _ v).bind fun _ _ _ _ => trivial
    · trivial

/-- A publication that returned has settled its upstream. -/
theorem settled_of_ends {batches : List (List R)} {w t : World V} {result : SearchRunResult}
    (hfresh : Fresh w.1) (h : (runSearchModel search batches).Ends (searchInterp generation uuid) w t
      (some (.ok result))) : Settled search batches.flatten t.1 := by
  have hdescribed : Described search t.1 :=
    (safe_runSearchModel_described.sound h).2 result rfl
  -- the keys on which the store and the publication state disagree are half recorded
  set P : Set String := {k | w.1.state.lookup k ≠ (w.1.storeRow k).map search.stateValue} with hP
  have hrecorded : Recorded search w.1 P := ⟨hfresh, fun k => not_not⟩
  obtain ⟨P', hends⟩ := h.ghost (mark generation) P
  obtain ⟨-, hact⟩ := (safe_runSearchModel (s := (w, P)) hrecorded).sound hends
  obtain ⟨rows, c, hrows, hreconciled, hc, -⟩ := hact result rfl
  refine ⟨⟨c, hc, hdescribed c hc⟩, fun raw hraw row hrow => ?_, fun k hk => ?_⟩
  · obtain ⟨row', hrow', hok⟩ := hrows.exists_row hraw
    obtain rfl := Except.ok.inj (hrow.symm.trans hok)
    exact hreconciled.written row hrow'
  · exact hreconciled.gone k (hrows.recordIds ▸ hk)

/-! ### The publication right after it -/

/-- The resources read the rows alike, and record them under the same code version. -/
structure ReadsAlike (search search' : SearchModel R V) : Prop where
  codeVersion : search'.codeVersion = search.codeVersion
  descriptor : search'.spec.descriptor = search.spec.descriptor
  recordId : search'.recordId = search.recordId
  normalize : search'.normalize = search.normalize
  fingerprint : search'.fingerprint = search.fingerprint
  maxIdBytes : search'.maxIdBytes = search.maxIdBytes

theorem ReadsAlike.indexedRow (h : ReadsAlike search search') (raw : R) :
    indexedRow search' raw = indexedRow search raw := by
  simp only [Stel.Search.indexedRow, h.recordId, h.normalize, h.fingerprint, h.maxIdBytes]

theorem ReadsAlike.stateValue (h : ReadsAlike search search') (v : V) :
    search'.stateValue v = search.stateValue v := by
  rw [SearchModel.stateValue, SearchModel.stateValue, h.fingerprint, h.codeVersion]

theorem ReadsAlike.upstreamKeys (h : ReadsAlike search search') (upstream : List R) :
    upstreamKeys search' upstream = upstreamKeys search upstream := by
  rw [Stel.Search.upstreamKeys, Stel.Search.upstreamKeys, h.recordId]

/-- What is settled for a resource is settled for the other one, over the same rows. -/
theorem Settled.readsAlike {upstream upstream' : List R} {s : SearchData V}
    (h : Settled search upstream s) (halike : ReadsAlike search search')
    (hsame : upstream'.Perm upstream) : Settled search' upstream' s := by
  refine ⟨?_, fun raw hraw row hrow => ?_, fun k hk => h.gone k fun hmem => hk ?_⟩
  · rw [halike.descriptor]
    exact h.collection
  · rw [halike.stateValue]
    exact h.written raw (hsame.mem_iff.mp hraw) row ((halike.indexedRow raw).symm.trans hrow)
  · rw [halike.upstreamKeys]
    exact (hsame.filterMap _).mem_iff.mpr hmem

/-- The publication state and the collection are what they were. -/
def Still (w t : World V) : Prop :=
  t.1.state = w.1.state ∧ t.1.collection = w.1.collection

section Rerun

variable {w u : World V} {upstream : List R}

/-- The rule for an operation that replies without changing anything but the counters. -/
theorem safe_still {o : DataOp V} {Q : o.Ret → World V → Prop} (hu : Still w u)
    (h : ∀ r d, o.exec generation u.1 = (d, .ok r) → Still w (d, u.2) ∧ Q r (d, u.2)) :
    (data o).Safe (searchInterp generation uuid) (Still w) Q u := by
  cases hexec : o.exec generation u.1 with
  | mk d reply =>
    have hafter : (searchInterp generation uuid (.inl o) u) = ((d, u.2), reply) := by
      simp only [Interp.sum, hexec]
    cases reply with
    | error e =>
      obtain rfl := DataOp.exec_error generation hexec
      refine Prog.Safe.callOrRaise hu (by rw [hafter]; exact hu) fun r hr => ?_
      rw [hafter] at hr
      cases hr
    | ok r =>
      obtain ⟨hd, hQ⟩ := h r d hexec
      exact Prog.Safe.call hafter hu ⟨hd, hQ⟩

theorem safe_ledger_still {α : Type} {p : Coord α} (hu : Still w u) :
    (ledger p : SearchProg V α).Safe (searchInterp generation uuid) (Still w)
      (fun _ t => t.1 = u.1) u := by
  refine Prog.safe_frame (f := fun t : World V => t.1) (A := fun o => ∃ st, o = .inr st) ?_
    (Prog.calls_inr (Prog.calls_of_forall (fun st => ⟨st, rfl⟩) p)) fun t ht => ?_
  · rintro _ t ⟨st, rfl⟩
    rfl
  · unfold Still
    rw [ht]
    exact hu

theorem safe_setCounts_still {counts : Counts} (hu : Still w u) :
    (data (.setCounts counts)).Safe (searchInterp generation uuid) (Still w) (fun _ _ => True) u := by
  refine safe_still hu fun r d hexec => ?_
  simp only [DataOp.exec] at hexec
  cases hexec
  exact ⟨hu, trivial⟩

/-- A batch of records that are recorded is unchanged. -/
theorem classifyBatch_unchanged {prior : List (String × StateValue)} {codeVersion : String}
    {records : List UpstreamRecord} (h : ∀ r ∈ records,
      prior.lookup r.recordKey = some ⟨r.inputFingerprint, codeVersion⟩) :
    classifyBatch prior codeVersion false records = { unchanged := records } := by
  induction records with
  | nil => rfl
  | cons r records ih =>
    obtain ⟨hr, hrest⟩ := List.forall_mem_cons.mp h
    simp only [classifyBatch, hr, ih hrest]
    simp

/-- One batch of settled rows. -/
theorem safe_publishBatch_still (hw : Settled search upstream w.1) (hu : Still w u)
    {lease : PublishLease} {p : Progress} {batch : List R} (hbatch : ∀ raw ∈ batch, raw ∈ upstream) :
    (publishBatch search lease false p batch).Safe (searchInterp generation uuid) (Still w)
      (fun p' _ => p'.counts = { p.counts with skipped := p.counts.skipped + batch.length } ∧
        p'.rowsWritten = p.rowsWritten ∧ p'.collectionExists = p.collectionExists) u := by
  unfold publishBatch
  refine Prog.safe_ofExcept_bind hu fun indexed hok => ?_
  have hindexed := indexedRows_eq_ok.mp hok
  set records := indexed.map fun row => UpstreamRecord.mk row.recordId row.inputFingerprint with hrecords
  have hprior : (priorStateFor records : SearchProg V _).Safe (searchInterp generation uuid) (Still w)
      (fun prior _ => ∀ r ∈ records, prior.lookup r.recordKey = w.1.state.lookup r.recordKey) u := by
    unfold priorStateFor
    split
    · rename_i hnil
      exact ⟨hu, by simp [hnil]⟩
    · refine safe_still hu fun prior d hexec => ?_
      obtain ⟨rfl, rfl⟩ := exec_fetchStateSubset hexec
      refine ⟨hu, fun r hr => ?_⟩
      rw [StateTable.lookup_subset (List.mem_map_of_mem hr), hu.1]
  refine hprior.bind fun prior t ht hlookup => ?_
  have hunchanged : classifyBatch prior search.codeVersion false records = { unchanged := records } := by
    refine classifyBatch_unchanged fun r hr => ?_
    rw [hlookup r hr]
    obtain ⟨row, hrow, rfl⟩ := List.mem_map.mp hr
    obtain ⟨raw, hraw, hok⟩ := hindexed.exists_raw hrow
    rw [hw.written raw (hbatch raw hraw) row hok, SearchModel.stateValue, (indexedRow_eq_ok hok).2.2]
  simp only [hunchanged, List.nil_append, List.map_nil, List.not_mem_nil, decide_false,
    List.filter_false, if_true]
  refine (safe_setCounts_still ht).bind fun _ v hv _ => ⟨hv, ?_, rfl, rfl⟩
  rw [hrecords, List.length_map, hindexed.length_eq]

/-- The loop over the batches. -/
theorem safe_publishBatches_still (hw : Settled search upstream w.1) (hu : Still w u)
    {lease : PublishLease} {p : Progress} {batches : List (List R)}
    (hbatches : ∀ raw ∈ batches.flatten, raw ∈ upstream) (hcounts : p.counts = {})
    (hwritten : p.rowsWritten = 0) :
    (Prog.foldM (publishBatch search lease false) p batches).Safe (searchInterp generation uuid)
      (Still w) (fun p' _ => p'.counts = { skipped := batches.flatten.length } ∧ p'.rowsWritten = 0 ∧
        p'.collectionExists = p.collectionExists) u := by
  refine Prog.Safe.foldM (J := fun done (p' : Progress) _ => p'.counts = { skipped := done.flatten.length } ∧
    p'.rowsWritten = 0 ∧ p'.collectionExists = p.collectionExists) hu ⟨hcounts, hwritten, rfl⟩ ?_
  rintro done batch rest hdone p' t ht ⟨hcounts', hwritten', hexists'⟩
  have hbatch : ∀ raw ∈ batch, raw ∈ upstream := by
    intro raw hraw
    refine hbatches raw (List.mem_flatten.mpr ⟨batch, ?_, hraw⟩)
    rw [← hdone]
    exact List.mem_append_right _ List.mem_cons_self
  refine (safe_publishBatch_still hw ht hbatch).mono (fun _ h => h) ?_
  rintro p'' v - ⟨hcounts'', hwritten'', hexists''⟩
  refine ⟨?_, hwritten''.trans hwritten', hexists''.trans hexists'⟩
  rw [hcounts'', hcounts', List.flatten_append, List.flatten_singleton, List.length_append]

/-- No recorded key is stale. -/
theorem safe_publishStale_still (hw : Settled search upstream w.1) (hu : Still w u)
    {lease : PublishLease} {p : Progress} {keys : List String}
    (hkeys : ∀ k ∈ upstreamKeys search upstream, k ∈ keys) :
    (publishStale search lease p keys).Safe (searchInterp generation uuid) (Still w)
      (fun p' _ => p' = p) u := by
  have hnone : u.1.state.absentFrom keys = [] := by
    refine List.eq_nil_iff_forall_not_mem.mpr fun r hr => ?_
    obtain ⟨hlookup, hout⟩ := StateTable.mem_absentFrom.mp hr
    rw [hu.1, hw.gone _ fun hmem => hout (hkeys _ hmem)] at hlookup
    cases hlookup
  unfold publishStale
  refine Prog.Safe.bind (Q := fun snapshot _ => snapshot = []) (safe_still hu fun r d hexec => ?_) ?_
  · simp only [DataOp.exec] at hexec
    cases hexec
    exact ⟨hu, hnone⟩
  · rintro _ t ht rfl
    have hpages : iterStalePages search.nonce search.batchSize [] = ([], none) := by
      simp [iterStalePages, iterValidatedStatePages, fetchPage, duckdbFetch, rowsAfter,
        validateStateCursor, bind, Except.bind, pure, Except.pure]
    simp only [hpages]
    exact ⟨ht, rfl⟩

/-- The publication of a settled upstream changes nothing, however it ends. -/
theorem safe_publishUnderLease_still (hw : Settled search upstream w.1) (hu : Still w u)
    {lease : PublishLease} {batches : List (List R)} (hbatches : batches.flatten = upstream) :
    (publishUnderLease search lease batches).Safe (searchInterp generation uuid) (Still w)
      (fun result _ => result.2.counts = { skipped := upstream.length } ∧ result.2.rowsWritten = 0)
      u := by
  obtain ⟨c, hc, hdescriptor⟩ := hw.collection
  have hcheck : ∀ v, Still w v → (checkCollection search (some (c.metadata generation))).Safe
      (searchInterp generation uuid) (Still w) (fun _ t => v = t) v := by
    intro v hv
    have hverify : verifyCollectionConfig search (c.metadata generation) = .pure false := by
      unfold verifyCollectionConfig
      rw [show (c.metadata generation).descriptor = some search.spec.descriptor from hdescriptor]
      exact if_pos rfl
    unfold checkCollection
    simp only [hverify, Prog.pure_bind, Bool.false_eq_true, if_false]
    exact Prog.safe_ofExcept hv fun _ _ => rfl
  have hreconcile : (reconcile search lease batches).Safe (searchInterp generation uuid) (Still w)
      (fun result _ => result.2.counts = { skipped := upstream.length } ∧ result.2.rowsWritten = 0)
      u := by
    unfold reconcile
    refine Prog.Safe.bind (Q := fun existing t => existing = some (c.metadata generation))
      (safe_still hu fun r d hexec => ?_) ?_
    · simp only [DataOp.exec] at hexec
      cases hexec
      refine ⟨hu, ?_⟩
      rw [hu.2, hc]
      rfl
    rintro _ t ht rfl
    refine (hcheck t ht).bind fun _ v hv _ => ?_
    refine (safe_publishBatches_still hw hv (by rw [hbatches]; exact fun raw hraw => hraw) rfl
      rfl).bind fun p t₁ h₁ hp => ?_
    obtain ⟨hcounts, hwritten, hexists⟩ := hp
    refine (safe_publishStale_still hw h₁ (by rw [hbatches]; exact fun k hk => hk)).bind ?_
    rintro p t₂ h₂ rfl
    have hpresent : p.collectionExists = true := hexists
    rw [if_pos hpresent]
    refine Prog.Safe.bind (Q := fun _ _ => True) (safe_still h₂ fun r d hexec => ?_) fun _ t₃ h₃ _ =>
      ⟨h₃, by rw [hcounts, hbatches], hwritten⟩
    simp only [DataOp.exec, withCollection, h₂.2, hc] at hexec
    cases hexec
    exact ⟨⟨h₂.1, hc.symm⟩, trivial⟩
  unfold publishUnderLease publishCollection
  refine Prog.Safe.bind (Q := fun result _ => result.2.counts = { skipped := upstream.length } ∧
    result.2.rowsWritten = 0) (hreconcile.bind fun result t ht hQ => ?_) fun result t ht hQ => ?_
  · dsimp only
    split
    · exact ht
    · split
      · exact ht
      · exact ⟨ht, hQ⟩
  · exact (safe_ledger_still ht).bind fun _ v hv _ => ⟨hv, hQ⟩

/-- **A publication of a settled upstream.** It neither revokes nor upserts a row, nor records one,
however it ends, and if it returns then it has seen every row unchanged. -/
theorem safe_rerun (hw : Settled search upstream w.1) {batches : List (List R)}
    (hbatches : batches.flatten = upstream) :
    (runSearchModel search batches).Safe (searchInterp generation uuid) (Still w)
      (fun result _ => result.counts = { skipped := upstream.length } ∧ result.rowsWritten = 0) w := by
  have hself : Still w w := ⟨rfl, rfl⟩
  unfold runSearchModel acquireLease
  refine Prog.Safe.bind (Q := fun _ _ => True) ?_ fun lease t ht _ => Prog.Safe.tryCatch ?_ fun e u hu => ?_
  · refine (safe_ledger_still hself).bind fun _ t₁ h₁ _ => (safe_setCounts_still h₁).bind
      fun _ t₂ h₂ _ => Prog.Safe.tryCatch ?_ fun e t ht => ht
    refine Prog.safe_ofExcept_bind h₂ fun _ _ => ?_
    exact (safe_ledger_still h₂).mono (fun _ h => h) fun _ _ _ _ => trivial
  · refine (safe_publishUnderLease_still hw ht hbatches).bind fun result v hv hQ => ?_
    exact (safe_ledger_still hv).bind fun _ v' hv' _ => ⟨hv', hQ⟩
  · unfold failPublication
    split
    · refine Prog.Safe.bind (Q := fun _ _ => True) (safe_still hu fun r d hexec => ?_) fun _ v hv _ =>
        (safe_ledger_still hv).bind fun _ v' hv' _ => hv'
      simp only [DataOp.exec] at hexec
      cases hexec
      exact ⟨hu, trivial⟩
    · exact hu

end Rerun

/-! ### Configurations with other settings -/

section Tuned

variable {d : Deployment R V} {c : SearchConfig} {t t' : Tuning}

/-- The two configurations share their index: its fingerprint and its descriptor, the code version,
and a publication with the second right after one with the first over the same upstream. -/
structure NonSemantic (d : Deployment R V) (generation : Generation) (uuid : ℕ → String)
    (c c' : SearchConfig) : Prop where
  fingerprint : d.fingerprint c = d.fingerprint c'
  changes : classifyDescriptorChanges d.env (d.descriptor c).members (d.descriptor c').members = .ok []
  codeVersion : d.codeVersion c = d.codeVersion c'
  rerun : ∀ (fp fp' : String) (h : 0 < c.batchSize ∧ c.batchSize ≤ maxStateSubsetKeys)
    (h' : 0 < c'.batchSize ∧ c'.batchSize ≤ maxStateSubsetKeys) (batches batches' : List (List R))
    (w₀ w₁ w₂ : World V) (result : SearchRunResult) (out : Option (Except Failure SearchRunResult)),
    d.fingerprint c = .ok fp → d.fingerprint c' = .ok fp' → Fresh w₀.1 →
    (runSearchModel (d.resource c fp h) batches).Ends (searchInterp generation uuid) w₀ w₁
      (some (.ok result)) →
    batches'.flatten.Perm batches.flatten →
    (runSearchModel (d.resource c' fp' h') batches').Ends (searchInterp generation uuid) w₁ w₂ out →
    Still w₁ w₂ ∧ ∀ result', out = some (.ok result') →
      result'.counts = { skipped := batches.flatten.length } ∧ result'.rowsWritten = 0

/-- Resources of configurations with equal settings read the rows alike. -/
theorem readsAlike_tuned {fp : String}
    (h : 0 < (c.tuned t).batchSize ∧ (c.tuned t).batchSize ≤ maxStateSubsetKeys)
    (h' : 0 < (c.tuned t').batchSize ∧ (c.tuned t').batchSize ≤ maxStateSubsetKeys)
    (hcode : d.codeVersion (c.tuned t) = d.codeVersion (c.tuned t')) :
    ReadsAlike (d.resource (c.tuned t) fp h) (d.resource (c.tuned t') fp h') where
  codeVersion := hcode.symm
  descriptor := by
    show d.descriptorJson _ = d.descriptorJson _
    rw [collectionDescriptor_tuned, collectionDescriptor_tuned]
  recordId := rfl
  normalize := rfl
  fingerprint := rfl
  maxIdBytes := rfl

/-- **Settings that only pace a publication.** Two configurations that differ in them share their index
exactly if the settings are equal, where the digest of the code version does not collide: their
fingerprints and descriptors are the same in any case, and their code versions are not. -/
theorem nonSemantic_tuned_iff (d : Deployment R V) (generation : Generation) (uuid : ℕ → String)
    (c : SearchConfig) (t t' : Tuning)
    (hfree : d.blake2b 16 (canonicalBytes (d.codePayload (c.tuned t))) =
      d.blake2b 16 (canonicalBytes (d.codePayload (c.tuned t'))) →
      canonicalBytes (d.codePayload (c.tuned t)) = canonicalBytes (d.codePayload (c.tuned t'))) :
    NonSemantic d generation uuid (c.tuned t) (c.tuned t') ↔ t.Same t' := by
  constructor
  · intro h
    exact (codeVersion_tuned_iff hfree).mp h.codeVersion
  · intro h
    have hcode := (codeVersion_tuned_iff hfree).mpr h
    refine ⟨fingerprint_tuned.trans fingerprint_tuned.symm, classifyDescriptorChanges_tuned, hcode, ?_⟩
    intro fp fp' hbatch hbatch' batches batches' w₀ w₁ w₂ result out hfp hfp' hfresh hfirst hperm hsecond
    obtain rfl : fp = fp' :=
      Except.ok.inj (hfp.symm.trans ((fingerprint_tuned.trans fingerprint_tuned.symm).trans hfp'))
    have hsettled := (settled_of_ends hfresh hfirst).readsAlike
      (readsAlike_tuned hbatch hbatch' hcode) hperm
    obtain ⟨hstill, hresult⟩ := (safe_rerun hsettled rfl).sound hsecond
    refine ⟨hstill, fun result' hout => ?_⟩
    rw [← hperm.length_eq]
    exact hresult result' hout

end Tuned

/-! ### A publication in smaller batches -/

/-- A search resource over guides, with the digests as a parameter. -/
def guidesWith (blake2b : ℤ → List UInt8 → List UInt8) : Deployment (String × String) String where
  scope := ⟨"guides_search", "retrieval_publish", "guides"⟩
  store := ⟨"lancedb", "dbt_ml.retrieval.lancedb:v1:lancedb-0.25.0"⟩
  identity := none
  dependsOn := ["guides"]
  fields := []
  physicalName := "docs__dev__guides"
  upstreamColumns := [("id", "string"), ("body", "string")]
  nonce := "nonce"
  maxIdBytes := none
  blake2b := blake2b
  reprFloat := fun _ => ""
  env := ⟨fun _ => none, fun _ => ""⟩
  loads := fun _ => []
  descriptorJson := fun descriptor => (canonicalValue descriptor).dumps
  legacyFingerprint := fun payload => (canonicalValue (pyDict payload)).dumps
  cell := fun field row => if field = "id" then .string row.1 else .string row.2
  normalize := fun _ _ _ _ row => .ok row.2
  rowFingerprint := fun config body => config ++ ":" ++ body

/-- Its configuration. -/
def guide : SearchConfig where
  idField := "id"
  documentIdField := none
  textFields := ["body"]
  fullText := some ["body"]
  modes := [.text]

/-- The payload of its code version. -/
def guidePayload (batchSize : ℕ) : PyValue :=
  (guidesWith fun _ _ => []).codePayload (guide.tuned { batchSize := batchSize })

/-- The digests of the payloads and of the descriptor. -/
def guideDigests : List (List UInt8 × List UInt8) :=
  [(canonicalBytes (guidePayload 2),
      [32, 88, 237, 143, 112, 17, 142, 60, 28, 216, 124, 217, 64, 76, 134, 176]),
    (canonicalBytes (guidePayload 1),
      [86, 204, 200, 192, 218, 72, 204, 17, 238, 71, 144, 89, 17, 30, 228, 43])] ++
  knownInputs "dbt-ml-search-collection-config"
    [(collectionDescriptor (guidesWith fun _ _ => []).store (guide.effective none),
      [23, 103, 86, 110, 222, 86, 159, 205, 238, 21, 18, 169, 188, 38, 5, 136])]

/-- The search resource over guides. -/
def guides : Deployment (String × String) String := guidesWith (knownDigest guideDigests)

theorem guidePayload_ne : canonicalBytes (guidePayload 1) ≠ canonicalBytes (guidePayload 2) := by
  rw [Ne, canonicalBytes_eq_iff, ← canonicalValue_eq_iff]
  intro h
  have hsame := canonicalValue_codePayload_iff.mp h
  exact absurd hsame.batchSize (by decide)

theorem blake2b_guides (input : List UInt8) :
    guides.blake2b 16 input = (guideDigests.lookup input).getD input := rfl

theorem blake2b_guidePayload_two : guides.blake2b 16 (canonicalBytes (guidePayload 2)) =
    [32, 88, 237, 143, 112, 17, 142, 60, 28, 216, 124, 217, 64, 76, 134, 176] := by
  rw [blake2b_guides, guideDigests, List.cons_append, List.lookup_cons_self, Option.getD_some]

theorem blake2b_guidePayload_one : guides.blake2b 16 (canonicalBytes (guidePayload 1)) =
    [86, 204, 200, 192, 218, 72, 204, 17, 238, 71, 144, 89, 17, 30, 228, 43] := by
  rw [blake2b_guides, guideDigests, List.cons_append, List.lookup_cons,
    beq_eq_false_iff_ne.mpr guidePayload_ne, List.cons_append]
  simp only [List.lookup_cons_self, Option.getD_some]

/-- A publication in batches of one row instead of two does not share the index. -/
theorem nonSemantic_tuned_batchSize : ¬ NonSemantic guides sampleGeneration sampleUuid
    (guide.tuned { batchSize := 2 }) (guide.tuned { batchSize := 1 }) := by
  intro h
  have hsame := (nonSemantic_tuned_iff guides sampleGeneration sampleUuid guide { batchSize := 2 }
    { batchSize := 1 } fun hdigest => absurd
      ((blake2b_guidePayload_two.symm.trans hdigest).trans blake2b_guidePayload_one) (by decide)).mp h
  exact absurd hsame.batchSize (by decide)

/-- The batch size is in the code version. -/
theorem batchSize_changes_codeVersion :
    guides.codeVersion (guide.tuned { batchSize := 2 }) = "2058ed8f70118e3c1cd87cd9404c86b0" ∧
    guides.codeVersion (guide.tuned { batchSize := 1 }) = "56ccc8c0da48cc11ee479059111ee42b" ∧
    ¬ NonSemantic guides sampleGeneration sampleUuid (guide.tuned { batchSize := 2 })
      (guide.tuned { batchSize := 1 }) := by
  have htwo : guides.codeVersion (guide.tuned { batchSize := 2 }) =
      "2058ed8f70118e3c1cd87cd9404c86b0" :=
    (congrArg hex blake2b_guidePayload_two).trans (by decide)
  have hone : guides.codeVersion (guide.tuned { batchSize := 1 }) =
      "56ccc8c0da48cc11ee479059111ee42b" :=
    (congrArg hex blake2b_guidePayload_one).trans (by decide)
  refine ⟨htwo, hone, fun h => ?_⟩
  have heq := (htwo.symm.trans h.codeVersion).trans hone
  exact absurd heq (by decide)

end Stel.Search
