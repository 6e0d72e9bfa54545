import Stel.Execution.LlmSync
import Stel.Data.Encoding

/-!
# Interrupted runs of a generation model

With one output row for each record, an incremental run writes its rows, deletes removed ids and
advances its state in three operations; with many rows it does so in two. A run that dies in between
leaves rows under another value than the recorded one, or rows of an id that is not recorded.

## Main definitions

* `LlmFaults`: sequences of runs that may be interrupted.
* `LlmMatches`: the rows of the current records, and no others.

## Main results

* `safe_llm_run`: a run keeps the target described, and ends with every record current.
* `llm_rows_current`: a run that completes leaves the current rows if every key is settled.
* `reverted_row_skipped`: a run that dies before it advances its state.
-/

namespace Stel.Execution

open Stel.Warehouse

section Run

variable {env : LlmEnv} {model : LlmModel} {rt : LlmMapRuntime} {assign : Assignment}
  {idType generatedAt table : String} {source : Frame} {ids : List String} {output : Frame}
  {s : Target × StateTable}

/-! ### Publication -/

/-- The upstream is accepted, and the state and the ghost table have its current values. -/
structure LlmCurrent (env : LlmEnv) (model : LlmModel) (rt : LlmMapRuntime) (source : Frame)
    (s : Target × StateTable) : Prop where
  valid : validateLlmInput model source = .ok ()
  accepted : ∃ ids, llmRecordIds model source = .ok ids
  written : ∀ d, s.2.lookup d = llmCurrent env model rt source d
  state : ∀ d, s.1.state.lookup d = llmCurrent env model rt source d

/-- The rule for the deletion of removed ids. -/
theorem safe_deleteRemovedIds {records : List StateRecord} {C : Target × StateTable → Prop}
    {idField : String} {removed : List String} {cells : List Cell} (hs : C s)
    (h : ∀ result, deleteRows idField cells s.1.table = .ok result →
      C (⟨result, s.1.state.delete removed⟩, s.2.delete removed)) :
    (if removed = [] then .pure () else do
      let _ ← Prog.perform (TargetOp.deleteRowsAndState idField cells removed)
      return () : TargetProg Unit).Safe (ghostExec assign table records) C
      (fun _ t => t.2 = s.2.delete removed ∧ t.1.state = s.1.state.delete removed) s := by
  split
  · rename_i hnone
    subst hnone
    exact ⟨hs, rfl, rfl⟩
  · refine safe_call hs fun t r hop => ?_
    obtain ⟨htable, hstate⟩ := exec_deleteRowsAndState hop
    have ht : t = ⟨t.table, s.1.state.delete removed⟩ := by rw [← hstate]
    have hC := h _ htable
    rw [← ht] at hC
    exact ⟨hC, rfl, hstate⟩

/-- The rule for the advance of the state. -/
theorem safe_advanceState {records advanced : List StateRecord} {C : Target × StateTable → Prop} (hs : C s)
    (h : C (⟨s.1.table, s.1.state.upsert advanced⟩, s.2)) :
    (advanceState advanced).Safe (ghostExec assign table records) C
      (fun _ t => t = (⟨s.1.table, s.1.state.upsert advanced⟩, s.2)) s := by
  unfold advanceState
  split
  · rename_i hnone
    subst hnone
    exact ⟨hs, rfl⟩
  · refine safe_perform hs fun v r hop => ?_
    obtain ⟨-, -, hv⟩ := bind_eq_ok.mp (Target.commit_ok hop)
    obtain ⟨rfl, -⟩ := Prod.mk.inj (Except.ok.inj hv)
    exact ⟨h, rfl⟩

section Publish

variable (m : LlmMade env model rt assign idType generatedAt source ids s.1.state output)
  (hsync : LlmSynced env model assign idType s.1.table s.2)
include m hsync

/-- The removed ids with rows after a replacement have id values in the target before it. -/
theorem LlmMade.named_removed {keys stored result}
    (hreplaced : Replaced assign model.idField keys (llmKeyCol model) output model.onSchemaChange
      s.1.table result stored) {d : String}
    (hd : d ∈ (s.1.state.keys.filter (· ∉ ids)).insertionSort (· ≤ ·))
    (hrows : rowsAt model.idField (rowsOf result) d ≠ []) :
    existingIdValue model s.1.table d ≠ none := by
  refine existingIdValue_ne_none hsync (m.rows_of_removed hsync hreplaced (fun hin => ?_) hrows)
  rw [List.mem_insertionSort, List.mem_filter, decide_eq_true_iff] at hd
  obtain ⟨item, hitem, rfl⟩ := List.mem_map.mp hin
  obtain ⟨d, record, hmem, -, rfl⟩ := mem_llmWork.mp hitem
  exact hd.2 ((mem_requireIds m.accepted).mpr ⟨record, hmem⟩)

/-- An incremental publication. -/
theorem LlmMade.safe_publish (hwhen : model.updateWhenChanged = [])
    (hsettled : ∀ d, Settled s.2 s.1.state (llmCurrent env model rt source) d) :
    (publishLlm model false (llmWork env model rt s.1.state (ids.zip source.rows)) output
      ((llmWork env model rt s.1.state (ids.zip source.rows)).map (llmRecord env model rt))
      ((s.1.state.keys.filter (· ∉ ids)).insertionSort (· ≤ ·))
      (((s.1.state.keys.filter (· ∉ ids)).insertionSort (· ≤ ·)).filterMap
        (existingIdValue model s.1.table))).Safe
      (ghostExec assign table (llmRecords env model rt source s.1.state))
      (fun x => LlmSynced env model assign idType x.1.table x.2)
      (fun _ x => LlmCurrent env model rt source x) s := by
  have hclassified := @llm_classified env model rt _ _ s.1.state m.accepted
  have hwidth : output.schema = [] → output.rows = [] := fun hnil => by
    have hschema := m.schema
    rw [hnil] at hschema
    cases hschema
  have hrecords := @llmRecords_eq env model rt _ _ s.1.state m.accepted
  rw [publishLlm, if_neg Bool.false_ne_true]
  split
  · -- the children and their state in one operation, then the removed ids
    rw [Prog.perform_bind]
    refine safe_call hsync fun t n hop => ?_
    obtain ⟨-, hreplace, hstate⟩ := exec_replaceChildren hop
    obtain ⟨stored, hreplaced⟩ := replaceChildren_eq_ok hwidth hreplace
    have hsynced := m.synced_replaced hsync hreplaced (.inl rfl)
    refine (safe_deleteRemovedIds hsynced fun result hdel =>
      hsynced.delete (fun d hd hrows => m.named_removed hsync hreplaced hd hrows) hdel).bind ?_
    rintro _ x hC ⟨hwritten, hstate'⟩
    refine ⟨hC, m.valid, ⟨ids, m.accepted⟩, fun d => ?_, fun d => ?_⟩
    · rw [hwritten]
      exact lookup_delete_upsert hclassified hsettled d
    · rw [hstate', hstate]
      exact lookup_delete_upsert hclassified settled_self d
  · -- the rows, the removed ids, and then the state
    rename_i hmany
    have hone : model.many = false := Bool.eq_false_iff.mpr hmany
    refine Prog.Safe.bind (Q := fun _ (x : Target × StateTable) => x.1.state = s.1.state ∧
      x.2 = s.2.upsert ((llmWork env model rt s.1.state (ids.zip source.rows)).map
        (llmRecord env model rt)) ∧ ∀ d ∈ (s.1.state.keys.filter (· ∉ ids)).insertionSort (· ≤ ·),
          rowsAt model.idField (rowsOf x.1.table) d ≠ [] →
            existingIdValue model s.1.table d ≠ none) ?_ ?_
    · unfold writeOutput
      split
      · rename_i hempty
        have hnone : llmWork env model rt s.1.state (ids.zip source.rows) = [] := by
          refine List.eq_nil_iff_forall_not_mem.mpr fun item hitem => ?_
          obtain ⟨row, hrow, -⟩ := m.exists_row hone hitem
          rw [hempty] at hrow
          cases hrow
        rw [hnone]
        exact ⟨hsync, rfl, rfl, fun d _ => existingIdValue_ne_none hsync⟩
      · refine safe_perform (C := fun x => LlmSynced env model assign idType x.1.table x.2) hsync
          fun t n hop => ?_
        obtain ⟨target, hmaterialize, ht⟩ := bind_eq_ok.mp (Target.commit_ok hop)
        obtain ⟨rfl, -⟩ := Prod.mk.inj (Except.ok.inj ht)
        have hkey : llmKeyCol model = model.idField := if_neg hmany
        rw [hwhen] at hmaterialize
        obtain ⟨stored, hreplaced⟩ := materializeIncremental_eq_ok hwidth hmaterialize
        have hid : Replaced assign model.idField [] (llmKeyCol model) output model.onSchemaChange
            s.1.table target stored := by
          rw [hkey] at hreplaced ⊢
          exact hreplaced
        have hsynced := m.synced_replaced hsync hid (.inr ⟨rfl, hone⟩)
        rw [TargetOp.recorded, hrecords]
        exact ⟨hsynced, rfl, rfl, fun d hd hrows => m.named_removed hsync hid hd hrows⟩
    rintro n ⟨t, written⟩ hC ⟨hstate, rfl, hnamed⟩
    refine (safe_deleteRemovedIds hC fun result hdel => hC.delete hnamed hdel).bind ?_
    rintro _ ⟨u, written⟩ hC ⟨rfl, hstate'⟩
    have hwritten := lookup_delete_upsert hclassified hsettled
    have hdone := lookup_upsert_delete hclassified settled_self
    refine (safe_advanceState (C := fun x => LlmSynced env model assign idType x.1.table x.2) hC hC).bind ?_
    rintro _ _ hC rfl
    refine ⟨hC, m.valid, ⟨ids, m.accepted⟩, hwritten, fun d => ?_⟩
    rw [hstate', hstate]
    exact hdone d

end Publish

/-! ### Runs -/

/-- The state on which a run decides what it processes. -/
def llmPrior (model : LlmModel) (fullRefresh : Bool) (s : Target) : StateTable :=
  if model.incremental && !fullRefresh && s.table.isSome then s.state else ∅

/-- The state records of a run that starts in the given state. -/
def llmRunRecords (env : LlmEnv) (model : LlmModel) (resolved : Except String LlmMapRuntime)
    (fullRefresh : Bool) (source : Frame) (s : Target) : List StateRecord :=
  match resolved with
  | .ok rt => llmRecords env model rt source (llmPrior model fullRefresh s)
  | .error _ => []

/-- Every key of an incremental run of an existing target is settled when the run starts. -/
def LlmSettled (env : LlmEnv) (model : LlmModel) (resolved : Except String LlmMapRuntime)
    (source : Frame) (s : Target × StateTable) : Prop :=
  s.1.table ≠ none → ∀ rt, resolved = .ok rt →
    ∀ d, Settled s.2 s.1.state (llmCurrent env model rt source) d

variable {resolved : Except String LlmMapRuntime} {budget : LlmBudget} {fullRefresh : Bool}

/-- The calls and the publication of a run. -/
theorem safe_finish (hrt : env.Reliable model assign idType)
    (hdistinct : model.rowIdField ≠ model.ordinalField) (hwhen : model.updateWhenChanged = [])
    (htyped : TypedIds env model idType source) (hvalid : validateLlmInput model source = .ok ())
    (hids : llmRecordIds model source = .ok ids) (hsync : LlmSynced env model assign idType s.1.table s.2)
    {prior : StateTable} {existing : Option Frame} (useFull : Bool)
    (hfull : useFull = true → prior = ∅)
    (hincremental : useFull = false → prior = s.1.state ∧ existing = s.1.table ∧
      ∀ d, Settled s.2 s.1.state (llmCurrent env model rt source) d) :
    (finishLlm env model rt budget generatedAt source ids useFull prior existing).Safe
      (ghostExec assign table (llmRecords env model rt source prior))
      (fun x => LlmSynced env model assign idType x.1.table x.2)
      (fun result x => result.status = none → LlmCurrent env model rt source x) s := by
  have htype : (source.schema.lookup model.idField).getD "" = idType := by
    obtain ⟨type, htype⟩ := exists_lookup_of_mem (validateLlmInput_eq_ok hvalid).1
    rw [htype]
    exact (htyped type htype).1
  simp only [finishLlm, htype]
  split
  · exact ⟨hsync, nofun⟩
  · exact hsync
  rename_i generated hgenerated
  refine Prog.safe_ofExcept_bind hsync fun output houtput => ?_
  obtain ⟨hschema, hrows⟩ := llmOutputFrame_eq_ok houtput
  have m : LlmMade env model rt assign idType generatedAt source ids prior output :=
    ⟨hrt, hdistinct, htyped, hvalid, hids, hschema, generated, generate_eq_ok hgenerated, hrows⟩
  refine (safe_asRunError (Q := fun _ x => LlmCurrent env model rt source x) ?_).bind
    fun _ _ hC hQ => ⟨hC, fun _ => hQ⟩
  cases useFull with
  | true =>
    obtain rfl := hfull rfl
    rw [publishLlm, if_pos rfl]
    simp only [Prog.perform_bind]
    have hrecords : (llmWork env model rt ∅ (ids.zip source.rows)).map (llmRecord env model rt) =
        llmRecords env model rt source ∅ := (llmRecords_eq hids).symm
    have hsynced := m.synced_full
    rw [hrecords] at hsynced
    exact safe_rebuild (C := fun x => LlmSynced env model assign idType x.1.table x.2) hrecords
      hsync (fun _ => hsynced) fun _ n =>
        ⟨hsynced, hvalid, ⟨ids, hids⟩, fun _ => rfl, fun _ => rfl⟩
  | false =>
    obtain ⟨rfl, rfl, hsettled⟩ := hincremental rfl
    exact m.safe_publish hsync hwhen hsettled

/-- A run keeps the target described at every point, and when it completes the target and the state
are current. -/
theorem safe_llm_run (hrt : env.Reliable model assign idType)
    (hdistinct : model.rowIdField ≠ model.ordinalField) (hwhen : model.updateWhenChanged = [])
    (hincremental : model.incremental = true) (htyped : TypedIds env model idType source)
    (hsync : LlmSynced env model assign idType s.1.table s.2)
    (hsettled : fullRefresh = false → LlmSettled env model resolved source s) :
    (runLlmModel env model resolved budget fullRefresh generatedAt source).Safe
      (ghostExec assign table (llmRunRecords env model resolved fullRefresh source s.1))
      (fun x => LlmSynced env model assign idType x.1.table x.2)
      (fun result x => result.status = none →
        ∃ rt, resolved = .ok rt ∧ LlmCurrent env model rt source x) s := by
  rw [runLlmModel]
  refine Prog.safe_ofExcept_bind hsync fun _ hvalid => ?_
  cases resolved with
  | error text => exact hsync
  | ok rt =>
  refine Prog.safe_ofExcept_bind hsync fun _ hrun => ?_
  obtain rfl := Except.ok.inj hrun
  refine Prog.safe_ofExcept_bind hsync fun ids hids => ?_
  rw [Prog.perform_bind]
  refine safe_read rfl rfl hsync ?_
  have hdone : ∀ (result : LlmResult) (x : Target × StateTable),
      (result.status = none → LlmCurrent env model rt source x) →
        result.status = none → ∃ rt', Except.ok (ε := String) rt = .ok rt' ∧
          LlmCurrent env model rt' source x := fun _ _ h hnone => ⟨rt, rfl, h hnone⟩
  by_cases hfull : (model.incremental && !fullRefresh && s.1.table.isSome) = true
  · rw [if_pos hfull, Prog.perform_bind]
    simp only [hincremental, Bool.true_and, Bool.and_eq_true, Bool.not_eq_true'] at hfull
    refine safe_read rfl rfl hsync ?_
    rw [Prog.perform_bind]
    refine safe_call hsync fun t existing hop => ?_
    obtain ⟨target, htarget⟩ := Option.isSome_iff_exists.mp hfull.2
    have hread := Target.commit_ok hop
    simp only [htarget] at hread
    obtain ⟨rfl, rfl⟩ := Prod.mk.inj (Except.ok.inj hread)
    have hprior : llmPrior model fullRefresh s.1 = s.1.state := by
      simp [llmPrior, hincremental, hfull.1, hfull.2]
    rw [llmRunRecords, hprior]
    exact (safe_finish hrt hdistinct hwhen htyped hvalid hids hsync false nofun fun _ =>
      ⟨rfl, htarget.symm, hsettled hfull.1 (by simp [htarget]) rt rfl⟩).mono (fun _ h => h)
        fun result x _ h => hdone result x h
  · have hprior : llmPrior model fullRefresh s.1 = ∅ := if_neg hfull
    rw [if_neg hfull, llmRunRecords, hprior]
    exact (safe_finish hrt hdistinct hwhen htyped hvalid hids hsync true (fun _ => rfl) nofun).mono
      (fun _ h => h) fun result x _ h => hdone result x h

/-! ### Histories -/

/-- A sequence of runs of a model over any frames and configurations and under any budgets, any of
which may die between two operations, and whose incremental runs start with every key settled. -/
inductive LlmFaults (env : LlmEnv) (model : LlmModel) (assign : Assignment) (idType table : String) :
    Target × StateTable → Prop
  | start : LlmFaults env model assign idType table ({}, ∅)
  | run (resolved : Except String LlmMapRuntime) (budget : LlmBudget) (fullRefresh : Bool)
      (generatedAt : String) (source : Frame) {s t out}
      (h : LlmFaults env model assign idType table s) (htyped : TypedIds env model idType source)
      (hsettled : fullRefresh = false → LlmSettled env model resolved source s)
      (hends : (runLlmModel env model resolved budget fullRefresh generatedAt source).Ends
        (ghostExec assign table (llmRunRecords env model resolved fullRefresh source s.1)) s t out) :
      LlmFaults env model assign idType table t

/-- The target rows of every upstream row are those that its content gives under the configuration,
at the time of some run, and every target row belongs to an upstream row. -/
structure LlmMatches (env : LlmEnv) (model : LlmModel) (rt : LlmMapRuntime) (assign : Assignment)
    (idType : String) (source : Frame) (existing : Option Frame) : Prop where
  rows : ∀ record ∈ source.rows, ∀ d, (record model.idField).text = some d →
    ∃ generatedAt fields rows,
      executeMapItem env model rt (llmContent model record) = .ok fields ∧
      llmFrameRows env model rt idType generatedAt (llmWorkOf env model (d, record)) fields =
        some rows ∧
      Multiset.Rel (StoredAsWritten assign model.onSchemaChange (schemaOf existing)) rows
        (rowsAt model.idField (rowsOf existing) d)
  owned : ∀ row ∈ rowsOf existing, ∃ record ∈ source.rows, ∃ d,
    (record model.idField).text = some d ∧ (row model.idField).text = some d

/-- What a record emitted under its current state value is what it gives now. -/
theorem current_of_emits (hrt : env.Reliable model assign idType) {d : String} {record : Row}
    {rows : List Row} (hid : (record model.idField).text = some d)
    (htyped : env.cast idType (record model.idField) = some (record model.idField))
    (h : (llmEmission env model assign idType).Emits d (llmState env model rt record) rows) :
    ∃ generatedAt fields, executeMapItem env model rt (llmContent model record) = .ok fields ∧
      llmFrameRows env model rt idType generatedAt (llmWorkOf env model (d, record)) fields =
        some rows := by
  obtain ⟨rt', generatedAt, item, rfl, hvalue, hemits⟩ := h
  obtain ⟨hfingerprint, hversion⟩ := StateValue.mk.inj hvalue
  obtain rfl := hrt.codeVersion_inj hversion
  rw [hemits.fingerprint] at hfingerprint
  have hcontent : llmContent model record = item.content := hrt.inputFingerprint_inj hfingerprint
  have hvalue : record model.idField = item.idValue :=
    hrt.id_inj htyped hemits.typed (hid.trans hemits.id.symm)
  have hitem : llmWorkOf env model (item.recordId, record) = item := by
    obtain ⟨recordId, idValue, inputFingerprint, content⟩ := item
    simp only [llmWorkOf, LlmWork.mk.injEq, true_and]
    exact ⟨hvalue, hcontent ▸ hemits.fingerprint.symm, hcontent⟩
  obtain ⟨fields, hfields, hrows⟩ := hemits.made
  rw [hitem, hcontent]
  exact ⟨generatedAt, fields, hfields, hrows⟩

/-- A current target has the rows of its records. -/
theorem LlmCurrent.matches (hrt : env.Reliable model assign idType)
    (htyped : TypedIds env model idType source)
    (hsync : LlmSynced env model assign idType s.1.table s.2)
    (hcurrent : LlmCurrent env model rt source s) :
    LlmMatches env model rt assign idType source s.1.table := by
  obtain ⟨ids, hids⟩ := hcurrent.accepted
  have hown := (requireIds_zip hids).2.2
  refine ⟨fun record hrecord d hd => ?_, fun row hrow => ?_⟩
  · obtain ⟨d', hmem⟩ := exists_id_of_mem hids hrecord
    obtain rfl : d' = d := Option.some.inj ((hown d' record hmem).symm.trans hd)
    have hlookup := (hcurrent.written d').trans (llmCurrent_of_mem hids hmem)
    obtain ⟨rows, hemits, hrel⟩ := hsync.describes.held _ _ hlookup
    obtain ⟨type, htype⟩ := exists_lookup_of_mem (validateLlmInput_eq_ok hcurrent.valid).1
    obtain ⟨generatedAt, fields, hfields, hrows⟩ :=
      current_of_emits hrt hd ((htyped type htype).2 record hrecord) hemits
    exact ⟨generatedAt, fields, rows, hfields, hrows, hrel.mono fun _ _ _ _ hkeep => hkeep.stores⟩
  · obtain ⟨d, hd⟩ : ∃ d, (row model.idField).text = some d := hsync.describes.owned row hrow
    have hin : d ∈ ids := by
      by_contra hout
      have hlookup := (hcurrent.written d).trans (llmCurrent_of_notMem hids hout)
      exact List.ne_nil_of_mem (mem_rowsAt.mpr ⟨hrow, hd⟩) (hsync.describes.absent d hlookup)
    obtain ⟨record, hmem⟩ := (mem_requireIds hids).mp hin
    exact ⟨record, (List.of_mem_zip hmem).2, d, hown d record hmem, hd⟩

/-- Every sequence of runs keeps the target described. -/
theorem LlmFaults.synced (hrt : env.Reliable model assign idType)
    (hdistinct : model.rowIdField ≠ model.ordinalField) (hwhen : model.updateWhenChanged = [])
    (hincremental : model.incremental = true) (h : LlmFaults env model assign idType table s) :
    LlmSynced env model assign idType s.1.table s.2 := by
  induction h with
  | start => exact ⟨Emission.describes_empty, nofun, fun _ => nofun⟩
  | run resolved budget fullRefresh generatedAt source _ htyped hsettled hends ih =>
    exact ((safe_llm_run hrt hdistinct hwhen hincremental htyped ih hsettled).sound hends).1

/-- **Settled keys are never skipped out of date.** Any run of the history may have been refused,
stopped by its budget or interrupted between two operations. If every incremental run on an
existing target starts with each key settled, one that completes leaves for each upstream row
exactly the rows that its content gives under the configuration, and no other rows. -/
theorem llm_rows_current (hrt : env.Reliable model assign idType)
    (hdistinct : model.rowIdField ≠ model.ordinalField) (hwhen : model.updateWhenChanged = [])
    (hincremental : model.incremental = true) (hs : LlmFaults env model assign idType table s)
    (htyped : TypedIds env model idType source)
    (hsettled : fullRefresh = false → LlmSettled env model resolved source s)
    {t : Target} {result : LlmResult} (hresult : result.status = none)
    (hends : (runLlmModel env model resolved budget fullRefresh generatedAt source).Ends
      (TargetOp.exec assign table) s.1 t (some (.ok result))) :
    ∃ rt, resolved = .ok rt ∧ LlmMatches env model rt assign idType source t.table := by
  obtain ⟨written, hends⟩ := hends.ghost
    (wrote assign table (llmRunRecords env model resolved fullRefresh source s.1)) s.2
  obtain ⟨hsync, hdone⟩ := (safe_llm_run hrt hdistinct hwhen hincremental htyped
    (hs.synced hrt hdistinct hwhen hincremental) hsettled).sound hends
  obtain ⟨rt, hresolved, hcurrent⟩ := hdone result rfl hresult
  exact ⟨rt, hresolved, hcurrent.matches hrt htyped hsync⟩

end Run

/-! ### A run that dies before it advances its state -/

/-- A code version that spells out the runtime. -/
def spellRuntime (rt : LlmMapRuntime) : String :=
  String.ofList (encodeList encodeText [rt.provider, rt.model, rt.implementation, rt.systemPrompt,
    rt.temperature] ++ (encodeNat rt.maxTokens ++ (encodeList encodeText rt.baseUrl.toList ++
      (encodeList (fun p : String × String => encodeText p.1 ++ encodeText p.2) rt.providerOptions ++
        (encodeList encodeText rt.promptName.toList ++
          encodeList encodeText rt.promptVersion.toList)))))

theorem spellRuntime_injective : Function.Injective spellRuntime := by
  intro rt rt' h
  obtain ⟨hnames, h⟩ := prefixFree_text.list (String.ofList_injective h)
  obtain ⟨htokens, h⟩ := prefixFree_nat h
  obtain ⟨hurl, h⟩ := prefixFree_text.list h
  obtain ⟨hoptions, h⟩ := (prefixFree_text.pair prefixFree_text).list h
  obtain ⟨hname, h⟩ := prefixFree_text.list h
  have hversion := prefixFree_text.list.injective h
  have htoList : ∀ {a b : Option String}, a.toList = b.toList → a = b := by
    intro a b hab
    cases a <;> cases b <;> simp_all
  cases rt
  cases rt'
  simp only [List.cons.injEq, and_true] at hnames
  simp only [LlmMapRuntime.mk.injEq]
  exact ⟨hnames.1, hnames.2.1, hnames.2.2.1, hnames.2.2.2.1, hnames.2.2.2.2, htokens, htoList hurl,
    hoptions, htoList hname, htoList hversion⟩

/-- A provider that labels a content by itself, and columns of strings. -/
def echoEnv : LlmEnv where
  inputFingerprint content := content
  configHash _ rt := spellRuntime rt
  codeVersion _ rt := spellRuntime rt
  extractFields _ _ content := .ok { object := [("label", .string content)] }
  cast _ cell := match cell with
    | .null | .string _ => some cell
    | _ => none
  castError _ := "cannot cast"

/-- One label for each note. -/
def labelModel : LlmModel where
  name := "labels"
  upstream := "notes"
  inputField := "body"
  fields := [("label", none)]
  fields_nodup := by decide
  fields_reserved := by decide
  names_reserved := by decide

/-- The runtime of the model. -/
def echoRuntime : LlmMapRuntime :=
  { provider := "echo", model := "echo-1", implementation := "1", systemPrompt := "Label." }

/-- A note. -/
def noteRow (id body : String) : Row := fun c =>
  if c = "id" then .string id else if c = "body" then .string body else .null

/-- A frame of notes. -/
def notes (pairs : List (String × String)) : Frame where
  schema := [("id", "String"), ("body", "String")]
  rows := pairs.map fun p => noteRow p.1 p.2
  nodup := by decide
  blank := by
    intro row hrow c hc
    obtain ⟨p, -, rfl⟩ := List.mem_map.mp hrow
    simp only [List.map_cons, List.map_nil, List.mem_cons, List.not_mem_nil, or_false,
      not_or] at hc
    simp [noteRow, hc.1, hc.2]

/-- An incremental run of the model on a warehouse of strings. -/
def labelRun (generatedAt : String) (pairs : List (String × String)) : TargetProg LlmResult :=
  runLlmModel echoEnv labelModel (.ok echoRuntime) {} false generatedAt (notes pairs)

theorem echoEnv_reliable : echoEnv.Reliable labelModel (fun _ cell => some cell) "String" where
  inputFingerprint_inj _ _ h := h
  codeVersion_inj := spellRuntime_injective
  cast_string _ := rfl
  assign_string _ := rfl
  assign_id _ h := by rw [Option.some.inj h]
  id_inj := by
    intro a b ha hb htext
    cases a <;> cases b <;> simp_all [echoEnv, Cell.text]

theorem notes_typed (pairs : List (String × String)) :
    TypedIds echoEnv labelModel "String" (notes pairs) := by
  rintro type htype
  refine ⟨(Option.some.inj htype).symm, fun row hrow => ?_⟩
  obtain ⟨p, -, rfl⟩ := List.mem_map.mp hrow
  rfl

/-- The first run, dead after it wrote its rows. -/
def deadFirst : Target × StateTable :=
  (labelRun "t0" [("n1", "draft")]).crashAfter (ghostExec (fun _ cell => some cell) "labels"
    (llmRunRecords echoEnv labelModel (.ok echoRuntime) false (notes [("n1", "draft")]) {})) 2
      ({}, ∅)

/-- The first run dies before it writes its state, the note is edited, and the next run overwrites
its row. -/
theorem llm_rows_current_edited : ∃ rt, Except.ok (ε := String) echoRuntime = .ok rt ∧
    LlmMatches echoEnv labelModel rt (fun _ cell => some cell) "String" (notes [("n1", "final")])
      ((labelRun "t1" [("n1", "final")]).exec (TargetOp.exec (fun _ cell => some cell) "labels")
        deadFirst.1).1.table := by
  have hok : ((labelRun "t1" [("n1", "final")]).exec (TargetOp.exec (fun _ cell => some cell)
      "labels") deadFirst.1).2 = .ok ⟨none, [], 1, 0, 0, 1, 1⟩ := by
    decide
  have hends := Prog.ends_exec (TargetOp.exec (fun _ cell => some cell) "labels")
    (labelRun "t1" [("n1", "final")]) deadFirst.1
  rw [hok] at hends
  refine llm_rows_current (s := deadFirst) echoEnv_reliable (by decide) rfl rfl
    (.run (.ok echoRuntime) {} false "t0" (notes [("n1", "draft")]) .start (notes_typed _)
      (fun _ hnone => absurd rfl hnone) (Prog.ends_crashAfter _ _ _ _)) (notes_typed _)
    (fun _ _ rt hrt d => ?_) rfl hends
  obtain rfl := Except.ok.inj hrt
  intro hcurrent
  by_cases hd : d = "n1"
  · subst hd
    revert hcurrent
    decide
  · rw [← hcurrent]
    have hkeys : (llmRunRecords echoEnv labelModel (.ok echoRuntime) false
        (notes [("n1", "draft")]) {}).map (·.recordKey) = ["n1"] := by
      decide
    refine StateTable.lookup_upsert_of_notMem ?_
    rw [hkeys]
    simpa using hd

/-- A run, and then one on an edit that dies after it wrote its rows. -/
def deadEdited : Target :=
  (labelRun "t1" [("n1", "final")]).crashAfter (TargetOp.exec (fun _ cell => some cell) "labels") 4
    ((labelRun "t0" [("n1", "draft")]).exec (TargetOp.exec (fun _ cell => some cell) "labels") {}).1

/-- **A reverted row is skipped.** A run completes on a note. The next one, on an edit of the note,
dies after it wrote the row of the edit and before it advanced the state. The edit is reverted, and
the next run skips the note, whose row is that of the edit. -/
theorem reverted_row_skipped :
    echoEnv.Reliable labelModel (fun _ cell => some cell) "String" ∧ labelModel.incremental = true ∧
      labelModel.updateWhenChanged = [] ∧ labelModel.rowIdField ≠ labelModel.ordinalField ∧
      (∀ pairs, TypedIds echoEnv labelModel "String" (notes pairs)) ∧ ∃ r s t out result,
      (labelRun "t0" [("n1", "draft")]).exec (TargetOp.exec (fun _ cell => some cell) "labels") {} =
        (r, .ok out) ∧
      (labelRun "t1" [("n1", "final")]).Ends (TargetOp.exec (fun _ cell => some cell) "labels") r s
        none ∧
      (labelRun "t2" [("n1", "draft")]).exec (TargetOp.exec (fun _ cell => some cell) "labels") s =
        (t, .ok result) ∧ result.status = none ∧
      ¬ LlmMatches echoEnv labelModel echoRuntime (fun _ cell => some cell) "String"
        (notes [("n1", "draft")]) t.table := by
  have hfirst : ((labelRun "t0" [("n1", "draft")]).exec (TargetOp.exec (fun _ cell => some cell)
      "labels") {}).2 = .ok ⟨none, [], 1, 0, 0, 1, 1⟩ := by
    decide
  have hlast : ((labelRun "t2" [("n1", "draft")]).exec (TargetOp.exec (fun _ cell => some cell)
      "labels") deadEdited).2 = .ok ⟨none, [], 0, 1, 0, 0, 0⟩ := by
    decide
  refine ⟨echoEnv_reliable, rfl, rfl, by decide, notes_typed, _, _, _, _, _, Prod.ext rfl hfirst,
    Prog.ends_crashAfter _ 4 _ _, Prod.ext rfl hlast, rfl, fun hmatches => ?_⟩
  obtain ⟨generatedAt, fields, rows, hfields, hrows, hrel⟩ :=
    hmatches.rows _ List.mem_cons_self "n1" rfl
  obtain rfl := Except.ok.inj hfields
  have hemitted : ∀ e ∈ rows, e "label" = .string "draft" := by
    intro e he
    have hlabels : some (rows.map (· "label")) = some [.string "draft"] :=
      congrArg (Option.map (List.map fun row : Row => row "label")) hrows.symm
    have hmem := List.mem_map_of_mem (f := (· "label")) he
    rw [Option.some.inj hlabels] at hmem
    exact List.mem_singleton.mp hmem
  have hstale : ∃ row ∈ rowsAt "id" (rowsOf ((labelRun "t2" [("n1", "draft")]).exec
      (TargetOp.exec (fun _ cell => some cell) "labels") deadEdited).1.table) "n1",
        row "label" = .string "final" := by
    decide
  obtain ⟨row, hrow, hfinal⟩ := hstale
  obtain ⟨e, he, hstored⟩ := Emission.exists_of_rel_right hrel (Multiset.mem_coe.mpr hrow)
  have hcell := hstored.cells "label" "String" rfl
  rw [hemitted e (Multiset.mem_coe.mp he), hfinal] at hcell
  revert hcell
  decide

end Stel.Execution
