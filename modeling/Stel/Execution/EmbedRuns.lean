import Stel.Execution.EmbedSync
import Stel.Execution.LlmRuns
import Stel.Warehouse.Encoding

/-!
# Interrupted runs of an embedding model

An incremental run writes its rows, deletes removed records and advances its state in three operations, and
may die in between. The rows that it left are taken up by later runs: their vectors are reused as long as
text and identity stay, and a record whose state is current is skipped.

## Main definitions

* `EmbedRuns`: sequences of runs, any of which may be interrupted.
* `EmbedMatches`: one row for each record of the upstream, with the vector of its text, and no others.

## Main results

* `safe_embed_run`: a run keeps the target described, and on settled keys it ends with every record current.
* `embedded_rows_sound`: in every state that runs reach, every row is that of its own text.
* `embed_rows_current`: a run that completes leaves the current rows if every key is settled.
-/

namespace Stel.Execution

open Stel.Warehouse

section Run

variable {env : EmbedEnv} {model : EmbedModel} {assign : Assignment} {ids : IdColumn}
  {vectorOf : EmbeddingIdentity → String → List ℚ} {identity : EmbeddingIdentity} {source : Frame}
  {recordIds : List String} {output : Frame} {table : String} {s : Target × StateTable}

/-! ### Publication -/

/-- The upstream is accepted, and the state and the ghost table have its current values. -/
structure EmbedCurrent (env : EmbedEnv) (model : EmbedModel) (identity : EmbeddingIdentity) (source : Frame)
    (s : Target × StateTable) : Prop where
  valid : validateEmbedInput env model source = .ok ()
  accepted : ∃ recordIds, embedRecordIds model source = .ok recordIds
  written : ∀ d, s.2.lookup d = embedCurrent env model identity source d
  state : ∀ d, s.1.state.lookup d = embedCurrent env model identity source d

/-- An incremental publication. -/
theorem EmbedMade.safe_publish {work : List EmbedWork} {removed : List String}
    (m : EmbedMade env model assign ids vectorOf identity source work output)
    (hsync : EmbedSynced env model assign ids vectorOf s.1.table s.2)
    (hwhen : model.updateWhenChanged = []) (hids : embedRecordIds model source = .ok recordIds)
    (hwork : embedWork env model identity source recordIds s.1.state = work)
    (hremoved : (s.1.state.keys.filter (· ∉ recordIds)).insertionSort (· ≤ ·) = removed) :
    (publishEmbed model false output (work.map (embedRecord env model identity)) removed
      (removed.filterMap fun recordId =>
        (existingEmbeddingRow model s.1.table recordId).map (· model.idField))).Safe
      (ghostExec assign table (embedRecords env model identity source s.1.state))
      (fun x => EmbedSynced env model assign ids vectorOf x.1.table x.2)
      (fun _ x => (∀ d, Settled s.2 s.1.state (embedCurrent env model identity source) d) →
        EmbedCurrent env model identity source x) s := by
  have hclassified := @embed_classified env model identity _ _ s.1.state hids
  have hrecords := @embedRecords_eq env model identity _ _ s.1.state hids
  rw [hwork] at hclassified hrecords
  rw [hremoved] at hclassified
  have hwidth : output.schema = [] → output.rows = [] := fun hnil => by
    have hid := m.lookup_output (model.idField, ids.type) List.mem_cons_self
    rw [hnil] at hid
    cases hid
  rw [publishEmbed, if_neg Bool.false_ne_true]
  -- the rows, the removed records, and then the state
  refine Prog.Safe.bind (Q := fun _ (x : Target × StateTable) => x.1.state = s.1.state ∧
    x.2 = s.2.upsert (work.map (embedRecord env model identity)) ∧
    ∀ d ∈ removed, rowsAt model.idField (rowsOf x.1.table) d ≠ [] →
      existingEmbeddingRow model s.1.table d ≠ none) ?_ ?_
  · unfold writeEmbeddings
    split
    · rename_i hempty
      have hnone : work = [] := by
        refine List.eq_nil_iff_forall_not_mem.mpr fun item hitem => ?_
        obtain ⟨row, hrow, -⟩ := m.exists_row hitem
        rw [hempty] at hrow
        cases hrow
      rw [hnone]
      exact ⟨hsync, rfl, rfl, fun d _ => existingEmbeddingRow_ne_none hsync⟩
    · refine safe_perform (C := fun x => EmbedSynced env model assign ids vectorOf x.1.table x.2) hsync
        fun t n hop => ?_
      obtain ⟨target, hmaterialize, ht⟩ := bind_eq_ok.mp (Target.commit_ok hop)
      obtain ⟨rfl, -⟩ := Prod.mk.inj (Except.ok.inj ht)
      rw [hwhen] at hmaterialize
      obtain ⟨stored, hreplaced⟩ := materializeIncremental_eq_ok hwidth hmaterialize
      rw [TargetOp.recorded, hrecords]
      refine ⟨m.synced_replaced hsync hreplaced, rfl, rfl, fun d hd hrows => ?_⟩
      refine existingEmbeddingRow_ne_none hsync (m.rows_of_removed hsync hreplaced (fun hin => ?_) hrows)
      rw [← hremoved, List.mem_insertionSort, List.mem_filter, decide_eq_true_iff] at hd
      rw [keys_embedRecord, ← hwork] at hin
      obtain ⟨item, hitem, rfl⟩ := List.mem_map.mp hin
      obtain ⟨d, record, hmem, -, rfl⟩ := mem_embedWork.mp hitem
      exact hd.2 ((mem_requireIds hids).mpr ⟨record, hmem⟩)
  rintro n ⟨t, written⟩ hC ⟨hstate, rfl, hnamed⟩
  refine (safe_deleteRemovedIds hC fun result hdel => hC.delete hnamed hdel).bind ?_
  rintro _ ⟨u, written⟩ hC ⟨rfl, hstate'⟩
  have hdone := lookup_upsert_delete hclassified settled_self
  refine (safe_advanceState (C := fun x => EmbedSynced env model assign ids vectorOf x.1.table x.2) hC
    hC).bind ?_
  rintro _ _ hC rfl
  refine ⟨hC, fun hsettled => ⟨m.valid, ⟨recordIds, hids⟩, lookup_delete_upsert hclassified hsettled,
    fun d => ?_⟩⟩
  rw [hstate', hstate]
  exact hdone d

/-! ### Runs -/

/-- The state on which a run decides what it processes. -/
def embedPrior (model : EmbedModel) (fullRefresh : Bool) (s : Target) : StateTable :=
  if model.incremental && !fullRefresh && s.table.isSome then s.state else ∅

/-- The state records of a run that starts in the given state. -/
def embedRunRecords (env : EmbedEnv) (model : EmbedModel) (resolved : Except Failure EmbedRuntime)
    (fullRefresh : Bool) (source : Frame) (s : Target) : List StateRecord :=
  match resolved with
  | .ok rt => embedRecords env model (.fromConfig model rt) source (embedPrior model fullRefresh s)
  | .error _ => []

/-- Every key of an incremental run of an existing target is settled when the run starts. -/
def EmbedSettled (env : EmbedEnv) (model : EmbedModel) (resolved : Except Failure EmbedRuntime)
    (source : Frame) (s : Target × StateTable) : Prop :=
  s.1.table ≠ none → ∀ rt, resolved = .ok rt →
    ∀ d, Settled s.2 s.1.state (embedCurrent env model (.fromConfig model rt) source) d

variable {resolved : Except Failure EmbedRuntime} {fullRefresh : Bool} {now : String}

/-- A run after it read the state and the target. -/
theorem safe_finishEmbed (hrt : env.Reliable model assign ids vectorOf)
    (hwhen : model.updateWhenChanged = []) (htyped : TypedEmbedIds model ids source)
    (hvalid : validateEmbedInput env model source = .ok ())
    (hids : embedRecordIds model source = .ok recordIds)
    (hsync : EmbedSynced env model assign ids vectorOf s.1.table s.2) {prior : StateTable}
    {existing : Option Frame} (useFull : Bool) (hfull : useFull = true → prior = ∅ ∧ existing = none)
    (hincremental : useFull = false → prior = s.1.state ∧ existing = s.1.table) :
    (finishEmbed env model identity now source recordIds useFull prior existing).Safe
      (ghostExec assign table (embedRecords env model identity source prior))
      (fun x => EmbedSynced env model assign ids vectorOf x.1.table x.2)
      (fun _ x => (useFull = false →
        ∀ d, Settled s.2 s.1.state (embedCurrent env model identity source) d) →
          EmbedCurrent env model identity source x) s := by
  have hexisting : existing ≠ none → EmbedSynced env model assign ids vectorOf existing s.2 := by
    intro hne
    cases useFull with
    | true => exact absurd (hfull rfl).2 hne
    | false => exact (hincremental rfl).2 ▸ hsync
  have hhash (item : EmbedWork)
      (hitem : item ∈ embedWork env model identity source recordIds prior) :
      item.textHash = env.textHash item.text := by
    obtain ⟨d, record, -, -, rfl⟩ := mem_embedWork.mp hitem
    rfl
  have hnodup := @nodup_embedWork env model identity source recordIds prior hids
  have hrecord := @exists_of_mem_embedWork env model identity source recordIds prior hids
  simp only [finishEmbed]
  generalize hwork : embedWork env model identity source recordIds prior = work at *
  refine Prog.safe_ofExcept_bind hsync fun embedded hembedded => ?_
  refine Prog.safe_ofExcept_bind hsync fun rows hrows => ?_
  refine Prog.safe_ofExcept_bind hsync fun output houtput => ?_
  have m : EmbedMade env model assign ids vectorOf identity source work output :=
    ⟨hrt, htyped, hvalid, hnodup, fun _ => hrecord, rows, houtput,
      forall₂_itemRow hrt hexisting hnodup hhash hembedded hrows⟩
  refine (safe_asRunError (Q := fun _ x => (useFull = false →
    ∀ d, Settled s.2 s.1.state (embedCurrent env model identity source) d) →
      EmbedCurrent env model identity source x) ?_).bind fun _ _ hC hQ => ⟨hC, hQ⟩
  cases useFull with
  | true =>
    obtain ⟨rfl, rfl⟩ := hfull rfl
    have hrecords := @embedRecords_eq env model identity _ _ ∅ hids
    rw [hwork] at hrecords
    have hsynced := m.synced_full
    rw [← hrecords] at hsynced
    rw [publishEmbed, if_pos rfl]
    simp only [Prog.perform_bind]
    exact safe_rebuild (C := fun x => EmbedSynced env model assign ids vectorOf x.1.table x.2)
      hrecords.symm hsync (fun _ => hsynced) fun _ n =>
        ⟨hsynced, fun _ => ⟨hvalid, ⟨recordIds, hids⟩, fun _ => rfl, fun _ => rfl⟩⟩
  | false =>
    obtain ⟨rfl, rfl⟩ := hincremental rfl
    exact (m.safe_publish hsync hwhen hids hwork rfl).mono (fun _ h => h) fun _ _ _ hQ hsettled =>
      hQ (hsettled rfl)

/-- A run keeps the target described at every point, and when it completes on settled keys the target and
the state are current. -/
theorem safe_embed_run (hrt : env.Reliable model assign ids vectorOf)
    (hwhen : model.updateWhenChanged = []) (hincremental : model.incremental = true)
    (htyped : TypedEmbedIds model ids source)
    (hsync : EmbedSynced env model assign ids vectorOf s.1.table s.2) :
    (runEmbedModel env model resolved fullRefresh now source).Safe
      (ghostExec assign table (embedRunRecords env model resolved fullRefresh source s.1))
      (fun x => EmbedSynced env model assign ids vectorOf x.1.table x.2)
      (fun _ x => ∃ rt, resolved = .ok rt ∧
        ((fullRefresh = false → EmbedSettled env model resolved source s) →
          EmbedCurrent env model (.fromConfig model rt) source x)) s := by
  rw [runEmbedModel]
  refine Prog.safe_ofExcept_bind hsync fun _ hvalid => ?_
  refine Prog.safe_ofExcept_bind hsync fun recordIds hids => ?_
  cases resolved with
  | error e => exact hsync
  | ok rt =>
  refine Prog.safe_ofExcept_bind hsync fun _ hrun => ?_
  obtain rfl := Except.ok.inj hrun
  dsimp only
  rw [Prog.perform_bind]
  refine safe_read rfl rfl hsync ?_
  by_cases hread : (model.incremental && !fullRefresh && s.1.table.isSome) = true
  · rw [if_pos hread, Prog.perform_bind]
    simp only [hincremental, Bool.true_and, Bool.and_eq_true, Bool.not_eq_true'] at hread
    refine safe_read rfl rfl hsync ?_
    rw [Prog.perform_bind]
    refine safe_call hsync fun t existing hop => ?_
    obtain ⟨target, htarget⟩ := Option.isSome_iff_exists.mp hread.2
    have hexec := Target.commit_ok hop
    simp only [htarget] at hexec
    obtain ⟨rfl, rfl⟩ := Prod.mk.inj (Except.ok.inj hexec)
    have hprior : embedPrior model fullRefresh s.1 = s.1.state := by
      simp [embedPrior, hincremental, hread.1, hread.2]
    rw [embedRunRecords, hprior]
    exact (safe_finishEmbed hrt hwhen htyped hvalid hids hsync false nofun fun _ =>
      ⟨rfl, htarget.symm⟩).mono (fun _ h => h) fun _ _ _ hQ => ⟨rt, rfl, fun hsettled =>
        hQ fun _ => hsettled hread.1 (by simp [htarget]) rt rfl⟩
  · have hprior : embedPrior model fullRefresh s.1 = ∅ := if_neg hread
    rw [if_neg hread, embedRunRecords, hprior]
    exact (safe_finishEmbed hrt hwhen htyped hvalid hids hsync true (fun _ => ⟨rfl, rfl⟩) nofun).mono
      (fun _ h => h) fun _ _ _ hQ => ⟨rt, rfl, fun _ => hQ nofun⟩

/-! ### Histories -/

/-- A sequence of runs of a model over any frames, runtimes and modes, each of which returns, raises or
dies between two operations. -/
inductive EmbedRuns (env : EmbedEnv) (model : EmbedModel) (assign : Assignment) (ids : IdColumn)
    (table : String) : Target × StateTable → Prop
  | start : EmbedRuns env model assign ids table ({}, ∅)
  | run (resolved : Except Failure EmbedRuntime) (fullRefresh : Bool) (now : String) (source : Frame)
      {s t out} (h : EmbedRuns env model assign ids table s) (htyped : TypedEmbedIds model ids source)
      (hends : (runEmbedModel env model resolved fullRefresh now source).Ends
        (ghostExec assign table (embedRunRecords env model resolved fullRefresh source s.1)) s t out) :
      EmbedRuns env model assign ids table t

/-- The target has one row for every upstream row, with its cells and the vector of its text under the
identity, and no other rows. -/
structure EmbedMatches (env : EmbedEnv) (model : EmbedModel) (assign : Assignment)
    (vectorOf : EmbeddingIdentity → String → List ℚ) (identity : EmbeddingIdentity) (source : Frame)
    (existing : Option Frame) : Prop where
  rows : ∀ record ∈ source.rows, ∀ d, (record model.idField).text = some d →
    ∃ embeddedAt stored, rowsAt model.idField (rowsOf existing) d = [stored] ∧
      StoredAsWritten assign model.onSchemaChange (schemaOf existing)
        (embeddedRow env model vectorOf identity source.columns d record embeddedAt) stored
  owned : ∀ row ∈ rowsOf existing, ∃ record ∈ source.rows, ∃ d,
    (record model.idField).text = some d ∧ (row model.idField).text = some d

/-- Every sequence of runs keeps the target described. -/
theorem EmbedRuns.synced (hrt : env.Reliable model assign ids vectorOf)
    (hwhen : model.updateWhenChanged = []) (hincremental : model.incremental = true)
    (h : EmbedRuns env model assign ids table s) :
    EmbedSynced env model assign ids vectorOf s.1.table s.2 := by
  induction h with
  | start => exact ⟨Emission.describes_empty, fun _ _ => nofun⟩
  | run resolved fullRefresh now source _ htyped hends ih =>
    exact ((safe_embed_run hrt hwhen hincremental htyped ih).sound hends).1

/-- Rows of the upstream with the same fingerprint are the same. -/
theorem eq_of_inputFingerprint (hrt : env.Reliable model assign ids vectorOf)
    {columns columns' : List String} {record record' : Row} (hblank : ∀ c ∉ columns, record c = .null)
    (hblank' : ∀ c ∉ columns', record' c = .null)
    (h : env.inputFingerprint (columns.map fun c => (c, record c)) =
      env.inputFingerprint (columns'.map fun c => (c, record' c))) : record = record' := by
  have hperm := hrt.inputFingerprint_inj h
  funext c
  by_cases hc : c ∈ columns
  · obtain ⟨c', -, heq⟩ := List.mem_map.mp
      (hperm.mem_iff.mp (List.mem_map_of_mem (f := fun c => (c, record c)) hc))
    obtain ⟨rfl, hcell⟩ := Prod.mk.inj heq
    exact hcell.symm
  · have hc' : c ∉ columns' := fun hc' => by
      obtain ⟨c', hmem, heq⟩ := List.mem_map.mp
        (hperm.mem_iff.mpr (List.mem_map_of_mem (f := fun c => (c, record' c)) hc'))
      exact hc ((Prod.mk.inj heq).1 ▸ hmem)
    rw [hblank c hc, hblank' c hc']

/-- A current target has the rows of its records. -/
theorem EmbedCurrent.matches (hrt : env.Reliable model assign ids vectorOf)
    (hsync : EmbedSynced env model assign ids vectorOf s.1.table s.2)
    (hcurrent : EmbedCurrent env model identity source s) :
    EmbedMatches env model assign vectorOf identity source s.1.table := by
  obtain ⟨recordIds, hids⟩ := hcurrent.accepted
  have hown := (requireIds_zip hids).2.2
  refine ⟨fun record hrecord d hd => ?_, fun row hrow => ?_⟩
  · obtain ⟨d', hmem⟩ := exists_id_of_mem hids hrecord
    obtain rfl : d' = d := Option.some.inj ((hown d' record hmem).symm.trans hd)
    have hlookup := (hcurrent.written d').trans (embedCurrent_of_mem hids hmem)
    obtain ⟨rows, ⟨identity', columns, record', embeddedAt, hemits⟩, hrel⟩ := hsync.describes.held _ _ hlookup
    obtain ⟨hfingerprint, hversion⟩ := StateValue.mk.inj hemits.value
    obtain rfl : record = record' :=
      eq_of_inputFingerprint hrt (source.blank record hrecord) hemits.blank hfingerprint
    have hidentity : identity = identity' :=
      hrt.codeVersion_inj hversion
    obtain rfl := hemits.rows
    rw [← Multiset.cons_coe, Multiset.rel_cons_left, ← hidentity] at hrel
    obtain ⟨stored, rest, hkeep, hrest, hone⟩ := hrel
    obtain rfl := Multiset.rel_zero_left.mp hrest
    exact ⟨embeddedAt, stored, Multiset.coe_eq_singleton.mp hone, hkeep.stores⟩
  · obtain ⟨d, hd⟩ : ∃ d, (row model.idField).text = some d := hsync.describes.owned row hrow
    have hin : d ∈ recordIds := by
      by_contra hout
      have hlookup := (hcurrent.written d).trans ((embedCurrent_eq_none hids).mpr hout)
      exact List.ne_nil_of_mem (mem_rowsAt.mpr ⟨hrow, hd⟩) (hsync.describes.absent d hlookup)
    obtain ⟨record, hmem⟩ := (mem_requireIds hids).mp hin
    exact ⟨record, (List.of_mem_zip hmem).2, d, hown d record hmem, hd⟩

end Run

/-! ### A run that dies before it writes its state -/

/-- A hash that spells out the identity. -/
def spellIdentity (identity : EmbeddingIdentity) : String :=
  String.ofList (encodeNat identity.dimensions ++ encodeList encodeText
    (identity.provider :: identity.model :: identity.implementation ::
      identity.providerOptionsIdentity.toList))

theorem spellIdentity_injective : Function.Injective spellIdentity := by
  intro i j h
  obtain ⟨hdimensions, h⟩ := prefixFree_nat (String.ofList_injective h)
  have hnames := prefixFree_text.list.injective h
  obtain ⟨provider, model, dimensions, implementation, options⟩ := i
  obtain ⟨provider', model', dimensions', implementation', options'⟩ := j
  cases options <;> cases options' <;> simp_all

/-- Drafts have a vector of their own. -/
def draftVector (text : String) : List ℚ := if text = "draft" then [1] else [0]

/-- A provider of such vectors, which are stored as JSON. -/
def draftEnv : EmbedEnv where
  casefold s := s
  inputFingerprint cells := String.ofList (encodeCells cells)
  textHash text := text
  configHash := spellIdentity
  codeVersion _ := spellIdentity
  embedTexts _ inputs := .ok (inputs.map fun input => draftVector input.2)
  vectorCell
    | [q] => .nested (if q.num = 1 then "[1.0]" else "[0.0]")
    | _ => .nested "[]"
  items
    | .nested json => some (if json = "[1.0]" then [.float (some 1)] else [.float (some 0)])
    | _ => none
  floatOfInt n := n
  inferType
    | .nested _ :: _ => "List(Float64)"
    | _ => "String"
  vectorType := "List(Float64)"

/-- One vector for each note. -/
def draftModel : EmbedModel where
  name := "vectors"
  upstream := "notes"
  provider := "local"
  model := "drafts"
  textField := "body"
  idField := "id"
  dimensions := 1
  dimensions_pos := Nat.one_pos
  batchSize_pos := Nat.succ_pos 127
  fields_nodup := by decide
  fields_reserved := by decide

/-- Ids that are strings. -/
def stringIds : IdColumn := ⟨"String", fun cell => ∃ s, cell = .string s⟩

theorem draftEnv_reliable :
    draftEnv.Reliable draftModel (fun _ cell => some cell) stringIds fun _ => draftVector where
  inputFingerprint_inj h := prefixFree_cells.injective (String.ofList_injective h) ▸ .refl _
  textHash_inj _ _ h := h
  configHash_inj := spellIdentity_injective
  codeVersion_inj := spellIdentity_injective
  embedTexts_ok h := (Except.ok.inj h).symm
  items_vectorCell _ text := by
    unfold draftVector
    split <;> rfl
  inferType_string hne hall := by
    obtain ⟨cell, cells, rfl⟩ := List.exists_cons_of_ne_nil hne
    obtain ⟨s, rfl⟩ := hall cell List.mem_cons_self
    rfl
  inferType_vector hne hall := by
    obtain ⟨cell, cells, rfl⟩ := List.exists_cons_of_ne_nil hne
    obtain ⟨v, rfl⟩ := hall cell List.mem_cons_self
    rcases v with - | ⟨q, - | ⟨q', v⟩⟩ <;> rfl
  inferType_id hne hall := by
    obtain ⟨cell, cells, rfl⟩ := List.exists_cons_of_ne_nil hne
    obtain ⟨s, rfl⟩ := hall cell List.mem_cons_self
    rfl
  assign_string _ := rfl
  assign_vector h := by rw [Option.some.inj h]
  assign_id _ h := by rw [Option.some.inj h]
  scalarize_id := by
    rintro _ ⟨s, rfl⟩
    rfl

theorem notes_typedEmbedIds (pairs : List (String × String)) :
    TypedEmbedIds draftModel stringIds (notes pairs) := by
  refine fun type htype => ⟨(Option.some.inj htype).symm, fun row hrow => ?_⟩
  obtain ⟨p, -, rfl⟩ := List.mem_map.mp hrow
  exact ⟨p.1, rfl⟩

/-- An incremental run on notes. -/
def draftRun (now : String) (pairs : List (String × String)) : TargetProg EmbedResult :=
  runEmbedModel draftEnv draftModel (.ok ⟨"1", none⟩) false now (notes pairs)

/-- The semantics of such a run. -/
def draftGhost (pairs : List (String × String)) (s : Target) :=
  ghostExec (fun _ cell => some cell) "vectors"
    (embedRunRecords draftEnv draftModel (.ok ⟨"1", none⟩) false (notes pairs) s)

/-- The first run, dead after it wrote its row. -/
def deadDraft : Target × StateTable :=
  (draftRun "t0" [("n1", "draft")]).crashAfter (draftGhost [("n1", "draft")] {}) 2 ({}, ∅)

theorem embedRuns_deadDraft :
    EmbedRuns draftEnv draftModel (fun _ cell => some cell) stringIds "vectors" deadDraft :=
  .run (.ok ⟨"1", none⟩) false "t0" (notes [("n1", "draft")]) .start (notes_typedEmbedIds _)
    (Prog.ends_crashAfter _ _ _ _)

end Stel.Execution
