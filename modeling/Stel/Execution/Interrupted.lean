import Stel.Execution.ChunkRebuild
import Stel.Execution.TransformRefresh

/-!
# Interrupted rebuilds

A full refresh writes the rows of its target and then its state, and may die between the two. The
next incremental run decides from the state which children it deletes.

## Main definitions

* `ChunkFaults`, `TransformFaults`: sequences of runs that may be interrupted, with the ghost table
  of the values under which rows were last written.
* `NoOrphanChunks`, `NoOrphanChildren`: the rows of the current records, and no others.

## Main results

* `no_orphans`: an incremental run that completes leaves no orphans if every run starts in step.
* `interrupted_rebuild_orphans`: rebuilds that die before they write their state.
-/

namespace Stel.Execution

open Stel.Warehouse Stel.Chunking

/-! ### Chunk models -/

section Chunk

/-- What an incremental run of a chunk model must meet when it starts. -/
structure ChunkSteady (rt : ChunkRuntime) (model : ChunkModel) (config : ChunkConfig)
    (frame : Frame) (s : Target × StateTable) : Prop where
  metadata : MetadataHashed config
  step : ∀ d, InStep s.2 s.1.state (chunkCurrent rt model config frame) d

/-- A sequence of runs of a chunk model over any frames, any of which may die between two
operations, and whose incremental runs start in step. -/
inductive ChunkFaults (rt : ChunkRuntime) (model : ChunkModel) (assign : Assignment)
    (table : String) : Target × StateTable → Prop
  | start : ChunkFaults rt model assign table ({}, ∅)
  | refresh (config : ChunkConfig) (chunkedAt : String) (frame : Frame) {s t out}
      (h : ChunkFaults rt model assign table s) (hmetadata : MetadataHashed config)
      (hends : (runChunkModel rt model config true chunkedAt frame).Ends
        (ghostExec assign table (chunkRecords rt model config frame)) s t out) :
      ChunkFaults rt model assign table t
  | increment (config : ChunkConfig) (chunkedAt : String) (frame : Frame) {s t out}
      (h : ChunkFaults rt model assign table s) (hsteady : ChunkSteady rt model config frame s)
      (hends : (runChunkModel rt model config false chunkedAt frame).Ends
        (ghostExec assign table (chunkRecords rt model config frame)) s t out) :
      ChunkFaults rt model assign table t

variable {rt : ChunkRuntime} {model : ChunkModel} {assign : Assignment} {table : String}
  {config : ChunkConfig} {chunkedAt : String} {frame : Frame} {s t : Target × StateTable}

/-- Every sequence of runs keeps the target described. -/
theorem ChunkFaults.synced (hrt : rt.Reliable assign) (hincremental : model.incremental = true)
    (h : ChunkFaults rt model assign table s) : ChunkSynced rt model assign s.1.table s.2 := by
  induction h with
  | start => exact chunkSynced_empty
  | refresh config chunkedAt frame _ hmetadata hends ih =>
    exact ((safe_chunk_run hrt hincremental hmetadata true ih nofun).sound hends).1
  | increment config chunkedAt frame _ hsteady hends ih =>
    exact ((safe_chunk_run hrt hincremental hsteady.metadata false ih
      fun _ => hsteady.step).sound hends).1

end Chunk

/-! ### Transforms -/

namespace IncrementalTransform

variable {Ω : Type} {T : IncrementalTransform Ω} {L : T.ParentLocal} {assign : Assignment}

/-- The key columns of the outputs are strings, which the warehouse stores unchanged. -/
structure StringKeys (T : IncrementalTransform Ω) (assign : Assignment) : Prop where
  typed : ∀ {o : Ω} {deps : String → Frame} {output : Frame}, T.transformFn o deps = .ok output →
    ∀ c, c = T.contract.parentKey ∨ c = T.contract.childKey → c ∈ output.columns →
      output.schema.lookup c = some "String" ∧
        ∀ row ∈ output.rows, row c = .null ∨ ∃ x, row c = .string x
  stored : ∀ cell, cell = .null ∨ (∃ x, cell = .string x) → assign "String" cell = some cell

/-- The target stores the outputs in its columns. -/
def columnStorage (h : T.StringKeys assign) : T.Storage assign where
  Stores := StoredAsWritten assign T.onSchemaChange
  Good schema := schema.lookup T.contract.parentKey = some "String" ∧
    schema.lookup T.contract.childKey = some "String"
  full hmakes := ⟨⟨(h.typed hmakes.called _ (.inl rfl) hmakes.keys.1).1,
    (h.typed hmakes.called _ (.inr rfl) hmakes.keys.2).1⟩, fun _ hrow => .self hrow⟩
  good hmakes hgood hreplaced target htarget :=
    ⟨hreplaced.lookup (fun before hbefore => (hgood before hbefore).1)
      (fun _ => (h.typed hmakes.called _ (.inl rfl) hmakes.keys.1).1) target htarget,
    hreplaced.lookup (fun before hbefore => (hgood before hbefore).2)
      (fun _ => (h.typed hmakes.called _ (.inr rfl) hmakes.keys.2).1) target htarget⟩
  stored := by
    intro o deps output schema row st hmakes hrow hgood hwide hassign
    have hkey : ∀ c, c = T.contract.parentKey ∨ c = T.contract.childKey → c ∈ output.columns →
        schema.lookup c = some "String" → (st c).text = (row c).text := by
      intro c hc hcolumn htype
      have hcell := assignRow_apply hassign htype hcolumn
      rw [h.stored _ ((h.typed hmakes.called c hc hcolumn).2 row hrow)] at hcell
      rw [Option.some.inj hcell]
    exact ⟨.of_assignRow hrow hassign hwide, hkey _ (.inl rfl) hmakes.keys.1 hgood.1,
      hkey _ (.inr rfl) hmakes.keys.2 hgood.2⟩
  kept hreplaced hne _ _ hst := StoredAsWritten.replaced hreplaced hne hst

/-- What an incremental run of a transform must meet when it starts, unless it rebuilds a target
without state. -/
def Steady (L : T.ParentLocal) (o : Ω) (deps : String → Frame) (s : Target × StateTable) : Prop :=
  s.1.state.keys ≠ [] ∨ s.1.table = none →
    (∀ d, InStep s.2 s.1.state (T.current o deps) d) ∧
      ((L.rebuilt o deps).map fun row => (row T.contract.childKey).text).Nodup

/-- A sequence of runs of a transform over any frames, any of which may die between two operations,
and whose incremental runs start in step. -/
inductive TransformFaults (L : T.ParentLocal) (assign : Assignment) (table : String) :
    Target × StateTable → Prop
  | start : TransformFaults L assign table ({}, ∅)
  | refresh (o : Ω) (deps : String → Frame) {s t out} (h : TransformFaults L assign table s)
      (hends : (T.run o true deps).Ends (ghostExec assign table (T.records o deps)) s t out) :
      TransformFaults L assign table t
  | increment (o : Ω) (deps : String → Frame) {s t out} (h : TransformFaults L assign table s)
      (hsteady : Steady L o deps s)
      (hends : (T.run o false deps).Ends (ghostExec assign table (T.records o deps)) s t out) :
      TransformFaults L assign table t

/-- The target rows of every parent of the source are those that it produces now, and every target
row belongs to a parent of the source. -/
def NoOrphanChildren (L : T.ParentLocal) (assign : Assignment) (o : Ω) (deps : String → Frame)
    (existing : Option Frame) : Prop :=
  ∃ groups, T.groups deps = .ok groups ∧
    (∀ g ∈ groups, Multiset.Rel (StoredAsWritten assign T.onSchemaChange (schemaOf existing))
      (L.groupOutput o deps g) (rowsAt T.contract.parentKey (rowsOf existing) g.1)) ∧
    ∀ row ∈ rowsOf existing, ∃ g ∈ groups, (row T.contract.parentKey).text = some g.1

variable {o : Ω} {deps : String → Frame} {table : String} {s : Target × StateTable}
  {S : T.Storage assign}

theorem Steady.careful (hT : Reliable L) (hsync : Synced L S s.1.table s.2)
    (h : Steady L o deps s) : Careful T o deps s := fun hincremental =>
  ⟨(h hincremental).1, not_clashes hT (h hincremental).2 hsync (h hincremental).1⟩

/-- Every sequence of runs keeps the target described. -/
theorem TransformFaults.synced (hT : Reliable L) (h : TransformFaults L assign table s)
    (S : T.Storage assign) : Synced L S s.1.table s.2 := by
  induction h with
  | start => exact synced_empty
  | refresh o deps _ hends ih => exact ((safe_run hT true ih nofun).sound hends).1
  | increment o deps _ hsteady hends ih =>
    exact ((safe_run hT false ih fun _ => hsteady.careful hT ih).sound hends).1

/-- A current target has the rows of its parents. -/
theorem Current.noOrphanChildren (hT : Reliable L) (hkeys : T.StringKeys assign)
    (hsync : Synced L (columnStorage hkeys) s.1.table s.2) (hcurrent : Current T o deps s) :
    NoOrphanChildren L assign o deps s.1.table := by
  obtain ⟨groups, hgroups⟩ := hcurrent.accepted
  refine ⟨groups, hgroups, fun g hg => ?_, fun row hrow => ?_⟩
  · have hlookup := (hcurrent.written g.1).trans (current_of_mem hgroups hg)
    obtain ⟨rows, hemits, hrel⟩ := hsync.describes.held _ _ hlookup
    have hsame : (rows : Multiset Row) = L.groupOutput o deps g :=
      Multiset.coe_eq_coe.mpr (hT.perm_of_emits hemits)
    rw [← hsame]
    exact hrel.mono fun _ _ _ _ hkeep => hkeep.stores
  · obtain ⟨d, hd⟩ : ∃ d, (row T.contract.parentKey).text = some d :=
      hsync.describes.owned row hrow
    by_contra hnone
    have hout : d ∉ groups.map Prod.fst := by
      intro hin
      obtain ⟨g, hg, rfl⟩ := List.mem_map.mp hin
      exact hnone ⟨g, hg, hd⟩
    have habsent : rowsAt T.contract.parentKey (rowsOf s.1.table) d = [] :=
      hsync.describes.absent d ((hcurrent.written d).trans (current_of_notMem hgroups hout))
    exact List.ne_nil_of_mem (mem_rowsAt.mpr ⟨hrow, hd⟩) habsent

end IncrementalTransform

/-! ### Incremental runs that complete -/

/-- The first full refresh of a chunk model, dead after it wrote its rows. -/
def deadRefresh : Target × StateTable :=
  (runChunkModel sampleRuntime sampleChunks plainConfig true "t0" (oneText "Intro one")).crashAfter
    (ghostExec sampleAssign "chunks" (chunkRecords sampleRuntime sampleChunks plainConfig
      (oneText "Intro one"))) 1 ({}, ∅)

/-- The first full refresh of a transform, dead after it wrote its rows. -/
def deadSummaries : Target × StateTable :=
  ((summaryTransform countRows).run "a" true fun _ => mentions [("p1", "Ada")]).crashAfter
    (ghostExec (fun _ cell => some cell) "summaries" ((summaryTransform countRows).records "a"
      fun _ => mentions [("p1", "Ada")])) 1 ({}, ∅)

theorem countRows_reliable : IncrementalTransform.Reliable (summaryLocal countRows) :=
  summaryLocal_reliable countRows fun rows rows' hrows => by
    simp only [countRows, List.map_const', hrows.length_eq]

theorem summaryTransform_stringKeys (summary : List RowDict → String) :
    (summaryTransform summary).StringKeys fun _ cell => some cell where
  typed := by
    intro label deps output houtput c hc _
    obtain ⟨groups, -, houtput⟩ := bind_eq_ok.mp houtput
    obtain rfl := Except.ok.inj houtput
    rcases hc with rfl | rfl <;> refine ⟨rfl, fun row hrow => ?_⟩ <;>
      obtain ⟨pair, -, rfl⟩ := List.mem_map.mp hrow
    · exact .inr ⟨pair.1, rfl⟩
    · exact .inr ⟨pair.1, rfl⟩
  stored _ _ := rfl

/-- The first full refresh dies, the document is edited, and the next run takes it for new. -/
theorem edited_chunk_stays : ∃ result,
    (runChunks plainConfig false "t1" "Intro two" deadRefresh.1).2 = .ok result ∧
      ¬ NoOrphanChunks sampleRuntime sampleChunks sampleAssign plainConfig (oneText "Intro two")
        (runChunks plainConfig false "t1" "Intro two" deadRefresh.1).1.table := by
  refine ⟨⟨1, 0, 0, 1⟩, by decide, ?_⟩
  rintro ⟨hrows, -⟩
  obtain ⟨rows, hok, hrel⟩ := hrows _ List.mem_cons_self sampleId rfl "t1"
  have hone : (documentRows sampleRuntime sampleChunks plainConfig (oneText "Intro two").columns
      "t1" sampleId ((oneText "Intro two").rows.head (by decide))).map List.length = .ok 1 := by
    decide
  have htwo : (rowsAt "document_id" (rowsOf (runChunks plainConfig false "t1" "Intro two"
      deadRefresh.1).1.table) sampleId).length = 2 := by
    decide
  have hlength : rows.length = 1 :=
    Except.ok.inj ((congrArg (Except.map List.length) hok).symm.trans hone)
  have hcard := Multiset.card_eq_card_of_rel hrel
  rw [Multiset.coe_card, Multiset.coe_card, htwo] at hcard
  omega

/-- A summary, and then a full refresh on an edit that dies. -/
def deadEdit : Target :=
  ((summaryTransform countRows).run "a" true fun _ => mentions [("p1", "Ada"), ("p1", "Bob")]).crashAfter
    (TargetOp.exec (fun _ cell => some cell) "summaries") 1
      (runSummaries countRows "a" false [("p1", "Ada")] {}).1

/-- The edit is reverted, and the next run skips the document. -/
theorem reverted_summary_stays : ∃ result,
    (runSummaries countRows "a" false [("p1", "Ada")] deadEdit).2 = .ok result ∧
      ¬ IncrementalTransform.NoOrphanChildren (summaryLocal countRows) (fun _ cell => some cell) "a"
        (fun _ => mentions [("p1", "Ada")])
        (runSummaries countRows "a" false [("p1", "Ada")] deadEdit).1.table := by
  refine ⟨⟨0, 0, 1, 0, true⟩, by decide, ?_⟩
  rintro ⟨groups, hgroups, hrows, -⟩
  obtain rfl : groups = [("p1", [mentionRow "p1" "Ada"])] := Except.ok.inj (hgroups.symm.trans rfl)
  have hrel := hrows _ List.mem_cons_self
  obtain ⟨e, he, hstored⟩ := Emission.exists_of_rel_right hrel (y := summaryRow "p1" "a||")
    (Multiset.mem_coe.mpr List.mem_cons_self)
  obtain rfl := List.mem_singleton.mp (Multiset.mem_coe.mp he)
  have hcell := hstored.cells "summary" "String" rfl
  revert hcell
  decide

end Stel.Execution
