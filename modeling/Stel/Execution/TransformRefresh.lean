import Stel.Execution.TransformSync
import Stel.Warehouse.Encoding

/-!
# Incremental transforms equal their rebuilds

After every uninterrupted run of an incremental transform that works parent by parent, the target
has the rows that a full refresh on the current frames would write.

## Main definitions

* `IncrementalTransform.ColumnsFixed`: all outputs have the same columns, which store their cells.
* `IncrementalTransform.History`: sequences of uninterrupted runs.

## Main results

* `incremental_transform_matches`: the target after a run against a full refresh.
* `reordered_rows_skipped`: a transform that depends on the order of its rows.
-/

namespace Stel.Execution

open Stel.Warehouse

/-- Lists of rows with keys are the same up to order if they are so key by key. -/
theorem perm_of_rowsAt {keyCol : String} {xs ys : List Row}
    (hxs : ∀ row ∈ xs, ∃ d, (row keyCol).text = some d)
    (hys : ∀ row ∈ ys, ∃ d, (row keyCol).text = some d)
    (h : ∀ d, (rowsAt keyCol xs d).Perm (rowsAt keyCol ys d)) : xs.Perm ys := by
  classical
  rw [List.perm_iff_count]
  intro row
  cases htext : (row keyCol).text with
  | none =>
    have hnone : ∀ zs : List Row, (∀ row ∈ zs, ∃ d, (row keyCol).text = some d) → row ∉ zs := by
      intro zs hzs hrow
      obtain ⟨d, hd⟩ := hzs row hrow
      rw [htext] at hd
      cases hd
    rw [List.count_eq_zero_of_not_mem (hnone xs hxs), List.count_eq_zero_of_not_mem (hnone ys hys)]
  | some d =>
    have hat : ∀ zs : List Row, (rowsAt keyCol zs d).count row = zs.count row := fun zs =>
      List.count_filter (decide_eq_true htext)
    rw [← hat xs, ← hat ys, (h d).count_eq]

namespace IncrementalTransform

variable {Ω : Type} {T : IncrementalTransform Ω} {L : T.ParentLocal} {assign : Assignment}

/-! ### Fixed columns -/

/-- All outputs have the given columns, whose types store the cells of the outputs unchanged. -/
def ColumnsFixed (T : IncrementalTransform Ω) (assign : Assignment)
    (columns : List (String × String)) : Prop :=
  ∀ (o : Ω) (deps : String → Frame) (output : Frame), T.transformFn o deps = .ok output →
    output.schema = columns ∧
      ∀ row ∈ output.rows, ∀ c ∈ columns, assign c.2 (row c.1) = some (row c.1)

/-- The target with these columns stores the rows of the outputs as they are. -/
def exactStorage {columns : List (String × String)} (h : T.ColumnsFixed assign columns) :
    T.Storage assign where
  Stores _ row st := st = row
  Good schema := schema = columns
  full hmakes := ⟨(h _ _ _ hmakes.called).1, fun _ _ => rfl⟩
  good := by
    intro o deps output keys existing result stored hmakes hgood hreplaced target htarget
    have houtput := hmakes.called
    cases hexisting : existing with
    | some before =>
      have hbefore := hgood before hexisting
      have hsame := hreplaced.same (by simp [hexisting]) fun _ _ => by
        rw [hexisting, schemaOf_some, hbefore, ← (h _ _ _ houtput).1]
        exact List.Subset.refl _
      rw [htarget, hexisting, schemaOf_some, schemaOf_some, hbefore] at hsame
      exact hsame
    | none =>
      by_cases hempty : output.rows = []
      · rw [hreplaced.missing hexisting hempty] at htarget
        cases htarget
      · have hfresh := hreplaced.fresh hexisting hempty
        rw [htarget, schemaOf_some] at hfresh
        exact hfresh.trans (h _ _ _ houtput).1
  stored := by
    intro o deps output schema row st hmakes hrow hgood _ hassign
    have houtput := hmakes.called
    have hst : st = row := by
      funext c
      obtain ⟨hschema, hcells⟩ := h _ _ _ houtput
      rw [hgood] at hassign
      by_cases hc : c ∈ columns.map Prod.fst
      · obtain ⟨type, htype⟩ := exists_lookup_of_mem hc
        have hmem : (c, type) ∈ columns := by
          obtain ⟨k, v, hkv, -⟩ := List.lookup_eq_some_iff.mp htype
          simp [hkv]
        have hcell := assignRow_apply hassign htype (by rwa [Frame.columns, hschema])
        rw [hcells row hrow (c, type) hmem] at hcell
        exact (Option.some.inj hcell).symm
      · rw [assignRow_blank hassign hc, output.blank row hrow c (by rwa [hschema])]
    subst hst
    exact ⟨rfl, rfl, rfl⟩
  kept _ _ _ _ _ h := h

/-! ### Uninterrupted runs -/

section Agree

variable {o : Ω} {deps : String → Frame} {table : String} {records : List StateRecord}
  {s : Target × StateTable} {α : Type} {Q : α → Target × StateTable → Prop}

/-- The state and the ghost table have the same values. -/
def Agree (s : Target × StateTable) : Prop := ∀ d, s.2.lookup d = s.1.state.lookup d

/-- Two tables that agree do so after the same deletion or insertion. -/
theorem lookup_congr {t u : StateTable} (h : ∀ d, t.lookup d = u.lookup d) (removed : List String)
    {stateRecords : List StateRecord} (hnodup : (stateRecords.map (·.recordKey)).Nodup) (d : String) :
    ((t.delete removed).upsert stateRecords).lookup d =
      ((u.delete removed).upsert stateRecords).lookup d := by
  by_cases hd : d ∈ stateRecords.map (·.recordKey)
  · obtain ⟨r, hr, rfl⟩ := List.mem_map.mp hd
    rw [StateTable.lookup_upsert hnodup hr, StateTable.lookup_upsert hnodup hr]
  · rw [StateTable.lookup_upsert_of_notMem hd, StateTable.lookup_upsert_of_notMem hd,
      StateTable.lookup_delete, StateTable.lookup_delete, h d]

theorem meets_ofExcept {x : Except Failure α} (hs : Agree s) :
    (Prog.ofExcept x : TargetProg α).Meets (ghostExec assign table records)
      (fun a t => t = s ∧ x = .ok a) (fun _ t => Agree t) s := by
  cases x with
  | ok a => exact Prog.meets_pure ⟨rfl, rfl⟩
  | error e => exact Prog.meets_throw hs

/-- An operation that the state and the ghost table follow alike. -/
theorem meets_follow {o : TargetOp} (hs : Agree s)
    (h : ∀ t r, o.exec assign table s.1 = (t, .ok r) → Agree (t, o.recorded records s.2)) :
    (Prog.perform o : TargetProg o.Ret).Meets (ghostExec assign table records)
      (fun _ t => Agree t) (fun _ t => Agree t) s := by
  refine Prog.meets_perform (fun t r hop => ?_) fun t e hop => ?_ <;>
    rcases hexec : o.exec assign table s.1 with ⟨u, e' | r'⟩
  · rw [ghostExec_error hexec] at hop
    cases hop
  · rw [ghostExec_ok hexec] at hop
    obtain ⟨rfl, -⟩ := Prod.mk.inj hop
    exact h u r' hexec
  · rw [ghostExec_error hexec] at hop
    obtain ⟨rfl, -⟩ := Prod.mk.inj hop
    exact hs
  · rw [ghostExec_ok hexec] at hop
    cases hop

theorem meets_deleteRemoved {keyCol : String} {removed : List String} (hs : Agree s) :
    (deleteRemoved keyCol removed).Meets (ghostExec assign table records)
      (fun _ t => Agree t) (fun _ t => Agree t) s := by
  unfold deleteRemoved
  split
  · exact Prog.meets_pure hs
  · refine (meets_follow hs fun t r hop d => ?_).bind fun _ t ht => Prog.meets_pure ht
    rw [(exec_deleteRowsAndState hop).2]
    exact @lookup_congr _ _ hs removed [] List.nodup_nil d

/-- A rebuild leaves the state and the ghost table equal. -/
theorem meets_rebuild {df : Frame} {next : ℕ → TargetProg α}
    (hnodup : (records.map (·.recordKey)).Nodup) (hs : Agree s)
    (h : ∀ n t, Agree t → (next n).Meets (ghostExec assign table records) Q (fun _ t => Agree t) t) :
    (Prog.call (.materializeFull df) (fun n => .call (.replaceState records) (fun _ => next n)
      .throw) .throw : TargetProg α).Meets (ghostExec assign table records) Q
        (fun _ t => Agree t) s := by
  rw [Prog.Meets]
  rcases hfull : (TargetOp.materializeFull df).exec assign table s.1 with ⟨t, e | n⟩
  · rw [Prog.exec_call_error _ (ghostExec_error hfull)]
    exact hs
  · have hreplace : (TargetOp.replaceState records).exec assign table t =
        ({ t with state := .replace records }, .ok ()) := by
      simp only [TargetOp.exec, validateStateRecords, hnodup, if_true]
      rfl
    rw [Prog.exec_call_ok _ (ghostExec_ok hfull), Prog.exec_call_ok _ (ghostExec_ok hreplace)]
    exact h n _ fun _ => rfl

/-- An uninterrupted run keeps the state and the ghost table equal, also if it raises. -/
theorem meets_run (fullRefresh : Bool) (hs : Agree s) :
    (T.run o fullRefresh deps).Meets (ghostExec assign table (T.records o deps))
      (fun _ t => Agree t) (fun _ t => Agree t) s := by
  rw [run, runIncrementalTransform]
  refine (meets_ofExcept hs).bind ?_
  rintro _ s ⟨rfl, -⟩
  have hbaseline : (stateBaseline fullRefresh).Meets (ghostExec assign table (T.records o deps))
      (fun _ t => Agree t) (fun _ t => Agree t) s := by
    cases fullRefresh with
    | true => exact Prog.meets_pure hs
    | false =>
      simp only [stateBaseline, Bool.false_eq_true, if_false]
      refine (meets_follow hs fun t r hop => ?_).bind fun prior t ht => ?_
      · obtain ⟨rfl, -⟩ := Prod.mk.inj hop
        exact hs
      · split
        · refine (meets_follow ht fun u r hop => ?_).bind fun _ _ ht => Prog.meets_pure ht
          obtain ⟨rfl, -⟩ := Prod.mk.inj hop
          exact ht
        · exact Prog.meets_pure ht
  refine hbaseline.bind ?_
  rintro ⟨prior, isIncremental⟩ t ht
  refine (meets_ofExcept ht).bind ?_
  rintro groups t ⟨rfl, hgroups⟩
  have hrest : ∀ isIncremental : Bool, ∀ removed : List String, ∀ output : Frame,
      (publishParents (T.model o) isIncremental
        (classifyParents (T.model o) isIncremental prior deps groups) removed output).Meets
          (ghostExec assign table (T.records o deps)) (fun _ t => Agree t) (fun _ t => Agree t) t := by
    intro isIncremental removed output
    cases isIncremental with
    | true =>
      simp only [publishParents, not_true_eq_false, if_false]
      refine (meets_deleteRemoved ht).bind fun _ u hu => ?_
      refine (Prog.Meets.tryCatch (fun _ t => Agree t) (meets_follow hu fun v r hop d => ?_) ?_).bind
        fun _ _ hv => Prog.meets_pure hv
      · obtain ⟨hnodup, -, hstate⟩ := exec_replaceChildren hop
        rw [hstate]
        exact lookup_congr hu [] hnodup d
      · rintro e v hv
        cases e <;> exact Prog.meets_throw hv
    | false =>
      have hrecords : (classifyParents (T.model o) false prior deps groups).records =
          T.records o deps := (classifyParents_full prior).trans (records_eq hgroups).symm
      have hnodup : ((T.records o deps).map (·.recordKey)).Nodup := by
        rw [records_eq hgroups, keys_map_recordOf]
        exact (parentGroups_eq_ok hgroups).1
      simp only [publishParents, Bool.false_eq_true, not_false_eq_true, if_true, Prog.perform_bind]
      rw [← hrecords] at hnodup ⊢
      exact meets_rebuild hnodup ht fun n t ht => Prog.meets_pure ht
  dsimp only
  by_cases hskip : isIncremental = true ∧
      (classifyParents (T.model o) isIncremental prior deps groups).processed = []
  · rw [if_pos hskip]
    exact (meets_deleteRemoved ht).bind fun _ _ ht => Prog.meets_pure ht
  · rw [if_neg hskip]
    refine (meets_ofExcept ht).bind ?_
    rintro output _ ⟨rfl, -⟩
    refine (meets_ofExcept ht).bind ?_
    rintro _ _ ⟨rfl, -⟩
    exact hrest isIncremental _ output

end Agree

/-! ### Clashes -/

section Distinct

variable {o : Ω} {deps : String → Frame} {groups : List (String × List Row)} {S : T.Storage assign}
  {s : Target} {written : StateTable}

/-- Rows of two parents have different child keys. -/
theorem child_ne_of_distinct
    (hdistinct : ((L.rebuilt o deps).map fun row => (row T.contract.childKey).text).Nodup)
    (hgroups : T.groups deps = .ok groups)
    {g g' : String × List Row} (hg : g ∈ groups) (hg' : g' ∈ groups) (hne : g ≠ g') {row e : Row}
    (hrow : row ∈ L.groupOutput o deps g) (he : e ∈ L.groupOutput o deps g') :
    (row T.contract.childKey).text ≠ (e T.contract.childKey).text := by
  have hnodup := hdistinct
  simp only [ParentLocal.rebuilt, hgroups] at hnodup
  rw [List.map_flatMap, List.nodup_flatMap] at hnodup
  have hsymm : Std.Symm (Function.onFun List.Disjoint fun g : String × List Row =>
      (L.groupOutput o deps g).map fun row => (row T.contract.childKey).text) :=
    ⟨fun _ _ h => List.Disjoint.symm h⟩
  have hdisjoint := List.Pairwise.forall hnodup.2 hg hg' hne
  intro heq
  exact hdisjoint (List.mem_map_of_mem hrow) (heq ▸ List.mem_map_of_mem he)

/-- The outputs of a run whose transform was called. -/
theorem exists_output_of_emitted {e : Row}
    (he : e ∈ emittedRows (T.model o) s.state (deps T.parentSource) deps) :
    ∃ groups output, T.groups deps = .ok groups ∧ e ∈ output.rows ∧
      T.transformFn o (calledDeps T o
        (classifyParents (T.model o) true s.state deps groups).processed deps) = .ok output ∧
      touchedParents (T.model o) s.state (deps T.parentSource) deps =
        (classifyParents (T.model o) true s.state deps groups).processed ++
          s.state.keys.filter (· ∉ groups.map Prod.fst) := by
  unfold emittedRows at he
  split at he
  swap
  · cases he
  rename_i output hout
  unfold incrementalOutput at hout
  obtain ⟨⟨c, removed⟩, hparents, hout⟩ := bind_eq_ok.mp hout
  obtain ⟨groups, hgroups, hc⟩ := bind_eq_ok.mp hparents
  obtain ⟨rfl, rfl⟩ := Prod.mk.inj (Except.ok.inj hc)
  simp only at hout
  split at hout
  · cases hout
  obtain ⟨output', houtput, hout⟩ := bind_eq_ok.mp hout
  obtain ⟨_, -, hout⟩ := bind_eq_ok.mp hout
  obtain rfl := Option.some.inj (Except.ok.inj hout)
  refine ⟨groups, output', hgroups, he, houtput, ?_⟩
  simp only [touchedParents, hparents]

/-- A run on parents in step clashes with no row if the current rows of two parents do not. -/
theorem not_clashes (hT : Reliable L)
    (hdistinct : ((L.rebuilt o deps).map fun row => (row T.contract.childKey).text).Nodup)
    (hsync : Synced L S s.table written)
    (hstep : ∀ d, InStep written s.state (T.current o deps) d) :
    ¬ Clashes (T.model o) s (deps T.parentSource) deps := by
  rintro ⟨row, hrow, e, he, t, htext, hetext⟩
  obtain ⟨groups, output, hgroups, he, houtput, htouched⟩ := exists_output_of_emitted he
  obtain ⟨hmem, huntouched⟩ := List.mem_filter.mp hrow
  obtain ⟨d, hd⟩ := hsync.describes.owned row hmem
  have hclassified := classified (o := o) hgroups s.state
  obtain ⟨hrecords, hprocessed, -⟩ := @classifyParents_incremental Ω T o deps groups s.state
  have hout : ∀ key ∈ (classifyParents (T.model o) true s.state deps groups).processed ++
      s.state.keys.filter (· ∉ groups.map Prod.fst), key ≠ d := by
    rintro key hkey rfl
    rw [htouched] at huntouched
    exact of_decide_eq_true huntouched key hkey hd
  have hnotProcessed : d ∉ (classifyParents (T.model o) true s.state deps groups).records.map
      (·.recordKey) := by
    rw [hrecords, keys_map_recordOf, ← hprocessed]
    exact fun hin => hout d (List.mem_append_left _ hin) rfl
  have hnotRemoved : d ∉ s.state.keys.filter (· ∉ groups.map Prod.fst) :=
    fun hin => hout d (List.mem_append_right _ hin) rfl
  have hat := mem_rowsAt.mpr ⟨hmem, hd⟩
  -- the row's parent is current, so the row is one that it emits now
  cases hcurrent : T.current o deps d with
  | none =>
    have hstate : s.state.lookup d = none := by
      by_contra hne
      exact hnotRemoved ((hclassified.removed d).mpr ⟨hne, hcurrent⟩)
    have hnone : written.lookup d = none := by
      rcases (hstep d).of_new hstate with hnone | hsame
      · exact hnone
      · exact hsame.trans hcurrent
    rw [hsync.describes.absent d hnone] at hat
    cases hat
  | some v =>
    have hstate : s.state.lookup d = some v := by
      by_contra hne
      exact hnotProcessed ((hclassified.processed d).mpr ⟨by simp [hcurrent], by rwa [hcurrent]⟩)
    have hkey : d ∈ groups.map Prod.fst := by
      by_contra hout
      rw [current_of_notMem hgroups hout] at hcurrent
      cases hcurrent
    obtain ⟨g, hg, rfl⟩ := List.mem_map.mp hkey
    rw [current_of_mem hgroups hg] at hcurrent
    obtain rfl := Option.some.inj hcurrent
    have hwritten : written.lookup g.1 = s.state.lookup g.1 := by
      rcases hstep g.1 with hsame | ⟨-, hne⟩ | ⟨hnone, -⟩
      · exact hsame
      · exact absurd (hstate.trans (current_of_mem hgroups hg).symm) hne
      · exact absurd (hnone.symm.trans hstate) (by simp)
    obtain ⟨rows, hemits, hrel⟩ := hsync.describes.held _ _ (hwritten.trans hstate)
    obtain ⟨source, hsource, hkeep⟩ := Emission.exists_of_rel_right hrel (Multiset.mem_coe.mpr hat)
    have hin := (hT.perm_of_emits hemits).mem_iff.mp (Multiset.mem_coe.mp hsource)
    obtain ⟨g', hg', hin', he, -⟩ := (rowsAt_calledDeps (L := L) hgroups houtput).2 e he
    have hne : g ≠ g' := by
      rintro rfl
      exact hout g.1 (List.mem_append_left _ hin') rfl
    refine child_ne_of_distinct hdistinct hgroups hg hg' hne hin he ?_
    have hchild : (row T.contract.childKey).text = (source T.contract.childKey).text := hkeep.child
    rw [← hchild]
    exact Eq.trans htext hetext.symm

end Distinct

/-! ### Sequences of uninterrupted runs -/

/-- A sequence of uninterrupted runs under any options and on any frames, also of runs that
raise. -/
inductive History (T : IncrementalTransform Ω) (assign : Assignment) (table : String) :
    Target → Prop
  | start : History T assign table {}
  | run (o : Ω) (fullRefresh : Bool) (deps : String → Frame) {s t out}
      (h : History T assign table s)
      (hrun : (T.run o fullRefresh deps).exec (TargetOp.exec assign table) s = (t, out)) :
      History T assign table t

section History

variable {o : Ω} {deps : String → Frame} {table : String} {fullRefresh : Bool} {s t : Target}
  {S : T.Storage assign} {out : Except Failure TransformResult} {written : StateTable}

/-- One run on a target that its state describes. -/
theorem synced_run (hT : Reliable L) (hdistinct : L.DistinctKeys)
    (hsync : Synced L S s.table written) (hagree : Agree (s, written))
    (hrun : (T.run o fullRefresh deps).exec (TargetOp.exec assign table) s = (t, out)) :
    ∃ written', Synced L S t.table written' ∧ Agree (t, written') ∧
      ∀ result, out = .ok result → Current T o deps (t, written') := by
  have hcareful : Careful T o deps (s, written) := fun _ =>
    ⟨fun d => .inl (hagree d), not_clashes hT (hdistinct o deps) hsync fun d => .inl (hagree d)⟩
  have hghost := Prog.exec_ghost (TargetOp.exec assign table)
    (wrote assign table (T.records o deps)) (T.run o fullRefresh deps) (s, written)
  have hends := Prog.ends_exec (ghostExec assign table (T.records o deps))
    (T.run o fullRefresh deps) (s, written)
  have hmeets := @meets_run Ω T assign o deps table _
    fullRefresh hagree
  rw [Prog.Meets] at hmeets
  rcases hexec : (T.run o fullRefresh deps).exec
    (ghostExec assign table (T.records o deps)) (s, written) with ⟨⟨t', written'⟩, out'⟩
  rw [hexec] at hghost hends hmeets
  rw [hrun] at hghost
  obtain ⟨rfl, rfl⟩ := Prod.mk.inj hghost
  obtain ⟨hsync', hcurrent⟩ := (safe_run hT fullRefresh hsync fun _ => hcareful).sound hends
  refine ⟨written', hsync', ?_, fun result hresult => hcurrent result (congrArg some hresult)⟩
  cases out' with
  | ok result => exact hmeets
  | error e => exact hmeets

theorem History.synced (hT : Reliable L) (hdistinct : L.DistinctKeys)
    (h : History T assign table s) (S : T.Storage assign) :
    ∃ written, Synced L S s.table written ∧ Agree (s, written) := by
  induction h with
  | start => exact ⟨∅, synced_empty, fun _ => rfl⟩
  | run o fullRefresh deps _ hrun ih =>
    obtain ⟨written, hsync, hagree⟩ := ih
    obtain ⟨written', hsync', hagree', -⟩ := synced_run hT hdistinct hsync hagree hrun
    exact ⟨written', hsync', hagree'⟩

/-- A current target has the rows of a rebuild. -/
theorem Current.rows_perm {columns : List (String × String)} {hfixed : T.ColumnsFixed assign columns}
    (hT : Reliable L) (hsync : Synced L (exactStorage hfixed) s.table written)
    (hcurrent : Current T o deps (s, written)) : (rowsOf s.table).Perm (L.rebuilt o deps) := by
  obtain ⟨groups, hgroups⟩ := hcurrent.accepted
  have hnodup := (parentGroups_eq_ok hgroups).1
  have hrebuilt : L.rebuilt o deps = groups.flatMap (L.groupOutput o deps) := by
    simp only [ParentLocal.rebuilt, hgroups]
  have hlabel : ∀ g ∈ groups, ∀ row ∈ L.groupOutput o deps g,
      (row T.contract.parentKey).text = some g.1 := fun _ _ _ hrow => L.labelled hrow
  rw [hrebuilt]
  refine @perm_of_rowsAt T.contract.parentKey _ _ hsync.describes.owned (fun row hrow => ?_)
    fun d => ?_
  · obtain ⟨g, hg, hrow⟩ := List.mem_flatMap.mp hrow
    exact ⟨g.1, hlabel g hg row hrow⟩
  by_cases hd : d ∈ groups.map Prod.fst
  · obtain ⟨g, hg, rfl⟩ := List.mem_map.mp hd
    have hlookup := hcurrent.written g.1
    rw [current_of_mem hgroups hg] at hlookup
    obtain ⟨rows, hemits, hrel⟩ := hsync.describes.held _ _ hlookup
    rw [rowsAt_flatMap hnodup hlabel hg]
    have hsame : (rows : Multiset Row) =
        (rowsAt T.contract.parentKey (rowsOf s.table) g.1 : Multiset Row) :=
      Multiset.rel_eq.mp (hrel.mono fun _ _ _ _ hkeep => Eq.symm hkeep.stores)
    exact (Multiset.coe_eq_coe.mp hsame).symm.trans (hT.perm_of_emits hemits)
  · have hlookup := (hcurrent.written d).trans (current_of_notMem hgroups hd)
    have habsent : rowsAt T.contract.parentKey (rowsOf s.table) d = [] :=
      hsync.describes.absent d hlookup
    rw [habsent, rowsAt_eq_nil fun row hrow htext => ?_]
    obtain ⟨g, hg, hrow⟩ := List.mem_flatMap.mp hrow
    rw [hlabel g hg row hrow] at htext
    exact hd (Option.some.inj htext ▸ List.mem_map_of_mem hg)

/-- A full refresh that returns writes the rows of a rebuild. -/
theorem full_refresh_rows {result : TransformResult}
    (hrun : (T.run o true deps).exec (TargetOp.exec assign table) s = (t, .ok result)) :
    (rowsOf t.table).Perm (L.rebuilt o deps) := by
  rw [run, runIncrementalTransform, Prog.exec_ofExcept_bind] at hrun
  split at hrun
  swap
  · cases hrun
  have hbaseline : (stateBaseline true).exec (TargetOp.exec assign table) s =
      (s, .ok (∅, false)) := rfl
  rw [Prog.exec_bind_ok _ hbaseline, Prog.exec_ofExcept_bind] at hrun
  split at hrun
  swap
  · cases hrun
  rename_i groups hgroups
  simp only [Bool.false_eq_true, false_and, if_false] at hrun
  rw [Prog.exec_ofExcept_bind] at hrun
  split at hrun
  swap
  · cases hrun
  rename_i output houtput
  rw [Prog.exec_ofExcept_bind] at hrun
  split at hrun
  swap
  · cases hrun
  obtain ⟨u, n, hfull, hrun⟩ := (Prog.exec_bind_eq_ok _).mp hrun
  rw [Prog.exec_perform] at hfull
  obtain ⟨target, htarget, hu⟩ := bind_eq_ok.mp (Target.commit_ok hfull)
  obtain ⟨rfl, -⟩ := Prod.mk.inj (Except.ok.inj hu)
  obtain ⟨v, r, hreplace, hrun⟩ := (Prog.exec_bind_eq_ok _).mp hrun
  rw [Prog.exec_perform] at hreplace
  obtain ⟨-, -, hv⟩ := bind_eq_ok.mp (Target.commit_ok hreplace)
  obtain ⟨rfl, -⟩ := Prod.mk.inj (Except.ok.inj hv)
  obtain ⟨rfl, -⟩ := Prod.mk.inj hrun
  obtain ⟨-, rfl⟩ := materializeFull_eq_ok htarget
  have hout : T.transformFn o deps = .ok output := by
    change T.transformFn o (Function.update deps T.parentSource (deps T.parentSource)) =
      .ok output at houtput
    rwa [Function.update_eq_self] at houtput
  have hgroups' : T.groups deps = .ok groups := hgroups
  simp only [rowsOf_some, ParentLocal.rebuilt, hgroups']
  exact L.union hgroups' hout

end History

end IncrementalTransform

/-! ### One summary for each document -/

/-- Digests that do not shorten what they digest. -/
def sampleDigests : TransformRuntime where
  canonicalJson row := String.ofList (encodeCells row)
  referenceFingerprint rows := String.ofList (encodeList encodeCells rows)
  inputFingerprint key rows refs := String.ofList (encodeText key ++ (encodeList encodeCells rows ++
    encodeList (fun r : String × String => encodeText r.1 ++ encodeText r.2) refs))

theorem sampleDigests_collisionFree : sampleDigests.CollisionFree where
  reference_inj _ _ h := prefixFree_cells.list.injective (String.ofList_injective h)
  input_inj := by
    intro key key' rows rows' refs refs' h
    obtain ⟨rfl, hrest⟩ := prefixFree_text (String.ofList_injective h)
    obtain ⟨rfl, hrefs⟩ := prefixFree_cells.list hrest
    exact ⟨rfl, rfl, (prefixFree_text.pair prefixFree_text).list.injective hrefs⟩

/-- The summary of a document. -/
def summaryRow (doc summary : String) : Row := fun c =>
  if c = "doc" then .string doc else if c = "summary_id" then .string doc
    else if c = "summary" then .string summary else .null

/-- The columns of summaries. -/
def summaryColumns : List (String × String) :=
  [("doc", "String"), ("summary_id", "String"), ("summary", "String")]

/-- A frame of summaries. -/
def summaries (pairs : List (String × String)) : Frame where
  schema := summaryColumns
  rows := pairs.map fun p => summaryRow p.1 p.2
  nodup := by decide
  blank := by
    intro row hrow c hc
    obtain ⟨p, -, rfl⟩ := List.mem_map.mp hrow
    simp only [summaryColumns, List.map_cons, List.map_nil, List.mem_cons, List.not_mem_nil,
      or_false, not_or] at hc
    simp [summaryRow, hc.1, hc.2.1, hc.2.2]

section Summary

variable (summary : List RowDict → String)

/-- A transform that summarizes the rows of each document, with a label from its options. -/
def summaryTransform : IncrementalTransform String where
  name := "summaries"
  dependencies := ["docs"]
  contract := { parentKey := "doc", childKey := "summary_id", parentSourceKey := "doc" }
  accepted := by decide
  onSchemaChange := .fail
  insertOverwrite := false
  runtime := sampleDigests
  codeVersion label := label
  transformFn label deps := do
    let groups ← parentGroups (deps "docs") "doc" "summaries"
    return summaries (groups.map fun g =>
      (g.1, label ++ summary (g.2.map (rowDict (deps "docs").columns))))

/-- The summaries are local to their documents. -/
def summaryLocal : (summaryTransform summary).ParentLocal where
  rowsFor label doc rows _ := [summaryRow doc (label ++ summary rows)]
  union := by
    intro label deps groups output hgroups houtput
    obtain ⟨groups', hgroups', houtput⟩ := bind_eq_ok.mp houtput
    obtain rfl := Except.ok.inj houtput
    obtain rfl : groups = groups' := Except.ok.inj (hgroups.symm.trans hgroups')
    simp only [summaries, List.map_map]
    rw [List.map_eq_flatMap]
    exact List.Perm.refl _
  labelled := by
    intro label doc rows refs row hrow
    obtain rfl := List.mem_singleton.mp hrow
    rfl
  references _ := rfl

theorem summaryLocal_distinctKeys : (summaryLocal summary).DistinctKeys := by
  intro label deps
  unfold IncrementalTransform.ParentLocal.rebuilt
  split
  · rename_i groups hgroups
    have hkeys : (groups.flatMap ((summaryLocal summary).groupOutput label deps)).map
        (fun row => (row (summaryTransform summary).contract.childKey).text) =
          (groups.map Prod.fst).map some := by
      rw [List.map_flatMap, List.map_map, List.map_eq_flatMap]
      rfl
    rw [hkeys]
    exact (parentGroups_eq_ok hgroups).1.map (Option.some_injective _)
  · exact List.nodup_nil

theorem summaryTransform_columnsFixed :
    (summaryTransform summary).ColumnsFixed (fun _ cell => some cell) summaryColumns := by
  intro label deps output houtput
  obtain ⟨groups, -, houtput⟩ := bind_eq_ok.mp houtput
  obtain rfl := Except.ok.inj houtput
  exact ⟨rfl, fun _ _ _ _ => rfl⟩

/-- If the summary does not depend on the order of the rows, nor does the transform. -/
theorem summaryLocal_reliable (h : ∀ rows rows' : List RowDict, rows.Perm rows' →
    summary rows = summary rows') : IncrementalTransform.Reliable (summaryLocal summary) where
  collisionFree := sampleDigests_collisionFree
  codeVersion_inj _ _ heq := heq
  orderFree label doc rows rows' _ _ hrows _ := by
    have hsame := h rows rows' hrows
    simp only [summaryLocal, hsame]
    exact List.Perm.refl _

/-- A run of the transform in a warehouse of strings. -/
def runSummaries (label : String) (fullRefresh : Bool) (pairs : List (String × String))
    (s : Target) : Target × Except Failure TransformResult :=
  ((summaryTransform summary).run label fullRefresh fun _ => mentions pairs).exec
    (TargetOp.exec (fun _ cell => some cell) "summaries") s

end Summary

/-- The number of the rows. -/
def countRows (rows : List RowDict) : String := String.ofList (rows.map fun _ => '|')

/-- The entities of the rows in order. -/
def joinRows (rows : List RowDict) : String :=
  String.join (rows.map fun row => ((row.lookup "entity").bind Cell.text).getD "")

end Stel.Execution
