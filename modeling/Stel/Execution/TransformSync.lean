import Stel.Execution.Contract
import Stel.Warehouse.Written

/-!
# Incremental transforms against rebuilds

A transform that works parent by parent is run incrementally: the rows of the parents that a run
skips were emitted by earlier runs, on the same inputs up to the order of their rows.

## Main definitions

* `IncrementalTransform.ParentLocal`: the output is the union of the outputs on single parents.
* `IncrementalTransform.Storage`: how the target stores the rows of the outputs.
* `IncrementalTransform.Synced`: the target holds, parent by parent, what was written.

## Main results

* `IncrementalTransform.synced_full`, `IncrementalTransform.synced_replace`: the target after the
  publication of a run.
-/

namespace Stel.Execution

open Stel.Warehouse

/-! ### The groups of a source -/

section Groups

variable {name keyCol key : String} {row : Row} {rows : List Row}
  {groups result : List (String × List Row)}

theorem lookup_addToGroup (k : String) :
    ((addToGroup key row groups).lookup k).getD [] =
      (groups.lookup k).getD [] ++ if k = key then [row] else [] := by
  induction groups with
  | nil =>
    by_cases hk : k = key
    · simp [addToGroup, hk]
    · have hb : (k == key) = false := by simpa using hk
      simp [addToGroup, List.lookup_cons, hb, hk]
  | cons g groups ih =>
    obtain ⟨k', rs⟩ := g
    simp only [addToGroup]
    split
    · rename_i hkey
      subst hkey
      by_cases hk : k = k'
      · simp [hk]
      · have hb : (k == k') = false := by simpa using hk
        simp [List.lookup_cons, hb, hk]
    · rename_i hkey
      by_cases hk : k = k'
      · subst hk
        simp [hkey]
      · have hb : (k == k') = false := by simpa using hk
        simpa [List.lookup_cons, hb] using ih

theorem mem_keys_addToGroup {k : String} :
    k ∈ (addToGroup key row groups).map Prod.fst ↔ k = key ∨ k ∈ groups.map Prod.fst := by
  induction groups with
  | nil => simp [addToGroup]
  | cons g groups ih =>
    obtain ⟨k', rs⟩ := g
    simp only [addToGroup]
    split
    · rename_i hkey
      subst hkey
      simp
    · rw [List.map_cons, List.mem_cons, ih, List.map_cons, List.mem_cons]
      tauto

theorem nodup_addToGroup (h : (groups.map Prod.fst).Nodup) :
    ((addToGroup key row groups).map Prod.fst).Nodup := by
  induction groups with
  | nil => simp [addToGroup]
  | cons g groups ih =>
    obtain ⟨k', rs⟩ := g
    obtain ⟨hnew, hrest⟩ := List.nodup_cons.mp h
    simp only [addToGroup]
    split
    · exact h
    · rename_i hkey
      rw [List.map_cons, List.nodup_cons, mem_keys_addToGroup, not_or]
      exact ⟨⟨hkey, hnew⟩, ih hrest⟩

/-- The rows of a source that is accepted have keys that are not blank, and are grouped by them. -/
theorem groupRows_eq_ok (h : groupRows name keyCol groups rows = .ok result)
    (hnodup : (groups.map Prod.fst).Nodup) :
    (∀ row ∈ rows, ∃ key, (row keyCol).text = some key ∧ isBlank key = false) ∧
      (result.map Prod.fst).Nodup ∧
      (∀ k, (result.lookup k).getD [] = (groups.lookup k).getD [] ++ rowsAt keyCol rows k) ∧
      ∀ k, k ∈ result.map Prod.fst ↔ k ∈ groups.map Prod.fst ∨ rowsAt keyCol rows k ≠ [] := by
  induction rows generalizing groups with
  | nil =>
    obtain rfl := Except.ok.inj h
    exact ⟨by simp, hnodup, by simp, by simp⟩
  | cons row rows ih =>
    simp only [groupRows] at h
    split at h
    swap
    · cases h
    rename_i key hkey
    split at h
    · cases h
    rename_i hblank
    obtain ⟨hall, hresult, hlookup, hkeys⟩ := ih h (nodup_addToGroup hnodup)
    have hcons : ∀ k, rowsAt keyCol (row :: rows) k =
        (if k = key then [row] else []) ++ rowsAt keyCol rows k := by
      intro k
      by_cases hk : k = key
      · simp [rowsAt, hkey, hk]
      · simp [rowsAt, hkey, hk, Ne.symm hk]
    refine ⟨List.forall_mem_cons.mpr ⟨⟨key, hkey, by simpa using hblank⟩, hall⟩, hresult,
      fun k => ?_, fun k => ?_⟩
    · rw [hlookup, lookup_addToGroup, hcons, List.append_assoc]
    · rw [hkeys, mem_keys_addToGroup, hcons]
      by_cases hk : k = key <;> simp [hk]

theorem groupRows_isOk (h : ∀ row ∈ rows, ∃ key, (row keyCol).text = some key ∧
    isBlank key = false) : ∃ result, groupRows name keyCol groups rows = .ok result := by
  induction rows generalizing groups with
  | nil => exact ⟨groups, rfl⟩
  | cons row rows ih =>
    obtain ⟨⟨key, hkey, hblank⟩, hrest⟩ := List.forall_mem_cons.mp h
    simp only [groupRows, hkey, hblank, Bool.false_eq_true, if_false]
    exact ih hrest

/-- The groups of an accepted source: the rows of every key that has some, each key once. -/
theorem parentGroups_eq_ok {frame : Frame} (h : parentGroups frame keyCol name = .ok groups) :
    (groups.map Prod.fst).Nodup ∧
      (∀ row ∈ frame.rows, ∃ key, (row keyCol).text = some key ∧ isBlank key = false) ∧
      ∀ k rs, (k, rs) ∈ groups ↔ rs = rowsAt keyCol frame.rows k ∧ rs ≠ [] := by
  simp only [parentGroups] at h
  split at h
  · cases h
  split at h
  · cases h
  obtain ⟨hall, hnodup, hlookup, hkeys⟩ := groupRows_eq_ok h List.nodup_nil
  refine ⟨hnodup, hall, fun k rs => ?_⟩
  rw [mem_iff_lookup hnodup]
  have hrows : (groups.lookup k).getD [] = rowsAt keyCol frame.rows k := by simpa using hlookup k
  cases hfound : groups.lookup k with
  | some rs' =>
    have hin : k ∈ groups.map Prod.fst :=
      List.mem_map_of_mem (f := Prod.fst) ((mem_iff_lookup hnodup).mpr hfound)
    have hne : rowsAt keyCol frame.rows k ≠ [] := by simpa using (hkeys k).mp hin
    rw [hfound, Option.getD_some] at hrows
    rw [Option.some.injEq, ← hrows]
    constructor
    · rintro rfl
      exact ⟨rfl, hrows ▸ hne⟩
    · rintro ⟨rfl, -⟩
      rfl
  | none =>
    rw [hfound, Option.getD_none] at hrows
    simp [← hrows]

/-- The groups of the rows with some of the keys. -/
theorem parentGroups_filterRows {frame : Frame} {keys : List String} {keep : Row → Bool}
    (hkeep : ∀ row, keep row = true ↔ ∃ key ∈ keys, (row keyCol).text = some key)
    (h : parentGroups frame keyCol name = .ok groups) :
    ∃ groups', parentGroups (frame.filterRows keep) keyCol name = .ok groups' ∧
      ∀ k rs, (k, rs) ∈ groups' ↔ (k, rs) ∈ groups ∧ k ∈ keys := by
  obtain ⟨-, hall, hmem⟩ := parentGroups_eq_ok h
  obtain ⟨groups', hok⟩ : ∃ groups', parentGroups (frame.filterRows keep) keyCol name =
      .ok groups' := by
    simp only [parentGroups] at h ⊢
    rw [Frame.schema_filterRows]
    split at h
    · cases h
    split at h
    · cases h
    rename_i hstring
    simp only [hstring, if_false]
    exact groupRows_isOk fun row hrow => hall row (List.mem_of_mem_filter hrow)
  refine ⟨groups', hok, fun k rs => ?_⟩
  rw [(parentGroups_eq_ok hok).2.2, hmem]
  by_cases hk : k ∈ keys
  · have hsame : rowsAt keyCol (frame.filterRows keep).rows k = rowsAt keyCol frame.rows k :=
      rowsAt_filter_eq fun row hrow => (hkeep row).mpr ⟨k, hk, (mem_rowsAt.mp hrow).2⟩
    rw [hsame]
    simp [hk]
  · have hnone : rowsAt keyCol (frame.filterRows keep).rows k = [] := by
      refine rowsAt_filter_eq_nil fun row hrow => ?_
      rw [← Bool.not_eq_true, hkeep]
      rintro ⟨key, hkey, htext⟩
      rw [(mem_rowsAt.mp hrow).2] at htext
      obtain rfl := Option.some.inj htext
      exact hk hkey
    rw [hnone]
    simp only [hk, and_false, iff_false]
    rintro ⟨rfl, hne⟩
    exact hne rfl

end Groups

/-! ### Transforms that work parent by parent -/

namespace IncrementalTransform

variable {Ω : Type} (T : IncrementalTransform Ω)

/-- The output of the transform on a set of parents and fixed reference frames is the union of its
outputs on the single parents, whose rows carry the parent's key. -/
structure ParentLocal where
  /-- The output on a single parent: its key, its rows and those of the other dependencies. -/
  rowsFor : Ω → String → List RowDict → (String → List RowDict) → List Row
  union : ∀ {o : Ω} {deps : String → Frame} {groups : List (String × List Row)} {output : Frame},
    T.groups deps = .ok groups → T.transformFn o deps = .ok output →
      output.rows.Perm (groups.flatMap fun g => rowsFor o g.1 (T.parentRows deps g.2)
        (frameRows deps))
  labelled : ∀ {o : Ω} {key : String} {rows : List RowDict} {refs : String → List RowDict}
    {row : Row}, row ∈ rowsFor o key rows refs → (row T.contract.parentKey).text = some key
  /-- The parent source itself is not a reference. -/
  references : ∀ {o : Ω} {key : String} {rows : List RowDict} {refs refs' : String → List RowDict},
    (∀ n ∈ T.dependencies, n ≠ T.parentSource → refs n = refs' n) →
      rowsFor o key rows refs = rowsFor o key rows refs'

variable {T} (L : T.ParentLocal)

namespace ParentLocal

/-- The output on a parent does not depend on the order of its rows and of the reference rows. -/
def OrderFree : Prop :=
  ∀ (o : Ω) (key : String) (rows rows' : List RowDict) (refs refs' : String → List RowDict),
    rows.Perm rows' → (∀ n ∈ T.dependencies, n ≠ T.parentSource → (refs n).Perm (refs' n)) →
      (L.rowsFor o key rows refs).Perm (L.rowsFor o key rows' refs')

/-- The rows of a group of the source. -/
def groupOutput (o : Ω) (deps : String → Frame) (g : String × List Row) : List Row :=
  L.rowsFor o g.1 (T.parentRows deps g.2) (frameRows deps)

/-- The rows that a rebuild on the frames would write. -/
def rebuilt (o : Ω) (deps : String → Frame) : List Row :=
  match T.groups deps with
  | .ok groups => groups.flatMap (L.groupOutput o deps)
  | .error _ => []

/-- The rows of all the parents have distinct child keys. -/
def DistinctKeys : Prop :=
  ∀ (o : Ω) (deps : String → Frame),
    ((L.rebuilt o deps).map fun row => (row T.contract.childKey).text).Nodup

variable {L}

/-- The rows of one parent in an output. -/
theorem rowsAt_output {o : Ω} {deps : String → Frame} {groups : List (String × List Row)}
    {output : Frame} (hgroups : T.groups deps = .ok groups)
    (houtput : T.transformFn o deps = .ok output) {g : String × List Row} (hg : g ∈ groups) :
    (rowsAt T.contract.parentKey output.rows g.1).Perm (L.groupOutput o deps g) := by
  have hat : rowsAt T.contract.parentKey (groups.flatMap (L.groupOutput o deps)) g.1 =
      L.groupOutput o deps g :=
    rowsAt_flatMap (parentGroups_eq_ok hgroups).1 (fun _ _ _ hrow => L.labelled hrow) hg
  rw [← hat]
  exact (L.union hgroups houtput).filter _

/-- Every row of an output belongs to a parent of the source. -/
theorem exists_group_of_output {o : Ω} {deps : String → Frame}
    {groups : List (String × List Row)} {output : Frame} (hgroups : T.groups deps = .ok groups)
    (houtput : T.transformFn o deps = .ok output) {row : Row} (hrow : row ∈ output.rows) :
    ∃ g ∈ groups, row ∈ L.groupOutput o deps g ∧ (row T.contract.parentKey).text = some g.1 := by
  obtain ⟨g, hg, hrow⟩ := List.mem_flatMap.mp ((L.union hgroups houtput).mem_iff.mp hrow)
  exact ⟨g, hg, hrow, L.labelled hrow⟩

end ParentLocal

/-- What is assumed of the digests and of the transform: fingerprints and code versions do not
collide, and the order of rows does not matter. -/
structure Reliable : Prop where
  collisionFree : T.runtime.CollisionFree
  codeVersion_inj : Function.Injective T.codeVersion
  orderFree : L.OrderFree

/-- An output that has the columns of the contract. -/
structure Makes (T : IncrementalTransform Ω) (o : Ω) (deps : String → Frame) (output : Frame) :
    Prop where
  called : T.transformFn o deps = .ok output
  keys : T.contract.parentKey ∈ output.columns ∧ T.contract.childKey ∈ output.columns

/-- How a target with the given columns stores the rows of the outputs, under some condition on the
columns. -/
structure Storage (T : IncrementalTransform Ω) (assign : Assignment) where
  Stores : List (String × String) → Row → Row → Prop
  Good : List (String × String) → Prop
  full : ∀ {o : Ω} {deps : String → Frame} {output : Frame}, T.Makes o deps output →
    Good output.schema ∧ ∀ row ∈ output.rows, Stores output.schema row row
  good : ∀ {o : Ω} {deps : String → Frame} {output : Frame} {keys : List String}
    {existing result : Option Frame} {stored : List Row},
    T.Makes o deps output → (∀ target, existing = some target → Good target.schema) →
      Replaced assign T.contract.parentKey keys T.contract.childKey output T.onSchemaChange existing
        result stored → ∀ target, result = some target → Good target.schema
  stored : ∀ {o : Ω} {deps : String → Frame} {output : Frame} {schema : List (String × String)}
    {row st : Row}, T.Makes o deps output → row ∈ output.rows → Good schema →
      (T.onSchemaChange ≠ .ignore → output.columns ⊆ schema.map Prod.fst) →
      assignRow assign schema output.columns row = some st →
        Stores schema row st ∧
          (st T.contract.parentKey).text = (row T.contract.parentKey).text ∧
          (st T.contract.childKey).text = (row T.contract.childKey).text
  kept : ∀ {output : Frame} {keys : List String} {existing result : Option Frame}
    {stored : List Row}, Replaced assign T.contract.parentKey keys T.contract.childKey output
      T.onSchemaChange existing result stored → existing ≠ none → ∀ e, ∀ st ∈ rowsOf existing,
        Stores (schemaOf existing) e st → Stores (schemaOf result) e st

variable {assign : Assignment} (S : T.Storage assign)

/-- The rows that a parent emits under a state value. -/
def emission : Emission where
  keyCol := T.contract.parentKey
  childCol := T.contract.childKey
  Emits d v rows := ∃ o dicts refs, v = T.value o d dicts refs ∧
    rows.Perm (L.rowsFor o d dicts refs)
  Stores := S.Stores

/-- The target holds, parent by parent, what was written under the values of the ghost table. -/
structure Synced (table : Option Frame) (written : StateTable) : Prop where
  describes : (emission L S).Describes written table
  good : ∀ target, table = some target → S.Good target.schema

variable {L S}

theorem synced_empty : Synced L S none ∅ := ⟨Emission.describes_empty, by simp⟩

/-- A state value determines the rows of its parent up to order. -/
theorem Reliable.perm_of_emits (hT : Reliable L) {o : Ω} {d : String} {dicts : List RowDict}
    {refs : String → List RowDict} {rows : List Row}
    (h : (emission L S).Emits d (T.value o d dicts refs) rows) :
    rows.Perm (L.rowsFor o d dicts refs) := by
  obtain ⟨o', dicts', refs', hvalue, hrows⟩ := h
  obtain ⟨hinput, hversion⟩ := StateValue.mk.inj hvalue
  obtain rfl := hT.codeVersion_inj hversion
  obtain ⟨-, hsorted, hrefs⟩ := hT.collisionFree.input_inj hinput
  refine hrows.trans (hT.orderFree o d dicts' dicts refs' refs
    (perm_of_sortRows_eq hsorted.symm) fun n hn hne => ?_)
  have hmem := T.contract.validateAgainst_eq_ok T.accepted n hn hne
  have hsame := List.map_inj_left.mp hrefs n hmem
  exact (perm_of_frameFingerprint_eq hT.collisionFree (Prod.mk.inj hsame).2).symm

/-! ### The records of a source -/

section Records

variable {o : Ω} {deps : String → Frame} {groups : List (String × List Row)}

/-- The state record of a group of the source. -/
def recordOf (T : IncrementalTransform Ω) (o : Ω) (deps : String → Frame)
    (g : String × List Row) : StateRecord :=
  let value := T.value o g.1 (T.parentRows deps g.2) (frameRows deps)
  ⟨g.1, value.inputFingerprint, value.codeVersion⟩

theorem records_eq (hgroups : T.groups deps = .ok groups) :
    T.records o deps = groups.map (recordOf T o deps) := by
  simp only [records, hgroups]
  rfl

theorem keys_map_recordOf (gs : List (String × List Row)) :
    (gs.map (recordOf T o deps)).map (·.recordKey) = gs.map Prod.fst := by
  rw [List.map_map]
  rfl

theorem current_of_mem (hgroups : T.groups deps = .ok groups) {g : String × List Row}
    (hg : g ∈ groups) :
    T.current o deps g.1 = some (T.value o g.1 (T.parentRows deps g.2) (frameRows deps)) := by
  have hnodup := (parentGroups_eq_ok hgroups).1
  rw [current, records_eq hgroups]
  refine StateTable.lookup_upsert (r := recordOf T o deps g) ?_ (List.mem_map_of_mem hg)
  rwa [keys_map_recordOf]

theorem current_of_notMem (hgroups : T.groups deps = .ok groups) {d : String}
    (hd : d ∉ groups.map Prod.fst) : T.current o deps d = none := by
  rw [current, records_eq hgroups]
  refine (StateTable.lookup_upsert_of_notMem ?_).trans rfl
  rwa [keys_map_recordOf]

theorem current_eq_none (hgroups : T.groups deps = .ok groups) {d : String} :
    T.current o deps d = none ↔ d ∉ groups.map Prod.fst := by
  refine ⟨fun hnone hin => ?_, current_of_notMem hgroups⟩
  obtain ⟨g, hg, rfl⟩ := List.mem_map.mp hin
  rw [current_of_mem hgroups hg] at hnone
  cases hnone

/-- The groups that an incremental run processes. -/
def processedGroups (T : IncrementalTransform Ω) (o : Ω) (deps : String → Frame)
    (prior : StateTable) (groups : List (String × List Row)) : List (String × List Row) :=
  groups.filter fun g => prior.lookup g.1 ≠ some (recordOf T o deps g).value

theorem classifyParents_incremental (prior : StateTable) :
    let c := classifyParents (T.model o) true prior deps groups
    c.records = (processedGroups T o deps prior groups).map (recordOf T o deps) ∧
      c.processed = (processedGroups T o deps prior groups).map Prod.fst ∧
      c.changed = ((processedGroups T o deps prior groups).map Prod.fst).filter
        fun d => (prior.lookup d).isSome := by
  induction groups with
  | nil => exact ⟨rfl, rfl, rfl⟩
  | cons g groups ih =>
    obtain ⟨hrecords, hprocessed, hchanged⟩ := ih
    have hvalue : (⟨(T.model o).fingerprint g.1 g.2 deps, (T.model o).codeVersion⟩ : StateValue) =
        (recordOf T o deps g).value := rfl
    simp only [classifyParents, if_true, hvalue]
    by_cases hskip : prior.lookup g.1 = some (recordOf T o deps g).value
    · rw [if_pos hskip, processedGroups, List.filter_cons_of_neg (by simp [hskip])]
      exact ⟨hrecords, hprocessed, hchanged⟩
    · rw [if_neg hskip, processedGroups, List.filter_cons_of_pos (by simp [hskip])]
      refine ⟨?_, ?_, ?_⟩
      · rw [List.map_cons, hrecords]
        rfl
      · rw [List.map_cons, hprocessed]
        rfl
      · rw [List.map_cons, List.filter_cons, hchanged]
        rfl

theorem classifyParents_full (prior : StateTable) :
    (classifyParents (T.model o) false prior deps groups).records =
      groups.map (recordOf T o deps) := by
  induction groups with
  | nil => rfl
  | cons g groups ih =>
    simp only [classifyParents, Bool.false_eq_true, if_false, reduceCtorEq]
    rw [List.map_cons, ← ih]
    rfl

/-- What an incremental run processes, changes and removes. -/
theorem classified (hgroups : T.groups deps = .ok groups) (prior : StateTable) :
    Classified prior (T.current o deps) (classifyParents (T.model o) true prior deps groups).records
      (classifyParents (T.model o) true prior deps groups).changed
      (prior.keys.filter (· ∉ groups.map Prod.fst)) := by
  obtain ⟨hrecords, -, hchanged⟩ := @classifyParents_incremental Ω T o deps groups prior
  have hnodup := (parentGroups_eq_ok hgroups).1
  have hkeys := @keys_map_recordOf Ω T o deps
    (processedGroups T o deps prior groups)
  refine ⟨?_, fun r hr => ?_, fun d => ?_, fun d hd => ?_, fun d hd hprior => ?_,
    mem_removed fun _ => current_eq_none hgroups⟩
  · rw [hrecords, hkeys]
    exact hnodup.sublist (List.filter_sublist.map _)
  · rw [hrecords] at hr
    obtain ⟨g, hg, rfl⟩ := List.mem_map.mp hr
    exact current_of_mem hgroups (List.mem_of_mem_filter hg)
  · rw [hrecords, hkeys]
    constructor
    · intro hd
      obtain ⟨g, hg, rfl⟩ := List.mem_map.mp hd
      obtain ⟨hg, hne⟩ := List.mem_filter.mp hg
      rw [current_of_mem hgroups hg]
      exact ⟨by simp, of_decide_eq_true hne⟩
    · rintro ⟨hcurrent, hne⟩
      have hd : d ∈ groups.map Prod.fst := by
        by_contra hout
        exact hcurrent (current_of_notMem hgroups hout)
      obtain ⟨g, hg, rfl⟩ := List.mem_map.mp hd
      rw [current_of_mem hgroups hg] at hne
      exact List.mem_map_of_mem (List.mem_filter.mpr ⟨hg, decide_eq_true hne⟩)
  · rw [hchanged] at hd
    rw [hrecords, hkeys]
    exact List.mem_of_mem_filter hd
  · rw [hrecords, hkeys] at hd
    rw [hchanged, List.mem_filter, Option.isSome_iff_ne_none]
    exact ⟨hd, hprior⟩

end Records

/-! ### Publications -/

section Publish

variable {o : Ω} {deps : String → Frame} {groups : List (String × List Row)} {output : Frame}
  {existing result : Option Frame} {written : StateTable}

theorem Synced.delete {removed : List String} (h : Synced L S existing written)
    (hdel : deleteRows T.contract.parentKey (removed.map .string) existing = .ok result) :
    Synced L S result (written.delete removed) := by
  refine ⟨h.describes.delete_keys hdel, ?_⟩
  rintro target rfl
  obtain ⟨before, hbefore, hsame⟩ := Option.map_eq_some_iff.mp (deleteRows_eq_ok hdel).1.symm
  exact hsame ▸ h.good before hbefore

/-- The target after a rebuild. -/
theorem synced_full (hgroups : T.groups deps = .ok groups) (hmakes : T.Makes o deps output) :
    Synced L S (some output) (.replace (T.records o deps)) := by
  have hnodup := (parentGroups_eq_ok hgroups).1
  rw [records_eq hgroups]
  refine ⟨Emission.describes_full (by rwa [keys_map_recordOf]) (fun r hr => ?_)
    (fun row hrow => ?_) (S.full hmakes).2, ?_⟩
  · obtain ⟨g, hg, rfl⟩ := List.mem_map.mp hr
    exact ⟨o, _, _, rfl, ParentLocal.rowsAt_output hgroups hmakes.called hg⟩
  · obtain ⟨g, hg, -, htext⟩ := ParentLocal.exists_group_of_output (L := L) hgroups hmakes.called
      hrow
    rw [keys_map_recordOf]
    exact ⟨g.1, List.mem_map_of_mem hg, htext⟩
  · rintro target ⟨⟩
    exact (S.full hmakes).1

/-- The frames that an incremental run calls the transform with. -/
def calledDeps (T : IncrementalTransform Ω) (o : Ω) (processed : List String)
    (deps : String → Frame) : String → Frame :=
  Function.update deps T.parentSource (changedParents (T.model o) processed (deps T.parentSource))

theorem groupOutput_calledDeps (processed : List String) (g : String × List Row) :
    L.groupOutput o (calledDeps T o processed deps) g = L.groupOutput o deps g := by
  have hcolumns : T.parentRows (calledDeps T o processed deps) g.2 = T.parentRows deps g.2 := by
    simp only [parentRows, calledDeps, Function.update_self]
    rfl
  unfold ParentLocal.groupOutput
  rw [hcolumns]
  refine L.references fun n _ hne => ?_
  simp only [frameRows, calledDeps, Function.update_of_ne hne]

theorem groups_calledDeps {processed : List String} (hgroups : T.groups deps = .ok groups) :
    ∃ called, T.groups (calledDeps T o processed deps) = .ok called ∧
      ∀ g, g ∈ called ↔ g ∈ groups ∧ g.1 ∈ processed := by
  obtain ⟨called, hcalled, hmem⟩ := @parentGroups_filterRows _ _ _ _ processed
    (fun row => ∃ key ∈ processed, (row T.contract.parentSourceKey).text = some key)
    (fun row => by simp) hgroups
  refine ⟨called, ?_, fun g => hmem g.1 g.2⟩
  rw [IncrementalTransform.groups, calledDeps, Function.update_self]
  exact hcalled

/-- The rows of an incremental output: those of the processed parents. -/
theorem rowsAt_calledDeps {processed : List String} (hgroups : T.groups deps = .ok groups)
    (houtput : T.transformFn o (calledDeps T o processed deps) = .ok output) :
    (∀ g ∈ groups, g.1 ∈ processed →
      (rowsAt T.contract.parentKey output.rows g.1).Perm (L.groupOutput o deps g)) ∧
    ∀ row ∈ output.rows, ∃ g ∈ groups, g.1 ∈ processed ∧ row ∈ L.groupOutput o deps g ∧
      (row T.contract.parentKey).text = some g.1 := by
  obtain ⟨called, hcalled, hmem⟩ := @groups_calledDeps Ω T o deps groups processed hgroups
  constructor
  · intro g hg hin
    rw [← groupOutput_calledDeps (T := T) (L := L) processed g]
    exact ParentLocal.rowsAt_output hcalled houtput ((hmem g).mpr ⟨hg, hin⟩)
  · intro row hrow
    obtain ⟨g, hg, hmemRow, htext⟩ :=
      ParentLocal.exists_group_of_output (L := L) hcalled houtput hrow
    rw [groupOutput_calledDeps] at hmemRow
    obtain ⟨hg, hin⟩ := (hmem g).mp hg
    exact ⟨g, hg, hin, hmemRow, htext⟩

/-- An accepted output has child keys. -/
theorem child_ne_null (model : TransformModel (String → Frame)) {processed : List String} {u : Unit}
    (h : validateIncrementalOutput model output processed true = .ok u) :
    ∀ row ∈ output.rows, ∃ text, (row model.childKey).text = some text := by
  simp only [validateIncrementalOutput] at h
  split at h
  · cases h
  split at h
  · cases h
  split at h
  · rename_i hheight
    simp [List.length_eq_zero_iff.mp hheight]
  split at h
  · cases h
  split at h
  · cases h
  rename_i hnull
  intro row hrow
  cases hcell : row model.childKey with
  | null => exact absurd ⟨row, hrow, hcell⟩ hnull
  | string text => exact ⟨text, rfl⟩
  | nested text => exact ⟨text, rfl⟩
  | other text => exact ⟨text, rfl⟩

/-- What an incremental run knows when it publishes: its classification, the target after the
removed parents were deleted, and the output that was accepted. -/
structure Publishing (L : T.ParentLocal) (S : T.Storage assign) (o : Ω) (deps : String → Frame)
    (groups : List (String × List Row)) (s : Target) (written : StateTable)
    (c : ParentClassification) (removed : List String) (deleted : Option Frame) (output : Frame) :
    Prop where
  reliable : Reliable L
  synced : Synced L S s.table written
  grouped : T.groups deps = .ok groups
  step : ∀ d, InStep written s.state (T.current o deps) d
  clash : ¬ Clashes (T.model o) s (deps T.parentSource) deps
  classification : c = classifyParents (T.model o) true s.state deps groups
  removal : removed = s.state.keys.filter (· ∉ groups.map Prod.fst)
  deletion : deleteRows T.contract.parentKey (removed.map .string) s.table = .ok deleted
  processed : c.processed ≠ []
  called : T.transformFn o (calledDeps T o c.processed deps) = .ok output
  valid : validateIncrementalOutput (T.model o) output c.processed true = .ok ()

namespace Publishing

variable {s : Target} {c : ParentClassification} {removed : List String} {deleted : Option Frame}
  (p : Publishing L S o deps groups s written c removed deleted output)
include p

theorem classified : Classified s.state (T.current o deps) c.records c.changed removed := by
  rw [p.classification, p.removal]
  exact IncrementalTransform.classified p.grouped s.state

theorem makes : T.Makes o (calledDeps T o c.processed deps) output :=
  ⟨p.called, mem_columns_of_accepted (T.model o) p.valid⟩

theorem keys_records : c.records.map (·.recordKey) = c.processed := by
  obtain ⟨hrecords, hprocessed, -⟩ := @classifyParents_incremental Ω T o deps groups s.state
  rw [p.classification, hrecords, hprocessed, keys_map_recordOf]

theorem exists_group {r : StateRecord} (hr : r ∈ c.records) :
    ∃ g ∈ groups, r = recordOf T o deps g := by
  obtain ⟨hrecords, -, -⟩ := @classifyParents_incremental Ω T o deps groups s.state
  rw [p.classification, hrecords] at hr
  obtain ⟨g, hg, rfl⟩ := List.mem_map.mp hr
  exact ⟨g, List.mem_of_mem_filter hg, rfl⟩

theorem incrementalParents_eq :
    incrementalParents (T.model o) s.state (deps T.parentSource) deps = .ok (c, removed) := by
  have hgroups : parentGroups (deps T.parentSource) (T.model o).parentSourceKey (T.model o).name =
      .ok groups := p.grouped
  simp only [incrementalParents, hgroups, bind, Except.bind, pure, Except.pure,
    p.classification, p.removal]

theorem emittedRows_eq :
    emittedRows (T.model o) s.state (deps T.parentSource) deps = output.rows := by
  have houtput : (T.model o).transform (changedParents (T.model o) c.processed
      (deps T.parentSource)) deps = .ok output := p.called
  simp only [emittedRows, incrementalOutput, p.incrementalParents_eq, bind, Except.bind,
    if_neg p.processed, houtput, p.valid, pure, Except.pure]

/-- A row of a parent that the run neither processes nor removes has no emitted child key. -/
theorem no_clash {d : String} (hd : d ∉ c.records.map (·.recordKey)) {row : Row}
    (hrow : row ∈ rowsAt T.contract.parentKey (rowsOf deleted) d) :
    ¬ ∃ e ∈ output.rows, (row T.contract.childKey).Equals (e T.contract.childKey) := by
  rintro ⟨e, he, heq⟩
  rw [rowsAt_deleteRows p.deletion] at hrow
  split at hrow
  · cases hrow
  rename_i hremoved
  obtain ⟨hmem, htext⟩ := mem_rowsAt.mp hrow
  refine p.clash ⟨row, List.mem_filter.mpr ⟨hmem, decide_eq_true fun key hkey hother => ?_⟩,
    e, p.emittedRows_eq ▸ he, heq⟩
  have hkeys : touchedParents (T.model o) s.state (deps T.parentSource) deps =
      c.processed ++ removed := by
    simp only [touchedParents, p.incrementalParents_eq]
  have hsame : (row T.contract.parentKey).text = some key := hother
  rw [htext] at hsame
  obtain rfl := Option.some.inj hsame
  rw [hkeys, List.mem_append, ← p.keys_records] at hkey
  exact hkey.elim hd hremoved

/-- The rows of a processed parent are deleted: the run names it, it has none, or they are those
that the run writes. -/
theorem rows_gone {r : StateRecord} (hr : r ∈ c.records) : r.recordKey ∈ c.changed ∨
    ∀ row ∈ rowsAt T.contract.parentKey (rowsOf deleted) r.recordKey, ∃ e ∈ output.rows,
      (row T.contract.childKey).Equals (e T.contract.childKey) := by
  have hc := p.classified
  by_cases hstate : s.state.lookup r.recordKey = none
  swap
  · exact .inl (hc.changed _ (List.mem_map_of_mem hr) hstate)
  have hkept : r.recordKey ∉ removed := fun hin => ((hc.removed _).mp hin).1 hstate
  refine .inr fun row hrow => ?_
  rw [rowsAt_deleteRows p.deletion, if_neg hkept] at hrow
  rcases (p.step r.recordKey).of_new hstate with hnone | hsame
  · have habsent := p.synced.describes.absent _ hnone
    rw [show (emission L S).keyCol = T.contract.parentKey from rfl] at habsent
    rw [habsent] at hrow
    cases hrow
  · rw [hc.value r hr] at hsame
    obtain ⟨rows, hemits, hrel⟩ := p.synced.describes.held _ _ hsame
    obtain ⟨source, hsource, hkeep⟩ := Emission.exists_of_rel_right hrel (Multiset.mem_coe.mpr hrow)
    obtain ⟨g, hg, rfl⟩ := p.exists_group hr
    have hprocessed : g.1 ∈ c.processed := p.keys_records ▸ List.mem_map_of_mem hr
    have hperm := p.reliable.perm_of_emits hemits
    have hat := (rowsAt_calledDeps (L := L) p.grouped p.called).1 g hg hprocessed
    have he : source ∈ output.rows :=
      (mem_rowsAt.mp (hat.mem_iff.mpr (hperm.mem_iff.mp (Multiset.mem_coe.mp hsource)))).1
    obtain ⟨text, htext⟩ := child_ne_null (T.model o) p.valid source he
    exact ⟨source, he, text, hkeep.child.trans htext, htext⟩

/-- The publication of an incremental run. -/
theorem synced_replace {table : String}
    (hreplace : replaceChildren assign table T.contract.parentKey c.changed T.contract.childKey
      output T.onSchemaChange deleted = .ok result) :
    Synced L S result ((written.delete removed).upsert c.records) := by
  have hdeleted := p.synced.delete p.deletion
  have hcolumn := (validateIncrementalOutput_eq_ok (T.model o) p.valid).1
  have hwidth : output.schema = [] → output.rows = [] := fun hschema =>
    absurd hcolumn (by simp [Frame.columns, hschema])
  obtain ⟨stored, hreplaced⟩ := replaceChildren_eq_ok hwidth hreplace
  have hgood := S.good p.makes hdeleted.good hreplaced
  have hkeeps : List.Forall₂ ((emission L S).Keeps (schemaOf result)) output.rows stored := by
    refine hreplaced.forall₂_stored fun hne target htarget row hrow st hst => ?_
    subst htarget
    obtain ⟨hstores, hkey, hchild⟩ := S.stored p.makes hrow (hgood target rfl) (hreplaced.wide hne) hst
    exact ⟨hstores, hkey, hchild⟩
  obtain ⟨hrows, howned⟩ := rowsAt_calledDeps (L := L) p.grouped p.called
  refine ⟨hdeleted.describes.replace hreplaced p.classified.nodup (fun r hr => ?_)
    (fun row hrow => ?_) hkeeps (S.kept hreplaced) (fun d hd => ⟨fun hin => ?_, fun row hrow => p.no_clash hd hrow⟩)
    (fun r hr => p.rows_gone hr), hgood⟩
  · obtain ⟨g, hg, rfl⟩ := p.exists_group hr
    exact ⟨o, _, _, rfl, hrows g hg (p.keys_records ▸ List.mem_map_of_mem hr)⟩
  · obtain ⟨g, hg, hin, -, htext⟩ := howned row hrow
    rw [p.keys_records]
    exact ⟨g.1, hin, htext⟩
  · exact hd (p.classified.subset d hin)

end Publishing

end Publish

/-! ### Runs -/

section Run

variable {o : Ω} {deps : String → Frame} {table : String} {records : List StateRecord}
  {s : Target × StateTable}

/-- What an incremental run must meet when it starts, unless it turns out to rebuild the target:
every parent is in step, and no emitted row has the child key of a row that the run leaves alone. -/
def Careful (T : IncrementalTransform Ω) (o : Ω) (deps : String → Frame)
    (s : Target × StateTable) : Prop :=
  s.1.state.keys ≠ [] ∨ s.1.table = none →
    (∀ d, InStep s.2 s.1.state (T.current o deps) d) ∧
      ¬ Clashes (T.model o) s.1 (deps T.parentSource) deps

/-- The source is accepted, and the state and the ghost table have its current values. -/
structure Current (T : IncrementalTransform Ω) (o : Ω) (deps : String → Frame)
    (s : Target × StateTable) : Prop where
  accepted : ∃ groups, T.groups deps = .ok groups
  written : ∀ d, s.2.lookup d = T.current o deps d
  state : ∀ d, s.1.state.lookup d = T.current o deps d

/-- `stateBaseline` reads the target only. -/
theorem safe_stateBaseline {C : Target × StateTable → Prop} (fullRefresh : Bool) (hs : C s) :
    (stateBaseline fullRefresh).Safe (ghostExec assign table records) C
      (fun r t => t = s ∧ (r.2 = false ∨ fullRefresh = false ∧ r = (s.1.state, true) ∧
        (s.1.state.keys ≠ [] ∨ s.1.table = none))) s := by
  cases fullRefresh with
  | true => exact ⟨hs, rfl, .inl rfl⟩
  | false =>
    simp only [stateBaseline, Bool.false_eq_true, if_false, Prog.perform_bind]
    refine safe_read rfl rfl hs ?_
    split
    · rename_i hkeys
      refine safe_read rfl rfl hs ?_
      refine ⟨hs, rfl, ?_⟩
      cases htable : s.1.table with
      | some target => exact .inl rfl
      | none => exact .inr ⟨trivial, rfl, .inr rfl⟩
    · rename_i hkeys
      exact ⟨hs, rfl, .inr ⟨trivial, rfl, .inl hkeys⟩⟩

theorem current_full {groups : List (String × List Row)} (hgroups : T.groups deps = .ok groups)
    (table : Option Frame) :
    Current T o deps (⟨table, .replace (T.records o deps)⟩, .replace (T.records o deps)) :=
  ⟨⟨groups, hgroups⟩, fun _ => rfl, fun _ => rfl⟩

/-- A run keeps the target described at every point, and when it returns the target and the state
are current. -/
theorem safe_run (hT : Reliable L) (fullRefresh : Bool) (hsync : Synced L S s.1.table s.2)
    (hcareful : fullRefresh = false → Careful T o deps s) :
    (T.run o fullRefresh deps).Safe (ghostExec assign table (T.records o deps))
      (fun x => Synced L S x.1.table x.2) (fun _ x => Current T o deps x) s := by
  rw [run, runIncrementalTransform]
  refine Prog.safe_ofExcept_bind hsync fun _ _ => ?_
  refine (safe_stateBaseline fullRefresh hsync).bind ?_
  rintro ⟨prior, isIncremental⟩ s - ⟨rfl, hmode⟩
  refine Prog.safe_ofExcept_bind hsync fun groups hgroups => ?_
  rcases hmode with rfl | ⟨rfl, hbaseline, hincremental⟩
  · simp only [Bool.false_eq_true, false_and, if_false]
    refine Prog.safe_ofExcept_bind hsync fun output houtput => ?_
    change T.transformFn o (Function.update deps T.parentSource (deps T.parentSource)) = .ok output
      at houtput
    rw [Function.update_eq_self] at houtput
    refine Prog.safe_ofExcept_bind hsync fun _ haccepted => ?_
    have hmakes : T.Makes o deps output := ⟨houtput, mem_columns_of_accepted (T.model o) haccepted⟩
    have hrecords : (classifyParents (T.model o) false prior deps groups).records =
        T.records o deps := (classifyParents_full prior).trans (records_eq hgroups).symm
    simp only [publishParents, Bool.false_eq_true, not_false_eq_true, if_true, Prog.perform_bind]
    refine safe_rebuild (C := fun x => Synced L S x.1.table x.2) hrecords hsync
      (fun _ => synced_full hgroups hmakes) fun _ n => ?_
    exact ⟨synced_full hgroups hmakes, current_full hgroups _⟩
  obtain ⟨rfl, rfl⟩ := Prod.mk.inj hbaseline
  obtain ⟨hstep, hclash⟩ := hcareful rfl hincremental
  simp only [true_and, if_true]
  have hclassified := classified (o := o) hgroups s.1.state
  have hdeletion : ∀ removed result, deleteRows T.contract.parentKey (removed.map .string)
      s.1.table = .ok result → Synced L S result (s.2.delete removed) :=
    fun removed result h => hsync.delete h
  split
  · rename_i hnone
    refine (safe_deleteRemoved hsync fun result h => hdeletion _ result h).bind ?_
    rintro _ _ hC ⟨result, -, rfl⟩
    obtain ⟨hrecords, hprocessed, -⟩ := @classifyParents_incremental Ω T o deps groups s.1.state
    have hempty : (classifyParents (T.model o) true s.1.state deps groups).records = [] := by
      rw [hrecords, List.map_eq_nil_iff]
      exact List.map_eq_nil_iff.mp (hprocessed.symm.trans hnone)
    rw [hempty] at hclassified
    exact ⟨hC, ⟨groups, hgroups⟩, lookup_upsert_delete hclassified fun d => (hstep d).settled,
      lookup_upsert_delete hclassified settled_self⟩
  · rename_i hsome
    refine Prog.safe_ofExcept_bind hsync fun output houtput => ?_
    refine Prog.safe_ofExcept_bind hsync fun _ hvalid => ?_
    simp only [publishParents, not_true_eq_false, if_false]
    refine (safe_deleteRemoved hsync fun result h => hdeletion _ result h).bind ?_
    rintro _ _ hC ⟨deleted, hdeleted, rfl⟩
    have p : Publishing L S o deps groups s.1 s.2 _ _ deleted output := ⟨hT, hsync, hgroups, hstep,
      hclash, rfl, rfl, hdeleted, hsome, houtput, hvalid⟩
    refine (safe_asRunError (safe_perform (Q := fun _ x => Current T o deps x) hC
      fun u r hop => ?_)).bind
      fun _ _ hC hQ => ⟨hC, hQ⟩
    obtain ⟨-, hreplace, hstate⟩ := exec_replaceChildren hop
    refine ⟨p.synced_replace hreplace, ⟨groups, hgroups⟩,
      lookup_upsert_delete hclassified fun d => (hstep d).settled, ?_⟩
    rw [hstate]
    exact lookup_upsert_delete hclassified settled_self

end Run

end IncrementalTransform

end Stel.Execution
