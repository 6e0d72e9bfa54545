import Stel.Data.Merge
import Stel.Warehouse.SqlIncremental

/-!
# One incremental SQL model on two warehouses

DuckDB deletes the rows that have a new version and inserts all staged rows, and BigQuery updates them in
the columns that are loaded. A warehouse's assignment casts are a parameter, as are the types that
BigQuery accepts for a new column.

## Main definitions

* `SameMeaning`: both adapters raise `AdapterError`, or both leave the same table.
* `Agreement`: when they do.

## Main results

* `Loads.perm_iff`: the loaded tables have the same rows exactly if nothing is lost.
* `sameMeaning_iff`: the adapters do the same exactly in agreement.
-/

namespace Stel.Warehouse

section Adapters

variable (assign : Assignment) (accepts : String → Bool) (table : String) (uniqueKey : String)
  (policy : OnSchemaChange)

/-! ### Doing the same -/

/-- `AdapterError` is raised. -/
def RaisesAdapterError {α : Type} (x : Except Failure α) : Prop := ∃ m, x = .error (.adapterError m)

/-- Both raise `AdapterError`, or both leave tables with the same columns and the same rows. -/
def SameMeaning (x y : Except Failure (Frame × SqlMaterializationResult)) : Prop :=
  (RaisesAdapterError x ∧ RaisesAdapterError y) ∨
    ∃ f g r r', x = .ok (f, r) ∧ y = .ok (g, r') ∧ f.schema = g.schema ∧ f.rows.Perm g.rows

/-- The keys are neither null nor equal. -/
structure KeysValid (staging : Frame) : Prop where
  notNull : ∀ s ∈ staging.rows, s uniqueKey ≠ .null
  distinct : staging.rows.Pairwise fun s s' => ¬ (s uniqueKey).Equals (s' uniqueKey)

/-- The columns that the target has in the end. -/
def loadedSchema (staging target : Frame) : List (String × String) :=
  if policy = .appendNewColumns then (target.widen staging).schema else target.schema

/-- The run is refused before a column is added. -/
def Rejected (staging target : Frame) : Prop :=
  ¬ KeysValid uniqueKey staging ∨ uniqueKey ∉ target.columns ∨
    policy = .fail ∧ ¬ (staging.columns ⊆ target.columns ∧ target.columns ⊆ staging.columns)

/-- Some value of the query result cannot be stored in its column. -/
def Unstorable (staging target : Frame) : Prop :=
  ∃ s ∈ staging.rows, ∃ c ∈ loadedSchema policy staging target,
    c.1 ∈ staging.columns ∧ assign c.2 (s c.1) = none

/-- The engine accepts the types of the columns to add. -/
def Accepted (staging target : Frame) : Prop :=
  policy = .appendNewColumns → ∀ c ∈ target.newColumns staging, accepts c.2 = true

/-- No row with a new version has a value in a column that the query does not select. -/
def LosesNothing (staging target : Frame) : Prop :=
  ∀ t ∈ target.rows, ∀ s ∈ staging.rows, KeyMatch uniqueKey t s →
    ∀ c ∈ target.columns, c ∉ staging.columns → t c = .null

/-- The keys of the target are unique. -/
def UniqueKeys (target : Frame) : Prop :=
  target.rows.Pairwise fun t t' => ¬ (t uniqueKey).Equals (t' uniqueKey)

/-- A value that is equal to one that a column holds is stored as that value. -/
def StoresEqual (target : Frame) : Prop :=
  ∀ c ∈ target.schema, ∀ t ∈ target.rows, ∀ cell, (t c.1).Equals cell → assign c.2 cell = some (t c.1)

/-- When the adapters do the same. -/
def Agreement (targetIsIceberg declaredIceberg : Bool) (staging target : Frame) : Prop :=
  if targetIsIceberg = declaredIceberg then
    uniqueKey ∈ staging.columns ∧ (Rejected uniqueKey policy staging target ∨
      Accepted accepts policy staging target ∧
        (Unstorable assign policy staging target ∨ LosesNothing uniqueKey staging target))
  else uniqueKey ∉ staging.columns ∨ Rejected uniqueKey policy staging target ∨
    Unstorable assign policy staging target

/-! ### The checks -/

section Checks

variable {assign accepts table uniqueKey policy} {staging target : Frame}

theorem raiseIf_cases (p : Prop) [Decidable p] (m : String) :
    ¬ p ∧ raiseIf p (.adapterError m) = .ok () ∨ p ∧ RaisesAdapterError (raiseIf p (.adapterError m)) := by
  by_cases hp : p
  · exact .inr ⟨hp, m, if_pos hp⟩
  · exact .inl ⟨hp, if_neg hp⟩

theorem RaisesAdapterError.bind {α β : Type} {x : Except Failure α} (h : RaisesAdapterError x)
    (f : α → Except Failure β) : RaisesAdapterError (x >>= f) := by
  obtain ⟨m, rfl⟩ := h
  exact ⟨m, rfl⟩

theorem not_equals_iff {a b : Cell} : ¬ a.Equals b ↔
    ∀ k, a.text = some k → ∀ k', b.text = some k' → k ≠ k' := by
  constructor
  · rintro h k ha k' hb rfl
    exact h ⟨k, ha, hb⟩
  · rintro h ⟨k, ha, hb⟩
    exact h k ha k hb rfl

theorem text_eq_none {a : Cell} : a.text = none ↔ a = .null := by
  cases a <;> simp [Cell.text]

theorem distinct_iff {rows : List Row} : (rows.Pairwise fun s s' => ¬ (s uniqueKey).Equals (s' uniqueKey)) ↔
    ((rows.map (· uniqueKey)).filterMap Cell.text).Nodup := by
  simp only [not_equals_iff, List.Nodup, List.pairwise_filterMap, List.pairwise_map, ne_eq]

theorem keyCheck_of_mem (h : uniqueKey ∈ staging.columns) : ∃ counts,
    keyCheck staging uniqueKey = some counts ∧
      (counts.1 ≠ 0 ∨ counts.2 ≠ 0 ↔ ¬ KeysValid uniqueKey staging) := by
  refine ⟨_, if_pos h, ?_⟩
  set cells := staging.rows.map (· uniqueKey) with hcells
  by_cases hnull : ∀ s ∈ staging.rows, s uniqueKey ≠ .null
  · have hnone : cells.filter (· = .null) = [] := by
      refine List.filter_eq_nil_iff.mpr fun cell hcell => ?_
      obtain ⟨s, hs, rfl⟩ := List.mem_map.mp hcell
      simpa using hnull s hs
    have hlength : (cells.filterMap Cell.text).length = staging.height := by
      rw [List.filterMap_length_eq_length.mpr, hcells, List.length_map, Frame.height]
      intro cell hcell
      obtain ⟨s, hs, rfl⟩ := List.mem_map.mp hcell
      exact Option.isSome_iff_ne_none.mpr fun htext => hnull s hs (text_eq_none.mp htext)
    have hdedup : staging.height - (cells.filterMap Cell.text).dedup.length ≠ 0 ↔
        ¬ (cells.filterMap Cell.text).Nodup := by
      have hle := (List.dedup_sublist (cells.filterMap Cell.text)).length_le
      constructor
      · intro hdup hnodup
        rw [hnodup.dedup, hlength, Nat.sub_self] at hdup
        exact hdup rfl
      · intro hnodup hdup
        refine hnodup (List.dedup_eq_self.mp ((List.dedup_sublist _).eq_of_length ?_))
        omega
    rw [hnone, hdedup, ← distinct_iff]
    constructor
    · rintro (hzero | hdistinct) hvalid
      · exact hzero rfl
      · exact hdistinct hvalid.distinct
    · intro hvalid
      exact .inr fun hdistinct => hvalid ⟨hnull, hdistinct⟩
  · refine iff_of_true (.inl ?_) fun hvalid => hnull hvalid.notNull
    obtain ⟨s, hs, hcell⟩ : ∃ s ∈ staging.rows, s uniqueKey = .null := by
      simpa using hnull
    have hmem : Cell.null ∈ cells.filter (· = .null) :=
      List.mem_filter.mpr ⟨hcell ▸ List.mem_map_of_mem (f := (· uniqueKey)) hs, by simp⟩
    exact Nat.ne_of_gt (List.length_pos_of_mem hmem)

theorem map_newColumns (staging target : Frame) :
    (target.newColumns staging).map Prod.fst = staging.columns.filter (· ∉ target.columns) := by
  show _ = (staging.schema.map Prod.fst).filter (· ∉ target.columns)
  rw [List.filter_map]
  rfl

theorem filter_eq_nil_iff_subset {names names' : List String} :
    names.filter (· ∉ names') = [] ↔ names ⊆ names' := by
  rw [List.filter_eq_nil_iff]
  constructor
  · intro h c hc
    simpa using h c hc
  · intro h c hc
    simpa using h hc

variable (table) in
/-- The plan of a schema change that is not refused. -/
theorem planSchemaChange_spec (hpolicy : ¬ (policy = .fail ∧
      ¬ (staging.columns ⊆ target.columns ∧ target.columns ⊆ staging.columns))) :
    ∃ plan, planSchemaChange target.columns staging.columns policy table = .ok plan ∧
      plan.columnsToAdd = (if policy = .appendNewColumns then (target.newColumns staging).map Prod.fst
        else []) ∧
      ∀ c ∈ target.columns ++ plan.columnsToAdd, c ∈ plan.columnsToLoad ↔ c ∈ staging.columns := by
  simp only [planSchemaChange, filter_eq_nil_iff_subset, map_newColumns]
  by_cases hsame : staging.columns ⊆ target.columns ∧ target.columns ⊆ staging.columns
  · refine ⟨_, if_pos hsame, ?_, fun _ _ => Iff.rfl⟩
    rw [filter_eq_nil_iff_subset.mpr hsame.1, ite_self]
  · rw [if_neg hsame]
    cases policy with
    | fail => exact absurd ⟨rfl, hsame⟩ hpolicy
    | appendNewColumns => exact ⟨_, rfl, rfl, fun _ _ => Iff.rfl⟩
    | ignore =>
      refine ⟨_, rfl, rfl, fun c hc => ?_⟩
      have htarget : c ∈ target.columns := by simpa using hc
      simp [htarget]

theorem planSchemaChange_refused
    (hcolumns : ¬ (staging.columns ⊆ target.columns ∧ target.columns ⊆ staging.columns)) :
    RaisesAdapterError (planSchemaChange target.columns staging.columns .fail table) := by
  simp only [planSchemaChange, filter_eq_nil_iff_subset, if_neg hcolumns]
  exact ⟨_, rfl⟩

end Checks

/-! ### The rows -/

/-- The row that is stored, where every value can be. -/
def storedRow (schema : List (String × String)) (columns : List String) (row : Row) : Row := fun name =>
  match schema.lookup name with
  | some type => if name ∈ columns then (assign type (row name)).getD .null else .null
  | none => .null

/-- The row that a matched row is updated to, where every value can be stored. -/
def updatedRow (schema : List (String × String)) (others : List String) (t s : Row) : Row := fun c =>
  if c ∈ others then storedRow assign schema others s c else t c

/-- Every value of the row can be stored. -/
def Storable (schema : List (String × String)) (columns : List String) (row : Row) : Prop :=
  ∀ c ∈ schema, c.1 ∈ columns → (assign c.2 (row c.1)).isSome

section Rows

variable {assign uniqueKey} {schema : List (String × String)} {columns : List String} {row : Row}

theorem assignRow_of_storable (h : Storable assign schema columns row) :
    assignRow assign schema columns row = some (storedRow assign schema columns row) := if_pos h

theorem storable_of_assignRow {stored : Row} (h : assignRow assign schema columns row = some stored) :
    Storable assign schema columns row := by
  unfold assignRow at h
  split at h
  · assumption
  · cases h

theorem assignRows_of_storable {rows : List Row} (h : ∀ row ∈ rows, Storable assign schema columns row) :
    assignRows assign schema columns rows = some (rows.map (storedRow assign schema columns)) :=
  assignRows_eq_some.mpr (List.forall₂_map_right_iff.mpr
    (List.forall₂_same.mpr fun row hrow => assignRow_of_storable (h row hrow)))

theorem storable_of_assignRows {rows stored : List Row}
    (h : assignRows assign schema columns rows = some stored) :
    ∀ row ∈ rows, Storable assign schema columns row := by
  intro row hrow
  obtain ⟨i, hi, rfl⟩ := List.getElem_of_mem hrow
  have hall := assignRows_eq_some.mp h
  exact storable_of_assignRow (hall.get hi (hall.length_eq ▸ hi))

theorem Storable.others (h : Storable assign schema columns row) :
    Storable assign schema (columns.filter (· ≠ uniqueKey)) row :=
  fun c hc hcolumn => h c hc (List.mem_of_mem_filter hcolumn)

/-- Only the key is missing in the columns that are updated. -/
theorem storable_of_others (h : Storable assign schema (columns.filter (· ≠ uniqueKey)) row)
    (hkey : ∀ c ∈ schema, c.1 = uniqueKey → (assign c.2 (row c.1)).isSome) :
    Storable assign schema columns row := by
  intro c hc hcolumn
  by_cases hname : c.1 = uniqueKey
  · exact hkey c hc hname
  · exact h c hc (List.mem_filter.mpr ⟨hcolumn, decide_eq_true hname⟩)

theorem storedRow_filter {p : String → Bool} {c : String} (hc : p c = true) :
    storedRow assign schema (columns.filter p) row c = storedRow assign schema columns row c := by
  simp only [storedRow, List.mem_filter, hc, and_true]

theorem updateRow_of_storable {t s : Row} (h : Storable assign schema columns s) :
    updateRow assign schema columns t s = some (updatedRow assign schema columns t s) := by
  rw [updateRow, assignRow_of_storable h]
  rfl

theorem storable_of_updateRow {t s row : Row} (h : updateRow assign schema columns t s = some row) :
    Storable assign schema columns s := by
  obtain ⟨stored, hstored, -⟩ := Option.map_eq_some_iff.mp h
  exact storable_of_assignRow hstored

end Rows

/-! ### The load -/

section Load

variable {assign uniqueKey} {target : Frame} {rows : List Row}

theorem matching_of_distinct (hunique : UniqueKeys uniqueKey target)
    (hdistinct : rows.Pairwise fun s s' => ¬ (s uniqueKey).Equals (s' uniqueKey)) :
    Matching (KeyMatch uniqueKey) target.rows rows where
  byTarget := by
    refine hunique.imp ?_
    rintro t t' hne ⟨s, -, ⟨k, hk, hs⟩, ⟨k', hk', hs'⟩⟩
    obtain rfl : k = k' := Option.some_inj.mp (hs.symm.trans hs')
    exact hne ⟨k, hk, hk'⟩
  bySource := by
    refine hdistinct.imp ?_
    rintro s s' hne ⟨t, -, ⟨k, hk, hs⟩, ⟨k', hk', hs'⟩⟩
    obtain rfl : k = k' := Option.some_inj.mp (Eq.symm hk |>.trans hk')
    exact hne ⟨k, hs, hs'⟩

variable {f : Frame} {columns : List String}

variable (uniqueKey) in
theorem mergeRows_of_storable (h : ∀ s ∈ rows, Storable assign f.schema columns s) :
    mergeRows assign uniqueKey f.schema columns rows f.rows =
      some (updateInsert (KeyMatch uniqueKey) (storedRow assign f.schema columns)
        (updatedRow assign f.schema (columns.filter (· ≠ uniqueKey))) f.rows rows) := by
  refine Option.bind_eq_some_iff.mpr ⟨_, mapM_eq_some.mpr (List.forall₂_map_right_iff.mpr
    (List.forall₂_same.mpr fun t _ => ?_)), Option.bind_eq_some_iff.mpr
      ⟨_, assignRows_of_storable fun s hs => h s (List.mem_of_mem_filter hs), rfl⟩⟩
  unfold updateMatched
  cases hfind : rows.find? fun s => KeyMatch uniqueKey t s with
  | none => rfl
  | some s => exact updateRow_of_storable (h s (List.mem_of_find?_eq_some hfind)).others

theorem storable_of_mergeRows {merged : List Row} (hmatching : Matching (KeyMatch uniqueKey) f.rows rows)
    (hkey : ∀ t ∈ f.rows, ∀ s ∈ rows, KeyMatch uniqueKey t s →
      ∀ c ∈ f.schema, c.1 = uniqueKey → (assign c.2 (s c.1)).isSome)
    (h : mergeRows assign uniqueKey f.schema columns rows f.rows = some merged) :
    ∀ s ∈ rows, Storable assign f.schema columns s := by
  obtain ⟨updated, hupdated, h⟩ := Option.bind_eq_some_iff.mp h
  obtain ⟨inserted, hinserted, -⟩ := Option.bind_eq_some_iff.mp h
  intro s hs
  by_cases hmatched : ∃ t ∈ f.rows, KeyMatch uniqueKey t s
  · obtain ⟨t, ht, hmatch⟩ := hmatched
    obtain ⟨i, hi, rfl⟩ := List.getElem_of_mem ht
    have hall := mapM_eq_some.mp hupdated
    have hrow := hall.get hi (hall.length_eq ▸ hi)
    rw [List.get_eq_getElem, hmatching.find ht hs hmatch] at hrow
    exact storable_of_others (storable_of_updateRow hrow) (hkey _ ht s hs hmatch)
  · exact storable_of_assignRows hinserted s (List.mem_filter.mpr ⟨hs, decide_eq_true hmatched⟩)

variable (uniqueKey) in
theorem merge_of_storable (h : ∀ s ∈ rows, Storable assign f.schema columns s) :
    ∃ g, f.merge assign uniqueKey columns rows = some g ∧ g.schema = f.schema ∧
      g.rows = updateInsert (KeyMatch uniqueKey) (storedRow assign f.schema columns)
        (updatedRow assign f.schema (columns.filter (· ≠ uniqueKey))) f.rows rows := by
  have hmerge := mergeRows_of_storable uniqueKey h
  unfold Frame.merge
  split
  · rename_i merged hmerged
    exact ⟨_, rfl, rfl, Option.some.inj (hmerged.symm.trans hmerge)⟩
  · rename_i hnone
    rw [hmerge] at hnone
    cases hnone

theorem storable_of_merge {g : Frame} (hmatching : Matching (KeyMatch uniqueKey) f.rows rows)
    (hkey : ∀ t ∈ f.rows, ∀ s ∈ rows, KeyMatch uniqueKey t s →
      ∀ c ∈ f.schema, c.1 = uniqueKey → (assign c.2 (s c.1)).isSome)
    (h : f.merge assign uniqueKey columns rows = some g) :
    ∀ s ∈ rows, Storable assign f.schema columns s := by
  unfold Frame.merge at h
  split at h
  · rename_i hmerged
    exact storable_of_mergeRows hmatching hkey hmerged
  · cases h

theorem insert_of_storable (h : ∀ s ∈ rows, Storable assign f.schema columns s) :
    ∃ g, (f.filterRows fun t => ¬ ∃ s ∈ rows, KeyMatch uniqueKey t s).insert assign columns rows = .ok g ∧
      g.schema = f.schema ∧ g.rows =
        deleteInsert (KeyMatch uniqueKey) (storedRow assign f.schema columns) f.rows rows := by
  have hrows := assignRows_of_storable h
  obtain ⟨g, hg⟩ : ∃ g, (f.filterRows fun t => ¬ ∃ s ∈ rows, KeyMatch uniqueKey t s).insert assign columns
      rows = .ok g := by
    unfold Frame.insert
    split
    · exact ⟨_, rfl⟩
    · rename_i hnone
      rw [Frame.schema_filterRows, hrows] at hnone
      cases hnone
  obtain ⟨hschema, stored, hstored, hresult⟩ := Frame.insert_eq_ok.mp hg
  rw [Frame.schema_filterRows, hrows] at hstored
  obtain rfl := Option.some.inj hstored
  exact ⟨g, hg, hschema, hresult⟩

theorem storable_of_insert {g : Frame} {keep : Row → Bool}
    (h : (f.filterRows keep).insert assign columns rows = .ok g) :
    ∀ s ∈ rows, Storable assign f.schema columns s := by
  obtain ⟨-, stored, hstored, -⟩ := Frame.insert_eq_ok.mp h
  exact storable_of_assignRows hstored

end Load

/-! ### The loaded table -/

/-- The target with its further columns, and the columns to load. -/
structure Loads (staging target f : Frame) (columns : List String) : Prop where
  schema : f.schema = loadedSchema policy staging target
  rows : f.rows = target.rows
  keeps : target.schema <+: f.schema
  adds : ∀ c ∈ f.columns, c ∉ target.columns → c ∈ staging.columns
  loaded : ∀ c ∈ f.columns, c ∈ columns ↔ c ∈ staging.columns

section Loaded

variable {assign accepts table uniqueKey policy} {staging target f : Frame} {columns : List String}

theorem Loads.storable_iff (h : Loads policy staging target f columns) :
    (∀ s ∈ staging.rows, Storable assign f.schema columns s) ↔
      ¬ Unstorable assign policy staging target := by
  constructor
  · rintro hstorable ⟨s, hs, c, hc, hcolumn, hnone⟩
    rw [← h.schema] at hc
    have hsome := hstorable s hs c hc ((h.loaded c.1 (List.mem_map_of_mem hc)).mpr hcolumn)
    rw [hnone] at hsome
    cases hsome
  · intro hnot s hs c hc hcolumn
    rw [Option.isSome_iff_ne_none]
    intro hnone
    exact hnot ⟨s, hs, c, h.schema ▸ hc, (h.loaded c.1 (List.mem_map_of_mem hc)).mp hcolumn, hnone⟩

variable (hassign : StoresEqual assign target) (htarget : uniqueKey ∈ target.columns)

include hassign htarget

/-- A matched key is stored as the key of the target. -/
theorem Loads.assign_key (h : Loads policy staging target f columns) {t s : Row} (ht : t ∈ target.rows)
    (hmatch : KeyMatch uniqueKey t s) {c : String × String} (hc : c ∈ f.schema) (hname : c.1 = uniqueKey) :
    assign c.2 (s c.1) = some (t uniqueKey) := by
  obtain ⟨column, hcolumn, hkey⟩ := List.mem_map.mp htarget
  have heq : column = c :=
    List.inj_on_of_nodup_map f.nodup (h.keeps.subset hcolumn) hc (hkey.trans hname.symm)
  subst heq
  have hstored := hassign column hcolumn t ht (s column.1) (by rwa [hkey])
  rwa [hkey] at hstored ⊢

variable (hstaging : uniqueKey ∈ staging.columns)

include hstaging

theorem Loads.storedRow_key (h : Loads policy staging target f columns) {t s : Row} (ht : t ∈ target.rows)
    (hmatch : KeyMatch uniqueKey t s) :
    storedRow assign f.schema columns s uniqueKey = t uniqueKey := by
  have hmem : uniqueKey ∈ f.columns := (h.keeps.map Prod.fst).subset htarget
  obtain ⟨type, hlookup⟩ := exists_lookup_of_mem hmem
  obtain ⟨before, after, hschema, -⟩ := List.lookup_eq_some_iff.mp hlookup
  have hc : (uniqueKey, type) ∈ f.schema := by simp [hschema]
  have hstored := h.assign_key hassign htarget ht hmatch hc rfl
  simp only [storedRow, hlookup, if_pos ((h.loaded _ hmem).mpr hstaging), hstored, Option.getD_some]

/-- A matched row is updated to the row that would be inserted exactly if it has no values in columns
that are not loaded. -/
theorem Loads.updatedRow_eq_iff (h : Loads policy staging target f columns) {t s : Row}
    (ht : t ∈ target.rows) (hmatch : KeyMatch uniqueKey t s) :
    updatedRow assign f.schema (columns.filter (· ≠ uniqueKey)) t s =
        storedRow assign f.schema columns s ↔
      ∀ c ∈ target.columns, c ∉ staging.columns → t c = .null := by
  have hother : ∀ c, c ∉ columns.filter (· ≠ uniqueKey) →
      updatedRow assign f.schema (columns.filter (· ≠ uniqueKey)) t s c = t c := fun c hc => if_neg hc
  have hset : ∀ c, c ∈ columns.filter (· ≠ uniqueKey) →
      updatedRow assign f.schema (columns.filter (· ≠ uniqueKey)) t s c =
        storedRow assign f.schema columns s c := fun c hc =>
    (if_pos hc).trans (storedRow_filter (List.mem_filter.mp hc).2)
  have hnull : ∀ c, c ∈ f.columns → c ∉ staging.columns →
      storedRow assign f.schema columns s c = .null := by
    intro c hc hcolumn
    have hnot : c ∉ columns := fun hmem => hcolumn ((h.loaded c hc).mp hmem)
    simp only [storedRow, if_neg hnot]
    split <;> rfl
  constructor
  · intro heq c hc hcolumn
    have hmem : c ∈ f.columns := (h.keeps.map Prod.fst).subset hc
    have hnot : c ∉ columns.filter (· ≠ uniqueKey) := fun hin =>
      hcolumn ((h.loaded c hmem).mp (List.mem_of_mem_filter hin))
    rw [← hother c hnot, heq, hnull c hmem hcolumn]
  · intro hloses
    funext c
    by_cases hin : c ∈ columns.filter (· ≠ uniqueKey)
    · exact hset c hin
    · rw [hother c hin]
      by_cases hkey : c = uniqueKey
      · rw [hkey, h.storedRow_key hassign htarget hstaging ht hmatch]
      · by_cases hmem : c ∈ f.columns
        · have hcolumn : c ∉ staging.columns := fun hcolumn =>
            hin (List.mem_filter.mpr ⟨(h.loaded c hmem).mpr hcolumn, decide_eq_true hkey⟩)
          have hc : c ∈ target.columns := by
            by_contra hnew
            exact hcolumn (h.adds c hmem hnew)
          rw [hloses c hc hcolumn, hnull c hmem hcolumn]
        · have hc : c ∉ target.columns := fun hc => hmem ((h.keeps.map Prod.fst).subset hc)
          have hlookup : f.schema.lookup c = none := lookup_eq_none_of_notMem hmem
          rw [target.blank t ht c hc]
          simp only [storedRow, hlookup]

/-- The two tables have the same rows exactly if nothing is lost. -/
theorem Loads.perm_iff (h : Loads policy staging target f columns) (hunique : UniqueKeys uniqueKey target)
    (hvalid : KeysValid uniqueKey staging) :
    (deleteInsert (KeyMatch uniqueKey) (storedRow assign f.schema columns) target.rows
        staging.rows).Perm
      (updateInsert (KeyMatch uniqueKey) (storedRow assign f.schema columns)
        (updatedRow assign f.schema (columns.filter (· ≠ uniqueKey))) target.rows staging.rows) ↔
      LosesNothing uniqueKey staging target := by
  have hmatching := matching_of_distinct hunique hvalid.distinct
  rw [deleteInsert_perm_iff hmatching]
  · exact forall₂_congr fun t ht => forall₂_congr fun s _ => forall_congr' fun hmatch =>
      h.updatedRow_eq_iff hassign htarget hstaging ht hmatch
  · intro t ht t' ht' s hs s' hs' hmatch hmatch' heq
    have hnot : uniqueKey ∉ columns.filter (· ≠ uniqueKey) := by simp
    have hkey : t uniqueKey = t' uniqueKey := by
      have hcell := congrFun heq uniqueKey
      rw [h.storedRow_key hassign htarget hstaging ht' hmatch'] at hcell
      exact (if_neg hnot).symm.trans hcell
    have hother : KeyMatch uniqueKey t' s := by rwa [KeyMatch, ← hkey]
    exact hmatching.eq_target ht ht' hs hmatch hother

end Loaded

/-! ### The outcomes -/

/-- The checks that both adapters make before a column is added, with the error about a query result
without the key. -/
def plannedChange (missing : Failure) (staging target : Frame) : Except Failure SchemaChangePlan := do
  let counts ← (keyCheck staging uniqueKey).elim (.error missing) .ok
  checkKeys table uniqueKey counts
  checkSelected table uniqueKey staging
  checkTarget table uniqueKey target
  planSchemaChange target.columns staging.columns policy table

/-- The target with the columns of the plan. -/
def widenedTarget (plan : SchemaChangePlan) (staging target : Frame) : Frame :=
  if plan.columnsToAdd = [] then target else target.widen staging

/-- What `DuckDBAdapter` does after the checks. -/
def duckdbLoad (staging target : Frame) (plan : SchemaChangePlan) :
    Except Failure (Frame × SqlMaterializationResult) :=
  let widened := widenedTarget plan staging target
  let updated := (staging.rows.flatMap fun s => widened.rows.filter fun t => KeyMatch uniqueKey t s).length
  let kept := widened.filterRows fun t => ¬ ∃ s ∈ staging.rows, KeyMatch uniqueKey t s
  match kept.insert assign plan.columnsToLoad staging.rows with
  | .ok result => .ok (result, ⟨staging.height, some (staging.height - updated), some updated⟩)
  | .error _ => .error (materializationFailed table "ConversionException")

/-- What `BigQueryAdapter` does after the checks. -/
def bigqueryLoad (staging target : Frame) (plan : SchemaChangePlan) :
    Except Failure (Frame × SqlMaterializationResult) := do
  raiseIf (∃ c ∈ staging.schema, c.1 ∈ plan.columnsToAdd ∧ accepts c.2 = false) (.other "BadRequest")
  let widened := widenedTarget plan staging target
  let matched := widened.rows.filter fun t => ∃ s ∈ staging.rows, KeyMatch uniqueKey t s
  let unmatched := staging.rows.filter fun s => ¬ ∃ t ∈ widened.rows, KeyMatch uniqueKey t s
  let affected := (if plan.columnsToLoad.filter (· ≠ uniqueKey) = [] then 0 else matched.length) +
    unmatched.length
  match widened.merge assign uniqueKey plan.columnsToLoad staging.rows with
  | some result => .ok (result, ⟨affected, none, none⟩)
  | none => .error (materializationFailed table "BadRequest")

section Outcomes

variable {assign accepts table uniqueKey policy} {staging target : Frame}

theorem duckdbSqlIncremental_eq : duckdbSqlIncremental assign table uniqueKey policy staging target =
    plannedChange table uniqueKey policy (materializationFailed table "BinderException") staging target >>=
      duckdbLoad assign table uniqueKey staging target := by
  simp only [duckdbSqlIncremental, plannedChange, duckdbReconcileSqlSchema, reconcileSchema, bind_assoc,
    pure_bind]
  rfl

theorem bigquerySqlIncremental_eq {targetIsIceberg declaredIceberg : Bool} :
    bigquerySqlIncremental assign accepts table uniqueKey policy targetIsIceberg declaredIceberg staging
      target = checkIncrementalFormat table targetIsIceberg declaredIceberg >>= fun _ =>
        plannedChange table uniqueKey policy (.other "BadRequest") staging target >>=
          bigqueryLoad assign accepts table uniqueKey staging target := by
  simp only [bigquerySqlIncremental, plannedChange, bigqueryReconcileSqlSchema, bind_assoc, pure_bind]
  rfl

theorem plannedChange_missing (h : uniqueKey ∉ staging.columns) (missing : Failure) :
    plannedChange table uniqueKey policy missing staging target = .error missing := by
  rw [plannedChange, keyCheck, if_neg h]
  rfl

variable (table policy target) in
/-- The checks that come before the plan. -/
theorem plannedChange_of_mem (hstaging : uniqueKey ∈ staging.columns) (missing : Failure) :
    ¬ (KeysValid uniqueKey staging ∧ uniqueKey ∈ target.columns) ∧
        RaisesAdapterError (plannedChange table uniqueKey policy missing staging target) ∨
      (KeysValid uniqueKey staging ∧ uniqueKey ∈ target.columns) ∧
        plannedChange table uniqueKey policy missing staging target =
          planSchemaChange target.columns staging.columns policy table := by
  obtain ⟨counts, hcounts, hvalid⟩ := keyCheck_of_mem hstaging
  rw [plannedChange, hcounts]
  show _ ∧ RaisesAdapterError (checkKeys table uniqueKey counts >>= _) ∨
    _ ∧ (checkKeys table uniqueKey counts >>= _) = _
  rcases raiseIf_cases (counts.1 ≠ 0 ∨ counts.2 ≠ 0) _ with ⟨hkeys, hok⟩ | ⟨hkeys, hraises⟩
  · have hselected : checkSelected table uniqueKey staging = .ok () :=
      raiseIf_eq_ok.mpr (not_not.mpr hstaging)
    rw [checkKeys, hok, hselected]
    show _ ∧ RaisesAdapterError (checkTarget table uniqueKey target >>= _) ∨
      _ ∧ (checkTarget table uniqueKey target >>= _) = _
    rcases raiseIf_cases (uniqueKey ∉ target.columns) _ with ⟨htarget, hok⟩ | ⟨htarget, hraises⟩
    · rw [checkTarget, hok]
      exact .inr ⟨⟨not_not.mp (mt hvalid.mpr hkeys), not_not.mp htarget⟩, rfl⟩
    · exact .inl ⟨fun hand => htarget hand.2, hraises.bind _⟩
  · exact .inl ⟨fun hand => hvalid.mp hkeys hand.1, hraises.bind _⟩

variable (table) in
theorem plannedChange_rejected (hstaging : uniqueKey ∈ staging.columns)
    (h : Rejected uniqueKey policy staging target) (missing : Failure) :
    RaisesAdapterError (plannedChange table uniqueKey policy missing staging target) := by
  rcases plannedChange_of_mem table policy target hstaging missing with
    ⟨-, hraises⟩ | ⟨⟨hvalid, htarget⟩, heq⟩
  · exact hraises
  · rw [heq]
    rcases h with hkeys | htarget' | ⟨rfl, hcolumns⟩
    · exact absurd hvalid hkeys
    · exact absurd htarget htarget'
    · exact planSchemaChange_refused hcolumns

theorem loads_widenedTarget {plan : SchemaChangePlan} (hadd : plan.columnsToAdd =
      if policy = .appendNewColumns then (target.newColumns staging).map Prod.fst else [])
    (hload : ∀ c ∈ target.columns ++ plan.columnsToAdd, c ∈ plan.columnsToLoad ↔ c ∈ staging.columns) :
    Loads policy staging target (widenedTarget plan staging target) plan.columnsToLoad := by
  have hsame : plan.columnsToAdd = [] → target.schema = loadedSchema policy staging target := by
    intro hnil
    unfold loadedSchema
    split
    · rename_i hpolicy
      rw [hadd, if_pos hpolicy, List.map_eq_nil_iff] at hnil
      show target.schema = target.schema ++ target.newColumns staging
      rw [hnil, List.append_nil]
    · rfl
  unfold widenedTarget
  split
  · rename_i hnil
    rw [hnil, List.append_nil] at hload
    exact ⟨hsame hnil, rfl, List.prefix_rfl, fun c hc hnot => absurd hc hnot, hload⟩
  · rename_i hne
    have hpolicy : policy = .appendNewColumns := by
      by_contra hnot
      exact hne (hadd.trans (if_neg hnot))
    rw [if_pos hpolicy] at hadd
    have hcolumns : (target.widen staging).columns = target.columns ++ plan.columnsToAdd := by
      rw [hadd, map_newColumns, columns_widen]
    refine ⟨(if_pos hpolicy).symm, rfl, List.prefix_append _ _, ?_, fun c hc => hload c (hcolumns ▸ hc)⟩
    intro c hc hnot
    rw [columns_widen, List.mem_append] at hc
    exact (List.mem_filter.mp (hc.resolve_left hnot)).1

variable (accepts) in
theorem not_accepted_iff {plan : SchemaChangePlan} (hadd : plan.columnsToAdd =
      if policy = .appendNewColumns then (target.newColumns staging).map Prod.fst else []) :
    (∃ c ∈ staging.schema, c.1 ∈ plan.columnsToAdd ∧ accepts c.2 = false) ↔
      ¬ Accepted accepts policy staging target := by
  constructor
  · rintro ⟨c, hc, hadded, hrefused⟩ haccepted
    rw [hadd] at hadded
    split at hadded
    · rename_i hpolicy
      rw [map_newColumns] at hadded
      have hnew : c ∈ target.newColumns staging :=
        List.mem_filter.mpr ⟨hc, (List.mem_filter.mp hadded).2⟩
      rw [haccepted hpolicy c hnew] at hrefused
      cases hrefused
    · cases hadded
  · intro hnot
    simp only [Accepted, not_forall] at hnot
    obtain ⟨hpolicy, c, hc, hrefused⟩ := hnot
    refine ⟨c, List.mem_of_mem_filter hc, ?_, Bool.eq_false_iff.mpr hrefused⟩
    rw [hadd, if_pos hpolicy]
    exact List.mem_map_of_mem hc

variable (table) in
theorem exists_plannedChange (hstaging : uniqueKey ∈ staging.columns)
    (h : ¬ Rejected uniqueKey policy staging target) :
    ∃ plan, (∀ missing, plannedChange table uniqueKey policy missing staging target = .ok plan) ∧
      Loads policy staging target (widenedTarget plan staging target) plan.columnsToLoad ∧
      plan.columnsToAdd =
        if policy = .appendNewColumns then (target.newColumns staging).map Prod.fst else [] := by
  simp only [Rejected, not_or, not_not] at h
  obtain ⟨hvalid, htarget, hpolicy⟩ := h
  obtain ⟨plan, hplan, hadd, hload⟩ := planSchemaChange_spec table hpolicy
  refine ⟨plan, fun missing => ?_, loads_widenedTarget hadd hload, hadd⟩
  rcases plannedChange_of_mem table policy target hstaging missing with ⟨hnot, -⟩ | ⟨-, heq⟩
  · exact absurd ⟨hvalid, htarget⟩ hnot
  · exact heq.trans hplan

variable {targetIsIceberg declaredIceberg : Bool}

theorem widenedTarget_rows (plan : SchemaChangePlan) (staging target : Frame) :
    (widenedTarget plan staging target).rows = target.rows := by
  unfold widenedTarget
  split <;> rfl

theorem checkIncrementalFormat_ne (h : targetIsIceberg ≠ declaredIceberg) :
    RaisesAdapterError (checkIncrementalFormat table targetIsIceberg declaredIceberg) := by
  rw [checkIncrementalFormat, if_neg h]
  split
  · exact ⟨_, rfl⟩
  · exact ⟨_, rfl⟩

theorem duckdbLoad_unstorable {plan : SchemaChangePlan}
    (hloads : Loads policy staging target (widenedTarget plan staging target) plan.columnsToLoad)
    (h : Unstorable assign policy staging target) :
    RaisesAdapterError (duckdbLoad assign table uniqueKey staging target plan) := by
  simp only [duckdbLoad]
  split
  · rename_i hinsert
    exact absurd h (hloads.storable_iff.mp (storable_of_insert hinsert))
  · exact ⟨_, rfl⟩

variable (table uniqueKey) in
theorem exists_duckdbLoad {plan : SchemaChangePlan}
    (hloads : Loads policy staging target (widenedTarget plan staging target) plan.columnsToLoad)
    (h : ¬ Unstorable assign policy staging target) :
    ∃ f r, duckdbLoad assign table uniqueKey staging target plan = .ok (f, r) ∧
      f.schema = (widenedTarget plan staging target).schema ∧ f.rows = deleteInsert (KeyMatch uniqueKey)
        (storedRow assign (widenedTarget plan staging target).schema plan.columnsToLoad) target.rows
          staging.rows := by
  obtain ⟨f, hinsert, hschema, hrows⟩ := insert_of_storable (hloads.storable_iff.mpr h)
  rw [hloads.rows] at hrows
  simp only [duckdbLoad]
  split
  · rename_i g hg
    obtain rfl : f = g := Except.ok.inj (hinsert.symm.trans hg)
    exact ⟨f, _, rfl, hschema, hrows⟩
  · rename_i e he
    exact absurd (hinsert.symm.trans he) (by simp)

theorem bigqueryLoad_refused {plan : SchemaChangePlan}
    (h : ∃ c ∈ staging.schema, c.1 ∈ plan.columnsToAdd ∧ accepts c.2 = false) :
    bigqueryLoad assign accepts table uniqueKey staging target plan = .error (.other "BadRequest") := by
  rw [bigqueryLoad, raiseIf, if_pos h]
  rfl

variable (assign table uniqueKey target) in
theorem bigqueryLoad_accepted {plan : SchemaChangePlan}
    (h : ¬ ∃ c ∈ staging.schema, c.1 ∈ plan.columnsToAdd ∧ accepts c.2 = false) :
    (∃ f r, (widenedTarget plan staging target).merge assign uniqueKey plan.columnsToLoad staging.rows =
        some f ∧ bigqueryLoad assign accepts table uniqueKey staging target plan = .ok (f, r)) ∨
      (widenedTarget plan staging target).merge assign uniqueKey plan.columnsToLoad staging.rows = none ∧
        RaisesAdapterError (bigqueryLoad assign accepts table uniqueKey staging target plan) := by
  rw [bigqueryLoad, raiseIf_eq_ok.mpr h]
  simp only [bind, Except.bind]
  split
  · rename_i f hmerge
    exact .inl ⟨f, _, hmerge, rfl⟩
  · rename_i hmerge
    exact .inr ⟨hmerge, _, rfl⟩

variable (table) in
theorem bigqueryLoad_unstorable {plan : SchemaChangePlan}
    (hloads : Loads policy staging target (widenedTarget plan staging target) plan.columnsToLoad)
    (hassign : StoresEqual assign target) (htarget : uniqueKey ∈ target.columns)
    (hmatching : Matching (KeyMatch uniqueKey) target.rows staging.rows)
    (haccepted : ¬ ∃ c ∈ staging.schema, c.1 ∈ plan.columnsToAdd ∧ accepts c.2 = false)
    (h : Unstorable assign policy staging target) :
    RaisesAdapterError (bigqueryLoad assign accepts table uniqueKey staging target plan) := by
  rcases bigqueryLoad_accepted assign table uniqueKey target haccepted with ⟨f, r, hmerge, -⟩ | ⟨-, hraises⟩
  · rw [← hloads.rows] at hmatching
    refine absurd h (hloads.storable_iff.mp (storable_of_merge hmatching ?_ hmerge))
    intro t ht s _ hmatch c hc hname
    rw [hloads.assign_key hassign htarget (hloads.rows ▸ ht) hmatch hc hname]
    rfl
  · exact hraises

variable (table uniqueKey) in
theorem exists_bigqueryLoad {plan : SchemaChangePlan}
    (hloads : Loads policy staging target (widenedTarget plan staging target) plan.columnsToLoad)
    (haccepted : ¬ ∃ c ∈ staging.schema, c.1 ∈ plan.columnsToAdd ∧ accepts c.2 = false)
    (h : ¬ Unstorable assign policy staging target) :
    ∃ f r, bigqueryLoad assign accepts table uniqueKey staging target plan = .ok (f, r) ∧
      f.schema = (widenedTarget plan staging target).schema ∧ f.rows = updateInsert (KeyMatch uniqueKey)
        (storedRow assign (widenedTarget plan staging target).schema plan.columnsToLoad)
        (updatedRow assign (widenedTarget plan staging target).schema
          (plan.columnsToLoad.filter (· ≠ uniqueKey))) target.rows staging.rows := by
  obtain ⟨f, hmerge, hschema, hrows⟩ :=
    merge_of_storable uniqueKey (hloads.storable_iff.mpr h)
  rw [hloads.rows] at hrows
  rcases bigqueryLoad_accepted assign table uniqueKey target haccepted with ⟨g, r, hmerge', hok⟩ | ⟨hnone, -⟩
  · obtain rfl : f = g := Option.some_inj.mp (hmerge.symm.trans hmerge')
    exact ⟨f, r, hok, hschema, hrows⟩
  · rw [hmerge] at hnone
    cases hnone

theorem not_sameMeaning_other {x : Except Failure (Frame × SqlMaterializationResult)} {m : String} :
    ¬ SameMeaning x (.error (.other m)) := by
  rintro (⟨-, m', h⟩ | ⟨f, g, r, r', -, h, -⟩)
  · cases h
  · cases h

theorem sameMeaning_of_raises {x y : Except Failure (Frame × SqlMaterializationResult)}
    (h : RaisesAdapterError y) : SameMeaning x y ↔ RaisesAdapterError x := by
  constructor
  · rintro (⟨hx, -⟩ | ⟨f, g, r, r', -, hy, -⟩)
    · exact hx
    · obtain ⟨m, hm⟩ := h
      rw [hm] at hy
      cases hy
  · exact fun hx => .inl ⟨hx, h⟩

theorem sameMeaning_of_ok {f g : Frame} {r r' : SqlMaterializationResult} (hschema : f.schema = g.schema) :
    SameMeaning (.ok (f, r)) (.ok (g, r')) ↔ f.rows.Perm g.rows := by
  constructor
  · rintro (⟨⟨m, hm⟩, -⟩ | ⟨f', g', s, s', hf, hg, -, hperm⟩)
    · cases hm
    · cases hf
      cases hg
      exact hperm
  · exact fun hperm => .inr ⟨f, g, r, r', rfl, rfl, hschema, hperm⟩

/-- DuckDB raises `AdapterError` exactly if the query result has no key, is refused, or cannot be
stored. -/
theorem duckdb_raises_iff :
    RaisesAdapterError (duckdbSqlIncremental assign table uniqueKey policy staging target) ↔
      uniqueKey ∉ staging.columns ∨ Rejected uniqueKey policy staging target ∨
        Unstorable assign policy staging target := by
  rw [duckdbSqlIncremental_eq]
  by_cases hstaging : uniqueKey ∈ staging.columns
  · by_cases hrejected : Rejected uniqueKey policy staging target
    · exact iff_of_true ((plannedChange_rejected table hstaging hrejected _).bind _) (.inr (.inl hrejected))
    · obtain ⟨plan, hplan, hloads, -⟩ := exists_plannedChange table hstaging hrejected
      rw [hplan]
      by_cases hunstorable : Unstorable assign policy staging target
      · exact iff_of_true (duckdbLoad_unstorable hloads hunstorable) (.inr (.inr hunstorable))
      · obtain ⟨f, r, hok, -⟩ := exists_duckdbLoad table uniqueKey hloads hunstorable
        refine iff_of_false ?_ ?_
        · rintro ⟨m, hm⟩
          exact absurd (hok.symm.trans hm) (by simp)
        · rintro (hnot | hnot | hnot)
          · exact hnot hstaging
          · exact hrejected hnot
          · exact hunstorable hnot
  · rw [plannedChange_missing hstaging]
    exact iff_of_true ⟨_, rfl⟩ (.inl hstaging)

end Outcomes

/-! ### A column that the query no longer selects -/

/-- Texts are stored as they are. -/
def assignText : Assignment := fun _ cell => some (cell.text.elim .null .string)

/-- A row with an id and a note. -/
def noteRow (note : Cell) : Row := fun c => if c = "id" then .string "1" else if c = "note" then note else .null

/-- A table of notes. -/
def noteTable : Frame where
  schema := [("id", "VARCHAR"), ("note", "VARCHAR")]
  rows := [noteRow (.string "kept")]
  nodup := by decide
  blank := by
    intro row hrow c hc
    obtain rfl := List.mem_singleton.mp hrow
    simp only [List.map_cons, List.map_nil, List.mem_cons, List.not_mem_nil, or_false, not_or] at hc
    simp only [noteRow, if_neg hc.1, if_neg hc.2]

/-- The result of a query for the ids only. -/
def idTable : Frame where
  schema := [("id", "VARCHAR")]
  rows := [noteRow .null]
  nodup := by decide
  blank := by
    intro row hrow c hc
    obtain rfl := List.mem_singleton.mp hrow
    simp only [List.map_cons, List.map_nil, List.mem_cons, List.not_mem_nil, or_false] at hc
    simp only [noteRow, if_neg hc, ite_self]

theorem uniqueKeys_noteTable : UniqueKeys "id" noteTable := List.pairwise_singleton _ _

theorem storesEqual_noteTable : StoresEqual assignText noteTable := by
  intro c hc t ht cell
  obtain rfl := List.mem_singleton.mp ht
  have hstored : ∀ text, noteRow (.string "kept") c.1 = .string text →
      (noteRow (.string "kept") c.1).Equals cell →
        assignText c.2 cell = some (noteRow (.string "kept") c.1) := by
    rintro text htext ⟨k, hk, hcell⟩
    rw [htext] at hk ⊢
    obtain rfl := Option.some_inj.mp hk
    rw [assignText, hcell]
    rfl
  rcases List.mem_cons.mp hc with rfl | hc
  · exact hstored "1" rfl
  · obtain rfl := List.mem_singleton.mp hc
    exact hstored "kept" rfl

end Adapters

end Stel.Warehouse
