import Stel.Execution.ExtractionRows

/-!
# Complete tables of a full extraction run

The table of a full run (`execution/extraction.py`) holds every field of every result exactly if the
key of every value is found in the first records of its flush.

## Main definitions

* `Complete`: the table that holds every field of every result.
* `FoundEarly`: the condition on the flushes.
* `Published`: the table of a run in terms of its flushes.

## Main results

* `extractFull_eq_ok`: what a run publishes.
* `exists_extractFull`: a run whose model and results are accepted publishes a table.
* `complete_iff`: when the table of a run is complete.
* `extractFull_complete_iff`: when the tables of two runs are complete, and the same.
-/

namespace Stel.Execution.Extraction

open Stel.Warehouse

variable (env : FrameEnv) (model : ModelConfig) (run : RunStamp)

/-! ### Complete tables -/

/-- The tables have the same columns and rows, up to their order. -/
def SameTable (t t' : UntypedFrame) : Prop := t.columns.Perm t'.columns ∧ t.rows.Perm t'.rows

/-- The table has the column: it is declared, or the model declares no fields. -/
def Kept (name : String) : Prop := model.fields = [] ∨ Declared env model name

/-- **Nothing is lost.** The table has a row for each document, in their order. Its cells are the
lineage of the document and the fields of its result, each converted to its declared type; it is
`NULL` where these have no value, and where the model declares fields and not this one. The columns
are the declared ones, with those of the results if the model declares no fields. -/
structure Complete (extracted : List (DocumentRef × ExtractionResult)) (table : UntypedFrame) :
    Prop where
  columns : ∀ name, name ∈ table.columns ↔ Declared env model name ∨
    model.fields = [] ∧ ∃ e ∈ extracted, name ∈ e.2.fields.keys
  rows : List.Forall₂ (fun e row => ∀ name,
    (Kept env model name →
      contractCell env model name ((extractionRecord run e.1 e.2).cell name) = some (row name)) ∧
    (¬ Kept env model name → row name = .null)) extracted table.rows

/-- Every kept key that has a value in a flush is found in its first records, and every key of a
result, if the model declares no fields, in the first records of some flush. -/
structure FoundEarly (batching : Batching) (flushEvery : ℕ)
    (extracted : List (DocumentRef × ExtractionResult)) : Prop where
  values : ∀ flush ∈ flushes batching flushEvery extracted, ∀ e ∈ flush, ∀ name,
    Kept env model name → (extractionRecord run e.1 e.2).cell name ≠ .null →
    ∃ first ∈ flush.take inferSchemaLength, name ∈ (extractionRecord run first.1 first.2).keys
  names : model.fields = [] → ∀ e ∈ extracted, ∀ name ∈ e.2.fields.keys,
    ∃ flush ∈ flushes batching flushEvery extracted, ∃ first ∈ flush.take inferSchemaLength,
      name ∈ (extractionRecord run first.1 first.2).keys

/-! ### The frame of a flush -/

/-- The outcome of a document that did not fail. -/
def withResult (e : DocumentRef × ExtractionResult) : Extracted := (e.1, .ok e.2)

@[simp] theorem succeeded_map_withResult (extracted : List (DocumentRef × ExtractionResult)) :
    succeeded (extracted.map withResult) = extracted := by
  rw [succeeded, List.filterMap_map]
  exact List.filterMap_some

@[simp] theorem errorsOf_map_withResult (extracted : List (DocumentRef × ExtractionResult)) :
    errorsOf (extracted.map withResult) = [] := by
  rw [errorsOf, List.filterMap_map]
  exact List.filterMap_none _

/-- The records of some results. -/
def recordsOf (extracted : List (DocumentRef × ExtractionResult)) : List Record :=
  extracted.map fun e => extractionRecord run e.1 e.2

/-- A row that the contract makes of a record, in the frame with the columns found. -/
def RowFound (found : List String) (record : Record) (row : Row) : Prop :=
  ∀ name, (Kept env model name →
      contractCell env model name (if name ∈ found then record.cell name else .null) =
        some (row name)) ∧
    (¬ Kept env model name → row name = .null)

/-- The frame of a flush. -/
structure FlushFrame (flush : List (DocumentRef × ExtractionResult)) (frame : UntypedFrame) :
    Prop where
  columns : ∀ name, name ∈ frame.columns ↔ Declared env model name ∨
    model.fields = [] ∧ name ∈ foundColumns (recordsOf run flush)
  rows : List.Forall₂ (fun e row => RowFound env model (foundColumns (recordsOf run flush))
    (extractionRecord run e.1 e.2) row) flush frame.rows

variable {env model run}

theorem rowForExtraction_eq_ok {doc : DocumentRef} {result : ExtractionResult} {record : Record} :
    rowForExtraction env run doc result = .ok record ↔
      (∀ key ∈ result.fields.keys, env.casefold key ∉ lineageFields) ∧
        record = extractionRecord run doc result := by
  have hconflicts : (result.fields.keys.filter fun key =>
      env.casefold key ∈ lineageFields).insertionSort (· ≤ ·) = [] ↔
      ∀ key ∈ result.fields.keys, env.casefold key ∉ lineageFields := by
    rw [← List.length_eq_zero_iff, List.length_insertionSort, List.length_eq_zero_iff,
      List.filter_eq_nil_iff]
    simp
  simp only [rowForExtraction]
  split
  · rename_i h
    exact iff_of_false (by simp) fun hall => h (hconflicts.mpr hall.1)
  · rename_i h
    rw [Except.ok.injEq, eq_comm]
    exact (and_iff_right (hconflicts.mp (not_not.mp h))).symm

/-- The names of a contracted frame, and its rows. -/
theorem applyContract_eq_ok {frame result : UntypedFrame}
    (h : applyContract env model frame = .ok result) :
    (∀ name, name ∈ result.columns ↔
      Declared env model name ∨ model.fields = [] ∧ name ∈ frame.columns) ∧
    List.Forall₂ (fun row new => ∀ name,
      (Kept env model name → contractCell env model name (row name) = some (new name)) ∧
      (¬ Kept env model name → new name = .null)) frame.rows result.rows := by
  unfold applyContract at h
  split at h
  · cases h
  rename_i schema hschema
  obtain ⟨hnodup, hdeclared⟩ := extractionSchema_eq_ok hschema
  dsimp only at h
  split at h
  swap
  · cases h
  rename_i hsome
  obtain rfl := Except.ok.inj h
  constructor
  · intro name
    rw [← hdeclared]
    show name ∈ contractColumns model _ frame.columns ↔ _
    unfold contractColumns
    split
    · rename_i hfields
      rw [List.mem_append, List.mem_filter, decide_eq_true_iff]
      tauto
    · rename_i hfields
      tauto
  · rw [List.forall₂_map_right_iff, List.forall₂_same]
    intro row hrow name
    have hnull : ∀ name ∉ frame.columns, row name = .null := frame.blank row hrow
    unfold contractRow Kept
    rw [← hdeclared]
    constructor
    · intro hkept
      by_cases hname : name ∈ schema.map Prod.fst
      · rw [if_pos hname]
        by_cases hcolumn : name ∈ frame.columns
        · obtain ⟨cell, hcell⟩ := Option.isSome_iff_exists.mp (hsome row hrow name hname hcolumn)
          rw [if_pos hcolumn, hcell, Option.getD_some]
        · rw [if_neg hcolumn, hnull name hcolumn, contractCell_eq_null]
      · have htyped : typedName env model name = none := by
          rw [typedName, hkept.resolve_right hname]
          rfl
        rw [if_neg hname, if_pos (hkept.resolve_right hname), contractCell, htyped]
    · intro hkept
      rw [not_or] at hkept
      rw [if_neg hkept.2, if_neg hkept.1]

theorem stageFlush_eq_ok {flush : List (DocumentRef × ExtractionResult)}
    {staged : Option UntypedFrame × List String} (hne : flush ≠ [])
    (h : stageFlush env model run (flush.map withResult) = .ok staged) :
    ∃ frame, staged = (some frame, []) ∧ FlushFrame env model run flush frame ∧
      ∀ e ∈ flush, ∀ key ∈ e.2.fields.keys, env.casefold key ∉ lineageFields := by
  obtain ⟨records, hrecords, h⟩ := bind_eq_ok.mp h
  rw [succeeded_map_withResult, mapM_eq_ok] at hrecords
  have hclear : ∀ e ∈ flush, ∀ key ∈ e.2.fields.keys, env.casefold key ∉ lineageFields := by
    intro e he
    obtain ⟨record, -, hrecord⟩ := exists_of_mem_right hrecords.flip he
    exact (rowForExtraction_eq_ok.mp hrecord).1
  have heq : records = recordsOf run flush := by
    rw [recordsOf, ← List.forall₂_eq_eq_eq, List.forall₂_map_right_iff]
    exact hrecords.flip.imp fun record e hrecord => (rowForExtraction_eq_ok.mp hrecord).2
  have hsome : records ≠ [] := by
    rw [heq, recordsOf]
    exact fun h => hne (List.map_eq_nil_iff.mp h)
  rw [if_neg hsome] at h
  obtain ⟨frame, hframe, h⟩ := bind_eq_ok.mp h
  rw [errorsOf_map_withResult] at h
  obtain ⟨hcolumns, hrows⟩ := applyContract_eq_ok hframe
  rw [heq] at hcolumns hrows
  refine ⟨frame, (Except.ok.inj h).symm, ⟨hcolumns, ?_⟩, hclear⟩
  have hrows : List.Forall₂ _ ((recordsOf run flush).map _) frame.rows := hrows
  rw [recordsOf, List.map_map, List.forall₂_map_left_iff] at hrows
  exact hrows

/-! ### The published table -/

/-- The results with their flushes. -/
def withFlush (flushed : List (List (DocumentRef × ExtractionResult))) :
    List (List (DocumentRef × ExtractionResult) × DocumentRef × ExtractionResult) :=
  flushed.flatMap fun flush => flush.map fun e => (flush, e)

theorem mem_withFlush {flushed : List (List (DocumentRef × ExtractionResult))}
    {p : List (DocumentRef × ExtractionResult) × DocumentRef × ExtractionResult} :
    p ∈ withFlush flushed ↔ p.1 ∈ flushed ∧ p.2 ∈ p.1 := by
  simp only [withFlush, List.mem_flatMap, List.mem_map]
  constructor
  · rintro ⟨flush, hflush, e, he, rfl⟩
    exact ⟨hflush, he⟩
  · rintro ⟨hflush, he⟩
    exact ⟨p.1, hflush, p.2, he, rfl⟩

theorem map_snd_withFlush (flushed : List (List (DocumentRef × ExtractionResult))) :
    (withFlush flushed).map Prod.snd = flushed.flatten := by
  rw [withFlush, List.map_flatMap, ← List.flatMap_id]
  refine List.flatMap_congr fun flush _ => ?_
  rw [List.map_map]
  exact List.map_id _

variable {batching : Batching} {flushEvery : ℕ} {extracted : List (DocumentRef × ExtractionResult)}

theorem checkWindow_map_withResult (window : List (DocumentRef × ExtractionResult)) :
    checkWindow model batching (window.map withResult) = .ok () := by
  unfold checkWindow
  split
  · rw [errorsOf_map_withResult, if_neg (by simp)]
  · rfl

/-- What the flushes are staged as. -/
theorem mapM_stageWindow_eq_ok {staged : List (List (Option UntypedFrame × List String))} :
    (batching.windowsOf (extracted.map withResult)).mapM
        (stageWindow env model run batching flushEvery) = .ok staged →
      List.Forall₂ (fun flush s => stageFlush env model run (flush.map withResult) = .ok s)
        (flushes batching flushEvery extracted) staged.flatten := by
  intro h
  rw [windowsOf_map, mapM_eq_ok, List.forall₂_map_left_iff] at h
  rw [flushes, List.flatMap_def]
  refine List.rel_flatten ?_
  rw [List.forall₂_map_left_iff]
  refine h.imp fun window s hwindow => ?_
  obtain ⟨-, hwindow⟩ := check_bind_eq_ok.mp hwindow
  rw [slices_map, mapM_eq_ok, List.forall₂_map_left_iff] at hwindow
  exact hwindow

/-- The frames of some flushes without failed documents. -/
theorem exists_frames {flushed : List (List (DocumentRef × ExtractionResult))}
    {staged : List (Option UntypedFrame × List String)} (hne : ∀ flush ∈ flushed, flush ≠ [])
    (h : List.Forall₂ (fun flush s => stageFlush env model run (flush.map withResult) = .ok s)
      flushed staged) :
    ∃ frames, staged.filterMap Prod.fst = frames ∧ staged.flatMap Prod.snd = [] ∧
      List.Forall₂ (FlushFrame env model run) flushed frames ∧
      ∀ flush ∈ flushed, ∀ e ∈ flush, ∀ key ∈ e.2.fields.keys,
        env.casefold key ∉ lineageFields := by
  induction h with
  | nil => exact ⟨[], rfl, rfl, .nil, by simp⟩
  | @cons flush s flushed staged hflush _ ih =>
    obtain ⟨frames, hframes, herrors, hall, hclear⟩ :=
      ih fun f hf => hne f (List.mem_cons_of_mem _ hf)
    obtain ⟨frame, rfl, hframe, hfirst⟩ := stageFlush_eq_ok (hne flush List.mem_cons_self) hflush
    refine ⟨frame :: frames, ?_, ?_, .cons hframe hall, ?_⟩
    · rw [List.filterMap_cons, hframes]
    · rw [List.flatMap_cons, herrors]
      rfl
    · exact List.forall_mem_cons.mpr ⟨hfirst, hclear⟩

/-- The table of a run. -/
structure Published (env : FrameEnv) (model : ModelConfig) (run : RunStamp)
    (flushed : List (List (DocumentRef × ExtractionResult))) (table : UntypedFrame) : Prop where
  columns : ∀ name, name ∈ table.columns ↔ Declared env model name ∨
    model.fields = [] ∧ ∃ flush ∈ flushed, name ∈ foundColumns (recordsOf run flush)
  rows : List.Forall₂ (fun p row => RowFound env model (foundColumns (recordsOf run p.1))
    (extractionRecord run p.2.1 p.2.2) row) (withFlush flushed) table.rows
  clear : ∀ flush ∈ flushed, ∀ e ∈ flush, ∀ key ∈ e.2.fields.keys,
    env.casefold key ∉ lineageFields

theorem extractFull_eq_ok {table : UntypedFrame}
    (h : extractFull env model run batching flushEvery (extracted.map withResult) =
      .ok (some table)) :
    Published env model run (flushes batching flushEvery extracted) table := by
  obtain ⟨staged, hstaged, h⟩ := bind_eq_ok.mp h
  obtain ⟨frames, hframes, herrors, hall, hclear⟩ :=
    exists_frames (fun _ => ne_nil_of_mem_flushes) (mapM_stageWindow_eq_ok hstaged)
  rw [herrors, if_neg (by simp), hframes] at h
  generalize flushes batching flushEvery extracted = flushed at hall hclear ⊢
  cases hall with
  | nil =>
    obtain ⟨frame, hframe, h⟩ := bind_eq_ok.mp h
    obtain rfl := Option.some_inj.mp (Except.ok.inj h)
    unfold emptyExtractionFrame at hframe
    split at hframe
    · cases hframe
    rename_i schema hschema
    obtain rfl := Except.ok.inj hframe
    refine ⟨fun name => ?_, .nil, hclear⟩
    rw [← (extractionSchema_eq_ok hschema).2]
    simp
  | @cons flush frame flushed frames hframe hall =>
    obtain rfl := Option.some_inj.mp (Except.ok.inj h)
    have hall : List.Forall₂ (FlushFrame env model run) (flush :: flushed) (frame :: frames) :=
      .cons hframe hall
    refine ⟨fun name => ?_, ?_, hclear⟩
    · rw [UntypedFrame.mem_columns_unionAll]
      constructor
      · rintro ⟨f, hf, hname⟩
        obtain ⟨flush, hflush, hframe⟩ := exists_of_mem_right hall hf
        exact ((hframe.columns name).mp hname).imp_right fun h => ⟨h.1, flush, hflush, h.2⟩
      · rintro (hdeclared | ⟨hfields, flush, hflush, hname⟩)
        · exact ⟨frame, List.mem_cons_self, (hframe.columns name).mpr (.inl hdeclared)⟩
        · obtain ⟨f, hf, hframe⟩ := exists_of_mem_right hall.flip hflush
          exact ⟨f, hf, (hframe.columns name).mpr (.inr ⟨hfields, hname⟩)⟩
    · rw [UntypedFrame.rows_unionAll, withFlush, List.flatMap_def, List.flatMap_def]
      refine List.rel_flatten ?_
      rw [List.forall₂_map_left_iff, List.forall₂_map_right_iff]
      refine hall.imp fun flush frame hframe => ?_
      rw [List.forall₂_map_left_iff]
      exact hframe.rows

/-! ### When nothing is lost -/

/-- A relation between lists that is equivalent to a condition where another one holds. -/
theorem forall₂_iff_of_forall₂ {α β : Type} {R S : α → β → Prop} {T : α → Prop} {xs : List α}
    {ys : List β} (h : List.Forall₂ R xs ys) (hiff : ∀ x ∈ xs, ∀ y, R x y → (S x y ↔ T x)) :
    List.Forall₂ S xs ys ↔ ∀ x ∈ xs, T x := by
  induction h with
  | nil => simp
  | @cons x y xs ys hxy _ ih =>
    rw [List.forall₂_cons, List.forall_mem_cons, hiff x List.mem_cons_self y hxy,
      ih fun x hx => hiff x (List.mem_cons_of_mem _ hx)]

/-- A row is complete exactly if every kept value is found. -/
theorem RowFound.complete_iff {found : List String} {record : Record} {row : Row}
    (h : RowFound env model found record row) :
    (∀ name, (Kept env model name →
        contractCell env model name (record.cell name) = some (row name)) ∧
      (¬ Kept env model name → row name = .null)) ↔
      ∀ name, Kept env model name → record.cell name ≠ .null → name ∈ found := by
  constructor
  · intro hcomplete name hkept hvalue
    by_contra hname
    have hfound := (h name).1 hkept
    rw [if_neg hname, (contractCell_eq_null env model).mpr rfl] at hfound
    have hcell := (hcomplete name).1 hkept
    rw [← hfound, contractCell_eq_null] at hcell
    exact hvalue hcell
  · intro hall name
    refine ⟨fun hkept => ?_, (h name).2⟩
    have hfound := (h name).1 hkept
    by_cases hname : name ∈ found
    · rwa [if_pos hname] at hfound
    · have hnull : record.cell name = .null := by
        by_contra hvalue
        exact hname (hall name hkept hvalue)
      rw [hnull]
      rwa [if_neg hname] at hfound

theorem mem_foundColumns_recordsOf {flush : List (DocumentRef × ExtractionResult)} {name : String} :
    name ∈ foundColumns (recordsOf run flush) ↔ ∃ first ∈ flush.take inferSchemaLength,
      name ∈ (extractionRecord run first.1 first.2).keys := by
  rw [mem_foundColumns, recordsOf, ← List.map_take]
  simp only [List.mem_map, exists_exists_and_eq_and]

theorem keys_extractionRecord {doc : DocumentRef} {result : ExtractionResult} {name : String}
    (h : name ∈ (extractionRecord run doc result).keys) :
    name ∈ lineageFields ∨ name ∈ result.fields.keys := by
  unfold extractionRecord Record.keys at h
  rw [List.map_append, List.map_append, List.map_map, List.mem_append, List.mem_append] at h
  rcases h with (h | h) | h
  · refine .inl ?_
    simp only [List.map_cons, List.map_nil, List.mem_cons, List.not_mem_nil, or_false] at h
    rcases h with rfl | rfl | rfl | rfl | rfl | rfl | rfl | rfl <;> decide
  · refine .inl ?_
    cases hmetadata : doc.sourceMetadata with
    | none =>
      rw [hmetadata] at h
      cases h
    | some metadata =>
      rw [hmetadata] at h
      obtain rfl := List.mem_singleton.mp h
      show "source_metadata" ∈ lineageFields
      decide
  · exact .inr h

/-- **When nothing is lost.** The table of a run is complete exactly if every value is found in the
first records of its flush. -/
theorem complete_iff {table : UntypedFrame}
    (h : extractFull env model run batching flushEvery (extracted.map withResult) =
      .ok (some table)) :
    Complete env model run extracted table ↔
      FoundEarly env model run batching flushEvery extracted := by
  have hpublished := extractFull_eq_ok h
  have hflatten : (flushes batching flushEvery extracted).flatten = extracted :=
    flatten_flushes _ _ _
  have hrows : List.Forall₂ (fun e row => ∀ name,
      (Kept env model name →
        contractCell env model name ((extractionRecord run e.1 e.2).cell name) =
          some (row name)) ∧
      (¬ Kept env model name → row name = .null)) extracted table.rows ↔
      ∀ p ∈ withFlush (flushes batching flushEvery extracted), ∀ name, Kept env model name →
        (extractionRecord run p.2.1 p.2.2).cell name ≠ .null →
        name ∈ foundColumns (recordsOf run p.1) := by
    rw [← forall₂_iff_of_forall₂ hpublished.rows fun p _ row hrow => hrow.complete_iff]
    conv_lhs => rw [← hflatten, ← map_snd_withFlush, List.forall₂_map_left_iff]
  constructor
  · intro hcomplete
    constructor
    · intro flush hflush e he name hkept hvalue
      exact mem_foundColumns_recordsOf.mp
        (hrows.mp hcomplete.rows (flush, e) (mem_withFlush.mpr ⟨hflush, he⟩) name hkept hvalue)
    · intro hfields e he name hname
      rcases (hpublished.columns name).mp ((hcomplete.columns name).mpr
        (.inr ⟨hfields, e, he, hname⟩)) with hdeclared | ⟨-, flush, hflush, hfound⟩
      · have hlineage : name ∈ lineageFields := by
          refine hdeclared.resolve_right ?_
          rw [hfields]
          simp
        rw [← hflatten] at he
        obtain ⟨flush, hflush, he⟩ := List.mem_flatten.mp he
        have hclear := hpublished.clear flush hflush e he name hname
        rw [env.casefold_lineage name hlineage] at hclear
        exact absurd hlineage hclear
      · exact ⟨flush, hflush, mem_foundColumns_recordsOf.mp hfound⟩
  · intro hearly
    refine ⟨fun name => ?_, hrows.mpr fun p hp name hkept hvalue => ?_⟩
    · rw [hpublished.columns]
      constructor
      · rintro (hdeclared | ⟨hfields, flush, hflush, hfound⟩)
        · exact .inl hdeclared
        · obtain ⟨first, hfirst, hkey⟩ := mem_foundColumns_recordsOf.mp hfound
          rcases keys_extractionRecord hkey with hlineage | hname
          · exact .inl (.inl hlineage)
          · exact .inr ⟨hfields, first,
              mem_of_mem_flushes hflush (List.mem_of_mem_take hfirst), hname⟩
      · rintro (hdeclared | ⟨hfields, e, he, hname⟩)
        · exact .inl hdeclared
        · obtain ⟨flush, hflush, hfirst⟩ := hearly.names hfields e he name hname
          exact .inr ⟨hfields, flush, hflush, mem_foundColumns_recordsOf.mpr hfirst⟩
    · obtain ⟨hflush, he⟩ := mem_withFlush.mp hp
      exact mem_foundColumns_recordsOf.mpr (hearly.values p.1 hflush p.2 he name hkept hvalue)

theorem mem_keys_extractionRecord {doc : DocumentRef} {result : ExtractionResult} {name : String}
    (h : name ∈ result.fields.keys) : name ∈ (extractionRecord run doc result).keys := by
  unfold extractionRecord Record.keys
  rw [List.map_append, List.map_append, List.map_map]
  exact List.mem_append_right _ h

/-- A run that flushes at least every `inferSchemaLength` documents loses nothing. -/
theorem foundEarly_of_le (env : FrameEnv) (model : ModelConfig) (run : RunStamp)
    (batching : Batching) (extracted : List (DocumentRef × ExtractionResult)) (hpos : 0 < flushEvery)
    (hle : flushEvery ≤ inferSchemaLength) :
    FoundEarly env model run batching flushEvery extracted := by
  have htake : ∀ flush ∈ flushes batching flushEvery extracted,
      flush.take inferSchemaLength = flush := by
    intro flush hflush
    obtain ⟨w, -, hflush⟩ := List.mem_flatMap.mp hflush
    exact List.take_of_length_le ((length_le_of_mem_slices hpos hflush).trans hle)
  constructor
  · intro flush hflush e he name _ hvalue
    rw [htake flush hflush]
    refine ⟨e, he, ?_⟩
    by_contra hname
    exact hvalue (Record.cell_of_notMem hname)
  · intro _ e he name hname
    rw [← flatten_flushes batching flushEvery extracted] at he
    obtain ⟨flush, hflush, he⟩ := List.mem_flatten.mp he
    refine ⟨flush, hflush, e, ?_, mem_keys_extractionRecord hname⟩
    rwa [htake flush hflush]

/-! ### Runs that publish -/

/-- The contract accepts the model and every result: no field is declared twice or as a lineage
column of another type, no result has a field named like a lineage column, and every value of a
typed field converts. -/
structure Accepted (env : FrameEnv) (model : ModelConfig) (run : RunStamp)
    (extracted : List (DocumentRef × ExtractionResult)) : Prop where
  schema : ∃ schema, extractionSchema env model = .ok schema
  clear : ∀ e ∈ extracted, ∀ key ∈ e.2.fields.keys, env.casefold key ∉ lineageFields
  converts : ∀ e ∈ extracted, ∀ name,
    (contractCell env model name ((extractionRecord run e.1 e.2).cell name)).isSome

theorem exists_stageFlush {flush : List (DocumentRef × ExtractionResult)}
    (h : Accepted env model run flush) :
    ∃ staged, stageFlush env model run (flush.map withResult) = .ok staged := by
  have hrecords : ((succeeded (flush.map withResult)).mapM fun e =>
      rowForExtraction env run e.1 e.2) = .ok (recordsOf run flush) := by
    rw [succeeded_map_withResult, mapM_eq_ok, recordsOf, List.forall₂_map_right_iff,
      List.forall₂_same]
    exact fun e he => rowForExtraction_eq_ok.mpr ⟨h.clear e he, rfl⟩
  refine exists_bind_eq_ok ⟨_, hrecords, ?_⟩
  split
  · exact ⟨_, rfl⟩
  · refine exists_bind_eq_ok ?_
    obtain ⟨schema, hschema⟩ := h.schema
    unfold applyContract
    split
    · rename_i failure hfailure
      rw [hschema] at hfailure
      cases hfailure
    · dsimp only
      split
      · exact ⟨_, rfl, _, rfl⟩
      · rename_i hnone
        refine absurd (fun row hrow name _ _ => ?_) hnone
        obtain ⟨record, hrecord, rfl⟩ := List.mem_map.mp hrow
        obtain ⟨e, he, rfl⟩ := List.mem_map.mp hrecord
        dsimp only
        split
        · exact h.converts e he name
        · rw [(contractCell_eq_null env model).mpr rfl]
          rfl

variable (run) in
/-- A run publishes a table if the contract accepts its model and results. -/
theorem exists_extractFull (batching : Batching) (flushEvery : ℕ)
    (h : Accepted env model run extracted) :
    ∃ table, extractFull env model run batching flushEvery (extracted.map withResult) =
      .ok (some table) := by
  have hflushes : ∀ flush ∈ flushes batching flushEvery extracted, Accepted env model run flush :=
    fun flush hflush => ⟨h.schema, fun e he => h.clear e (mem_of_mem_flushes hflush he),
      fun e he => h.converts e (mem_of_mem_flushes hflush he)⟩
  have hwindows : ∃ staged, (batching.windowsOf (extracted.map withResult)).mapM
      (stageWindow env model run batching flushEvery) = .ok staged := by
    rw [windowsOf_map]
    refine exists_mapM_eq_ok fun _ hmem => ?_
    obtain ⟨window, hwindow, rfl⟩ := List.mem_map.mp hmem
    refine exists_bind_eq_ok ⟨(), checkWindow_map_withResult window, ?_⟩
    rw [slices_map]
    refine exists_mapM_eq_ok fun _ hmem => ?_
    obtain ⟨flush, hflush, rfl⟩ := List.mem_map.mp hmem
    exact exists_stageFlush (hflushes flush (List.mem_flatMap.mpr ⟨window, hwindow, hflush⟩))
  obtain ⟨staged, hstaged⟩ := hwindows
  obtain ⟨frames, hframes, herrors, -, -⟩ :=
    exists_frames (fun _ => ne_nil_of_mem_flushes) (mapM_stageWindow_eq_ok hstaged)
  cases frames with
  | nil =>
    obtain ⟨schema, hschema⟩ := h.schema
    have hempty : ∃ frame, emptyExtractionFrame env model = .ok frame := by
      unfold emptyExtractionFrame
      split
      · rename_i failure hfailure
        rw [hschema] at hfailure
        cases hfailure
      · exact ⟨_, rfl⟩
    obtain ⟨frame, hframe⟩ := hempty
    refine ⟨frame, bind_eq_ok.mpr ⟨staged, hstaged, ?_⟩⟩
    rw [herrors, if_neg (by simp), hframes]
    exact bind_eq_ok.mpr ⟨frame, hframe, rfl⟩
  | cons first chunks =>
    refine ⟨first.unionAll chunks, bind_eq_ok.mpr ⟨staged, hstaged, ?_⟩⟩
    rw [herrors, if_neg (by simp), hframes]
    rfl

/-! ### Independence -/

/-- Complete tables of the same results are the same. -/
theorem Complete.sameTable {extracted extracted' : List (DocumentRef × ExtractionResult)}
    {t t' : UntypedFrame} (hperm : extracted.Perm extracted')
    (h : Complete env model run extracted t) (h' : Complete env model run extracted' t') :
    SameTable t t' := by
  classical
  have hrows : ∀ {extracted : List (DocumentRef × ExtractionResult)} {t : UntypedFrame},
      Complete env model run extracted t → t.rows = extracted.map fun e name =>
        if Kept env model name then
          (contractCell env model name ((extractionRecord run e.1 e.2).cell name)).getD .null
        else .null := by
    intro extracted t h
    rw [← List.forall₂_eq_eq_eq, List.forall₂_map_right_iff]
    refine h.rows.flip.imp fun row e hrow => funext fun name => ?_
    split
    · rename_i hkept
      rw [(hrow name).1 hkept, Option.getD_some]
    · rename_i hkept
      exact (hrow name).2 hkept
  constructor
  · rw [List.perm_ext_iff_of_nodup t.nodup t'.nodup]
    intro name
    rw [h.columns, h'.columns]
    simp only [hperm.mem_iff]
  · rw [hrows h, hrows h']
    exact hperm.map _

/-- The tables of two runs over the same results, in any order and cut into any flushes, are complete
and the same exactly if every value is found in the first records of its flush in both. -/
theorem extractFull_complete_iff {batching' : Batching} {flushEvery' : ℕ}
    {extracted' : List (DocumentRef × ExtractionResult)} {t t' : UntypedFrame}
    (hperm : extracted.Perm extracted')
    (h : extractFull env model run batching flushEvery (extracted.map withResult) = .ok (some t))
    (h' : extractFull env model run batching' flushEvery' (extracted'.map withResult) =
      .ok (some t')) :
    Complete env model run extracted t ∧ Complete env model run extracted' t' ∧ SameTable t t' ↔
      FoundEarly env model run batching flushEvery extracted ∧
        FoundEarly env model run batching' flushEvery' extracted' := by
  rw [← complete_iff h, ← complete_iff h']
  exact ⟨fun hall => ⟨hall.1, hall.2.1⟩, fun hall => ⟨hall.1, hall.2, hall.1.sameTable hperm hall.2⟩⟩

/-! ### Two corpora -/

/-- An environment in which every value converts to every type. -/
def plainEnv : FrameEnv where
  casefold := fun s => String.ofList (s.toList.map Char.toLower)
  toDate := fun s => some (.other s)
  toDatetime := fun s => some (.other s)
  cast := fun _ cell => some cell
  casefold_lineage := by decide
  toDate_ne_null := by simp
  toDatetime_ne_null := by simp
  cast_eq_null := by simp

/-- A document with the fields of its result. -/
def invoice (id : String) (fields : Record) : DocumentRef × ExtractionResult :=
  (⟨id, id, id, id, none⟩, ⟨fields⟩)

/-- A model that declares no fields. -/
def invoices : ModelConfig := ⟨"invoices", []⟩

theorem accepted_invoices {run : RunStamp} {extracted : List (DocumentRef × ExtractionResult)}
    (h : ∀ e ∈ extracted, ∀ key ∈ e.2.fields.keys, plainEnv.casefold key ∉ lineageFields) :
    Accepted plainEnv invoices run extracted :=
  ⟨⟨_, rfl⟩, h, fun _ _ _ => rfl⟩

/-- Two documents, in two flushes and in one, in both orders. -/
theorem sameTable_two_invoices :
    ∃ t t' run,
      Complete plainEnv invoices run
        [invoice "a" [("total", .other "1")], invoice "b" [("due", .string "now")]] t ∧
      Complete plainEnv invoices run
        [invoice "b" [("due", .string "now")], invoice "a" [("total", .other "1")]] t' ∧
      SameTable t t' := by
  have hclear : ∀ e ∈ [invoice "a" [("total", .other "1")], invoice "b" [("due", .string "now")]],
      ∀ key ∈ e.2.fields.keys, plainEnv.casefold key ∉ lineageFields := by decide
  have hperm : [invoice "a" [("total", .other "1")], invoice "b" [("due", .string "now")]].Perm
      [invoice "b" [("due", .string "now")], invoice "a" [("total", .other "1")]] := .swap _ _ _
  obtain ⟨t, ht⟩ := exists_extractFull ⟨"v", "html", "1", "now"⟩ .perDocument 1
    (accepted_invoices hclear)
  obtain ⟨t', ht'⟩ := exists_extractFull ⟨"v", "html", "1", "now"⟩ .perDocument 100
    (accepted_invoices fun e he => hclear e (hperm.mem_iff.mpr he))
  exact ⟨t, t', _, (extractFull_complete_iff hperm ht ht').mpr
    ⟨foundEarly_of_le _ _ _ _ _ (by decide) (by decide),
      foundEarly_of_le _ _ _ _ _ (by decide) (by decide)⟩⟩

/-- A hundred documents, and one more with a field of its own. -/
def hundredAndOne : List (DocumentRef × ExtractionResult) :=
  (List.range 100).map (fun i => invoice (toString i) [("total", .other "1")]) ++
    [invoice "100" [("due", .string "now")]]

theorem mem_hundredAndOne {e : DocumentRef × ExtractionResult} (h : e ∈ hundredAndOne) :
    e.2.fields = [("total", .other "1")] ∨ e.2.fields = [("due", .string "now")] := by
  rcases List.mem_append.mp h with h | h
  · obtain ⟨i, -, rfl⟩ := List.mem_map.mp h
    exact .inl rfl
  · obtain rfl := List.mem_singleton.mp h
    exact .inr rfl

/-- The field that only the last of a hundred and one documents has is lost. -/
theorem extractFull_loses_due :
    ∃ table,
      extractFull plainEnv invoices ⟨"v", "html", "1", "now"⟩ .perDocument 5000
        (hundredAndOne.map withResult) = .ok (some table) ∧
      ¬ Complete plainEnv invoices ⟨"v", "html", "1", "now"⟩ hundredAndOne table := by
  have hclear : ∀ e ∈ hundredAndOne, ∀ key ∈ e.2.fields.keys,
      plainEnv.casefold key ∉ lineageFields := by
    intro e he
    rcases mem_hundredAndOne he with hfields | hfields <;> rw [hfields] <;> decide
  have hlength : hundredAndOne.length = 101 := by simp [hundredAndOne]
  obtain ⟨table, htable⟩ := exists_extractFull ⟨"v", "html", "1", "now"⟩ .perDocument 5000
    (accepted_invoices hclear)
  refine ⟨table, htable, fun hcomplete => ?_⟩
  have hearly := (complete_iff htable).mp hcomplete
  have hflushes : flushes .perDocument 5000 hundredAndOne = [hundredAndOne] := by
    show (slices 5000 hundredAndOne) ++ [] = _
    rw [List.append_nil, slices_of_length_le (by simp [hundredAndOne]) (by omega)]
  have hlast : invoice "100" [("due", .string "now")] ∈ hundredAndOne :=
    List.mem_append_right _ List.mem_cons_self
  obtain ⟨first, hfirst, hkey⟩ := hearly.values hundredAndOne (by rw [hflushes]; simp) _ hlast "due"
    (.inl rfl) (by decide)
  have htake : hundredAndOne.take inferSchemaLength =
      (List.range 100).map fun i => invoice (toString i) [("total", .other "1")] := by
    rw [hundredAndOne, List.take_append_of_le_length (by simp [inferSchemaLength])]
    exact List.take_of_length_le (by simp [inferSchemaLength])
  rw [htake] at hfirst
  obtain ⟨i, -, rfl⟩ := List.mem_map.mp hfirst
  rcases keys_extractionRecord hkey with hlineage | htotal
  · exact absurd hlineage (by decide)
  · have htotal : "due" ∈ ["total"] := htotal
    exact absurd htotal (by decide)

end Stel.Execution.Extraction
