import Stel.Warehouse.Target

/-!
# The records of an upstream frame

The executors identify the records of their upstream by one of its columns.

## Main definitions

* `requireIds`: the check of the ids.
* `dictRow`, `optionalCell`: a dict as a row, an optional text as a cell.

## Main results

* `requireIds_eq_ok`: accepted ids are distinct, and they are those of the rows in order.
-/

namespace Stel.Execution

open Stel.Warehouse

/-- A dict as a row; the first entry of a name is the one that was set last. -/
def dictRow (entries : List (String × Cell)) : Row := fun c => (entries.lookup c).getD .null

/-- A text that may be missing, as a cell. -/
def optionalCell (text : Option String) : Cell := text.elim .null .string

@[simp] theorem optionalCell_inj {a b : Option String} : optionalCell a = optionalCell b ↔ a = b := by
  cases a <;> cases b <;> simp [optionalCell]

@[simp] theorem optionalCell_eq_null {text : Option String} :
    optionalCell text = .null ↔ text = none := by
  cases text <;> simp [optionalCell]

/-- The ids of a column, none of which may be missing, empty or repeated. -/
def requireIds (prefixed column : String) (frame : Frame) : Except Failure (List String) :=
  let cells := frame.rows.map (· column)
  let nullCount := (cells.filter (· = .null)).length
  let ids := cells.filterMap Cell.text
  let emptyCount := (ids.filter (· = "")).length
  let duplicateCount := ids.length - ids.dedup.length
  if nullCount ≠ 0 then
    .error (.runError (prefixed ++ toString nullCount ++ " NULL value(s)"))
  else if emptyCount ≠ 0 then
    .error (.runError (prefixed ++ toString emptyCount ++ " empty value(s)"))
  else if duplicateCount ≠ 0 then
    .error (.runError (prefixed ++ toString duplicateCount ++ " duplicate value(s)"))
  else .ok ids

variable {prefixed column : String} {frame : Frame} {ids : List String}

/-- Accepted ids are distinct, and they are those of the rows in order. -/
theorem requireIds_eq_ok (h : requireIds prefixed column frame = .ok ids) :
    ids.Nodup ∧ List.Forall₂ (fun id row => (row column).text = some id) ids frame.rows := by
  simp only [requireIds] at h
  split at h
  · cases h
  rename_i hnull
  split at h
  · cases h
  split at h
  · cases h
  rename_i hdup
  obtain rfl := Except.ok.inj h
  refine ⟨?_, ?_⟩
  · set ids := (frame.rows.map (· column)).filterMap Cell.text
    have hle : ids.dedup.length ≤ ids.length := (List.dedup_sublist ids).length_le
    have hself : ids.dedup = ids := (List.dedup_sublist ids).eq_of_length (by omega)
    exact List.dedup_eq_self.mp hself
  · have hsome : ∀ row ∈ frame.rows, row column ≠ .null := fun row hrow he => hnull (by
      have hmem : Cell.null ∈ (frame.rows.map (· column)).filter (· = .null) :=
        List.mem_filter.mpr ⟨he ▸ List.mem_map_of_mem (f := (· column)) hrow, by simp⟩
      exact (List.length_pos_of_mem hmem).ne')
    clear h hnull hdup
    generalize frame.rows = rows at hsome ⊢
    induction rows with
    | nil => exact .nil
    | cons row rows ih =>
      obtain ⟨hrow, hrows⟩ := List.forall_mem_cons.mp hsome
      obtain ⟨id, hid⟩ : ∃ id, (row column).text = some id := by
        cases hcell : row column with
        | null => exact absurd hcell hrow
        | string id => exact ⟨id, rfl⟩
        | nested id => exact ⟨id, rfl⟩
        | other id => exact ⟨id, rfl⟩
      simp only [List.map_cons, List.filterMap_cons, hid]
      exact .cons hid (ih hrows)

/-- The records of a frame have distinct ids, each its record's. -/
theorem requireIds_zip (h : requireIds prefixed column frame = .ok ids) :
    (ids.zip frame.rows).map Prod.fst = ids ∧ ((ids.zip frame.rows).map Prod.fst).Nodup ∧
      ∀ d record, (d, record) ∈ ids.zip frame.rows → (record column).text = some d := by
  obtain ⟨hnodup, hrel⟩ := requireIds_eq_ok h
  have hfst : (ids.zip frame.rows).map Prod.fst = ids := List.map_fst_zip hrel.length_eq.le
  exact ⟨hfst, hfst.symm ▸ hnodup, fun d record hmem => List.forall₂_zip hrel hmem⟩

/-- The ids are those of the records. -/
theorem mem_requireIds (h : requireIds prefixed column frame = .ok ids) {d : String} :
    d ∈ ids ↔ ∃ record, (d, record) ∈ ids.zip frame.rows := by
  conv_lhs => rw [← (requireIds_zip h).1]
  simp

/-- Every row has its id. -/
theorem exists_id_of_mem (h : requireIds prefixed column frame = .ok ids) {record : Row}
    (hrecord : record ∈ frame.rows) : ∃ d, (d, record) ∈ ids.zip frame.rows := by
  obtain ⟨i, hi, rfl⟩ := List.getElem_of_mem hrecord
  have hi' : i < ids.length := (requireIds_eq_ok h).2.length_eq ▸ hi
  exact ⟨ids[i], List.mem_iff_getElem.mpr ⟨i, by simp [hi, hi'], by simp⟩⟩

end Stel.Execution
