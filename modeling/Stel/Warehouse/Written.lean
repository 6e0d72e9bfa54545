import Stel.Warehouse.Target
import Mathlib.Data.Multiset.AddSub
import Mathlib.Data.Multiset.Filter

/-!
# The rows that were written for a key

An incremental executor decides from the state table which records it processes, while the rows
stand in the target table. Beside the target goes a ghost table, the state value under which the
rows of each key were last written. An interruption between the write of rows and the write of
state leaves the two tables different.

## Main definitions

* `Emission`: the rows that a key emits under a state value.
* `Emission.Describes`: every key has the rows that it emits under the value in the ghost table.
* `ghostExec`: the operations with what they do to the ghost table.
* `InStep`: what a key must meet so that an incremental run leaves it right.

## Main results

* `Emission.Describes.delete`, `Emission.Describes.replace`, `Emission.describes_full`: the table
  after an operation.
* `lookup_upsert_delete`: an incremental run on keys in step records and describes the current
  values.
-/

namespace Stel.Warehouse

/-- How the records of a model become rows of its target. -/
structure Emission where
  /-- The column of the record's key. -/
  keyCol : String
  /-- The column that identifies a row. -/
  childCol : String
  /-- The rows that a key emits under a state value. -/
  Emits : String → StateValue → List Row → Prop
  /-- A row of a target with the given columns that stores an emitted row. -/
  Stores : List (String × String) → Row → Row → Prop

/-! ### Stored rows -/

/-- A row of a target with the given columns stores an emitted row: in every column it has the cell
of the emitted row, as it is or as the type of the column stores it, and unless the policy ignores
new columns, the target has a column for every cell that is not null. -/
structure StoredAsWritten (assign : Assignment) (policy : OnSchemaChange)
    (schema : List (String × String)) (emitted stored : Row) : Prop where
  cells : ∀ c type, schema.lookup c = some type →
    stored c = emitted c ∨ assign type (emitted c) = some (stored c)
  wide : policy ≠ .ignore → ∀ c ∉ schema.map Prod.fst, emitted c = .null

namespace StoredAsWritten

variable {assign : Assignment} {policy : OnSchemaChange} {keyCol childCol : String}
  {keys : List String} {newRows : Frame} {existing result : Option Frame} {stored : List Row}
  {emitted st : Row}

/-- A rebuilt table stores its rows as they are. -/
theorem self {df : Frame} (h : emitted ∈ df.rows) :
    StoredAsWritten assign policy df.schema emitted emitted where
  cells _ _ _ := .inl rfl
  wide _ := df.blank emitted h

/-- The row that a target inserts. -/
theorem of_assignRow {schema : List (String × String)} (h : emitted ∈ newRows.rows)
    (hassign : assignRow assign schema newRows.columns emitted = some st)
    (hwide : policy ≠ .ignore → newRows.columns ⊆ schema.map Prod.fst) :
    StoredAsWritten assign policy schema emitted st where
  cells c type htype := by
    by_cases hc : c ∈ newRows.columns
    · exact .inr (assignRow_apply hassign htype hc)
    · rw [assignRow_omitted hassign hc, newRows.blank emitted h c hc]
      exact .inl rfl
  wide hpolicy c hc := newRows.blank emitted h c fun hin => hc (hwide hpolicy hin)

/-- The rows that a replacement leaves are stored in its result, which has new columns only if the
policy does not ignore them. -/
theorem replaced (h : Replaced assign keyCol keys childCol newRows policy existing result stored)
    (hexisting : existing ≠ none) (hst : st ∈ rowsOf existing)
    (hstored : StoredAsWritten assign policy (schemaOf existing) emitted st) :
    StoredAsWritten assign policy (schemaOf result) emitted st := by
  by_cases hpolicy : policy = .ignore
  · rw [h.same hexisting fun _ hne => absurd hpolicy hne]
    exact hstored
  have hcolumns : ∀ c ∈ (schemaOf existing).map Prod.fst, c ∈ (schemaOf result).map Prod.fst := by
    intro c hc
    obtain ⟨column, hcolumn, rfl⟩ := List.mem_map.mp hc
    exact List.mem_map_of_mem (h.grows.subset hcolumn)
  refine ⟨fun c type htype => ?_, fun hne c hc => hstored.wide hne c fun hin => hc (hcolumns c hin)⟩
  by_cases hc : c ∈ (schemaOf existing).map Prod.fst
  · obtain ⟨more, hmore⟩ := h.grows
    obtain ⟨type', htype'⟩ := exists_lookup_of_mem hc
    rw [← hmore, List.lookup_append, htype'] at htype
    obtain rfl : type' = type := Option.some.inj htype
    exact hstored.cells c type' htype'
  · -- the column is new, and null in every row of the target
    obtain ⟨target, rfl⟩ := Option.ne_none_iff_exists'.mp hexisting
    exact .inl ((target.blank st hst c hc).trans (hstored.wide hpolicy c hc).symm)

end StoredAsWritten

namespace Emission

variable (E : Emission)

/-- A row of a target with the given columns stores an emitted row, with the texts of its keys. -/
structure Keeps (schema : List (String × String)) (emitted stored : Row) : Prop where
  stores : E.Stores schema emitted stored
  key : (stored E.keyCol).text = (emitted E.keyCol).text
  child : (stored E.childCol).text = (emitted E.childCol).text

/-- The table holds, key by key and in some order, the rows that were emitted under the values of
`written`, and no others. -/
structure Describes (written : StateTable) (table : Option Frame) : Prop where
  held : ∀ d v, written.lookup d = some v → ∃ rows, E.Emits d v rows ∧
    Multiset.Rel (E.Keeps (schemaOf table)) rows (rowsAt E.keyCol (rowsOf table) d)
  absent : ∀ d, written.lookup d = none → rowsAt E.keyCol (rowsOf table) d = []
  owned : ∀ row ∈ rowsOf table, ∃ d, (row E.keyCol).text = some d

variable {E} {written : StateTable} {existing result : Option Frame}

theorem describes_empty : E.Describes ∅ none where
  held := by simp
  absent _ _ := rfl
  owned := by simp

/-- A list that is related entry by entry is related as a multiset. -/
theorem rel_of_forall₂ {α β : Type} {R : α → β → Prop} {xs : List α} {ys : List β}
    (h : List.Forall₂ R xs ys) : Multiset.Rel R (xs : Multiset α) (ys : Multiset β) := by
  induction h with
  | nil => exact .zero
  | cons hxy _ ih => exact .cons hxy ih

/-- A list that is related entry by entry to one that is related as a multiset. -/
theorem rel_of_forall₂_rel {α β γ : Type} {R : α → β → Prop} {S : β → γ → Prop} {xs : List α}
    {ys : List β} {zs : Multiset γ} (h : List.Forall₂ R xs ys)
    (hrel : Multiset.Rel S (ys : Multiset β) zs) :
    Multiset.Rel (fun x z => ∃ y, R x y ∧ S y z) (xs : Multiset α) zs := by
  induction h generalizing zs with
  | nil =>
    obtain rfl := Multiset.rel_zero_left.mp hrel
    exact .zero
  | cons hxy _ ih =>
    rw [← Multiset.cons_coe, Multiset.rel_cons_left] at hrel
    obtain ⟨z, rest, hz, hrest, rfl⟩ := hrel
    exact .cons ⟨_, hxy, hz⟩ (ih hrest)

/-- A related list has a partner for each of its entries. -/
theorem exists_of_rel_right {α β : Type} {R : α → β → Prop} {xs : Multiset α} {ys : Multiset β}
    (h : Multiset.Rel R xs ys) {y : β} (hy : y ∈ ys) : ∃ x ∈ xs, R x y := by
  obtain ⟨x, hx, hR⟩ := Multiset.exists_mem_of_rel_of_mem (Multiset.rel_flip.mpr h) hy
  exact ⟨x, hx, hR⟩

/-! ### Deletions -/

/-- A deletion of the rows and the state of some keys. The cells name the keys that have rows. -/
theorem Describes.delete {cells : List Cell} {removed : List String}
    (h : E.Describes written existing)
    (hdel : deleteRows E.keyCol cells existing = .ok result)
    (hcells : ∀ c ∈ cells, ∀ d, c.text = some d → d ∈ removed)
    (hnamed : ∀ d ∈ removed, rowsAt E.keyCol (rowsOf existing) d ≠ [] →
      ∃ c ∈ cells, c.text = some d) :
    E.Describes (written.delete removed) result := by
  obtain ⟨hschema, hrows⟩ := deleteRows_eq_ok hdel
  have hsame : schemaOf result = schemaOf existing := by rw [schemaOf, hschema, schemaOf]
  have hkept : ∀ d ∉ removed, rowsAt E.keyCol (rowsOf result) d =
      rowsAt E.keyCol (rowsOf existing) d := by
    intro d hd
    rw [hrows]
    refine rowsAt_filter_eq fun row hrow => decide_eq_true ?_
    rintro ⟨c, hc, t, ht, hct⟩
    rw [(mem_rowsAt.mp hrow).2] at ht
    obtain rfl := Option.some.inj ht
    exact hd (hcells c hc d hct)
  refine ⟨fun d v hd => ?_, fun d hd => ?_, fun row hrow => ?_⟩
  · rw [StateTable.lookup_delete] at hd
    split at hd
    · cases hd
    rename_i hout
    rw [hkept d hout, hsame]
    exact h.held d v hd
  · rw [StateTable.lookup_delete] at hd
    split at hd
    swap
    · rename_i hout
      rw [hkept d hout]
      exact h.absent d hd
    rename_i hin
    rw [hrows]
    refine rowsAt_filter_eq_nil fun row hrow => decide_eq_false (not_not.mpr ?_)
    obtain ⟨c, hc, hct⟩ := hnamed d hin (List.ne_nil_of_mem hrow)
    exact ⟨c, hc, d, (mem_rowsAt.mp hrow).2, hct⟩
  · rw [hrows] at hrow
    exact h.owned row (List.mem_of_mem_filter hrow)

/-- A deletion that names its keys. -/
theorem Describes.delete_keys {removed : List String} (h : E.Describes written existing)
    (hdel : deleteRows E.keyCol (removed.map .string) existing = .ok result) :
    E.Describes (written.delete removed) result := by
  refine h.delete hdel (fun c hc d hd => ?_) fun d hd _ => ⟨_, List.mem_map_of_mem hd, rfl⟩
  obtain ⟨d', hd', rfl⟩ := List.mem_map.mp hc
  obtain rfl : d' = d := Option.some.inj hd
  exact hd'

/-! ### Replacements -/

section Replace

variable {assign : Assignment} {keys : List String} {newRows : Frame} {policy : OnSchemaChange}
  {stored : List Row} {records : List StateRecord}

/-- The rows of a key after a replacement. -/
theorem rowsAt_replaced
    (h : Replaced assign E.keyCol keys E.childCol newRows policy existing result stored)
    (d : String) : rowsAt E.keyCol (rowsOf result) d =
      (if d ∈ keys then [] else rowsAt E.keyCol (rowsOf existing) d).filter (fun t =>
        ¬ ∃ s ∈ newRows.rows, (t E.childCol).Equals (s E.childCol)) ++
          rowsAt E.keyCol stored d := by
  rw [h.rows, rowsAt_append, ← rowsAt_filter_keys, rowsAt, List.filter_comm]
  rfl

/-- A replacement of the rows of some keys, recorded in the state. Every row of a key that is
written anew is deleted: its key is named, it has no rows, or its rows are overwritten one by one.
The rows of the other keys are not, and they fit the columns of the result. -/
theorem Describes.replace (h : E.Describes written existing)
    (hreplaced : Replaced assign E.keyCol keys E.childCol newRows policy existing result stored)
    (hnodup : (records.map (·.recordKey)).Nodup)
    (hemits : ∀ r ∈ records, E.Emits r.recordKey r.value
      (rowsAt E.keyCol newRows.rows r.recordKey))
    (howned : ∀ row ∈ newRows.rows, ∃ d ∈ records.map (·.recordKey),
      (row E.keyCol).text = some d)
    (hkeeps : List.Forall₂ (E.Keeps (schemaOf result)) newRows.rows stored)
    (hgrows : existing ≠ none → ∀ e, ∀ st ∈ rowsOf existing,
      E.Stores (schemaOf existing) e st → E.Stores (schemaOf result) e st)
    (hkept : ∀ d ∉ records.map (·.recordKey), d ∉ keys ∧
      ∀ row ∈ rowsAt E.keyCol (rowsOf existing) d, ¬ ∃ e ∈ newRows.rows,
        (row E.childCol).Equals (e E.childCol))
    (hgone : ∀ r ∈ records, r.recordKey ∈ keys ∨
      ∀ row ∈ rowsAt E.keyCol (rowsOf existing) r.recordKey, ∃ e ∈ newRows.rows,
        (row E.childCol).Equals (e E.childCol)) :
    E.Describes (written.upsert records) result := by
  have hstored : ∀ d, Multiset.Rel (E.Keeps (schemaOf result)) (rowsAt E.keyCol newRows.rows d)
      (rowsAt E.keyCol stored d) := by
    refine fun d => rel_of_forall₂ (List.rel_filter ?_ hkeeps)
    intro row st hrow
    simp only [decide_eq_true_iff, hrow.key]
  have hnew : ∀ r ∈ records, rowsAt E.keyCol (rowsOf result) r.recordKey =
      rowsAt E.keyCol stored r.recordKey := by
    intro r hr
    have hnone : (if r.recordKey ∈ keys then [] else
        rowsAt E.keyCol (rowsOf existing) r.recordKey).filter (fun t =>
          ¬ ∃ s ∈ newRows.rows, (t E.childCol).Equals (s E.childCol)) = [] := by
      split
      · rfl
      · rename_i hkey
        exact List.filter_eq_nil_iff.mpr fun row hrow => by
          simpa using (hgone r hr).resolve_left hkey row hrow
    rw [rowsAt_replaced hreplaced, hnone, List.nil_append]
  have hold : ∀ d ∉ records.map (·.recordKey), rowsAt E.keyCol (rowsOf result) d =
      rowsAt E.keyCol (rowsOf existing) d := by
    intro d hd
    have hstay : (rowsAt E.keyCol (rowsOf existing) d).filter (fun t =>
        ¬ ∃ s ∈ newRows.rows, (t E.childCol).Equals (s E.childCol)) =
          rowsAt E.keyCol (rowsOf existing) d :=
      List.filter_eq_self.mpr fun row hrow => decide_eq_true ((hkept d hd).2 row hrow)
    have hnone : rowsAt E.keyCol stored d = [] := by
      refine rowsAt_eq_nil fun st hst htext => ?_
      obtain ⟨row, hrow, hkeep⟩ := exists_of_mem_right hkeeps hst
      obtain ⟨d', hd', htext'⟩ := howned row hrow
      rw [hkeep.key, htext'] at htext
      obtain rfl := Option.some.inj htext
      exact hd hd'
    rw [rowsAt_replaced hreplaced, if_neg (hkept d hd).1, hstay, hnone, List.append_nil]
  refine ⟨fun d v hv => ?_, fun d hv => ?_, fun row hrow => ?_⟩
  · by_cases hd : d ∈ records.map (·.recordKey)
    · obtain ⟨r, hr, rfl⟩ := List.mem_map.mp hd
      rw [StateTable.lookup_upsert hnodup hr] at hv
      obtain rfl := Option.some.inj hv
      rw [hnew r hr]
      exact ⟨_, hemits r hr, hstored _⟩
    · rw [StateTable.lookup_upsert_of_notMem hd] at hv
      obtain ⟨rows, hemit, hrel⟩ := h.held d v hv
      rw [hold d hd]
      refine ⟨rows, hemit, hrel.mono fun e _ st hst hkeep => ⟨?_, hkeep.key, hkeep.child⟩⟩
      have hmem := (mem_rowsAt.mp (Multiset.mem_coe.mp hst)).1
      refine hgrows (fun hnone => ?_) e st hmem hkeep.stores
      rw [hnone] at hmem
      cases hmem
  · have hd : d ∉ records.map (·.recordKey) := by
      intro hd
      obtain ⟨r, hr, rfl⟩ := List.mem_map.mp hd
      rw [StateTable.lookup_upsert hnodup hr] at hv
      cases hv
    rw [StateTable.lookup_upsert_of_notMem hd] at hv
    rw [hold d hd]
    exact h.absent d hv
  · rw [hreplaced.rows] at hrow
    rcases List.mem_append.mp hrow with hrow | hrow
    · exact h.owned row (List.mem_of_mem_filter (List.mem_of_mem_filter hrow))
    · obtain ⟨source, hsource, hkeep⟩ := exists_of_mem_right hkeeps hrow
      obtain ⟨d, -, htext⟩ := howned source hsource
      exact ⟨d, hkeep.key.trans htext⟩

/-- A rebuilt table. -/
theorem describes_full {df : Frame} (hnodup : (records.map (·.recordKey)).Nodup)
    (hemits : ∀ r ∈ records, E.Emits r.recordKey r.value (rowsAt E.keyCol df.rows r.recordKey))
    (howned : ∀ row ∈ df.rows, ∃ d ∈ records.map (·.recordKey), (row E.keyCol).text = some d)
    (hstores : ∀ row ∈ df.rows, E.Stores df.schema row row) :
    E.Describes (.replace records) (some df) := by
  refine ⟨fun d v hv => ?_, fun d hv => ?_, fun row hrow => ?_⟩
  · by_cases hd : d ∈ records.map (·.recordKey)
    · obtain ⟨r, hr, rfl⟩ := List.mem_map.mp hd
      rw [StateTable.replace, StateTable.lookup_upsert hnodup hr] at hv
      obtain rfl := Option.some.inj hv
      refine ⟨_, hemits r hr, Multiset.rel_refl_of_refl_on fun row hrow => ?_⟩
      exact ⟨hstores row (mem_rowsAt.mp hrow).1, rfl, rfl⟩
    · rw [StateTable.replace, StateTable.lookup_upsert_of_notMem hd] at hv
      cases hv
  · refine rowsAt_eq_nil fun row hrow htext => ?_
    obtain ⟨d', hd', htext'⟩ := howned row hrow
    rw [htext'] at htext
    obtain rfl := Option.some.inj htext
    obtain ⟨r, hr, rfl⟩ := List.mem_map.mp hd'
    rw [StateTable.replace, StateTable.lookup_upsert hnodup hr] at hv
    cases hv
  · obtain ⟨d, -, htext⟩ := howned row hrow
    exact ⟨d, htext⟩

end Replace

end Emission

/-! ### The ghost table of a run -/

/-- The ghost table after an operation that succeeds, of a run with the given records. -/
def TargetOp.recorded (records : List StateRecord) : TargetOp → StateTable → StateTable
  | .materializeFull _, _ | .materializeFullChunks _, _ => .replace records
  | .materializeIncremental .., written => written.upsert records
  | .replaceChildren _ _ _ _ stateRecords _, written => written.upsert stateRecords
  | .deleteRowsAndState _ _ stateRecordKeys, written => written.delete stateRecordKeys
  | _, written => written

/-- What an operation does to the ghost table. -/
def wrote (assign : Assignment) (table : String) (records : List StateRecord) (o : TargetOp)
    (s : Target) (written : StateTable) : StateTable :=
  match (o.exec assign table s).2 with
  | .ok _ => o.recorded records written
  | .error _ => written

/-- The operations on a target with its ghost table. -/
abbrev ghostExec (assign : Assignment) (table : String) (records : List StateRecord) :
    Interp TargetOp TargetOp.Ret Failure (Target × StateTable) :=
  Interp.ghost (TargetOp.exec assign table) (wrote assign table records)

section Ghost

variable {assign : Assignment} {table : String} {records : List StateRecord} {α : Type}
  {C : Target × StateTable → Prop} {Q : α → Target × StateTable → Prop}
  {s : Target × StateTable}

theorem ghostExec_ok {o : TargetOp} {t : Target} {r : o.Ret}
    (h : o.exec assign table s.1 = (t, .ok r)) :
    ghostExec assign table records o s = ((t, o.recorded records s.2), .ok r) := by
  simp only [Interp.ghost, wrote, h]

theorem ghostExec_error {o : TargetOp} {t : Target} {e : Failure}
    (h : o.exec assign table s.1 = (t, .error e)) :
    ghostExec assign table records o s = (s, .error e) := by
  simp only [Interp.ghost, wrote, h]
  rw [TargetOp.exec_error h]

/-- The rule for an operation on the target, which changes nothing if it raises. -/
theorem safe_call {o : TargetOp} {next : o.Ret → TargetProg α} (hs : C s)
    (h : ∀ t r, o.exec assign table s.1 = (t, .ok r) →
      (next r).Safe (ghostExec assign table records) C Q (t, o.recorded records s.2)) :
    (Prog.call o next .throw).Safe (ghostExec assign table records) C Q s := by
  rcases hop : o.exec assign table s.1 with ⟨t, e | r⟩
  · have hghost := @ghostExec_error assign table records s o t e hop
    refine Prog.Safe.callOrRaise hs ?_ fun r hr => ?_
    · rwa [hghost]
    · rw [hghost] at hr
      cases hr
  · exact Prog.Safe.call (ghostExec_ok hop) hs (h t r hop)

theorem safe_perform {o : TargetOp} {Q : o.Ret → Target × StateTable → Prop} (hs : C s)
    (h : ∀ t r, o.exec assign table s.1 = (t, .ok r) →
      C (t, o.recorded records s.2) ∧ Q r (t, o.recorded records s.2)) :
    (Prog.perform o).Safe (ghostExec assign table records) C Q s :=
  safe_call hs h

/-- The rule for an operation that only reads. -/
theorem safe_read {o : TargetOp} {r : o.Ret} {next : o.Ret → TargetProg α}
    (hop : o.exec assign table s.1 = (s.1, .ok r)) (hrecorded : o.recorded records s.2 = s.2) (hs : C s)
    (h : (next r).Safe (ghostExec assign table records) C Q s) :
    (Prog.call o next .throw).Safe (ghostExec assign table records) C Q s := by
  refine safe_call hs fun t r' hop' => ?_
  obtain ⟨rfl, hr⟩ := Prod.mk.inj (hop.symm.trans hop')
  obtain rfl := Except.ok.inj hr
  rwa [hrecorded]

/-- The rule for operations whose refusal becomes a `RunError`. -/
theorem safe_asRunError {p : TargetProg α} (h : p.Safe (ghostExec assign table records) C Q s) :
    (asRunError p).Safe (ghostExec assign table records) C Q s := by
  refine Prog.Safe.tryCatch h fun e t ht => ?_
  cases e <;> exact ht

/-- The rule for the deletion of removed keys. -/
theorem safe_deleteRemoved {keyCol : String} {removed : List String} (hs : C s)
    (h : ∀ result, deleteRows keyCol (removed.map .string) s.1.table = .ok result →
      C (⟨result, s.1.state.delete removed⟩, s.2.delete removed)) :
    (deleteRemoved keyCol removed).Safe (ghostExec assign table records) C
      (fun _ t => ∃ result, deleteRows keyCol (removed.map .string) s.1.table = .ok result ∧
        t = (⟨result, s.1.state.delete removed⟩, s.2.delete removed)) s := by
  unfold deleteRemoved
  split
  · rename_i hnone
    subst hnone
    refine ⟨hs, s.1.table, ?_, rfl⟩
    cases s.1.table <;> rfl
  · refine safe_call hs fun t r hop => ?_
    obtain ⟨htable, hstate⟩ := exec_deleteRowsAndState hop
    have ht : t = ⟨t.table, s.1.state.delete removed⟩ := by rw [← hstate]
    have hC := h _ htable
    rw [← ht] at hC
    exact ⟨hC, t.table, htable, by rw [← ht]; rfl⟩

/-- The rule for a rebuild. -/
theorem safe_rebuild {df : Frame} {stateRecords : List StateRecord} {next : ℕ → TargetProg α}
    (hrecords : stateRecords = records) (hs : C s)
    (hrows : df.schema ≠ [] → C (⟨some df, s.1.state⟩, .replace records))
    (h : df.schema ≠ [] → ∀ n, (next n).Safe (ghostExec assign table records) C Q
      (⟨some df, .replace records⟩, .replace records)) :
    (Prog.call (.materializeFull df) (fun n => .call (.replaceState stateRecords)
      (fun _ => next n) .throw) .throw).Safe (ghostExec assign table records) C Q s := by
  subst hrecords
  refine safe_call hs fun t n hop => ?_
  obtain ⟨target, htarget, ht⟩ := bind_eq_ok.mp (Target.commit_ok hop)
  obtain ⟨rfl, -⟩ := Prod.mk.inj (Except.ok.inj ht)
  obtain ⟨hwide, rfl⟩ := materializeFull_eq_ok htarget
  refine safe_call (hrows hwide) fun u r hop => ?_
  obtain ⟨-, -, hu⟩ := bind_eq_ok.mp (Target.commit_ok hop)
  obtain ⟨rfl, -⟩ := Prod.mk.inj (Except.ok.inj hu)
  exact h hwide n

end Ghost

/-! ### Keys in step -/

/-- If the recorded state is current then so are the rows: a run on the current values skips the key,
or finds it neither in the state nor in the source, only if there is nothing to do. -/
def Settled (written state : StateTable) (current : String → Option StateValue) (d : String) :
    Prop :=
  state.lookup d = current d → written.lookup d = current d

instance (written state : StateTable) (current : String → Option StateValue) (d : String) :
    Decidable (Settled written state current d) :=
  inferInstanceAs (Decidable (_ → _))

/-- The key is in step with an incremental run on the current values, which deletes the rows of
keys with another recorded value and overwrites those of keys without one: the state has the value
under which the rows were written, or the run deletes them, or it writes the same rows again. -/
def InStep (written state : StateTable) (current : String → Option StateValue) (d : String) : Prop :=
  written.lookup d = state.lookup d ∨
    state.lookup d ≠ none ∧ state.lookup d ≠ current d ∨
    state.lookup d = none ∧ written.lookup d = current d

instance (written state : StateTable) (current : String → Option StateValue) (d : String) :
    Decidable (InStep written state current d) :=
  inferInstanceAs (Decidable (_ ∨ _ ∧ _ ∨ _ ∧ _))

/-- The records of an incremental run, the keys that it changes and those that it removes. -/
structure Classified (state : StateTable) (current : String → Option StateValue)
    (records : List StateRecord) (changed removed : List String) : Prop where
  nodup : (records.map (·.recordKey)).Nodup
  value : ∀ r ∈ records, current r.recordKey = some r.value
  processed : ∀ d, d ∈ records.map (·.recordKey) ↔
    current d ≠ none ∧ state.lookup d ≠ current d
  subset : ∀ d ∈ changed, d ∈ records.map (·.recordKey)
  changed : ∀ d ∈ records.map (·.recordKey), state.lookup d ≠ none → d ∈ changed
  removed : ∀ d, d ∈ removed ↔ state.lookup d ≠ none ∧ current d = none

section Classified

variable {written state : StateTable} {current : String → Option StateValue}
  {records : List StateRecord} {changed removed : List String}

/-- The keys that are recorded and no longer in the source. -/
theorem mem_removed {ids : List String} (hcurrent : ∀ d, current d = none ↔ d ∉ ids) (d : String) :
    d ∈ state.keys.filter (· ∉ ids) ↔ state.lookup d ≠ none ∧ current d = none := by
  rw [List.mem_filter, Keyed.mem_iff_isSome, Option.isSome_iff_ne_none, decide_eq_true_iff, hcurrent]

theorem lookup_processed (hc : Classified state current records changed removed)
    (table : StateTable) {d : String} (hd : d ∈ records.map (·.recordKey)) :
    ((table.delete removed).upsert records).lookup d = current d := by
  obtain ⟨r, hr, rfl⟩ := List.mem_map.mp hd
  rw [StateTable.lookup_upsert hc.nodup hr, hc.value r hr]

/-- After an incremental run on settled keys, the ghost table has the current values. -/
theorem lookup_upsert_delete (hc : Classified state current records changed removed)
    (hsettled : ∀ d, Settled written state current d) (d : String) :
    ((written.delete removed).upsert records).lookup d = current d := by
  by_cases hd : d ∈ records.map (·.recordKey)
  · exact lookup_processed hc written hd
  rw [StateTable.lookup_upsert_of_notMem hd, StateTable.lookup_delete]
  split
  · rename_i hremoved
    exact ((hc.removed d).mp hremoved).2.symm
  rename_i hkept
  -- the key is skipped, or it is neither recorded nor current
  refine hsettled d ?_
  by_contra hne
  by_cases hcurrent : current d = none
  · exact hkept ((hc.removed d).mpr ⟨fun he => hne (he.trans hcurrent.symm), hcurrent⟩)
  · exact hd ((hc.processed d).mpr ⟨hcurrent, hne⟩)

/-- The same for a run that writes before it deletes. -/
theorem lookup_delete_upsert (hc : Classified state current records changed removed)
    (hsettled : ∀ d, Settled written state current d) (d : String) :
    ((written.upsert records).delete removed).lookup d = current d := by
  rw [← lookup_upsert_delete hc hsettled d]
  by_cases hd : d ∈ records.map (·.recordKey)
  · have hkept : d ∉ removed := fun hin =>
      ((hc.processed d).mp hd).1 ((hc.removed d).mp hin).2
    obtain ⟨r, hr, rfl⟩ := List.mem_map.mp hd
    rw [StateTable.lookup_delete, if_neg hkept, StateTable.lookup_upsert hc.nodup hr,
      StateTable.lookup_upsert hc.nodup hr]
  · rw [StateTable.lookup_delete, StateTable.lookup_upsert_of_notMem hd,
      StateTable.lookup_upsert_of_notMem hd, StateTable.lookup_delete]

theorem settled_self (d : String) : Settled state state current d := id

theorem InStep.settled (hstep : InStep written state current d) :
    Settled written state current d := by
  intro hskip
  rcases hstep with hsame | ⟨-, hne⟩ | ⟨-, hsame⟩
  · exact hsame.trans hskip
  · exact absurd hskip hne
  · exact hsame

/-- A key that the run processes and that has no recorded value has no rows, or the rows that it
is about to write. -/
theorem InStep.of_new (hstep : InStep written state current d) (hnew : state.lookup d = none) :
    written.lookup d = none ∨ written.lookup d = current d := by
  rcases hstep with hsame | ⟨hne, -⟩ | ⟨-, hsame⟩
  · exact .inl (hsame.trans hnew)
  · exact absurd hnew hne
  · exact .inr hsame

end Classified

end Stel.Warehouse
