import Mathlib.Data.List.Nodup
import Mathlib.Data.List.Pairwise
import Mathlib.Data.List.Perm.Basic

/-!
# Two ways to put rows into a table

Rows are put into a table either by deleting the rows that they match and inserting all of them, or by
updating the rows that they match and inserting the others.

## Main definitions

* `deleteInsert`, `updateInsert`: the two tables.
* `Matching`: a row matches at most one row of the other list.

## Main results

* `deleteInsert_perm_iff`: the tables have the same rows exactly if every matched row is updated to the
  row that would have been inserted.
-/

namespace Stel

section Tables

variable {α β : Type} (R : α → β → Prop) [∀ a b, Decidable (R a b)]

/-- The matched rows are deleted, and all new rows are inserted. -/
def deleteInsert (store : β → α) (targets : List α) (sources : List β) : List α :=
  (targets.filter fun t => ¬ ∃ s ∈ sources, R t s) ++ sources.map store

/-- A row that is matched is updated from the new row. -/
def updateMatched (update : α → β → α) (sources : List β) (t : α) : α :=
  (sources.find? fun s => R t s).elim t (update t)

/-- The matched rows are updated, and the other new rows are inserted. -/
def updateInsert (store : β → α) (update : α → β → α) (targets : List α) (sources : List β) : List α :=
  targets.map (updateMatched R update sources) ++
    (sources.filter fun s => ¬ ∃ t ∈ targets, R t s).map store

end Tables

variable {α β : Type} {R : α → β → Prop} {store : β → α} {update : α → β → α} {targets : List α}
  {sources : List β}

/-- A row matches at most one row of the other list. -/
structure Matching (R : α → β → Prop) (targets : List α) (sources : List β) : Prop where
  byTarget : targets.Pairwise fun t t' => ¬ ∃ s ∈ sources, R t s ∧ R t' s
  bySource : sources.Pairwise fun s s' => ¬ ∃ t ∈ targets, R t s ∧ R t s'

theorem Matching.eq_source (h : Matching R targets sources) {t : α} {s s' : β} (ht : t ∈ targets)
    (hs : s ∈ sources) (hs' : s' ∈ sources) (hR : R t s) (hR' : R t s') : s = s' := by
  by_contra hne
  have : Std.Symm fun s s' : β => ¬ ∃ t ∈ targets, R t s ∧ R t s' :=
    ⟨fun _ _ h ⟨t, ht, hab⟩ => h ⟨t, ht, hab.symm⟩⟩
  exact h.bySource.forall hs hs' hne ⟨t, ht, hR, hR'⟩

theorem Matching.eq_target (h : Matching R targets sources) {t t' : α} {s : β} (ht : t ∈ targets)
    (ht' : t' ∈ targets) (hs : s ∈ sources) (hR : R t s) (hR' : R t' s) : t = t' := by
  by_contra hne
  have : Std.Symm fun t t' : α => ¬ ∃ s ∈ sources, R t s ∧ R t' s :=
    ⟨fun _ _ h ⟨s, hs, hab⟩ => h ⟨s, hs, hab.symm⟩⟩
  exact h.byTarget.forall ht ht' hne ⟨s, hs, hR, hR'⟩

variable [∀ a b, Decidable (R a b)]

theorem Matching.find (h : Matching R targets sources) {t : α} {s : β} (ht : t ∈ targets)
    (hs : s ∈ sources) (hR : R t s) : (sources.find? fun s => R t s) = some s := by
  cases hfind : sources.find? fun s => R t s with
  | none => exact absurd (decide_eq_true hR) (List.find?_eq_none.mp hfind s hs)
  | some s' =>
    have hR' : R t s' := by
      have hfound := List.find?_some hfind
      exact of_decide_eq_true hfound
    rw [h.eq_source ht (List.mem_of_find?_eq_some hfind) hs hR' hR]

theorem Matching.nodup_matched (h : Matching R targets sources) :
    (targets.filter fun t => ∃ s ∈ sources, R t s).Nodup := by
  refine List.Pairwise.imp_of_mem ?_ (h.byTarget.filter _)
  rintro t t' ht - hnot rfl
  obtain ⟨s, hs, hR⟩ := of_decide_eq_true (List.mem_filter.mp ht).2
  exact hnot ⟨s, hs, hR, hR⟩

theorem Matching.nodup_matched_sources (h : Matching R targets sources) :
    (sources.filter fun s => ∃ t ∈ targets, R t s).Nodup := by
  refine List.Pairwise.imp_of_mem ?_ (h.bySource.filter _)
  rintro s s' hs - hnot rfl
  obtain ⟨t, ht, hR⟩ := of_decide_eq_true (List.mem_filter.mp hs).2
  exact hnot ⟨t, ht, hR, hR⟩

/-- The matched new rows are those that the matched rows match. -/
theorem Matching.perm_filterMap (h : Matching R targets sources) :
    ((targets.filter fun t => ∃ s ∈ sources, R t s).filterMap fun t => sources.find? fun s => R t s).Perm
      (sources.filter fun s => ∃ t ∈ targets, R t s) := by
  have hfound : ∀ {t : α} {s : β}, (sources.find? fun s => R t s) = some s → s ∈ sources ∧ R t s := by
    intro t s hfind
    have hR := List.find?_some hfind
    exact ⟨List.mem_of_find?_eq_some hfind, of_decide_eq_true hR⟩
  have hnodup : ((targets.filter fun t => ∃ s ∈ sources, R t s).filterMap
      fun t => sources.find? fun s => R t s).Nodup := by
    refine List.Pairwise.filterMap _ ?_ (List.Pairwise.and_mem.mp h.nodup_matched)
    rintro t t' ⟨ht, ht', hne⟩ s hs s' hs' rfl
    obtain ⟨hmem, hR⟩ := hfound hs
    obtain ⟨-, hR'⟩ := hfound hs'
    exact hne (h.eq_target (List.mem_of_mem_filter ht) (List.mem_of_mem_filter ht') hmem hR hR')
  refine (List.perm_ext_iff_of_nodup hnodup h.nodup_matched_sources).mpr fun s => ?_
  simp only [List.mem_filterMap, List.mem_filter, decide_eq_true_iff]
  constructor
  · rintro ⟨t, ⟨ht, -⟩, hfind⟩
    obtain ⟨hs, hR⟩ := hfound hfind
    exact ⟨hs, t, ht, hR⟩
  · rintro ⟨hs, t, ht, hR⟩
    exact ⟨t, ⟨ht, s, hs, hR⟩, h.find ht hs hR⟩

theorem perm_updated (targets : List α) (sources : List β) (R : α → β → Prop) [∀ a b, Decidable (R a b)]
    (update : α → β → α) : (targets.map (updateMatched R update sources)).Perm
    ((targets.filter fun t => ¬ ∃ s ∈ sources, R t s) ++
      (targets.filter fun t => ∃ s ∈ sources, R t s).map (updateMatched R update sources)) := by
  have hrest : (targets.filter fun t => ¬ ∃ s ∈ sources, R t s).map (updateMatched R update sources) =
      targets.filter fun t => ¬ ∃ s ∈ sources, R t s := by
    refine (List.map_congr_left fun t ht => ?_).trans (List.map_id _)
    have hnone : (sources.find? fun s => R t s) = none := by
      refine List.find?_eq_none.mpr fun s hs hR => ?_
      exact of_decide_eq_true (List.mem_filter.mp ht).2 ⟨s, hs, of_decide_eq_true hR⟩
    rw [updateMatched, hnone]
    rfl
  have hnot : ∀ t, (!decide (∃ s ∈ sources, R t s)) = decide (¬ ∃ s ∈ sources, R t s) := fun t =>
    decide_not.symm
  have hsplit := (List.filter_append_perm (fun t => ∃ s ∈ sources, R t s) targets).map
    (updateMatched R update sources)
  simp only [hnot, List.map_append, hrest] at hsplit
  exact hsplit.symm.trans List.perm_append_comm

section

variable (h : Matching R targets sources)

include h

/-- What the matched rows are updated to, and what is inserted for them. -/
theorem Matching.perm_inserted (store : β → α) :
    ((targets.filter fun t => ∃ s ∈ sources, R t s).map (updateMatched R (fun _ => store) sources)).Perm
      ((sources.filter fun s => ∃ t ∈ targets, R t s).map store) := by
  have hmap : (targets.filter fun t => ∃ s ∈ sources, R t s).map (updateMatched R (fun _ => store) sources) =
      ((targets.filter fun t => ∃ s ∈ sources, R t s).filterMap
        fun t => sources.find? fun s => R t s).map store := by
    rw [List.map_filterMap, ← List.filterMap_eq_map]
    refine List.filterMap_congr fun t ht => ?_
    obtain ⟨ht, hmatched⟩ := List.mem_filter.mp ht
    obtain ⟨s, hs, hR⟩ := of_decide_eq_true hmatched
    simp only [Function.comp_apply, updateMatched, h.find ht hs hR, Option.elim_some, Option.map_some]
  rw [hmap]
  exact h.perm_filterMap.map store

theorem Matching.update_eq {t : α} {s : β} (update : α → β → α) (ht : t ∈ targets) (hs : s ∈ sources)
    (hR : R t s) : updateMatched R update sources t = update t s := by
  rw [updateMatched, h.find ht hs hR]
  rfl

/-- The two tables have the same rows exactly if every matched row is updated to the row that would have
been inserted, provided that a row that is inserted for another one is not taken for it. -/
theorem deleteInsert_perm_iff (hkey : ∀ t ∈ targets, ∀ t' ∈ targets, ∀ s ∈ sources, ∀ s' ∈ sources,
      R t s → R t' s' → update t s = store s' → t = t') :
    (deleteInsert R store targets sources).Perm (updateInsert R store update targets sources) ↔
      ∀ t ∈ targets, ∀ s ∈ sources, R t s → update t s = store s := by
  have hnot : ∀ s, (!decide (∃ t ∈ targets, R t s)) = decide (¬ ∃ t ∈ targets, R t s) := fun s =>
    decide_not.symm
  have hsplit := (List.filter_append_perm (fun s => ∃ t ∈ targets, R t s) sources).map store
  simp only [hnot, List.map_append] at hsplit
  have hdelete : (deleteInsert R store targets sources).Perm
      ((targets.filter fun t => ¬ ∃ s ∈ sources, R t s) ++
        ((targets.filter fun t => ∃ s ∈ sources, R t s).map (updateMatched R (fun _ => store) sources) ++
          (sources.filter fun s => ¬ ∃ t ∈ targets, R t s).map store)) :=
    (hsplit.symm.trans ((h.perm_inserted store).symm.append_right _)).append_left _
  have hupdate := (perm_updated targets sources R update).append_right
    ((sources.filter fun s => ¬ ∃ t ∈ targets, R t s).map store)
  rw [List.append_assoc] at hupdate
  have hcancel : (deleteInsert R store targets sources).Perm
      (updateInsert R store update targets sources) ↔
      ((targets.filter fun t => ∃ s ∈ sources, R t s).map (updateMatched R (fun _ => store) sources)).Perm
        ((targets.filter fun t => ∃ s ∈ sources, R t s).map (updateMatched R update sources)) := by
    rw [hdelete.congr_left, updateInsert, hupdate.congr_right, List.perm_append_left_iff,
      List.perm_append_right_iff]
  rw [hcancel]
  constructor
  · intro hperm t ht s hs hR
    have hmem : update t s ∈ (targets.filter fun t => ∃ s ∈ sources, R t s).map
        (updateMatched R update sources) :=
      List.mem_map.mpr ⟨t, List.mem_filter.mpr ⟨ht, decide_eq_true ⟨s, hs, hR⟩⟩, h.update_eq _ ht hs hR⟩
    obtain ⟨t', ht', heq⟩ := List.mem_map.mp (hperm.mem_iff.mpr hmem)
    obtain ⟨ht', hmatched⟩ := List.mem_filter.mp ht'
    obtain ⟨s', hs', hR'⟩ := of_decide_eq_true hmatched
    rw [h.update_eq _ ht' hs' hR'] at heq
    obtain rfl := hkey t ht t' ht' s hs s' hs' hR hR' heq.symm
    rw [← heq, h.eq_source ht hs hs' hR hR']
  · intro hall
    refine List.Perm.of_eq (List.map_congr_left fun t ht => ?_)
    obtain ⟨ht, hmatched⟩ := List.mem_filter.mp ht
    obtain ⟨s, hs, hR⟩ := of_decide_eq_true hmatched
    rw [h.update_eq _ ht hs hR, h.update_eq _ ht hs hR, hall t ht s hs hR]

end

end Stel
