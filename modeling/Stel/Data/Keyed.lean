import Mathlib.Data.List.AList
import Mathlib.Data.Finset.Card

/-!
# Keyed tables

Tables with a primary key are association lists. A batch of rows is inserted row by row, each row
replacing the one with its key, and a batch of keys is deleted key by key.

## Main definitions

* `Keyed`: the tables.
* `Keyed.upsertAll`, `Keyed.eraseAll`: batches.
* `Keyed.modify`: what a loop that accumulates does to the content of a key.

## Main results

* `Keyed.lookup_upsertAll`, `Keyed.lookup_eraseAll`: the tables after a batch.
* `Keyed.lookup_foldl_modify`: the content that a loop accumulates.
* `Keyed.length_keys_eq_iff`: counting rows against an expected key list.
-/

namespace Stel

/-- A table with keys `κ` and contents `β`. -/
abbrev Keyed (κ β : Type) : Type := AList fun _ : κ => β

/-- The entries of a list with distinct keys are what its lookup finds. -/
theorem mem_iff_lookup {β : Type} {entries : List (String × β)} {k : String} {b : β}
    (hnodup : (entries.map Prod.fst).Nodup) : (k, b) ∈ entries ↔ entries.lookup k = some b := by
  induction entries with
  | nil => simp
  | cons e entries ih =>
    obtain ⟨k', b'⟩ := e
    obtain ⟨hnew, hrest⟩ := List.nodup_cons.mp hnodup
    rw [List.mem_cons, List.lookup_cons]
    by_cases hk : k = k'
    · subst hk
      have hout : (k, b) ∉ entries := fun hmem => hnew (List.mem_map.mpr ⟨(k, b), hmem, rfl⟩)
      simp [hout, eq_comm]
    · have hb : (k == k') = false := by simpa using hk
      simp [hb, hk, ih hrest]

namespace Keyed

variable {κ β γ : Type} [DecidableEq κ]

/-- Inserts a batch of rows, each replacing the row with its key. -/
def upsertAll (t : Keyed κ β) (rows : List (κ × β)) : Keyed κ β :=
  rows.foldl (fun t row => t.insert row.1 row.2) t

/-- Deletes a batch of keys. -/
def eraseAll (t : Keyed κ β) (keys : List κ) : Keyed κ β :=
  keys.foldl (fun t k => t.erase k) t

theorem lookup_upsertAll_of_notMem {t : Keyed κ β} {rows : List (κ × β)} {k : κ}
    (h : k ∉ rows.map Prod.fst) : (upsertAll t rows).lookup k = t.lookup k := by
  induction rows generalizing t with
  | nil => rfl
  | cons row rows ih =>
    simp only [List.map_cons, List.mem_cons, not_or] at h
    show (upsertAll (t.insert row.1 row.2) rows).lookup k = t.lookup k
    rw [ih h.2, AList.lookup_insert_ne h.1]

theorem lookup_upsertAll {t : Keyed κ β} {rows : List (κ × β)}
    (hrows : (rows.map Prod.fst).Nodup) {k : κ} {b : β} (h : (k, b) ∈ rows) :
    (upsertAll t rows).lookup k = some b := by
  induction rows generalizing t with
  | nil => cases h
  | cons row rows ih =>
    obtain ⟨hnew, hrest⟩ := List.nodup_cons.mp hrows
    show (upsertAll (t.insert row.1 row.2) rows).lookup k = some b
    rcases List.mem_cons.mp h with rfl | h
    · rw [lookup_upsertAll_of_notMem hnew, AList.lookup_insert]
    · exact ih hrest h

theorem mem_of_lookup_upsertAll {t : Keyed κ β} {rows : List (κ × β)} {k : κ} {b : β}
    (h : (upsertAll t rows).lookup k = some b) : (k, b) ∈ rows ∨ t.lookup k = some b := by
  induction rows generalizing t with
  | nil => exact .inr h
  | cons row rows ih =>
    rcases ih (t := t.insert row.1 row.2) h with hmem | hlookup
    · exact .inl (List.mem_cons_of_mem _ hmem)
    · by_cases hk : k = row.1
      · rw [hk, AList.lookup_insert] at hlookup
        obtain rfl := Option.some.inj hlookup
        exact .inl (hk ▸ List.mem_cons_self)
      · rw [AList.lookup_insert_ne hk] at hlookup
        exact .inr hlookup

theorem exists_lookup_upsertAll {t : Keyed κ β} {rows : List (κ × β)} {k : κ}
    (h : k ∈ rows.map Prod.fst) : ∃ b, (upsertAll t rows).lookup k = some b := by
  induction rows generalizing t with
  | nil => cases h
  | cons row rows ih =>
    show ∃ b, (upsertAll (t.insert row.1 row.2) rows).lookup k = some b
    by_cases hmem : k ∈ rows.map Prod.fst
    · exact ih hmem
    · obtain rfl := (List.mem_cons.mp h).resolve_right hmem
      exact ⟨row.2, by rw [lookup_upsertAll_of_notMem hmem, AList.lookup_insert]⟩

/-- The order of rows that agree on their keys does not matter. -/
theorem lookup_upsertAll_perm {rows rows' : List (κ × β)} (h : rows.Perm rows')
    (hfun : ∀ p ∈ rows, ∀ q ∈ rows, p.1 = q.1 → p.2 = q.2) (k : κ) :
    (upsertAll ∅ rows).lookup k = (upsertAll ∅ rows').lookup k := by
  have hmem : ∀ {rows : List (κ × β)} {b}, (upsertAll ∅ rows).lookup k = some b → (k, b) ∈ rows :=
    fun hb => (mem_of_lookup_upsertAll hb).resolve_right (by rw [AList.lookup_empty]; exact nofun)
  cases hb : (upsertAll ∅ rows').lookup k with
  | some b =>
    have hb' := h.mem_iff.mpr (hmem hb)
    obtain ⟨b', hlookup⟩ := exists_lookup_upsertAll (t := ∅) (List.mem_map_of_mem (f := Prod.fst) hb')
    exact hlookup.trans (congrArg some (hfun _ hb' _ (hmem hlookup) rfl).symm)
  | none =>
    by_contra hne
    obtain ⟨b, hb'⟩ := Option.ne_none_iff_exists'.mp hne
    obtain ⟨b', hlookup⟩ := exists_lookup_upsertAll (t := ∅)
      (List.mem_map_of_mem (f := Prod.fst) (h.mem_iff.mp (hmem hb')))
    exact Option.some_ne_none _ (hlookup.symm.trans hb)

theorem lookup_eraseAll (t : Keyed κ β) (keys : List κ) (k : κ) :
    (eraseAll t keys).lookup k = if k ∈ keys then none else t.lookup k := by
  induction keys generalizing t with
  | nil => rfl
  | cons key keys ih =>
    show (eraseAll (t.erase key) keys).lookup k = _
    rw [ih]
    by_cases hk : k = key
    · subst hk
      simp
    · rw [AList.lookup_erase_ne hk]
      simp [hk]

theorem mem_iff_isSome {t : Keyed κ β} {k : κ} : k ∈ t.keys ↔ (t.lookup k).isSome :=
  AList.lookup_isSome.symm

/-! ### Accumulating -/

/-- `t[k] = f(t.get(k))`. -/
def modify (t : Keyed κ β) (k : κ) (f : Option β → β) : Keyed κ β := t.insert k (f (t.lookup k))

theorem lookup_modify (t : Keyed κ β) (k k' : κ) (f : Option β → β) :
    (t.modify k f).lookup k' = if k = k' then some (f (t.lookup k')) else t.lookup k' := by
  by_cases hk : k = k'
  · subst hk
    rw [modify, AList.lookup_insert, if_pos rfl]
  · rw [modify, AList.lookup_insert_ne (Ne.symm hk), if_neg hk]

/-- What a loop accumulates for a key comes from the passes with this key, in order. -/
theorem lookup_foldl_modify (key : γ → κ) (f : γ → Option β → β) (xs : List γ) (t : Keyed κ β)
    (k : κ) :
    (xs.foldl (fun t x => t.modify (key x) (f x)) t).lookup k =
      (xs.filter fun x => key x = k).foldl (fun old x => some (f x old)) (t.lookup k) := by
  induction xs generalizing t with
  | nil => rfl
  | cons x xs ih =>
    rw [List.foldl_cons, ih, lookup_modify, List.filter_cons]
    by_cases hk : key x = k <;> simp [hk]

/-! ### Counting -/

/-- A table has as many rows as a duplicate-free list has entries exactly if as many entries are
missing from the table as its keys are missing from the list. -/
theorem length_keys_eq_iff {t : Keyed κ β} {expected : List κ} (hnodup : expected.Nodup) :
    t.keys.length = expected.length ↔
      (expected.filter fun k => k ∉ t.keys).length =
        (t.keys.filter fun k => k ∉ expected).length := by
  have hsplit : ∀ l m : List κ, l.Nodup → m.Nodup → l.length =
      (l.filter fun k => k ∉ m).length + (l.toFinset ∩ m.toFinset).card := by
    intro l m hl hm
    have hcard : (l.filter fun k => k ∈ m).length = (l.toFinset ∩ m.toFinset).card := by
      rw [← List.toFinset_card_of_nodup (hl.filter _), List.toFinset_filter]
      congr 1
      ext k
      simp
    rw [← hcard, List.length_eq_length_filter_add fun k => decide (k ∈ m), Nat.add_comm]
    simp
  have hleft := hsplit t.keys expected t.keys_nodup hnodup
  have hright := hsplit expected t.keys hnodup t.keys_nodup
  rw [Finset.inter_comm] at hright
  omega

end Keyed

end Stel
