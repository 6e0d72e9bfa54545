import Stel.Data.Keyed
import Stel.Failure
import Mathlib.Algebra.Order.BigOperators.Group.List
import Mathlib.Algebra.Order.Field.Rat
import Mathlib.Data.List.Sort
import Mathlib.Data.Prod.Lex
import Mathlib.Data.String.Basic
import Mathlib.Tactic.Positivity

/-!
# Reciprocal rank fusion

A query ranks the records of an index once for its vector and once for each text field. `_rank_table`
reads what the store returned, `_score_single` scores one ranking, and `_rrf` merges several: a record
collects the reciprocal of its rank, shifted by a constant, from every ranking that it is in, and the
sums are divided by the greatest possible one. Scores are exact rational numbers.

## Main definitions

* `rankTable`, `scoreSingle`, `rrf`: the functions of the source.
* `rankIn`: the position of a record in a ranking, counted from one.
* `FairMerge`: what a merged ranking is.

## Main results

* `nodup_scoreSingle`: a scored ranking holds each record once.
* `lookup_scores`, `lookup_ranks`: what the loops of `_rrf` leave for a record.
* `rrf_fairMerge`: `_rrf` is a fair merge, whatever the rankings are.
-/

namespace Stel

namespace Search

variable {V : Type}

/-! ### Rankings -/

/-- A value in a row of a store: a string, a finite number, or anything else. -/
inductive RowValue (V : Type)
  | str (value : String)
  | number (value : ℚ)
  | other (value : V)

/-- A row of a store. -/
abbrev StoreRow (V : Type) : Type := Keyed String (RowValue V)

/-- `_RankedRow`. -/
structure RankedRow (V : Type) where
  recordId : String
  values : StoreRow V
  rawScore : Option ℚ
  rawScoreKind : Option String

/-- `_ScoredRow`. -/
structure ScoredRow (V : Type) where
  recordId : String
  values : StoreRow V
  score : ℚ
  rawScore : Option ℚ
  rawScoreKind : Option String
  contributingRanks : Keyed String ℕ

/-- `_SCORE_COLUMNS`, each with its name without the underscore. -/
def scoreColumns : List (String × String) :=
  [("_distance", "distance"), ("_score", "score"), ("_relevance_score", "relevance_score")]

/-- The first score column of a row that holds a finite number. -/
def rawScoreOf (raw : StoreRow V) : Option (ℚ × String) :=
  scoreColumns.findSome? fun (name, kind) =>
    match raw.lookup name with
    | some (.number x) => some (x, kind)
    | _ => none

/-- The error of a row without a record ID. -/
def invalidRecordId : Failure := .other "Retrieval store returned an invalid record ID"

/-- The loop body of `_rank_table`, for the rows and the IDs seen so far. -/
def rankRow (idField : String) (state : List (RankedRow V) × List String) (raw : StoreRow V) :
    Except Failure (List (RankedRow V) × List String) :=
  match raw.lookup idField with
  | some (.str recordId) =>
    if recordId = "" then .error invalidRecordId
    else if recordId ∈ state.2 then .ok state
    else .ok (state.1 ++ [⟨recordId, raw.eraseAll (scoreColumns.map Prod.fst),
      (rawScoreOf raw).map Prod.fst, (rawScoreOf raw).map Prod.snd⟩], recordId :: state.2)
  | _ => .error invalidRecordId

/-- `_rank_table`. -/
def rankTable (table : List (StoreRow V)) (idField : String) :
    Except Failure (List (RankedRow V)) := do
  let state ← table.foldlM (rankRow idField) ([], [])
  pure state.1

/-- `_score_single`. -/
def scoreSingle (rows : List (RankedRow V)) (label : String) : List (ScoredRow V) :=
  (rows.zipIdx 1).map fun (row, rank) =>
    ⟨row.recordId, row.values, 1 / rank, row.rawScore, row.rawScoreKind,
      (∅ : Keyed String ℕ).insert label rank⟩

/-- The records of a ranking. -/
def recordIds (rows : List (ScoredRow V)) : List String := rows.map ScoredRow.recordId

theorem nodup_rankTable {table : List (StoreRow V)} {idField : String} {rows : List (RankedRow V)}
    (h : rankTable table idField = .ok rows) : (rows.map RankedRow.recordId).Nodup := by
  obtain ⟨state, hstate, hrows⟩ := bind_eq_ok.mp h
  obtain rfl : state.1 = rows := Except.ok.inj hrows
  -- the IDs of the rows are those seen
  suffices hinv : (state.1.map RankedRow.recordId).Nodup ∧
      ∀ id ∈ state.1.map RankedRow.recordId, id ∈ state.2 from hinv.1
  refine foldlM_induction hstate (fun _ state => (state.1.map RankedRow.recordId).Nodup ∧
      ∀ id ∈ state.1.map RankedRow.recordId, id ∈ state.2) ⟨List.nodup_nil, nofun⟩ ?_
  rintro - raw ⟨rows, seen⟩ v - - ⟨hnodup, hseen⟩ hstep
  unfold rankRow at hstep
  split at hstep
  · rename_i recordId hid
    split_ifs at hstep with hempty hmem
    · obtain rfl := Except.ok.inj hstep
      exact ⟨hnodup, hseen⟩
    · obtain rfl := Except.ok.inj hstep
      have hnew : recordId ∉ rows.map RankedRow.recordId := fun h => hmem (hseen _ h)
      refine ⟨?_, fun id hid => ?_⟩
      · rw [List.map_append, List.nodup_append']
        exact ⟨hnodup, List.nodup_singleton _, by simpa using hnew⟩
      · rw [List.map_append, List.mem_append] at hid
        rcases hid with hid | hid
        · exact List.mem_cons_of_mem _ (hseen _ hid)
        · exact List.mem_cons.mpr (.inl (by simpa using hid))
  · cases hstep

theorem recordIds_scoreSingle (rows : List (RankedRow V)) (label : String) :
    recordIds (scoreSingle rows label) = rows.map RankedRow.recordId := by
  rw [recordIds, scoreSingle, List.map_map, ← List.zipIdx_map_fst 1 rows, List.map_map,
    List.zipIdx_map_fst 1 rows]
  rfl

/-- A scored ranking of what a store returned holds each record once. -/
theorem nodup_scoreSingle {table : List (StoreRow V)} {idField : String}
    {rows : List (RankedRow V)} (h : rankTable table idField = .ok rows) (label : String) :
    (recordIds (scoreSingle rows label)).Nodup := by
  rw [recordIds_scoreSingle]
  exact nodup_rankTable h

/-! ### Fusion -/

/-- The dictionaries that `_rrf` fills. -/
structure Fused (V : Type) where
  scores : Keyed String ℚ := ∅
  values : Keyed String (StoreRow V) := ∅
  ranks : Keyed String (Keyed String ℕ) := ∅

/-- A row of a ranking, with the name of the ranking and its rank. -/
structure Place (V : Type) where
  name : String
  row : ScoredRow V
  rank : ℕ

namespace Place

/-- `scores.get(…, 0.0) + 1.0 / (rank_constant + rank)`. -/
def addScore (rankConstant : ℕ) (place : Place V) (old : Option ℚ) : ℚ :=
  old.getD 0 + 1 / ((rankConstant : ℚ) + place.rank)

/-- `values.setdefault(…, {}).update(row.values)`. -/
def addValues (place : Place V) (old : Option (StoreRow V)) : StoreRow V :=
  (old.getD ∅).upsertAll (place.row.values.entries.map fun e => (e.1, e.2))

/-- `ranks.setdefault(…, {})[name] = rank`. -/
def addRank (place : Place V) (old : Option (Keyed String ℕ)) : Keyed String ℕ :=
  (old.getD ∅).insert place.name place.rank

end Place

/-- The loop body of `_rrf`. -/
def Fused.add (rankConstant : ℕ) (fused : Fused V) (place : Place V) : Fused V where
  scores := fused.scores.modify place.row.recordId (place.addScore rankConstant)
  values := fused.values.modify place.row.recordId place.addValues
  ranks := fused.ranks.modify place.row.recordId place.addRank

/-- `ranked[name]`. -/
def rowsOf (ranked : Keyed String (List (ScoredRow V))) (name : String) : List (ScoredRow V) :=
  (ranked.lookup name).getD []

/-- The names of the rankings that are not empty, in order. -/
def nonemptyNames (ranked : Keyed String (List (ScoredRow V))) : List String :=
  (ranked.keys.filter fun name => !(rowsOf ranked name).isEmpty).insertionSort (· ≤ ·)

/-- The rows that the loops of `_rrf` pass, in order. -/
def places (ranked : Keyed String (List (ScoredRow V))) : List (Place V) :=
  (nonemptyNames ranked).flatMap fun name =>
    ((rowsOf ranked name).zipIdx 1).map fun (row, rank) => ⟨name, row, rank⟩

/-- The loops of `_rrf`. -/
def fuse (ranked : Keyed String (List (ScoredRow V))) (rankConstant : ℕ) : Fused V :=
  (places ranked).foldl (Fused.add rankConstant) {}

/-- `_rrf`. -/
def rrf (ranked : Keyed String (List (ScoredRow V))) (rankConstant : ℕ := 60) :
    List (ScoredRow V) :=
  let fused := fuse ranked rankConstant
  let maximum : ℚ := (nonemptyNames ranked).length / ((rankConstant : ℚ) + 1)
  let score := fun recordId => (fused.scores.lookup recordId).getD 0
  let ordered := fused.scores.keys.insertionSort fun a b =>
    toLex (-score a, a) ≤ toLex (-score b, b)
  ordered.map fun recordId =>
    ⟨recordId, (fused.values.lookup recordId).getD ∅, score recordId / maximum, none, none,
      (fused.ranks.lookup recordId).getD ∅⟩

/-! ### What a record collects -/

/-- The position of a record in a ranking, counted from one. -/
def rankIn (rows : List (ScoredRow V)) (recordId : String) : Option ℕ :=
  if recordId ∈ recordIds rows then some ((recordIds rows).idxOf recordId + 1) else none

/-- The rankings that a record is in, with its ranks. -/
def ranksOf (ranked : Keyed String (List (ScoredRow V))) (recordId : String) : List (String × ℕ) :=
  (nonemptyNames ranked).filterMap fun name =>
    (rankIn (rowsOf ranked name) recordId).map (Prod.mk name)

/-- What a ranking adds to the score of a record. -/
def share (rankConstant : ℕ) (rank : Option ℕ) : ℚ :=
  rank.elim 0 fun rank => 1 / ((rankConstant : ℚ) + rank)

/-- Every ranking holds each record once. -/
def Distinct (ranked : Keyed String (List (ScoredRow V))) : Prop :=
  ∀ name rows, ranked.lookup name = some rows → (recordIds rows).Nodup

variable {ranked : Keyed String (List (ScoredRow V))} {rankConstant : ℕ}

theorem mem_nonemptyNames {name : String} :
    name ∈ nonemptyNames ranked ↔ ∃ rows, ranked.lookup name = some rows ∧ rows ≠ [] := by
  rw [nonemptyNames, List.mem_insertionSort, List.mem_filter, Keyed.mem_iff_isSome, rowsOf]
  cases ranked.lookup name with
  | none => simp
  | some rows => simp

theorem nodup_nonemptyNames (ranked : Keyed String (List (ScoredRow V))) :
    (nonemptyNames ranked).Nodup :=
  (List.perm_insertionSort _ _).nodup_iff.mpr (ranked.keys_nodup.filter _)

theorem rankIn_eq_some {rows : List (ScoredRow V)} {recordId : String} {rank : ℕ} :
    rankIn rows recordId = some rank ↔
      recordId ∈ recordIds rows ∧ (recordIds rows).idxOf recordId + 1 = rank := by
  unfold rankIn
  split_ifs with h <;> simp [h]

theorem rankIn_nil (recordId : String) : rankIn ([] : List (ScoredRow V)) recordId = none := rfl

/-- The passes of one ranking for a record. -/
theorem map_filter_zipIdx {rows : List (ScoredRow V)} (hnodup : (recordIds rows).Nodup)
    (recordId : String) (start : ℕ) :
    ((rows.zipIdx start).filter fun x => x.1.recordId = recordId).map Prod.snd =
      if recordId ∈ recordIds rows then [(recordIds rows).idxOf recordId + start] else [] := by
  induction rows generalizing start with
  | nil => rfl
  | cons row rows ih =>
    obtain ⟨hnew, hrest⟩ := List.nodup_cons.mp hnodup
    have hids : recordIds (row :: rows) = row.recordId :: recordIds rows := rfl
    rw [List.zipIdx_cons, List.filter_cons, hids]
    by_cases hrow : row.recordId = recordId
    · have hnone : recordId ∉ recordIds rows := hrow ▸ hnew
      simp [hrow, ih hrest, hnone]
    · have hne : recordId ≠ row.recordId := Ne.symm hrow
      simp only [hrow, decide_false, Bool.false_eq_true, if_false, ih hrest, List.mem_cons, hne,
        false_or, List.idxOf_cons_ne _ hrow]
      split_ifs
      · rw [Nat.succ_add_eq_add_succ]
      · rfl

/-- The passes of `_rrf` for a record. -/
theorem map_filter_places (hdistinct : Distinct ranked) (recordId : String) :
    ((places ranked).filter fun x => x.row.recordId = recordId).map (fun x => (x.name, x.rank)) =
      ranksOf ranked recordId := by
  have hrows : ∀ name, (recordIds (rowsOf ranked name)).Nodup := fun name => by
    unfold rowsOf
    cases hlookup : ranked.lookup name with
    | none => exact List.nodup_nil
    | some rows => exact hdistinct name rows hlookup
  rw [places, List.filter_flatMap, List.map_flatMap, ranksOf, List.filterMap_eq_flatMap_toList]
  refine List.flatMap_congr fun name _ => ?_
  have hpasses := map_filter_zipIdx (hrows name) recordId 1
  rw [List.filter_map, List.map_map]
  have hmap : ∀ xs : List (ScoredRow V × ℕ),
      xs.map ((fun x : Place V => (x.name, x.rank)) ∘ fun x => ⟨name, x.1, x.2⟩) =
        (xs.map Prod.snd).map (Prod.mk name) := fun xs => by
    rw [List.map_map]
    rfl
  rw [hmap]
  refine (congrArg (List.map (Prod.mk name)) hpasses).trans ?_
  unfold rankIn
  split_ifs <;> rfl

theorem foldl_add_eq {A : Type} (g : A → ℚ) (xs : List A) (start : Option ℚ) :
    xs.foldl (fun old x => some (old.getD 0 + g x)) start =
      if xs = [] then start else some (start.getD 0 + (xs.map g).sum) := by
  induction xs generalizing start with
  | nil => rfl
  | cons x xs ih =>
    rw [List.foldl_cons, ih]
    by_cases hxs : xs = []
    · simp [hxs]
    · simp [hxs, add_assoc]

/-- The score of a record before it is divided by the greatest possible one. -/
theorem lookup_scores (hdistinct : Distinct ranked) (recordId : String) :
    (fuse ranked rankConstant).scores.lookup recordId =
      if ranksOf ranked recordId = [] then none
      else some ((ranksOf ranked recordId).map fun x => 1 / ((rankConstant : ℚ) + x.2)).sum := by
  have hscores : (fuse ranked rankConstant).scores = (places ranked).foldl
      (fun t x => t.modify x.row.recordId (x.addScore rankConstant)) ∅ :=
    (List.foldl_hom Fused.scores fun _ _ => rfl).symm
  have hadd : (fun (old : Option ℚ) (x : Place V) => some (x.addScore rankConstant old)) =
      fun old x => some (old.getD 0 + 1 / ((rankConstant : ℚ) + x.rank)) := rfl
  rw [hscores, Keyed.lookup_foldl_modify (fun x : Place V => x.row.recordId)
    (Place.addScore rankConstant), AList.lookup_empty, hadd, ← map_filter_places hdistinct,
    foldl_add_eq, List.map_map]
  simp only [List.map_eq_nil_iff, Option.getD_none, zero_add, Function.comp_def]

/-- The ranks of a record. -/
theorem lookup_ranks (hdistinct : Distinct ranked) {recordId : String}
    (h : ranksOf ranked recordId ≠ []) :
    (fuse ranked rankConstant).ranks.lookup recordId =
      some (Keyed.upsertAll ∅ (ranksOf ranked recordId)) := by
  have hranks : (fuse ranked rankConstant).ranks = (places ranked).foldl
      (fun t x => t.modify x.row.recordId x.addRank) ∅ :=
    (List.foldl_hom Fused.ranks fun _ _ => rfl).symm
  have hfold : ∀ (xs : List (String × ℕ)) (start : Option (Keyed String ℕ)),
      xs.foldl (fun old x => some ((old.getD ∅).insert x.1 x.2)) start =
        if xs = [] then start else some ((start.getD ∅).upsertAll xs) := by
    intro xs
    induction xs with
    | nil => exact fun _ => rfl
    | cons x xs ih =>
      intro start
      rw [List.foldl_cons, ih]
      by_cases hxs : xs = []
      · simp [hxs, Keyed.upsertAll]
      · simp [hxs, Keyed.upsertAll]
  rw [hranks, Keyed.lookup_foldl_modify (fun x : Place V => x.row.recordId) Place.addRank,
    AList.lookup_empty]
  have hplaces := map_filter_places hdistinct recordId
  rw [← hplaces] at h ⊢
  have hpasses := hfold (((places ranked).filter fun x => x.row.recordId = recordId).map
    fun x => (x.name, x.rank)) none
  rw [if_neg h, List.foldl_map] at hpasses
  exact hpasses

/-! ### Scores -/

theorem sum_ranksOf (recordId : String) :
    ((ranksOf ranked recordId).map fun x => 1 / ((rankConstant : ℚ) + x.2)).sum =
      ((nonemptyNames ranked).map fun name =>
        share rankConstant (rankIn (rowsOf ranked name) recordId)).sum := by
  unfold ranksOf
  induction nonemptyNames ranked with
  | nil => rfl
  | cons name names ih =>
    rw [List.filterMap_cons, List.map_cons, List.sum_cons, ← ih]
    cases rankIn (rowsOf ranked name) recordId with
    | none => simp [share]
    | some rank => simp [share]

theorem share_nonneg (rank : Option ℕ) : 0 ≤ share rankConstant rank := by
  cases rank with
  | none => exact le_refl _
  | some rank => exact div_nonneg zero_le_one (by positivity)

/-- A better rank adds more. -/
theorem share_antitone {m n : ℕ} (hm : 1 ≤ m) (hmn : m ≤ n) :
    share rankConstant (some n) ≤ share rankConstant (some m) := by
  have hpos : (0 : ℚ) < (rankConstant : ℚ) + m := by
    have : (1 : ℚ) ≤ m := by exact_mod_cast hm
    positivity
  have hle : (rankConstant : ℚ) + m ≤ (rankConstant : ℚ) + n := by
    have : (m : ℚ) ≤ n := by exact_mod_cast hmn
    exact add_le_add_right this _
  exact one_div_le_one_div_of_le hpos hle

theorem share_lt {n : ℕ} (hn : 1 < n) :
    share rankConstant (some n) < 1 / ((rankConstant : ℚ) + 1) := by
  have hlt : (rankConstant : ℚ) + 1 < (rankConstant : ℚ) + n := by
    have : (1 : ℚ) < n := by exact_mod_cast hn
    exact add_lt_add_right this _
  exact one_div_lt_one_div_of_lt (by positivity) hlt

/-- A ranking adds the most for its first record, and less for any other one. -/
theorem share_le (rankConstant : ℕ) (rows : List (ScoredRow V)) (recordId : String) :
    share rankConstant (rankIn rows recordId) ≤ 1 / ((rankConstant : ℚ) + 1) ∧
      (share rankConstant (rankIn rows recordId) = 1 / ((rankConstant : ℚ) + 1) ↔
        rankIn rows recordId = some 1) := by
  have hpos : (0 : ℚ) < 1 / ((rankConstant : ℚ) + 1) := by positivity
  cases hrank : rankIn rows recordId with
  | none => exact ⟨hpos.le, ⟨fun h => absurd h hpos.ne, nofun⟩⟩
  | some rank =>
    obtain ⟨-, hone⟩ := rankIn_eq_some.mp hrank
    rcases Nat.eq_or_lt_of_le (show 1 ≤ rank by omega) with rfl | hlt
    · exact ⟨le_of_eq (by simp [share]), ⟨fun _ => rfl, fun _ => by simp [share]⟩⟩
    · refine ⟨(share_lt hlt).le, ⟨fun h => absurd h (share_lt hlt).ne, fun h => ?_⟩⟩
      exact absurd (Option.some.inj h) hlt.ne'

/-- The sum of the shares of a record. -/
def shares (ranked : Keyed String (List (ScoredRow V))) (rankConstant : ℕ) (recordId : String) : ℚ :=
  ((nonemptyNames ranked).map fun name =>
    share rankConstant (rankIn (rowsOf ranked name) recordId)).sum

/-- The greatest possible sum, which a record reaches if every ranking begins with it. -/
theorem shares_le (recordId : String) :
    shares ranked rankConstant recordId ≤
        (nonemptyNames ranked).length / ((rankConstant : ℚ) + 1) ∧
      (shares ranked rankConstant recordId =
          (nonemptyNames ranked).length / ((rankConstant : ℚ) + 1) ↔
        ∀ name ∈ nonemptyNames ranked, rankIn (rowsOf ranked name) recordId = some 1) := by
  unfold shares
  induction nonemptyNames ranked with
  | nil => simp
  | cons name names ih =>
    obtain ⟨hle, heq⟩ := share_le rankConstant (rowsOf ranked name) recordId
    obtain ⟨ihle, iheq⟩ := ih
    have hlength : ((name :: names).length : ℚ) / ((rankConstant : ℚ) + 1) =
        1 / ((rankConstant : ℚ) + 1) + names.length / ((rankConstant : ℚ) + 1) := by
      rw [← add_div, List.length_cons, Nat.cast_add, Nat.cast_one, add_comm]
    rw [List.map_cons, List.sum_cons, hlength, List.forall_mem_cons, ← heq, ← iheq]
    exact ⟨add_le_add hle ihle, add_eq_add_iff_eq_and_eq hle ihle⟩

theorem rowsOf_eq {name : String} {rows : List (ScoredRow V)} (h : ranked.lookup name = some rows) :
    rowsOf ranked name = rows := by
  rw [rowsOf, h, Option.getD_some]

theorem ranksOf_ne_nil {recordId : String} :
    ranksOf ranked recordId ≠ [] ↔
      ∃ name rows, ranked.lookup name = some rows ∧ recordId ∈ recordIds rows := by
  rw [ranksOf, ne_eq, List.filterMap_eq_nil_iff, not_forall]
  constructor
  · rintro ⟨name, h⟩
    obtain ⟨hname, hsome⟩ := Classical.not_imp.mp h
    obtain ⟨rows, hlookup, -⟩ := mem_nonemptyNames.mp hname
    rw [rowsOf_eq hlookup, Option.map_eq_none_iff] at hsome
    obtain ⟨rank, hrank⟩ := Option.ne_none_iff_exists'.mp hsome
    exact ⟨name, rows, hlookup, (rankIn_eq_some.mp hrank).1⟩
  · rintro ⟨name, rows, hlookup, hid⟩
    have hne : rows ≠ [] := fun h => by simp [h, recordIds] at hid
    refine ⟨name, fun h => ?_⟩
    have hnone := h (mem_nonemptyNames.mpr ⟨rows, hlookup, hne⟩)
    rw [rowsOf_eq hlookup, rankIn, if_pos hid] at hnone
    cases hnone

/-- A record that is in a ranking collects something. -/
theorem shares_pos {recordId : String} (h : ranksOf ranked recordId ≠ []) :
    0 < shares ranked rankConstant recordId := by
  obtain ⟨name, rows, hlookup, hid⟩ := ranksOf_ne_nil.mp h
  have hname : name ∈ nonemptyNames ranked :=
    mem_nonemptyNames.mpr ⟨rows, hlookup, fun h => by simp [h, recordIds] at hid⟩
  have hshare : 0 < share rankConstant (rankIn (rowsOf ranked name) recordId) := by
    rw [rowsOf_eq hlookup, rankIn, if_pos hid, share, Option.elim_some]
    positivity
  refine lt_of_lt_of_le hshare (List.single_le_sum (fun x hx => ?_) _ (List.mem_map_of_mem hname))
  obtain ⟨other, -, rfl⟩ := List.mem_map.mp hx
  exact share_nonneg _

/-- A row of the merged ranking. -/
theorem of_mem_rrf (hdistinct : Distinct ranked) {row : ScoredRow V}
    (h : row ∈ rrf ranked rankConstant) :
    ranksOf ranked row.recordId ≠ [] ∧
      row.score = shares ranked rankConstant row.recordId /
        ((nonemptyNames ranked).length / ((rankConstant : ℚ) + 1)) ∧
      row.contributingRanks = Keyed.upsertAll ∅ (ranksOf ranked row.recordId) := by
  obtain ⟨recordId, hid, rfl⟩ := List.mem_map.mp h
  rw [List.mem_insertionSort, Keyed.mem_iff_isSome, lookup_scores hdistinct] at hid
  have hne : ranksOf ranked recordId ≠ [] := fun h => by
    rw [if_pos h] at hid
    cases hid
  refine ⟨hne, ?_, ?_⟩
  · change ((fuse ranked rankConstant).scores.lookup recordId).getD 0 / _ = _
    rw [lookup_scores hdistinct, if_neg hne, Option.getD_some, sum_ranksOf, shares]
  · change ((fuse ranked rankConstant).ranks.lookup recordId).getD ∅ = _
    rw [lookup_ranks hdistinct hne, Option.getD_some]

theorem recordIds_rrf_perm : (recordIds (rrf ranked rankConstant)).Perm
    (fuse ranked rankConstant).scores.keys := by
  rw [recordIds, rrf, List.map_map]
  exact (List.map_id _).symm ▸ List.perm_insertionSort _ _

/-! ### Fair merges -/

/-- A merged ranking holds exactly the records of the rankings, each once. Its scores do not
increase, are positive and at most one, and one exactly for a record that every non-empty ranking
begins with. A record that is in every ranking another one is in, and never behind it, scores at
least as high. The contributing ranks are the positions. -/
structure FairMerge (ranked : Keyed String (List (ScoredRow V))) (fused : List (ScoredRow V)) :
    Prop where
  nodup : (recordIds fused).Nodup
  mem_iff : ∀ recordId, recordId ∈ recordIds fused ↔
    ∃ name rows, ranked.lookup name = some rows ∧ recordId ∈ recordIds rows
  ordered : fused.Pairwise fun a b => b.score ≤ a.score
  pos : ∀ row ∈ fused, 0 < row.score
  le_one : ∀ row ∈ fused, row.score ≤ 1
  eq_one_iff : ∀ row ∈ fused, row.score = 1 ↔
    ∀ name rows, ranked.lookup name = some rows → rows ≠ [] →
      (recordIds rows).head? = some row.recordId
  dominance : ∀ a ∈ fused, ∀ b ∈ fused,
    (∀ name rows, ranked.lookup name = some rows → ∀ n, rankIn rows b.recordId = some n →
      ∃ m ≤ n, rankIn rows a.recordId = some m) → b.score ≤ a.score
  ranks : ∀ row ∈ fused, ∀ name, row.contributingRanks.lookup name =
    (ranked.lookup name).bind fun rows => rankIn rows row.recordId

theorem rankIn_eq_one {rows : List (ScoredRow V)} {recordId : String} :
    rankIn rows recordId = some 1 ↔ (recordIds rows).head? = some recordId := by
  rw [rankIn_eq_some]
  cases recordIds rows with
  | nil => simp
  | cons id ids =>
    by_cases hid : id = recordId
    · simp [hid]
    · simp [hid, List.idxOf_cons_ne _ hid]

/-- The ranks that a record collected. -/
theorem lookup_upsertAll_ranksOf (recordId name : String) :
    (Keyed.upsertAll ∅ (ranksOf ranked recordId)).lookup name =
      (ranked.lookup name).bind fun rows => rankIn rows recordId := by
  have hmem : ∀ n, (name, n) ∈ ranksOf ranked recordId ↔
      (ranked.lookup name).bind (fun rows => rankIn rows recordId) = some n := by
    intro n
    rw [ranksOf, List.mem_filterMap, Option.bind_eq_some_iff]
    constructor
    · rintro ⟨name', hname, hplace⟩
      obtain ⟨rank, hrank, heq⟩ := Option.map_eq_some_iff.mp hplace
      obtain ⟨rfl, rfl⟩ := Prod.mk.inj heq
      obtain ⟨rows, hlookup, -⟩ := mem_nonemptyNames.mp hname
      exact ⟨rows, hlookup, rowsOf_eq hlookup ▸ hrank⟩
    · rintro ⟨rows, hlookup, hrank⟩
      have hne : rows ≠ [] := fun h => by
        rw [h, rankIn_nil] at hrank
        cases hrank
      refine ⟨name, mem_nonemptyNames.mpr ⟨rows, hlookup, hne⟩, ?_⟩
      rw [rowsOf_eq hlookup, hrank, Option.map_some]
  have hkeys : ((ranksOf ranked recordId).map Prod.fst).Nodup := by
    refine List.Nodup.sublist ?_ (nodup_nonemptyNames ranked)
    unfold ranksOf
    induction nonemptyNames ranked with
    | nil => exact .slnil
    | cons name names ih =>
      rw [List.filterMap_cons]
      cases rankIn (rowsOf ranked name) recordId with
      | none => exact ih.cons _
      | some rank => exact ih.cons_cons _
  cases hlookup : (ranked.lookup name).bind fun rows => rankIn rows recordId with
  | some n => exact Keyed.lookup_upsertAll hkeys ((hmem n).mpr hlookup)
  | none =>
    refine (Keyed.lookup_upsertAll_of_notMem fun h => ?_).trans (AList.lookup_empty _)
    obtain ⟨⟨name', n⟩, hn, rfl⟩ := List.mem_map.mp h
    rw [(hmem n).mp hn] at hlookup
    cases hlookup

/-- The rankings may be supplied in any order. -/
theorem rrf_perm {ranked' : Keyed String (List (ScoredRow V))}
    (h : ranked'.entries.Perm ranked.entries) :
    rrf ranked' rankConstant = rrf ranked rankConstant := by
  have hlookup : ∀ name, ranked'.lookup name = ranked.lookup name := fun _ => AList.perm_lookup h
  have hrows : rowsOf ranked' = rowsOf ranked := funext fun name => by
    rw [rowsOf, rowsOf, hlookup]
  have hkeys : ranked'.keys.Perm ranked.keys := h.map _
  have hnames : nonemptyNames ranked' = nonemptyNames ranked := by
    have hperm : (nonemptyNames ranked').Perm (nonemptyNames ranked) := by
      unfold nonemptyNames
      rw [hrows]
      exact (List.perm_insertionSort _ _).trans
        ((hkeys.filter _).trans (List.perm_insertionSort _ _).symm)
    exact hperm.eq_of_pairwise (fun a b _ _ => le_antisymm) (List.pairwise_insertionSort _ _)
      (List.pairwise_insertionSort _ _)
  have hplaces : places ranked' = places ranked := by
    rw [places, places, hnames, hrows]
  have hfuse : fuse ranked' rankConstant = fuse ranked rankConstant := by
    rw [fuse, fuse, hplaces]
  rw [rrf, rrf, hfuse, hnames]

/-- Reciprocal rank fusion is a fair merge of any rankings that hold each record once, for every rank
constant, and does not depend on the order in which they are supplied. -/
theorem rrf_fairMerge (ranked : Keyed String (List (ScoredRow V))) (hdistinct : Distinct ranked)
    (rankConstant : ℕ) :
    FairMerge ranked (rrf ranked rankConstant) ∧
      ∀ ranked' : Keyed String (List (ScoredRow V)), ranked'.entries.Perm ranked.entries →
        rrf ranked' rankConstant = rrf ranked rankConstant := by
  have hmaximum : ∀ row ∈ rrf ranked rankConstant,
      (0 : ℚ) < (nonemptyNames ranked).length / ((rankConstant : ℚ) + 1) := fun row hrow =>
    lt_of_lt_of_le (shares_pos (of_mem_rrf hdistinct hrow).1) (shares_le row.recordId).1
  refine ⟨⟨?_, fun recordId => ?_, ?_, fun row hrow => ?_, fun row hrow => ?_, fun row hrow => ?_,
    fun a ha b hb hbehind => ?_, fun row hrow name => ?_⟩, fun ranked' => rrf_perm⟩
  · exact recordIds_rrf_perm.nodup_iff.mpr (AList.keys_nodup _)
  · rw [recordIds_rrf_perm.mem_iff, Keyed.mem_iff_isSome, lookup_scores hdistinct,
      ← ranksOf_ne_nil]
    by_cases h : ranksOf ranked recordId = [] <;> simp [h]
  · have hsorted := List.pairwise_insertionSort (fun a b =>
      toLex (-(((fuse ranked rankConstant).scores.lookup a).getD 0), a) ≤
        toLex (-(((fuse ranked rankConstant).scores.lookup b).getD 0), b))
      (fuse ranked rankConstant).scores.keys
    refine List.pairwise_map.mpr (hsorted.imp fun {a b} hab => ?_)
    have hle : ((fuse ranked rankConstant).scores.lookup b).getD 0 ≤
        ((fuse ranked rankConstant).scores.lookup a).getD 0 := by
      rcases Prod.Lex.toLex_le_toLex.mp hab with hlt | ⟨heq, -⟩
      · exact (neg_lt_neg_iff.mp hlt).le
      · exact (neg_inj.mp heq).ge
    exact div_le_div_of_nonneg_right hle (by positivity)
  · obtain ⟨hne, hscore, -⟩ := of_mem_rrf hdistinct hrow
    rw [hscore]
    exact div_pos (shares_pos hne) (hmaximum row hrow)
  · obtain ⟨-, hscore, -⟩ := of_mem_rrf hdistinct hrow
    rw [hscore]
    exact (div_le_one (hmaximum row hrow)).mpr (shares_le _).1
  · obtain ⟨-, hscore, -⟩ := of_mem_rrf hdistinct hrow
    rw [hscore, div_eq_one_iff_eq (hmaximum row hrow).ne', (shares_le _).2]
    constructor
    · intro h name rows hlookup hne
      have hfirst := h name (mem_nonemptyNames.mpr ⟨rows, hlookup, hne⟩)
      rwa [rowsOf_eq hlookup, rankIn_eq_one] at hfirst
    · intro h name hname
      obtain ⟨rows, hlookup, hne⟩ := mem_nonemptyNames.mp hname
      rw [rowsOf_eq hlookup, rankIn_eq_one]
      exact h name rows hlookup hne
  · obtain ⟨-, hscore, -⟩ := of_mem_rrf hdistinct ha
    obtain ⟨-, hscore', -⟩ := of_mem_rrf hdistinct hb
    rw [hscore, hscore']
    refine div_le_div_of_nonneg_right (List.sum_le_sum fun name hname => ?_) (hmaximum a ha).le
    obtain ⟨rows, hlookup, -⟩ := mem_nonemptyNames.mp hname
    rw [rowsOf_eq hlookup]
    cases hrank : rankIn rows b.recordId with
    | none => exact share_nonneg _
    | some n =>
      obtain ⟨m, hmn, hm⟩ := hbehind name rows hlookup n hrank
      rw [hm]
      exact share_antitone (by have := (rankIn_eq_some.mp hm).2; omega) hmn
  · rw [(of_mem_rrf hdistinct hrow).2.2, lookup_upsertAll_ranksOf]

/-- Rankings of two records by their vectors and by their text. -/
def twoRankings : Keyed String (List (ScoredRow Unit)) :=
  let first := scoreSingle [⟨"a", ∅, none, none⟩, ⟨"b", ∅, none, none⟩] "vector"
  let second := scoreSingle [⟨"b", ∅, none, none⟩] "text"
  ((∅ : Keyed String (List (ScoredRow Unit))).insert "vector" first).insert "text" second

theorem distinct_twoRankings : Distinct twoRankings := by
  intro name rows hlookup
  have hmem := AList.mem_lookup_iff.mp (Option.mem_def.mpr hlookup)
  rcases List.mem_cons.mp hmem with h | h
  · cases h
    decide
  · rcases List.mem_singleton.mp h with h
    cases h
    decide

theorem rrf_fairMerge_twoRankings :
    (rrf twoRankings).map (fun row => (row.recordId, row.score)) = [("b", 123 / 124), ("a", 1 / 2)] ∧
      FairMerge twoRankings (rrf twoRankings) := by
  refine ⟨by decide +kernel, (rrf_fairMerge twoRankings ?_ 60).1⟩
  exact distinct_twoRankings

end Search

end Stel
