import Stel.Data.Keyed
import Stel.Failure
import Mathlib.Data.List.Sort
import Mathlib.Data.String.Basic

/-!
# The record-state table

One scope of the warehouse's state table (`adapters/base.py`, `adapters/duckdb.py`): for each
record key the input fingerprint and the code version under which the record was last recorded,
together with the ordered paged reads that `state_reconciliation.py` drives.

## Main definitions

* `StateValue`, `StateRecord`, `StateTable`.
* `StateTable.upsert`, `StateTable.delete`, `StateTable.replace`, `StateTable.subset`.
* `StateCursor`, `fetchPage`: the DuckDB page reader behind the checks of `StatePageReader`.
* `iterValidatedStatePages`: the pages that `state_reconciliation.py` takes from it.

## Main results

* `StateTable.lookup_upsert`, `StateTable.lookup_delete`: the table after a batch.
* `iterStalePages_spec`: the pages are the stale records in order, unless a cursor is too long.
-/

namespace Stel.Warehouse

/-- The value of a state row. -/
structure StateValue where
  inputFingerprint : String
  codeVersion : String
  deriving DecidableEq, Repr

/-- A state row of one scope. -/
structure StateRecord where
  recordKey : String
  inputFingerprint : String
  codeVersion : String
  deriving DecidableEq, Repr

/-- The value of a record. -/
def StateRecord.value (r : StateRecord) : StateValue :=
  ⟨r.inputFingerprint, r.codeVersion⟩

/-- The state rows of one scope. -/
abbrev StateTable : Type := Keyed String StateValue

/-- `validate_state_records`. -/
def validateStateRecords (records : List StateRecord) : Except Failure Unit :=
  if (records.map (·.recordKey)).Nodup then .ok ()
  else .error (.adapterError "State records contain duplicate record_key values")

/-- `validate_state_keys`. -/
def validateStateKeys (recordKeys : List String) : Except Failure Unit :=
  if "" ∈ recordKeys then .error (.adapterError "State record keys must not be empty")
  else if recordKeys.Nodup then .ok ()
  else .error (.adapterError "State record keys contain duplicate values")

/-- `_MAX_STATE_SUBSET_KEYS`. -/
def maxStateSubsetKeys : ℕ := 100000

namespace StateTable

/-- The rows that `upsert_state` writes. -/
def upsert (t : StateTable) (records : List StateRecord) : StateTable :=
  Keyed.upsertAll t (records.map fun r => (r.recordKey, r.value))

/-- The rows that `delete_state` leaves. -/
def delete (t : StateTable) (recordKeys : List String) : StateTable :=
  Keyed.eraseAll t recordKeys

/-- The rows that `replace_state` leaves. -/
def replace (records : List StateRecord) : StateTable :=
  upsert ∅ records

/-- The rows that `_fetch_state_subset` reads, as the entries of a dict. -/
def subset (t : StateTable) (recordKeys : List String) : List (String × StateValue) :=
  recordKeys.filterMap fun k => (t.lookup k).map fun v => (k, v)

theorem lookup_upsert {t : StateTable} {records : List StateRecord}
    (h : (records.map (·.recordKey)).Nodup) {r : StateRecord} (hr : r ∈ records) :
    (t.upsert records).lookup r.recordKey = some r.value := by
  refine Keyed.lookup_upsertAll (by simpa [Function.comp_def] using h) ?_
  exact List.mem_map_of_mem (f := fun r : StateRecord => (r.recordKey, r.value)) hr

theorem lookup_upsert_of_notMem {t : StateTable} {records : List StateRecord} {k : String}
    (h : k ∉ records.map (·.recordKey)) : (t.upsert records).lookup k = t.lookup k :=
  Keyed.lookup_upsertAll_of_notMem (by simpa [Function.comp_def] using h)

theorem lookup_delete (t : StateTable) (keys : List String) (k : String) :
    (t.delete keys).lookup k = if k ∈ keys then none else t.lookup k :=
  Keyed.lookup_eraseAll t keys k

/-- `prior.get(key)` on a subset that was read for the key. -/
theorem lookup_subset {t : StateTable} {keys : List String} {k : String} (h : k ∈ keys) :
    (t.subset keys).lookup k = t.lookup k := by
  induction keys with
  | nil => cases h
  | cons key keys ih =>
    by_cases hk : k = key
    · subst hk
      cases hv : t.lookup k with
      | none =>
        simp only [subset, List.filterMap_cons, hv, Option.map_none]
        by_cases hmem : k ∈ keys
        · exact (ih hmem).trans hv
        · rw [List.lookup_eq_none_iff]
          intro p hp
          obtain ⟨k', hk', hp⟩ := List.mem_filterMap.mp hp
          obtain ⟨v, -, rfl⟩ := Option.map_eq_some_iff.mp hp
          have hne : k ≠ k' := fun he => hmem (he ▸ hk')
          simpa using hne
      | some v => simp [subset, hv]
    · have hmem : k ∈ keys := (List.mem_cons.mp h).resolve_left hk
      rw [← ih hmem]
      simp only [subset, List.filterMap_cons]
      cases t.lookup key with
      | none => rfl
      | some v =>
        have hb : (k == key) = false := by simpa using hk
        simp [List.lookup_cons, hb]

end StateTable

/-! ### Ordered pages -/

/-- The state records whose keys are absent from the probed relation, in key order: the snapshot
that the pages of one reader observe. -/
def StateTable.absentFrom (t : StateTable) (keys : List String) : List StateRecord :=
  ((t.entries.map fun e => StateRecord.mk e.1 e.2.inputFingerprint e.2.codeVersion).filter
    (·.recordKey ∉ keys)).insertionSort fun a b => a.recordKey ≤ b.recordKey

/-- The position of an opaque cursor, with the nonce of its reader. -/
structure StateCursor where
  nonce : String
  lastKey : String
  deriving DecidableEq, Repr

/-- The length of `f"{nonce}:{urlsafe_b64encode(last_key)}"`. -/
def StateCursor.length (c : StateCursor) : ℕ :=
  c.nonce.length + 1 + 4 * ((c.lastKey.utf8ByteSize + 2) / 3)

/-- `_MAX_STATE_CURSOR_CHARS`. -/
def maxStateCursorChars : ℕ := 8192

/-- `validate_state_cursor`. -/
def validateStateCursor : Option StateCursor → Except Failure Unit
  | none => .ok ()
  | some c =>
    if maxStateCursorChars < c.length then
      .error (.adapterError "State page cursor is invalid for this reader")
    else .ok ()

/-- `StatePage`. -/
structure StatePage where
  records : List StateRecord
  nextCursor : Option StateCursor
  deriving DecidableEq, Repr

/-- The rows of the snapshot behind a cursor, `decode_state_cursor` included. -/
def rowsAfter (nonce : String) (snapshot : List StateRecord) :
    Option StateCursor → Except Failure (List StateRecord)
  | none => .ok snapshot
  | some c =>
    if c.nonce = nonce then .ok (snapshot.filter (c.lastKey < ·.recordKey))
    else .error (.adapterError "State page cursor does not belong to this reader snapshot")

/-- `encode_state_cursor`. -/
def encodeStateCursor (nonce lastKey : String) : Except Failure StateCursor := do
  validateStateCursor (some ⟨nonce, lastKey⟩)
  return ⟨nonce, lastKey⟩

/-- `fetch` of the DuckDB reader, on its snapshot. -/
def duckdbFetch (nonce : String) (pageSize : ℕ) (snapshot : List StateRecord)
    (cursor : Option StateCursor) : Except Failure StatePage := do
  let rows ← rowsAfter nonce snapshot cursor
  let records := rows.take pageSize
  match records.getLast? with
  | some last =>
    if records.length = pageSize then
      let next ← encodeStateCursor nonce last.recordKey
      return ⟨records, some next⟩
    else return ⟨records, none⟩
  | none => return ⟨records, none⟩

/-- `StatePageReader.fetch_page`. -/
def fetchPage (pageSize : ℕ) (fetch : Option StateCursor → Except Failure StatePage)
    (cursor : Option StateCursor) : Except Failure StatePage := do
  validateStateCursor cursor
  let page ← fetch cursor
  if pageSize < page.records.length then
    .error (.adapterError "State page exceeded the requested page size")
  validateStateCursor page.nextCursor
  if page.records.IsChain (·.recordKey < ·.recordKey) then .ok page
  else .error (.adapterError "State page records are not strictly ordered by record_key")

/-- `iter_validated_state_pages`: the pages it yields, and the error that ends it. The number of
pages it may still take is bounded by `fuel`. -/
def iterValidatedStatePages (fetch : Option StateCursor → Except Failure StatePage) :
    ℕ → Option StateCursor → Option String → List (List StateRecord) × Option Failure
  | 0, _, _ => ([], none)
  | fuel + 1, cursor, lastKey =>
    match fetch cursor with
    | .error e => ([], some e)
    | .ok page =>
      match page.records with
      | [] =>
        match page.nextCursor with
        | none => ([], none)
        | some _ => ([], some (.adapterError
            "State page reader returned an empty page that is not final"))
      | first :: rest =>
        if ∃ l ∈ lastKey, first.recordKey ≤ l then
          ([], some (.adapterError
            "State pages are not strictly ordered across page boundaries"))
        else
          match page.nextCursor with
          | none => ([first :: rest], none)
          | some next =>
            if some next = cursor then
              ([first :: rest], some (.adapterError
                "State page cursor did not advance between pages"))
            else
              let (pages, e) := iterValidatedStatePages fetch fuel (some next)
                (((first :: rest).getLast?).map (·.recordKey))
              ((first :: rest) :: pages, e)

/-- `BoundedReconciler.iter_stale_pages` on a reader's snapshot. A reader that yields a page per
record and a last empty one takes one page more than it has records. -/
def iterStalePages (nonce : String) (pageSize : ℕ) (snapshot : List StateRecord) :
    List (List StateRecord) × Option Failure :=
  iterValidatedStatePages (fetchPage pageSize (duckdbFetch nonce pageSize snapshot))
    (snapshot.length + 1) none none

section Pages

variable {nonce : String} {pageSize : ℕ} {snapshot done todo : List StateRecord}

/-- The cursor behind the records read so far. -/
def cursorAt (nonce : String) (done : List StateRecord) : Option StateCursor :=
  done.getLast?.map fun r => ⟨nonce, r.recordKey⟩

/-- The cursor behind a record fits. -/
def Fits (nonce : String) (r : StateRecord) : Prop :=
  (StateCursor.mk nonce r.recordKey).length ≤ maxStateCursorChars

instance (nonce : String) (r : StateRecord) : Decidable (Fits nonce r) :=
  inferInstanceAs (Decidable (_ ≤ _))

/-- The cursors behind all full pages fit. -/
def Paged (nonce : String) (pageSize : ℕ) (snapshot : List StateRecord) : Prop :=
  ∀ i r, snapshot[i]? = some r → pageSize ∣ i + 1 → Fits nonce r

theorem validateStateCursor_some {c : StateCursor} :
    validateStateCursor (some c) = .ok () ↔ c.length ≤ maxStateCursorChars := by
  simp only [validateStateCursor]
  split
  · simp only [reduceCtorEq, false_iff]
    omega
  · simp only [true_iff]
    omega

theorem rowsAfter_cursorAt
    (hsorted : (done ++ todo).Pairwise fun a b => a.recordKey < b.recordKey) :
    rowsAfter nonce (done ++ todo) (cursorAt nonce done) = .ok todo := by
  rcases List.eq_nil_or_concat' done with rfl | ⟨init, l, rfl⟩
  · rfl
  · obtain ⟨hdone, -, hcross⟩ := List.pairwise_append.mp hsorted
    obtain ⟨-, -, hinit⟩ := List.pairwise_append.mp hdone
    have hgone : (init ++ [l]).filter (l.recordKey < ·.recordKey) = [] := by
      refine List.filter_eq_nil_iff.mpr fun r hr => ?_
      rcases List.mem_append.mp hr with hr | hr
      · rw [decide_eq_true_eq]
        exact (hinit r hr l (List.mem_singleton_self l)).not_gt
      · rw [List.mem_singleton.mp hr, decide_eq_true_eq]
        exact lt_irrefl _
    have hkept : todo.filter (l.recordKey < ·.recordKey) = todo := by
      refine List.filter_eq_self.mpr fun r hr => ?_
      rw [decide_eq_true_eq]
      exact hcross l (by simp) r hr
    have hlast : cursorAt nonce (init ++ [l]) = some ⟨nonce, l.recordKey⟩ := by simp [cursorAt]
    rw [hlast]
    simp only [rowsAfter, if_true, hgone, hkept, List.filter_append,
      List.nil_append]

theorem encodeStateCursor_eq (r : StateRecord) :
    encodeStateCursor nonce r.recordKey =
      if Fits nonce r then .ok ⟨nonce, r.recordKey⟩
      else .error (.adapterError "State page cursor is invalid for this reader") := by
  by_cases hfits : Fits nonce r
  · have hle : ¬ maxStateCursorChars < (StateCursor.mk nonce r.recordKey).length :=
      Nat.not_lt.mpr hfits
    rw [if_pos hfits]
    simp only [encodeStateCursor, validateStateCursor, if_neg hle]
    rfl
  · have hlt : maxStateCursorChars < (StateCursor.mk nonce r.recordKey).length :=
      Nat.not_le.mp hfits
    rw [if_neg hfits]
    simp only [encodeStateCursor, validateStateCursor, if_pos hlt]
    rfl

/-- The checks of `fetch_page` let an ordered page of the requested size through. -/
theorem fetchPage_eq {fetch : Option StateCursor → Except Failure StatePage}
    {cursor : Option StateCursor} {page : StatePage}
    (hcursor : validateStateCursor cursor = .ok ()) (hfetch : fetch cursor = .ok page)
    (hlen : page.records.length ≤ pageSize) (hnext : validateStateCursor page.nextCursor = .ok ())
    (hchain : page.records.IsChain (·.recordKey < ·.recordKey)) :
    fetchPage pageSize fetch cursor = .ok page := by
  simp only [fetchPage, hcursor, hfetch, hnext, bind, Except.bind, if_neg (Nat.not_lt.mpr hlen),
    if_pos hchain]

/-- A last page. -/
theorem fetchPage_short
    (hsorted : (done ++ todo).Pairwise fun a b => a.recordKey < b.recordKey)
    (hcursor : validateStateCursor (cursorAt nonce done) = .ok ()) (hlt : todo.length < pageSize) :
    fetchPage pageSize (duckdbFetch nonce pageSize (done ++ todo)) (cursorAt nonce done) =
      .ok ⟨todo, none⟩ := by
  have hchain : todo.IsChain (·.recordKey < ·.recordKey) :=
    (List.pairwise_append.mp hsorted).2.1.isChain
  have htake : todo.take pageSize = todo := List.take_of_length_le hlt.le
  refine fetchPage_eq hcursor ?_ hlt.le rfl hchain
  simp only [duckdbFetch, rowsAfter_cursorAt hsorted, htake, bind, Except.bind]
  split
  · rw [if_neg hlt.ne]
    rfl
  · rfl

/-- A full page. -/
theorem fetchPage_full
    (hsorted : (done ++ todo).Pairwise fun a b => a.recordKey < b.recordKey)
    (hcursor : validateStateCursor (cursorAt nonce done) = .ok ()) (hle : pageSize ≤ todo.length)
    {last : StateRecord} (hlast : (todo.take pageSize).getLast? = some last) :
    fetchPage pageSize (duckdbFetch nonce pageSize (done ++ todo)) (cursorAt nonce done) =
      if Fits nonce last then .ok ⟨todo.take pageSize, some ⟨nonce, last.recordKey⟩⟩
      else .error (.adapterError "State page cursor is invalid for this reader") := by
  have hchain : (todo.take pageSize).IsChain (·.recordKey < ·.recordKey) :=
    ((List.pairwise_append.mp hsorted).2.1.sublist (List.take_sublist _ _)).isChain
  have hlen : (todo.take pageSize).length = pageSize := by
    rw [List.length_take]
    omega
  have hfetch : duckdbFetch nonce pageSize (done ++ todo) (cursorAt nonce done) =
      if Fits nonce last then .ok ⟨todo.take pageSize, some ⟨nonce, last.recordKey⟩⟩
      else .error (.adapterError "State page cursor is invalid for this reader") := by
    simp only [duckdbFetch, rowsAfter_cursorAt hsorted, hlast, hlen, bind, Except.bind,
      encodeStateCursor_eq]
    by_cases hfits : Fits nonce last
    · simp only [if_pos hfits]
      rfl
    · simp only [if_neg hfits]
      rfl
  by_cases hfits : Fits nonce last
  · rw [if_pos hfits] at hfetch ⊢
    exact fetchPage_eq hcursor hfetch hlen.le (validateStateCursor_some.mpr hfits) hchain
  · rw [if_neg hfits] at hfetch ⊢
    simp only [fetchPage, hcursor, hfetch, bind, Except.bind]

/-- One step of the iteration, on a page that passes its checks. -/
theorem iterValidatedStatePages_succ {fetch : Option StateCursor → Except Failure StatePage}
    {fuel : ℕ} {cursor : Option StateCursor} {lastKey : Option String} {page : StatePage}
    (hfetch : fetch cursor = .ok page) (hne : page.records ≠ [])
    (horder : ∀ l ∈ lastKey, ∀ r ∈ page.records, l < r.recordKey)
    (hnext : ∀ c, page.nextCursor = some c → some c ≠ cursor) :
    iterValidatedStatePages fetch (fuel + 1) cursor lastKey =
      match page.nextCursor with
      | none => ([page.records], none)
      | some next =>
        let rest := iterValidatedStatePages fetch fuel (some next)
          (page.records.getLast?.map (·.recordKey))
        (page.records :: rest.1, rest.2) := by
  obtain ⟨first, rest, hrecords⟩ := List.exists_cons_of_ne_nil hne
  have hbound : ¬ ∃ l ∈ lastKey, first.recordKey ≤ l := by
    rintro ⟨l, hl, hle⟩
    exact absurd (horder l hl first (by simp [hrecords])) hle.not_gt
  simp only [iterValidatedStatePages, hfetch, hrecords, if_neg hbound]
  cases hc : page.nextCursor with
  | none => rfl
  | some next => simp only [if_neg (hnext next hc)]

/-- The pages are the snapshot in order, up to the first full page whose cursor does not fit. -/
theorem iterValidatedStatePages_spec (hpos : 0 < pageSize) :
    ∀ fuel done todo, (done ++ todo).Pairwise (fun a b => a.recordKey < b.recordKey) →
      pageSize ∣ done.length → (∀ r ∈ done.getLast?, Fits nonce r) → todo.length < fuel →
      ∀ pages e, iterValidatedStatePages
          (fetchPage pageSize (duckdbFetch nonce pageSize (done ++ todo))) fuel
          (cursorAt nonce done) (done.getLast?.map (·.recordKey)) = (pages, e) →
        pages.flatten <+: todo ∧ (e = none → pages.flatten = todo) ∧
          (e = none ↔ Paged nonce pageSize todo) := by
  intro fuel
  induction fuel with
  | zero => intro done todo _ _ _ hfuel; omega
  | succ fuel ih =>
    intro done todo hsorted hdvd hfits hfuel pages e hiter
    have hcursor : validateStateCursor (cursorAt nonce done) = .ok () := by
      unfold cursorAt
      cases hl : done.getLast? with
      | none => rfl
      | some l => exact validateStateCursor_some.mpr (hfits l hl)
    have horder : ∀ l ∈ done.getLast?.map (·.recordKey), ∀ r ∈ todo, l < r.recordKey := by
      intro l hl r hr
      obtain ⟨d, hd, rfl⟩ := Option.map_eq_some_iff.mp hl
      exact (List.pairwise_append.mp hsorted).2.2 d (List.mem_of_getLast? hd) r hr
    rcases Nat.lt_or_ge todo.length pageSize with hlt | hle
    · have hnone : Paged nonce pageSize todo := by
        intro i r hi hdvd
        have hil : i < todo.length := (List.getElem?_eq_some_iff.mp hi).1
        have := Nat.le_of_dvd (Nat.succ_pos i) hdvd
        omega
      have hfetch := fetchPage_short hsorted hcursor hlt
      by_cases htodo : todo = []
      · subst htodo
        simp only [iterValidatedStatePages, hfetch] at hiter
        cases hiter
        exact ⟨List.prefix_rfl, fun _ => rfl, iff_of_true rfl hnone⟩
      · rw [iterValidatedStatePages_succ hfetch htodo horder (by simp)] at hiter
        cases hiter
        have hflat : [todo].flatten = todo := by simp
        rw [hflat]
        exact ⟨List.prefix_rfl, fun _ => rfl, iff_of_true rfl hnone⟩
    · have htake : (todo.take pageSize).length = pageSize := by
        rw [List.length_take]
        omega
      have hne : todo.take pageSize ≠ [] := by
        intro h
        rw [h, List.length_nil] at htake
        omega
      obtain ⟨last, hlast⟩ : ∃ last, (todo.take pageSize).getLast? = some last :=
        ⟨_, List.getLast?_eq_some_getLast hne⟩
      have hindex : todo[pageSize - 1]? = some last := by
        rw [List.getLast?_eq_getElem?, htake] at hlast
        rw [← hlast, List.getElem?_take_of_lt (by omega)]
      have hfetch := fetchPage_full hsorted hcursor hle hlast
      by_cases hfit : Fits nonce last
      · rw [if_pos hfit] at hfetch
        have hsplit : done ++ todo = (done ++ todo.take pageSize) ++ todo.drop pageSize := by
          rw [List.append_assoc, List.take_append_drop]
        have hlast' : (done ++ todo.take pageSize).getLast? = some last := by
          rw [List.getLast?_append_of_ne_nil _ hne, hlast]
        have hnext : ∀ c, some (StateCursor.mk nonce last.recordKey) = some c →
            some c ≠ cursorAt nonce done := by
          rintro _ ⟨⟩ heq
          obtain ⟨d, hd, hdl⟩ := Option.map_eq_some_iff.mp heq.symm
          have hkey : d.recordKey = last.recordKey := (StateCursor.mk.inj hdl).2
          have hlt := horder d.recordKey (by simp [hd]) last
            (List.mem_of_mem_take (List.mem_of_getLast? hlast))
          exact absurd hkey hlt.ne
        rw [iterValidatedStatePages_succ hfetch hne
          (fun l hl r hr => horder l hl r (List.mem_of_mem_take hr)) hnext] at hiter
        obtain ⟨rfl, rfl⟩ := Prod.mk.inj hiter
        have hcur : cursorAt nonce (done ++ todo.take pageSize) =
            some ⟨nonce, last.recordKey⟩ := by
          rw [cursorAt, hlast']
          rfl
        have hdvd' : pageSize ∣ (done ++ todo.take pageSize).length := by
          rw [List.length_append, htake]
          exact Nat.dvd_add hdvd (Nat.dvd_refl _)
        have hih := ih (done ++ todo.take pageSize) (todo.drop pageSize) (hsplit ▸ hsorted) hdvd'
          (by simpa [hlast'] using hfit) (by rw [List.length_drop]; omega) _ _ rfl
        rw [hcur, hlast', ← hsplit, ← hlast] at hih
        obtain ⟨hpre, hall, hiff⟩ := hih
        have hdrop : todo = todo.take pageSize ++ todo.drop pageSize :=
          (List.take_append_drop pageSize todo).symm
        refine ⟨?_, fun he => ?_, hiff.trans ⟨fun h i r hi hdvd => ?_, fun h i r hi hdvd => ?_⟩⟩
        · rw [List.flatten_cons]
          obtain ⟨tail, htail⟩ := hpre
          exact ⟨tail, by rw [List.append_assoc, htail, ← hdrop]⟩
        · rw [List.flatten_cons, hall he]
          exact hdrop.symm
        · by_cases hlt : i < pageSize
          · have := Nat.le_of_dvd (Nat.succ_pos i) hdvd
            have hi' : i = pageSize - 1 := by omega
            rw [hi', hindex] at hi
            cases hi
            exact hfit
          · obtain ⟨j, rfl⟩ := Nat.exists_eq_add_of_le (Nat.not_lt.mp hlt)
            refine h j r (by rw [List.getElem?_drop, hi]) ?_
            rwa [Nat.add_assoc, Nat.dvd_add_right (Nat.dvd_refl _)] at hdvd
        · rw [List.getElem?_drop] at hi
          refine h (pageSize + i) r hi ?_
          rwa [Nat.add_assoc, Nat.dvd_add_right (Nat.dvd_refl _)]
      · rw [if_neg hfit] at hfetch
        simp only [iterValidatedStatePages, hfetch] at hiter
        cases hiter
        refine ⟨List.nil_prefix, by simp, iff_of_false (by simp) fun hall => ?_⟩
        exact hfit (hall (pageSize - 1) last hindex ⟨1, by omega⟩)

/-- **Stale discovery.** The pages of one reader are its snapshot in order; they end early, with an
error, exactly if the cursor behind some full page is too long. -/
theorem iterStalePages_spec (hpos : 0 < pageSize)
    (hsorted : snapshot.Pairwise fun a b => a.recordKey < b.recordKey) :
    let result := iterStalePages nonce pageSize snapshot
    result.1.flatten <+: snapshot ∧ (result.2 = none → result.1.flatten = snapshot) ∧
      (result.2 = none ↔ Paged nonce pageSize snapshot) :=
  iterValidatedStatePages_spec hpos (snapshot.length + 1) [] snapshot hsorted (Nat.dvd_zero _)
    (by simp) (Nat.lt_succ_self _) _ _ rfl

end Pages

/-! ### Snapshots of the stale records -/

theorem mem_entries_iff {t : StateTable} {r : StateRecord} :
    r ∈ t.entries.map (fun e => StateRecord.mk e.1 e.2.inputFingerprint e.2.codeVersion) ↔
      t.lookup r.recordKey = some r.value := by
  rw [List.mem_map]
  constructor
  · rintro ⟨e, he, rfl⟩
    exact AList.mem_lookup_iff.mpr he
  · intro h
    exact ⟨⟨r.recordKey, r.value⟩, AList.mem_lookup_iff.mp h, rfl⟩

namespace StateTable

variable {t : StateTable} {keys : List String}

/-- The snapshot holds the records whose keys are absent from the relation. -/
theorem mem_absentFrom {r : StateRecord} :
    r ∈ t.absentFrom keys ↔ t.lookup r.recordKey = some r.value ∧ r.recordKey ∉ keys := by
  unfold absentFrom
  rw [List.mem_insertionSort, List.mem_filter, mem_entries_iff]
  simp

theorem nodup_absentFrom : ((t.absentFrom keys).map (·.recordKey)).Nodup := by
  unfold absentFrom
  have hperm := (List.perm_insertionSort (fun a b : StateRecord => a.recordKey ≤ b.recordKey)
    ((t.entries.map fun e =>
      StateRecord.mk e.1 e.2.inputFingerprint e.2.codeVersion).filter (·.recordKey ∉ keys)))
  refine ((hperm.map (·.recordKey)).nodup_iff).mpr ?_
  refine List.Nodup.sublist (List.filter_sublist.map _) ?_
  simpa [Function.comp_def, AList.keys, List.keys] using t.keys_nodup

theorem pairwise_absentFrom :
    (t.absentFrom keys).Pairwise fun a b => a.recordKey < b.recordKey := by
  have hle : (t.absentFrom keys).Pairwise fun a b => a.recordKey ≤ b.recordKey :=
    List.pairwise_insertionSort _ _
  have hne : (t.absentFrom keys).Pairwise fun a b => a.recordKey ≠ b.recordKey :=
    List.pairwise_map.mp nodup_absentFrom
  exact (hle.and hne).imp fun h => lt_of_le_of_ne h.1 h.2

/-- The snapshot depends on the records of the absent keys only. -/
theorem absentFrom_congr {t' : StateTable} (h : ∀ k ∉ keys, t.lookup k = t'.lookup k) :
    t.absentFrom keys = t'.absentFrom keys := by
  have hmem : ∀ r, r ∈ t.absentFrom keys ↔ r ∈ t'.absentFrom keys := by
    intro r
    rw [mem_absentFrom, mem_absentFrom]
    refine and_congr_left fun hout => ?_
    rw [h _ hout]
  have hnodup : ∀ u : StateTable, (u.absentFrom keys).Nodup := fun u =>
    nodup_absentFrom.of_map _
  have hperm := (List.perm_ext_iff_of_nodup (hnodup t) (hnodup t')).mpr hmem
  refine hperm.eq_of_pairwise (fun a b _ _ hab hba => ?_) pairwise_absentFrom pairwise_absentFrom
  exact absurd hab (not_lt_of_gt hba)

end StateTable

end Stel.Warehouse
