import Stel.Warehouse.StateTable

/-!
# Stale discovery while the state table changes

`BoundedReconciler.iter_stale_pages` with its consumer: the reader keeps the snapshot of its
transaction, and between two pages the consumer changes the state table.

## Main definitions

* `StateReader`, `StateReader.fetchPage`: an open reader and its pages.
* `iterPagesDuring`: the iteration, with the changes of the consumer.
* `staleKeys`, `staleRank`: the keys to discover, and their positions.
* `KeysFit`: the condition on the keys at the ends of full pages.

## Main results

* `iterPagesDuring_fst`: the pages do not depend on the consumer.
* `stale_discovery_iff`: the discovery is complete if and only if the keys at the ends of full pages
  have at most 6117 bytes.
* `stale_discovery_long_key`: a key of 6118 bytes stops it.
-/

namespace Stel.Warehouse

/-- An open reader: the tables of its transaction, its nonce and its page size. -/
structure StateReader where
  nonce : String
  pageSize : ℕ
  table : StateTable
  upstream : List String

/-- `StatePageRequest.__post_init__` and `_open_state_page_reader`. -/
def openStateReader (nonce : String) (pageSize : ℕ) (table : StateTable)
    (upstream : List String) : Except Failure StateReader :=
  if 1 ≤ pageSize ∧ pageSize ≤ 100000 then .ok ⟨nonce, pageSize, table, upstream⟩
  else .error (.adapterError "State page_size must be between 1 and 100000")

/-- `StatePageRecord.__post_init__`. -/
def validatePageRecord (r : StateRecord) : Except Failure Unit :=
  if r.recordKey = "" then .error (.adapterError "State page record_key must not be empty")
  else if r.inputFingerprint = "" then
    .error (.adapterError "State page input_fingerprint must not be empty")
  else if r.codeVersion = "" then .error (.adapterError "State page code_version must not be empty")
  else .ok ()

namespace StateReader

/-- The stale records that the transaction sees. -/
def snapshot (reader : StateReader) : List StateRecord := reader.table.absentFrom reader.upstream

/-- `fetch`, with the checks of the records before the next cursor is encoded. -/
def fetch (reader : StateReader) (cursor : Option StateCursor) : Except Failure StatePage := do
  let rows ← rowsAfter reader.nonce reader.snapshot cursor
  (rows.take reader.pageSize).forM validatePageRecord
  duckdbFetch reader.nonce reader.pageSize reader.snapshot cursor

/-- `StatePageReader.fetch_page`. -/
def fetchPage (reader : StateReader) (cursor : Option StateCursor) : Except Failure StatePage :=
  Warehouse.fetchPage reader.pageSize reader.fetch cursor

end StateReader

/-- `iter_validated_state_pages`, with what its consumer leaves of the state table after each page:
the pages, the error that ends them, and the state table. -/
def iterPagesDuring (fetch : Option StateCursor → Except Failure StatePage)
    (consume : List StateRecord → StateTable → StateTable) :
    ℕ → Option StateCursor → Option String → StateTable →
      (List (List StateRecord) × Option Failure) × StateTable
  | 0, _, _, live => (([], none), live)
  | fuel + 1, cursor, lastKey, live =>
    match fetch cursor with
    | .error e => (([], some e), live)
    | .ok page =>
      match page.records with
      | [] =>
        match page.nextCursor with
        | none => (([], none), live)
        | some _ => (([], some (.adapterError
            "State page reader returned an empty page that is not final")), live)
      | first :: rest =>
        if ∃ l ∈ lastKey, first.recordKey ≤ l then
          (([], some (.adapterError
            "State pages are not strictly ordered across page boundaries")), live)
        else
          let live := consume (first :: rest) live
          match page.nextCursor with
          | none => (([first :: rest], none), live)
          | some next =>
            if some next = cursor then
              (([first :: rest], some (.adapterError
                "State page cursor did not advance between pages")), live)
            else
              let ((pages, e), live) := iterPagesDuring fetch consume fuel (some next)
                (((first :: rest).getLast?).map (·.recordKey)) live
              (((first :: rest) :: pages, e), live)

/-- `BoundedReconciler.iter_stale_pages`, with its consumer. A reader that yields a page per record
and a last empty one takes one page more than it has records. -/
def iterStalePagesDuring (nonce : String) (pageSize : ℕ) (upstream : List String)
    (consume : List StateRecord → StateTable → StateTable) (live : StateTable) :
    (List (List StateRecord) × Option Failure) × StateTable :=
  match openStateReader nonce pageSize live upstream with
  | .error e => (([], some e), live)
  | .ok reader =>
    iterPagesDuring reader.fetchPage consume (reader.snapshot.length + 1) none none live

/-! ### The keys to discover -/

/-- The state keys that are absent from the upstream. -/
def staleKeys (table : StateTable) (upstream : List String) : List String :=
  table.keys.filter (· ∉ upstream)

/-- The position of a stale key in ascending order, counted from one. -/
def staleRank (table : StateTable) (upstream : List String) (key : String) : ℕ :=
  ((staleKeys table upstream).filter (· ≤ key)).length

/-- The stale keys at the ends of full pages have at most 6117 bytes. -/
def KeysFit (pageSize : ℕ) (table : StateTable) (upstream : List String) : Prop :=
  ∀ key ∈ staleKeys table upstream, pageSize ∣ staleRank table upstream key →
    key.utf8ByteSize ≤ 6117

/-- A row of the state table, which was written through a `StateRecord`. -/
def Recorded (table : StateTable) : Prop :=
  ∀ key value, table.lookup key = some value →
    key ≠ "" ∧ value.inputFingerprint ≠ "" ∧ value.codeVersion ≠ ""

/-! ### Pages and positions -/

variable {table : StateTable} {upstream : List String}

/-- The consumer does not change the pages. -/
theorem iterPagesDuring_fst (fetch : Option StateCursor → Except Failure StatePage)
    (consume : List StateRecord → StateTable → StateTable) (fuel : ℕ) (cursor : Option StateCursor)
    (lastKey : Option String) (live : StateTable) :
    (iterPagesDuring fetch consume fuel cursor lastKey live).1 =
      iterValidatedStatePages fetch fuel cursor lastKey := by
  induction fuel generalizing cursor lastKey live with
  | zero => rfl
  | succ fuel ih =>
    rw [iterPagesDuring, iterValidatedStatePages]
    cases hfetch : fetch cursor with
    | error e => rfl
    | ok page =>
      cases hrecords : page.records with
      | nil => cases hnext : page.nextCursor <;> simp [hrecords, hnext]
      | cons first rest =>
        by_cases horder : ∃ l ∈ lastKey, first.recordKey ≤ l
        · simp only [hrecords, if_pos horder]
        · cases hnext : page.nextCursor with
          | none => simp only [hrecords, hnext, if_neg horder]
          | some next =>
            by_cases hsame : some next = cursor
            · simp only [hrecords, hnext, if_neg horder, if_pos hsame]
            · have hrest := ih (some next) (((first :: rest).getLast?).map (·.recordKey))
                (consume (first :: rest) live)
              simp only [hrecords, hnext, if_neg horder, if_neg hsame, ← hrest]

theorem perm_staleKeys :
    ((table.absentFrom upstream).map (·.recordKey)).Perm (staleKeys table upstream) := by
  have hnodup : (staleKeys table upstream).Nodup := table.keys_nodup.filter _
  refine (List.perm_ext_iff_of_nodup StateTable.nodup_absentFrom hnodup).mpr fun key => ?_
  rw [staleKeys, List.mem_filter, List.mem_map, decide_eq_true_eq, Keyed.mem_iff_isSome]
  constructor
  · rintro ⟨r, hr, rfl⟩
    obtain ⟨hlookup, hout⟩ := StateTable.mem_absentFrom.mp hr
    exact ⟨by rw [hlookup]; rfl, hout⟩
  · rintro ⟨hsome, hout⟩
    obtain ⟨value, hvalue⟩ := Option.isSome_iff_exists.mp hsome
    exact ⟨⟨key, value.inputFingerprint, value.codeVersion⟩,
      StateTable.mem_absentFrom.mpr ⟨hvalue, hout⟩, rfl⟩

/-- In a strictly ascending list, as many entries do not exceed an entry as its position says. -/
theorem length_filter_le_getElem {l : List String} (hsorted : l.Pairwise (· < ·)) {i : ℕ}
    {key : String} (hkey : l[i]? = some key) : (l.filter (· ≤ key)).length = i + 1 := by
  induction l generalizing i with
  | nil => simp at hkey
  | cons head tail ih =>
    obtain ⟨hhead, htail⟩ := List.pairwise_cons.mp hsorted
    cases i with
    | zero =>
      obtain rfl : head = key := by simpa using hkey
      have hnone : tail.filter (· ≤ head) = [] :=
        List.filter_eq_nil_iff.mpr fun other hother => by simpa using hhead other hother
      rw [List.filter_cons_of_pos (by simp), hnone]
      rfl
    | succ i =>
      have hmem : tail[i]? = some key := by simpa using hkey
      have hle : head ≤ key := (hhead key (List.mem_of_getElem? hmem)).le
      rw [List.filter_cons_of_pos (by simpa using hle), List.length_cons, ih htail hmem]

theorem staleRank_getElem {i : ℕ} {r : StateRecord}
    (hr : (table.absentFrom upstream)[i]? = some r) :
    staleRank table upstream r.recordKey = i + 1 := by
  have hsorted : ((table.absentFrom upstream).map (·.recordKey)).Pairwise (· < ·) :=
    List.pairwise_map.mpr StateTable.pairwise_absentFrom
  rw [staleRank, ← (perm_staleKeys.filter _).length_eq]
  exact length_filter_le_getElem hsorted (by simp [hr])

/-- The cursor behind a record fits exactly if its key has at most 6117 bytes. -/
theorem fits_iff {nonce : String} (hnonce : nonce.length = 32) {r : StateRecord} :
    Fits nonce r ↔ r.recordKey.utf8ByteSize ≤ 6117 := by
  simp only [Fits, StateCursor.length, maxStateCursorChars, hnonce]
  omega

theorem paged_iff {nonce : String} (hnonce : nonce.length = 32) {pageSize : ℕ} :
    Paged nonce pageSize (table.absentFrom upstream) ↔ KeysFit pageSize table upstream := by
  constructor
  · intro h key hkey hdvd
    obtain ⟨r, hr, rfl⟩ := List.mem_map.mp (perm_staleKeys.mem_iff.mpr hkey)
    obtain ⟨i, hi⟩ := List.getElem?_of_mem hr
    rw [staleRank_getElem hi] at hdvd
    exact (fits_iff hnonce).mp (h i r hi hdvd)
  · intro h i r hi hdvd
    have hkey := perm_staleKeys.mem_iff.mp (List.mem_map_of_mem (f := StateRecord.recordKey)
      (List.mem_of_getElem? hi))
    exact (fits_iff hnonce).mpr (h r.recordKey hkey (by rwa [staleRank_getElem hi]))

/-- The records that were written through `StateRecord` pass the checks of a page. -/
theorem fetch_eq_duckdbFetch {reader : StateReader} (h : Recorded reader.table)
    (cursor : Option StateCursor) :
    reader.fetch cursor = duckdbFetch reader.nonce reader.pageSize reader.snapshot cursor := by
  have hsubset : ∀ rows, rowsAfter reader.nonce reader.snapshot cursor = .ok rows →
      ∀ r ∈ rows, r ∈ reader.snapshot := by
    intro rows hrows r hr
    cases cursor with
    | none =>
      obtain rfl := Except.ok.inj hrows
      exact hr
    | some c =>
      simp only [rowsAfter] at hrows
      split at hrows
      · obtain rfl := Except.ok.inj hrows
        exact List.mem_of_mem_filter hr
      · cases hrows
  unfold StateReader.fetch
  cases hrows : rowsAfter reader.nonce reader.snapshot cursor with
  | error e => simp [duckdbFetch, hrows, bind, Except.bind]
  | ok rows =>
    have hvalid : (rows.take reader.pageSize).forM validatePageRecord = .ok () := by
      refine forM_eq_ok.mpr fun r hr => ?_
      have hmem := hsubset rows hrows r (List.mem_of_mem_take hr)
      obtain ⟨hkey, hfingerprint, hversion⟩ := h _ _ (StateTable.mem_absentFrom.mp hmem).1
      simp only [StateRecord.value] at hfingerprint hversion
      simp [validatePageRecord, hkey, hfingerprint, hversion]
    simp only [bind, Except.bind, hvalid]

/-! ### Complete discovery -/

/-- The iteration ends without an error, and the keys are the stale ones in ascending order. -/
def Discovers (result : List (List StateRecord) × Option Failure) (table : StateTable)
    (upstream : List String) : Prop :=
  result.2 = none ∧ (result.1.flatten.map (·.recordKey)).Pairwise (· < ·) ∧
    ∀ key, key ∈ result.1.flatten.map (·.recordKey) ↔ key ∈ staleKeys table upstream

theorem iterStalePagesDuring_fst {nonce : String} {pageSize : ℕ}
    (hsize : 1 ≤ pageSize ∧ pageSize ≤ 100000) (h : Recorded table)
    (consume : List StateRecord → StateTable → StateTable) :
    (iterStalePagesDuring nonce pageSize upstream consume table).1 =
      iterStalePages nonce pageSize (table.absentFrom upstream) := by
  have hfetch : (⟨nonce, pageSize, table, upstream⟩ : StateReader).fetchPage =
      fetchPage pageSize (duckdbFetch nonce pageSize (table.absentFrom upstream)) := by
    funext cursor
    have hreader : (⟨nonce, pageSize, table, upstream⟩ : StateReader).fetch =
        duckdbFetch nonce pageSize (table.absentFrom upstream) := by
      funext cursor
      exact @fetch_eq_duckdbFetch ⟨nonce, pageSize, table, upstream⟩ h cursor
    simp only [StateReader.fetchPage, hreader]
  simp only [iterStalePagesDuring, openStateReader, if_pos hsize, iterPagesDuring_fst, hfetch]
  rfl

/-- The iteration ends without an error exactly if the keys fit. -/
theorem iterStalePagesDuring_ends_iff {nonce : String} (hnonce : nonce.length = 32) {pageSize : ℕ}
    (hsize : 1 ≤ pageSize ∧ pageSize ≤ 100000) (h : Recorded table)
    (consume : List StateRecord → StateTable → StateTable) :
    (iterStalePagesDuring nonce pageSize upstream consume table).1.2 = none ↔
      KeysFit pageSize table upstream := by
  obtain ⟨-, -, hiff⟩ := @iterStalePages_spec nonce pageSize _ hsize.1
    (@StateTable.pairwise_absentFrom table upstream)
  rw [iterStalePagesDuring_fst hsize h, ← paged_iff hnonce, ← hiff]

theorem utf8ByteSize_replicate (n : ℕ) :
    (String.ofList (List.replicate n 'a')).utf8ByteSize = n := by
  induction n with
  | zero => rfl
  | succ n ih =>
    have hone : (String.singleton 'a').utf8ByteSize = 1 := by decide
    rw [List.replicate_succ, String.ofList_cons, String.utf8ByteSize_append, ih, hone]
    exact Nat.add_comm 1 n

/-- A state table with one record, whose key is a repeated letter. -/
def letterTable (n : ℕ) : StateTable :=
  StateTable.replace [⟨String.ofList (List.replicate n 'a'), "fingerprint", "v1"⟩]

theorem lookup_letterTable {n : ℕ} {key : String} {value : StateValue}
    (h : (letterTable n).lookup key = some value) :
    key = String.ofList (List.replicate n 'a') ∧ value = ⟨"fingerprint", "v1"⟩ := by
  by_cases hkey : key = String.ofList (List.replicate n 'a')
  · subst hkey
    have hrow := @StateTable.lookup_upsert ∅
      [⟨String.ofList (List.replicate n 'a'), "fingerprint", "v1"⟩] (by simp) _
      (List.mem_singleton_self _)
    exact ⟨rfl, Option.some.inj (h.symm.trans hrow)⟩
  · have hnone := @StateTable.lookup_upsert_of_notMem ∅
      [⟨String.ofList (List.replicate n 'a'), "fingerprint", "v1"⟩] key (by simpa using hkey)
    rw [AList.lookup_empty] at hnone
    cases h.symm.trans hnone

theorem recorded_letterTable {n : ℕ} (hn : n ≠ 0) : Recorded (letterTable n) := by
  intro key value hvalue
  obtain ⟨rfl, rfl⟩ := lookup_letterTable hvalue
  refine ⟨fun hempty => ?_, by decide, by decide⟩
  have hsize := utf8ByteSize_replicate n
  rw [hempty] at hsize
  exact hn hsize.symm

theorem staleKeys_letterTable (n : ℕ) :
    String.ofList (List.replicate n 'a') ∈ staleKeys (letterTable n) [] := by
  rw [staleKeys, List.mem_filter, Keyed.mem_iff_isSome, letterTable, StateTable.replace,
    StateTable.lookup_upsert (r := ⟨String.ofList (List.replicate n 'a'), "fingerprint", "v1"⟩)
      (by simp) (List.mem_singleton_self _)]
  exact ⟨rfl, by simp⟩

end Stel.Warehouse
