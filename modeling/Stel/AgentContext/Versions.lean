import Stel.AgentContext.Contract
import Stel.Data.Interval

/-!
# The recorded versions of a document

The interval checks of a registry against the instants at which its rows hold.

## Main definitions

* `recordedInterval`: the recorded interval of a row.
* `SeparateVersions`: the recorded intervals of every document are pairwise disjoint.

## Main results

* `validateDocumentVersionIntervals_eq_ok`: the sweep accepts rows with proper recorded intervals
  exactly if the intervals of every document are pairwise disjoint.
* `registry_versions_at_most_one`: an accepted registry has at most one row of a document at any
  instant.
-/

namespace Stel.AgentContext

/-! ### The interval of a row -/

/-- The recorded interval of a row. -/
def recordedInterval (row : Row) : Except Failure (Interval ℤ) := do
  let start ← utc (row "recorded_from") "recorded_from"
  let stop ← optionalUtc (row "recorded_to") "recorded_to"
  return ⟨start, stop⟩

/-- The rows of every document have disjoint recorded intervals. -/
def SeparateVersions (rows : List Row) : Prop :=
  rows.Pairwise fun a b => a "document_id" = b "document_id" →
    ∀ i j, recordedInterval a = .ok i → recordedInterval b = .ok j → i.Disjoint j

variable {row : Row} {i : Interval ℤ}

theorem recordedInterval_eq_ok : recordedInterval row = .ok i ↔
    utc (row "recorded_from") "recorded_from" = .ok i.start ∧
      optionalUtc (row "recorded_to") "recorded_to" = .ok i.stop := by
  simp only [recordedInterval, bind_eq_ok, pure, Except.pure, Except.ok.injEq]
  constructor
  · rintro ⟨start, hstart, stop, hstop, rfl⟩
    exact ⟨hstart, hstop⟩
  · rintro ⟨hstart, hstop⟩
    exact ⟨i.start, hstart, i.stop, hstop, rfl⟩

/-- The instant that a value stands for does not depend on the name in the message. -/
theorem utc_rename {value : Value} {name : String} {t : ℤ} (h : utc value name = .ok t)
    (other : String) : utc value other = .ok t := by
  unfold utc at h ⊢
  split at h
  · exact h
  · cases h

theorem optionalUtc_rename {value : Value} {name : String} {t : Option ℤ}
    (h : optionalUtc value name = .ok t) (other : String) : optionalUtc value other = .ok t := by
  unfold optionalUtc at h ⊢
  split_ifs at h ⊢ with hnull
  · exact h
  · cases hutc : utc value name with
    | error e => simp [hutc, Except.map] at h
    | ok instant =>
      rw [utc_rename hutc other]
      rwa [hutc] at h

theorem validateInterval_eq_ok {start stop : Value} {label : String} {position : ℕ}
    {grain : Grain} :
    validateInterval start stop label position grain = .ok () ↔
      ∃ i : Interval ℤ, utc start (label ++ "_from") = .ok i.start ∧
        optionalUtc stop (label ++ "_to") = .ok i.stop ∧ i.Proper := by
  simp only [validateInterval, bind_eq_ok]
  constructor
  · rintro ⟨s, hs, e, he, h⟩
    refine ⟨⟨s, e⟩, hs, he, fun t ht => ?_⟩
    obtain rfl : e = some t := ht
    by_contra hle
    simp [if_pos (not_lt.mp hle), invalid] at h
  · rintro ⟨⟨s, e⟩, hs, he, hproper⟩
    refine ⟨s, hs, e, he, ?_⟩
    cases e with
    | none => rfl
    | some t => exact if_neg (not_le.mpr (hproper t rfl))

/-- A row passes the check of its recorded interval exactly if it has one and it is proper. -/
theorem validateRecorded_eq_ok {position : ℕ} {grain : Grain} :
    validateInterval (row "recorded_from") (row "recorded_to") "recorded" position grain = .ok () ↔
      ∃ i, recordedInterval row = .ok i ∧ i.Proper := by
  simp only [validateInterval_eq_ok, recordedInterval_eq_ok, and_assoc]
  exact Iff.rfl

/-! ### The sweep -/

theorem validateStart_eq_ok {previous : Interval ℤ} {position : ℕ} :
    validateStart (some previous.stop) i.start position = .ok () ↔ previous.Before i := by
  unfold validateStart Interval.Before
  cases previous.stop with
  | none => simp [invalid]
  | some e =>
    by_cases h : i.start < e
    · simp [h, invalid]
    · simpa [h] using not_lt.mp h

/-- After a version, the sweep accepts the others exactly if each version ends before the next one
starts. -/
theorem sweepVersions_some {versions : List (ℕ × Row)} {intervals : List (Interval ℤ)}
    (h : List.Forall₂ (fun v i => recordedInterval v.2 = .ok i) versions intervals)
    (previous : Interval ℤ) :
    sweepVersions (some previous.stop) versions = .ok () ↔
      (previous :: intervals).IsChain Interval.Before := by
  induction h generalizing previous with
  | nil => simp [sweepVersions]
  | @cons v i versions intervals hv hrest ih =>
    obtain ⟨hstart, hstop⟩ := recordedInterval_eq_ok.mp hv
    rw [List.isChain_cons_cons, ← ih i, ← validateStart_eq_ok]
    simp only [sweepVersions, hstart, hstop, bind, Except.bind]
    exact check_bind_eq_ok

theorem sweepVersions_none {versions : List (ℕ × Row)} {intervals : List (Interval ℤ)}
    (h : List.Forall₂ (fun v i => recordedInterval v.2 = .ok i) versions intervals) :
    sweepVersions none versions = .ok () ↔ intervals.IsChain Interval.Before := by
  cases h with
  | nil => simp [sweepVersions]
  | @cons v i versions intervals hv hrest =>
    obtain ⟨hstart, hstop⟩ := recordedInterval_eq_ok.mp hv
    rw [← sweepVersions_some hrest i]
    simp only [sweepVersions, hstart, hstop, bind, Except.bind]
    exact Iff.rfl

/-- The versions of a document are sorted by their starts, however they were ordered. -/
theorem sortVersions_eq_ok {versions : List (ℕ × Row)}
    (h : ∀ v ∈ versions, ∃ i, recordedInterval v.2 = .ok i) :
    ∃ sorted intervals, sortVersions versions = .ok sorted ∧ sorted.Perm versions ∧
      List.Forall₂ (fun v i => recordedInterval v.2 = .ok i) sorted intervals ∧
      intervals.Pairwise fun i j => i.start ≤ j.start := by
  choose interval hinterval using h
  let keyed := versions.attach.map fun v => ((interval v.1 v.2).start, v.1)
  have hkeyed : (versions.mapM fun item =>
      (utc (item.2 "recorded_from") "recorded_from").map fun start => (start, item)) =
      .ok keyed := by
    refine mapM_eq_ok.mpr (List.forall₂_map_right_iff.mpr ?_)
    conv => arg 2; rw [← List.attach_map_subtype_val versions]
    refine List.forall₂_map_left_iff.mpr (List.forall₂_same.mpr fun v _ => ?_)
    rw [(recordedInterval_eq_ok.mp (hinterval v.1 v.2)).1]
    rfl
  let sorted := keyed.insertionSort fun a b => a.1 ≤ b.1
  have hperm : sorted.Perm keyed := List.perm_insertionSort _ _
  have hmem : ∀ k ∈ sorted, ∃ hv : k.2 ∈ versions, k.1 = (interval k.2 hv).start := by
    intro k hk
    obtain ⟨v, -, rfl⟩ := List.mem_map.mp (hperm.mem_iff.mp hk)
    exact ⟨v.2, rfl⟩
  refine ⟨sorted.map Prod.snd, sorted.attach.map fun k => interval k.1.2 (hmem k.1 k.2).1, ?_, ?_,
    ?_, ?_⟩
  · exact bind_eq_ok.mpr ⟨keyed, hkeyed, rfl⟩
  · refine (hperm.map Prod.snd).trans (List.Perm.of_eq ?_)
    rw [List.map_map]
    exact List.attach_map_subtype_val versions
  · conv => arg 2; rw [← List.attach_map_subtype_val sorted]
    rw [List.map_map]
    refine List.forall₂_map_left_iff.mpr (List.forall₂_map_right_iff.mpr
      (List.forall₂_same.mpr fun k _ => ?_))
    exact hinterval k.1.2 (hmem k.1 k.2).1
  · have hsorted : sorted.Pairwise fun a b => a.1 ≤ b.1 :=
      List.pairwise_insertionSort _ _
    rw [← List.attach_map_subtype_val sorted, List.pairwise_map] at hsorted
    refine List.pairwise_map.mpr (hsorted.imp fun {a b} hab => ?_)
    rwa [(hmem a.1 a.2).2, (hmem b.1 b.2).2] at hab

/-- The sweep over the versions of one document. -/
theorem sweep_sorted_eq_ok {versions : List (ℕ × Row)}
    (h : ∀ v ∈ versions, ∃ i, recordedInterval v.2 = .ok i ∧ i.Proper) :
    (sortVersions versions >>= sweepVersions none) = .ok () ↔
      versions.Pairwise fun a b => ∀ i j, recordedInterval a.2 = .ok i →
        recordedInterval b.2 = .ok j → i.Disjoint j := by
  obtain ⟨sorted, intervals, hsort, hperm, hforall, hle⟩ :=
    sortVersions_eq_ok fun v hv => (h v hv).imp fun _ hi => hi.1
  have hproper : ∀ i ∈ intervals, i.Proper := by
    intro i hi
    obtain ⟨v, hv, hvi⟩ := exists_of_mem_right hforall hi
    obtain ⟨j, hvj, hj⟩ := h v (hperm.mem_iff.mp hv)
    rw [hvi] at hvj
    exact Except.ok.inj hvj ▸ hj
  have hsymm : ∀ {a b : ℕ × Row}, (∀ i j, recordedInterval a.2 = .ok i →
      recordedInterval b.2 = .ok j → i.Disjoint j) →
      ∀ i j, recordedInterval b.2 = .ok i → recordedInterval a.2 = .ok j → i.Disjoint j :=
    fun hab i j hi hj => (hab j i hj hi).symm
  have hpairs : (sorted.Pairwise fun a b => ∀ i j, recordedInterval a.2 = .ok i →
      recordedInterval b.2 = .ok j → i.Disjoint j) ↔ intervals.Pairwise Interval.Disjoint := by
    clear hproper hle hperm hsort
    induction hforall with
    | nil => simp
    | @cons v i sorted intervals hv hrest ih =>
      rw [List.pairwise_cons, List.pairwise_cons, ih]
      refine and_congr_left fun _ => ⟨fun hall j hj => ?_, fun hall w hw i' j hi' hj => ?_⟩
      · obtain ⟨w, hw, hwj⟩ := exists_of_mem_right hrest hj
        exact hall w hw i j hv hwj
      · obtain ⟨j', hj', hwj'⟩ := exists_of_mem_right hrest.flip hw
        rw [hv] at hi'
        rw [hj] at hwj'
        obtain rfl := Except.ok.inj hi'
        obtain rfl := Except.ok.inj hwj'
        exact hall j hj'
  rw [hsort, ← hperm.pairwise_iff hsymm, hpairs, Interval.pairwise_iff_isChain hproper hle]
  exact sweepVersions_none hforall

/-- The check of a registry accepts rows with proper recorded intervals exactly if the intervals of
every document are pairwise disjoint, in any order of the rows. -/
theorem validateDocumentVersionIntervals_eq_ok {rows : List Row}
    (h : ∀ row ∈ rows, ∃ i, recordedInterval row = .ok i ∧ i.Proper) :
    validateDocumentVersionIntervals rows = .ok () ↔ SeparateVersions rows := by
  let positions := rows.zipIdx.map fun item => (item.2, item.1)
  have hrows : positions.map Prod.snd = rows := by
    simp only [positions, List.map_map]
    exact List.zipIdx_map_fst 0 rows
  have hpositions : ∀ v ∈ positions, ∃ i, recordedInterval v.2 = .ok i ∧ i.Proper :=
    fun v hv => h v.2 (hrows ▸ List.mem_map_of_mem hv)
  have hdocument : ∀ document : Value,
      (sortVersions (positions.filter fun item => item.2 "document_id" = document) >>=
        sweepVersions none) = .ok () ↔
      positions.Pairwise fun a b => a.2 "document_id" = document → b.2 "document_id" = document →
        ∀ i j, recordedInterval a.2 = .ok i → recordedInterval b.2 = .ok j → i.Disjoint j := by
    intro document
    rw [sweep_sorted_eq_ok fun v hv => hpositions v (List.mem_filter.mp hv).1, List.pairwise_filter]
    simp only [decide_eq_true_eq]
  have hseparate : SeparateVersions rows ↔ positions.Pairwise fun a b =>
      a.2 "document_id" = b.2 "document_id" →
        ∀ i j, recordedInterval a.2 = .ok i → recordedInterval b.2 = .ok j → i.Disjoint j := by
    rw [SeparateVersions, ← hrows, List.pairwise_map]
  rw [hseparate]
  simp only [validateDocumentVersionIntervals, forM_eq_ok, List.mem_eraseDups, List.mem_map]
  constructor
  · intro hall
    refine List.pairwise_iff_forall_sublist.mpr fun {a b} hab hsame => ?_
    have ha : a ∈ positions := hab.subset (by simp)
    have hswept := (hdocument (a.2 "document_id")).mp
      (hall _ ⟨a.2, hrows ▸ List.mem_map_of_mem ha, rfl⟩)
    exact List.pairwise_iff_forall_sublist.mp hswept hab rfl hsame.symm
  · rintro hall document -
    exact (hdocument document).mpr (hall.imp fun hab ha hb => hab (ha.trans hb.symm))

/-! ### Rows at an instant -/

/-- An aware datetime. -/
def instant (clock offset : ℤ) : Value := .timestamp ⟨clock, some offset⟩

theorem utc_instant (clock offset : ℤ) (name : String) :
    utc (instant clock offset) name = .ok (clock - offset) := rfl

theorem intervalContains_eq_ok {time start stop : Value} {startName stopName : String}
    {t s : ℤ} {e : Option ℤ} (ht : utc time "instant" = .ok t)
    (hs : utc start startName = .ok s) (he : optionalUtc stop stopName = .ok e) :
    ∃ b, intervalContains time start stop = .ok b ∧
      (b = true ↔ (⟨s, e⟩ : Interval ℤ).Contains t) := by
  simp only [intervalContains, ht, utc_rename hs "start", optionalUtc_rename he "end", bind,
    Except.bind, pure, Except.pure]
  refine ⟨_, rfl, ?_⟩
  cases e <;> simp [Interval.Contains]

theorem isValid_returns {position : ℕ} {grain : Grain}
    (h : validateValidity row position grain = .ok ()) {validAt : Value} {t : ℤ}
    (ht : utc validAt "instant" = .ok t) (includeUnknownValidity : Bool) :
    ∃ b, isValid validAt includeUnknownValidity row = .ok b := by
  by_cases hknown : row "validity_known" = .bool true
  · have hfrom : row "valid_from" ≠ .null := by
      intro hnull
      simp [validateValidity, hknown, hnull, invalid] at h
    rw [validateValidity, if_pos hknown, if_neg hfrom] at h
    obtain ⟨⟨s, e⟩, hs, he, -⟩ := validateInterval_eq_ok.mp h
    obtain ⟨b, hb, -⟩ := intervalContains_eq_ok  ht hs he
    refine ⟨b, ?_⟩
    rw [isValid, if_pos hknown]
    exact bind_eq_ok.mpr ⟨s, hs, bind_eq_ok.mpr ⟨e, he, hb⟩⟩
  · exact ⟨includeUnknownValidity, if_neg hknown⟩

/-- Whether a row of a registry holds at two instants is defined, and it holds only within its
recorded interval. -/
theorem isActive_returns {position : ℕ} {grain : Grain}
    (h : validateTemporal row position grain = .ok ()) {validAt recordedAt : Value} {t r : ℤ}
    (ht : utc validAt "instant" = .ok t) (hr : utc recordedAt "instant" = .ok r)
    (includeUnknownValidity : Bool) :
    ∃ b, isActive validAt recordedAt includeUnknownValidity row = .ok b ∧
      (b = true → ∃ i, recordedInterval row = .ok i ∧ i.Contains r) := by
  obtain ⟨hvalidity, hrecorded⟩ := check_bind_eq_ok.mp h
  obtain ⟨i, hi, -⟩ := validateRecorded_eq_ok.mp hrecorded
  obtain ⟨hstart, hstop⟩ := recordedInterval_eq_ok.mp hi
  obtain ⟨recorded, hcontains, hiff⟩ :=
    intervalContains_eq_ok  hr hstart hstop
  obtain ⟨valid, hvalid⟩ := isValid_returns hvalidity ht includeUnknownValidity
  refine ⟨valid && recorded, ?_, fun hb => ⟨i, hi, hiff.mp (Bool.and_eq_true_iff.mp hb).2⟩⟩
  simp only [isActive, hvalid, hstart, hstop, hcontains, bind, Except.bind, pure, Except.pure]

/-- A filter whose test does not raise keeps the rows that pass. -/
theorem filterM_eq_ok {p : Row → Except Failure Bool} {test : Row → Bool} {rows : List Row}
    (h : ∀ row ∈ rows, p row = .ok (test row)) : rows.filterM p = .ok (rows.filter test) := by
  have haux : ∀ kept, rows.filterAuxM p kept = .ok ((rows.filter test).reverse ++ kept) := by
    induction rows with
    | nil => exact fun kept => rfl
    | cons row rows ih =>
      intro kept
      have hrest := ih fun other hother => h other (List.mem_cons_of_mem _ hother)
      simp only [List.filterAuxM, h row List.mem_cons_self, bind, Except.bind, hrest,
        List.filter_cons]
      cases test row <;> simp
  simp [List.filterM, haux, bind, Except.bind, pure, Except.pure]

/-- An accepted registry: every row passes the temporal checks, and the recorded intervals of every
document are disjoint. -/
theorem accepted_registry {env : ContractEnv} {frame : Frame}
    (h : validateAgentContextFrame env frame .documentRegistry = .ok ()) :
    (∀ row ∈ frame.rows, ∃ position,
      validateTemporal row position .documentRegistry = .ok ()) ∧ SeparateVersions frame.rows := by
  obtain ⟨-, hframe⟩ := check_bind_eq_ok.mp h
  obtain ⟨hrows, hsweep⟩ := check_bind_eq_ok.mp hframe
  have htemporal : ∀ row ∈ frame.rows, ∃ position,
      validateTemporal row position .documentRegistry = .ok () := by
    intro row hrow
    obtain ⟨n, hn, rfl⟩ := List.getElem_of_mem hrow
    have hitem : (frame.rows[n], n) ∈ frame.rows.zipIdx 0 := by
      simp [List.mem_zipIdx_iff_getElem?, hn]
    exact ⟨n, (check_bind_eq_ok.mp ((validateRows_eq_ok.mp hrows).1 _ hitem).2).1⟩
  refine ⟨htemporal, (validateDocumentVersionIntervals_eq_ok fun row hrow => ?_).mp hsweep⟩
  obtain ⟨position, hposition⟩ := htemporal row hrow
  exact validateRecorded_eq_ok.mp (check_bind_eq_ok.mp hposition).2

/-- Of rows with disjoint recorded intervals, at most one of a document contains an instant. -/
theorem SeparateVersions.length_le_one {rows : List Row} (h : SeparateVersions rows) (r : ℤ)
    (document : Value) (hrows : ∀ row ∈ rows, row "document_id" = document ∧
      ∃ i, recordedInterval row = .ok i ∧ i.Contains r) : rows.length ≤ 1 := by
  match rows, h, hrows with
  | [], _, _ => exact Nat.zero_le _
  | [_], _, _ => exact le_rfl
  | a :: b :: rest, h, hrows =>
    obtain ⟨ha, i, hi, hir⟩ := hrows a (by simp)
    obtain ⟨hb, j, hj, hjr⟩ := hrows b (by simp)
    have hdisjoint := List.rel_of_pairwise_cons h List.mem_cons_self (ha.trans hb.symm) i j hi hj
    exact absurd ⟨hir, hjr⟩ (hdisjoint r)

/-- An accepted registry has at most one row of a document at any two instants, and rows with proper
recorded intervals that are disjoint for every document pass the interval checks. -/
theorem registry_versions_at_most_one (env : ContractEnv) :
    (∀ frame, validateAgentContextFrame env frame .documentRegistry = .ok () →
      ∀ (validClock validOffset recordedClock recordedOffset : ℤ) (includeUnknownValidity : Bool),
        ∃ active, activeAsOf frame.rows (instant validClock validOffset)
            (instant recordedClock recordedOffset) includeUnknownValidity = .ok active ∧
          ∀ document, (active.filter (· "document_id" = document)).length ≤ 1) ∧
    ∀ rows, (∀ row ∈ rows, ∃ i, recordedInterval row = .ok i ∧ i.Proper) → SeparateVersions rows →
      (∀ row ∈ rows, ∀ position grain, validateInterval (row "recorded_from") (row "recorded_to")
        "recorded" position grain = .ok ()) ∧
      validateDocumentVersionIntervals rows = .ok () := by
  constructor
  · intro frame haccepted validClock validOffset recordedClock recordedOffset includeUnknown
    obtain ⟨htemporal, hseparate⟩ := accepted_registry haccepted
    have hactive : ∀ row ∈ frame.rows, ∃ b, isActive (instant validClock validOffset)
        (instant recordedClock recordedOffset) includeUnknown row = .ok b ∧
        (b = true → ∃ i, recordedInterval row = .ok i ∧
          i.Contains (recordedClock - recordedOffset)) := by
      intro row hrow
      obtain ⟨position, hposition⟩ := htemporal row hrow
      exact isActive_returns hposition (utc_instant _ _ _) (utc_instant _ _ _) includeUnknown
    let test : Row → Bool := fun row => decide (isActive (instant validClock validOffset)
      (instant recordedClock recordedOffset) includeUnknown row = .ok true)
    have htest : ∀ row ∈ frame.rows, isActive (instant validClock validOffset)
        (instant recordedClock recordedOffset) includeUnknown row = .ok (test row) := by
      intro row hrow
      obtain ⟨b, hb, -⟩ := hactive row hrow
      cases b <;> simp [test, hb]
    have hfilter := filterM_eq_ok htest
    refine ⟨_, bind_eq_ok.mpr ⟨_, hfilter, rfl⟩, fun document => ?_⟩
    have hperm := (List.perm_insertionSort (fun a b => activeKey a ≤ activeKey b)
      (frame.rows.filter test)).filter fun row => decide (row "document_id" = document)
    rw [hperm.length_eq]
    have hkept : SeparateVersions ((frame.rows.filter test).filter fun row =>
        decide (row "document_id" = document)) :=
      hseparate.sublist (List.filter_sublist.trans List.filter_sublist)
    refine hkept.length_le_one (recordedClock - recordedOffset) document fun row hrow => ?_
    obtain ⟨hrow, hdocument⟩ := List.mem_filter.mp hrow
    obtain ⟨hrow, hpassed⟩ := List.mem_filter.mp hrow
    obtain ⟨b, hb, himp⟩ := hactive row hrow
    rw [of_decide_eq_true hpassed] at hb
    exact ⟨of_decide_eq_true hdocument, himp (Except.ok.inj hb).symm⟩
  · intro rows hproper hseparate
    exact ⟨fun row hrow _ _ => validateRecorded_eq_ok.mpr (hproper row hrow),
      (validateDocumentVersionIntervals_eq_ok hproper).mpr hseparate⟩

/-- The digests that `blake2b` has on the identifiers of `firstRefundVersion`, by the lengths of the
digested bytes. -/
def refundEnv : ContractEnv where
  loads := fun _ => none
  blake2b := fun _ bytes =>
    if bytes.length = 209 then
      [110, 117, 92, 33, 125, 206, 86, 142, 172, 223, 103, 173, 19, 136, 39, 117]
    else [159, 146, 64, 10, 49, 63, 70, 0, 73, 49, 63, 168, 146, 233, 76, 88]

/-- A version of one policy, recorded for an hour or until further notice. -/
def refundVersion (version versionId contentHash : String) (start : ℤ) (stop : Value) : Row :=
  rowOf [("document_id", .string "6e755c217dce568eacdf67ad13882775"),
    ("document_version_id", .string versionId), ("source_system", .string "policies"),
    ("source_key", .string "refunds"), ("source_version", .string version),
    ("source_content_hash", .string contentHash), ("validity_known", .bool false),
    ("recorded_from", instant start 0), ("recorded_to", stop), ("is_public", .bool true),
    ("access_groups", .list []), ("authorization_resolved", .bool true),
    ("ingested_at", instant 0 0), ("materialized_at", instant 0 0),
    ("upstream_unique_id", .string "policies"), ("invocation_id", .string "run-1"),
    ("provenance_fingerprint", .string contentHash)]

/-- The version that is recorded first, with its end in another time zone. -/
def firstRefundVersion : Row :=
  refundVersion "v1" "9f92400a313f460049313fa892e94c58" "9db42bb2b2cb4df6d3dbb638a2fc6d6e"
    0 (instant 10800 7200)

/-- Two versions, the later one first. -/
def refundVersions : List Row :=
  [refundVersion "v10" "d43b415d57c25e0e9120e47d8e1792cd" "5b23625cfd783cb93a13e5d9f76fd8e2"
      3600 .null, firstRefundVersion]

theorem registry_versions_at_most_one_refunds :
    (∃ active, activeAsOf [firstRefundVersion] (instant 0 0) (instant 3599 0) true = .ok active ∧
      ∀ document, (active.filter (· "document_id" = document)).length ≤ 1) ∧
    validateDocumentVersionIntervals refundVersions = .ok () :=
  ⟨(registry_versions_at_most_one refundEnv).1
      ⟨documentRegistry.fields.map ContractField.name, [firstRefundVersion]⟩ (by decide +kernel)
      0 0 3599 0 true,
    ((registry_versions_at_most_one refundEnv).2 refundVersions (by
      rintro row hrow
      simp only [refundVersions, List.mem_cons, List.not_mem_nil, or_false] at hrow
      rcases hrow with rfl | rfl
      · exact ⟨⟨3600, none⟩, rfl, fun e he => by cases he⟩
      · exact ⟨⟨0, some 3600⟩, rfl, fun e he => by cases he; decide⟩) (by
      refine List.pairwise_pair.mpr fun _ i j hi hj => ?_
      obtain rfl := Except.ok.inj hi
      obtain rfl := Except.ok.inj hj
      exact Interval.Disjoint.symm (Interval.Before.disjoint ⟨3600, rfl, le_rfl⟩))).2⟩

end Stel.AgentContext
