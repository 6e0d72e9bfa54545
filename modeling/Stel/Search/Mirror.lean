import Stel.Search.Recording
import Stel.Retrieval.Exclusion

/-!
# When a publication mirrors its upstream

A history of a serving scope is any sequence of publication attempts and coordinator calls, each of
which can die or raise between any two operations, with an arbitrary upstream at each attempt. An
attempt that gets as far as `mark_ready` mirrors its upstream exactly if it catches up with every
key that was half recorded when it started. It does not catch up with a key whose upstream record
is back at the recorded fingerprint, nor with one that left the upstream before it was recorded.

## Main definitions

* `History`: the histories of a scope, with the half-recorded keys.
* `Mirror`: the collection holds the upstream.
* `CaughtUp`: a half-recorded key that the attempt rewrites.

## Main results

* `History.recorded`: the invariant holds along every history.
* `publication_mirrors_iff`: when an attempt mirrors its upstream.
* `reverted_record_is_skipped`: a history after which one does not.
-/

namespace Stel.Search

open Stel.Warehouse Stel.Retrieval

variable {R V : Type}

/-- The histories of one serving scope from the empty state. -/
inductive History (search : SearchModel R V) (generation : Generation) (uuid : ℕ → String) :
    World V × Set String → Prop
  | empty : History search generation uuid (({}, {}), ∅)
  | attempt {s t} {out} (batches : List (List R)) (h : History search generation uuid s)
      (hrun : (runSearchModel search batches).Ends (markedInterp generation uuid) s t out) :
      History search generation uuid t
  | coordinate {s t} {out} (call : Call) (h : History search generation uuid s)
      (hrun : (ledger call.code : SearchProg V Reply).Ends (markedInterp generation uuid)
        s t out) : History search generation uuid t

/-- The collection holds the values of every upstream record, and no other row. -/
structure Mirror (search : SearchModel R V) (upstream : List R) (s : SearchData V) : Prop where
  published : s.collection ≠ none
  stored : ∀ raw ∈ upstream, ∃ row, indexedRow search raw = .ok row ∧
    s.storeRow row.recordId = some row.values
  only : ∀ k, s.storeRow k ≠ none → k ∈ upstreamKeys search upstream

/-- An attempt rewrites the key: its upstream record is not the recorded one, or it left the
upstream and is recorded. -/
def CaughtUp (search : SearchModel R V) (s : SearchData V) (upstream : List R) (k : String) :
    Prop :=
  (∃ raw ∈ upstream, ∃ row, indexedRow search raw = .ok row ∧ row.recordId = k ∧
      s.state.lookup k ≠ some (search.stateValue row.values)) ∨
    k ∉ upstreamKeys search upstream ∧ s.state.lookup k ≠ none

section Safe

variable {search : SearchModel R V} {generation : Generation} {uuid : ℕ → String}

/-- Acquiring the lease leaves the rows and the publication state alone. -/
theorem safe_acquireLease {s : World V × Set String} {batches : List (List R)}
    (hs : Crash search s) :
    (acquireLease search batches).Safe (markedInterp generation uuid) (Crash search)
      (fun _ t => SameRows s.1.1 s.2 t.1.1 t.2 ∧
        (upstreamKeys search batches.flatten).Nodup) s := by
  unfold acquireLease
  refine (safe_ledger hs).bind fun _ t₁ h₁ hsame₁ => ?_
  obtain ⟨hd₁, hP₁⟩ := Prod.mk.inj hsame₁
  refine Prog.Safe.bind (Q := fun _ t => SameRows s.1.1 s.2 t.1.1 t.2)
    (safe_data h₁ fun r d hexec => ?_) fun _ t₂ h₂ hsame₂ => ?_
  · simp only [DataOp.exec] at hexec
    cases hexec
    refine ⟨h₁.congr rfl id fun _ => rfl, ?_⟩
    rw [← hd₁, ← hP₁]
    exact ⟨rfl, rfl, fun _ => rfl, rfl⟩
  · refine Prog.Safe.tryCatch ?_ fun e t ht => ht
    refine Prog.safe_ofExcept_bind h₂ fun _ hok => ?_
    have hnodup := nodup_upstreamKeys hok
    refine (safe_ledger h₂).mono (fun _ h => h) fun _ t₃ _ hsame₃ => ?_
    obtain ⟨hd₃, hP₃⟩ := Prod.mk.inj hsame₃
    rw [hd₃, hP₃]
    exact ⟨hsame₂, hnodup⟩

theorem Activatable.of_sameRows {s₀ s₁ s : SearchData V} {P₀ P₁ P : Set String}
    {upstream : List R} (hsame : SameRows s₀ P₀ s₁ P₁)
    (h : Activatable search upstream s₁ P₁ s P) : Activatable search upstream s₀ P₀ s P := by
  obtain ⟨rows, c, hrows, hrec, hc, hlen⟩ := h
  have hrw : ∀ k, Rewritten search s₁ rows k ↔ Rewritten search s₀ rows k := by
    intro k
    simp only [Rewritten, Touched, Pending, hsame.state]
  refine ⟨rows, c, hrows, ⟨hrec.written, hrec.gone, fun k hk => ?_, fun k => ?_,
    hsame.state ▸ hrec.paged⟩, hc, hlen⟩
  · rw [hrec.store k (by rwa [hrw]), hsame.store]
  · rw [hrec.marks, hrw, hsame.marks]

/-- What an attempt under its lease has done before its call of `mark_ready`. -/
theorem safe_publishUnderLease {s : World V × Set String} {lease : PublishLease}
    {batches : List (List R)} (hs : Crash search s)
    (hnodup : (upstreamKeys search batches.flatten).Nodup) :
    (publishUnderLease search lease batches).Safe (markedInterp generation uuid) (Crash search)
      (fun _ t => Activatable search batches.flatten s.1.1 s.2 t.1.1 t.2) s := by
  unfold publishUnderLease
  refine (safe_publishCollection hs hnodup).bind fun result t₁ h₁ hQ => ?_
  refine (safe_ledger h₁).bind fun _ t₂ h₂ hsame₂ => ?_
  obtain ⟨hd₂, hP₂⟩ := Prod.mk.inj hsame₂
  rw [← hd₂, ← hP₂] at hQ
  exact ⟨h₂, hQ⟩

theorem safe_untilMarkReady {s : World V × Set String} {batches : List (List R)}
    (hs : Crash search s) :
    (untilMarkReady search batches).Safe (markedInterp generation uuid) (Crash search)
      (fun _ t => Activatable search batches.flatten s.1.1 s.2 t.1.1 t.2) s := by
  unfold untilMarkReady
  refine (safe_acquireLease hs).bind fun lease t₁ h₁ hQ => ?_
  obtain ⟨hsame, hnodup⟩ := hQ
  exact (safe_publishUnderLease h₁ hnodup).mono (fun _ h => h) fun _ _ _ h => h.of_sameRows hsame

/-- An attempt keeps the invariant at every fault. -/
theorem safe_runSearchModel {s : World V × Set String} {batches : List (List R)}
    (hs : Crash search s) :
    (runSearchModel search batches).Safe (markedInterp generation uuid) (Crash search)
      (fun _ t => Activatable search batches.flatten s.1.1 s.2 t.1.1 t.2) s := by
  unfold runSearchModel
  refine (safe_acquireLease hs).bind fun lease t₁ h₁ hQ => ?_
  obtain ⟨hsame, hnodup⟩ := hQ
  refine Prog.Safe.tryCatch ?_ fun e t ht => ?_
  · refine (safe_publishUnderLease h₁ hnodup).bind fun result t₂ h₂ hact => ?_
    refine (safe_ledger h₂).bind fun _ t₃ h₃ hsame₃ => ?_
    obtain ⟨hd₃, hP₃⟩ := Prod.mk.inj hsame₃
    rw [← hd₃, ← hP₃] at hact
    exact ⟨h₃, hact.of_sameRows hsame⟩
  · unfold failPublication
    split
    · refine Prog.Safe.bind (Q := fun _ _ => True) (safe_data ht fun r d hexec => ?_)
        fun _ u hu _ => (safe_ledger hu).bind fun _ v hv _ => hv
      simp only [DataOp.exec] at hexec
      cases hexec
      exact ⟨ht, trivial⟩
    · exact ht

/-- **Half-recorded keys.** In every history the half-recorded keys are exactly those on which the
store and the publication state disagree. -/
theorem History.recorded {s : World V × Set String} (h : History search generation uuid s) :
    Recorded search s.1.1 s.2 := by
  induction h with
  | empty => exact ⟨fun _ _ => rfl, fun _ => iff_of_true (fun h => h.elim) rfl⟩
  | attempt batches _ hrun ih => exact ((safe_runSearchModel ih).sound hrun).1
  | coordinate call _ hrun ih => exact ((safe_ledger ih).sound hrun).1

/-- A publication mirrors its upstream exactly if it rewrote every half-recorded key. -/
theorem Reconciled.mirror_iff (hfp : Function.Injective search.fingerprint) {s₀ s : SearchData V}
    {P₀ P : Set String} {upstream : List R} {rows : List (IndexedRow V)} {c : Collection V}
    (h : Reconciled search s₀ P₀ rows s P) (hs : Recorded search s P)
    (hrows : Indexed search upstream rows) (hc : s.collection = some c) :
    Mirror search upstream s ↔ ∀ k ∈ P₀, Rewritten search s₀ rows k := by
  constructor
  · intro hmirror k hk
    by_contra hnot
    have hdis := mt (hs.agrees k).mpr (not_not.mpr ((h.marks k).mpr ⟨hk, hnot⟩))
    refine hdis ?_
    by_cases hin : k ∈ rows.map (·.recordId)
    · obtain ⟨row, hrow, rfl⟩ := List.mem_map.mp hin
      obtain ⟨raw, hraw, hok⟩ := hrows.exists_raw hrow
      obtain ⟨row', hok', hstored⟩ := hmirror.stored raw hraw
      rw [hok] at hok'
      cases hok'
      rw [h.written row hrow, hstored]
      rfl
    · have hnone : s.storeRow k = none := by
        by_contra hsome
        exact hin (hrows.recordIds ▸ hmirror.only k hsome)
      rw [h.gone k hin, hnone]
      rfl
  · intro hall
    have hagree : ∀ k, s.state.lookup k = (s.storeRow k).map search.stateValue := by
      intro k
      exact (hs.agrees k).mp fun hk => ((h.marks k).mp hk).2 (hall k ((h.marks k).mp hk).1)
    refine ⟨by rw [hc]; simp, fun raw hraw => ?_, fun k hk => ?_⟩
    · obtain ⟨row, hrow, hok⟩ := hrows.exists_row hraw
      refine ⟨row, hok, ?_⟩
      have hsame := (hagree row.recordId).symm.trans (h.written row hrow)
      obtain ⟨v, hv, heq⟩ := Option.map_eq_some_iff.mp hsame
      rw [hv, hfp (StateValue.mk.inj heq).1]
    · by_contra hout
      rw [← hrows.recordIds] at hout
      have hnone := (hagree k).symm.trans (h.gone k hout)
      exact hk (Option.map_eq_none_iff.mp hnone)

theorem rewritten_iff {s₀ : SearchData V} {upstream : List R} {rows : List (IndexedRow V)}
    (hrows : Indexed search upstream rows) (k : String) :
    Rewritten search s₀ rows k ↔ CaughtUp search s₀ upstream k := by
  unfold Rewritten CaughtUp
  rw [hrows.recordIds]
  refine or_congr_left ⟨?_, ?_⟩
  · rintro ⟨row, hrow, rfl, hp⟩
    obtain ⟨raw, hraw, hok⟩ := hrows.exists_raw hrow
    exact ⟨raw, hraw, row, hok, rfl, hp⟩
  · rintro ⟨raw, hraw, row, hok, rfl, hp⟩
    obtain ⟨row', hrow', hok'⟩ := hrows.exists_row hraw
    rw [hok] at hok'
    cases hok'
    exact ⟨row, hrow', rfl, hp⟩

/-- **When a publication mirrors its upstream.** After any history, an attempt that gets as far as
`mark_ready` mirrors its upstream exactly if it catches up with every key that was half recorded
when it started. -/
theorem publication_mirrors_iff (hfp : Function.Injective search.fingerprint)
    {s t : World V × Set String} {batches : List (List R)} {result : String × Progress}
    (hs : History search generation uuid s)
    (h : (untilMarkReady search batches).Ends (markedInterp generation uuid) s t
      (some (.ok result))) :
    Mirror search batches.flatten t.1.1 ↔
      ∀ k ∈ s.2, CaughtUp search s.1.1 batches.flatten k := by
  obtain ⟨hcrash, hQ⟩ := (safe_untilMarkReady hs.recorded).sound h
  obtain ⟨rows, c, hrows, hrec, hc, -⟩ := hQ result rfl
  rw [hrec.mirror_iff hfp hcrash hrows hc]
  exact forall₂_congr fun k _ => rewritten_iff hrows k

end Safe

/-! ### A history with a half-recorded key -/

/-- A search resource over pairs of an id and a value. -/
def sampleSearch : SearchModel (String × ℕ) ℕ where
  scope := sampleScope
  codeVersion := "v1"
  spec := ⟨"docs", "config", "descriptor", "legacy", [("id", "string"), ("value", "int64")]⟩
  recordId := fun raw => .string raw.1
  normalize := fun raw => .ok raw.2
  fingerprint := sampleUuid
  governed := false
  batchSize := 1000
  maxIdBytes := none
  onIndexChange := .fail
  descriptorChanges := fun _ _ => (true, "")
  nonce := "nonce"
  batchSize_pos := by decide
  batchSize_le := by decide

/-- A generation name for every version and row count. -/
def sampleGeneration : Generation := fun version count =>
  sampleUuid (version + 1) ++ "-" ++ sampleUuid count

/-- The interpretation in which the sample histories run. -/
abbrev sampleInterp :
    Interp (DataOp ℕ ⊕ Stmt) (SumRet DataOp.Ret Stmt.Ret) Failure (World ℕ × Set String) :=
  markedInterp sampleGeneration sampleUuid

/-- The state after a first publication of one record. -/
def published : World ℕ × Set String :=
  ((runSearchModel sampleSearch [[("a", 1)]]).exec sampleInterp (({}, {}), ∅)).1

theorem history_published : History sampleSearch sampleGeneration sampleUuid published :=
  .attempt [[("a", 1)]] .empty (Prog.ends_exec _ _ _)

/-- The publisher of an edited record dies after its store upsert, and the claim is recovered. -/
def halfRecorded : World ℕ × Set String :=
  ((ledger (Call.recover sampleScope true).code : SearchProg ℕ Reply).exec sampleInterp
    ((runSearchModel sampleSearch [[("a", 2)]]).crashAfter sampleInterp 12 published)).1

theorem history_halfRecorded : History sampleSearch sampleGeneration sampleUuid halfRecorded :=
  .coordinate (.recover sampleScope true)
    (.attempt [[("a", 2)]] history_published (Prog.ends_crashAfter _ _ _ _))
    (Prog.ends_exec _ _ _)

/-- The attempt on an edited upstream catches up with the half-recorded key. -/
theorem publication_mirrors_republished :
    Mirror sampleSearch [("a", 3), ("b", 1)]
        ((untilMarkReady sampleSearch [[("a", 3)], [("b", 1)]]).exec sampleInterp
          halfRecorded).1.1.1 ↔
      ∀ k ∈ halfRecorded.2, CaughtUp sampleSearch halfRecorded.1.1 [("a", 3), ("b", 1)] k := by
  obtain ⟨r, hr⟩ : ∃ r, ((untilMarkReady sampleSearch [[("a", 3)], [("b", 1)]]).exec sampleInterp
      halfRecorded).2 = .ok r := ⟨_, rfl⟩
  have hends := Prog.ends_exec sampleInterp
    (untilMarkReady sampleSearch [[("a", 3)], [("b", 1)]]) halfRecorded
  rw [hr] at hends
  exact publication_mirrors_iff sampleUuid_injective history_halfRecorded hends

/-- **A reverted record is skipped.** The publisher of an edit dies before it records the edit, the
edit is reverted upstream, and the next attempt activates a collection that holds the edit. -/
theorem reverted_record_is_skipped : ∃ s t result,
    History sampleSearch sampleGeneration sampleUuid s ∧
      (untilMarkReady sampleSearch [[("a", 1)]]).Ends sampleInterp s t (some (.ok result)) ∧
        ¬ Mirror sampleSearch [("a", 1)] t.1.1 := by
  obtain ⟨r, hr⟩ : ∃ r, ((untilMarkReady sampleSearch [[("a", 1)]]).exec sampleInterp
      halfRecorded).2 = .ok r := ⟨_, rfl⟩
  have hends := Prog.ends_exec sampleInterp (untilMarkReady sampleSearch [[("a", 1)]]) halfRecorded
  rw [hr] at hends
  refine ⟨_, _, r, history_halfRecorded, hends, fun hmirror => ?_⟩
  obtain ⟨row, hrow, hstored⟩ := hmirror.stored ("a", 1) (by simp)
  have hheld : ((untilMarkReady sampleSearch [[("a", 1)]]).exec sampleInterp
      halfRecorded).1.1.1.storeRow "a" = some 2 := by decide
  cases hrow
  rw [hheld] at hstored
  exact absurd hstored (by decide)

end Stel.Search
