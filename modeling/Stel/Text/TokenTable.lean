import Mathlib

/-!
# Token tables

The rows of a token table, by their positions in sentences of documents. Sorted rows of distinct
positions have only one order.

## Main definitions

* `Position`, `Position.SameSentence`, `sortTokens`.
* `DistinctPositions`: no two tokens of a document are at one position.

## Main results

* `pairwise_sortTokens`: the sorted rows ascend strictly.
* `sortTokens_perm`: they do not depend on the order of the rows.
-/

namespace Stel.TokenTable

/-- Where a token stands. A null document or sentence comes first. -/
structure Position where
  documentId : WithBot String
  sentenceIndex : WithBot ℤ
  tokenIndex : ℤ
  deriving DecidableEq

/-- The window group of a token. -/
def Position.SameSentence (p q : Position) : Prop :=
  p.documentId = q.documentId ∧ p.sentenceIndex = q.sentenceIndex

instance (p q : Position) : Decidable (p.SameSentence q) := inferInstanceAs (Decidable (_ ∧ _))

/-- The key of the sort. -/
def Position.sortKey (p : Position) : WithBot String ×ₗ WithBot ℤ ×ₗ ℤ :=
  toLex (p.documentId, toLex (p.sentenceIndex, p.tokenIndex))

theorem Position.SameSentence.symm {p q : Position} (h : p.SameSentence q) : q.SameSentence p :=
  ⟨h.1.symm, h.2.symm⟩

theorem Position.SameSentence.trans {p q r : Position} (h : p.SameSentence q) (h' : q.SameSentence r) :
    p.SameSentence r := ⟨h.1.trans h'.1, h.2.trans h'.2⟩

theorem Position.index_lt_iff {p q : Position} (h : p.SameSentence q) :
    p.sortKey < q.sortKey ↔ p.tokenIndex < q.tokenIndex := by
  obtain ⟨hdocument, hsentence⟩ := h
  rw [Position.sortKey, Position.sortKey, hdocument, hsentence]
  simp [Prod.Lex.toLex_lt_toLex]

section Tables

variable {α : Type} (position : α → Position) {tokens tokens' : List α}

/-- No two tokens of a document are at one position. -/
def DistinctPositions (tokens : List α) : Prop :=
  (tokens.map fun token => ((position token).documentId, (position token).tokenIndex)).Nodup

/-- The rows by document, sentence and position. -/
def sortTokens (tokens : List α) : List α :=
  tokens.insertionSort fun t u => (position t).sortKey ≤ (position u).sortKey

variable {position}

theorem perm_sortTokens : (sortTokens position tokens).Perm tokens := List.perm_insertionSort _ _

theorem eq_of_position (hdistinct : DistinctPositions position tokens) {t u : α} (ht : t ∈ tokens)
    (hu : u ∈ tokens) (hdocument : (position t).documentId = (position u).documentId)
    (hindex : (position t).tokenIndex = (position u).tokenIndex) : t = u :=
  List.inj_on_of_nodup_map hdistinct ht hu (Prod.ext hdocument hindex)

theorem DistinctPositions.perm (hdistinct : DistinctPositions position tokens) (h : tokens.Perm tokens') :
    DistinctPositions position tokens' := (h.map _).nodup_iff.mp hdistinct

theorem pairwise_sortTokens (hdistinct : DistinctPositions position tokens) :
    (sortTokens position tokens).Pairwise fun t u => (position t).sortKey < (position u).sortKey := by
  have hle : (sortTokens position tokens).Pairwise fun t u =>
      (position t).sortKey ≤ (position u).sortKey :=
    @List.pairwise_insertionSort _ (fun t u : α => (position t).sortKey ≤ (position u).sortKey) _
      ⟨fun t u => le_total (position t).sortKey (position u).sortKey⟩ ⟨fun _ _ _ => le_trans⟩ tokens
  have hdistinct' : DistinctPositions position (sortTokens position tokens) :=
    hdistinct.perm perm_sortTokens.symm
  have hne := List.pairwise_map.mp hdistinct'
  refine hle.imp₂ (fun t u hle hne => lt_of_le_of_ne hle fun heq => hne ?_) hne
  have hparts := Prod.ext_iff.mp (toLex.injective heq)
  exact Prod.ext hparts.1 (Prod.ext_iff.mp (toLex.injective hparts.2)).2

theorem sortTokens_perm (hdistinct : DistinctPositions position tokens) (h : tokens.Perm tokens') :
    sortTokens position tokens = sortTokens position tokens' :=
  (perm_sortTokens.trans (h.trans perm_sortTokens.symm)).eq_of_pairwise
    (fun _ _ _ _ hlt hgt => absurd hlt (lt_asymm hgt)) (pairwise_sortTokens hdistinct)
    (pairwise_sortTokens (hdistinct.perm h))

end Tables

end Stel.TokenTable
