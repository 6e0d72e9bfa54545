import Mathlib.Data.List.Pairwise
import Mathlib.Data.List.Sort
import Mathlib.Data.Prod.Lex
import Mathlib.Data.String.Basic
import Mathlib.Algebra.Order.Field.Rat

/-!
# Redaction of detected spans

`text/pii.py`: the spans that the analyzer reports are merged where they overlap, and the text of the
merged ones is replaced by placeholders.

## Main definitions

* `PIIEntity`, `detectPii`, `mergeOverlapping`, `redactPii`: the functions of the module.
* `replaceSpans`, `segments`: the replacement as it is computed, and from left to right.
* `Redacts`: a redaction that leaks nothing that was detected.
* `leaders`, `LeadersCover`: the condition on the detected spans.

## Main results

* `replaceSpans_eq_segments`: the replacement of disjoint spans from left to right.
* `redactPii_redacts_iff`: the spans whose redaction leaks nothing.
-/

namespace Stel.Text

/-! ### Detection -/

/-- A result of the analyzer. -/
structure AnalyzerResult where
  entityType : String
  start : ℕ
  stop : ℕ
  score : ℚ
  deriving DecidableEq

/-- `PIIEntity`. -/
structure PIIEntity where
  type : String
  start : ℕ
  stop : ℕ
  score : ℚ
  text : String
  deriving DecidableEq

/-- The span covers a position. -/
def PIIEntity.Covers (e : PIIEntity) (p : ℕ) : Prop := e.start ≤ p ∧ p < e.stop

/-- `text[start:end]`. -/
def slice (text : String) (start stop : ℕ) : String :=
  String.ofList ((text.toList.take stop).drop start)

/-- `detect_pii`, for the results of the analyzer. -/
def detectPii (text : String) (results : List AnalyzerResult) : List PIIEntity :=
  if text = "" then []
  else results.map fun r => ⟨r.entityType, r.start, r.stop, r.score, slice text r.start r.stop⟩

/-! ### Merging -/

/-- The sort key of `_merge_overlapping`. -/
def PIIEntity.key (e : PIIEntity) : ℕ ×ₗ ℚ := toLex (e.start, -e.score)

/-- The loop of `_merge_overlapping`, with the last span of its output. -/
def mergeFrom (last : PIIEntity) : List PIIEntity → List PIIEntity
  | [] => [last]
  | s :: rest =>
    if s.start < last.stop then
      if last.score < s.score then mergeFrom s rest else mergeFrom last rest
    else last :: mergeFrom s rest

/-- `sorted(spans, key=lambda s: (s.start, -s.score))`. -/
def sortSpans (spans : List PIIEntity) : List PIIEntity :=
  spans.insertionSort fun a b => a.key ≤ b.key

/-- `_merge_overlapping`. -/
def mergeOverlapping (spans : List PIIEntity) : List PIIEntity :=
  match sortSpans spans with
  | [] => []
  | first :: rest => mergeFrom first rest

/-! ### Replacement -/

section Replace

variable {α : Type}

/-- The loop of `redact_pii` over the merged spans, from the last one to the first. -/
def replaceSpans (marker : PIIEntity → List α) (text : List α) (spans : List PIIEntity) : List α :=
  (spans.insertionSort fun a b => b.start ≤ a.start).foldl
    (fun out e => out.take e.start ++ marker e ++ out.drop e.stop) text

/-- The text from a position on, with the spans replaced from left to right. -/
def segments (marker : PIIEntity → List α) (text : List α) : ℕ → List PIIEntity → List α
  | p, [] => text.drop p
  | p, e :: spans =>
    (text.take e.start).drop p ++ (marker e ++ segments marker text e.stop spans)

end Replace

/-- `redact_pii`, for the results of the analyzer and the text that `replacement.format` makes of a
type. -/
def redactPii (replacement : String → String) (text : String) (results : List AnalyzerResult) :
    String × List PIIEntity :=
  if text = "" then (text, [])
  else
    let detected := detectPii text results
    if detected = [] then (text, [])
    else
      let merged := mergeOverlapping detected
      (String.ofList (replaceSpans (fun e => (replacement e.type).toList) text.toList merged), merged)

/-! ### Disjoint spans -/

/-- The spans have no position in common. -/
def Apart (a b : PIIEntity) : Prop := a.stop ≤ b.start ∨ b.stop ≤ a.start

instance : Std.Symm Apart := ⟨fun _ _ h => h.symm⟩

/-- The spans are not empty, and disjoint in the order of the text, from a position on. -/
def Ordered (p : ℕ) (spans : List PIIEntity) : Prop :=
  (∀ e ∈ spans, p ≤ e.start ∧ e.start < e.stop) ∧ spans.Pairwise fun a b => a.stop ≤ b.start

theorem Ordered.tail {p : ℕ} {e : PIIEntity} {spans : List PIIEntity} (h : Ordered p (e :: spans)) :
    Ordered e.stop spans := by
  obtain ⟨hspans, hpairwise⟩ := h
  obtain ⟨hhead, htail⟩ := List.pairwise_cons.mp hpairwise
  exact ⟨fun f hf => ⟨hhead f hf, (hspans f (List.mem_cons_of_mem _ hf)).2⟩, htail⟩

section Replace

variable {α : Type} {marker : PIIEntity → List α} {text : List α}

/-- The replacement from the last span to the first, as a recursion. -/
theorem replaceSpans_eq_foldr {p : ℕ} {spans : List PIIEntity} (h : Ordered p spans) :
    replaceSpans marker text spans =
      spans.foldr (fun e out => out.take e.start ++ marker e ++ out.drop e.stop) text := by
  have hsorted : (spans.reverse).Pairwise fun a b => b.start ≤ a.start := by
    rw [List.pairwise_reverse]
    refine h.2.imp_of_mem fun {a b} ha _ hab => ?_
    exact (h.1 a ha).2.le.trans hab
  have hreverse : (spans.insertionSort fun a b => b.start ≤ a.start) = spans.reverse := by
    have hperm : (spans.insertionSort fun a b => b.start ≤ a.start).Perm spans.reverse :=
      (List.perm_insertionSort _ _).trans (List.reverse_perm spans).symm
    refine hperm.eq_of_pairwise ?_ (List.pairwise_insertionSort _ _) hsorted
    intro a b ha hb hab hba
    have ha : a ∈ spans := (List.mem_insertionSort _).mp ha
    have hb : b ∈ spans := List.mem_reverse.mp hb
    by_contra hne
    have hall : spans.Pairwise Apart := h.2.imp fun hab => .inl hab
    have hapart := hall.forall ha hb hne
    have hapos := (h.1 a ha).2
    have hbpos := (h.1 b hb).2
    unfold Apart at hapart
    omega
  rw [replaceSpans, hreverse, List.foldl_reverse]

/-- What the replacement leaves alone before a position, and makes of the text after it. -/
theorem take_drop_foldr {p : ℕ} {spans : List PIIEntity} (h : Ordered p spans)
    (hp : p ≤ text.length) (hlength : ∀ e ∈ spans, e.stop ≤ text.length) :
    (spans.foldr (fun e out => out.take e.start ++ marker e ++ out.drop e.stop) text).take p =
        text.take p ∧
      (spans.foldr (fun e out => out.take e.start ++ marker e ++ out.drop e.stop) text).drop p =
        segments marker text p spans := by
  induction spans generalizing p with
  | nil => exact ⟨rfl, rfl⟩
  | cons e spans ih =>
    obtain ⟨hpe, hpos⟩ := h.1 e List.mem_cons_self
    have hstop : e.stop ≤ text.length := hlength e List.mem_cons_self
    obtain ⟨htake, hdrop⟩ := ih h.tail hstop fun f hf => hlength f (List.mem_cons_of_mem _ hf)
    rw [List.foldr_cons]
    set out := spans.foldr (fun e out => out.take e.start ++ marker e ++ out.drop e.stop) text
    have hstart : out.take e.start = text.take e.start := by
      have hle : e.start ≤ e.stop := hpos.le
      rw [← min_eq_left hle, ← List.take_take, htake, List.take_take]
    have hlen : (text.take e.start).length = e.start := by
      rw [List.length_take]
      omega
    rw [hstart, hdrop, List.append_assoc]
    constructor
    · rw [List.take_append_of_le_length (by omega), List.take_take, min_eq_left hpe]
    · rw [List.drop_append_of_le_length (by omega)]
      rfl

/-- Disjoint spans are replaced from left to right. -/
theorem replaceSpans_eq_segments {spans : List PIIEntity} (h : Ordered 0 spans)
    (hlength : ∀ e ∈ spans, e.stop ≤ text.length) :
    replaceSpans marker text spans = segments marker text 0 spans := by
  rw [replaceSpans_eq_foldr h]
  exact (take_drop_foldr h (Nat.zero_le _) hlength).2

end Replace

/-! ### The pieces of a redacted text -/

/-- A piece of a redacted text: a character with its position in the original one, or the
placeholder of an entity. -/
inductive Piece
  | kept (c : Char) (position : ℕ)
  | placeholder (e : PIIEntity)

/-- Where a piece comes from. -/
def Piece.position : Piece → ℕ
  | .kept _ p => p
  | .placeholder e => e.start

/-- The text of a piece. -/
def Piece.render (replacement : String → String) : Piece → List Char
  | .kept c _ => [c]
  | .placeholder e => (replacement e.type).toList

/-- The pieces of a text without redaction, from a position on. -/
def pieces : ℕ → List Char → List Piece
  | _, [] => []
  | p, c :: text => .kept c p :: pieces (p + 1) text

/-- A redaction that leaks nothing that was detected: every character is kept, in its place, or
covered by a detected span and then by an entity, whose placeholder stands in its place; and the
entities are disjoint. -/
structure Redacts (replacement : String → String) (text : String) (detected : List PIIEntity)
    (redacted : String) (entities : List PIIEntity) : Prop where
  text : ∃ parts : List Piece,
    redacted = String.ofList (parts.flatMap (Piece.render replacement)) ∧
    parts.Pairwise (fun a b => a.position < b.position) ∧
    (∀ c p, .kept c p ∈ parts ↔ text.toList[p]? = some c ∧ ∀ e ∈ detected, ¬ e.Covers p) ∧
    ∀ e, .placeholder e ∈ parts ↔ e ∈ entities
  covered : ∀ e ∈ detected, ∀ p, e.Covers p → ∃ f ∈ entities, f.Covers p
  apart : entities.Pairwise Apart

theorem mem_pieces {text : List Char} {p : ℕ} {piece : Piece} :
    piece ∈ pieces p text ↔ ∃ i c, text[i]? = some c ∧ piece = .kept c (p + i) := by
  induction text generalizing p with
  | nil => simp [pieces]
  | cons c text ih =>
    rw [pieces, List.mem_cons, ih]
    constructor
    · rintro (rfl | ⟨i, d, hi, rfl⟩)
      · exact ⟨0, c, rfl, rfl⟩
      · exact ⟨i + 1, d, hi, by rw [Nat.add_right_comm, Nat.add_assoc]⟩
    · rintro ⟨i, d, hi, rfl⟩
      cases i with
      | zero =>
        cases hi
        exact .inl rfl
      | succ i => exact .inr ⟨i, d, hi, by rw [Nat.add_right_comm, Nat.add_assoc]⟩

theorem pairwise_pieces (p : ℕ) (text : List Char) :
    (pieces p text).Pairwise fun a b => a.position < b.position := by
  induction text generalizing p with
  | nil => exact .nil
  | cons c text ih =>
    refine List.pairwise_cons.mpr ⟨fun piece hpiece => ?_, ih (p + 1)⟩
    obtain ⟨i, d, -, rfl⟩ := mem_pieces.mp hpiece
    show p < p + 1 + i
    omega

theorem flatMap_render_pieces (replacement : String → String) (p : ℕ) (text : List Char) :
    (pieces p text).flatMap (Piece.render replacement) = text := by
  induction text generalizing p with
  | nil => rfl
  | cons c text ih => rw [pieces, List.flatMap_cons, ih]; rfl

theorem take_pieces (p n : ℕ) (text : List Char) :
    (pieces p text).take n = pieces p (text.take n) := by
  induction text generalizing p n with
  | nil => simp [pieces]
  | cons c text ih =>
    cases n with
    | zero => rfl
    | succ n => rw [pieces, List.take_succ_cons, List.take_succ_cons, pieces, ih]

theorem drop_pieces (p n : ℕ) (text : List Char) :
    (pieces p text).drop n = pieces (p + n) (text.drop n) := by
  induction text generalizing p n with
  | nil => simp [pieces]
  | cons c text ih =>
    cases n with
    | zero => rfl
    | succ n => rw [pieces, List.drop_succ_cons, List.drop_succ_cons, ih, Nat.add_right_comm,
        Nat.add_assoc]

section Segments

variable {text : List Char}

/-- The text of the replaced pieces is the replaced text. -/
theorem flatMap_render_segments (replacement : String → String) (p : ℕ) (spans : List PIIEntity) :
    (segments (fun e => [Piece.placeholder e]) (pieces 0 text) p spans).flatMap
        (Piece.render replacement) =
      segments (fun e => (replacement e.type).toList) text p spans := by
  induction spans generalizing p with
  | nil => rw [segments, segments, drop_pieces, flatMap_render_pieces]
  | cons e spans ih =>
    rw [segments, segments, List.flatMap_append, take_pieces, drop_pieces, flatMap_render_pieces,
      List.flatMap_append, ih]
    simp [Piece.render]

theorem mem_drop_pieces {p : ℕ} {piece : Piece} {text : List Char} :
    piece ∈ (pieces 0 text).drop p ↔ ∃ i c, p ≤ i ∧ text[i]? = some c ∧ piece = .kept c i := by
  rw [drop_pieces, mem_pieces]
  constructor
  · rintro ⟨i, c, hi, rfl⟩
    exact ⟨p + i, c, by omega, by rwa [List.getElem?_drop] at hi, by rw [Nat.zero_add]⟩
  · rintro ⟨i, c, hpi, hi, rfl⟩
    refine ⟨i - p, c, ?_, ?_⟩
    · rw [List.getElem?_drop, Nat.add_sub_cancel' hpi]
      exact hi
    · rw [Nat.zero_add, Nat.add_sub_cancel' hpi]

/-- The pieces from a position on: the characters that no span covers, and the placeholders of the
spans. -/
theorem mem_segments {p : ℕ} {spans : List PIIEntity} (h : Ordered p spans) {piece : Piece} :
    piece ∈ segments (fun e => [Piece.placeholder e]) (pieces 0 text) p spans ↔
      (∃ i c, p ≤ i ∧ text[i]? = some c ∧ (∀ e ∈ spans, ¬ e.Covers i) ∧ piece = .kept c i) ∨
      ∃ e ∈ spans, piece = .placeholder e := by
  induction spans generalizing p with
  | nil =>
    rw [segments, mem_drop_pieces]
    simp
  | cons e spans ih =>
    obtain ⟨hpe, hpos⟩ := h.1 e List.mem_cons_self
    have hafter : ∀ f ∈ spans, e.stop ≤ f.start := fun f hf => (h.tail.1 f hf).1
    rw [segments, List.mem_append, List.mem_append, ih h.tail, take_pieces, mem_drop_pieces,
      List.mem_singleton]
    constructor
    · rintro (⟨i, c, hpi, hi, rfl⟩ | rfl | ⟨i, c, hei, hi, huncovered, rfl⟩ | ⟨f, hf, rfl⟩)
      · rw [List.getElem?_take] at hi
        split_ifs at hi with hlt
        refine .inl ⟨i, c, hpi, hi, ?_, rfl⟩
        rintro f hf ⟨hfi, -⟩
        rcases List.mem_cons.mp hf with rfl | hf
        · omega
        · have := hafter f hf
          omega
      · exact .inr ⟨e, List.mem_cons_self, rfl⟩
      · refine .inl ⟨i, c, by omega, hi, ?_, rfl⟩
        rw [List.forall_mem_cons]
        exact ⟨fun hcovers => by have := hcovers.2; omega, huncovered⟩
      · exact .inr ⟨f, List.mem_cons_of_mem _ hf, rfl⟩
    · rintro (⟨i, c, hpi, hi, huncovered, rfl⟩ | ⟨f, hf, rfl⟩)
      · rw [List.forall_mem_cons] at huncovered
        by_cases hlt : i < e.start
        · refine .inl ⟨i, c, hpi, ?_, rfl⟩
          rw [List.getElem?_take, if_pos hlt]
          exact hi
        · have hstop : e.stop ≤ i := by
            by_contra hcontra
            exact huncovered.1 ⟨not_lt.mp hlt, not_le.mp hcontra⟩
          exact .inr (.inr (.inl ⟨i, c, hstop, hi, huncovered.2, rfl⟩))
      · rcases List.mem_cons.mp hf with rfl | hf
        · exact .inr (.inl rfl)
        · exact .inr (.inr (.inr ⟨f, hf, rfl⟩))

/-- The pieces are in the order of the text. -/
theorem pairwise_segments {p : ℕ} {spans : List PIIEntity} (h : Ordered p spans) :
    (segments (fun e => [Piece.placeholder e]) (pieces 0 text) p spans).Pairwise
      fun a b => a.position < b.position := by
  induction spans generalizing p with
  | nil =>
    rw [segments, drop_pieces]
    exact pairwise_pieces _ _
  | cons e spans ih =>
    obtain ⟨hpe, hpos⟩ := h.1 e List.mem_cons_self
    have hrest : ∀ piece ∈ segments (fun e => [Piece.placeholder e]) (pieces 0 text) e.stop spans,
        e.stop ≤ piece.position := by
      intro piece hpiece
      obtain ⟨i, c, hei, -, -, rfl⟩ | ⟨f, hf, rfl⟩ := (mem_segments h.tail).mp hpiece
      · exact hei
      · exact (h.tail.1 f hf).1
    have hfirst : ∀ piece ∈ (pieces 0 (text.take e.start)).drop p, piece.position < e.start := by
      intro piece hpiece
      obtain ⟨i, c, -, hi, rfl⟩ := mem_drop_pieces.mp hpiece
      have hlt := (List.getElem?_eq_some_iff.mp hi).1
      rw [List.length_take] at hlt
      exact lt_of_lt_of_le hlt (min_le_left _ _)
    rw [segments, take_pieces]
    refine List.pairwise_append.mpr ⟨?_, ?_, ?_⟩
    · rw [drop_pieces]
      exact pairwise_pieces _ _
    · refine List.pairwise_cons.mpr ⟨fun piece hpiece => ?_, ih h.tail⟩
      exact hpos.trans_le (hrest piece hpiece)
    · intro a ha b hb
      have hae := hfirst a ha
      rcases List.mem_cons.mp hb with rfl | hb
      · exact hae
      · have := hrest b hb
        omega

end Segments

/-! ### The merged spans -/

/-- The rest of a list in the order of the sort key, after its last span. -/
def SortedFrom (last : PIIEntity) (rest : List PIIEntity) : Prop :=
  (last :: rest).Pairwise (fun a b => a.key ≤ b.key) ∧ ∀ s ∈ last :: rest, s.start < s.stop

theorem start_le_of_key_le {a b : PIIEntity} (h : a.key ≤ b.key) : a.start ≤ b.start := by
  rcases (Prod.Lex.toLex_le_toLex).mp h with hlt | ⟨heq, -⟩
  · exact le_of_lt hlt
  · exact le_of_eq heq

/-- A span that comes later with a higher score starts later. -/
theorem start_lt_of_key_le {a b : PIIEntity} (h : a.key ≤ b.key) (hscore : a.score < b.score) :
    a.start < b.start := by
  rcases (Prod.Lex.toLex_le_toLex).mp h with hlt | ⟨-, hle⟩
  · exact hlt
  · exact absurd (neg_le_neg_iff.mp hle) (not_le.mpr hscore)

theorem SortedFrom.start_le {last s : PIIEntity} {rest : List PIIEntity} (h : SortedFrom last rest)
    (hs : s ∈ last :: rest) : last.start ≤ s.start := by
  rcases List.mem_cons.mp hs with rfl | hs
  · exact le_rfl
  · exact start_le_of_key_le ((List.pairwise_cons.mp h.1).1 s hs)

/-- The sorted rest without one of its first two spans. -/
theorem SortedFrom.tail {last s : PIIEntity} {rest : List PIIEntity}
    (h : SortedFrom last (s :: rest)) : SortedFrom s rest :=
  ⟨(List.pairwise_cons.mp h.1).2, fun t ht => h.2 t (List.mem_cons_of_mem _ ht)⟩

theorem SortedFrom.skip {last s : PIIEntity} {rest : List PIIEntity}
    (h : SortedFrom last (s :: rest)) : SortedFrom last rest := by
  have hsub : (last :: rest).Sublist (last :: s :: rest) := .cons_cons _ (List.sublist_cons_self _ _)
  exact ⟨h.1.sublist hsub, fun t ht => h.2 t (hsub.subset ht)⟩

theorem mem_of_mem_mergeFrom {last e : PIIEntity} {rest : List PIIEntity}
    (h : e ∈ mergeFrom last rest) : e ∈ last :: rest := by
  induction rest generalizing last with
  | nil => exact h
  | cons s rest ih =>
    rw [mergeFrom] at h
    split_ifs at h
    · exact List.mem_cons_of_mem _ (ih h)
    · rcases List.mem_cons.mp (ih h) with rfl | hrest
      · exact List.mem_cons_self
      · exact List.mem_cons_of_mem _ (List.mem_cons_of_mem _ hrest)
    · rcases List.mem_cons.mp h with rfl | h
      · exact List.mem_cons_self
      · exact List.mem_cons_of_mem _ (ih h)

/-- The merged spans are disjoint and in the order of the text. -/
theorem ordered_mergeFrom {last : PIIEntity} {rest : List PIIEntity} (h : SortedFrom last rest) :
    Ordered last.start (mergeFrom last rest) := by
  induction rest generalizing last with
  | nil =>
    refine ⟨fun e he => ?_, List.pairwise_singleton _ _⟩
    obtain rfl := List.mem_singleton.mp he
    exact ⟨le_rfl, h.2 e List.mem_cons_self⟩
  | cons s rest ih =>
    have hstart := h.start_le (List.mem_cons_of_mem _ List.mem_cons_self)
    obtain ⟨hspans, hpairwise⟩ := ih h.tail
    rw [mergeFrom]
    split_ifs with hoverlap hscore
    · exact ⟨fun e he => ⟨hstart.trans (hspans e he).1, (hspans e he).2⟩, hpairwise⟩
    · exact ih h.skip
    · refine ⟨fun e he => ?_, List.pairwise_cons.mpr ⟨fun e he => ?_, hpairwise⟩⟩
      · rcases List.mem_cons.mp he with rfl | he
        · exact ⟨le_rfl, h.2 e List.mem_cons_self⟩
        · exact ⟨hstart.trans (hspans e he).1, (hspans e he).2⟩
      · exact (not_lt.mp hoverlap).trans (hspans e he).1

/-! ### Leaders -/

/-- The leaders after a leader: the spans that start at or after the end of the leader before. -/
def leadersFrom (last : PIIEntity) : List PIIEntity → List PIIEntity
  | [] => [last]
  | s :: rest => if s.start < last.stop then leadersFrom last rest else last :: leadersFrom s rest

/-- The leaders of some spans: in the order of the sort key, the first span and every one that starts
at or after the end of the leader before. -/
def leaders (spans : List PIIEntity) : List PIIEntity :=
  match sortSpans spans with
  | [] => []
  | first :: rest => leadersFrom first rest

/-- No span that starts inside a leader has a higher score. -/
def NotOvertaken (spans leaders : List PIIEntity) : Prop :=
  ∀ leader ∈ leaders, ∀ s ∈ spans, leader.Covers s.start → s.score ≤ leader.score

/-- The condition on the detected spans: no span that starts inside a leader has a higher score, and
every position of a span lies in a leader. -/
def LeadersCover (spans : List PIIEntity) : Prop :=
  NotOvertaken spans (leaders spans) ∧
    ∀ s ∈ spans, ∀ p, s.Covers p → ∃ leader ∈ leaders spans, leader.Covers p

theorem start_le_of_mem_leadersFrom {last leader : PIIEntity} {rest : List PIIEntity}
    (h : SortedFrom last rest) (hleader : leader ∈ leadersFrom last rest) :
    leader = last ∨ last.stop ≤ leader.start := by
  induction rest generalizing last with
  | nil => exact .inl (List.mem_singleton.mp hleader)
  | cons s rest ih =>
    rw [leadersFrom] at hleader
    split_ifs at hleader with hoverlap
    · exact ih h.skip hleader
    · rcases List.mem_cons.mp hleader with rfl | hleader
      · exact .inl rfl
      · have hs : last.stop ≤ s.start := not_lt.mp hoverlap
        rcases ih h.tail hleader with rfl | hlater
        · exact .inr hs
        · have := h.tail.2 s List.mem_cons_self
          exact .inr (by omega)

theorem self_mem_leadersFrom (last : PIIEntity) (rest : List PIIEntity) :
    last ∈ leadersFrom last rest := by
  induction rest with
  | nil => exact List.mem_singleton_self _
  | cons s rest ih =>
    rw [leadersFrom]
    split_ifs
    · exact ih
    · exact List.mem_cons_self

/-- If no leader is overtaken, the merged spans are the leaders. -/
theorem mergeFrom_eq_leadersFrom {last : PIIEntity} {rest : List PIIEntity}
    (h : SortedFrom last rest) (hnot : NotOvertaken (last :: rest) (leadersFrom last rest)) :
    mergeFrom last rest = leadersFrom last rest := by
  induction rest generalizing last with
  | nil => rfl
  | cons s rest ih =>
    rw [mergeFrom, leadersFrom]
    have hs : s ∈ last :: s :: rest := List.mem_cons_of_mem _ List.mem_cons_self
    by_cases hoverlap : s.start < last.stop
    · have hscore : s.score ≤ last.score :=
        hnot last (self_mem_leadersFrom _ _) s hs ⟨h.start_le hs, hoverlap⟩
      rw [if_pos hoverlap, if_neg (not_lt.mpr hscore), if_pos hoverlap]
      rw [leadersFrom, if_pos hoverlap] at hnot
      refine ih h.skip fun leader hleader t ht => hnot leader hleader t ?_
      rcases List.mem_cons.mp ht with rfl | ht
      · exact List.mem_cons_self
      · exact List.mem_cons_of_mem _ (List.mem_cons_of_mem _ ht)
    · rw [if_neg hoverlap, if_neg hoverlap]
      rw [leadersFrom, if_neg hoverlap] at hnot
      rw [ih h.tail fun leader hleader t ht =>
        hnot leader (List.mem_cons_of_mem _ hleader) t (List.mem_cons_of_mem _ ht)]

/-- If the merged spans cover every position of every span, no leader is overtaken: the start of a
span that another one replaces is covered by no merged span. -/
theorem notOvertaken_of_covered {last : PIIEntity} {rest : List PIIEntity}
    (h : SortedFrom last rest)
    (hcovered : ∀ s ∈ last :: rest, ∀ p, s.Covers p → ∃ e ∈ mergeFrom last rest, e.Covers p) :
    NotOvertaken (last :: rest) (leadersFrom last rest) := by
  induction rest generalizing last with
  | nil =>
    intro leader hleader s hs _
    obtain rfl := List.mem_singleton.mp hleader
    obtain rfl := List.mem_singleton.mp hs
    exact le_rfl
  | cons s rest ih =>
    have hs : s ∈ last :: s :: rest := List.mem_cons_of_mem _ List.mem_cons_self
    have hlast := h.2 last List.mem_cons_self
    have hkey : last.key ≤ s.key := (List.pairwise_cons.mp h.1).1 s List.mem_cons_self
    rw [mergeFrom] at hcovered
    rw [leadersFrom]
    by_cases hoverlap : s.start < last.stop
    · rw [if_pos hoverlap] at hcovered ⊢
      by_cases hscore : last.score < s.score
      · rw [if_pos hscore] at hcovered
        obtain ⟨e, he, hle, -⟩ := hcovered last List.mem_cons_self last.start ⟨le_rfl, hlast⟩
        have hstart := start_lt_of_key_le hkey hscore
        have := ((ordered_mergeFrom h.tail).1 e he).1
        omega
      · rw [if_neg hscore] at hcovered
        have hrest := ih h.skip fun t ht => hcovered t (by
          rcases List.mem_cons.mp ht with rfl | ht
          · exact List.mem_cons_self
          · exact List.mem_cons_of_mem _ (List.mem_cons_of_mem _ ht))
        intro leader hleader t ht hstart
        rcases List.mem_cons.mp ht with rfl | ht
        · exact hrest leader hleader t List.mem_cons_self hstart
        rcases List.mem_cons.mp ht with rfl | ht
        · rcases start_le_of_mem_leadersFrom h.skip hleader with rfl | hlater
          · exact not_lt.mp hscore
          · have := hstart.1
            omega
        · exact hrest leader hleader t (List.mem_cons_of_mem _ ht) hstart
    · rw [if_neg hoverlap] at hcovered ⊢
      have hrest := ih h.tail fun t ht p hp => by
        obtain ⟨e, he, hep⟩ := hcovered t (List.mem_cons_of_mem _ ht) p hp
        rcases List.mem_cons.mp he with rfl | he
        · have hst := h.tail.start_le ht
          have hpt := hp.1
          have hpe := hep.2
          omega
        · exact ⟨e, he, hep⟩
      intro leader hleader t ht hstart
      rcases List.mem_cons.mp hleader with rfl | hfrom
      · rcases List.mem_cons.mp ht with rfl | ht
        · exact le_rfl
        · have hst := h.tail.start_le ht
          have := hstart.2
          omega
      · rcases List.mem_cons.mp ht with rfl | ht
        · have hle := hstart.1
          rcases start_le_of_mem_leadersFrom h.tail hfrom with rfl | hlater
          · omega
          · have := h.tail.2 s List.mem_cons_self
            omega
        · exact hrest leader hfrom t ht hstart

/-! ### The redaction -/

theorem pairwise_sortSpans (spans : List PIIEntity) :
    (sortSpans spans).Pairwise fun a b => a.key ≤ b.key := by
  have htotal : ∀ a b : PIIEntity, a.key ≤ b.key ∨ b.key ≤ a.key := fun a b => le_total _ _
  have htrans : ∀ a b c : PIIEntity, a.key ≤ b.key → b.key ≤ c.key → a.key ≤ c.key :=
    fun a b c => le_trans
  exact List.pairwise_insertionSort _ _

theorem mem_sortSpans (spans : List PIIEntity) {s : PIIEntity} :
    s ∈ sortSpans spans ↔ s ∈ spans := List.mem_insertionSort _

/-- The merged spans of nonempty spans. -/
theorem ordered_mergeOverlapping {spans : List PIIEntity} (hspans : ∀ s ∈ spans, s.start < s.stop) :
    Ordered 0 (mergeOverlapping spans) := by
  unfold mergeOverlapping
  have hsorted := pairwise_sortSpans spans
  have hmem := fun s => (mem_sortSpans spans (s := s)).mp
  match hlist : sortSpans spans with
  | [] => exact ⟨by simp, .nil⟩
  | first :: rest =>
    rw [hlist] at hsorted
    have hfrom : SortedFrom first rest := ⟨hsorted, fun s hs => hspans s (hmem s (hlist ▸ hs))⟩
    obtain ⟨hall, hpairwise⟩ := ordered_mergeFrom hfrom
    exact ⟨fun e he => ⟨Nat.zero_le _, (hall e he).2⟩, hpairwise⟩

theorem mem_of_mem_mergeOverlapping {spans : List PIIEntity} {e : PIIEntity}
    (he : e ∈ mergeOverlapping spans) : e ∈ spans := by
  unfold mergeOverlapping at he
  have hmem := (mem_sortSpans spans (s := e)).mp
  match hlist : sortSpans spans with
  | [] =>
    rw [hlist] at he
    cases he
  | first :: rest =>
    rw [hlist] at he hmem
    exact hmem (mem_of_mem_mergeFrom he)

/-- The merged spans cover what was detected exactly if the leaders do, and none is overtaken. -/
theorem covered_mergeOverlapping_iff {spans : List PIIEntity}
    (hspans : ∀ s ∈ spans, s.start < s.stop) :
    (∀ s ∈ spans, ∀ p, s.Covers p → ∃ e ∈ mergeOverlapping spans, e.Covers p) ↔
      LeadersCover spans := by
  have hmem := fun s => mem_sortSpans spans (s := s)
  have hsorted := pairwise_sortSpans spans
  unfold LeadersCover mergeOverlapping leaders
  match hlist : sortSpans spans with
  | [] =>
    have hnil : spans = [] := by
      refine List.eq_nil_iff_forall_not_mem.mpr fun s hs => ?_
      have := (hmem s).mpr hs
      rw [hlist] at this
      cases this
    simp [hnil, NotOvertaken]
  | first :: rest =>
    rw [hlist] at hsorted
    simp only [hlist] at hmem
    have hfrom : SortedFrom first rest := ⟨hsorted, fun s hs => hspans s ((hmem s).mp hs)⟩
    have hnot : NotOvertaken spans (leadersFrom first rest) ↔
        NotOvertaken (first :: rest) (leadersFrom first rest) :=
      ⟨fun h leader hleader s hs => h leader hleader s ((hmem s).mp hs),
        fun h leader hleader s hs => h leader hleader s ((hmem s).mpr hs)⟩
    dsimp only
    rw [hnot]
    constructor
    · intro hcovered
      have hovertaken := notOvertaken_of_covered hfrom fun s hs => hcovered s ((hmem s).mp hs)
      rw [mergeFrom_eq_leadersFrom hfrom hovertaken] at hcovered
      exact ⟨hovertaken, hcovered⟩
    · rintro ⟨hovertaken, hcovered⟩
      rw [mergeFrom_eq_leadersFrom hfrom hovertaken]
      exact hcovered

/-- The pieces of the text with the merged spans replaced. -/
def redactedPieces (text : String) (detected : List PIIEntity) : List Piece :=
  segments (fun e => [Piece.placeholder e]) (pieces 0 text.toList) 0 (mergeOverlapping detected)

/-- The redaction leaks nothing that was detected exactly if no span that starts inside a leader has
a higher score, and every position of a span lies in a leader. -/
theorem redactPii_redacts_iff (replacement : String → String) (text : String)
    (results : List AnalyzerResult)
    (hresults : ∀ r ∈ results, r.start < r.stop ∧ r.stop ≤ text.toList.length) :
    Redacts replacement text (detectPii text results) (redactPii replacement text results).1
        (redactPii replacement text results).2 ↔
      LeadersCover (detectPii text results) := by
  have hspans : ∀ s ∈ detectPii text results, s.start < s.stop ∧ s.stop ≤ text.toList.length := by
    intro s hs
    unfold detectPii at hs
    split_ifs at hs
    · cases hs
    · obtain ⟨r, hr, rfl⟩ := List.mem_map.mp hs
      exact hresults r hr
  set detected := detectPii text results with hdetected
  have hordered := ordered_mergeOverlapping fun s hs => (hspans s hs).1
  have hsubset : ∀ e ∈ mergeOverlapping detected, e ∈ detected :=
    fun e he => mem_of_mem_mergeOverlapping he
  have hredacted : redactPii replacement text results = (String.ofList
      ((redactedPieces text detected).flatMap (Piece.render replacement)),
        mergeOverlapping detected) := by
    have hsegments : (redactedPieces text detected).flatMap (Piece.render replacement) =
        replaceSpans (fun e => (replacement e.type).toList) text.toList
          (mergeOverlapping detected) := by
      rw [replaceSpans_eq_segments hordered fun e he => (hspans e (hsubset e he)).2]
      exact flatMap_render_segments replacement 0 _
    have hnone : detected = [] → (text, ([] : List PIIEntity)) = (String.ofList
        ((redactedPieces text detected).flatMap (Piece.render replacement)),
          mergeOverlapping detected) := by
      intro hnil
      rw [hnil]
      show _ = (String.ofList ((segments _ (pieces 0 text.toList) 0 []).flatMap _), [])
      rw [segments, List.drop_zero, flatMap_render_pieces, String.ofList_toList]
    unfold redactPii
    dsimp only
    rw [← hdetected]
    split_ifs with htext hnil
    · refine hnone ?_
      rw [hdetected, detectPii, if_pos htext]
    · exact hnone hnil
    · rw [hsegments]
  rw [hredacted, ← covered_mergeOverlapping_iff fun s hs => (hspans s hs).1]
  constructor
  · intro h
    exact h.covered
  · intro hcovered
    refine ⟨⟨redactedPieces text detected, rfl, pairwise_segments hordered, ?_, ?_⟩, hcovered, ?_⟩
    · intro c p
      rw [redactedPieces, mem_segments hordered]
      constructor
      · rintro (⟨i, d, -, hi, huncovered, heq⟩ | ⟨e, -, heq⟩)
        · cases heq
          refine ⟨hi, fun e he hp => ?_⟩
          obtain ⟨f, hf, hfp⟩ := hcovered e he _ hp
          exact huncovered f hf hfp
        · cases heq
      · rintro ⟨hp, huncovered⟩
        exact .inl ⟨p, c, Nat.zero_le _, hp, fun e he => huncovered e (hsubset e he), rfl⟩
    · intro e
      rw [redactedPieces, mem_segments hordered]
      constructor
      · rintro (⟨i, d, -, -, -, heq⟩ | ⟨f, hf, heq⟩)
        · cases heq
        · cases heq
          exact hf
      · intro he
        exact .inr ⟨e, he, rfl⟩
    · exact hordered.2.imp fun hab => .inl hab

/-- The spans of two names are disjoint, and their redaction leaks nothing. -/
theorem redactPii_redacts_apart :
    Redacts (fun type => "<" ++ type ++ ">") "Ada met Bob"
      (detectPii "Ada met Bob" [⟨"PERSON", 0, 3, 1⟩, ⟨"PERSON", 8, 11, 1 / 2⟩])
      (redactPii (fun type => "<" ++ type ++ ">") "Ada met Bob"
        [⟨"PERSON", 0, 3, 1⟩, ⟨"PERSON", 8, 11, 1 / 2⟩]).1
      (redactPii (fun type => "<" ++ type ++ ">") "Ada met Bob"
        [⟨"PERSON", 0, 3, 1⟩, ⟨"PERSON", 8, 11, 1 / 2⟩]).2 := by
  have hresults : ∀ r ∈ ([⟨"PERSON", 0, 3, 1⟩, ⟨"PERSON", 8, 11, 1 / 2⟩] : List AnalyzerResult),
      r.start < r.stop ∧ r.stop ≤ "Ada met Bob".toList.length := by decide
  refine (redactPii_redacts_iff _ _ _ hresults).mpr ?_
  have hdetected : detectPii "Ada met Bob" [⟨"PERSON", 0, 3, 1⟩, ⟨"PERSON", 8, 11, 1 / 2⟩] =
      [⟨"PERSON", 0, 3, 1, "Ada"⟩, ⟨"PERSON", 8, 11, 1 / 2, "Bob"⟩] := by decide +kernel
  rw [hdetected]
  have hleaders : leaders [⟨"PERSON", 0, 3, 1, "Ada"⟩, ⟨"PERSON", 8, 11, 1 / 2, "Bob"⟩] =
      [⟨"PERSON", 0, 3, 1, "Ada"⟩, ⟨"PERSON", 8, 11, 1 / 2, "Bob"⟩] := by decide +kernel
  refine ⟨?_, ?_⟩
  · rw [hleaders]
    intro leader hleader s hs hstart
    rcases List.mem_pair.mp hleader with rfl | rfl <;> rcases List.mem_pair.mp hs with rfl | rfl
    · exact le_rfl
    · exact absurd hstart.2 (by decide)
    · exact absurd hstart.1 (by decide)
    · exact le_rfl
  · intro s hs p hp
    rw [hleaders]
    exact ⟨s, hs, hp⟩

/-- The address is longer than the domain in it, and starts before it: the higher score of the domain
leaves the start of the address in the text. -/
theorem redactPii_leaks_start :
    ¬ Redacts (fun type => "<" ++ type ++ ">") "ada@acme.org now"
      (detectPii "ada@acme.org now" [⟨"EMAIL_ADDRESS", 0, 12, 1 / 2⟩, ⟨"URL", 4, 12, 9 / 10⟩])
      (redactPii (fun type => "<" ++ type ++ ">") "ada@acme.org now"
        [⟨"EMAIL_ADDRESS", 0, 12, 1 / 2⟩, ⟨"URL", 4, 12, 9 / 10⟩]).1
      (redactPii (fun type => "<" ++ type ++ ">") "ada@acme.org now"
        [⟨"EMAIL_ADDRESS", 0, 12, 1 / 2⟩, ⟨"URL", 4, 12, 9 / 10⟩]).2 := by
  intro h
  have hentities : (redactPii (fun type => "<" ++ type ++ ">") "ada@acme.org now"
      [⟨"EMAIL_ADDRESS", 0, 12, 1 / 2⟩, ⟨"URL", 4, 12, 9 / 10⟩]).2 =
      [⟨"URL", 4, 12, 9 / 10, "acme.org"⟩] := by decide +kernel
  have hdetected : (⟨"EMAIL_ADDRESS", 0, 12, 1 / 2, "ada@acme.org"⟩ : PIIEntity) ∈
      detectPii "ada@acme.org now" [⟨"EMAIL_ADDRESS", 0, 12, 1 / 2⟩, ⟨"URL", 4, 12, 9 / 10⟩] := by
    decide +kernel
  obtain ⟨f, hf, hcovers⟩ := h.covered _ hdetected 0 ⟨le_rfl, by decide⟩
  rw [hentities, List.mem_singleton] at hf
  subst hf
  exact absurd hcovers.1 (by decide)

end Stel.Text
