import Stel.Dag
import Stel.Data.SortedSet
import Stel.Failure
import Stel.Text.TokenTable
import Mathlib.Algebra.BigOperators.Group.List.Basic
import Mathlib.Algebra.Order.Field.Basic
import Mathlib.Algebra.Order.Field.Rat
import Mathlib.Data.List.Find

/-!
# Tone

`run_tone` of `text/transforms/_tone.py`, over exact rationals: the tokens of documents are looked up in
a lexicon, and the hits of each category are counted and weighted, with the sign that a negator before
them changes. The configured columns of the tables are there, and the fields that are passed through are
left abstract.

A term of the lexicon and a negator are folded by Python, a token is put in lower case by polars.

## Main definitions

* `runTone`.
* `toneRow`: a row, by counts that do not mention an order, for any equality of texts.
* `MeetsSpec`: what the rows promise.
* `NormalizationsAgree`: the condition for it.

## Main results

* `runTone_eq_ok`: the rows count the texts whose keys are equal.
* `runTone_perm`: a run does not depend on the order of tokens and lexicon.
* `meetsSpec_iff`: when these are the texts that are equal up to case.
-/

namespace Stel.Tone

open TokenTable

/-! ### Tables -/

/-- `str.casefold` and polars' `to_lowercase`. -/
structure Casing where
  lower : String → String
  casefold : String → String
  casefold_lower : ∀ s, casefold (lower s) = casefold s
  casefold_casefold : ∀ s, casefold (casefold s) = casefold s

/-- A cell of a lexicon. A number that is not finite has no value. -/
inductive Cell
  | null
  | text (s : String)
  | boolean (b : Bool)
  | number (x : Option ℚ)
  deriving DecidableEq

/-- A row of a lexicon; the weight is null if there is no such column. -/
structure LexiconCells where
  term : Cell
  category : Cell
  weight : Cell

/-- A row of `_lexicon_rows`. -/
structure LexiconRow where
  term : String
  category : String
  weight : ℚ
  deriving DecidableEq

/-- A row of a token table. -/
structure Token extends Position where
  matchText : Option String
  language : Option String
  identity : List (Option String)

/-- What is read of `ToneOptions`. -/
structure ToneOptions where
  tokens : String := "tokens"
  lexicon : String := "lexicon"
  documents : String := "documents"
  emit : List String
  language : String := "en"
  documentIdField : String := "document_id"
  documentsIdField : String := "document_id"
  lexiconTermField : String := "term"
  lexiconCategoryField : String := "category"
  lexiconWeightField : String := "weight"
  negation : Bool := true
  negators : List String := ["not", "no", "never", "without", "cannot", "n't", "nor", "none", "neither"]
  negationWindow : ℕ := 3
  minTokens : ℕ := 1

/-- A `ValueError`. -/
def valueError {α : Type} (message : String) : Except Failure α := .error (.other message)

/-! ### The lexicon -/

section Lexicon

variable (casing : Casing) (parseFloat : String → Option (Option ℚ)) (options : ToneOptions)

/-- A text that is not blank, of `_lexicon_rows`. -/
def nonEmptyText (field : String) (position : ℕ) : Cell → Except Failure String
  | .text s =>
    if isBlank s then
      valueError ("Lexicon model '" ++ options.lexicon ++ "' column '" ++ field ++
        "' must contain non-empty strings (row " ++ toString position ++ ")")
    else .ok s
  | _ => valueError ("Lexicon model '" ++ options.lexicon ++ "' column '" ++ field ++
      "' must contain non-empty strings (row " ++ toString position ++ ")")

/-- `float`. -/
def Cell.float : Cell → Option (Option ℚ)
  | .null => none
  | .text s => parseFloat s
  | .boolean b => some (some (if b then 1 else 0))
  | .number x => some x

/-- The weight of a row. -/
def weightOfCell (position : ℕ) (cell : Cell) : Except Failure ℚ :=
  if cell = .null then .ok 1
  else
    match cell.float parseFloat with
    | none => valueError ("Lexicon model '" ++ options.lexicon ++ "' column '" ++
        options.lexiconWeightField ++ "' must be numeric (row " ++ toString position ++ ")")
    | some none => valueError ("Lexicon model '" ++ options.lexicon ++ "' column '" ++
        options.lexiconWeightField ++ "' must be finite (row " ++ toString position ++ ")")
    | some (some weight) => .ok weight

/-- One row of `_lexicon_rows`. -/
def lexiconRow (row : LexiconCells × ℕ) : Except Failure LexiconRow := do
  let term ← nonEmptyText options options.lexiconTermField row.2 row.1.term
  let category ← nonEmptyText options options.lexiconCategoryField row.2 row.1.category
  let weight ← weightOfCell parseFloat options row.2 row.1.weight
  return ⟨term, category, weight⟩

/-- `_lexicon_rows`. -/
def lexiconRows (lexicon : List LexiconCells) : Except Failure (List LexiconRow) :=
  lexicon.zipIdx.mapM (lexiconRow parseFloat options)

/-- `_normalize`. -/
def normalize (value : String) : String := casing.casefold (stripText value)

/-- A row of `_lexicon_frame`. -/
structure LexiconEntry where
  key : String
  category : String
  weight : ℚ
  deriving DecidableEq

/-- The normalized row. -/
def LexiconRow.entry (row : LexiconRow) : LexiconEntry :=
  ⟨normalize casing row.term, row.category, row.weight⟩

/-- `_lexicon_frame`. Without conflicts, the rows of one key and category are the same. -/
def lexiconFrame (rows : List LexiconRow) : Except Failure (List LexiconEntry) :=
  let entries := rows.map (LexiconRow.entry casing)
  if ∃ e ∈ entries, ∃ e' ∈ entries, e.key = e'.key ∧ e.category = e'.category ∧ e.weight ≠ e'.weight then
    valueError "Tone lexicon has conflicting weights for the same term and category"
  else .ok entries.dedup

end Lexicon

/-! ### Tokens -/

section Tokens

variable (casing : Casing) (options : ToneOptions)

/-- The match key of a token. -/
def Token.key (token : Token) : Option String :=
  token.matchText.map fun text => casing.lower (stripText text)

/-- `__is_negator`, where null counts as false. -/
def Token.isNegator (token : Token) : Bool :=
  (token.key casing).any (· ∈ options.negators.map (normalize casing))

/-- The signs of sorted tokens, of which the ones before are given, the last one first. The shifts by
`1` to `negation_window` over its group bring the last rows of its group to a token. -/
def signs (before : List Token) : List Token → List (Token × ℚ)
  | [] => []
  | token :: rest =>
    let sentence := before.filter fun other => token.SameSentence other.toPosition
    let previous := sentence.take options.negationWindow
    (token, if previous.any (Token.isNegator casing options) then -1 else 1) ::
      signs (token :: before) rest

/-- `_prepare_tokens`: the tokens with their signs. -/
def prepareTokens (tokens : List Token) : List (Token × ℚ) :=
  if options.negation then
    signs casing options [] (sortTokens Token.toPosition tokens)
  else tokens.map fun token => (token, 1)

/-- A row of `_matched_tokens`. -/
structure Matched where
  documentId : WithBot String
  tokenIndex : ℤ
  category : String
  weight : ℚ
  sign : ℚ

/-- The rows for one token. -/
def matchesOf (frame : List LexiconEntry) (prepared : Token × ℚ) : List Matched :=
  (frame.filter fun entry => prepared.1.key casing = some entry.key).map fun entry =>
    ⟨prepared.1.documentId, prepared.1.tokenIndex, entry.category, entry.weight, prepared.2⟩

/-- `_matched_tokens`. -/
def matchedTokens (prepared : List (Token × ℚ)) (frame : List LexiconEntry) : List Matched :=
  prepared.flatMap (matchesOf casing frame)

end Tokens

/-! ### Rows -/

/-- A row of the output, with the hits and the score of each emitted category. -/
structure ToneRow (μ : Type) where
  documentId : WithBot String
  categories : List (ℕ × Option ℚ)
  tokenCount : ℕ
  matchedTokenCount : ℕ
  coverage : Option ℚ
  status : String
  metadata : Option μ
  identity : Option (List (Option String))
  lexiconVersion : String

section Run

variable {μ : Type} (casing : Casing) (parseFloat : String → Option (Option ℚ))
  (reprFloat : ℚ → String) (fingerprint : List (String ×ₗ String ×ₗ String) → String)
  (options : ToneOptions)

/-- `tone_lexicon_fingerprint`. -/
def toneLexiconFingerprint (rows : List LexiconRow) : String :=
  fingerprint (sortedSet (rows.map fun row => toLex (row.term, toLex (row.category, reprFloat row.weight))))

/-- `_document_universe`: the documents, with the fields that they pass through. -/
def documentUniverse (tokens : List Token) (documents : Option (List (WithBot String × μ))) :
    Except Failure (List (WithBot String × Option μ)) :=
  match documents with
  | none =>
    let ids := (tokens.map fun token => token.documentId).dedup
    if ⊥ ∈ ids then
      valueError ("Tokens model '" ++ options.tokens ++ "' column '" ++ options.documentIdField ++
        "' contains null values")
    else .ok (ids.map fun document => (document, none))
  | some documents =>
    if ⊥ ∈ documents.map Prod.fst then
      valueError ("Documents model '" ++ options.documents ++ "' column '" ++ options.documentsIdField ++
        "' contains null values")
    else if ¬ (documents.map Prod.fst).Nodup then
      valueError ("Documents model '" ++ options.documents ++ "' column '" ++ options.documentsIdField ++
        "' contains duplicate values")
    else .ok (documents.map fun document => (document.1, some document.2))

/-- `_category_scores`: the hits and the raw score of a category. -/
def categoryScore (matched : List Matched) (document : WithBot String) (category : String) : ℕ × ℚ :=
  let rows := matched.filter fun m => m.documentId = document
  (rows.countP fun m => m.category = category,
    (rows.map fun m => if m.category = category then m.weight * m.sign else 0).sum)

/-- `_coverage`: the tokens of a document that match. -/
def matchedTokenCount (matched : List Matched) (document : WithBot String) : ℕ :=
  ((matched.filter fun m => m.documentId = document).map Matched.tokenIndex).dedup.length

/-- The joined row of a document, with what `_finalize` makes of it. -/
def finalizeRow (prepared : List (Token × ℚ)) (matched : List Matched) (lexiconVersion : String)
    (document : WithBot String × Option μ) : ToneRow μ :=
  let tokenCount := (prepared.filter fun p => p.1.documentId = document.1).length
  let sufficient := max options.minTokens 1 ≤ tokenCount
  { documentId := document.1
    categories := options.emit.map fun category =>
      let score := categoryScore matched document.1 category
      (score.1, if sufficient then some (score.2 / tokenCount) else none)
    tokenCount
    matchedTokenCount := matchedTokenCount matched document.1
    coverage := if sufficient then some (matchedTokenCount matched document.1 / tokenCount) else none
    status := if sufficient then "scored" else "insufficient_text"
    metadata := document.2
    identity := (prepared.find? fun p => p.1.documentId = document.1).map fun p => p.1.identity
    lexiconVersion }

/-- `run_tone`. -/
def runTone (tokens : List Token) (lexicon : List LexiconCells)
    (documents : Option (List (WithBot String × μ))) : Except Failure (List (ToneRow μ)) := do
  let rows ← lexiconRows parseFloat options lexicon
  let lexiconVersion := toneLexiconFingerprint reprFloat fingerprint rows
  let frame ← lexiconFrame casing rows
  let found ← documentUniverse options tokens documents
  if found.isEmpty then return []
  else if ∃ token ∈ tokens, ∃ language ∈ token.language, language ≠ options.language then
    valueError ("Tone scoring is configured for language '" ++ options.language ++
      "' but the tokens carry other languages")
  else
    let prepared := prepareTokens casing options tokens
    let matched := matchedTokens casing prepared frame
    if ∃ t ∈ tokens, ∃ u ∈ tokens, t.documentId = u.documentId ∧ t.identity ≠ u.identity then
      valueError ("Model '" ++ options.tokens ++ "' has documents whose token rows disagree on " ++
        "NLP identity")
    else
      return (found.map (finalizeRow options prepared matched lexiconVersion)).insertionSort
        fun row row' => row.documentId ≤ row'.documentId

end Run

/-! ### Rows by counts -/

section Counts

variable {μ : Type} (same : String → String → Bool) (options : ToneOptions)

/-- The token is, for the lexicon, a text of a category. -/
def hit (rows : List LexiconRow) (category : String) (token : Token) : Bool :=
  rows.any fun row => row.category = category && token.matchText.any (same row.term)

/-- The token is a text of some category. -/
def hitAny (rows : List LexiconRow) (token : Token) : Bool :=
  rows.any fun row => token.matchText.any (same row.term)

/-- The weight of a hit. -/
def hitWeight (rows : List LexiconRow) (category : String) (token : Token) : ℚ :=
  ((rows.find? fun row => row.category = category && token.matchText.any (same row.term)).map
    LexiconRow.weight).getD 0

/-- The other token is one of the last `negation_window` before the token in its sentence. -/
def InWindow (tokens : List Token) (token other : Token) : Prop :=
  token.SameSentence other.toPosition ∧ other.tokenIndex < token.tokenIndex ∧
    (tokens.countP fun between =>
      token.SameSentence between.toPosition ∧ other.tokenIndex < between.tokenIndex ∧
      between.tokenIndex < token.tokenIndex) < options.negationWindow

instance (tokens : List Token) (token other : Token) : Decidable (InWindow options tokens token other) :=
  inferInstanceAs (Decidable (_ ∧ _ ∧ _))

/-- One of the negators. -/
def negator (token : Token) : Bool := options.negators.any fun n => token.matchText.any (same n)

/-- A negator stands in the window before the token. -/
def negated (tokens : List Token) (token : Token) : Bool :=
  options.negation &&
    tokens.any fun other => InWindow options tokens token other && negator same options other

/-- The sign with which a hit counts. -/
def signOf (tokens : List Token) (token : Token) : ℚ := if negated same options tokens token then -1 else 1

/-- The weighted hits of a category in a document. -/
def rawScore (rows : List LexiconRow) (tokens : List Token) (document : WithBot String)
    (category : String) : ℚ :=
  ((tokens.filter fun token => token.documentId = document).map fun token =>
    if hit same rows category token then
      hitWeight same rows category token * signOf same options tokens token
    else 0).sum

/-- The row of a document. -/
def toneRow (rows : List LexiconRow) (tokens : List Token) (lexiconVersion : String)
    (document : WithBot String × Option μ) : ToneRow μ :=
  let tokenCount := tokens.countP fun token => token.documentId = document.1
  let matched := tokens.countP fun token => token.documentId = document.1 ∧ hitAny same rows token
  let sufficient := max options.minTokens 1 ≤ tokenCount
  { documentId := document.1
    categories := options.emit.map fun category =>
      (tokens.countP fun token => token.documentId = document.1 ∧ hit same rows category token,
        if sufficient then some (rawScore same options rows tokens document.1 category / tokenCount)
        else none)
    tokenCount
    matchedTokenCount := matched
    coverage := if sufficient then some (matched / tokenCount) else none
    status := if sufficient then "scored" else "insufficient_text"
    metadata := document.2
    identity := (tokens.find? fun token => token.documentId = document.1).map Token.identity
    lexiconVersion }

/-- The rows of some documents, by their ids. -/
def toneRows (rows : List LexiconRow) (tokens : List Token) (lexiconVersion : String)
    (documents : List (WithBot String × Option μ)) : List (ToneRow μ) :=
  (documents.map (toneRow same options rows tokens lexiconVersion)).insertionSort
    fun row row' => row.documentId ≤ row'.documentId

end Counts

/-! ### Windows -/

section Windows

/-- The last items of an ascending list are those with few items after them. -/
theorem mem_take_reverse_iff {α : Type} {f : α → ℤ} {xs : List α} (h : xs.Pairwise fun a b => f a < f b)
    {u : α} {w : ℕ} : u ∈ xs.reverse.take w ↔ u ∈ xs ∧ (xs.countP fun v => f u < f v) < w := by
  induction xs using List.reverseRecOn generalizing w with
  | nil => simp
  | append_singleton xs x ih =>
    rw [List.pairwise_append] at h
    obtain ⟨hxs, -, hlt⟩ := h
    have hlast : ∀ u ∈ xs, f u < f x := fun u hu => hlt u hu x (List.mem_singleton_self x)
    have hnone : (xs.countP fun v => f x < f v) = 0 :=
      List.countP_eq_zero.mpr fun v hv => by simpa using (hlast v hv).le
    rw [List.reverse_append, List.reverse_singleton, List.singleton_append]
    cases w with
    | zero => simp
    | succ w =>
      rw [List.take_succ_cons, List.mem_cons, ih hxs, List.mem_append, List.mem_singleton,
        List.countP_append, List.countP_singleton]
      constructor
      · rintro (rfl | ⟨hu, hcount⟩)
        · refine ⟨.inr rfl, ?_⟩
          rw [hnone]
          simp
        · refine ⟨.inl hu, ?_⟩
          rw [if_pos (decide_eq_true (hlast u hu))]
          exact Nat.succ_lt_succ hcount
      · rintro ⟨hu | rfl, hcount⟩
        · rw [if_pos (decide_eq_true (hlast u hu))] at hcount
          exact .inr ⟨hu, Nat.lt_of_succ_lt_succ hcount⟩
        · exact .inl rfl

variable {casing : Casing} {options : ToneOptions} {tokens sorted before rest : List Token} {token : Token}

/-- The keys of a term or negator and of a text are equal. -/
def sameKey (casing : Casing) (term text : String) : Bool :=
  normalize casing term = casing.lower (stripText text)

theorem isNegator_eq : Token.isNegator casing options token = negator (sameKey casing) options token := by
  rw [Token.isNegator, Token.key, negator]
  cases token.matchText with
  | none => simp
  | some text =>
    rw [Bool.eq_iff_iff]
    simp [sameKey]

/-- What the shifts bring to a token of the sorted table. -/
theorem mem_previous (hperm : (before.reverse ++ token :: rest).Perm tokens)
    (hsorted : (before.reverse ++ token :: rest).Pairwise fun t u => t.sortKey < u.sortKey) {other : Token} :
    other ∈ (before.filter fun other => token.SameSentence other.toPosition).take options.negationWindow ↔
      other ∈ tokens ∧ InWindow options tokens token other := by
  have hreverse : before.filter (fun other => token.SameSentence other.toPosition) =
      (before.reverse.filter fun other => token.SameSentence other.toPosition).reverse := by
    rw [List.filter_reverse, List.reverse_reverse]
  obtain ⟨hbefore, hafter, hbelow⟩ := List.pairwise_append.mp hsorted
  -- the tokens of the sentence before the token are those below it
  have hmem : ∀ {other}, other ∈ before.reverse.filter (fun other => token.SameSentence other.toPosition) ↔
      other ∈ tokens ∧ token.SameSentence other.toPosition ∧ other.tokenIndex < token.tokenIndex := by
    intro other
    rw [List.mem_filter, decide_eq_true_iff, ← hperm.mem_iff, List.mem_append]
    constructor
    · rintro ⟨hother, hsame⟩
      have hlt := hbelow other hother token List.mem_cons_self
      exact ⟨.inl hother, hsame, (Position.index_lt_iff hsame.symm).mp hlt⟩
    · rintro ⟨hother | hother, hsame, hlt⟩
      · exact ⟨hother, hsame⟩
      · rcases List.mem_cons.mp hother with rfl | hother
        · exact absurd hlt (lt_irrefl _)
        · have hgt := (Position.index_lt_iff hsame).mp ((List.pairwise_cons.mp hafter).1 other hother)
          exact absurd hlt hgt.not_gt
  have hascending : (before.reverse.filter fun other =>
      token.SameSentence other.toPosition).Pairwise fun t u =>
        t.tokenIndex < u.tokenIndex := by
    refine (hbefore.filter _).imp_of_mem fun {t u} ht hu hlt => ?_
    have ht := of_decide_eq_true (List.mem_filter.mp ht).2
    have hu := of_decide_eq_true (List.mem_filter.mp hu).2
    exact (Position.index_lt_iff (ht.symm.trans hu)).mp hlt
  have hcount : ∀ other : Token, (tokens.countP fun between => token.SameSentence between.toPosition ∧
      other.tokenIndex < between.tokenIndex ∧ between.tokenIndex < token.tokenIndex) =
      (before.reverse.filter fun other => token.SameSentence other.toPosition).countP fun between =>
        other.tokenIndex < between.tokenIndex := by
    intro other
    have hnone : ((token :: rest).countP fun between => token.SameSentence between.toPosition ∧
        other.tokenIndex < between.tokenIndex ∧ between.tokenIndex < token.tokenIndex) = 0 := by
      refine List.countP_eq_zero.mpr fun between hbetween hin => ?_
      obtain ⟨hsame, -, hlt⟩ := of_decide_eq_true hin
      rcases List.mem_cons.mp hbetween with rfl | hbetween
      · exact lt_irrefl _ hlt
      · exact ((Position.index_lt_iff hsame).mp
          ((List.pairwise_cons.mp hafter).1 between hbetween)).not_gt hlt
    rw [← hperm.countP_eq, List.countP_append, hnone, Nat.add_zero, List.countP_filter]
    refine List.countP_congr fun between hbetween => ?_
    have hlt : token.SameSentence between.toPosition → between.tokenIndex < token.tokenIndex := fun hsame =>
      (hmem.mp (List.mem_filter.mpr ⟨hbetween, decide_eq_true hsame⟩)).2.2
    simp only [Bool.and_eq_true, decide_eq_true_iff]
    tauto
  rw [hreverse, mem_take_reverse_iff hascending, hmem, InWindow, hcount]
  tauto

/-- The signs of the prepared tokens. -/
theorem signs_eq (hnegation : options.negation = true) (hperm : (before.reverse ++ rest).Perm tokens)
    (hsorted : (before.reverse ++ rest).Pairwise fun t u => t.sortKey < u.sortKey) :
    signs casing options before rest =
      rest.map fun token => (token, signOf (sameKey casing) options tokens token) := by
  induction rest generalizing before with
  | nil => rfl
  | cons token rest ih =>
    have hsplit : before.reverse ++ token :: rest = (token :: before).reverse ++ rest := by
      rw [List.reverse_cons, List.append_assoc, List.singleton_append]
    rw [signs, List.map_cons, ih (hsplit ▸ hperm) (hsplit ▸ hsorted)]
    have hnegated : ((before.filter fun other => token.SameSentence other.toPosition).take
        options.negationWindow).any (Token.isNegator casing options) =
        negated (sameKey casing) options tokens token := by
      rw [Bool.eq_iff_iff, List.any_eq_true, negated, hnegation, Bool.true_and, List.any_eq_true]
      simp only [mem_previous hperm hsorted, isNegator_eq, Bool.and_eq_true, decide_eq_true_iff, and_assoc]
    simp only [hnegated, signOf]

end Windows

/-! ### Matches -/

section Matches

variable {casing : Casing} {options : ToneOptions} {rows : List LexiconRow} {frame : List LexiconEntry}
  {tokens : List Token} {token : Token} {category : String} {document : WithBot String}

/-- The terms of one key and category have one weight. -/
def Consistent (casing : Casing) (rows : List LexiconRow) : Prop :=
  ∀ row ∈ rows, ∀ row' ∈ rows, normalize casing row.term = normalize casing row'.term →
    row.category = row'.category → row.weight = row'.weight

theorem lexiconFrame_eq_ok : lexiconFrame casing rows = .ok frame ↔
    frame = (rows.map (LexiconRow.entry casing)).dedup ∧ Consistent casing rows := by
  unfold lexiconFrame Consistent
  dsimp only
  split
  · rename_i hconflict
    refine ⟨nofun, fun ⟨_, hconsistent⟩ => ?_⟩
    obtain ⟨e, he, e', he', hkey, hcategory, hweight⟩ := hconflict
    obtain ⟨row, hrow, rfl⟩ := List.mem_map.mp he
    obtain ⟨row', hrow', rfl⟩ := List.mem_map.mp he'
    exact absurd (hconsistent row hrow row' hrow' hkey hcategory) hweight
  · rename_i hconflict
    refine ⟨fun h => ⟨(Except.ok.inj h).symm, fun row hrow row' hrow' hkey hcategory => ?_⟩, fun h => ?_⟩
    · by_contra hweight
      exact hconflict ⟨_, List.mem_map_of_mem hrow, _, List.mem_map_of_mem hrow', hkey, hcategory, hweight⟩
    · rw [h.1]

theorem key_eq_some {key : String} : token.key casing = some key ↔
    ∃ text ∈ token.matchText, casing.lower (stripText text) = key := by
  rw [Token.key, Option.map_eq_some_iff]
  rfl

theorem any_iff {α : Type} {o : Option α} {p : α → Bool} : o.any p = true ↔ ∃ a ∈ o, p a = true := by
  cases o <;> simp

theorem hit_iff {same : String → String → Bool} : hit same rows category token = true ↔
    ∃ row ∈ rows, row.category = category ∧ ∃ text ∈ token.matchText, same row.term text = true := by
  simp only [hit, List.any_eq_true, Bool.and_eq_true, decide_eq_true_iff, any_iff]

theorem hitAny_iff {same : String → String → Bool} : hitAny same rows token = true ↔
    ∃ row ∈ rows, ∃ text ∈ token.matchText, same row.term text = true := by
  simp only [hitAny, List.any_eq_true, any_iff]

/-- The entries that a token matches in a category: one, or none. -/
theorem entries_eq (hframe : lexiconFrame casing rows = .ok frame) :
    (frame.filter fun entry => token.key casing = some entry.key).filter (fun entry =>
        entry.category = category) =
      if hit (sameKey casing) rows category token then
        [⟨((token.key casing).getD ""), category, hitWeight (sameKey casing) rows category token⟩]
      else [] := by
  obtain ⟨rfl, hconsistent⟩ := lexiconFrame_eq_ok.mp hframe
  have hmem : ∀ entry, entry ∈ (((rows.map (LexiconRow.entry casing)).dedup.filter fun entry =>
      token.key casing = some entry.key).filter fun entry => entry.category = category) ↔
      ∃ row ∈ rows, row.category = category ∧ token.key casing = some (normalize casing row.term) ∧
        entry = row.entry casing := by
    intro entry
    simp only [List.mem_filter, List.mem_dedup, List.mem_map, decide_eq_true_iff]
    constructor
    · rintro ⟨⟨⟨row, hrow, rfl⟩, hkey⟩, hcategory⟩
      exact ⟨row, hrow, hcategory, hkey, rfl⟩
    · rintro ⟨row, hrow, hcategory, hkey, rfl⟩
      exact ⟨⟨⟨row, hrow, rfl⟩, hkey⟩, hcategory⟩
  have hkey : ∀ row : LexiconRow, token.key casing = some (normalize casing row.term) ↔
      token.matchText.any (sameKey casing row.term) = true := by
    intro row
    rw [key_eq_some, any_iff]
    refine exists_congr fun text => and_congr_right fun _ => ?_
    rw [sameKey, decide_eq_true_iff, eq_comm]
  split
  · rename_i hhit
    obtain ⟨row, hfound⟩ : ∃ row, rows.find? (fun row => row.category = category &&
        token.matchText.any (sameKey casing row.term)) = some row :=
      Option.isSome_iff_exists.mp (List.find?_isSome.mpr (List.any_eq_true.mp hhit))
    have hrow := List.mem_of_find?_eq_some hfound
    have hpass := List.find?_some hfound
    obtain ⟨hcategory, hany⟩ := Bool.and_eq_true_iff.mp hpass
    have hcategory := of_decide_eq_true hcategory
    have hany := (hkey row).mpr hany
    refine List.perm_singleton.mp ((List.perm_ext_iff_of_nodup
      (((List.nodup_dedup _).filter _).filter _) (List.nodup_singleton _)).mpr fun entry => ?_)
    rw [hmem, List.mem_singleton, hitWeight, hfound, hany]
    constructor
    · rintro ⟨row', hrow', hcategory', hkey', rfl⟩
      have hterm := Option.some.inj hkey'
      have hweight := hconsistent row hrow row' hrow' hterm (hcategory.trans hcategory'.symm)
      rw [LexiconRow.entry, ← hterm, ← hweight, hcategory']
      rfl
    · rintro rfl
      exact ⟨row, hrow, hcategory, rfl, by rw [LexiconRow.entry, hcategory]; rfl⟩
  · rename_i hhit
    refine List.eq_nil_iff_forall_not_mem.mpr fun entry hentry => hhit ?_
    obtain ⟨row, hrow, hcategory, hany, -⟩ := (hmem entry).mp hentry
    exact List.any_eq_true.mpr ⟨row, hrow, by simp [hcategory, (hkey row).mp hany]⟩

theorem sum_map_ite_filter {α : Type} (xs : List α) (p : α → Prop) [DecidablePred p] (f : α → ℚ) :
    (xs.map fun x => if p x then f x else 0).sum = ((xs.filter fun x => p x).map f).sum := by
  induction xs with
  | nil => rfl
  | cons x xs ih =>
    rw [List.map_cons, List.sum_cons, ih, List.filter_cons]
    by_cases hx : p x <;> simp [hx]

/-- What a token adds to the score of a category. -/
theorem categoryScore_matchesOf (hframe : lexiconFrame casing rows = .ok frame) (sign : ℚ) :
    categoryScore (matchesOf casing frame (token, sign)) document category =
      (if token.documentId = document ∧ hit (sameKey casing) rows category token then 1 else 0,
        if token.documentId = document ∧ hit (sameKey casing) rows category token then
          hitWeight (sameKey casing) rows category token * sign
        else 0) := by
  by_cases hdocument : token.documentId = document
  · have hall : (matchesOf casing frame (token, sign)).filter (fun m => m.documentId = document) =
        matchesOf casing frame (token, sign) := by
      refine List.filter_eq_self.mpr fun m hm => ?_
      obtain ⟨entry, -, rfl⟩ := List.mem_map.mp hm
      exact decide_eq_true hdocument
    rw [categoryScore, hall, sum_map_ite_filter, matchesOf, List.countP_map, List.countP_eq_length_filter,
      List.filter_map]
    simp only [Function.comp_def, entries_eq hframe, hdocument, true_and]
    split <;> simp
  · have hnone : (matchesOf casing frame (token, sign)).filter (fun m => m.documentId = document) = [] := by
      refine List.filter_eq_nil_iff.mpr fun m hm => ?_
      obtain ⟨entry, -, rfl⟩ := List.mem_map.mp hm
      simpa using hdocument
    rw [categoryScore, hnone]
    simp [hdocument]

theorem categoryScore_append (matched matched' : List Matched) :
    categoryScore (matched ++ matched') document category =
      ((categoryScore matched document category).1 + (categoryScore matched' document category).1,
        (categoryScore matched document category).2 + (categoryScore matched' document category).2) := by
  simp only [categoryScore, List.filter_append, List.countP_append, List.map_append, List.sum_append]

/-- The score of a category, by its hits. -/
theorem categoryScore_eq (hframe : lexiconFrame casing rows = .ok frame) (sign : Token → ℚ) :
    categoryScore (matchedTokens casing (tokens.map fun token => (token, sign token)) frame) document
        category =
      (tokens.countP fun token => token.documentId = document ∧ hit (sameKey casing) rows category token,
        ((tokens.filter fun token => token.documentId = document).map fun token =>
          if hit (sameKey casing) rows category token then
            hitWeight (sameKey casing) rows category token * sign token
          else 0).sum) := by
  induction tokens with
  | nil => rfl
  | cons token tokens ih =>
    have hcons : matchedTokens casing ((token :: tokens).map fun token => (token, sign token)) frame =
        matchesOf casing frame (token, sign token) ++
          matchedTokens casing (tokens.map fun token => (token, sign token)) frame := rfl
    rw [hcons, categoryScore_append, ih, categoryScore_matchesOf hframe, List.countP_cons, List.filter_cons]
    by_cases hdocument : token.documentId = document
    · by_cases hhit : hit (sameKey casing) rows category token <;>
        simp [hdocument, hhit, Nat.add_comm]
    · simp [hdocument]

/-- The matched rows are those of the hits. -/
theorem mem_matchedTokens {sign : Token → ℚ} {m : Matched} :
    m ∈ matchedTokens casing (tokens.map fun token => (token, sign token)) frame ↔
      ∃ token ∈ tokens, ∃ entry ∈ frame, token.key casing = some entry.key ∧
        m = ⟨token.documentId, token.tokenIndex, entry.category, entry.weight, sign token⟩ := by
  simp only [matchedTokens, matchesOf, List.mem_flatMap, List.mem_map, List.mem_filter,
    decide_eq_true_iff]
  constructor
  · rintro ⟨_, ⟨token, htoken, rfl⟩, entry, ⟨hentry, hkey⟩, rfl⟩
    exact ⟨token, htoken, entry, hentry, hkey, rfl⟩
  · rintro ⟨token, htoken, entry, hentry, hkey, rfl⟩
    exact ⟨_, ⟨token, htoken, rfl⟩, entry, ⟨hentry, hkey⟩, rfl⟩

theorem exists_entry_iff (hframe : lexiconFrame casing rows = .ok frame) :
    (∃ entry ∈ frame, token.key casing = some entry.key ∧ entry.category = category) ↔
      hit (sameKey casing) rows category token = true := by
  have hentries : ∀ entry, (entry ∈ frame ∧ token.key casing = some entry.key ∧ entry.category = category) ↔
      entry ∈ (frame.filter fun entry => token.key casing = some entry.key).filter fun entry =>
        entry.category = category := by
    intro entry
    simp only [List.mem_filter, decide_eq_true_iff, and_assoc]
  simp only [hentries, entries_eq hframe]
  split
  · rename_i hhit
    exact iff_of_true ⟨_, List.mem_singleton_self _⟩ hhit
  · rename_i hhit
    exact iff_of_false (fun ⟨_, h⟩ => List.not_mem_nil h) hhit

/-- The matched tokens of a document. -/
theorem matchedTokenCount_eq (hframe : lexiconFrame casing rows = .ok frame) {sign : Token → ℚ}
    (hdistinct : DistinctPositions Token.toPosition tokens) :
    matchedTokenCount (matchedTokens casing (tokens.map fun token => (token, sign token)) frame) document =
      tokens.countP fun token => token.documentId = document ∧ hitAny (sameKey casing) rows token := by
  have hany : ∀ {token : Token}, (∃ entry ∈ frame, token.key casing = some entry.key) ↔
      hitAny (sameKey casing) rows token = true := by
    intro token
    constructor
    · rintro ⟨entry, hentry, hkey⟩
      obtain ⟨row, hrow, -, htext⟩ := hit_iff.mp ((exists_entry_iff hframe).mp ⟨entry, hentry, hkey, rfl⟩)
      exact hitAny_iff.mpr ⟨row, hrow, htext⟩
    · intro h
      obtain ⟨row, hrow, htext⟩ := hitAny_iff.mp h
      obtain ⟨entry, hentry, hkey, -⟩ := (exists_entry_iff hframe).mpr
        (hit_iff.mpr ⟨row, hrow, rfl, htext⟩)
      exact ⟨entry, hentry, hkey⟩
  have hnodup : ((tokens.filter fun token => token.documentId = document ∧
      hitAny (sameKey casing) rows token).map fun token => token.tokenIndex).Nodup := by
    rw [List.Nodup, List.pairwise_map]
    refine ((List.pairwise_map.mp hdistinct).filter _).imp_of_mem fun {t u} ht hu hne heq => hne ?_
    have ht := (of_decide_eq_true (List.mem_filter.mp ht).2).1
    have hu := (of_decide_eq_true (List.mem_filter.mp hu).2).1
    exact Prod.ext (ht.trans hu.symm) heq
  have hperm := (List.perm_ext_iff_of_nodup (List.nodup_dedup
    (((matchedTokens casing (tokens.map fun token => (token, sign token)) frame).filter fun m =>
      m.documentId = document).map Matched.tokenIndex)) hnodup).mpr fun index => by
    simp only [List.mem_dedup, List.mem_map, List.mem_filter, mem_matchedTokens, decide_eq_true_iff, ← hany]
    constructor
    · rintro ⟨_, ⟨⟨token, htoken, entry, hentry, hkey, rfl⟩, hdocument⟩, rfl⟩
      exact ⟨token, ⟨htoken, hdocument, entry, hentry, hkey⟩, rfl⟩
    · rintro ⟨token, ⟨htoken, hdocument, entry, hentry, hkey⟩, rfl⟩
      exact ⟨_, ⟨⟨token, htoken, entry, hentry, hkey, rfl⟩, hdocument⟩, rfl⟩
  rw [matchedTokenCount, hperm.length_eq, List.length_map, List.countP_eq_length_filter]

end Matches

/-! ### Rows in any order -/

section Orders

variable {μ : Type} {casing : Casing} {same : String → String → Bool} {options : ToneOptions}
  {rows rows' : List LexiconRow} {frame : List LexiconEntry} {tokens tokens' : List Token} {token : Token}
  {category : String} {document : WithBot String × Option μ} {lexiconVersion : String}

/-- The tokens of a document name one tokenization. -/
def OneIdentity (tokens : List Token) : Prop :=
  ∀ t ∈ tokens, ∀ u ∈ tokens, t.documentId = u.documentId → t.identity = u.identity

/-- The rows that one text hits in a category have one weight. -/
def OneWeight (same : String → String → Bool) (rows : List LexiconRow) : Prop :=
  ∀ row ∈ rows, ∀ row' ∈ rows, ∀ text, same row.term text = true → same row'.term text = true →
    row.category = row'.category → row.weight = row'.weight

theorem Consistent.oneWeight (h : Consistent casing rows) : OneWeight (sameKey casing) rows := by
  intro row hrow row' hrow' text hsame hsame' hcategory
  exact h row hrow row' hrow' ((of_decide_eq_true hsame).trans (of_decide_eq_true hsame').symm) hcategory

theorem hit_perm (hrows : rows.Perm rows') :
    hit same rows category token = hit same rows' category token := by
  rw [Bool.eq_iff_iff, hit_iff, hit_iff]
  simp only [hrows.mem_iff]

theorem hitAny_perm (hrows : rows.Perm rows') : hitAny same rows token = hitAny same rows' token := by
  rw [Bool.eq_iff_iff, hitAny_iff, hitAny_iff]
  simp only [hrows.mem_iff]

theorem hitWeight_perm (hrows : rows.Perm rows') (hweight : OneWeight same rows) :
    hitWeight same rows category token = hitWeight same rows' category token := by
  have hfound : ∀ {rows : List LexiconRow} {row}, (rows.find? fun row => row.category = category &&
      token.matchText.any (same row.term)) = some row →
      row ∈ rows ∧ row.category = category ∧ ∃ text ∈ token.matchText, same row.term text = true := by
    intro rows row h
    have hpass := List.find?_some h
    obtain ⟨hcategory, hany⟩ := Bool.and_eq_true_iff.mp hpass
    exact ⟨List.mem_of_find?_eq_some h, of_decide_eq_true hcategory, any_iff.mp hany⟩
  rw [hitWeight, hitWeight]
  cases h : rows.find? fun row => row.category = category && token.matchText.any (same row.term) with
  | none =>
    rw [List.find?_eq_none.mpr fun row hrow => List.find?_eq_none.mp h row (hrows.mem_iff.mpr hrow)]
  | some row =>
    cases h' : rows'.find? fun row => row.category = category && token.matchText.any (same row.term) with
    | none =>
      have hpass := List.find?_some h
      exact absurd hpass (List.find?_eq_none.mp h' row (hrows.mem_iff.mp (List.mem_of_find?_eq_some h)))
    | some row' =>
      obtain ⟨hrow, hcategory, text, htext, hsame⟩ := hfound h
      obtain ⟨hrow', hcategory', text', htext', hsame'⟩ := hfound h'
      obtain rfl := Option.mem_unique htext htext'
      exact hweight row hrow row' (hrows.mem_iff.mpr hrow') text hsame hsame'
        (hcategory.trans hcategory'.symm)

theorem negated_iff : negated same options tokens token = true ↔ options.negation = true ∧
    ∃ other ∈ tokens, InWindow options tokens token other ∧ negator same options other = true := by
  simp only [negated, Bool.and_eq_true, List.any_eq_true, decide_eq_true_iff]

theorem signOf_perm (htokens : tokens.Perm tokens') :
    signOf same options tokens token = signOf same options tokens' token := by
  have hwindow : ∀ other, InWindow options tokens token other ↔ InWindow options tokens' token other := by
    intro other
    rw [InWindow, InWindow, htokens.countP_eq]
  have hnegated : negated same options tokens token = negated same options tokens' token := by
    rw [Bool.eq_iff_iff, negated_iff, negated_iff]
    simp only [hwindow, htokens.mem_iff]
  rw [signOf, signOf, hnegated]

theorem find_identity_perm (htokens : tokens.Perm tokens') (hidentity : OneIdentity tokens)
    {id : WithBot String} :
    (tokens.find? fun token => token.documentId = id).map Token.identity =
      (tokens'.find? fun token => token.documentId = id).map Token.identity := by
  cases h : tokens.find? fun token => token.documentId = id with
  | none =>
    rw [List.find?_eq_none.mpr fun t ht => List.find?_eq_none.mp h t (htokens.mem_iff.mpr ht)]
  | some t =>
    have ht := List.find?_some h
    have hmem := List.mem_of_find?_eq_some h
    cases h' : tokens'.find? fun token => token.documentId = id with
    | none => exact absurd ht (List.find?_eq_none.mp h' t (htokens.mem_iff.mp hmem))
    | some u =>
      have hu := List.find?_some h'
      have hmem' := htokens.mem_iff.mpr (List.mem_of_find?_eq_some h')
      exact congrArg some
        (hidentity t hmem u hmem' ((of_decide_eq_true ht).trans (of_decide_eq_true hu).symm))

/-- A row does not depend on the order of tokens and lexicon. -/
theorem toneRow_perm (htokens : tokens.Perm tokens') (hrows : rows.Perm rows')
    (hidentity : OneIdentity tokens) (hweight : OneWeight same rows) :
    toneRow same options rows tokens lexiconVersion document =
      toneRow same options rows' tokens' lexiconVersion document := by
  have hraw : ∀ category, rawScore same options rows tokens document.1 category =
      rawScore same options rows' tokens' document.1 category := by
    intro category
    rw [rawScore, rawScore]
    simp only [hit_perm hrows, hitWeight_perm hrows hweight, signOf_perm htokens]
    exact ((htokens.filter _).map _).sum_eq
  simp only [toneRow, hraw, htokens.countP_eq, hit_perm hrows, hitAny_perm hrows,
    find_identity_perm htokens hidentity]

/-- The joined row is that of the counts. -/
theorem finalizeRow_eq (hdistinct : DistinctPositions Token.toPosition tokens)
    (hframe : lexiconFrame casing rows = .ok frame) :
    finalizeRow options
        (tokens.map fun token => (token, signOf (sameKey casing) options tokens token))
        (matchedTokens casing
          (tokens.map fun token => (token, signOf (sameKey casing) options tokens token)) frame)
        lexiconVersion document =
      toneRow (sameKey casing) options rows tokens lexiconVersion document := by
  have hcount : ((tokens.map fun token => (token, signOf (sameKey casing) options tokens token)).filter
      fun p => p.1.documentId = document.1).length =
      tokens.countP fun token => token.documentId = document.1 := by
    rw [List.filter_map, List.length_map, List.countP_eq_length_filter]
    rfl
  have hfind : ((tokens.map fun token => (token, signOf (sameKey casing) options tokens token)).find?
      fun p => p.1.documentId = document.1).map (fun p => p.1.identity) =
      (tokens.find? fun token => token.documentId = document.1).map Token.identity := by
    rw [List.find?_map, Option.map_map]
    rfl
  simp only [finalizeRow, hcount, hfind, categoryScore_eq hframe, matchedTokenCount_eq hframe hdistinct]
  rfl

theorem prepareTokens_eq (hdistinct : DistinctPositions Token.toPosition tokens) :
    ∃ sorted : List Token, sorted.Perm tokens ∧
      prepareTokens casing options tokens =
        sorted.map fun token => (token, signOf (sameKey casing) options sorted token) := by
  unfold prepareTokens
  split
  · rename_i hnegation
    exact ⟨_, perm_sortTokens, signs_eq hnegation (.refl _) (pairwise_sortTokens hdistinct)⟩
  · rename_i hnegation
    refine ⟨tokens, .refl _, List.map_congr_left fun token _ => ?_⟩
    simp [signOf, negated, hnegation]

end Orders

/-! ### Runs -/

section Runs

variable {μ : Type} {casing : Casing} {parseFloat : String → Option (Option ℚ)} {reprFloat : ℚ → String}
  {fingerprint : List (String ×ₗ String ×ₗ String) → String} {options : ToneOptions}
  {lexicon lexicon' : List LexiconCells} {rows rows' : List LexiconRow} {frame : List LexiconEntry}
  {tokens tokens' : List Token} {documents : Option (List (WithBot String × μ))}
  {found found' : List (WithBot String × Option μ)} {output : List (ToneRow μ)} {lexiconVersion : String}

/-- The row that the cells of a lexicon hold. -/
def Reads (parseFloat : String → Option (Option ℚ)) (cells : LexiconCells) (row : LexiconRow) : Prop :=
  cells.term = .text row.term ∧ isBlank row.term = false ∧
    cells.category = .text row.category ∧ isBlank row.category = false ∧
    if cells.weight = .null then row.weight = 1 else cells.weight.float parseFloat = some (some row.weight)

theorem nonEmptyText_eq_ok {field : String} {position : ℕ} {cell : Cell} {s : String} :
    nonEmptyText options field position cell = .ok s ↔ cell = .text s ∧ isBlank s = false := by
  cases cell with
  | text t =>
    rw [nonEmptyText]
    split
    · rename_i hblank
      refine ⟨nofun, fun ⟨heq, h⟩ => ?_⟩
      rw [Cell.text.inj heq, h] at hblank
      cases hblank
    · rename_i hblank
      constructor
      · rintro ⟨⟩
        exact ⟨rfl, Bool.eq_false_iff.mpr hblank⟩
      · rintro ⟨⟨⟩, -⟩
        rfl
  | null | boolean | number => exact ⟨nofun, nofun⟩

theorem weightOfCell_eq_ok {position : ℕ} {cell : Cell} {weight : ℚ} :
    weightOfCell parseFloat options position cell = .ok weight ↔
      if cell = .null then weight = 1 else cell.float parseFloat = some (some weight) := by
  unfold weightOfCell
  split
  · exact ⟨fun h => (Except.ok.inj h).symm, fun h => congrArg _ h.symm⟩
  · cases cell.float parseFloat with
    | none => exact ⟨nofun, nofun⟩
    | some x =>
      cases x with
      | none => exact ⟨nofun, nofun⟩
      | some x => exact ⟨fun h => by rw [Except.ok.inj h], fun h => by
          rw [Option.some.inj (Option.some.inj h)]⟩

theorem lexiconRow_eq_ok {row : LexiconCells × ℕ} {r : LexiconRow} :
    lexiconRow parseFloat options row = .ok r ↔ Reads parseFloat row.1 r := by
  unfold lexiconRow Reads
  simp only [bind_eq_ok, nonEmptyText_eq_ok, weightOfCell_eq_ok]
  constructor
  · rintro ⟨term, ⟨hterm, hblank⟩, category, ⟨hcategory, hblank'⟩, weight, hweight, h⟩
    obtain rfl := Except.ok.inj h
    exact ⟨hterm, hblank, hcategory, hblank', hweight⟩
  · rintro ⟨hterm, hblank, hcategory, hblank', hweight⟩
    exact ⟨_, ⟨hterm, hblank⟩, _, ⟨hcategory, hblank'⟩, _, hweight, rfl⟩

theorem lexiconRows_eq_ok : lexiconRows parseFloat options lexicon = .ok rows ↔
    List.Forall₂ (Reads parseFloat) lexicon rows := by
  rw [lexiconRows, mapM_eq_ok]
  simp only [lexiconRow_eq_ok]
  rw [← List.forall₂_map_left_iff, List.zipIdx_map_fst]

theorem lexiconRows_perm (h : lexicon.Perm lexicon')
    (hrows : lexiconRows parseFloat options lexicon = .ok rows) :
    ∃ rows', lexiconRows parseFloat options lexicon' = .ok rows' ∧ rows.Perm rows' := by
  obtain ⟨rows', hrows', hperm⟩ := List.perm_comp_forall₂ h.symm (lexiconRows_eq_ok.mp hrows)
  exact ⟨rows', lexiconRows_eq_ok.mpr hrows', hperm.symm⟩

/-- What is checked of the tokens once there are documents. -/
def Accepted (options : ToneOptions) (tokens : List Token) : Prop :=
  (∀ token ∈ tokens, ∀ language ∈ token.language, language = options.language) ∧ OneIdentity tokens

/-- The rows of a run are those of the counts. -/
theorem runTone_eq_ok (hdistinct : DistinctPositions Token.toPosition tokens)
    (hrows : lexiconRows parseFloat options lexicon = .ok rows)
    (hframe : lexiconFrame casing rows = .ok frame) :
    runTone casing parseFloat reprFloat fingerprint options tokens lexicon documents = .ok output ↔
      ∃ found, documentUniverse options tokens documents = .ok found ∧
        (found = [] ∨ Accepted options tokens) ∧
        output = toneRows (sameKey casing) options rows tokens
          (toneLexiconFingerprint reprFloat fingerprint rows) found := by
  obtain ⟨-, hconsistent⟩ := lexiconFrame_eq_ok.mp hframe
  obtain ⟨sorted, hperm, hprepared⟩ : ∃ sorted : List Token, sorted.Perm tokens ∧
      prepareTokens casing options tokens =
        sorted.map fun token => (token, signOf (sameKey casing) options sorted token) :=
    prepareTokens_eq hdistinct
  have hrow : ∀ version (document : WithBot String × Option μ), OneIdentity tokens →
      finalizeRow options (prepareTokens casing options tokens)
        (matchedTokens casing (prepareTokens casing options tokens) frame) version document =
      toneRow (sameKey casing) options rows tokens version document := by
    intro version document hidentity
    have hidentity' : OneIdentity sorted := fun t ht u hu =>
      hidentity t (hperm.mem_iff.mp ht) u (hperm.mem_iff.mp hu)
    rw [hprepared, finalizeRow_eq ((hperm.map _).nodup_iff.mpr hdistinct) hframe,
      toneRow_perm hperm (.refl rows) hidentity' hconsistent.oneWeight]
  rw [runTone, hrows, bind_eq_ok]
  simp only [Except.ok.injEq, exists_eq_left', hframe, bind_eq_ok]
  refine exists_congr fun found => and_congr_right fun _ => ?_
  by_cases hfound : found = []
  · subst hfound
    exact ⟨fun h => ⟨.inl rfl, (Except.ok.inj h).symm⟩, fun h => congrArg Except.ok h.2.symm⟩
  · rw [if_neg (by simpa using hfound)]
    split
    · rename_i hlanguage
      obtain ⟨token, htoken, language, hmem, hne⟩ := hlanguage
      exact ⟨nofun, fun h => absurd ((h.1.resolve_left hfound).1 token htoken language hmem) hne⟩
    split
    · rename_i hidentity
      obtain ⟨t, ht, u, hu, hdocument, hne⟩ := hidentity
      exact ⟨nofun, fun h => absurd ((h.1.resolve_left hfound).2 t ht u hu hdocument) hne⟩
    · rename_i hlanguage hidentity
      push Not at hlanguage hidentity
      have hrows : found.map (finalizeRow options (prepareTokens casing options tokens)
          (matchedTokens casing (prepareTokens casing options tokens) frame)
          (toneLexiconFingerprint reprFloat fingerprint rows)) =
          found.map (toneRow (sameKey casing) options rows tokens
            (toneLexiconFingerprint reprFloat fingerprint rows)) :=
        List.map_congr_left fun document _ => hrow _ document hidentity
      rw [hrows]
      exact ⟨fun h => ⟨.inr ⟨hlanguage, hidentity⟩, (Except.ok.inj h).symm⟩,
        fun h => congrArg Except.ok h.2.symm⟩

theorem documentUniverse_perm (htokens : tokens.Perm tokens')
    (h : documentUniverse options tokens documents = .ok found) :
    (found.map Prod.fst).Nodup ∧
      ∃ found', documentUniverse options tokens' documents = .ok found' ∧ found.Perm found' := by
  cases documents with
  | some documents =>
    refine ⟨?_, found, h, .refl _⟩
    unfold documentUniverse at h
    simp only at h
    split at h
    · cases h
    split at h
    · cases h
    · rename_i hnodup
      obtain rfl := Except.ok.inj h
      rw [List.map_map]
      exact not_not.mp hnodup
  | none =>
    have hids : (tokens.map fun token => token.documentId).dedup.Perm
        (tokens'.map fun token => token.documentId).dedup :=
      (htokens.map _).dedup
    unfold documentUniverse at h ⊢
    simp only [← hids.mem_iff] at h ⊢
    split at h
    · cases h
    · rename_i hnull
      rw [if_neg hnull]
      obtain rfl := Except.ok.inj h
      refine ⟨?_, _, rfl, hids.map _⟩
      rw [List.map_map]
      exact (List.map_id _).symm ▸ List.nodup_dedup _

/-- The rows do not depend on the order of tokens, lexicon and documents. -/
theorem toneRows_perm {same : String → String → Bool} (htokens : tokens.Perm tokens')
    (hrows : rows.Perm rows') (hfound : found.Perm found') (hids : (found.map Prod.fst).Nodup)
    (hidentity : found = [] ∨ OneIdentity tokens) (hweight : OneWeight same rows) :
    toneRows same options rows tokens lexiconVersion found =
      toneRows same options rows' tokens' lexiconVersion found' := by
  rcases hidentity with rfl | hidentity
  · obtain rfl := hfound.nil_eq
    rfl
  have hmap : ∀ found : List (WithBot String × Option μ),
      found.map (toneRow same options rows' tokens' lexiconVersion) =
        found.map (toneRow same options rows tokens lexiconVersion) := fun found =>
    List.map_congr_left fun document _ => (toneRow_perm htokens hrows hidentity hweight).symm
  have hsorted : ∀ found : List (WithBot String × Option μ),
      (toneRows same options rows tokens lexiconVersion found).Perm
        (found.map (toneRow same options rows tokens lexiconVersion)) := fun found =>
    List.perm_insertionSort _ _
  have hpairwise : ∀ found : List (WithBot String × Option μ),
      (toneRows same options rows tokens lexiconVersion found).Pairwise fun row row' =>
        row.documentId ≤ row'.documentId := fun found =>
    @List.pairwise_insertionSort _ (fun row row' : ToneRow μ => row.documentId ≤ row'.documentId) _
      ⟨fun row row' => le_total row.documentId row'.documentId⟩ ⟨fun _ _ _ => le_trans⟩ _
  have heq : toneRows same options rows' tokens' lexiconVersion found' =
      toneRows same options rows tokens lexiconVersion found' := by
    rw [toneRows, toneRows, hmap]
  rw [heq]
  have hboth := (hsorted found).trans ((hfound.map _).trans (hsorted found').symm)
  refine hboth.eq_of_pairwise (fun row row' hrow hrow' hle hge => ?_) (hpairwise found) (hpairwise found')
  obtain ⟨document, hdocument, rfl⟩ := List.mem_map.mp ((hsorted found).mem_iff.mp hrow)
  obtain ⟨document', hdocument', rfl⟩ := List.mem_map.mp ((hsorted found').mem_iff.mp hrow')
  rw [List.inj_on_of_nodup_map hids hdocument (hfound.mem_iff.mpr hdocument') (le_antisymm hle hge)]

/-- Neither does a run. -/
theorem runTone_perm (hdistinct : DistinctPositions Token.toPosition tokens) (htokens : tokens.Perm tokens')
    (hlexicon : lexicon.Perm lexicon') (hrows : lexiconRows parseFloat options lexicon = .ok rows)
    (hframe : lexiconFrame casing rows = .ok frame)
    (hrun : runTone casing parseFloat reprFloat fingerprint options tokens lexicon documents = .ok output) :
    runTone casing parseFloat reprFloat fingerprint options tokens' lexicon' documents = .ok output := by
  obtain ⟨found, hfound, haccepted, rfl⟩ := (runTone_eq_ok hdistinct hrows hframe).mp hrun
  obtain ⟨rows', hrows', hperm⟩ := lexiconRows_perm hlexicon hrows
  obtain ⟨-, hconsistent⟩ := lexiconFrame_eq_ok.mp hframe
  obtain ⟨hids, found', hfound', hfoundPerm⟩ := documentUniverse_perm htokens hfound
  have hframe' : lexiconFrame casing rows' = .ok (rows'.map (LexiconRow.entry casing)).dedup :=
    lexiconFrame_eq_ok.mpr ⟨rfl, fun row hrow row' hrow' =>
      hconsistent row (hperm.mem_iff.mpr hrow) row' (hperm.mem_iff.mpr hrow')⟩
  have hversion : toneLexiconFingerprint reprFloat fingerprint rows =
      toneLexiconFingerprint reprFloat fingerprint rows' :=
    congrArg fingerprint (sortedSet_eq_iff.mpr fun x => (hperm.map _).mem_iff)
  refine (runTone_eq_ok ((htokens.map _).nodup_iff.mp hdistinct) hrows' hframe').mpr
    ⟨found', hfound', ?_, ?_⟩
  · rcases haccepted with rfl | ⟨hlanguage, hidentity⟩
    · exact .inl hfoundPerm.nil_eq.symm
    · exact .inr ⟨fun token htoken => hlanguage token (htokens.mem_iff.mpr htoken), fun t ht u hu =>
        hidentity t (htokens.mem_iff.mpr ht) u (htokens.mem_iff.mpr hu)⟩
  · rw [hversion]
    exact toneRows_perm htokens hperm hfoundPerm hids (haccepted.imp_right And.right)
      hconsistent.oneWeight

end Runs

/-! ### Letter case -/

section Case

variable {μ : Type} (casing : Casing)

/-- Equal up to letter case and surrounding space. -/
def SameUpToCase (a b : String) : Bool := casing.casefold (stripText a) = casing.casefold (stripText b)

/-- Lowercasing the text folds it. -/
def Folded (text : String) : Prop :=
  casing.lower (stripText text) = casing.casefold (stripText text)

/-- What the output of a run promises. -/
structure MeetsSpec (parseFloat : String → Option (Option ℚ)) (reprFloat : ℚ → String)
    (fingerprint : List (String ×ₗ String ×ₗ String) → String) (options : ToneOptions)
    (tokens : List Token) (lexicon : List LexiconCells) (rows : List LexiconRow)
    (frame : List LexiconEntry) (documents : Option (List (WithBot String × μ)))
    (output : List (ToneRow μ)) : Prop where
  /-- A token is a hit of the categories with an equal term. -/
  hits : ∀ token ∈ tokens, ∀ category,
    (∃ m ∈ matchedTokens casing (prepareTokens casing options tokens) frame,
      m.documentId = token.documentId ∧ m.tokenIndex = token.tokenIndex ∧ m.category = category) ↔
    ∃ row ∈ rows, row.category = category ∧ ∃ text ∈ token.matchText, SameUpToCase casing row.term text
  /-- A hit counts with negative sign if a negator is in its window. -/
  signs : ∀ token ∈ tokens, ∀ m ∈ matchedTokens casing (prepareTokens casing options tokens) frame,
    m.documentId = token.documentId → m.tokenIndex = token.tokenIndex →
    m.sign = signOf (SameUpToCase casing) options tokens token
  /-- The rows count these hits. -/
  rows : ∃ found, documentUniverse options tokens documents = .ok found ∧
    output = toneRows (SameUpToCase casing) options rows tokens
      (toneLexiconFingerprint reprFloat fingerprint rows) found
  coverage : ∀ row ∈ output, ∀ x ∈ row.coverage, 0 ≤ x ∧ x ≤ 1
  insufficient : ∀ row ∈ output, row.tokenCount < options.minTokens →
    row.coverage = none ∧ ∀ score ∈ row.categories, score.2 = none
  noTokens : ∀ row ∈ output, (∀ token ∈ tokens, token.documentId ≠ row.documentId) →
    row.tokenCount = 0 ∧ row.matchedTokenCount = 0 ∧ ∀ score ∈ row.categories, score.1 = 0
  order : ∀ tokens' lexicon', tokens.Perm tokens' → lexicon.Perm lexicon' →
    runTone casing parseFloat reprFloat fingerprint options tokens' lexicon' documents = .ok output

/-- The condition: a token that equals a term up to case is folded by lowercasing, and so is one of the
negators in the window of such a token, if there are any. -/
structure NormalizationsAgree (options : ToneOptions) (tokens : List Token) (rows : List LexiconRow) :
    Prop where
  terms : ∀ token ∈ tokens, ∀ text ∈ token.matchText,
    (∃ row ∈ rows, SameUpToCase casing row.term text) → Folded casing text
  negators : options.negation = true → ∀ token ∈ tokens, hitAny (SameUpToCase casing) rows token →
    (∃ other ∈ tokens, InWindow options tokens token other ∧ negator (SameUpToCase casing) options other) →
    ∃ other ∈ tokens, InWindow options tokens token other ∧
      negator (SameUpToCase casing) options other ∧ ∀ text ∈ other.matchText, Folded casing text

variable {casing} {parseFloat : String → Option (Option ℚ)} {reprFloat : ℚ → String}
  {fingerprint : List (String ×ₗ String ×ₗ String) → String} {options : ToneOptions}
  {lexicon : List LexiconCells} {rows : List LexiconRow} {frame : List LexiconEntry}
  {tokens : List Token} {documents : Option (List (WithBot String × μ))} {output : List (ToneRow μ)}
  {token : Token} {category : String}

/-- Equal keys are equal up to case, and then the text is folded. -/
theorem sameKey_iff {term text : String} : sameKey casing term text = true ↔
    SameUpToCase casing term text = true ∧ Folded casing text := by
  rw [sameKey, SameUpToCase, decide_eq_true_iff, decide_eq_true_iff, Folded, normalize]
  constructor
  · intro h
    have hsame : casing.casefold (stripText term) = casing.casefold (stripText text) := by
      rw [← casing.casefold_casefold, h, casing.casefold_lower]
    exact ⟨hsame, h.symm.trans hsame⟩
  · rintro ⟨hsame, hfolded⟩
    rw [hsame, hfolded]

theorem mem_matched (hdistinct : DistinctPositions Token.toPosition tokens) {m : Matched} :
    m ∈ matchedTokens casing (prepareTokens casing options tokens) frame ↔
      ∃ token ∈ tokens, ∃ entry ∈ frame, token.key casing = some entry.key ∧
        m = ⟨token.documentId, token.tokenIndex, entry.category, entry.weight,
          signOf (sameKey casing) options tokens token⟩ := by
  obtain ⟨sorted, hperm, hprepared⟩ : ∃ sorted : List Token, sorted.Perm tokens ∧
      prepareTokens casing options tokens =
        sorted.map fun token => (token, signOf (sameKey casing) options sorted token) :=
    prepareTokens_eq hdistinct
  rw [hprepared, mem_matchedTokens]
  simp only [hperm.mem_iff, signOf_perm hperm]

/-- The matched rows of a token are its hits by key. -/
theorem exists_matched_iff (hdistinct : DistinctPositions Token.toPosition tokens)
    (hframe : lexiconFrame casing rows = .ok frame) (htoken : token ∈ tokens) :
    (∃ m ∈ matchedTokens casing (prepareTokens casing options tokens) frame,
      m.documentId = token.documentId ∧ m.tokenIndex = token.tokenIndex ∧ m.category = category) ↔
    hit (sameKey casing) rows category token = true := by
  rw [← exists_entry_iff hframe]
  simp only [mem_matched hdistinct]
  constructor
  · rintro ⟨_, ⟨other, hother, entry, hentry, hkey, rfl⟩, hdocument, hindex, hcategory⟩
    obtain rfl := eq_of_position hdistinct hother htoken hdocument hindex
    exact ⟨entry, hentry, hkey, hcategory⟩
  · rintro ⟨entry, hentry, hkey, hcategory⟩
    exact ⟨_, ⟨token, htoken, entry, hentry, hkey, rfl⟩, rfl, rfl, hcategory⟩

theorem sign_of_matched (hdistinct : DistinctPositions Token.toPosition tokens)
    (htoken : token ∈ tokens) {m : Matched}
    (hm : m ∈ matchedTokens casing (prepareTokens casing options tokens) frame)
    (hdocument : m.documentId = token.documentId) (hindex : m.tokenIndex = token.tokenIndex) :
    m.sign = signOf (sameKey casing) options tokens token := by
  obtain ⟨other, hother, entry, -, -, rfl⟩ := (mem_matched hdistinct).mp hm
  obtain rfl := eq_of_position hdistinct hother htoken hdocument hindex
  rfl

theorem negator_iff {same : String → String → Bool} : negator same options token = true ↔
    ∃ n ∈ options.negators, ∃ text ∈ token.matchText, same n text = true := by
  simp only [negator, List.any_eq_true, any_iff]

theorem signOf_eq_neg_one_iff {same : String → String → Bool} :
    signOf same options tokens token = -1 ↔ negated same options tokens token = true := by
  unfold signOf
  split
  · rename_i h
    exact iff_of_true rfl h
  · rename_i h
    exact iff_of_false (by decide) h

/-- Where the normalizations agree, keys are equal exactly for equal texts. -/
theorem NormalizationsAgree.same (h : NormalizationsAgree casing options tokens rows) :
    ∀ token ∈ tokens, ∀ row ∈ rows, ∀ text ∈ token.matchText,
      sameKey casing row.term text = SameUpToCase casing row.term text := by
  intro token htoken row hrow text htext
  rw [Bool.eq_iff_iff, sameKey_iff]
  exact ⟨And.left, fun hsame => ⟨hsame, h.terms token htoken text htext ⟨row, hrow, hsame⟩⟩⟩

theorem NormalizationsAgree.sign (h : NormalizationsAgree casing options tokens rows)
    (htoken : token ∈ tokens) (hhit : hitAny (SameUpToCase casing) rows token = true) :
    signOf (sameKey casing) options tokens token = signOf (SameUpToCase casing) options tokens token := by
  have hnegated : negated (sameKey casing) options tokens token =
      negated (SameUpToCase casing) options tokens token := by
    rw [Bool.eq_iff_iff, negated_iff, negated_iff]
    refine and_congr_right fun hnegation => ⟨?_, fun hother => ?_⟩
    · rintro ⟨other, hother, hwindow, hnegator⟩
      obtain ⟨n, hn, text, htext, hsame⟩ := negator_iff.mp hnegator
      exact ⟨other, hother, hwindow, negator_iff.mpr ⟨n, hn, text, htext, (sameKey_iff.mp hsame).1⟩⟩
    · obtain ⟨other, hother, hwindow, hnegator, hfolded⟩ := h.negators hnegation token htoken hhit hother
      obtain ⟨n, hn, text, htext, hsame⟩ := negator_iff.mp hnegator
      exact ⟨other, hother, hwindow,
        negator_iff.mpr ⟨n, hn, text, htext, sameKey_iff.mpr ⟨hsame, hfolded text htext⟩⟩⟩
  rw [signOf, signOf, hnegated]

/-- Rows that count the same hits. -/
theorem toneRow_congr {same same' : String → String → Bool} {lexiconVersion : String}
    {document : WithBot String × Option μ}
    (hsame : ∀ token ∈ tokens, ∀ row ∈ rows, ∀ text ∈ token.matchText,
      same row.term text = same' row.term text)
    (hsign : ∀ token ∈ tokens, hitAny same' rows token = true →
      signOf same options tokens token = signOf same' options tokens token) :
    toneRow same options rows tokens lexiconVersion document =
      toneRow same' options rows tokens lexiconVersion document := by
  have hpass : ∀ token ∈ tokens, ∀ row ∈ rows, token.matchText.any (same row.term) =
      token.matchText.any (same' row.term) := by
    intro token htoken row hrow
    rw [Bool.eq_iff_iff, any_iff, any_iff]
    exact exists_congr fun text => and_congr_right fun htext => by rw [hsame token htoken row hrow text htext]
  have hhit : ∀ category, ∀ token ∈ tokens, hit same rows category token = hit same' rows category token := by
    intro category token htoken
    rw [Bool.eq_iff_iff, hit_iff, hit_iff]
    simp only [← any_iff]
    exact exists_congr fun row => and_congr_right fun hrow => and_congr_right fun _ => by
      rw [hpass token htoken row hrow]
  have hany : ∀ token ∈ tokens, hitAny same rows token = hitAny same' rows token := by
    intro token htoken
    rw [Bool.eq_iff_iff, hitAny_iff, hitAny_iff]
    simp only [← any_iff]
    exact exists_congr fun row => and_congr_right fun hrow => by rw [hpass token htoken row hrow]
  have hweight : ∀ category, ∀ token ∈ tokens, hitWeight same rows category token =
      hitWeight same' rows category token := by
    intro category token htoken
    rw [hitWeight, hitWeight, List.find?_congr fun row hrow => by rw [hpass token htoken row hrow]]
  have hraw : ∀ category, rawScore same options rows tokens document.1 category =
      rawScore same' options rows tokens document.1 category := by
    intro category
    rw [rawScore, rawScore]
    refine congrArg List.sum (List.map_congr_left fun token htoken => ?_)
    have htoken := List.mem_of_mem_filter htoken
    rw [hhit category token htoken, hweight category token htoken]
    split
    · rename_i h
      obtain ⟨row, hrow, -, htext⟩ := hit_iff.mp h
      rw [hsign token htoken (hitAny_iff.mpr ⟨row, hrow, htext⟩)]
    · rfl
  have hcount : ∀ category, (tokens.countP fun token => token.documentId = document.1 ∧
      hit same rows category token) = tokens.countP fun token => token.documentId = document.1 ∧
        hit same' rows category token := fun category =>
    List.countP_congr fun token htoken => by rw [hhit category token htoken]
  have hmatched : (tokens.countP fun token => token.documentId = document.1 ∧ hitAny same rows token) =
      tokens.countP fun token => token.documentId = document.1 ∧ hitAny same' rows token :=
    List.countP_congr fun token htoken => by rw [hany token htoken]
  simp only [toneRow, hraw, hcount, hmatched]

theorem toneRow_coverage {same : String → String → Bool} {lexiconVersion : String}
    {document : WithBot String × Option μ} {x : ℚ}
    (hx : x ∈ (toneRow same options rows tokens lexiconVersion document).coverage) : 0 ≤ x ∧ x ≤ 1 := by
  have hle : (tokens.countP fun token => token.documentId = document.1 ∧ hitAny same rows token) ≤
      tokens.countP fun token => token.documentId = document.1 :=
    List.countP_mono_left fun token _ h => decide_eq_true (of_decide_eq_true h).1
  have hx : (if max options.minTokens 1 ≤ tokens.countP fun token => token.documentId = document.1 then
      some (((tokens.countP fun token => token.documentId = document.1 ∧ hitAny same rows token) : ℚ) /
        (tokens.countP fun token => token.documentId = document.1 : ℕ)) else none) = some x := hx
  split at hx
  · rename_i hsufficient
    obtain rfl := Option.some.inj hx
    have hpos : (0 : ℚ) < (tokens.countP fun token => token.documentId = document.1 : ℕ) :=
      Nat.cast_pos.mpr ((le_max_right _ _).trans hsufficient)
    exact ⟨div_nonneg (Nat.cast_nonneg _) hpos.le, (div_le_one hpos).mpr (Nat.cast_le.mpr hle)⟩
  · cases hx

end Case

/-! ### A folded letter -/

/-- `casefold` of a letter in lower case. -/
def foldLetter (c : Char) : List Char := if c = 'ß' then ['s', 's'] else [c]

theorem flatMap_foldLetter (cs : List Char) :
    (cs.flatMap foldLetter).flatMap foldLetter = cs.flatMap foldLetter := by
  rw [List.flatMap_assoc]
  refine List.flatMap_congr fun c _ => ?_
  rw [foldLetter]
  split
  · rfl
  · rename_i h
    rw [List.flatMap_singleton, foldLetter, if_neg h]

theorem ofList_foldLetter (s : String) :
    String.ofList ((String.ofList (s.toList.flatMap foldLetter)).toList.flatMap foldLetter) =
      String.ofList (s.toList.flatMap foldLetter) := by
  rw [String.toList_ofList, flatMap_foldLetter]

/-- The two functions, on texts in lower case. -/
def lowerCasing : Casing where
  lower s := s
  casefold s := String.ofList (s.toList.flatMap foldLetter)
  casefold_lower _ := rfl
  casefold_casefold := ofList_foldLetter

/-- A document with some words in one sentence. -/
def sentence (words : List String) : List Token :=
  words.zipIdx.map fun word => ⟨⟨"d", (0 : ℤ), word.2⟩, word.1, "de", []⟩

/-- The run over one document, with one term. -/
def runWords (words : List String) (term : String) : Except Failure (List (ToneRow Unit)) :=
  runTone lowerCasing (fun _ => none) (fun _ => "1.0") (fun _ => "") { emit := ["place"], language := "de" }
    (sentence words) [⟨.text term, .text "place", .null⟩] none

end Stel.Tone
