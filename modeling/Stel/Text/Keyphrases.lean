import Stel.Data.SortedSet
import Stel.Failure
import Stel.Hashing.Known
import Stel.Text.TokenTable
import Mathlib.Algebra.BigOperators.Group.List.Lemmas
import Mathlib.Algebra.BigOperators.Ring.Finset
import Mathlib.Algebra.Order.Field.Basic
import Mathlib.Algebra.Order.Field.Rat
import Mathlib.Data.List.Chain

/-!
# Keyphrases

`run_keyphrases` of `text/transforms/_keyphrases.py`, over exact rationals: the runs of tokens of a
sentence that begin and end with a word of content are counted by their lemmas in each document, and the
phrases of the largest shares are emitted. The configured columns of the table are there.

A condition that is null does not hold, so a token without a stop flag or a part of speech begins and ends
no run.

## Main definitions

* `runKeyphrases`, with `buildCandidates`, `scoreCandidates` and `rankAndFilter`.
* `IsRun`: a run of tokens, by the positions in the table.
* `MeetsSpec`: what the phrases promise.
* `NoNullBoundary`: the condition for it.

## Main results

* `buildCandidates_eq`: the shifts over the sorted table find each run once.
* `sum_score`: the scores of a document sum to one.
* `runKeyphrases_perm`: a run does not depend on the order of the table.
* `phrasesMeetSpec_iff`: when the runs are those of the words of content.
-/

namespace Stel.Keyphrases

open TokenTable Hashing

/-! ### Tables -/

/-- A row of a token table. Its lemma is not null. -/
structure Token extends Position where
  lemmaText : String
  text : Option String
  pos : Option String
  isStop : Option Bool
  language : Option String
  identity : List (Option String)

/-- What is read of `KeyphraseOptions`. -/
structure KeyphraseOptions where
  tokens : String
  sentenceIndexField : String := "sentence_index"
  language : String := "en"
  minPhraseLength : ℕ := 1
  maxPhraseLength : ℕ := 3
  topK : ℕ := 10
  minScore : ℚ := 0
  stopPos : List String := ["PUNCT", "SPACE", "NUM", "SYM", "X"]
  includePhraseText : Bool := false
  one_le_min : 1 ≤ minPhraseLength
  min_le_max : minPhraseLength ≤ maxPhraseLength

/-- A row of `_build_candidates`. -/
structure Candidate where
  documentId : WithBot String
  phraseLemma : String
  tokenStart : ℤ
  tokenEnd : ℤ
  phraseLength : ℕ
  sentenceIndex : WithBot ℤ
  phraseText : Option String
  deriving DecidableEq

/-- A row of `_score_candidates`. -/
structure Scored extends Candidate where
  score : Option ℚ
  deriving DecidableEq

/-- A row of the output. -/
structure KeyphraseRow extends Scored where
  phraseId : String
  rank : ℕ
  identity : Option (List (Option String))
  extractor : String
  extractorVersion : String
  deriving DecidableEq

/-! ### Candidates -/

section Candidates

variable (options : KeyphraseOptions)

/-- `~is_stop & ~pos.is_in(stop_pos)` is true, and not null. -/
def Token.isBoundary (token : Token) : Bool :=
  token.isStop = some false && token.pos.any (· ∉ options.stopPos)

/-- The row of a single token. -/
def unigram (token : Token) : Candidate :=
  ⟨token.documentId, token.lemmaText, token.tokenIndex, token.tokenIndex, 1, token.sentenceIndex,
    if options.includePhraseText then token.text else none⟩

/-- The row of a token and the later ones that the shifts bring to it. A text that is null makes the
concatenation null. -/
def ngram (n : ℕ) (row : Token × List Token) : Candidate where
  documentId := row.1.documentId
  phraseLemma := String.intercalate " " ((row.1 :: row.2).map Token.lemmaText)
  tokenStart := row.1.tokenIndex
  tokenEnd := (row.2.getLast?.getD row.1).tokenIndex
  phraseLength := n
  sentenceIndex := row.1.sentenceIndex
  phraseText :=
    if options.includePhraseText then
      ((row.1 :: row.2).mapM Token.text).map (String.intercalate " ")
    else none

/-- The rows of a sorted table, with the rows that the shifts by `1` to `n - 1` over the group of a row
bring to it. -/
def shifts (n : ℕ) : List Token → List (Token × List Token)
  | [] => []
  | token :: rest =>
    (token, (rest.filter fun other => token.SameSentence other.toPosition).take (n - 1)) :: shifts n rest

/-- `consecutive & not_null & first_ok & last_ok`. A shift beyond the group brings null. -/
def isNgram (n : ℕ) (row : Token × List Token) : Bool :=
  (row.2.map fun token => token.tokenIndex) =
      (List.range' 1 (n - 1)).map (fun i : ℕ => row.1.tokenIndex + (i : ℤ)) &&
    row.1.isBoundary options && (row.2.getLast?.getD row.1).isBoundary options

/-- `_extract_ngrams`. -/
def extractNgrams (n : ℕ) (frame : List Token) : List Candidate :=
  if n = 1 then (frame.filter (Token.isBoundary options)).map (unigram options)
  else ((shifts n frame).filter (isNgram options n)).map (ngram options n)

/-- `range(min_phrase_length, max_phrase_length + 1)`. -/
def KeyphraseOptions.lengths : List ℕ :=
  List.range' options.minPhraseLength (options.maxPhraseLength + 1 - options.minPhraseLength)

/-- `_build_candidates`. -/
def buildCandidates (tokens : List Token) : List Candidate :=
  options.lengths.flatMap fun n => extractNgrams options n (sortTokens Token.toPosition tokens)

end Candidates

/-! ### Scores and ranks -/

/-- The columns that the candidates are grouped by. -/
def Candidate.phraseKey (c : Candidate) : WithBot String × String := (c.documentId, c.phraseLemma)

/-- The first row of each group. The order of the groups is not fixed; it is here that of the first
rows. -/
def firstOfEach : List Candidate → List Candidate
  | [] => []
  | c :: cs => c :: (firstOfEach cs).filter fun d => d.phraseKey ≠ c.phraseKey

/-- The number of candidates of a group over that of its document, to which a null document is not
joined. -/
def shareOf (candidates : List Candidate) (c : Candidate) : Option ℚ :=
  if c.documentId = ⊥ then none
  else some ((candidates.countP fun d => d.phraseKey = c.phraseKey : ℕ) /
    (candidates.countP fun d => d.documentId = c.documentId : ℕ) : ℚ)

/-- `_score_candidates`. -/
def scoreCandidates (candidates : List Candidate) : List Scored :=
  (firstOfEach candidates).map fun c => ⟨c, shareOf candidates c⟩

/-- The key of the sort: by document, the largest score first, then by phrase. -/
def Scored.sortKey (row : Scored) : WithBot String ×ₗ ℚ ×ₗ String :=
  toLex (row.documentId, toLex (-row.score.getD 0, row.phraseLemma))

/-- The rows of a sorted table with their positions among those of their documents, where the rows before
are given. -/
def ranked (before : List Scored) : List Scored → List (Scored × ℕ)
  | [] => []
  | row :: rest =>
    (row, before.countP (fun other => other.documentId = row.documentId) + 1) :: ranked (row :: before) rest

section Run

variable (options : KeyphraseOptions)

/-- The score of a row is not null, and it is large enough. -/
def reaches (row : Scored) : Bool := row.score.any fun score => options.minScore ≤ score

/-- The rows that reach the score, in the order of their ranks. -/
def sortScored (scored : List Scored) : List Scored :=
  (scored.filter (reaches options)).insertionSort fun row row' => row.sortKey ≤ row'.sortKey

/-- `_rank_and_filter`. -/
def rankAndFilter (scored : List Scored) : List (Scored × ℕ) :=
  (ranked [] (sortScored options scored)).filter fun row => row.2 ≤ options.topK

/-! ### The run -/

/-- A `ValueError`. -/
def valueError {α : Type} (message : String) : Except Failure α := .error (.other message)

variable (repr : List (WithBot String) → String)

/-- `_reject_unsupported_language`. -/
def rejectUnsupportedLanguage (tokens : List Token) : Except Failure Unit :=
  let unsupported := sortedSet ((tokens.filterMap Token.language).filter (· ≠ options.language))
  if unsupported = [] then .ok ()
  else
    valueError ("Keyphrase extraction is configured for language '" ++ options.language ++
      "' but the tokens carry language(s) " ++ repr (unsupported.map some) ++
      ". Configure a matching `language`, or split the corpus by language.")

/-- `_reject_null_sentence_index`. -/
def rejectNullSentenceIndex (tokens : List Token) : Except Failure Unit :=
  let nullCount := tokens.countP fun token => token.sentenceIndex = ⊥
  if nullCount = 0 then .ok ()
  else
    valueError ("Tokens model '" ++ options.tokens ++ "' column '" ++ options.sentenceIndexField ++
      "' contains " ++ toString nullCount ++ " null value(s). Multi-token keyphrase extraction " ++
      "(max_phrase_length > 1) requires sentence boundaries — rebuild the token table with a spaCy " ++
      "pipeline that includes the sentencizer or dependency parser, or set max_phrase_length: 1 to " ++
      "extract unigrams only.")

/-- The checks of a table that is not empty. -/
def checkTokens (tokens : List Token) : Except Failure Unit := do
  rejectUnsupportedLanguage options repr tokens
  if 1 < options.maxPhraseLength then rejectNullSentenceIndex options tokens else return ()

/-- `TOKEN_IDENTITY_COLUMNS`. -/
def tokenIdentityColumns : List (WithBot String) :=
  ["nlp_provider", "nlp_provider_version", "nlp_model", "nlp_model_version", "nlp_language"]

/-- The documents whose tokens have different identities. -/
def inconsistentDocuments (tokens : List Token) : List (WithBot String) :=
  sortedSet ((tokens.filter fun t =>
    tokens.any fun u => t.documentId = u.documentId && t.identity ≠ u.identity).map fun t => t.documentId)

/-- The check of `_single_valued`. Null and a text are not sorted. -/
def rejectInconsistentIdentity (tokens : List Token) : Except Failure Unit :=
  let documents := inconsistentDocuments tokens
  if documents = [] then .ok ()
  else if documents.contains ⊥ ∧ 1 < documents.length then .error (.other "TypeError")
  else
    valueError ("Model '" ++ options.tokens ++ "' has documents whose token rows disagree on " ++
      "NLP identity " ++ repr tokenIdentityColumns ++ ": " ++ repr (documents.take 5) ++
      ". Rebuild the token table so each document carries one value.")

/-- The document of a row, as a value that is fingerprinted. -/
def documentValue : WithBot String → PyValue
  | none => .none
  | some document => .str document

/-- The value that a phrase is fingerprinted by. -/
def Candidate.value (c : Candidate) : PyValue :=
  .sequence .tuple [documentValue c.documentId, .str c.phraseLemma]

/-- `KEYPHRASE_DOMAIN`. -/
def keyphraseDomain : String := "dbt-ml.keyphrase"

variable (blake2b : ℤ → List UInt8 → List UInt8)

/-- The output for a ranked row, joined to the identity of its document. -/
def finalizeRow (tokens : List Token) (row : Scored × ℕ) : Except Failure KeyphraseRow := do
  let phraseId ← canonicalFingerprint blake2b row.1.value keyphraseDomain 1 16
  return {
    toScored := row.1
    phraseId
    rank := row.2
    identity := (tokens.find? fun token => token.documentId = row.1.documentId).map Token.identity
    extractor := "ngram_freq"
    extractorVersion := "1" }

/-- The key of the last sort. -/
def KeyphraseRow.sortKey (row : KeyphraseRow) : WithBot String ×ₗ ℕ := toLex (row.documentId, row.rank)

/-- `run_keyphrases`. -/
def runKeyphrases (tokens : List Token) : Except Failure (List KeyphraseRow) := do
  if tokens = [] then return []
  checkTokens options repr tokens
  let rows := rankAndFilter options (scoreCandidates (buildCandidates options tokens))
  if rows = [] then return []
  rejectInconsistentIdentity options repr tokens
  let result ← rows.mapM (finalizeRow blake2b tokens)
  return result.insertionSort fun row row' => row.sortKey ≤ row'.sortKey

end Run

/-! ### Runs -/

/-- A run of `min_phrase_length` to `max_phrase_length` tokens of the table, consecutive in one sentence,
whose first and last tokens are eligible. -/
structure IsRun (options : KeyphraseOptions) (eligible : Token → Prop) (tokens : List Token)
    (run : Token × List Token) : Prop where
  mem : ∀ token ∈ run.1 :: run.2, token ∈ tokens
  length : options.minPhraseLength ≤ run.2.length + 1 ∧ run.2.length + 1 ≤ options.maxPhraseLength
  consecutive : (run.1 :: run.2).IsChain fun t u =>
    t.SameSentence u.toPosition ∧ u.tokenIndex = t.tokenIndex + 1
  first : eligible run.1
  last : eligible (run.2.getLast?.getD run.1)

/-- The candidate of a run. -/
def runCandidate (options : KeyphraseOptions) (run : Token × List Token) : Candidate :=
  ngram options (run.2.length + 1) run

/-- The runs that the shifts find. -/
def runs (options : KeyphraseOptions) (tokens : List Token) : List (Token × List Token) :=
  options.lengths.flatMap fun n =>
    (shifts n (sortTokens Token.toPosition tokens)).filter (isNgram options n)

section Runs

variable {options : KeyphraseOptions} {tokens frame : List Token} {n : ℕ}

theorem eq_map_range'_iff {a : ℤ} {s : ℕ} {js : List ℤ} :
    js = (List.range' (s + 1) n).map (fun i : ℕ => a + (i : ℤ)) ↔
      js.length = n ∧ ((a + s) :: js).IsChain fun i j => j = i + 1 := by
  induction js generalizing s n with
  | nil => cases n <;> simp [List.range'_succ]
  | cons j js ih =>
    cases n with
    | zero => simp
    | succ n =>
      rw [List.range'_succ, List.map_cons, List.cons.injEq, ih, List.isChain_cons_cons, List.length_cons,
        Nat.add_right_cancel_iff, and_left_comm]
      refine and_congr_right fun _ => ?_
      push_cast
      rw [← add_assoc]
      exact and_congr_right fun hj => by rw [hj]

/-- Consecutive tokens of one sentence are those of the sentence of the first one whose positions are
consecutive. -/
theorem isChain_consecutive_iff {t : Token} {us : List Token} :
    (t :: us).IsChain (fun t u => t.SameSentence u.toPosition ∧ u.tokenIndex = t.tokenIndex + 1) ↔
      (∀ u ∈ us, t.SameSentence u.toPosition) ∧
        (t.tokenIndex :: us.map fun u => u.tokenIndex).IsChain fun i j => j = i + 1 := by
  induction us generalizing t with
  | nil => simp
  | cons u us ih =>
    rw [List.isChain_cons_cons, ih, List.map_cons, List.isChain_cons_cons, List.forall_mem_cons]
    constructor
    · rintro ⟨⟨hsame, hindex⟩, hall, hchain⟩
      exact ⟨⟨hsame, fun v hv => hsame.trans (hall v hv)⟩, hindex, hchain⟩
    · rintro ⟨⟨hsame, hall⟩, hindex, hchain⟩
      exact ⟨⟨hsame, hindex⟩, fun v hv => hsame.symm.trans (hall v hv), hchain⟩

theorem lt_of_consecutive {us : List Token} {a : ℤ}
    (hchain : (a :: us.map fun u => u.tokenIndex).IsChain fun i j => j = i + 1) :
    ∀ u ∈ us, a < u.tokenIndex := by
  have hascending : (a :: us.map fun u => u.tokenIndex).Pairwise (· < ·) :=
    (hchain.imp fun i j hij => by omega : List.IsChain (· < ·) _).pairwise
  exact fun u hu => (List.pairwise_cons.mp hascending).1 _ (List.mem_map_of_mem hu)

/-- Consecutive positions among ascending ones come first. -/
theorem take_of_consecutive {xs us : List Token} {a : ℤ}
    (hxs : xs.Pairwise fun t u => t.tokenIndex < u.tokenIndex) (habove : ∀ x ∈ xs, a < x.tokenIndex)
    (hus : ∀ u ∈ us, u ∈ xs) (hchain : (a :: us.map fun u => u.tokenIndex).IsChain fun i j => j = i + 1) :
    xs.take us.length = us := by
  induction us generalizing xs a with
  | nil => rfl
  | cons u us ih =>
    obtain ⟨hu, hus⟩ := List.forall_mem_cons.mp hus
    rw [List.map_cons, List.isChain_cons_cons] at hchain
    obtain ⟨hindex, hchain⟩ := hchain
    cases xs with
    | nil => exact absurd hu List.not_mem_nil
    | cons x xs =>
      obtain ⟨hfirst, hrest⟩ := List.pairwise_cons.mp hxs
      obtain rfl : u = x := by
        rcases List.mem_cons.mp hu with rfl | hu
        · rfl
        · have hlt := hfirst u hu
          have hge := habove x List.mem_cons_self
          omega
      -- the later tokens of the run are above the first one
      have hlater := lt_of_consecutive hchain
      have hmem : ∀ v ∈ us, v ∈ xs := by
        intro v hv
        rcases List.mem_cons.mp (hus v hv) with rfl | hmem
        · exact absurd (hlater v hv) (lt_irrefl _)
        · exact hmem
      rw [List.length_cons, List.take_succ_cons, ih hrest hfirst hmem (hindex ▸ hchain)]

theorem mem_shifts {run : Token × List Token} : run ∈ shifts n frame ↔ ∃ before after,
    frame = before ++ run.1 :: after ∧
      run.2 = (after.filter fun other => run.1.SameSentence other.toPosition).take (n - 1) := by
  induction frame with
  | nil => simp [shifts]
  | cons token rest ih =>
    rw [shifts, List.mem_cons, ih]
    constructor
    · rintro (rfl | ⟨before, after, rfl, hlater⟩)
      · exact ⟨[], rest, rfl, rfl⟩
      · exact ⟨token :: before, after, rfl, hlater⟩
    · rintro ⟨before, after, hsplit, hlater⟩
      cases before with
      | nil =>
        obtain ⟨rfl, rfl⟩ := List.cons.inj hsplit
        exact .inl (Prod.ext rfl hlater)
      | cons t before =>
        obtain ⟨rfl, rfl⟩ := List.cons.inj hsplit
        exact .inr ⟨before, after, rfl, hlater⟩

theorem map_fst_shifts : (shifts n frame).map Prod.fst = frame := by
  induction frame with
  | nil => rfl
  | cons token rest ih => rw [shifts, List.map_cons, ih]

theorem isNgram_iff {run : Token × List Token} : isNgram options n run = true ↔
    run.2.length = n - 1 ∧
      (run.1.tokenIndex :: run.2.map fun u => u.tokenIndex).IsChain (fun i j => j = i + 1) ∧
      run.1.isBoundary options = true ∧ (run.2.getLast?.getD run.1).isBoundary options = true := by
  have hindices := @eq_map_range'_iff (n - 1) run.1.tokenIndex 0 (run.2.map fun u => u.tokenIndex)
  rw [List.length_map, Nat.cast_zero, add_zero] at hindices
  rw [isNgram, Bool.and_eq_true, Bool.and_eq_true, decide_eq_true_iff, hindices, and_assoc, and_assoc]

/-- The shifts over a sorted table find the runs of a length. -/
theorem mem_filter_shifts (hsorted : frame.Pairwise fun t u => t.sortKey < u.sortKey)
    {run : Token × List Token} : run ∈ (shifts n frame).filter (isNgram options n) ↔
      (∀ token ∈ run.1 :: run.2, token ∈ frame) ∧ run.2.length = n - 1 ∧
      ((run.1 :: run.2).IsChain fun t u => t.SameSentence u.toPosition ∧ u.tokenIndex = t.tokenIndex + 1) ∧
      run.1.isBoundary options = true ∧ (run.2.getLast?.getD run.1).isBoundary options = true := by
  rw [List.mem_filter, isNgram_iff, mem_shifts, isChain_consecutive_iff]
  constructor
  · rintro ⟨⟨before, after, rfl, hlater⟩, hlength, hchain, hfirst, hlast⟩
    have hmem : ∀ u ∈ run.2, u ∈ after ∧ run.1.SameSentence u.toPosition := by
      intro u hu
      rw [hlater] at hu
      obtain ⟨hu, hsame⟩ := List.mem_filter.mp (List.mem_of_mem_take hu)
      exact ⟨hu, of_decide_eq_true hsame⟩
    refine ⟨List.forall_mem_cons.mpr ⟨by simp, fun u hu => ?_⟩, hlength,
      ⟨fun u hu => (hmem u hu).2, hchain⟩, hfirst, hlast⟩
    exact List.mem_append_right _ (List.mem_cons_of_mem _ (hmem u hu).1)
  · rintro ⟨hmem, hlength, ⟨hsame, hchain⟩, hfirst, hlast⟩
    obtain ⟨htoken, hmem⟩ := List.forall_mem_cons.mp hmem
    obtain ⟨before, after, rfl⟩ := List.append_of_mem htoken
    obtain ⟨hbefore, hafter, hbelow⟩ := List.pairwise_append.mp hsorted
    refine ⟨⟨before, after, rfl, ?_⟩, hlength, hchain, hfirst, hlast⟩
    rw [← hlength]
    refine (take_of_consecutive (a := run.1.tokenIndex) ?_ ?_ (fun u hu => ?_) hchain).symm
    · refine ((List.pairwise_cons.mp hafter).2.filter _).imp_of_mem fun {t u} ht hu hlt => ?_
      have ht := of_decide_eq_true (List.mem_filter.mp ht).2
      have hu := of_decide_eq_true (List.mem_filter.mp hu).2
      exact (Position.index_lt_iff (ht.symm.trans hu)).mp hlt
    · intro u hu
      obtain ⟨hu, hsame⟩ := List.mem_filter.mp hu
      have hlt := (List.pairwise_cons.mp hafter).1 u hu
      exact (Position.index_lt_iff (of_decide_eq_true hsame)).mp hlt
    · -- a token of the run is above the first one, so it is among the later rows
      have hindex := lt_of_consecutive hchain u hu
      have hkey : run.1.sortKey < u.sortKey := (Position.index_lt_iff (hsame u hu)).mpr hindex
      refine List.mem_filter.mpr ⟨?_, decide_eq_true (hsame u hu)⟩
      rcases List.mem_append.mp (hmem u hu) with hu' | hu'
      · exact absurd (hbelow u hu' _ List.mem_cons_self) hkey.not_gt
      · rcases List.mem_cons.mp hu' with rfl | hu'
        · exact absurd hkey (lt_irrefl _)
        · exact hu'

theorem mem_lengths : n ∈ options.lengths ↔ options.minPhraseLength ≤ n ∧ n ≤ options.maxPhraseLength := by
  have hle := options.min_le_max
  rw [KeyphraseOptions.lengths, List.mem_range'_1]
  omega

theorem mem_runs (hdistinct : DistinctPositions Token.toPosition tokens) {run : Token × List Token} :
    run ∈ runs options tokens ↔ IsRun options (fun token => token.isBoundary options = true) tokens run := by
  simp only [runs, List.mem_flatMap, mem_lengths, mem_filter_shifts (pairwise_sortTokens hdistinct),
    perm_sortTokens.mem_iff]
  have hone := options.one_le_min
  constructor
  · rintro ⟨n, hn, hmem, hlength, hchain, hfirst, hlast⟩
    exact ⟨hmem, by omega, hchain, hfirst, hlast⟩
  · intro h
    exact ⟨run.2.length + 1, h.length, h.mem, rfl, h.consecutive, h.first, h.last⟩

theorem nodup_runs (hdistinct : DistinctPositions Token.toPosition tokens) :
    (runs options tokens).Nodup := by
  have hsorted := pairwise_sortTokens hdistinct
  have hframe : (sortTokens Token.toPosition tokens).Nodup :=
    hsorted.imp fun {t u} hlt heq => absurd (congrArg (fun v : Token => v.sortKey) heq) hlt.ne
  refine List.nodup_flatMap.mpr ⟨fun n _ => ?_, ?_⟩
  · refine (List.Nodup.of_map Prod.fst ?_).filter _
    rw [map_fst_shifts]
    exact hframe
  · have hlengths : options.lengths.Pairwise (· < ·) := List.pairwise_lt_range'
    refine hlengths.imp_of_mem fun {m n} hm hn hlt run hrun hrun' => ?_
    have hm := (mem_filter_shifts hsorted).mp hrun
    have hn := (mem_filter_shifts hsorted).mp hrun'
    have hone := options.one_le_min
    have hge := (mem_lengths.mp ‹m ∈ options.lengths›).1
    have hlength := hm.2.1
    have hlength' := hn.2.1
    omega

theorem extractNgrams_eq (hn : n ∈ options.lengths)
    (hsorted : frame.Pairwise fun t u => t.sortKey < u.sortKey) :
    extractNgrams options n frame =
      ((shifts n frame).filter (isNgram options n)).map (runCandidate options) := by
  have hone := options.one_le_min
  have hge := (mem_lengths.mp hn).1
  have hngram : ∀ run ∈ (shifts n frame).filter (isNgram options n),
      ngram options n run = runCandidate options run := by
    intro run hrun
    have hlength := ((mem_filter_shifts hsorted).mp hrun).2.1
    rw [runCandidate, hlength, Nat.sub_add_cancel (hone.trans hge)]
  rw [← List.map_congr_left hngram, extractNgrams]
  split
  · rename_i h
    subst h
    clear hsorted hngram
    induction frame with
    | nil => rfl
    | cons token rest ih =>
      have hngram : isNgram options 1 (token, []) = token.isBoundary options := by simp [isNgram]
      have htext : (([token].mapM Token.text).map (String.intercalate " ")) = token.text := by
        have hone : ∀ text, String.intercalate " " [text] = text := fun text => rfl
        cases h : token.text <;> simp [h, hone]
      have hrow : ngram options 1 (token, []) = unigram options token := by
        rw [ngram, htext]
        rfl
      rw [shifts, Nat.sub_self, List.take_zero, List.filter_cons, List.filter_cons, hngram]
      split
      · rw [List.map_cons, List.map_cons, ih, hrow]
      · exact ih
  · rfl

/-- The candidates are the runs, each once. -/
theorem buildCandidates_eq (hdistinct : DistinctPositions Token.toPosition tokens) :
    buildCandidates options tokens = (runs options tokens).map (runCandidate options) := by
  rw [buildCandidates, runs, List.map_flatMap]
  exact List.flatMap_congr fun n hn => extractNgrams_eq hn (pairwise_sortTokens hdistinct)

end Runs

/-! ### Scores -/

section Scores

variable {cs : List Candidate} {c : Candidate}

theorem mem_of_mem_firstOfEach (h : c ∈ firstOfEach cs) : c ∈ cs := by
  induction cs with
  | nil => exact h
  | cons d cs ih =>
    rcases List.mem_cons.mp h with rfl | h
    · exact List.mem_cons_self
    · exact List.mem_cons_of_mem _ (ih (List.mem_filter.mp h).1)

theorem exists_firstOfEach (h : c ∈ cs) : ∃ d ∈ firstOfEach cs, d.phraseKey = c.phraseKey := by
  induction cs with
  | nil => cases h
  | cons d cs ih =>
    by_cases heq : c.phraseKey = d.phraseKey
    · exact ⟨d, List.mem_cons_self, heq.symm⟩
    · rcases List.mem_cons.mp h with rfl | h
      · exact absurd rfl heq
      · obtain ⟨first, hfirst, hkey⟩ := ih h
        have hne := decide_eq_true (hkey ▸ heq : first.phraseKey ≠ d.phraseKey)
        exact ⟨first, List.mem_cons_of_mem _ (List.mem_filter.mpr ⟨hfirst, hne⟩), hkey⟩

theorem nodup_firstOfEach : ((firstOfEach cs).map Candidate.phraseKey).Nodup := by
  induction cs with
  | nil => exact List.nodup_nil
  | cons d cs ih =>
    rw [firstOfEach, List.map_cons, List.nodup_cons]
    refine ⟨fun h => ?_, ih.sublist (List.filter_sublist.map _)⟩
    obtain ⟨e, he, hkey⟩ := List.mem_map.mp h
    exact of_decide_eq_true (List.mem_filter.mp he).2 hkey

/-- The groups are the phrases of the candidates, each once. -/
theorem map_phraseKey_perm :
    ((firstOfEach cs).map Candidate.phraseKey).Perm (cs.map Candidate.phraseKey).dedup := by
  refine (List.perm_ext_iff_of_nodup nodup_firstOfEach (List.nodup_dedup _)).mpr fun key => ?_
  rw [List.mem_dedup, List.mem_map, List.mem_map]
  constructor
  · rintro ⟨c, hc, rfl⟩
    exact ⟨c, mem_of_mem_firstOfEach hc, rfl⟩
  · rintro ⟨c, hc, rfl⟩
    exact exists_firstOfEach hc

theorem scoreCandidates_phraseKey : (scoreCandidates cs).map (fun row => row.phraseKey) =
    (firstOfEach cs).map Candidate.phraseKey := by
  rw [scoreCandidates, List.map_map]
  rfl

theorem score_eq {row : Scored} (h : row ∈ scoreCandidates cs) : row.score = shareOf cs row.toCandidate := by
  obtain ⟨c, -, rfl⟩ := List.mem_map.mp h
  rfl

/-- The scores of a document sum to one. -/
theorem sum_score {document : WithBot String} (hnull : document ≠ ⊥)
    (h : ∃ c ∈ cs, c.documentId = document) :
    (((scoreCandidates cs).filter fun row => row.documentId = document).map
      fun row => row.score.getD 0).sum = 1 := by
  have hpositive : 0 < cs.countP fun c => c.documentId = document := by
    obtain ⟨c, hc, hdocument⟩ := h
    exact List.countP_pos_iff.mpr ⟨c, hc, decide_eq_true hdocument⟩
  -- over the phrases of the document, the counts sum to the number of its candidates
  have hcount : (((firstOfEach cs).filter fun c => c.documentId = document).map fun c =>
      cs.countP fun d => d.phraseKey = c.phraseKey).sum = cs.countP fun c => c.documentId = document := by
    have hsum := List.sum_map_count_dedup_filter_eq_countP
      (fun key : WithBot String × String => key.1 = document) (cs.map Candidate.phraseKey)
    have hperm := (@map_phraseKey_perm cs).filter fun key => key.1 = document
    rw [← ((hperm.map _).sum_eq), List.filter_map, List.map_map, List.countP_map] at hsum
    refine (congrArg List.sum (List.map_congr_left fun c _ => ?_)).trans hsum
    rw [Function.comp_apply, @List.count_eq_countP _ instBEqOfDecidableEq, List.countP_map]
    exact List.countP_congr fun d _ => by simp
  have hscore : ∀ c : Candidate, c ∈ (firstOfEach cs).filter (fun c => c.documentId = document) →
      (shareOf cs c).getD 0 = ((cs.countP fun d => d.phraseKey = c.phraseKey : ℕ) : ℚ) *
        ((cs.countP fun d => d.documentId = document : ℕ) : ℚ)⁻¹ := by
    intro c hc
    have hdocument := of_decide_eq_true (List.mem_filter.mp hc).2
    rw [shareOf, if_neg (hdocument ▸ hnull), hdocument, Option.getD_some, div_eq_mul_inv]
  rw [scoreCandidates, List.filter_map, List.map_map]
  refine (congrArg List.sum (List.map_congr_left hscore)).trans ?_
  rw [List.sum_map_mul_right]
  have hcast := congrArg (Nat.cast : ℕ → ℚ) hcount
  rw [Nat.cast_list_sum, List.map_map] at hcast
  refine (congrArg (· * _) hcast).trans (mul_inv_cancel₀ ?_)
  exact Nat.cast_ne_zero.mpr hpositive.ne'

end Scores

/-! ### Ranks -/

/-- A larger score, or the same one and a smaller phrase. -/
def Scored.Precedes (row other : Scored) : Prop :=
  ∃ x y, row.score = some x ∧ other.score = some y ∧
    (y < x ∨ x = y ∧ row.phraseLemma < other.phraseLemma)

section Ranks

variable {options : KeyphraseOptions} {before rows scored : List Scored} {document : WithBot String}

theorem lt_of_mem_ranked {p : Scored × ℕ} (h : p ∈ ranked before rows) :
    p.1 ∈ rows ∧ before.countP (fun other => other.documentId = p.1.documentId) < p.2 := by
  induction rows generalizing before with
  | nil => cases h
  | cons row rest ih =>
    rcases List.mem_cons.mp h with rfl | h
    · exact ⟨List.mem_cons_self, Nat.lt_succ_self _⟩
    · obtain ⟨hmem, hlt⟩ := ih h
      rw [List.countP_cons] at hlt
      exact ⟨List.mem_cons_of_mem _ hmem, lt_of_le_of_lt (Nat.le_add_right _ _) hlt⟩

theorem map_fst_ranked : (ranked before rows).map Prod.fst = rows := by
  induction rows generalizing before with
  | nil => rfl
  | cons row rest ih => rw [ranked, List.map_cons, ih]

/-- The ranks ascend with the documents. -/
theorem pairwise_ranked (h : rows.Pairwise fun row row' => row.documentId ≤ row'.documentId) :
    (ranked before rows).Pairwise fun p q =>
      toLex (p.1.documentId, p.2) < toLex (q.1.documentId, q.2) := by
  induction rows generalizing before with
  | nil => exact .nil
  | cons row rest ih =>
    obtain ⟨hfirst, hrest⟩ := List.pairwise_cons.mp h
    refine .cons (fun q hq => Prod.Lex.toLex_lt_toLex.mpr ?_) (ih hrest)
    obtain ⟨hmem, hlt⟩ := lt_of_mem_ranked hq
    rcases (hfirst q.1 hmem).lt_or_eq with hdocument | hdocument
    · exact .inl hdocument
    · rw [List.countP_cons, ← hdocument, if_pos (decide_eq_true rfl)] at hlt
      exact .inr ⟨hdocument, hlt⟩

/-- The ranks of a document count its rows. -/
theorem filter_ranked : (ranked before rows).filter (fun p => p.1.documentId = document) =
    (rows.filter fun row => row.documentId = document).zipIdx
      (before.countP (fun other => other.documentId = document) + 1) := by
  induction rows generalizing before with
  | nil => rfl
  | cons row rest ih =>
    rw [ranked, List.filter_cons, List.filter_cons, ih, List.countP_cons]
    by_cases hdocument : row.documentId = document
    · simp [hdocument]
    · simp [hdocument]

theorem filter_zipIdx_le {α : Type} {xs : List α} {s k : ℕ} :
    (xs.zipIdx s).filter (fun p => p.2 ≤ k) = (xs.take (k + 1 - s)).zipIdx s := by
  induction xs generalizing s with
  | nil => simp
  | cons x xs ih =>
    rw [List.zipIdx_cons, List.filter_cons, ih]
    by_cases hle : s ≤ k
    · rw [if_pos (decide_eq_true hle), show k + 1 - s = k + 1 - (s + 1) + 1 by omega, List.take_succ_cons,
        List.zipIdx_cons]
    · have hzero : k + 1 - s = 0 := by omega
      have hzero' : k + 1 - (s + 1) = 0 := by omega
      simp [hle, hzero, hzero']

/-- The ranked rows of a document are the first ones of its rows in order. -/
theorem filter_rankAndFilter :
    (rankAndFilter options scored).filter (fun p => p.1.documentId = document) =
      (((sortScored options scored).filter fun row => row.documentId = document).take
        options.topK).zipIdx 1 := by
  rw [rankAndFilter, List.filter_comm, filter_ranked, List.countP_nil, Nat.zero_add, filter_zipIdx_le,
    Nat.add_sub_cancel]

theorem mem_sortScored {row : Scored} :
    row ∈ sortScored options scored ↔ row ∈ scored ∧ reaches options row = true := by
  rw [sortScored, List.mem_insertionSort, List.mem_filter]

theorem pairwise_le_sortScored :
    (sortScored options scored).Pairwise fun row row' => row.sortKey ≤ row'.sortKey :=
  @List.pairwise_insertionSort _ (fun row row' : Scored => row.sortKey ≤ row'.sortKey) _
    ⟨fun row row' => le_total row.sortKey row'.sortKey⟩ ⟨fun _ _ _ => le_trans⟩ _

theorem nodup_sortScored (hnodup : (scored.map fun row => row.phraseKey).Nodup) :
    ((sortScored options scored).map fun row => row.phraseKey).Nodup :=
  ((List.perm_insertionSort _ _).map _).nodup_iff.mpr (hnodup.sublist (List.filter_sublist.map _))

/-- Different phrases are in strict order. -/
theorem pairwise_sortScored (hnodup : (scored.map fun row => row.phraseKey).Nodup) :
    (sortScored options scored).Pairwise fun row row' => row.sortKey < row'.sortKey := by
  refine pairwise_le_sortScored.imp₂ (fun row row' hle hne => lt_of_le_of_ne hle fun heq => hne ?_)
    (List.pairwise_map.mp (nodup_sortScored hnodup))
  have hparts := Prod.ext_iff.mp (toLex.injective heq)
  exact Prod.ext hparts.1 (Prod.ext_iff.mp (toLex.injective hparts.2)).2

/-- Within a document, the order is that of the scores and then the phrases. -/
theorem precedes_of_lt {row row' : Scored} (hrow : reaches options row = true)
    (hrow' : reaches options row' = true) (hdocument : row.documentId = row'.documentId)
    (hlt : row.sortKey < row'.sortKey) : row.Precedes row' := by
  obtain ⟨x, hx, -⟩ := (Option.any_eq_true _ _).mp hrow
  obtain ⟨y, hy, -⟩ := (Option.any_eq_true _ _).mp hrow'
  have hparts : -x < -y ∨ -x = -y ∧ row.phraseLemma < row'.phraseLemma := by
    rw [Scored.sortKey, Scored.sortKey, hx, hy, hdocument] at hlt
    simpa [Prod.Lex.toLex_lt_toLex] using hlt
  rw [neg_lt_neg_iff, neg_inj] at hparts
  exact ⟨x, y, hx, hy, hparts⟩

end Ranks

/-! ### The output -/

/-- What the output promises. -/
structure Emits (options : KeyphraseOptions) (scored : List Scored) (output : List KeyphraseRow) : Prop where
  ids : (output.map KeyphraseRow.phraseId).Nodup
  sound : ∀ row ∈ output, row.toScored ∈ scored ∧ reaches options row.toScored = true
  ranks : ∀ document, ∃ k ≤ options.topK,
    ((output.filter fun row => row.documentId = document).map KeyphraseRow.rank) = List.range' 1 k
  order : ∀ document, (output.filter fun row => row.documentId = document).Pairwise fun row row' =>
    row.toScored.Precedes row'.toScored
  best : ∀ row ∈ scored, reaches options row = true → (∃ out ∈ output, out.toScored = row) ∨
    (output.filter fun out => out.documentId = row.documentId).length = options.topK ∧
      ∀ out ∈ output, out.documentId = row.documentId → out.toScored.Precedes row

section Output

variable {options : KeyphraseOptions} {repr : List (WithBot String) → String}
  {blake2b : ℤ → List UInt8 → List UInt8} {tokens tokens' : List Token} {scored : List Scored}
  {output : List KeyphraseRow}

theorem finalizeRow_eq_ok {row : Scored × ℕ} {out : KeyphraseRow}
    (h : finalizeRow blake2b tokens row = .ok out) : (out.toScored, out.rank) = row ∧
      canonicalFingerprint blake2b out.value keyphraseDomain 1 16 = .ok out.phraseId := by
  obtain ⟨phraseId, hid, h⟩ := bind_eq_ok.mp h
  obtain rfl := Except.ok.inj h
  exact ⟨rfl, hid⟩

theorem documentId_le_of_sortKey_le {row row' : Scored} (h : row.sortKey ≤ row'.sortKey) :
    row.documentId ≤ row'.documentId := by
  rcases Prod.Lex.toLex_le_toLex.mp h with h | ⟨h, -⟩
  · exact h.le
  · exact h.le

/-- The ranked rows are already in the order of the last sort. -/
theorem insertionSort_result {result : List KeyphraseRow}
    (h : result.map (fun row => (row.toScored, row.rank)) = rankAndFilter options scored) :
    (result.insertionSort fun row row' => row.sortKey ≤ row'.sortKey) = result := by
  have hle : (sortScored options scored).Pairwise fun row row' => row.documentId ≤ row'.documentId :=
    pairwise_le_sortScored.imp documentId_le_of_sortKey_le
  have hranked := (@pairwise_ranked [] _ hle).filter fun row => row.2 ≤ options.topK
  rw [← rankAndFilter, ← h, List.pairwise_map] at hranked
  exact (hranked.imp le_of_lt).insertionSort_eq

/-- The output is the ranked rows with their fingerprints. -/
theorem runKeyphrases_eq_ok (h : runKeyphrases options repr blake2b tokens = .ok output) :
    output.map (fun row => (row.toScored, row.rank)) =
        rankAndFilter options (scoreCandidates (buildCandidates options tokens)) ∧
      ∀ row ∈ output, canonicalFingerprint blake2b row.value keyphraseDomain 1 16 = .ok row.phraseId := by
  unfold runKeyphrases at h
  split at h
  · rename_i htokens
    obtain rfl := Except.ok.inj h
    have hnil : buildCandidates options tokens = [] := by
      refine List.flatMap_eq_nil_iff.mpr fun n _ => ?_
      simp [htokens, sortTokens, extractNgrams, shifts]
    rw [hnil]
    exact ⟨rfl, fun _ h => absurd h List.not_mem_nil⟩
  · obtain ⟨-, h⟩ := check_bind_eq_ok.mp h
    dsimp only at h
    split at h
    · rename_i hrows
      obtain rfl := Except.ok.inj h
      exact ⟨hrows.symm, fun _ h => absurd h List.not_mem_nil⟩
    · obtain ⟨-, h⟩ := check_bind_eq_ok.mp h
      obtain ⟨result, hresult, h⟩ := bind_eq_ok.mp h
      obtain rfl := Except.ok.inj h
      have hforall := mapM_eq_ok.mp hresult
      have hmap : result.map (fun row => (row.toScored, row.rank)) =
          rankAndFilter options (scoreCandidates (buildCandidates options tokens)) := by
        refine (List.forall₂_eq_eq_eq ▸ List.forall₂_map_right_iff.mpr ?_ : _ = _).symm
        exact hforall.imp fun row out h => (finalizeRow_eq_ok h).1.symm
      rw [insertionSort_result hmap]
      refine ⟨hmap, fun row hrow => ?_⟩
      obtain ⟨ranked, -, hfinalize⟩ := exists_of_mem_right hforall hrow
      exact (finalizeRow_eq_ok hfinalize).2

theorem value_injective {c d : Candidate} (h : canonicalValue c.value = canonicalValue d.value) :
    c.phraseKey = d.phraseKey := by
  have hdocument : ∀ d e : WithBot String,
      canonicalValue (documentValue d) = canonicalValue (documentValue e) → d = e := by
    rintro (_ | d) (_ | e) h
    · rfl
    · simp [documentValue, canonicalValue] at h
    · simp [documentValue, canonicalValue] at h
    · exact congrArg some (by simpa [documentValue, canonicalValue] using h)
  have hparts : canonicalValue (documentValue c.documentId) = canonicalValue (documentValue d.documentId) ∧
      c.phraseLemma = d.phraseLemma := by
    simpa [Candidate.value, canonicalValue, canonicalItems] using h
  exact Prod.ext (hdocument _ _ hparts.1) hparts.2

/-- The ranked rows are of different phrases. -/
theorem nodup_phraseKey (hnodup : (scored.map fun row => row.phraseKey).Nodup)
    (hrows : output.map (fun row => (row.toScored, row.rank)) = rankAndFilter options scored) :
    (output.map fun row => row.phraseKey).Nodup := by
  have hranked : ((rankAndFilter options scored).map Prod.fst).Sublist (sortScored options scored) := by
    have hsublist := (@List.filter_sublist _ (fun row : Scored × ℕ => row.2 ≤ options.topK)
      (ranked [] (sortScored options scored))).map Prod.fst
    rwa [map_fst_ranked] at hsublist
  have hkeys := (nodup_sortScored hnodup).sublist (hranked.map fun row => row.phraseKey)
  rwa [← hrows, List.map_map, List.map_map] at hkeys

/-- Ranked rows with their fingerprints keep the promises. -/
theorem emits (hfree : ∀ v w, CollisionFree blake2b v w keyphraseDomain)
    (hnodup : (scored.map fun row => row.phraseKey).Nodup)
    (hrows : output.map (fun row => (row.toScored, row.rank)) = rankAndFilter options scored)
    (hids : ∀ row ∈ output,
      canonicalFingerprint blake2b row.value keyphraseDomain 1 16 = .ok row.phraseId) :
    Emits options scored output := by
  have hsorted : (sortScored options scored).Pairwise fun row row' => row.sortKey < row'.sortKey :=
    pairwise_sortScored hnodup
  have hdocument : ∀ document, (output.filter fun row => row.documentId = document).map
      (fun row => (row.toScored, row.rank)) =
        (((sortScored options scored).filter fun row => row.documentId = document).take
          options.topK).zipIdx 1 := by
    intro document
    rw [← filter_rankAndFilter, ← hrows, List.filter_map]
    rfl
  have hscored : ∀ document, (output.filter fun row => row.documentId = document).map
      (fun row => row.toScored) =
        ((sortScored options scored).filter fun row => row.documentId = document).take options.topK := by
    intro document
    have h := congrArg (List.map Prod.fst) (hdocument document)
    rwa [List.map_map, List.zipIdx_map_fst] at h
  have hprecedes : ∀ document, ((sortScored options scored).filter fun row =>
      row.documentId = document).Pairwise Scored.Precedes := by
    intro document
    refine (hsorted.filter _).imp_of_mem fun {row row'} hrow hrow' hlt => ?_
    obtain ⟨hrow, hdocument⟩ := List.mem_filter.mp hrow
    obtain ⟨hrow', hdocument'⟩ := List.mem_filter.mp hrow'
    exact precedes_of_lt (mem_sortScored.mp hrow).2 (mem_sortScored.mp hrow').2
      ((of_decide_eq_true hdocument).trans (of_decide_eq_true hdocument').symm) hlt
  have hmem : ∀ row ∈ output, row.toScored ∈ sortScored options scored := by
    intro row hrow
    have h : row.toScored ∈ (output.filter fun out => out.documentId = row.documentId).map
        (fun row => row.toScored) :=
      List.mem_map_of_mem (List.mem_filter.mpr ⟨hrow, decide_eq_true rfl⟩)
    rw [hscored] at h
    exact (List.mem_filter.mp (List.mem_of_mem_take h)).1
  refine ⟨?_, fun row hrow => mem_sortScored.mp (hmem row hrow), fun document => ?_, fun document => ?_,
    fun row hrow hreaches => ?_⟩
  · have hkeys := nodup_phraseKey hnodup hrows
    refine List.Nodup.map_on (fun row hrow row' hrow' heq => ?_) (List.Nodup.of_map _ hkeys)
    have hvalue := (CollisionFree.fingerprint_eq_iff (hfree _ _) (hids row hrow) (hids row' hrow')).mp heq
    exact List.inj_on_of_nodup_map hkeys hrow hrow' (value_injective hvalue)
  · have h := congrArg (List.map Prod.snd) (hdocument document)
    rw [List.map_map, List.zipIdx_map_snd] at h
    exact ⟨_, List.length_take_le _ _, h⟩
  · rw [← List.pairwise_map (f := fun row : KeyphraseRow => row.toScored), hscored]
    exact (hprecedes document).sublist (List.take_sublist _ _)
  · have hrow : row ∈ (sortScored options scored).filter fun other => other.documentId = row.documentId :=
      List.mem_filter.mpr ⟨mem_sortScored.mpr ⟨hrow, hreaches⟩, decide_eq_true rfl⟩
    rw [← List.take_append_drop options.topK
      ((sortScored options scored).filter fun other => other.documentId = row.documentId)] at hrow
    rcases List.mem_append.mp hrow with htake | hdrop
    · rw [← hscored] at htake
      obtain ⟨out, hout, hrow⟩ := List.mem_map.mp htake
      exact .inl ⟨out, (List.mem_filter.mp hout).1, hrow⟩
    · -- a row that is dropped comes after `top_k` rows that are taken
      refine .inr ⟨?_, fun out hout hdocument => ?_⟩
      · have hlength := congrArg List.length (hscored row.documentId)
        have hpositive := List.length_pos_of_mem hdrop
        rw [List.length_map, List.length_take] at hlength
        rw [List.length_drop] at hpositive
        omega
      · have hsplit := hprecedes row.documentId
        rw [← List.take_append_drop options.topK
          ((sortScored options scored).filter fun other => other.documentId = row.documentId)] at hsplit
        refine (List.pairwise_append.mp hsplit).2.2 _ ?_ _ hdrop
        rw [← hscored]
        exact List.mem_map_of_mem (List.mem_filter.mpr ⟨hout, decide_eq_true hdocument⟩)

/-! ### The order of the table -/

theorem checkTokens_perm (h : tokens.Perm tokens') :
    checkTokens options repr tokens = checkTokens options repr tokens' := by
  have hlanguages : sortedSet ((tokens.filterMap Token.language).filter (· ≠ options.language)) =
      sortedSet ((tokens'.filterMap Token.language).filter (· ≠ options.language)) :=
    sortedSet_eq_iff.mpr fun language => ((h.filterMap _).filter _).mem_iff
  rw [checkTokens, checkTokens, rejectUnsupportedLanguage, rejectUnsupportedLanguage, hlanguages,
    rejectNullSentenceIndex, rejectNullSentenceIndex, h.countP_eq]

theorem inconsistentDocuments_perm (h : tokens.Perm tokens') :
    inconsistentDocuments tokens = inconsistentDocuments tokens' := by
  have hany : ∀ t : Token, (tokens.any fun u => t.documentId = u.documentId && t.identity ≠ u.identity) =
      tokens'.any fun u => t.documentId = u.documentId && t.identity ≠ u.identity := fun t => h.any_eq
  simp only [inconsistentDocuments, hany]
  exact sortedSet_eq_iff.mpr fun document => ((h.filter _).map _).mem_iff

/-- In an accepted table, the tokens of a document have one identity. -/
theorem identity_eq (h : rejectInconsistentIdentity options repr tokens = .ok ()) {t u : Token}
    (ht : t ∈ tokens) (hu : u ∈ tokens) (hdocument : t.documentId = u.documentId) :
    t.identity = u.identity := by
  unfold rejectInconsistentIdentity at h
  dsimp only at h
  split at h
  · rename_i hnil
    by_contra hne
    have hmem : t.documentId ∈ inconsistentDocuments tokens := by
      have hany : (tokens.any fun u => t.documentId = u.documentId && t.identity ≠ u.identity) = true :=
        List.any_eq_true.mpr ⟨u, hu, by simp [hdocument, hne]⟩
      exact mem_sortedSet.mpr (List.mem_map_of_mem (List.mem_filter.mpr ⟨ht, hany⟩))
    rw [hnil] at hmem
    exact List.not_mem_nil hmem
  · split at h
    · cases h
    · cases h

theorem find?_identity_perm (h : tokens.Perm tokens')
    (hidentity : rejectInconsistentIdentity options repr tokens = .ok ()) (document : WithBot String) :
    (tokens.find? fun token => token.documentId = document).map Token.identity =
      (tokens'.find? fun token => token.documentId = document).map Token.identity := by
  cases hfind : tokens.find? fun token => token.documentId = document with
  | none =>
    have hnone : tokens'.find? (fun token => token.documentId = document) = none :=
      List.find?_eq_none.mpr fun t ht => List.find?_eq_none.mp hfind t (h.mem_iff.mpr ht)
    rw [hnone]
  | some t =>
    have ht := List.mem_of_find?_eq_some hfind
    have hdocument := List.find?_some hfind
    obtain ⟨u, hu⟩ : ∃ u, tokens'.find? (fun token => token.documentId = document) = some u :=
      Option.isSome_iff_exists.mp (List.find?_isSome.mpr ⟨t, h.mem_iff.mp ht, hdocument⟩)
    have hdocument' := List.find?_some hu
    rw [hu, Option.map_some, Option.map_some]
    exact congrArg some (identity_eq hidentity ht (h.mem_iff.mpr (List.mem_of_find?_eq_some hu))
      ((of_decide_eq_true hdocument).trans (of_decide_eq_true hdocument').symm))

/-- A run does not depend on the order of the table. -/
theorem runKeyphrases_perm (hdistinct : DistinctPositions Token.toPosition tokens)
    (h : tokens.Perm tokens') :
    runKeyphrases options repr blake2b tokens = runKeyphrases options repr blake2b tokens' := by
  have hnil : tokens = [] ↔ tokens' = [] := by
    rw [← List.length_eq_zero_iff, h.length_eq, List.length_eq_zero_iff]
  have hbuild : buildCandidates options tokens = buildCandidates options tokens' := by
    rw [buildCandidates, buildCandidates, sortTokens_perm hdistinct h]
  have hreject : rejectInconsistentIdentity options repr tokens =
      rejectInconsistentIdentity options repr tokens' := by
    rw [rejectInconsistentIdentity, rejectInconsistentIdentity, inconsistentDocuments_perm h]
  unfold runKeyphrases
  simp only [hnil, checkTokens_perm h, hbuild]
  cases hchecked : rejectInconsistentIdentity options repr tokens with
  | error e => rw [← hreject, hchecked]; rfl
  | ok checked =>
    have hrow : finalizeRow blake2b tokens = finalizeRow blake2b tokens' := by
      funext row
      rw [finalizeRow, finalizeRow, find?_identity_perm h hchecked]
    rw [← hreject, hchecked, hrow]

end Output

/-! ### The specification -/

section Specification

variable (options : KeyphraseOptions) (repr : List (WithBot String) → String)
  (blake2b : ℤ → List UInt8 → List UInt8) (tokens : List Token)

/-- The token is neither a stop word nor of a stop part of speech. -/
def Token.IsContent (token : Token) : Prop :=
  token.isStop ≠ some true ∧ ∀ pos ∈ token.pos, pos ∉ options.stopPos

/-- What the phrases of a table promise. -/
structure MeetsSpec : Prop where
  candidates : ∃ found : List (Token × List Token), found.Nodup ∧
    (∀ run, run ∈ found ↔ IsRun options (Token.IsContent options) tokens run) ∧
    buildCandidates options tokens = found.map (runCandidate options)
  phrases : ((scoreCandidates (buildCandidates options tokens)).map fun row => row.phraseKey).Perm
    ((buildCandidates options tokens).map Candidate.phraseKey).dedup
  score : ∀ row ∈ scoreCandidates (buildCandidates options tokens), row.documentId ≠ ⊥ →
    row.score = some
      (((buildCandidates options tokens).countP fun c => c.phraseKey = row.phraseKey : ℕ) /
        ((buildCandidates options tokens).countP fun c => c.documentId = row.documentId : ℕ) : ℚ)
  total : ∀ document ≠ ⊥, (∃ c ∈ buildCandidates options tokens, c.documentId = document) →
    (((scoreCandidates (buildCandidates options tokens)).filter fun row => row.documentId = document).map
      fun row => row.score.getD 0).sum = 1
  output : ∀ output, runKeyphrases options repr blake2b tokens = .ok output →
    Emits options (scoreCandidates (buildCandidates options tokens)) output
  order : ∀ tokens', tokens.Perm tokens' →
    runKeyphrases options repr blake2b tokens' = runKeyphrases options repr blake2b tokens

/-- No run of content begins or ends with a token whose stop flag or part of speech is null. -/
def NoNullBoundary : Prop :=
  ∀ run, IsRun options (Token.IsContent options) tokens run →
    ∀ token ∈ [run.1, run.2.getLast?.getD run.1], token.isStop.isSome ∧ token.pos.isSome

variable {options repr blake2b tokens}

theorem isBoundary_iff {token : Token} : token.isBoundary options = true ↔
    token.IsContent options ∧ token.isStop.isSome ∧ token.pos.isSome := by
  rw [Token.isBoundary, Token.IsContent]
  cases hstop : token.isStop with
  | none => simp
  | some stop => cases token.pos <;> cases stop <;> simp

theorem getLast?_getD_mem {run : Token × List Token} : run.2.getLast?.getD run.1 ∈ run.1 :: run.2 := by
  rw [← List.getLastD_eq_getLast?]
  exact List.getLastD_mem_cons

theorem IsRun.of_imp {eligible eligible' : Token → Prop} {run : Token × List Token}
    (h : IsRun options eligible tokens run)
    (himp : ∀ token ∈ [run.1, run.2.getLast?.getD run.1], eligible token → eligible' token) :
    IsRun options eligible' tokens run :=
  ⟨h.mem, h.length, h.consecutive, himp _ (by simp) h.first, himp _ (by simp) h.last⟩

/-- If all the runs of content are candidates, none of them has a null boundary. -/
theorem MeetsSpec.noNullBoundary (h : MeetsSpec options repr blake2b tokens)
    (hdistinct : DistinctPositions Token.toPosition tokens) : NoNullBoundary options tokens := by
  obtain ⟨found, hnodup, hfound, hbuild⟩ := h.candidates
  have hsubset : runs options tokens ⊆ found := fun run hrun =>
    (hfound run).mpr (((mem_runs hdistinct).mp hrun).of_imp fun token _ htoken =>
      (isBoundary_iff.mp htoken).1)
  have hlength : found.length ≤ (runs options tokens).length := by
    rw [← List.length_map (f := runCandidate options), ← hbuild, buildCandidates_eq hdistinct,
      List.length_map]
  have hperm := (List.subperm_of_subset (nodup_runs hdistinct) hsubset).perm_of_length_le hlength
  intro run hrun token htoken
  have hboundary := (mem_runs hdistinct).mp (hperm.mem_iff.mpr ((hfound run).mpr hrun))
  rcases List.mem_pair.mp htoken with rfl | rfl
  · exact (isBoundary_iff.mp hboundary.first).2
  · exact (isBoundary_iff.mp hboundary.last).2

/-- The candidates are the runs that begin and end with a token of content, the scores are shares that sum
to one, the phrases are ranked, identified and independent of the order of the table, exactly if no such run
begins or ends with a token whose stop flag or part of speech is null. -/
theorem phrasesMeetSpec_iff (hfree : ∀ v w, CollisionFree blake2b v w keyphraseDomain)
    (hdistinct : DistinctPositions Token.toPosition tokens) :
    MeetsSpec options repr blake2b tokens ↔ NoNullBoundary options tokens := by
  refine ⟨fun h => h.noNullBoundary hdistinct, fun h => ?_⟩
  have hruns : ∀ run, run ∈ runs options tokens ↔ IsRun options (Token.IsContent options) tokens run := by
    intro run
    rw [mem_runs hdistinct]
    constructor
    · exact fun hrun => hrun.of_imp fun token _ htoken => (isBoundary_iff.mp htoken).1
    · exact fun hrun => hrun.of_imp fun token htoken hcontent =>
        isBoundary_iff.mpr ⟨hcontent, h run hrun token htoken⟩
  have hkeys : ((scoreCandidates (buildCandidates options tokens)).map fun row => row.phraseKey).Perm
      ((buildCandidates options tokens).map Candidate.phraseKey).dedup := by
    rw [scoreCandidates_phraseKey]
    exact map_phraseKey_perm
  refine ⟨⟨runs options tokens, nodup_runs hdistinct, hruns, buildCandidates_eq hdistinct⟩, hkeys,
    fun row hrow hnull => ?_, fun document hnull hc => sum_score hnull hc, fun output houtput => ?_,
    fun tokens' hperm => (runKeyphrases_perm hdistinct hperm).symm⟩
  · rw [score_eq hrow, shareOf, if_neg hnull]
  · obtain ⟨hrows, hids⟩ := runKeyphrases_eq_ok houtput
    exact emits hfree (hkeys.nodup_iff.mpr (List.nodup_dedup _)) hrows hids

end Specification

/-- The options with their defaults. -/
def defaultOptions : KeyphraseOptions where
  tokens := "tok"
  one_le_min := Nat.le_refl 1
  min_le_max := Nat.le_add_right 1 2

/-- A token of a document of one sentence. -/
def sentenceToken (index : ℤ) (lemmaText : String) (pos : Option String) (isStop : Bool) : Token :=
  ⟨⟨"d2", (0 : ℤ), index⟩, lemmaText, none, pos, some isStop, some "en", [some "spacy"]⟩

/-- A phrase around a stop word. -/
def rateOfReturn : List Token :=
  [sentenceToken 0 "rate" (some "NOUN") false, sentenceToken 1 "of" (some "ADP") true,
    sentenceToken 2 "return" (some "NOUN") false]

/-- The digests of the phrases. -/
def phraseDigests : List (PyValue × List UInt8) :=
  [(.sequence .tuple [.str "d2", .str "rate"],
    [0x29, 0xac, 0xaf, 0xf8, 0xb7, 0x30, 0xe3, 0x32, 0x98, 0xa5, 0x67, 0xa7, 0x79, 0x0d, 0x8e, 0x7b]),
   (.sequence .tuple [.str "d2", .str "rate of return"],
    [0x7e, 0x0a, 0x50, 0x61, 0xc2, 0xef, 0x12, 0xd9, 0xf7, 0xc3, 0xb3, 0x76, 0x03, 0x52, 0x73, 0x9a]),
   (.sequence .tuple [.str "d2", .str "return"],
    [0x70, 0xfa, 0xdc, 0x66, 0x48, 0x61, 0x16, 0x8e, 0xbc, 0xaf, 0x18, 0x20, 0x99, 0x61, 0x20, 0xd3])]

/-- The digest of these values. -/
def phraseDigest : ℤ → List UInt8 → List UInt8 := knownDigest (knownInputs keyphraseDomain phraseDigests)

/-- The output row of a phrase. -/
def phraseRow (phrase : String) (first last : ℤ) (length rank : ℕ) (phraseId : String) : KeyphraseRow :=
  ⟨⟨⟨"d2", phrase, first, last, length, (0 : ℤ), none⟩, some (1 / 3)⟩, phraseId, rank,
    some [some "spacy"], "ngram_freq", "1"⟩

/-- The phrases of the text. -/
def phraseRows : List KeyphraseRow :=
  [phraseRow "rate" 0 0 1 1 "29acaff8b730e33298a567a7790d8e7b",
    phraseRow "rate of return" 0 2 3 2 "7e0a5061c2ef12d9f7c3b3760352739a",
    phraseRow "return" 2 2 1 3 "70fadc664861168ebcaf1820996120d3"]

theorem mapM_finalizeRow_phraseRows : (phraseRows.map fun row => (row.toScored, row.rank)).mapM
    (finalizeRow phraseDigest rateOfReturn) = .ok phraseRows := by
  have hkeys : (phraseRows.map fun row => row.phraseKey).Nodup := by decide +kernel
  have hnodup : (phraseRows.map fun row => canonicalValue row.value).Nodup :=
    List.pairwise_map.mpr ((List.pairwise_map.mp hkeys).imp fun hne h => hne (value_injective h))
  have hvalues : (phraseDigests.map fun e => canonicalValue e.1) =
      phraseRows.map fun row => canonicalValue row.value := rfl
  have hknown : ∀ e ∈ phraseDigests, canonicalFingerprint phraseDigest e.1 keyphraseDomain 1 16 =
      .ok (hex e.2) := fun e he =>
    canonicalFingerprint_known (by decide) (by decide +kernel) (by decide +kernel) (hvalues ▸ hnodup) he
  have hrow : ∀ e ∈ phraseDigests, ∀ row : KeyphraseRow, e.1 = row.value → hex e.2 = row.phraseId →
      row = ⟨row.toScored, row.phraseId, row.rank, some [some "spacy"], "ngram_freq", "1"⟩ →
      row.documentId = "d2" → finalizeRow phraseDigest rateOfReturn (row.toScored, row.rank) = .ok row := by
    intro e he row hvalue hid heq hdocument
    have hidentity : (rateOfReturn.find? fun token => token.documentId = row.documentId).map
        Token.identity = some [some "spacy"] := by
      rw [hdocument]
      rfl
    refine bind_eq_ok.mpr ⟨row.phraseId, hid ▸ hvalue ▸ hknown e he, congrArg Except.ok ?_⟩
    rw [hidentity]
    exact heq.symm
  exact mapM_eq_ok.mpr (.cons (hrow _ (List.mem_cons_self) _ rfl (by decide +kernel) rfl rfl)
    (.cons (hrow _ (List.mem_cons_of_mem _ List.mem_cons_self) _ rfl (by decide +kernel) rfl rfl)
      (.cons (hrow _ (List.mem_cons_of_mem _ (List.mem_cons_of_mem _ List.mem_cons_self)) _ rfl
        (by decide +kernel) rfl rfl) .nil)))

theorem runKeyphrases_rateOfReturn :
    runKeyphrases defaultOptions (fun _ => "") phraseDigest rateOfReturn = .ok phraseRows := by
  have hrows : rankAndFilter defaultOptions (scoreCandidates (buildCandidates defaultOptions rateOfReturn)) =
      phraseRows.map fun row => (row.toScored, row.rank) := by decide +kernel
  have hcheck : checkTokens defaultOptions (fun _ => "") rateOfReturn = .ok () := by decide +kernel
  have hidentity : rejectInconsistentIdentity defaultOptions (fun _ => "") rateOfReturn = .ok () := by
    decide +kernel
  rw [runKeyphrases, if_neg (by simp [rateOfReturn]), hcheck]
  refine check_bind_eq_ok.mpr ⟨rfl, ?_⟩
  dsimp only
  rw [hrows, if_neg (by simp [phraseRows]), hidentity]
  refine check_bind_eq_ok.mpr ⟨rfl, bind_eq_ok.mpr ⟨_, mapM_finalizeRow_phraseRows, ?_⟩⟩
  rw [insertionSort_result hrows.symm]
  rfl

/-- The phrases of a text without nulls. -/
theorem phrasesMeetSpec_iff_rateOfReturn :
    runKeyphrases defaultOptions (fun _ => "") phraseDigest rateOfReturn = .ok phraseRows ∧
      MeetsSpec defaultOptions (fun _ => "") phraseDigest rateOfReturn := by
  have hdistinct : DistinctPositions Token.toPosition rateOfReturn := by
    unfold DistinctPositions
    decide
  refine ⟨runKeyphrases_rateOfReturn, (phrasesMeetSpec_iff (fun v w => ?_) hdistinct).mpr ?_⟩
  · exact collisionFree_knownDigest (by decide) (by decide) v w keyphraseDomain
  · have hall : ∀ token ∈ rateOfReturn, token.isStop.isSome ∧ token.pos.isSome := by decide
    intro run hrun token htoken
    refine hall token (hrun.mem token ?_)
    rcases List.mem_pair.mp htoken with rfl | rfl
    · exact List.mem_cons_self
    · exact getLast?_getD_mem

/-- A word without a part of speech is not of a stop part of speech, but it is no candidate. -/
theorem phrasesMeetSpec_fails : DistinctPositions Token.toPosition [sentenceToken 0 "growth" none false] ∧
    ¬ MeetsSpec defaultOptions (fun _ => "") phraseDigest [sentenceToken 0 "growth" none false] := by
  have hdistinct : DistinctPositions Token.toPosition [sentenceToken 0 "growth" none false] :=
    List.nodup_singleton _
  refine ⟨hdistinct, fun h => ?_⟩
  have hrun : IsRun defaultOptions (Token.IsContent defaultOptions) [sentenceToken 0 "growth" none false]
      (sentenceToken 0 "growth" none false, []) :=
    ⟨fun token htoken => htoken, by decide, .singleton _, ⟨by decide, by decide⟩, ⟨by decide, by decide⟩⟩
  have hsome := (h.noNullBoundary hdistinct _ hrun _ List.mem_cons_self).2
  cases hsome

end Stel.Keyphrases
