import Stel.Ml.Contracts
import Stel.Ml.Value

/-!
# Options of text models

The option models of the text providers of `ml_contracts.py`, what `model_dump` makes of them, and
`validate_persisted_ml_options`, which reads the options of an artifact. The options that a contract accepts
are accepted again when they come back from a file.

## Main definitions

* `Library`: what the code uses of the interpreter and its library.
* `Options`, `readOptions`, `Options.dump`: the option models.
* `optionsReader`, `validatePersistedMlOptions`.

## Main results

* `readOptions_reloaded`: options that were accepted are read back as they are.
* `validatePersistedMlOptions_reloaded`: also from the file of an artifact.
-/

namespace Stel.Ml

/-! ### The interpreter -/

/-- A match of a regular expression with at most one group. -/
structure Match where
  start : ℕ
  stop : ℕ
  text : String
  group : Option String

/-- A compiled regular expression. -/
structure Pattern where
  groups : ℕ
  finditer : String → List Match

/-- What the code uses of the interpreter and its library. -/
structure Library (F : Type) where
  floats : FloatArithmetic F
  /-- `str.lower`. -/
  lower : String → String
  /-- `re.compile`. -/
  compile : String → Option Pattern
  /-- `hashlib.blake2b(token.encode(), digest_size=9).digest()`. -/
  digest : String → List (Fin 256)
  /-- The digest of a text without blanks. -/
  hashJson : JsonText F → String
  /-- The digest of files, by their names and texts. -/
  hashFiles : List (String × JsonText F) → String
  /-- `repr`. -/
  repr : Option (Value F) → String
  /-- `==` of two dictionaries. -/
  eqMembers : List (String × Value F) → List (String × Value F) → Bool
  /-- The locations and texts of the errors of an option model. -/
  validationErrors : Provider → List (String × Value F) → List (List PathPart × String)

/-! ### Option models -/

inductive Analyzer
  | word
  | char
  | charWb
  deriving DecidableEq

def Analyzer.text : Analyzer → String
  | word => "word"
  | char => "char"
  | charWb => "char_wb"

/-- The analyzer of a name. -/
def Analyzer.ofName (name : String) : Option Analyzer :=
  [Analyzer.word, .char, .charWb].find? fun analyzer => analyzer.text = name

inductive StopWords
  | absent
  | english
  | terms (terms : List String)
  deriving DecidableEq

/-- `_AnalyzerOptions`. -/
structure AnalyzerOptions where
  analyzer : Analyzer
  lowercase : Bool
  tokenPattern : String
  ngramRange : ℕ × ℕ
  stopWords : StopWords
  deriving DecidableEq

/-- `_VocabularyOptions`. -/
structure VocabularyOptions (F : Type) extends AnalyzerOptions where
  minDf : Number F
  maxDf : Option (Number F)
  maxFeatures : Option ℕ

/-- Validated options: `_VocabularyFeatureOptions`, `_HashingFeatureOptions`, `_NaiveBayesOptions`, and those
of the matrix providers. -/
inductive Options (F : Type)
  | vocabulary (o : VocabularyOptions F) (binary : Bool)
  | hashing (o : AnalyzerOptions) (nFeatures : ℕ) (alternateSign : Bool)
  | naiveBayes (o : VocabularyOptions F) (alpha : Number F)
  | matrix (members : List (String × Value F))

/-- `_TOKEN_PATTERN_PROBES`. -/
def tokenPatternProbes : List String :=
  ["", "abcdefghijklmnopqrstuvwxyz", "ABCDEFGHIJKLMNOPQRSTUVWXYZ", "0123456789", "_ - punctuation!",
    "é中🙂💩"]

section Reading

variable {F : Type} (L : Library F)

/-- A strict bool. -/
def readBool : Value F → Option Bool
  | .bool b => some b
  | _ => none

/-- A strict text. -/
def readText : Value F → Option String
  | .str s => some s
  | _ => none

/-- A strict integer that is positive and at most `bound`. -/
def readPositive (bound : ℤ) : Value F → Option ℕ
  | .int n => if 1 ≤ n ∧ n ≤ bound then some n.toNat else none
  | _ => none

/-- The items of a list or a tuple. -/
def readItems : Value F → Option (List (Value F))
  | .list items | .tuple items => some items
  | _ => none

/-- A value that may be null. -/
def readNullable {α : Type} (read : Value F → Option α) : Value F → Option (Option α)
  | .null => some none
  | value => (read value).map some

def readAnalyzer (value : Value F) : Option Analyzer := (readText value).bind Analyzer.ofName

/-- The validator of `token_pattern`. -/
def validPattern (pattern : String) : Bool :=
  match L.compile pattern with
  | none => false
  | some compiled =>
    compiled.groups ≤ 1 && tokenPatternProbes.all fun probe =>
      (compiled.finditer probe).all fun m => m.start ≠ m.stop

def readTokenPattern (value : Value F) : Option String := (readText value).filter (validPattern L)

/-- The range of sizes, which is ordered. -/
def readNgramRange (value : Value F) : Option (ℕ × ℕ) :=
  match readItems value with
  | some [minimum, maximum] => do
    let range := (← readPositive 64 minimum, ← readPositive 64 maximum)
    if range.1 ≤ range.2 then some range else none
  | _ => none

def readStopWords : Value F → Option StopWords
  | .null => some .absent
  | .str s => if s = "english" then some .english else none
  | value => do
    let terms ← (← readItems value).mapM readText
    if terms.any isBlank then none else some (.terms terms)

/-- `_DocumentFrequency`. -/
def readFrequency : Value F → Option (Number F)
  | .int n => if 1 ≤ n then some (.int n) else none
  | .float x =>
    if L.floats.isFinite x ∧ L.floats.cmpInt x 0 = some .gt ∧ L.floats.cmpInt x 1 ≠ some .gt then
      some (.float x)
    else none
  | _ => none

/-- The smoothing of `_NaiveBayesOptions`. -/
def readAlpha : Value F → Option (Number F)
  | .int n => if 0 < n ∧ n ≤ 1000000 then some (.int n) else none
  | .float x =>
    if L.floats.isFinite x ∧ L.floats.cmpInt x 0 = some .gt ∧ L.floats.cmpInt x 1000000 ≠ some .gt then
      some (.float x)
    else none
  | _ => none

/-- The validator of the frequencies: two numbers of one type are ordered. -/
def ordered : Number F → Option (Number F) → Bool
  | .int m, some (.int n) => m ≤ n
  | .float x, some (.float y) => L.floats.cmp y x ≠ some .lt
  | _, _ => true

section Fields

variable (members : List (String × Value F))

/-- A field of a model, or its default. -/
def readField {α : Type} (name : String) (default : α) (read : Value F → Option α) : Option α :=
  match members.lookup name with
  | none => some default
  | some value => read value

def readAnalyzerOptions : Option AnalyzerOptions := do
  let analyzer ← readField members "analyzer" .word readAnalyzer
  let lowercase ← readField members "lowercase" true readBool
  let tokenPattern ← readField members "token_pattern" "\\w+" (readTokenPattern L)
  let ngramRange ← readField members "ngram_range" (1, 1) readNgramRange
  let stopWords ← readField members "stop_words" .absent readStopWords
  return ⟨analyzer, lowercase, tokenPattern, ngramRange, stopWords⟩

def readVocabularyOptions : Option (VocabularyOptions F) := do
  let analyzerOptions ← readAnalyzerOptions L members
  let minDf ← readField members "min_df" (.int 1) (readFrequency L)
  let maxDf ← readField members "max_df" none (readNullable (readFrequency L))
  let maxFeatures ← readField members "max_features" none (readNullable (readPositive 10000000))
  if ordered L minDf maxDf then return ⟨analyzerOptions, minDf, maxDf, maxFeatures⟩ else none

/-- There are no other members. -/
def onlyFields (names : List String) : Bool := members.all fun m => names.contains m.1

def analyzerFields : List String := ["analyzer", "lowercase", "token_pattern", "ngram_range", "stop_words"]

def vocabularyFields : List String := analyzerFields ++ ["min_df", "max_df", "max_features"]

/-- The option model of a text provider. -/
def readOptions : Provider → Option (Options F)
  | .count | .tfidf => do
    if onlyFields members (vocabularyFields ++ ["binary"]) then
      return .vocabulary (← readVocabularyOptions L members) (← readField members "binary" false readBool)
    else none
  | .hashing => do
    if onlyFields members (analyzerFields ++ ["n_features", "alternate_sign"]) then
      return .hashing (← readAnalyzerOptions L members)
        (← readField members "n_features" (2 ^ 20) (readPositive (2 ^ 31)))
        (← readField members "alternate_sign" true readBool)
    else none
  | .naiveBayes => do
    if onlyFields members (vocabularyFields ++ ["alpha"]) then
      let one ← L.floats.ofInt 1
      return .naiveBayes (← readVocabularyOptions L members)
        (← readField members "alpha" (.float one) (readAlpha L))
    else none
  | _ => none

end Fields

/-- The providers of vectorizers and classifiers. -/
def textProviders : List Provider := [.count, .tfidf, .hashing, .naiveBayes]

/-- `options_model.model_validate(options).model_dump(mode="python")`. The models of the other providers are
a parameter. -/
def optionsReader (matrix : OptionsReader (Value F) (List (String × Value F))) :
    OptionsReader (Value F) (Options F) := fun provider members =>
  if provider ∈ textProviders then
    match readOptions L members provider with
    | some options => .ok options
    | none => .error (L.validationErrors provider members)
  else (matrix provider members).map .matrix

end Reading

/-! ### Dumped options -/

section Dump

variable {F : Type}

def StopWords.dump : StopWords → Value F
  | absent => .null
  | english => .str "english"
  | terms ts => .texts ts

def AnalyzerOptions.dump (o : AnalyzerOptions) : List (String × Value F) :=
  [("analyzer", .str o.analyzer.text), ("lowercase", .bool o.lowercase),
    ("token_pattern", .str o.tokenPattern),
    ("ngram_range", .tuple [.int o.ngramRange.1, .int o.ngramRange.2]), ("stop_words", o.stopWords.dump)]

def VocabularyOptions.dump (o : VocabularyOptions F) : List (String × Value F) :=
  o.toAnalyzerOptions.dump ++ [("min_df", .ofNumber o.minDf), ("max_df", .ofOption .ofNumber o.maxDf),
    ("max_features", .ofOption (fun n : ℕ => .int n) o.maxFeatures)]

/-- The dictionary of validated options. -/
def Options.dump : Options F → List (String × Value F)
  | .vocabulary o binary => o.dump ++ [("binary", .bool binary)]
  | .hashing o nFeatures alternateSign =>
    o.dump ++ [("n_features", .int nFeatures), ("alternate_sign", .bool alternateSign)]
  | .naiveBayes o alpha => o.dump ++ [("alpha", .ofNumber alpha)]
  | .matrix members => members

end Dump

section Equality

variable {F : Type} (L : Library F)

/-- `==` of two numbers that may be null. -/
def eqNullable : Option (Number F) → Option (Number F) → Bool
  | none, none => true
  | some m, some n => L.floats.eqNumber m n
  | _, _ => false

def VocabularyOptions.eq (o o' : VocabularyOptions F) : Bool :=
  o.toAnalyzerOptions = o'.toAnalyzerOptions && L.floats.eqNumber o.minDf o'.minDf &&
    eqNullable L o.maxDf o'.maxDf && o.maxFeatures = o'.maxFeatures

/-- `==` of the dictionaries of two options. -/
def Options.eq : Options F → Options F → Bool
  | .vocabulary o binary, .vocabulary o' binary' => o.eq L o' && binary = binary'
  | .hashing o nFeatures alternateSign, .hashing o' nFeatures' alternateSign' =>
    o = o' && nFeatures = nFeatures' && alternateSign = alternateSign'
  | .naiveBayes o alpha, .naiveBayes o' alpha' => o.eq L o' && L.floats.eqNumber alpha alpha'
  | .matrix members, .matrix members' => L.eqMembers members members'
  | _, _ => false

end Equality

/-! ### Persisted options -/

section Persisted

variable {F : Type} (L : Library F) (matrix : OptionsReader (Value F) (List (String × Value F)))

/-- `value == n`, for an `int`. -/
def equalsInt (value : Value F) (n : ℤ) : Bool :=
  match value with
  | .int m => m = n
  | .bool b => (if b then 1 else 0) = n
  | .float x => L.floats.cmpInt x n = some .eq
  | _ => false

/-- The legacy options of a provider, and whether a value is their default. -/
def legacyDefaults : Provider → List (String × (Value F → Bool))
  | .count | .tfidf =>
    [("n_features", fun value => equalsInt L value (2 ^ 20)),
      ("alternate_sign", fun value => equalsInt L value 1)]
  | .naiveBayes =>
    [("n_features", fun value => equalsInt L value (2 ^ 20)),
      ("alternate_sign", fun value => equalsInt L value 1), ("binary", fun value => equalsInt L value 0)]
  | .hashing =>
    [("min_df", fun value => equalsInt L value 1), ("max_df", fun value => value matches .null),
      ("max_features", fun value => value matches .null), ("binary", fun value => equalsInt L value 0)]
  | _ => []

/-- `_normalize_legacy_persisted_options`. -/
def normalizeLegacyPersistedOptions (provider : Provider) (options : List (String × Value F)) :
    Except MLContractError (List (String × Value F)) :=
  (legacyDefaults L provider).foldlM (fun normalized (name, isDefault) =>
    match normalized.lookup name with
    | none => .ok normalized
    | some value =>
      if isDefault value then .ok (normalized.filter fun m => m.1 ≠ name)
      else .error ⟨s!"persisted options for provider '{provider.text}' contain unsupported option '{name}'",
        none, []⟩) options

/-- `validate_persisted_ml_options`. -/
def validatePersistedMlOptions (provider : Provider) : Option (Value F) → Except MLContractError (Options F)
  | some (.object options) => do
    let normalized ← normalizeLegacyPersistedOptions L provider options
    validateProviderOptions (optionsReader L matrix) provider normalized
      s!"persisted options for provider '{provider.text}'" none []
  | _ => .error ⟨s!"persisted options for provider '{provider.text}' must be an object", none, []⟩

end Persisted

/-! ### Options that are read back -/

section Back

variable {F : Type} {L : Library F} {members members' : List (String × Value F)}

theorem readAnalyzer_text (a : Analyzer) : readAnalyzer (.str a.text : Value F) = some a := by
  cases a <;> rfl

theorem readTokenPattern_back {value : Value F} {pattern : String}
    (h : readTokenPattern L value = some pattern) : readTokenPattern L (.str pattern) = some pattern := by
  have hvalid := (Option.filter_eq_some_iff.mp h).2
  exact Option.filter_eq_some_iff.mpr ⟨rfl, hvalid⟩

theorem readPositive_eq_some {bound : ℤ} {value : Value F} {n : ℕ} :
    readPositive bound value = some n ↔ value = .int n ∧ 1 ≤ n ∧ (n : ℤ) ≤ bound := by
  constructor
  · intro h
    cases value with
    | int m =>
      obtain ⟨⟨hpos, hbound⟩, hn⟩ := Option.ite_none_right_eq_some.mp h
      have hm : ((m.toNat : ℕ) : ℤ) = m := Int.toNat_of_nonneg (by omega)
      obtain rfl : m.toNat = n := Option.some.inj hn
      exact ⟨by rw [hm], by omega, by omega⟩
    | _ => cases h
  · rintro ⟨rfl, hpos, hbound⟩
    exact Option.ite_none_right_eq_some.mpr ⟨⟨by omega, hbound⟩, rfl⟩

theorem readPositive_back {bound : ℤ} {value : Value F} {n : ℕ} (h : readPositive bound value = some n) :
    readPositive bound (.int n : Value F) = some n :=
  readPositive_eq_some.mpr ⟨rfl, (readPositive_eq_some.mp h).2⟩

theorem readNgramRange_back {value : Value F} {range : ℕ × ℕ} (h : readNgramRange value = some range) :
    readNgramRange (Value.list [.int range.1, .int range.2] : Value F) = some range := by
  unfold readNgramRange at h
  split at h
  · rename_i minimum maximum _
    obtain ⟨a, ha, h⟩ := Option.bind_eq_some_iff.mp h
    obtain ⟨b, hb, h⟩ := Option.bind_eq_some_iff.mp h
    obtain ⟨hle, hrange⟩ := Option.ite_none_right_eq_some.mp h
    obtain rfl : (a, b) = range := Option.some.inj hrange
    have hback : readNgramRange (Value.list [.int a, .int b] : Value F) =
        (readPositive 64 (.int a : Value F)).bind fun a => (readPositive 64 (.int b : Value F)).bind fun b =>
          if a ≤ b then some (a, b) else none := rfl
    rw [hback, readPositive_back ha, readPositive_back hb]
    exact if_pos hle
  · cases h

theorem mapM_readText (terms : List String) :
    (terms.map Value.str : List (Value F)).mapM readText = some terms := by
  induction terms with
  | nil => rfl
  | cons term terms ih =>
    rw [List.map_cons, List.mapM_cons, ih]
    rfl

theorem readStopWords_back {value : Value F} {words : StopWords} (h : readStopWords value = some words) :
    readStopWords (words.dump : Value F).sorted = some words := by
  unfold readStopWords at h
  split at h
  · obtain rfl := Option.some.inj h
    rfl
  · obtain ⟨-, hwords⟩ := Option.ite_none_right_eq_some.mp h
    obtain rfl := Option.some.inj hwords
    rfl
  · obtain ⟨items, -, h⟩ := Option.bind_eq_some_iff.mp h
    obtain ⟨terms, -, h⟩ := Option.bind_eq_some_iff.mp h
    obtain ⟨hblank, hwords⟩ := Option.ite_none_left_eq_some.mp h
    obtain rfl := Option.some.inj hwords
    rw [StopWords.dump, Value.sorted_texts]
    have hback : readStopWords (.texts terms : Value F) =
        ((terms.map Value.str : List (Value F)).mapM readText).bind fun terms =>
          if terms.any isBlank then none else some (.terms terms) := rfl
    rw [hback, mapM_readText]
    exact if_neg hblank

theorem readFrequency_back {value : Value F} {n : Number F} (h : readFrequency L value = some n) :
    value = .ofNumber n ∧ readFrequency L (.ofNumber n) = some n := by
  cases value with
  | int m =>
    obtain ⟨-, hn⟩ := Option.ite_none_right_eq_some.mp h
    obtain rfl := Option.some.inj hn
    exact ⟨rfl, h⟩
  | float x =>
    obtain ⟨-, hn⟩ := Option.ite_none_right_eq_some.mp h
    obtain rfl := Option.some.inj hn
    exact ⟨rfl, h⟩
  | _ => cases h

theorem readAlpha_back {value : Value F} {n : Number F} (h : readAlpha L value = some n) :
    value = .ofNumber n ∧ readAlpha L (.ofNumber n) = some n := by
  cases value with
  | int m =>
    obtain ⟨-, hn⟩ := Option.ite_none_right_eq_some.mp h
    obtain rfl := Option.some.inj hn
    exact ⟨rfl, h⟩
  | float x =>
    obtain ⟨-, hn⟩ := Option.ite_none_right_eq_some.mp h
    obtain rfl := Option.some.inj hn
    exact ⟨rfl, h⟩
  | _ => cases h

theorem exists_of_readNullable {α : Type} {read : Value F → Option α} {value : Value F} {a : α}
    (h : readNullable read value = some (some a)) : ∃ value, read value = some a := by
  unfold readNullable at h
  split at h
  · cases h
  · obtain ⟨b, hb, hba⟩ := Option.map_eq_some_iff.mp h
    obtain rfl := Option.some.inj hba
    exact ⟨_, hb⟩

/-- A value that may be null is read back if what it holds is. -/
theorem readNullable_back {α : Type} {read : Value F → Option α} {dump : α → Value F}
    (hread : ∀ value a, read value = some a → read (dump a) = some a) (hdump : ∀ a, dump a ≠ .null)
    {value : Value F} {o : Option α} (h : readNullable read value = some o) :
    readNullable read (.ofOption dump o) = some o := by
  cases o with
  | none => rfl
  | some a =>
    obtain ⟨value, hvalue⟩ := exists_of_readNullable h
    have hsome : readNullable read (dump a) = (read (dump a)).map some := by
      unfold readNullable
      split
      · rename_i hnull
        exact absurd hnull (hdump a)
      · rfl
    rw [Value.ofOption, hsome, hread value a hvalue]
    rfl

/-- A field is read back if its values are, and its default. -/
theorem readField_back {α : Type} {name : String} {default : α} {read : Value F → Option α}
    (dump : α → Value F) (hread : ∀ value a, read value = some a → read (dump a).sorted = some a)
    (hdefault : read (dump default).sorted = some default) {a : α}
    (h : readField members name default read = some a)
    (hback : members'.lookup name = some (dump a).sorted) :
    readField members' name default read = some a := by
  have hvalue : read (dump a).sorted = some a := by
    unfold readField at h
    split at h
    · obtain rfl := Option.some.inj h
      exact hdefault
    · exact hread _ _ h
  rw [readField, hback]
  exact hvalue

theorem sorted_ofNumber (n : Number F) : (Value.ofNumber n).sorted = Value.ofNumber n := by
  cases n <;> rfl

theorem sorted_ofOption {α : Type} {dump : α → Value F} (hdump : ∀ a, (dump a).sorted = dump a)
    (o : Option α) : (Value.ofOption dump o).sorted = Value.ofOption dump o := by
  cases o with
  | none => rfl
  | some a => exact hdump a

/-- What the code relies on of the library: the arithmetic of floats, and the default pattern. -/
structure Library.Lawful (L : Library F) : Prop where
  rounds : L.floats.Rounds
  one : ∃ x, L.floats.ofInt 1 = some x
  defaultPattern : validPattern L "\\w+" = true

theorem readAnalyzerOptions_back (hL : L.Lawful) {o : AnalyzerOptions}
    (h : readAnalyzerOptions L members = some o)
    (hback : ∀ name ∈ analyzerFields, members'.lookup name = (o.dump.lookup name).map Value.sorted) :
    readAnalyzerOptions L members' = some o := by
  obtain ⟨analyzer, hanalyzer, h⟩ := Option.bind_eq_some_iff.mp h
  obtain ⟨lowercase, hlowercase, h⟩ := Option.bind_eq_some_iff.mp h
  obtain ⟨pattern, hpattern, h⟩ := Option.bind_eq_some_iff.mp h
  obtain ⟨range, hrange, h⟩ := Option.bind_eq_some_iff.mp h
  obtain ⟨words, hwords, h⟩ := Option.bind_eq_some_iff.mp h
  obtain rfl : ⟨analyzer, lowercase, pattern, range, words⟩ = o := Option.some.inj h
  have hdefaultPattern : readTokenPattern L (.str "\\w+" : Value F) = some "\\w+" :=
    Option.filter_eq_some_iff.mpr ⟨rfl, hL.defaultPattern⟩
  have hanalyzer' := readField_back (fun a : Analyzer => .str a.text) (fun _ a _ => readAnalyzer_text a) rfl
    hanalyzer (hback "analyzer" (by simp [analyzerFields]))
  have hlowercase' := readField_back .bool (fun _ _ _ => rfl) rfl hlowercase
    (hback "lowercase" (by simp [analyzerFields]))
  have hpattern' := readField_back .str (fun _ _ => readTokenPattern_back) hdefaultPattern hpattern
    (hback "token_pattern" (by simp [analyzerFields]))
  have hrange' := readField_back (fun r : ℕ × ℕ => .tuple [.int r.1, .int r.2])
    (fun _ _ => readNgramRange_back) rfl hrange (hback "ngram_range" (by simp [analyzerFields]))
  have hwords' := readField_back StopWords.dump (fun _ _ => readStopWords_back) rfl hwords
    (hback "stop_words" (by simp [analyzerFields]))
  rw [readAnalyzerOptions, hanalyzer', hlowercase', hpattern', hrange', hwords']
  rfl

theorem readVocabularyOptions_back (hL : L.Lawful) {o : VocabularyOptions F}
    (h : readVocabularyOptions L members = some o)
    (hback : ∀ name ∈ vocabularyFields, members'.lookup name = (o.dump.lookup name).map Value.sorted) :
    readVocabularyOptions L members' = some o := by
  obtain ⟨analyzerOptions, hanalyzer, h⟩ := Option.bind_eq_some_iff.mp h
  obtain ⟨minDf, hminDf, h⟩ := Option.bind_eq_some_iff.mp h
  obtain ⟨maxDf, hmaxDf, h⟩ := Option.bind_eq_some_iff.mp h
  obtain ⟨maxFeatures, hmaxFeatures, h⟩ := Option.bind_eq_some_iff.mp h
  obtain ⟨hordered, h⟩ := Option.ite_none_right_eq_some.mp h
  obtain rfl : ⟨analyzerOptions, minDf, maxDf, maxFeatures⟩ = o := Option.some.inj h
  have hfrequency : ∀ (value : Value F) n, readFrequency L value = some n →
      readFrequency L (.ofNumber n) = some n := fun _ _ h => (readFrequency_back h).2
  have hnumber : ∀ n : Number F, Value.ofNumber n ≠ .null := fun n => by cases n <;> simp [Value.ofNumber]
  have hanalyzer' : readAnalyzerOptions L members' = some analyzerOptions := by
    refine readAnalyzerOptions_back hL hanalyzer fun name hname => ?_
    rw [hback name (List.mem_append_left _ hname)]
    simp only [analyzerFields, List.mem_cons, List.not_mem_nil, or_false] at hname
    rcases hname with rfl | rfl | rfl | rfl | rfl <;> rfl
  have hminDf' := readField_back .ofNumber (fun v n h => by rw [sorted_ofNumber]; exact hfrequency v n h)
    rfl hminDf (hback "min_df" (by simp [vocabularyFields]))
  have hmaxDf' := readField_back (.ofOption .ofNumber)
    (fun v o h => by rw [sorted_ofOption sorted_ofNumber]; exact readNullable_back hfrequency hnumber h) rfl
    hmaxDf (hback "max_df" (by simp [vocabularyFields]))
  have hfeatures : ∀ (value : Value F) o, readNullable (readPositive 10000000) value = some o →
      readNullable (readPositive 10000000) (Value.ofOption (fun n : ℕ => (.int n : Value F)) o).sorted =
        some o := fun value o h => by
    rw [sorted_ofOption fun _ => rfl]
    exact readNullable_back (fun _ _ => readPositive_back) (fun _ => by simp) h
  have hmaxFeatures' := readField_back (.ofOption fun n : ℕ => (.int n : Value F)) hfeatures rfl hmaxFeatures
    (hback "max_features" (by simp [vocabularyFields]))
  rw [readVocabularyOptions, hanalyzer', hminDf', hmaxDf', hmaxFeatures']
  exact if_pos hordered

/-- Members among those of a model are accepted by it. -/
theorem onlyFields_reloaded {names : List String} (h : ∀ name ∈ members.map Prod.fst, name ∈ names) :
    onlyFields (Value.reloaded members) names = true := by
  refine List.all_eq_true.mpr fun m hm => List.contains_iff_mem.mpr (h m.1 ?_)
  exact (Value.keys_reloaded members).mem_iff.mp (List.mem_map_of_mem hm)

theorem lookup_vocabulary (o : VocabularyOptions F) (extra : List (String × Value F)) {name : String}
    (hname : name ∈ vocabularyFields) : (o.dump ++ extra).lookup name = o.dump.lookup name := by
  simp only [vocabularyFields, analyzerFields, List.cons_append, List.nil_append, List.mem_cons,
    List.not_mem_nil, or_false] at hname
  rcases hname with rfl | rfl | rfl | rfl | rfl | rfl | rfl | rfl <;> rfl

theorem lookup_analyzer (o : AnalyzerOptions) (extra : List (String × Value F)) {name : String}
    (hname : name ∈ analyzerFields) : (o.dump ++ extra).lookup name = o.dump.lookup name := by
  simp only [analyzerFields, List.mem_cons, List.not_mem_nil, or_false] at hname
  rcases hname with rfl | rfl | rfl | rfl | rfl <;> rfl

/-- The vocabulary options with one more field. -/
theorem readVocabularyOptions_reloaded (hL : L.Lawful) {o : VocabularyOptions F} {name : String}
    {value : Value F} (hname : name ∉ vocabularyFields) (h : readVocabularyOptions L members = some o) :
    onlyFields (Value.reloaded (o.dump ++ [(name, value)])) (vocabularyFields ++ [name]) = true ∧
      readVocabularyOptions L (Value.reloaded (o.dump ++ [(name, value)])) = some o ∧
      (Value.reloaded (o.dump ++ [(name, value)])).lookup name = some value.sorted := by
  have hkeys : (o.dump ++ [(name, value)]).map Prod.fst = vocabularyFields ++ [name] := rfl
  have hnodup : ((o.dump ++ [(name, value)]).map Prod.fst).Nodup := by
    rw [hkeys]
    refine List.nodup_append.mpr ⟨by decide, List.nodup_singleton _, fun a ha b hb hab => hname ?_⟩
    rwa [← List.mem_singleton.mp hb, ← hab]
  refine ⟨onlyFields_reloaded fun name hname => hkeys ▸ hname, ?_, ?_⟩
  · refine readVocabularyOptions_back hL h fun name hname => ?_
    rw [Value.lookup_reloaded hnodup, lookup_vocabulary o _ hname]
  · have hmem : (name, value) ∈ o.dump ++ [(name, value)] :=
      List.mem_append_right _ (List.mem_singleton_self _)
    rw [Value.lookup_reloaded hnodup, (mem_iff_lookup hnodup).mp hmem]
    rfl

theorem readOptions_vocabulary (hL : L.Lawful) {o : Options F} (h : readOptions L members .count = some o) :
    (∃ v binary, o = .vocabulary v binary) ∧ readOptions L (Value.reloaded o.dump) .count = some o := by
  obtain ⟨-, h⟩ := Option.ite_none_right_eq_some.mp h
  obtain ⟨v, hv, h⟩ := Option.bind_eq_some_iff.mp h
  obtain ⟨binary, hbinary, h⟩ := Option.bind_eq_some_iff.mp h
  obtain rfl : .vocabulary v binary = o := Option.some.inj h
  have hname : "binary" ∉ vocabularyFields := by decide
  obtain ⟨hfields, hback, hlookup⟩ := readVocabularyOptions_reloaded hL hname hv
  have hbinary' := readField_back .bool (fun _ _ _ => rfl) rfl hbinary hlookup
  refine ⟨⟨v, binary, rfl⟩, (if_pos hfields).trans ?_⟩
  rw [Options.dump, hback, hbinary']
  rfl

theorem readOptions_hashing (hL : L.Lawful) {o : Options F} (h : readOptions L members .hashing = some o) :
    (∃ a nFeatures sign, o = .hashing a nFeatures sign) ∧
      readOptions L (Value.reloaded o.dump) .hashing = some o := by
  obtain ⟨-, h⟩ := Option.ite_none_right_eq_some.mp h
  obtain ⟨a, ha, h⟩ := Option.bind_eq_some_iff.mp h
  obtain ⟨nFeatures, hfeatures, h⟩ := Option.bind_eq_some_iff.mp h
  obtain ⟨sign, hsign, h⟩ := Option.bind_eq_some_iff.mp h
  obtain rfl : .hashing a nFeatures sign = o := Option.some.inj h
  obtain ⟨extra, hextra⟩ : ∃ extra : List (String × Value F),
      extra = [("n_features", .int nFeatures), ("alternate_sign", .bool sign)] := ⟨_, rfl⟩
  have hdump : (Options.hashing a nFeatures sign : Options F).dump = a.dump ++ extra := by rw [hextra]; rfl
  have hkeys : (a.dump ++ extra).map Prod.fst = analyzerFields ++ ["n_features", "alternate_sign"] := by
    rw [hextra]
    rfl
  have hnodup : ((a.dump ++ extra).map Prod.fst).Nodup := by
    rw [hkeys]
    decide
  have hback : readAnalyzerOptions L (Value.reloaded (a.dump ++ extra)) = some a :=
    readAnalyzerOptions_back hL ha fun name hname => by
      rw [Value.lookup_reloaded hnodup, lookup_analyzer a _ hname]
  have hlookupFeatures : (Value.reloaded (a.dump ++ extra)).lookup "n_features" = some (.int nFeatures) := by
    rw [Value.lookup_reloaded hnodup, hextra]
    rfl
  have hlookupSign : (Value.reloaded (a.dump ++ extra)).lookup "alternate_sign" = some (.bool sign) := by
    rw [Value.lookup_reloaded hnodup, hextra]
    rfl
  have hfeatures' := readField_back (fun n : ℕ => .int n) (fun _ _ => readPositive_back) rfl hfeatures
    hlookupFeatures
  have hsign' := readField_back .bool (fun _ _ _ => rfl) rfl hsign hlookupSign
  refine ⟨⟨a, nFeatures, sign, rfl⟩, ?_⟩
  rw [hdump]
  refine (if_pos (onlyFields_reloaded fun name hname => hkeys ▸ hname)).trans ?_
  rw [hback, hfeatures', hsign']
  rfl

/-- The default smoothing is accepted. -/
theorem readAlpha_one (hL : L.Lawful) {one : F} (hone : L.floats.ofInt 1 = some one) :
    readAlpha L (.float one) = some (.float one) := by
  have hcmp : ∀ n, L.floats.cmpInt one n = some (compare 1 n) := fun n =>
    hL.rounds.cmpInt_ofInt 1 n one (by decide) (by decide) hone
  refine if_pos ⟨hL.rounds.ofInt_finite 1 one hone, ?_, ?_⟩
  · rw [hcmp]
    decide
  · rw [hcmp]
    decide

theorem readOptions_naiveBayes (hL : L.Lawful) {o : Options F}
    (h : readOptions L members .naiveBayes = some o) :
    (∃ v alpha, o = .naiveBayes v alpha ∧ readAlpha L (.ofNumber alpha) = some alpha) ∧
      readOptions L (Value.reloaded o.dump) .naiveBayes = some o := by
  obtain ⟨-, h⟩ := Option.ite_none_right_eq_some.mp h
  obtain ⟨one, hone, h⟩ := Option.bind_eq_some_iff.mp h
  obtain ⟨v, hv, h⟩ := Option.bind_eq_some_iff.mp h
  obtain ⟨alpha, halpha, h⟩ := Option.bind_eq_some_iff.mp h
  obtain rfl : .naiveBayes v alpha = o := Option.some.inj h
  have hname : "alpha" ∉ vocabularyFields := by decide
  obtain ⟨hfields, hback, hlookup⟩ := readVocabularyOptions_reloaded hL hname hv
  have hread : ∀ (value : Value F) a, readAlpha L value = some a →
      readAlpha L (Value.ofNumber a).sorted = some a := fun value a h => by
    rw [sorted_ofNumber]
    exact (readAlpha_back h).2
  have hdefault : readAlpha L (Value.ofNumber (.float one)).sorted = some (.float one) :=
    readAlpha_one hL hone
  have halpha' := readField_back .ofNumber hread hdefault halpha hlookup
  have hvalid : readAlpha L (.ofNumber alpha) = some alpha := by
    have hvalue := halpha'
    rw [readField, hlookup, sorted_ofNumber] at hvalue
    exact hvalue
  refine ⟨⟨v, alpha, rfl, hvalid⟩, (if_pos hfields).trans ?_⟩
  refine Option.bind_eq_some_iff.mpr ⟨one, hone, Option.bind_eq_some_iff.mpr ⟨v, hback, ?_⟩⟩
  exact Option.bind_eq_some_iff.mpr ⟨alpha, halpha', rfl⟩

/-- Options that were accepted are read back as they are. -/
theorem readOptions_reloaded (hL : L.Lawful) {provider : Provider} (hprovider : provider ∈ textProviders)
    {o : Options F} (h : readOptions L members provider = some o) :
    readOptions L (Value.reloaded o.dump) provider = some o := by
  simp only [textProviders, List.mem_cons, List.not_mem_nil, or_false] at hprovider
  rcases hprovider with rfl | rfl | rfl | rfl
  · exact (readOptions_vocabulary hL h).2
  · exact (readOptions_vocabulary hL h).2
  · exact (readOptions_hashing hL h).2
  · exact (readOptions_naiveBayes hL h).2

variable {matrix : OptionsReader (Value F) (List (String × Value F))}

theorem validateProviderOptions_eq_ok {provider : Provider} (hprovider : provider ∈ textProviders)
    {o : Options F} {surface : String} {modelName : Option String} {pathPrefix : List PathPart} :
    validateProviderOptions (optionsReader L matrix) provider members surface modelName pathPrefix = .ok o ↔
      readOptions L members provider = some o := by
  have hreader : optionsReader L matrix provider members = match readOptions L members provider with
      | some options => .ok options
      | none => .error (L.validationErrors provider members) := if_pos hprovider
  rw [validateProviderOptions, hreader]
  cases readOptions L members provider <;> simp

/-- Options without legacy names are taken as they are. -/
theorem normalize_of_absent {provider : Provider}
    (h : ∀ d ∈ legacyDefaults L provider, members.lookup d.1 = none) :
    normalizeLegacyPersistedOptions L provider members = .ok members := by
  unfold normalizeLegacyPersistedOptions
  generalize legacyDefaults L provider = defaults at h ⊢
  induction defaults with
  | nil => rfl
  | cons d defaults ih =>
    obtain ⟨name, isDefault⟩ := d
    obtain ⟨hd, hdefaults⟩ := List.forall_mem_cons.mp h
    rw [List.foldlM_cons]
    dsimp only at hd ⊢
    rw [hd]
    exact ih hdefaults

theorem lookup_reloaded_of_notMem {name : String} (h : name ∉ members.map Prod.fst) :
    (Value.reloaded members).lookup name = none := by
  refine List.lookup_eq_none_iff.mpr fun m hm => ?_
  have hmem : m.1 ∈ members.map Prod.fst := (Value.keys_reloaded members).mem_iff.mp (List.mem_map_of_mem hm)
  have hne : name ≠ m.1 := fun heq => h (heq ▸ hmem)
  simpa using hne

/-- The options of a provider have no legacy names. -/
theorem lookup_legacy (hL : L.Lawful) {provider : Provider} (hprovider : provider ∈ textProviders)
    {o : Options F} (h : readOptions L members provider = some o) :
    ∀ d ∈ legacyDefaults L provider, (Value.reloaded o.dump).lookup d.1 = none := by
  intro d hd
  refine lookup_reloaded_of_notMem fun hmem => ?_
  simp only [textProviders, List.mem_cons, List.not_mem_nil, or_false] at hprovider
  rcases hprovider with rfl | rfl | rfl | rfl
  · obtain ⟨⟨v, binary, rfl⟩, -⟩ := readOptions_vocabulary hL h
    have hname : d.1 ∈ ["n_features", "alternate_sign"] := List.mem_map_of_mem (f := Prod.fst) hd
    have hout : ∀ name ∈ ["n_features", "alternate_sign"],
        name ∉ vocabularyFields ++ ["binary"] := by decide
    exact hout d.1 hname hmem
  · obtain ⟨⟨v, binary, rfl⟩, -⟩ := readOptions_vocabulary hL h
    have hname : d.1 ∈ ["n_features", "alternate_sign"] := List.mem_map_of_mem (f := Prod.fst) hd
    have hout : ∀ name ∈ ["n_features", "alternate_sign"],
        name ∉ vocabularyFields ++ ["binary"] := by decide
    exact hout d.1 hname hmem
  · obtain ⟨⟨a, nFeatures, sign, rfl⟩, -⟩ := readOptions_hashing hL h
    have hname : d.1 ∈ ["min_df", "max_df", "max_features", "binary"] :=
      List.mem_map_of_mem (f := Prod.fst) hd
    have hout : ∀ name ∈ ["min_df", "max_df", "max_features", "binary"],
        name ∉ analyzerFields ++ ["n_features", "alternate_sign"] := by decide
    exact hout d.1 hname hmem
  · obtain ⟨⟨v, alpha, rfl, -⟩, -⟩ := readOptions_naiveBayes hL h
    have hname : d.1 ∈ ["n_features", "alternate_sign", "binary"] := List.mem_map_of_mem (f := Prod.fst) hd
    have hout : ∀ name ∈ ["n_features", "alternate_sign", "binary"],
        name ∉ vocabularyFields ++ ["alpha"] := by decide
    exact hout d.1 hname hmem

/-! ### Options are equal to themselves -/

/-- A field has its default, or a value that was read. -/
theorem readField_eq_some {α : Type} {name : String} {default a : α} {read : Value F → Option α}
    (h : readField members name default read = some a) : a = default ∨ ∃ value, read value = some a := by
  unfold readField at h
  split at h
  · exact .inl (Option.some.inj h).symm
  · exact .inr ⟨_, h⟩

theorem eqNumber_self (hL : L.Lawful) {n : Number F} (h : ∀ x, n = .float x → L.floats.isFinite x = true) :
    L.floats.eqNumber n n = true := by
  cases n with
  | int m => exact decide_eq_true rfl
  | float x => exact decide_eq_true (hL.rounds.cmp_self x (h x rfl))

theorem isFinite_of_readFrequency {value : Value F} {n : Number F} (h : readFrequency L value = some n) :
    ∀ x, n = .float x → L.floats.isFinite x = true := by
  rintro x rfl
  exact (Option.ite_none_right_eq_some.mp (readFrequency_back h).2).1.1

theorem isFinite_of_readAlpha {value : Value F} {n : Number F} (h : readAlpha L value = some n) :
    ∀ x, n = .float x → L.floats.isFinite x = true := by
  rintro x rfl
  exact (Option.ite_none_right_eq_some.mp (readAlpha_back h).2).1.1

theorem VocabularyOptions.eq_self (hL : L.Lawful) {o : VocabularyOptions F}
    (h : readVocabularyOptions L members = some o) : o.eq L o = true := by
  obtain ⟨analyzerOptions, -, h⟩ := Option.bind_eq_some_iff.mp h
  obtain ⟨minDf, hminDf, h⟩ := Option.bind_eq_some_iff.mp h
  obtain ⟨maxDf, hmaxDf, h⟩ := Option.bind_eq_some_iff.mp h
  obtain ⟨maxFeatures, -, h⟩ := Option.bind_eq_some_iff.mp h
  obtain ⟨-, h⟩ := Option.ite_none_right_eq_some.mp h
  obtain rfl : ⟨analyzerOptions, minDf, maxDf, maxFeatures⟩ = o := Option.some.inj h
  have hmin : L.floats.eqNumber minDf minDf = true := by
    rcases readField_eq_some hminDf with rfl | ⟨value, hvalue⟩
    · rfl
    · exact eqNumber_self hL (isFinite_of_readFrequency hvalue)
  have hmax : eqNullable L maxDf maxDf = true := by
    cases maxDf with
    | none => rfl
    | some n =>
      rcases readField_eq_some hmaxDf with hdefault | ⟨value, hvalue⟩
      · cases hdefault
      · obtain ⟨value, hread⟩ := exists_of_readNullable hvalue
        exact eqNumber_self hL (isFinite_of_readFrequency hread)
  simp [VocabularyOptions.eq, hmin, hmax]

/-- The options that the readers take from two files of an artifact are equal. -/
theorem Options.eq_self (hL : L.Lawful) {provider : Provider} (hprovider : provider ∈ textProviders)
    {o : Options F} (h : readOptions L members provider = some o) : o.eq L o = true := by
  have hvocabulary : ∀ {v : VocabularyOptions F} {binary : Bool},
      readVocabularyOptions L members = some v → (Options.vocabulary v binary).eq L (.vocabulary v binary) =
        true := fun hv => by
    simp [Options.eq, VocabularyOptions.eq_self hL hv]
  simp only [textProviders, List.mem_cons, List.not_mem_nil, or_false] at hprovider
  rcases hprovider with rfl | rfl | rfl | rfl
  · obtain ⟨-, h⟩ := Option.ite_none_right_eq_some.mp h
    obtain ⟨v, hv, h⟩ := Option.bind_eq_some_iff.mp h
    obtain ⟨binary, -, h⟩ := Option.bind_eq_some_iff.mp h
    obtain rfl : .vocabulary v binary = o := Option.some.inj h
    exact hvocabulary hv
  · obtain ⟨-, h⟩ := Option.ite_none_right_eq_some.mp h
    obtain ⟨v, hv, h⟩ := Option.bind_eq_some_iff.mp h
    obtain ⟨binary, -, h⟩ := Option.bind_eq_some_iff.mp h
    obtain rfl : .vocabulary v binary = o := Option.some.inj h
    exact hvocabulary hv
  · obtain ⟨⟨a, nFeatures, sign, rfl⟩, -⟩ := readOptions_hashing hL h
    simp [Options.eq]
  · obtain ⟨⟨v, alpha, rfl, halpha⟩, -⟩ := readOptions_naiveBayes hL h
    obtain ⟨-, h⟩ := Option.ite_none_right_eq_some.mp h
    obtain ⟨one, -, h⟩ := Option.bind_eq_some_iff.mp h
    obtain ⟨v', hv, h⟩ := Option.bind_eq_some_iff.mp h
    obtain ⟨alpha', -, h⟩ := Option.bind_eq_some_iff.mp h
    obtain ⟨rfl, -⟩ := Options.naiveBayes.inj (Option.some.inj h)
    simp [Options.eq, VocabularyOptions.eq_self hL hv, eqNumber_self hL (isFinite_of_readAlpha halpha)]

/-- The options of an artifact are read back as they are. -/
theorem validatePersistedMlOptions_reloaded (hL : L.Lawful) {provider : Provider}
    (hprovider : provider ∈ textProviders) {o : Options F} (h : readOptions L members provider = some o) :
    validatePersistedMlOptions L matrix provider (some (Value.object o.dump).sorted) = .ok o := by
  have hnormalize : normalizeLegacyPersistedOptions L provider (Value.reloaded o.dump) =
      .ok (Value.reloaded o.dump) := normalize_of_absent (lookup_legacy hL hprovider h)
  rw [Value.sorted_object, validatePersistedMlOptions, hnormalize]
  exact (validateProviderOptions_eq_ok hprovider).mpr (readOptions_reloaded hL hprovider h)

end Back

end Stel.Ml
