import Stel.Ml.NaiveBayes

/-!
# Artifacts

The files of a fitted model: the writers and readers of `classic_ml/artifacts.py`, `classic_ml/text.py` and
`classic_ml/classifier.py`. A directory of regular files maps their names to their texts.

## Main definitions

* `featureMetadata`, `writeArtifact`, `readArtifact`: vectorizers.
* `classifierMetadata`, `writeClassifierArtifact`, `readClassifierArtifact`: classifiers.
-/

namespace Stel.Ml

/-- The errors of artifacts, and the exceptions that are none. -/
inductive ArtifactFailure
  | missing (message : String)
  | stale (message : String)
  | incompatible (message : String)
  | raised (failure : Failure)

/-- `if p: raise failure`. -/
def failIf (p : Prop) [Decidable p] (failure : ArtifactFailure) : Except ArtifactFailure Unit :=
  if p then .error failure else .ok ()

theorem failIf_eq_ok {p : Prop} [Decidable p] {failure : ArtifactFailure} :
    failIf p failure = .ok () ↔ ¬ p := by
  unfold failIf
  split <;> simp [*]

/-- A value that a check needs. -/
def orFail {α : Type} (failure : ArtifactFailure) : Option α → Except ArtifactFailure α
  | some a => .ok a
  | none => .error failure

/-- The files of a directory. -/
abbrev Directory (F : Type) : Type := String → Option (JsonText F)

section Files

variable {F : Type}

/-- `(path / name).write_text(text)`. -/
def Directory.write (dir : Directory F) (name : String) (text : JsonText F) : Directory F :=
  fun other => if other = name then some text else dir other

@[simp] theorem Directory.write_same (dir : Directory F) (name : String) (text : JsonText F) :
    dir.write name text name = some text := if_pos rfl

theorem Directory.write_other (dir : Directory F) {name other : String} (text : JsonText F)
    (h : other ≠ name) : dir.write name text other = dir other := if_neg h

/-- `members[name] = value`. -/
def setMember (members : List (String × Value F)) (name : String) (value : Value F) :
    List (String × Value F) :=
  if members.any fun m => m.1 = name then members.map fun m => if m.1 = name then (name, value) else m
  else members ++ [(name, value)]

end Files

/-! ### Hashes and versions -/

/-- `ARTIFACT_SCHEMA_VERSION`. -/
def artifactSchemaVersion : ℤ := 2

/-- The versions of the interpreter and of two distributions, which are texts that are not empty. -/
structure Versions where
  python : String
  stel : String
  polars : String
  python_ne : python ≠ ""
  stel_ne : stel ≠ ""
  polars_ne : polars ≠ ""

section Hashes

variable {F : Type} (L : Library F)

/-- `_runtime_versions`. -/
def runtimeVersions (versions : Versions) (provider : Provider) : Value F :=
  .object [("python", .str versions.python), ("dbt_ml", .str versions.stel),
    ("polars", .str versions.polars), ("provider", .str provider.text)]

/-- `_hash_json`. -/
def hashJson (value : Value F) : String := L.hashJson value.dumps

/-- `_artifact_version`. -/
def artifactVersion (metadata : List (String × Value F)) : String :=
  hashJson L (.object (metadata.filter fun m => m.1 ≠ "artifact_version"))

/-- `_artifact_files_hash`. A model without files is hashed by its summary. -/
def artifactFilesHash (dir : Directory F) (path : String) (payloadFiles : List String)
    (summary : Option (Value F)) : Except ArtifactFailure String :=
  if payloadFiles = [] then
    match summary with
    | some summary => .ok (hashJson L summary)
    | none => .error (.raised (.other "KeyError"))
  else do
    let files ← (payloadFiles.insertionSort (· ≤ ·)).mapM fun name =>
      match dir name with
      | some text => .ok (name, text)
      | none => .error (.missing
        s!"missing artifact payload '{name}' at {path}; run fit or fit_transform again")
    return L.hashFiles files

/-- The `provider`, `options` and `n_features` of a vectorizer. -/
def Vectorizer.summary (v : Vectorizer F) : Value F :=
  .object [("provider", .str v.provider.text), ("options", .object v.options.dump),
    ("n_features", .int v.nFeatures)]

/-- `_project_metrics`. -/
def projectMetrics (ml : MLConfig (Value F)) (metrics : List (String × Value F)) : List (String × Value F) :=
  if ml.metrics = [] then metrics
  else ml.metrics.reverse.dedup.reverse.map fun name => (name, (metrics.lookup name).getD .null)

end Hashes

/-! ### Metadata -/

section Metadata

variable {F : Type} (L : Library F)

/-- A dictionary of floats. -/
def floatMembers (entries : List (String × F)) : Value F :=
  .object (entries.map fun entry => (entry.1, .float entry.2))

/-- A dictionary of numbers. -/
def numberMembers (entries : List (String × Number F)) : Value F :=
  .object (entries.map fun entry => (entry.1, .ofNumber entry.2))

/-- What `_metadata` and `_classifier_metadata` are given beside the model. -/
structure MetadataInput (F : Type) where
  modelName : String
  versions : Versions
  includeMetrics : Bool
  trainingInput : Value F
  metrics : List (String × Value F)
  codeVersion : String

/-- The member `metrics`, where it is included. -/
def metricsMember (input : MetadataInput F) (ml : MLConfig (Value F)) : List (String × Value F) :=
  if input.includeMetrics then [("metrics", .object (projectMetrics ml input.metrics))] else []

/-- `_metadata`. -/
def featureMetadata (input : MetadataInput F) (ml : MLConfig (Value F)) (provider : Provider)
    (v : Vectorizer F) (providerOptions : Options F) : List (String × Value F) :=
  [("artifact_schema_version", .int artifactSchemaVersion), ("artifact_type", .str "classic_ml"),
    ("model_name", .str input.modelName), ("task", .str ml.task.text), ("provider", .str provider.text),
    ("mode", .str ml.mode.text), ("text_field", .ofOption .str ml.textField),
    ("code_version", .str input.codeVersion),
    ("config_hash", .str (hashJson L (.object [("task", .str ml.task.text), ("provider", .str provider.text),
      ("text_field", .ofOption .str ml.textField), ("options", .object providerOptions.dump)]))),
    ("runtime", runtimeVersions input.versions provider), ("training_input", input.trainingInput),
    ("integrity", .object [("feature_count", .int v.nFeatures)]),
    ("files", .texts (if provider = .hashing then ["metadata.json"]
      else ["metadata.json", "vocabulary.json"])),
    ("options", .object providerOptions.dump),
    ("vocabulary_hash", .str (hashJson L (.texts v.vocabulary))),
    ("idf_hash", .str (hashJson L (floatMembers v.idf)))] ++ metricsMember input ml

/-- `_classifier_payload`. -/
def classifierPayload (c : Classifier F) : Value F :=
  .object [("provider", .str c.provider.text), ("classes", .texts c.classes),
    ("vocabulary", .texts c.vocabulary), ("n_features", .int c.nFeatures),
    ("options", .object c.options.dump), ("alpha", .float c.alpha),
    ("class_doc_counts", numberMembers c.classDocCounts),
    ("class_log_prior", numberMembers c.classLogPrior),
    ("feature_log_prob", .object (c.featureLogProb.map fun entry => (entry.1, numberMembers entry.2))),
    ("default_log_prob", numberMembers c.defaultLogProb)]

/-- `_classifier_metadata`. -/
def classifierMetadata (input : MetadataInput F) (ml : MLConfig (Value F)) (provider : Provider)
    (c : Classifier F) : Except Failure (List (String × Value F)) := do
  let classCount ← orRaise "KeyError" (input.metrics.lookup "class_count")
  return [("artifact_schema_version", .int artifactSchemaVersion), ("artifact_type", .str "classic_ml"),
    ("model_name", .str input.modelName), ("task", .str ml.task.text), ("provider", .str provider.text),
    ("mode", .str ml.mode.text), ("text_field", .ofOption .str ml.textField),
    ("label_field", .ofOption .str ml.labelField), ("code_version", .str input.codeVersion),
    ("config_hash", .str (hashJson L (.object [("task", .str ml.task.text), ("provider", .str provider.text),
      ("text_field", .ofOption .str ml.textField), ("label_field", .ofOption .str ml.labelField),
      ("options", .object c.options.dump)]))),
    ("runtime", runtimeVersions input.versions provider), ("training_input", input.trainingInput),
    ("integrity", .object [("class_count", classCount), ("feature_count", .int c.vocabulary.length)]),
    ("files", .texts ["metadata.json", "model.json"]), ("options", .object c.options.dump),
    ("classes_hash", .str (hashJson L (.texts c.classes))),
    ("vocabulary_hash", .str (hashJson L (.texts c.vocabulary))),
    ("model_hash", .str (hashJson L (classifierPayload c)))] ++ metricsMember input ml

end Metadata

/-! ### Writing -/

section Writing

variable {F : Type} (L : Library F)

/-- The end of `_write_artifact` and `_write_classifier_artifact`: the files are hashed, and the metadata
are written. -/
def finishArtifact (dir : Directory F) (path : String) (metadata : List (String × Value F))
    (payloadFiles : List String) (summary : Option (Value F)) :
    Except ArtifactFailure (Directory F × List (String × Value F)) := do
  let metadata := setMember metadata "files" (.texts ("metadata.json" :: payloadFiles))
  let filesHash ← artifactFilesHash L dir path payloadFiles summary
  let metadata := setMember metadata "artifact_files_hash" (.str filesHash)
  let metadata := setMember metadata "artifact_version" (.str (artifactVersion L metadata))
  return (dir.write "metadata.json" (Value.object metadata).dumps, metadata)

/-- The payload of a vectorizer. -/
def vectorizerPayload (v : Vectorizer F) : Value F :=
  .object [("provider", .str v.provider.text), ("terms", .texts v.vocabulary), ("idf", floatMembers v.idf),
    ("options", .object v.options.dump)]

/-- `_write_artifact`, with `_write_artifact_payload`. -/
def writeArtifact (dir : Directory F) (path : String) (metadata : List (String × Value F))
    (v : Vectorizer F) : Except ArtifactFailure (Directory F × List (String × Value F)) :=
  if v.provider = .hashing then finishArtifact L dir path metadata [] (some v.summary)
  else finishArtifact L (dir.write "vocabulary.json" (vectorizerPayload v).dumps) path metadata
    ["vocabulary.json"] (some v.summary)

/-- `_write_classifier_artifact`. -/
def writeClassifierArtifact (dir : Directory F) (path : String) (metadata : List (String × Value F))
    (c : Classifier F) : Except ArtifactFailure (Directory F × List (String × Value F)) :=
  finishArtifact L (dir.write "model.json" (classifierPayload c).dumps) path metadata ["model.json"]
    (some (Value.object [("provider", .str c.provider.text), ("options", .object c.options.dump),
      ("n_features", .int c.nFeatures)]))

end Writing

/-! ### Reading -/

section Reading

variable {F : Type} (L : Library F) (matrix : OptionsReader (Value F) (List (String × Value F)))

/-- `_read_artifact_json`. -/
def readArtifactJson (dir : Directory F) (path file label : String) :
    Except ArtifactFailure (List (String × Value F)) :=
  match dir file with
  | none => .error (.missing (s!"missing artifact payload '{file}' at {path}; run fit/fit_transform or " ++
      "supply a stel-native artifact first"))
  | some text =>
    match text.loads with
    | .object members => .ok members
    | _ => .error (.incompatible s!"malformed {label} JSON at {path}: expected an object")

/-- `_read_metadata`. -/
def readMetadata (dir : Directory F) (path : String) : Except ArtifactFailure (List (String × Value F)) :=
  if (dir "metadata.json").isNone then
    .error (.missing (s!"missing artifact metadata at {path}/metadata.json; run fit/fit_transform or " ++
      "supply a stel-native artifact first"))
  else readArtifactJson dir path "metadata.json" "metadata"

/-- `value == s`, for a text. -/
def isText (s : String) : Option (Value F) → Bool
  | some (.str t) => t = s
  | _ => false

/-- `value == ss`, for a list of texts. -/
def isTexts (ss : List String) : Option (Value F) → Bool
  | some (.list items) => items.length = ss.length && (items.zip ss).all fun (item, s) => isText s (some item)
  | _ => false

/-- `value == n`, for an `int`. -/
def isInt (n : ℤ) (value : Option (Value F)) : Bool := value.any fun value => equalsInt L value n

/-- A value that is an `int` and no `bool`. -/
def exactInt : Value F → Option ℤ
  | .int n => some n
  | _ => none

/-- A text that is not empty. -/
def isNonEmpty : Option (Value F) → Bool
  | some (.str s) => s ≠ ""
  | _ => false

/-- The members of a dictionary. -/
def members? : Option (Value F) → Option (List (String × Value F))
  | some (.object members) => some members
  | _ => none

/-- The runtime of an artifact, with its fields. -/
def hasRuntime (runtime : Option (Value F)) : Bool :=
  (members? runtime).any fun fields =>
    ["python", "dbt_ml", "polars", "provider"].all fun field => isNonEmpty (fields.lookup field)

/-- `_validate_metadata`. -/
def validateMetadata (metadata : List (String × Value F)) (path : String) (provider : Provider)
    (ml : MLConfig (Value F)) (expectedFiles : List String) : Except ArtifactFailure Unit := do
  let found := fun name => L.repr (metadata.lookup name)
  failIf (isInt L artifactSchemaVersion (metadata.lookup "artifact_schema_version") = false) (.incompatible
    (s!"incompatible artifact schema at {path}: expected {artifactSchemaVersion}, found " ++
      found "artifact_schema_version" ++
      "; feature semantics changed - run fit or fit_transform to rebuild"))
  failIf (isText "classic_ml" (metadata.lookup "artifact_type") = false) (.incompatible
    (s!"incompatible artifact type at {path}: " ++ found "artifact_type"))
  failIf (isText provider.text (metadata.lookup "provider") = false) (.incompatible
    (s!"incompatible artifact provider at {path}: expected {provider.text}, found " ++ found "provider"))
  failIf (isText ml.task.text (metadata.lookup "task") = false) (.incompatible
    (s!"incompatible artifact task at {path}: expected {ml.task.text}, found " ++ found "task"))
  failIf (["fit", "fit_transform", "load_pretrained"].all
      (fun mode => isText mode (metadata.lookup "mode") = false) = true) (.incompatible
    (s!"incompatible artifact mode at {path}: expected a fitted or pretrained artifact, found " ++
      found "mode"))
  failIf (isTexts expectedFiles (metadata.lookup "files") = false) (.incompatible
    (s!"incompatible artifact file contract at {path}: expected {listText expectedFiles}, found " ++
      found "files"))
  failIf (hasRuntime (metadata.lookup "runtime") = false) (.incompatible
    (s!"incompatible artifact runtime contract at {path}: expected non-empty fields " ++
      listText ["python", "dbt_ml", "polars", "provider"]))
  let runtimeProvider := (members? (metadata.lookup "runtime")).bind (List.lookup "provider")
  failIf (isText provider.text runtimeProvider = false) (.incompatible
    (s!"incompatible artifact runtime provider at {path}: expected {provider.text}, found " ++
      L.repr runtimeProvider))
  failIf ((members? (metadata.lookup "options")).isNone = true) (.incompatible
    s!"incompatible artifact options at {path}: expected an object")
  failIf (((metadata.lookup "artifact_files_hash").bind readText).isNone = true) (.incompatible
    s!"incompatible artifact file hash at {path}: expected a string")
  failIf (isText (artifactVersion L metadata) (metadata.lookup "artifact_version") = false) (.stale
    s!"stale artifact metadata at {path}: artifact_version does not match metadata")

/-- `_validate_artifact_payload`. -/
def validateArtifactPayload (dir : Directory F) (metadata : List (String × Value F)) (path : String)
    (summary : Option (Value F)) : Except ArtifactFailure Unit := do
  let files := (((metadata.lookup "files").bind readItems).getD []).filterMap readText
  let actualHash ← artifactFilesHash L dir path (files.filter (· ≠ "metadata.json")) summary
  failIf (isText actualHash (metadata.lookup "artifact_files_hash") = false) (.stale
    s!"stale artifact payload at {path}: artifact_files_hash does not match files")

/-- `_validated_persisted_options`. -/
def validatedPersistedOptions (provider : Provider) (options : Option (Value F)) (path surface : String) :
    Except ArtifactFailure (Options F) :=
  (validatePersistedMlOptions L matrix provider options).mapError fun e =>
    .incompatible s!"incompatible {surface} at {path}: {e.message}"

/-- `options["n_features"]`. -/
def Options.nFeatures? : Options F → Option ℕ
  | .hashing _ nFeatures _ => some nFeatures
  | _ => none

/-- `_read_artifact` of a hashing vectorizer, from its metadata. -/
def readHashingArtifact (dir : Directory F) (path : String) (provider : Provider)
    (metadata : List (String × Value F)) (options : Options F) :
    Except ArtifactFailure (List (String × Value F) × Vectorizer F) := do
  let integrity := members? (metadata.lookup "integrity")
  let featureCount := integrity.bind (List.lookup "feature_count")
  failIf (featureCount.isNone = true) (.incompatible
    s!"incompatible hashing artifact integrity at {path}: missing feature_count")
  let nFeatures ← (orRaise "KeyError" options.nFeatures?).mapError .raised
  failIf (isInt L nFeatures featureCount = false) (.incompatible
    s!"incompatible artifact integrity at {path}: feature_count does not match persisted n_features")
  failIf ((featureCount.bind exactInt).isNone = true) (.incompatible
    s!"incompatible hashing artifact integrity at {path}: feature_count must be an integer")
  failIf (isInt L nFeatures featureCount = false) (.incompatible
    (s!"incompatible hashing artifact integrity at {path}: expected {nFeatures} features, found " ++
      L.repr featureCount))
  let v : Vectorizer F := ⟨provider, [], [], nFeatures, options⟩
  validateArtifactPayload L dir metadata path (some v.summary)
  return (metadata, v)

/-- A list of texts that are different. -/
def readUnique : Value F → Option (List String)
  | .list items => (items.mapM readText).filter fun ss => decide ss.Nodup
  | _ => none

/-- A value that is an `int` or a `float`, and no `bool`. -/
def number? : Value F → Option (Number F)
  | .int n => some (.int n)
  | .float x => some (.float x)
  | _ => none

/-- `set(entries) == set(names)`. -/
def sameKeys {β : Type} (entries : List (String × β)) (names : List String) : Bool :=
  entries.all (fun entry => names.contains entry.1) &&
    names.all fun name => (entries.map Prod.fst).contains name

/-- `float(number)` in a reader. -/
def readFloat (n : Number F) : Except ArtifactFailure F := (numberFloat L n).mapError .raised

/-- The idf values of a payload. -/
def readIdf (path : String) (provider : Provider) (vocabulary : List String) (value : Value F) :
    Except ArtifactFailure (List (String × F)) := do
  let entries ← orFail (.incompatible
    s!"incompatible vocabulary idf values at {path}: expected an object") (members? (some value))
  let numbers ← orFail (.incompatible
    s!"incompatible vocabulary idf values at {path}: expected numbers")
    (entries.mapM fun entry => (number? entry.2).map (entry.1, ·))
  let idf ← numbers.mapM fun entry => (readFloat L entry.2).map (entry.1, ·)
  failIf (idf.any (fun entry => L.floats.isFinite entry.2 = false) = true) (.incompatible
    s!"incompatible vocabulary idf values at {path}: values must be finite")
  failIf (provider = .count ∧ idf ≠ []) (.incompatible
    s!"incompatible count-vector artifact at {path}: idf must be empty")
  failIf (provider = .tfidf ∧ sameKeys idf vocabulary = false) (.incompatible
    s!"incompatible TF-IDF artifact at {path}: idf keys must match terms")
  return idf

/-- The check of a count in `integrity`. -/
def validateCount (integrity : List (String × Value F)) (name : String) (n : ℕ)
    (failure : ArtifactFailure) : Except ArtifactFailure Unit :=
  failIf ((integrity.lookup name).bind exactInt ≠ some (n : ℤ)) failure

/-- The members of `integrity`, where there is one. -/
def readIntegrity (metadata : List (String × Value F)) (failure : ArtifactFailure) :
    Except ArtifactFailure (Option (List (String × Value F))) :=
  match metadata.lookup "integrity" with
  | none | some .null => .ok none
  | some (.object integrity) => .ok (some integrity)
  | _ => .error failure

/-- `_read_artifact` of a vectorizer with a vocabulary, from its metadata. -/
def readVocabularyArtifact (dir : Directory F) (path : String) (provider : Provider)
    (metadata : List (String × Value F)) (options : Options F) :
    Except ArtifactFailure (List (String × Value F) × Vectorizer F) := do
  validateArtifactPayload L dir metadata path none
  let payload ← readArtifactJson dir path "vocabulary.json" "vocabulary"
  failIf (isText provider.text (payload.lookup "provider") = false) (.incompatible
    (s!"incompatible vocabulary provider at {path}: expected {provider.text}, found " ++
      L.repr (payload.lookup "provider")))
  let terms ← orFail (.incompatible s!"malformed vocabulary payload at {path}: 'terms'")
    (payload.lookup "terms")
  let idfPayload ← orFail (.incompatible s!"malformed vocabulary payload at {path}: 'idf'")
    (payload.lookup "idf")
  let vocabulary ← orFail (.incompatible
    s!"incompatible vocabulary terms at {path}: expected unique strings") (readUnique terms)
  let idf ← readIdf L path provider vocabulary idfPayload
  let payloadOptions ← validatedPersistedOptions L matrix provider (payload.lookup "options") path
    "vocabulary payload"
  failIf (payloadOptions.eq L options = false) (.incompatible
    s!"incompatible vocabulary options at {path}: metadata and payload differ")
  let integrity ← readIntegrity metadata (.incompatible
    s!"incompatible artifact integrity at {path}: expected an object")
  (integrity.toList).forM fun integrity =>
    validateCount integrity "feature_count" vocabulary.length (.incompatible
      s!"incompatible artifact integrity at {path}: feature_count mismatch")
  return (metadata, ⟨provider, vocabulary, idf, vocabulary.length, payloadOptions⟩)

/-- The files of a vectorizer. -/
def vectorizerFiles (provider : Provider) : List String :=
  if provider = .hashing then ["metadata.json"] else ["metadata.json", "vocabulary.json"]

/-- `_read_artifact`. -/
def readArtifact (dir : Directory F) (path : String) (provider : Provider) (ml : MLConfig (Value F)) :
    Except ArtifactFailure (List (String × Value F) × Vectorizer F) := do
  let metadata ← readMetadata dir path
  validateMetadata L metadata path provider ml (vectorizerFiles provider)
  let options ← validatedPersistedOptions L matrix provider (metadata.lookup "options") path "metadata"
  if provider = .hashing then readHashingArtifact L dir path provider metadata options
  else readVocabularyArtifact L matrix dir path provider metadata options

/-! ### Reading a classifier -/

/-- The error of `_validate_classifier_payload`. -/
def malformed (path message : String) : ArtifactFailure :=
  .incompatible s!"malformed classifier payload at {path}: {message}"

/-- Values that are finite numbers. -/
def readFinite (path message : String) (entries : List (String × Value F)) :
    Except ArtifactFailure (List (String × Number F)) :=
  entries.mapM fun entry => do
    let n ← orFail (malformed path message) (number? entry.2)
    let x ← readFloat L n
    failIf (L.floats.isFinite x = false) (malformed path message)
    return (entry.1, n)

/-- A dictionary over some names with finite numbers. -/
def readNumbers (path field keysMessage : String) (names : List String) (value : Option (Value F)) :
    Except ArtifactFailure (List (String × Number F)) := do
  let entries ← orFail (malformed path keysMessage)
    ((members? value).filter fun entries => sameKeys entries names)
  readFinite L path s!"{field} values must be finite numbers" entries

/-- A field with a number for each class. -/
def readClassField (path : String) (classes : List String) (payload : List (String × Value F))
    (field : String) : Except ArtifactFailure (List (String × Number F)) := do
  let value ← orFail (malformed path s!"'{field}'") (payload.lookup field)
  readNumbers L path field s!"{field} keys must match classes" classes (some value)

/-- The field `feature_log_prob`. -/
def readFeatureLogProb (path : String) (classes vocabulary : List String)
    (payload : List (String × Value F)) :
    Except ArtifactFailure (List (String × List (String × Number F))) := do
  let value ← orFail (malformed path "'feature_log_prob'") (payload.lookup "feature_log_prob")
  let probabilities ← orFail (malformed path "feature_log_prob keys must match classes")
    ((members? (some value)).filter fun entries => sameKeys entries classes)
  classes.mapM fun label =>
    let field := "feature_log_prob[" ++ L.repr (some (.str label)) ++ "]"
    (readNumbers L path field (field ++ " keys must match vocabulary") vocabulary
      (probabilities.lookup label)).map (label, ·)

/-- `_validate_classifier_payload`, with the classifier of the payload. -/
def validateClassifierPayload (path : String) (provider : Provider) (payload : List (String × Value F))
    (options : Options F) (alpha : F) : Except ArtifactFailure (Classifier F) := do
  failIf (isText provider.text (payload.lookup "provider") = false) (malformed path
    (s!"expected provider {provider.text}, found " ++ L.repr (payload.lookup "provider")))
  let classesValue ← orFail (malformed path "'classes'") (payload.lookup "classes")
  let vocabularyValue ← orFail (malformed path "'vocabulary'") (payload.lookup "vocabulary")
  let classes ← orFail (malformed path "classes must be a non-empty list of unique strings")
    ((readUnique classesValue).filter fun classes => classes ≠ [])
  let vocabulary ← orFail (malformed path "vocabulary must be a list of unique strings")
    (readUnique vocabularyValue)
  let nFeatures ← orFail (malformed path "'n_features'") (payload.lookup "n_features")
  failIf (exactInt nFeatures ≠ some (vocabulary.length : ℤ))
    (malformed path "n_features must match vocabulary length")
  failIf (L.floats.isFinite alpha = false ∨ L.floats.cmpInt alpha 0 = some .lt ∨
    L.floats.cmpInt alpha 0 = some .eq) (malformed path "alpha must be finite and positive")
  let classDocCounts ← readClassField L path classes payload "class_doc_counts"
  let classLogPrior ← readClassField L path classes payload "class_log_prior"
  let defaultLogProb ← readClassField L path classes payload "default_log_prob"
  let featureLogProb ← readFeatureLogProb L path classes vocabulary payload
  return ⟨provider, classes, vocabulary, vocabulary.length, options, classDocCounts, classLogPrior,
    featureLogProb, defaultLogProb, alpha⟩

/-- The options of a payload, which in a legacy one do not have the smoothing. -/
def payloadOptions (payload : List (String × Value F)) : Option (Value F) :=
  match payload.lookup "options" with
  | some (.object options) =>
    if (options.lookup "alpha").isNone then
      some (.object (options ++ [("alpha", (payload.lookup "alpha").getD .null)]))
    else some (.object options)
  | other => other

/-- `_read_classifier_artifact`. -/
def readClassifierArtifact (dir : Directory F) (path : String) (provider : Provider)
    (ml : MLConfig (Value F)) : Except ArtifactFailure (List (String × Value F) × Classifier F) := do
  let metadata ← readMetadata dir path
  validateMetadata L metadata path provider ml ["metadata.json", "model.json"]
  let metadataOptions ← validatedPersistedOptions L matrix provider (metadata.lookup "options") path
    "metadata"
  validateArtifactPayload L dir metadata path none
  let payload ← readArtifactJson dir path "model.json" "classifier model"
  let options ← validatedPersistedOptions L matrix provider (payloadOptions payload) path
    "classifier payload"
  failIf (options.eq L metadataOptions = false) (.incompatible
    s!"incompatible classifier options at {path}: metadata and payload differ")
  let alphaNumber ← orFail (.raised (.other "KeyError")) options.alpha?
  let alpha ← readFloat L alphaNumber
  let classifier ← validateClassifierPayload L path provider payload options alpha
  let integrity ← readIntegrity metadata (.incompatible
    s!"incompatible classifier integrity at {path}: expected an object")
  (integrity.toList).forM fun integrity => do
    validateCount integrity "class_count" classifier.classes.length (.incompatible
      s!"incompatible classifier integrity at {path}: class_count mismatch")
    validateCount integrity "feature_count" classifier.vocabulary.length (.incompatible
      s!"incompatible classifier integrity at {path}: feature_count mismatch")
  return (metadata, classifier)

end Reading

end Stel.Ml
