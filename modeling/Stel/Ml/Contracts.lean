import Stel.Ml.ArtifactPaths
import Stel.Dag.Selection
import Stel.Data.Pairs

/-!
# Contracts of ML models

`validate_ml_contract` and `validate_ml_project_contracts` of `ml_contracts.py`. A contract fixes the
task, the provider and the artifact directory of a model; the contracts of a project fix which models
may share a directory. The options of a provider are read by its pydantic model, which is a parameter
here.

## Main definitions

* `MLConfig`, `Provider`, `ExecutableMLContract`: an `ml:` block, the providers and the contracts.
* `validateMlContract`, `validateArtifactDependencies`, `validateMlProjectContracts`: the code.
-/

namespace Stel.Ml

/-! ### Configuration -/

inductive MlTask
  | features
  | classifier
  | regressor
  | cluster
  | topicModel
  | nlp
  deriving DecidableEq

def MlTask.text : MlTask → String
  | features => "features"
  | classifier => "classifier"
  | regressor => "regressor"
  | cluster => "cluster"
  | topicModel => "topic_model"
  | nlp => "nlp"

inductive MlMode
  | fitTransform
  | fit
  | predict
  | loadPretrained
  deriving DecidableEq

def MlMode.text : MlMode → String
  | fitTransform => "fit_transform"
  | fit => "fit"
  | predict => "predict"
  | loadPretrained => "load_pretrained"

/-- `mode in {"fit", "fit_transform"}`. -/
def MlMode.fits (mode : MlMode) : Bool := mode = .fit ∨ mode = .fitTransform

/-- An `ml:` block, whose options are values of the type `ω`. -/
structure MLConfig (ω : Type) where
  task : MlTask
  mode : MlMode := .fitTransform
  provider : Option String := none
  textField : Option String := none
  labelField : Option String := none
  artifactPath : Option ConfiguredPath := none
  external : Bool := false
  metrics : List String := []
  options : List (String × ω) := []

/-- A model with an `ml:` block. -/
structure MLModel (ω : Type) extends ModelConfig where
  ml : MLConfig ω

/-- A model of a project. -/
structure ProjectModel (ω : Type) extends ModelConfig where
  ml : Option (MLConfig ω)

/-- The paths of a project. -/
structure ProjectConfig where
  sourcePaths : List ConfiguredPath
  modelPaths : List ConfiguredPath
  transformPaths : List ConfiguredPath
  targetPath : ConfiguredPath

/-! ### Providers -/

inductive Provider
  | count
  | tfidf
  | hashing
  | naiveBayes
  | kmeans
  | dbscan
  | hdbscan
  | nmf
  | lda
  deriving DecidableEq

namespace Provider

def text : Provider → String
  | count => "builtin.count"
  | tfidf => "builtin.tfidf"
  | hashing => "builtin.hashing"
  | naiveBayes => "builtin.naive_bayes"
  | kmeans => "builtin.kmeans"
  | dbscan => "builtin.dbscan"
  | hdbscan => "builtin.hdbscan"
  | nmf => "builtin.nmf"
  | lda => "builtin.lda"

/-- `_PROVIDERS`, in order. -/
def all : List Provider := [count, tfidf, hashing, naiveBayes, kmeans, dbscan, hdbscan, nmf, lda]

/-- `_PROVIDERS[provider].task`. -/
def task : Provider → MlTask
  | count | tfidf | hashing => .features
  | naiveBayes => .classifier
  | kmeans | dbscan | hdbscan => .cluster
  | nmf | lda => .topicModel

/-- `_PROVIDERS[provider].artifact_files`. -/
def artifactFiles : Provider → List String
  | count | tfidf => ["metadata.json", "vocabulary.json"]
  | hashing => ["metadata.json"]
  | _ => ["metadata.json", "model.json"]

/-- `_PROVIDERS[provider].metrics`, sorted. -/
def metrics : Provider → List String
  | count | tfidf => ["feature_rows", "row_count", "vocabulary_size"]
  | hashing => ["feature_rows", "hash_buckets", "row_count", "vocabulary_size"]
  | naiveBayes => ["accuracy", "class_count", "labeled_row_count", "prediction_rows", "row_count",
      "vocabulary_size"]
  | kmeans => ["inertia", "n_clusters", "noise_points", "row_count", "silhouette"]
  | dbscan | hdbscan => ["n_clusters", "noise_points", "row_count", "silhouette"]
  | nmf => ["n_topics", "reconstruction_error", "row_count", "topic_coherence"]
  | lda => ["n_topics", "perplexity", "row_count", "topic_coherence"]

/-- The provider of a name. -/
def ofName (name : String) : Option Provider := all.find? fun provider => provider.text = name

end Provider

/-- `_DEFAULT_PROVIDERS`. -/
def defaultProvider : MlTask → Option Provider
  | .features => some .tfidf
  | .classifier => some .naiveBayes
  | .cluster => some .kmeans
  | .topicModel => some .nmf
  | _ => none

/-- `task in _MATRIX_TASKS`. -/
def isMatrixTask (task : MlTask) : Bool := task = .cluster ∨ task = .topicModel

/-- The providers of a task, sorted. -/
def providersOf (task : MlTask) : List String :=
  sortedSet ((Provider.all.filter fun provider => provider.task = task).map Provider.text)

/-! ### Errors -/

inductive PathPart
  | key (name : String)
  | index (i : ℕ)
  deriving DecidableEq

def PathPart.text : PathPart → String
  | key name => name
  | index i => toString i

structure MLContractError where
  message : String
  modelName : Option String := none
  path : List PathPart := []
  deriving DecidableEq

/-- `if p: raise error`. -/
def rejectIf (p : Prop) [Decidable p] (error : MLContractError) : Except MLContractError Unit :=
  if p then .error error else .ok ()

/-- The text of a list of names. -/
def listText (names : List String) : String :=
  "[" ++ ", ".intercalate (names.map fun n => "'" ++ n ++ "'") ++ "]"

/-! ### One model -/

/-- `ExecutableMLContract`, with options of the type `ν`. -/
structure ExecutableMLContract (ν : Type) where
  task : MlTask
  provider : Provider
  options : ν
  artifactPath : AbsolutePath
  artifactFiles : List String

section Model

variable {ω ν : Type}

/-- What a pydantic model reads from options: the options, or the locations and texts of its
errors. -/
abbrev OptionsReader (ω ν : Type) : Type :=
  Provider → List (String × ω) → Except (List (List PathPart × String)) ν

variable (fs : FileSystem) (reader : OptionsReader ω ν) (project : ProjectConfig)
  (projectDir : AbsolutePath)

/-- `_validate_provider_options`. -/
def validateProviderOptions (provider : Provider) (options : List (String × ω)) (surface : String)
    (modelName : Option String) (pathPrefix : List PathPart) : Except MLContractError ν :=
  match reader provider options with
  | .ok validated => .ok validated
  | .error errors =>
    let details := "; ".intercalate (errors.map fun error =>
      ".".intercalate (error.1.map PathPart.text) ++ ": " ++ error.2)
    .error ⟨surface ++ " are invalid: " ++ details, modelName,
      pathPrefix ++ (errors.head?.map Prod.fst).getD []⟩

/-- An error about the artifact path of a model. -/
def artifactError (modelName message : String) : MLContractError :=
  ⟨message, some modelName, [.key "ml", .key "artifact", .key "path"]⟩

/-- `_validate_artifact_path_boundaries`. -/
def validateArtifactPathBoundaries (modelName : String) (artifactPath : AbsolutePath) :
    Except MLContractError Unit := do
  let layoutPaths := project.sourcePaths.map (("source-paths", ·)) ++
    project.modelPaths.map (("model-paths", ·)) ++
    project.transformPaths.map (("transform-paths", ·))
  layoutPaths.forM fun (label, configured) => do
    let layoutPath ← (resolveWithinProject fs configured projectDir ("`" ++ label ++ "`") false
      none).mapError (artifactError modelName)
    rejectIf (pathsOverlap fs artifactPath layoutPath = true) (artifactError modelName
      (s!"ML model '{modelName}' artifact path '{pathText artifactPath}' overlaps configured " ++
        s!"{label} root '{pathText layoutPath}'"))
  let targetRoot ← (resolveWithinProject fs project.targetPath projectDir "`target-path`" false
    none).mapError (artifactError modelName)
  rejectIf (artifactPath = targetRoot ∨ isRelativeTo targetRoot artifactPath = true)
    (artifactError modelName
      (s!"ML model '{modelName}' artifact path must not own project target root " ++
        s!"'{pathText targetRoot}'"))
  let artifactRoot := targetRoot ++ ["artifacts"]
  rejectIf (artifactPath = artifactRoot ∨ isRelativeTo artifactRoot artifactPath = true)
    (artifactError modelName
      (s!"ML model '{modelName}' artifact path must be below, not own, shared artifact root " ++
        s!"'{pathText artifactRoot}'"))
  let reservedPaths := [targetRoot ++ ["docs"], targetRoot ++ ["manifest.json"],
    targetRoot ++ ["run_results.json"], targetRoot ++ ["sources.yml"],
    artifactRoot ++ ["registry.json"]]
  reservedPaths.forM fun reserved =>
    rejectIf (pathsOverlap fs artifactPath reserved = true) (artifactError modelName
      (s!"ML model '{modelName}' artifact path '{pathText artifactPath}' overlaps reserved target " ++
        s!"artifact '{pathText reserved}'"))

/-- The task and the provider that a block names. -/
def executableProvider (name : String) (ml : MLConfig ω) : Except MLContractError Provider :=
  match defaultProvider ml.task with
  | none => .error ⟨s!"ML model '{name}' task '{ml.task.text}' is not executable; supported tasks " ++
      "are: classifier, features", some name, [.key "ml", .key "task"]⟩
  | some fallback =>
    let providerName := match ml.provider with
      | some provider => if provider = "" then fallback.text else provider
      | none => fallback.text
    match Provider.ofName providerName with
    | none => .error ⟨s!"ML model '{name}' provider '{providerName}' is not executable for task " ++
        s!"'{ml.task.text}'; supported providers: {listText (providersOf ml.task)}", some name,
        [.key "ml", .key "provider"]⟩
    | some provider =>
      if provider.task ≠ ml.task then
        .error ⟨s!"ML model '{name}' provider '{providerName}' implements task " ++
            s!"'{provider.task.text}', not '{ml.task.text}'; supported providers: " ++
            s!"{listText (providersOf ml.task)}", some name, [.key "ml", .key "provider"]⟩
      else .ok provider

/-- The checks of the fields of a block. -/
def validateFields (name : String) (ml : MLConfig ω) (provider : Provider) :
    Except MLContractError Unit := do
  rejectIf (isMatrixTask ml.task = false ∧ ml.textField.all isBlank = true)
    ⟨s!"ML model '{name}' requires `ml.text_field`", some name, [.key "ml", .key "text_field"]⟩
  rejectIf ((ml.task = .features ∨ isMatrixTask ml.task = true) ∧ ml.labelField ≠ none)
    ⟨s!"ML model '{name}' task '{ml.task.text}' does not use `ml.label_field`", some name,
      [.key "ml", .key "label_field"]⟩
  rejectIf (ml.task = .classifier ∧ ml.mode.fits = true ∧ ml.labelField.all isBlank = true)
    ⟨s!"Classifier model '{name}' requires `ml.label_field` for fitting", some name,
      [.key "ml", .key "label_field"]⟩
  rejectIf (provider ∈ [.dbscan, .hdbscan, .lda] ∧ ml.mode.fits = false)
    ⟨s!"ML model '{name}' provider '{provider.text}' supports mode 'fit_transform' or 'fit' only; " ++
        "it cannot assign new documents to a persisted model (use builtin.kmeans or builtin.nmf for " ++
        "prediction)", some name, [.key "ml", .key "mode"]⟩
  rejectIf (ml.mode.fits = false ∧ ml.options.isEmpty = false)
    ⟨s!"ML model '{name}' mode '{ml.mode.text}' loads provider options from its persisted artifact; " ++
        "remove `ml.options`", some name, [.key "ml", .key "options"]⟩

/-- The checks of the metrics of a block. -/
def validateMetrics (name : String) (ml : MLConfig ω) (provider : Provider) :
    Except MLContractError Unit := do
  let duplicates := (sortedSet ml.metrics).filter fun metric => 1 < ml.metrics.count metric
  rejectIf (duplicates ≠ [])
    ⟨s!"ML model '{name}' declares duplicate metrics: {listText duplicates}", some name,
      [.key "ml", .key "metrics", .index (ml.metrics.idxOf (duplicates.headD ""))]⟩
  let unknown := (sortedSet ml.metrics).filter fun metric => metric ∉ provider.metrics
  rejectIf (unknown ≠ [])
    ⟨s!"ML model '{name}' has unsupported metrics for provider '{provider.text}': " ++
        s!"{listText unknown}; supported metrics: {listText provider.metrics}", some name,
      [.key "ml", .key "metrics", .index (ml.metrics.idxOf (unknown.headD ""))]⟩

/-- The artifact directory of a block. -/
def validateArtifactPath (name : String) (ml : MLConfig ω) : Except MLContractError AbsolutePath := do
  rejectIf (ml.external = true ∧ ml.artifactPath = none)
    ⟨s!"ML model '{name}' sets `ml.artifact.external: true` without an explicit artifact `path:`",
      some name, [.key "ml", .key "artifact", .key "external"]⟩
  let configured := ml.artifactPath.getD
    ⟨project.targetPath.absolute, project.targetPath.parts ++ ["artifacts", name]⟩
  let artifactPath ← (resolveWithinProject fs configured projectDir
    s!"Model '{name}' ml.artifact.path" ml.external
    (some "Set `external: true` on the artifact block to allow it.")).mapError (artifactError name)
  rejectIf (artifactPath = fs.resolve projectDir ∨ artifactPath = []) (artifactError name
    (s!"ML model '{name}' artifact path must be a dedicated directory, not filesystem/project root " ++
      s!"'{pathText artifactPath}'"))
  rejectIf ((fs.stat artifactPath).isSome = true ∧ fs.isDir artifactPath = false) (artifactError name
    s!"ML model '{name}' artifact path is not a directory: {pathText artifactPath}")
  validateArtifactPathBoundaries fs project projectDir name artifactPath
  return artifactPath

/-- `validate_ml_contract`, for a model with an `ml:` block. -/
def validateMlContract (model : MLModel ω) : Except MLContractError (ExecutableMLContract ν) := do
  let provider ← executableProvider model.name model.ml
  validateFields model.name model.ml provider
  let options ← validateProviderOptions reader provider model.ml.options
    s!"ML model '{model.name}' options" (some model.name) [.key "ml", .key "options"]
  validateMetrics model.name model.ml provider
  let artifactPath ← validateArtifactPath fs project projectDir model.name model.ml
  return ⟨model.ml.task, provider, options, artifactPath, provider.artifactFiles⟩

end Model

/-! ### The project -/

section Project

variable {ω ν : Type}

/-- `{model.name: model for model in models if model.ml is not None}`: a name stands where it came
first, for the model that came last. -/
def mlModels (models : List (ProjectModel ω)) : List (MLModel ω) :=
  let declared : List (MLModel ω) := models.filterMap fun model =>
    model.ml.map fun ml => ⟨model.toModelConfig, ml⟩
  ((declared.map fun model => model.name).reverse.dedup.reverse).filterMap fun name =>
    declared.reverse.find? fun model => model.name = name

/-- A model with its contract. -/
abbrev Contracted (ω ν : Type) : Type := MLModel ω × ExecutableMLContract ν

/-- `_validate_artifact_dependencies`. -/
def validateArtifactDependencies (model : MLModel ω) (writer : Option String)
    (sharesArtifact : Bool) (artifactPath : AbsolutePath) : Except MLContractError Unit :=
  let dependencies := model.dependsOn.map parseRef
  if model.ml.mode.fits then
    rejectIf (1 < dependencies.length)
      ⟨s!"ML writer '{model.name}' may declare only its first data dependency; unrelated extra " ++
          s!"dependencies: {listText (dependencies.drop 1)}", some model.name,
        [.key "depends_on", .index 1]⟩
  else
    match writer with
    | none => rejectIf (1 < dependencies.length)
        ⟨s!"ML reader '{model.name}' may declare only its first data dependency; artifact path " ++
            s!"'{pathText artifactPath}' has no in-project writer", some model.name,
          [.key "depends_on", .index 1]⟩
    | some writer => do
      rejectIf (dependencies.head? = some writer)
        ⟨s!"ML reader '{model.name}' must keep its data model as depends_on[0]; artifact writer " ++
            s!"'{writer}' must be a second ordering dependency", some model.name,
          [.key "depends_on", .index 0]⟩
      rejectIf (dependencies.drop 1 ≠ [writer])
        ⟨if sharesArtifact then
          (s!"ML reader '{model.name}' sharing artifact path '{pathText artifactPath}' must declare " ++
            s!"writer '{writer}' as its only dependency after depends_on[0]")
        else
          (s!"ML reader '{model.name}' has unrelated extra dependencies: " ++
            s!"{listText (dependencies.drop 1)}"), some model.name, [.key "depends_on", .index 1]⟩

variable (fs : FileSystem)

/-- `_canonical_path(contract.artifact_path)`. -/
def artifactIdentity (entry : Contracted ω ν) : CanonicalPath := canonicalPath fs entry.2.artifactPath

/-- The keys of `by_artifact`. -/
def artifactIdentities (contracts : List (Contracted ω ν)) : List CanonicalPath :=
  (contracts.map (artifactIdentity fs)).reverse.dedup.reverse

/-- `by_artifact[identity]`. -/
def sharing (contracts : List (Contracted ω ν)) (identity : CanonicalPath) :
    List (Contracted ω ν) :=
  contracts.filter fun entry => artifactIdentity fs entry = identity

/-- `display_paths[identity]`. -/
def displayPath (contracts : List (Contracted ω ν)) (identity : CanonicalPath) : AbsolutePath :=
  ((sharing fs contracts identity).head?.map fun entry => entry.2.artifactPath).getD []

/-- The check that two artifact directories do not overlap. -/
def validateDisjoint (contracts : List (Contracted ω ν)) (identities : CanonicalPath × CanonicalPath) :
    Except MLContractError Unit :=
  rejectIf (canonicalPathsOverlap identities.1 identities.2 = true)
    ⟨"ML artifact paths must be dedicated directories; " ++
        s!"'{pathText (displayPath fs contracts identities.1)}' overlaps " ++
        s!"'{pathText (displayPath fs contracts identities.2)}'",
      (sharing fs contracts identities.2).head?.map fun entry => entry.1.name,
      [.key "ml", .key "artifact", .key "path"]⟩

/-- The writers among the models that share a directory. -/
def writersOf (entries : List (Contracted ω ν)) : List String :=
  (entries.filter fun entry => entry.1.ml.mode.fits).map fun entry => entry.1.name

/-- The checks of the models that share a directory. -/
def validateSharing (contracts : List (Contracted ω ν)) (identity : CanonicalPath) :
    Except MLContractError Unit := do
  let entries := sharing fs contracts identity
  let artifactPath := displayPath fs contracts identity
  rejectIf ((entries.map fun entry => (entry.2.task, entry.2.provider)).dedup.length ≠ 1)
    ⟨s!"ML models sharing artifact path '{pathText artifactPath}' must use one task/provider " ++
        s!"contract; found " ++ listText ((entries.map fun entry =>
        s!"{entry.1.name}={entry.2.task.text}/{entry.2.provider.text}").insertionSort (· ≤ ·)),
      (entries.drop 1).head?.map fun entry => entry.1.name, [.key "ml", .key "artifact", .key "path"]⟩
  rejectIf (1 < (writersOf entries).length)
    ⟨s!"ML artifact path '{pathText artifactPath}' has multiple fit writers: " ++
        listText ((writersOf entries).insertionSort (· ≤ ·)), ((writersOf entries).drop 1).head?,
      [.key "ml", .key "artifact", .key "path"]⟩
  entries.forM fun entry => validateArtifactDependencies entry.1 (writersOf entries).head?
    (1 < entries.length) artifactPath

/-- `validate_ml_project_contracts`. -/
def validateMlProjectContracts (reader : OptionsReader ω ν) (project : ProjectConfig)
    (projectDir : AbsolutePath) (models : List (ProjectModel ω)) :
    Except MLContractError (List (Contracted ω ν)) := do
  let contracts ← (mlModels models).mapM fun model =>
    (validateMlContract fs reader project projectDir model).map fun contract => (model, contract)
  let identities := artifactIdentities fs contracts
  let sorted := identities.insertionSort fun a b =>
    pathText (displayPath fs contracts a) ≤ pathText (displayPath fs contracts b)
  (laterPairs sorted).forM (validateDisjoint fs contracts)
  identities.forM (validateSharing fs contracts)
  return contracts

end Project

end Stel.Ml
