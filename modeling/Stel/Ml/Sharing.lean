import Stel.Ml.Contracts
import Stel.Dag.Batches

/-!
# Sharing artifact directories

What the contracts of an accepted project promise about the directories that its ML models share: no
two of them overlap, and a model that reads a directory never runs before, or at the same time as, the
model that writes it.

## Main definitions

* `SameDirectory`, `Apart`: the two ways in which directories can lie.
* `ProjectDAG.Consistent`: an order in which every model comes after those it depends on.
* `RunsAfter`: a model runs after another one in every execution.

## Main results

* `artifact_sharing_race_free`: the promises of an accepted project.
-/

namespace Stel

/-- Every model of the order comes after those it depends on, if they belong to the order. -/
def ProjectDAG.Consistent (dag : ProjectDAG) (order : List String) : Prop :=
  ∀ before n after, order = before ++ n :: after → ∀ p ∈ dag.predecessors n, p ∈ order → p ∈ before

theorem ProjectDAG.consistent_selectModels (dag : ProjectDAG) (chosen : String → Bool) :
    dag.Consistent (dag.selectModels chosen) := by
  intro before n after hsplit p hp hmem
  have hancestor : dag.Ancestor p n := .single (mem_predecessors.mp hp)
  exact hancestor.before hsplit hmem

namespace Ml

variable {ω ν : Type}

/-- Two models have the same artifact directory. -/
def SameDirectory (fs : FileSystem) (a b : Contracted ω ν) : Prop :=
  artifactIdentity fs a = artifactIdentity fs b

/-- Neither of two artifact directories is a prefix of the other, as paths and in canonical form. -/
structure Apart (fs : FileSystem) (a b : Contracted ω ν) : Prop where
  left : ¬ a.2.artifactPath <+: b.2.artifactPath
  right : ¬ b.2.artifactPath <+: a.2.artifactPath
  canonicalLeft : ¬ artifactIdentity fs a <+: artifactIdentity fs b
  canonicalRight : ¬ artifactIdentity fs b <+: artifactIdentity fs a

/-- A model runs after another one: in every order that is consistent with the graph, in every
sequential run, and in every run in batches, where it runs only when the other one has finished. -/
structure RunsAfter (dag : ProjectDAG) (writer reader : String) : Prop where
  consistent : ∀ order, dag.Consistent order → ∀ before after, order = before ++ reader :: after →
    writer ∈ order → writer ∈ before
  sequential : ∀ chosen before after, dag.selectModels chosen = before ++ reader :: after →
    writer ∈ dag.selectModels chosen → writer ∈ before
  batches : ∀ names : List String, names.Nodup → (∀ n ∈ names, n ∈ dag.models.map ModelConfig.name) →
    writer ∈ names → ∀ (R : Type) (threads : ℕ) (s : BatchRun R),
      BatchRun.Reachable threads (dag.parallelBatches names) s → reader ∈ s.running →
      s.Finished writer ∧ writer ∉ s.running

theorem runsAfter_of_predecessor {dag : ProjectDAG} {writer reader : String}
    (h : writer ∈ dag.predecessors reader) : RunsAfter dag writer reader := by
  have hconsistent : ∀ order, dag.Consistent order → ∀ before after,
      order = before ++ reader :: after → writer ∈ order → writer ∈ before :=
    fun order horder before after hsplit hmem => horder before reader after hsplit writer h hmem
  refine ⟨hconsistent, fun chosen => hconsistent _ (dag.consistent_selectModels chosen), ?_⟩
  intro names hnodup hnames hmem R threads s hreach hrunning
  exact hreach.exclusive hnodup hnames reader hrunning writer h hmem

/-! ### What acceptance checks -/

section Accepted

variable {fs : FileSystem} {reader : OptionsReader ω ν} {project : ProjectConfig}
  {projectDir : AbsolutePath} {models : List (ProjectModel ω)} {contracts : List (Contracted ω ν)}
  {a b : Contracted ω ν}

theorem rejectIf_eq_ok {p : Prop} [Decidable p] {error : MLContractError} :
    rejectIf p error = .ok () ↔ ¬ p := by
  unfold rejectIf
  split
  · rename_i h
    simp [h]
  · rename_i h
    simp [h]

/-- The checks that an accepted project has passed. -/
theorem accepted (h : validateMlProjectContracts fs reader project projectDir models = .ok contracts) :
    List.Forall₂ (fun model entry => ∃ contract,
        validateMlContract fs reader project projectDir model = .ok contract ∧
          entry = (model, contract)) (mlModels models) contracts ∧
      (∀ x ∈ artifactIdentities fs contracts, ∀ y ∈ artifactIdentities fs contracts, x ≠ y →
        ¬ x <+: y ∧ ¬ y <+: x) ∧
      ∀ x ∈ artifactIdentities fs contracts, validateSharing fs contracts x = .ok () := by
  rw [validateMlProjectContracts] at h
  obtain ⟨found, hfound, h⟩ := bind_eq_ok.mp h
  obtain ⟨hdisjoint, h⟩ := check_bind_eq_ok.mp h
  obtain ⟨hsharing, h⟩ := check_bind_eq_ok.mp h
  obtain rfl := Except.ok.inj h
  refine ⟨(mapM_eq_ok.mp hfound).imp fun model entry hentry => ?_, fun x hx y hy hne => ?_,
    forM_eq_ok.mp hsharing⟩
  · cases hcontract : validateMlContract fs reader project projectDir model with
    | error e =>
      rw [hcontract] at hentry
      cases hentry
    | ok contract =>
      rw [hcontract] at hentry
      exact ⟨contract, rfl, (Except.ok.inj hentry).symm⟩
  · obtain ⟨sorted, hdisjoint, hperm⟩ : ∃ sorted,
        (laterPairs sorted).forM (validateDisjoint fs found) = .ok () ∧
          sorted.Perm (artifactIdentities fs found) := ⟨_, hdisjoint, List.perm_insertionSort _ _⟩
    have hapart := forM_eq_ok.mp hdisjoint
    rcases mem_laterPairs_or (hperm.mem_iff.mpr hx) (hperm.mem_iff.mpr hy) hne with hp | hp
    · exact not_or.mp fun hoverlap =>
        rejectIf_eq_ok.mp (hapart _ hp) (overlap_iff.mpr hoverlap)
    · exact (not_or.mp fun hoverlap =>
        rejectIf_eq_ok.mp (hapart _ hp) (overlap_iff.mpr hoverlap)).symm

theorem mem_artifactIdentities (ha : a ∈ contracts) :
    artifactIdentity fs a ∈ artifactIdentities fs contracts := by
  rw [artifactIdentities, List.mem_reverse, List.mem_dedup, List.mem_reverse]
  exact List.mem_map_of_mem ha

theorem mem_sharing {identity : CanonicalPath} :
    a ∈ sharing fs contracts identity ↔ a ∈ contracts ∧ artifactIdentity fs a = identity := by
  rw [sharing, List.mem_filter, decide_eq_true_iff]

theorem eq_of_mem_of_length_le {α : Type} {xs : List α} (h : xs.length ≤ 1) {x y : α}
    (hx : x ∈ xs) (hy : y ∈ xs) : x = y := by
  obtain ⟨z, hz⟩ : ∃ z, xs = [z] := List.length_eq_one_iff.mp
    (le_antisymm h (List.length_pos_of_mem hx))
  rw [hz, List.mem_singleton] at hx hy
  rw [hx, hy]

/-- The models that share a directory have one task, one provider, at most one writer, and the
readers depend on it. -/
theorem sharing_spec {identity : CanonicalPath} (h : validateSharing fs contracts identity = .ok ())
    (ha : a ∈ sharing fs contracts identity) (hb : b ∈ sharing fs contracts identity) :
    a.2.task = b.2.task ∧ a.2.provider = b.2.provider ∧
      (a.1.ml.mode.fits = true → b.1.ml.mode.fits = true → a = b) ∧
      (a.1.ml.mode.fits = true → b.1.ml.mode.fits = false →
        a.1.name ∈ b.1.dependsOn.map parseRef) := by
  rw [validateSharing] at h
  obtain ⟨hone, h⟩ := check_bind_eq_ok.mp h
  obtain ⟨hwriters, hdependencies⟩ := check_bind_eq_ok.mp h
  have hsame := eq_of_mem_of_length_le (not_not.mp (rejectIf_eq_ok.mp hone)).le
    (List.mem_dedup.mpr (List.mem_map_of_mem ha)) (List.mem_dedup.mpr (List.mem_map_of_mem hb))
  have hfew := not_lt.mp (rejectIf_eq_ok.mp hwriters)
  rw [writersOf, List.length_map] at hfew
  refine ⟨congrArg Prod.fst hsame, congrArg Prod.snd hsame, fun hwrites hwrites' => ?_,
    fun hwrites hreads => ?_⟩
  · exact eq_of_mem_of_length_le hfew (List.mem_filter.mpr ⟨ha, hwrites⟩)
      (List.mem_filter.mpr ⟨hb, hwrites'⟩)
  · obtain ⟨writer, hwriter⟩ : ∃ writer,
        (sharing fs contracts identity).filter (fun entry => entry.1.ml.mode.fits) = [writer] :=
      List.length_eq_one_iff.mp (le_antisymm hfew
        (List.length_pos_of_mem (List.mem_filter.mpr ⟨ha, hwrites⟩)))
    have hmem : a ∈ [writer] := hwriter ▸ List.mem_filter.mpr ⟨ha, hwrites⟩
    rw [List.mem_singleton] at hmem
    have hcheck := forM_eq_ok.mp hdependencies b hb
    unfold validateArtifactDependencies at hcheck
    rw [hreads, writersOf, hwriter, ← hmem] at hcheck
    obtain ⟨-, hcheck⟩ := check_bind_eq_ok.mp hcheck
    have hdrop := not_not.mp (rejectIf_eq_ok.mp hcheck)
    have hsecond : a.1.name ∈ (b.1.dependsOn.map parseRef).drop 1 := by
      rw [hdrop]
      exact List.mem_singleton_self _
    exact List.mem_of_mem_drop hsecond

/-- An artifact path is resolved. -/
theorem resolve_artifactPath {model : MLModel ω} {contract : ExecutableMLContract ν}
    (h : validateMlContract fs reader project projectDir model = .ok contract) :
    fs.resolve contract.artifactPath = contract.artifactPath := by
  rw [validateMlContract] at h
  obtain ⟨_, -, h⟩ := bind_eq_ok.mp h
  obtain ⟨-, h⟩ := check_bind_eq_ok.mp h
  obtain ⟨_, -, h⟩ := bind_eq_ok.mp h
  obtain ⟨-, h⟩ := check_bind_eq_ok.mp h
  obtain ⟨artifactPath, hpath, h⟩ := bind_eq_ok.mp h
  obtain rfl := Except.ok.inj h
  rw [validateArtifactPath] at hpath
  obtain ⟨-, hpath⟩ := check_bind_eq_ok.mp hpath
  obtain ⟨resolved, hresolved, hpath⟩ := bind_eq_ok.mp hpath
  obtain ⟨-, hpath⟩ := check_bind_eq_ok.mp hpath
  obtain ⟨-, hpath⟩ := check_bind_eq_ok.mp hpath
  obtain ⟨-, hpath⟩ := check_bind_eq_ok.mp hpath
  obtain rfl := Except.ok.inj hpath
  obtain ⟨path, hpath⟩ : ∃ path, resolved = fs.resolve path := by
    rw [resolveWithinProject] at hresolved
    split at hresolved
    · exact ⟨_, (Except.ok.inj hresolved).symm⟩
    · split at hresolved
      · cases hresolved
      · exact ⟨_, (Except.ok.inj hresolved).symm⟩
  rw [hpath, fs.resolve_resolve]

/-- The ML models of a project whose models have distinct names. -/
theorem mem_mlModels (hnodup : (models.map fun model => model.name).Nodup) {model : ProjectModel ω}
    (hmodel : model ∈ models) {ml : MLConfig ω} (hml : ml ∈ model.ml) :
    (⟨model.toModelConfig, ml⟩ : MLModel ω) ∈ mlModels models := by
  have hdeclared : (⟨model.toModelConfig, ml⟩ : MLModel ω) ∈ models.filterMap fun model =>
      model.ml.map fun ml => (⟨model.toModelConfig, ml⟩ : MLModel ω) :=
    List.mem_filterMap.mpr ⟨model, hmodel, by rw [Option.mem_def.mp hml]; rfl⟩
  have hunique : ∀ other ∈ models.filterMap fun model =>
      model.ml.map fun ml => (⟨model.toModelConfig, ml⟩ : MLModel ω), other.name = model.name →
        other = ⟨model.toModelConfig, ml⟩ := by
    intro other hother hname
    obtain ⟨source, hsource, hml'⟩ := List.mem_filterMap.mp hother
    obtain ⟨ml', hsourceMl, rfl⟩ := Option.map_eq_some_iff.mp hml'
    obtain rfl := List.inj_on_of_nodup_map hnodup hsource hmodel hname
    rw [Option.mem_def.mp hml] at hsourceMl
    rw [Option.some.inj hsourceMl]
  rw [mlModels, List.mem_filterMap]
  refine ⟨model.name, ?_, ?_⟩
  · rw [List.mem_reverse, List.mem_dedup, List.mem_reverse]
    exact List.mem_map_of_mem hdeclared
  · cases hfind : (models.filterMap fun model =>
        model.ml.map fun ml => (⟨model.toModelConfig, ml⟩ : MLModel ω)).reverse.find?
          fun other => other.name = model.name with
    | none =>
      have hnone := List.find?_eq_none.mp hfind _ (List.mem_reverse.mpr hdeclared)
      exact absurd (decide_eq_true rfl) hnone
    | some other =>
      have hname : other.name = model.name := by simpa using List.find?_some hfind
      rw [hunique other (List.mem_reverse.mp (List.mem_of_find?_eq_some hfind)) hname]

theorem mem_models_of_mem_mlModels {model : MLModel ω} (h : model ∈ mlModels models) :
    model.toModelConfig ∈ models.map ProjectModel.toModelConfig := by
  rw [mlModels, List.mem_filterMap] at h
  obtain ⟨name, -, hfind⟩ := h
  obtain ⟨source, hsource, hml⟩ :=
    List.mem_filterMap.mp (List.mem_reverse.mp (List.mem_of_find?_eq_some hfind))
  obtain ⟨ml, -, rfl⟩ := Option.map_eq_some_iff.mp hml
  exact List.mem_map_of_mem hsource

end Accepted

/-- **Accepted artifact sharing is race free.** Every ML model of an accepted project has a contract.
The artifact directories of two ML models are equal, or neither is a prefix of the other. Models that
share a directory have one task and provider and at most one of them writes it, and the others run
after the writer in every execution that is consistent with the graph. -/
theorem artifact_sharing_race_free {fs : FileSystem} {reader : OptionsReader ω ν}
    {project : ProjectConfig} {projectDir : AbsolutePath} {models : List (ProjectModel ω)}
    {contracts : List (Contracted ω ν)} {dag : ProjectDAG}
    (hdag : dag.models = models.map ProjectModel.toModelConfig)
    (h : validateMlProjectContracts fs reader project projectDir models = .ok contracts) :
    (∀ model ∈ models, ∀ ml ∈ model.ml, ∃ contract, (⟨model.toModelConfig, ml⟩, contract) ∈ contracts ∧
      validateMlContract fs reader project projectDir ⟨model.toModelConfig, ml⟩ = .ok contract) ∧
    ∀ a ∈ contracts, ∀ b ∈ contracts,
      (SameDirectory fs a b ∨ Apart fs a b) ∧
      (SameDirectory fs a b → a.2.task = b.2.task ∧ a.2.provider = b.2.provider ∧
        (a.1.ml.mode.fits = true → b.1.ml.mode.fits = true → a = b) ∧
        (a.1.ml.mode.fits = true → b.1.ml.mode.fits = false →
          RunsAfter dag a.1.name b.1.name)) := by
  obtain ⟨hcontracts, hdisjoint, hsharing⟩ := accepted h
  have hnodup : (models.map fun model => model.name).Nodup := by
    have hnames := (List.nodup_append.mp dag.nodup).2.1
    rw [hdag, List.map_map] at hnames
    exact hnames
  have hresolved : ∀ a ∈ contracts, fs.resolve a.2.artifactPath = a.2.artifactPath := by
    intro a ha
    obtain ⟨model, -, contract, hcontract, rfl⟩ := exists_of_mem_right hcontracts ha
    exact resolve_artifactPath hcontract
  have hapart : ∀ a ∈ contracts, ∀ b ∈ contracts, artifactIdentity fs a ≠ artifactIdentity fs b →
      ¬ artifactIdentity fs a <+: artifactIdentity fs b ∧
        ¬ a.2.artifactPath <+: b.2.artifactPath := by
    intro a ha b hb hne
    have hcanonical := (hdisjoint _ (mem_artifactIdentities ha) _ (mem_artifactIdentities hb) hne).1
    refine ⟨hcanonical, fun hbelow => hcanonical (canonicalPath_mono ?_)⟩
    rw [hresolved a ha, hresolved b hb]
    exact hbelow
  refine ⟨fun model hmodel ml hml => ?_, fun a ha b hb => ⟨?_, fun hsame => ?_⟩⟩
  · obtain ⟨entry, hentry, contract, hcontract, rfl⟩ :=
      exists_of_mem_left hcontracts (mem_mlModels hnodup hmodel hml)
    exact ⟨contract, hentry, hcontract⟩
  · by_cases hsame : SameDirectory fs a b
    · exact .inl hsame
    · exact .inr ⟨(hapart a ha b hb hsame).2, (hapart b hb a ha (Ne.symm hsame)).2,
        (hapart a ha b hb hsame).1, (hapart b hb a ha (Ne.symm hsame)).1⟩
  · obtain ⟨htask, hprovider, hwriters, hreaders⟩ :=
      sharing_spec (hsharing _ (mem_artifactIdentities ha)) (mem_sharing.mpr ⟨ha, rfl⟩)
        (mem_sharing.mpr ⟨hb, hsame.symm⟩)
    refine ⟨htask, hprovider, hwriters, fun hwrites hreads => runsAfter_of_predecessor ?_⟩
    have hb' : b.1.toModelConfig ∈ dag.models := by
      obtain ⟨model, hmodel, contract, -, rfl⟩ := exists_of_mem_right hcontracts hb
      rw [hdag]
      exact mem_models_of_mem_mlModels hmodel
    rw [ProjectDAG.mem_predecessors, ProjectDAG.successors, mem_successorsIn]
    exact ⟨b.1.toModelConfig, hb', List.mem_append_left _ (List.mem_append_left _
      (List.mem_append_right _ (hreaders hwrites hreads))), rfl⟩

/-! ### Two models that share a directory -/

/-- A file system where nothing exists below the root. -/
def emptyFileSystem : FileSystem where
  resolve path := path
  stat path := if path = [] then some (1, 2) else none
  isDir path := path = []
  iterdir _ := []
  lstat _ := .notFound
  normalizeFold name := name
  resolve_resolve _ := rfl
  stat_root := rfl

def reviewsConfig : ProjectConfig where
  sourcePaths := [⟨false, ["sources"]⟩]
  modelPaths := [⟨false, ["models"]⟩]
  transformPaths := [⟨false, ["transforms"]⟩]
  targetPath := ⟨false, ["target"]⟩

/-- A model that fits a vectorizer. -/
def vectorsModel : MLModel Unit where
  toModelConfig := ⟨"vectors", "full", none, ["ref('reviews')"], [], [], false⟩
  ml := { task := .features, mode := .fit, textField := some "body",
          artifactPath := some ⟨false, ["fitted", "words"]⟩ }

/-- A model that applies it to the same reviews. -/
def wordsModel : MLModel Unit where
  toModelConfig := ⟨"words", "full", none, ["ref('reviews')", "ref('vectors')"], [], [], false⟩
  ml := { task := .features, mode := .predict, textField := some "body",
          artifactPath := some ⟨false, ["fitted", "words"]⟩ }

def reviewsModels : List (ProjectModel Unit) :=
  [⟨vectorsModel.toModelConfig, some vectorsModel.ml⟩,
    ⟨wordsModel.toModelConfig, some wordsModel.ml⟩]

theorem reviewsModels_nodup :
    (["reviews"] ++ (reviewsModels.map ProjectModel.toModelConfig).map ModelConfig.name).Nodup := by
  decide

theorem reviewsModels_known : ∀ model ∈ reviewsModels.map ProjectModel.toModelConfig,
    ∀ p ∈ predecessorsOf model, p ∈ ["reviews"] ++
      (reviewsModels.map ProjectModel.toModelConfig).map ModelConfig.name := by
  decide +kernel

theorem reviewsModels_ordered : ∀ model ∈ reviewsModels.map ProjectModel.toModelConfig,
    ∀ p ∈ predecessorsOf model, ["reviews", "vectors", "words"].idxOf p <
      ["reviews", "vectors", "words"].idxOf model.name := by
  decide +kernel

def reviewsProject : ProjectDAG where
  sources := ["reviews"]
  models := reviewsModels.map ProjectModel.toModelConfig
  sorted := ["reviews", "vectors", "words"]
  nodup := reviewsModels_nodup
  known := reviewsModels_known
  sorted_perm := .refl _
  sorted_lt := idxOf_lt_of_models reviewsModels_ordered

/-- A reader of options that takes all of them. -/
def anyOptions : OptionsReader Unit Unit := fun _ _ => .ok ()

/-- The contract of both models. -/
def wordsContract : ExecutableMLContract Unit :=
  ⟨.features, .tfidf, (), ["work", "fitted", "words"], ["metadata.json", "vocabulary.json"]⟩

theorem reviewsModels_accepted :
    validateMlProjectContracts emptyFileSystem anyOptions reviewsConfig ["work"] reviewsModels =
      .ok [(vectorsModel, wordsContract), (wordsModel, wordsContract)] := rfl

theorem artifact_sharing_race_free_reviews : RunsAfter reviewsProject "vectors" "words" := by
  have hpair := (@artifact_sharing_race_free Unit Unit emptyFileSystem anyOptions reviewsConfig
    ["work"] reviewsModels _ reviewsProject rfl reviewsModels_accepted).2
    (vectorsModel, wordsContract) List.mem_cons_self (wordsModel, wordsContract)
    (List.mem_cons_of_mem _ List.mem_cons_self)
  exact (hpair.2 rfl).2.2.2 rfl rfl

end Ml

end Stel
