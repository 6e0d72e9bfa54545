import Stel.Ml.Artifact

/-!
# Metadata of artifacts

The two halves of an artifact's metadata meet in `Describes`: the metadata that `_metadata` and
`_classifier_metadata` build describe a fitted model, and metadata that describe a model are accepted by the
readers once the writers have hashed and stored them.

## Main definitions

* `Describes`: the members that the readers look at.
* `withHashes`: the metadata that are stored.

## Main results

* `finishArtifact_eq_ok`: what the writers leave in a directory.
* `validateMetadata_reloaded`, `validateArtifactPayload_eq_ok`: it is accepted.
-/

namespace Stel.Ml

variable {F : Type} {L : Library F} {members metadata : List (String × Value F)} {name : String}
  {value : Value F}

/-! ### Members -/

theorem setMember_of_notMem (h : name ∉ members.map Prod.fst) :
    setMember members name value = members ++ [(name, value)] := by
  refine if_neg fun hany => h ?_
  obtain ⟨m, hm, hname⟩ := List.any_eq_true.mp hany
  exact List.mem_map.mpr ⟨m, hm, of_decide_eq_true hname⟩

/-- A member that has its value already is kept. -/
theorem setMember_of_lookup (hnodup : (members.map Prod.fst).Nodup) (h : members.lookup name = some value) :
    setMember members name value = members := by
  have hmem : (name, value) ∈ members := (mem_iff_lookup hnodup).mpr h
  have hany : (members.any fun m => m.1 = name) = true :=
    List.any_eq_true.mpr ⟨_, hmem, decide_eq_true rfl⟩
  refine (if_pos hany).trans ((List.map_congr_left fun m hm => ?_).trans (List.map_id members))
  split
  · rename_i hname
    exact List.inj_on_of_nodup_map hnodup hmem hm hname.symm
  · rfl

/-- A dictionary of values that are made in one way comes back sorted. -/
theorem reloaded_map {β : Type} (f : β → Value F) (entries : List (String × β)) :
    Value.reloaded (entries.map fun entry => (entry.1, f entry.2)) =
      (entries.insertionSort Value.byName).map fun entry => (entry.1, (f entry.2).sorted) := by
  have hsorted : Value.sortedMembers (entries.map fun entry => (entry.1, f entry.2)) =
      entries.map fun entry => (entry.1, (f entry.2).sorted) := by
    rw [Value.sortedMembers_eq_map, List.map_map]
    rfl
  rw [Value.reloaded, hsorted]
  exact (List.map_insertionSort Value.byName Value.byName (fun entry => (entry.1, (f entry.2).sorted)) entries
    fun _ _ _ _ => Iff.rfl).symm

/-- A loop over a list that was made from another one. -/
theorem mapM_map_eq_pure {m : Type → Type} [Monad m] [LawfulMonad m] {α β γ : Type} {f : β → m γ} {g : α → β}
    {k : α → γ} {xs : List α} (h : ∀ x ∈ xs, f (g x) = pure (k x)) : (xs.map g).mapM f = pure (xs.map k) := by
  induction xs with
  | nil => rfl
  | cons x xs ih =>
    obtain ⟨hx, hxs⟩ := List.forall_mem_cons.mp h
    rw [List.map_cons, List.mapM_cons, hx, pure_bind, ih hxs, pure_bind]
    rfl

/-! ### Metadata that describe a model -/

/-- The members of metadata that the readers look at, before the hashes are stored. -/
structure Describes (L : Library F) (ml : MLConfig (Value F)) (provider : Provider) (versions : Versions)
    (files : List String) (options : Options F) (metadata : List (String × Value F)) : Prop where
  nodup : (metadata.map Prod.fst).Nodup
  filesHash_new : "artifact_files_hash" ∉ metadata.map Prod.fst
  version_new : "artifact_version" ∉ metadata.map Prod.fst
  schema : metadata.lookup "artifact_schema_version" = some (.int artifactSchemaVersion)
  artifactType : metadata.lookup "artifact_type" = some (.str "classic_ml")
  provider_eq : metadata.lookup "provider" = some (.str provider.text)
  task : metadata.lookup "task" = some (.str ml.task.text)
  mode : metadata.lookup "mode" = some (.str ml.mode.text)
  files_eq : metadata.lookup "files" = some (.texts ("metadata.json" :: files))
  runtime : metadata.lookup "runtime" = some (runtimeVersions versions provider)
  options_eq : metadata.lookup "options" = some (.object options.dump)

/-- The metadata of a vectorizer describe it. -/
theorem describes_featureMetadata (input : MetadataInput F) (ml : MLConfig (Value F)) (provider : Provider)
    (v : Vectorizer F) (options : Options F) :
    Describes L ml provider input.versions
      (if provider = .hashing then [] else ["vocabulary.json"]) options
      (featureMetadata L input ml provider v options) := by
  have hkeys : (featureMetadata L input ml provider v options).map Prod.fst =
      ["artifact_schema_version", "artifact_type", "model_name", "task", "provider", "mode", "text_field",
        "code_version", "config_hash", "runtime", "training_input", "integrity", "files", "options",
        "vocabulary_hash", "idf_hash"] ++ if input.includeMetrics then ["metrics"] else [] := by
    unfold featureMetadata metricsMember
    cases input.includeMetrics <;> rfl
  have hfiles : (featureMetadata L input ml provider v options).lookup "files" = some (.texts
      ("metadata.json" :: if provider = .hashing then [] else ["vocabulary.json"])) := by
    rw [featureMetadata]
    split <;> rfl
  refine ⟨?_, ?_, ?_, rfl, rfl, rfl, rfl, rfl, hfiles, rfl, rfl⟩ <;> rw [hkeys] <;>
    cases input.includeMetrics <;> decide

/-- The metadata of a classifier describe it, with the number of classes that its metrics have. -/
theorem describes_classifierMetadata {input : MetadataInput F} {ml : MLConfig (Value F)} {provider : Provider}
    {c : Classifier F} (h : classifierMetadata L input ml provider c = .ok metadata) :
    Describes L ml provider input.versions ["model.json"] c.options metadata ∧
      ∃ classCount, input.metrics.lookup "class_count" = some classCount ∧
        metadata.lookup "integrity" = some (.object [("class_count", classCount),
          ("feature_count", .int c.vocabulary.length)]) := by
  obtain ⟨classCount, hcount, h⟩ := bind_eq_ok.mp h
  have hkeys : metadata.map Prod.fst = ["artifact_schema_version", "artifact_type", "model_name", "task",
      "provider", "mode", "text_field", "label_field", "code_version", "config_hash", "runtime",
      "training_input", "integrity", "files", "options", "classes_hash", "vocabulary_hash",
      "model_hash"] ++ if input.includeMetrics then ["metrics"] else [] := by
    rw [← Except.ok.inj h, metricsMember]
    cases input.includeMetrics <;> rfl
  refine ⟨⟨?_, ?_, ?_, ?_, ?_, ?_, ?_, ?_, ?_, ?_, ?_⟩, classCount, orRaise_eq_ok.mp hcount, ?_⟩
  · rw [hkeys]
    cases input.includeMetrics <;> decide
  · rw [hkeys]
    cases input.includeMetrics <;> decide
  · rw [hkeys]
    cases input.includeMetrics <;> decide
  all_goals
    rw [← Except.ok.inj h]
    rfl

/-! ### Stored metadata -/

/-- Metadata with the hash of the files and the version of the artifact. -/
def withHashes (L : Library F) (metadata : List (String × Value F)) (filesHash : String) :
    List (String × Value F) :=
  let metadata := metadata ++ [("artifact_files_hash", .str filesHash)]
  metadata ++ [("artifact_version", .str (artifactVersion L metadata))]

variable {ml : MLConfig (Value F)} {provider : Provider} {versions : Versions} {files : List String}
  {options : Options F} {filesHash path : String} {dir : Directory F} {summary : Option (Value F)}

/-- What the writers leave in a directory. -/
theorem finishArtifact_eq_ok (h : Describes L ml provider versions files options metadata)
    (hhash : artifactFilesHash L dir path files summary = .ok filesHash) :
    finishArtifact L dir path metadata files summary =
      .ok (dir.write "metadata.json" (Value.object (withHashes L metadata filesHash)).dumps,
        withHashes L metadata filesHash) := by
  have hversion : "artifact_version" ∉
      (metadata ++ [("artifact_files_hash", Value.str (F := F) filesHash)]).map Prod.fst := by
    rw [List.map_append, List.mem_append, not_or]
    exact ⟨h.version_new, by simp⟩
  rw [finishArtifact, setMember_of_lookup h.nodup h.files_eq, hhash]
  show Except.ok _ = _
  rw [setMember_of_notMem h.filesHash_new, setMember_of_notMem hversion]
  rfl

theorem nodup_withHashes (h : Describes L ml provider versions files options metadata) :
    ((withHashes L metadata filesHash).map Prod.fst).Nodup := by
  have hkeys : (withHashes L metadata filesHash).map Prod.fst =
      metadata.map Prod.fst ++ ["artifact_files_hash", "artifact_version"] := by
    simp [withHashes]
  rw [hkeys]
  refine List.nodup_append.mpr ⟨h.nodup, by decide, fun a ha b hb hab => ?_⟩
  subst hab
  simp only [List.mem_cons, List.not_mem_nil, or_false] at hb
  rcases hb with rfl | rfl
  · exact h.filesHash_new ha
  · exact h.version_new ha

/-- The version of stored metadata is the one they were stored with. -/
theorem artifactVersion_reloaded (h : Describes L ml provider versions files options metadata) :
    artifactVersion L (Value.reloaded (withHashes L metadata filesHash)) =
      artifactVersion L (metadata ++ [("artifact_files_hash", .str filesHash)]) := by
  have hfilter : ((withHashes L metadata filesHash).filter fun m => m.1 ≠ "artifact_version") =
      (metadata ++ [("artifact_files_hash", Value.str filesHash)]).filter
        fun m => m.1 ≠ "artifact_version" := by
    rw [withHashes, List.filter_append]
    exact List.append_nil _
  have hreloaded : Value.reloaded ((Value.reloaded (withHashes L metadata filesHash)).filter
        fun m => m.1 ≠ "artifact_version") =
      Value.reloaded ((metadata ++ [("artifact_files_hash", Value.str filesHash)]).filter
        fun m => m.1 ≠ "artifact_version") := by
    rw [← hfilter]
    exact Value.reloaded_filter (nodup_withHashes h) fun name => name ≠ "artifact_version"
  exact congrArg (fun members => L.hashJson ⟨.object members⟩) hreloaded

theorem lookup_withHashes (h : Describes L ml provider versions files options metadata)
    (hmem : (name, value) ∈ withHashes L metadata filesHash) :
    (Value.reloaded (withHashes L metadata filesHash)).lookup name = some value.sorted := by
  rw [Value.lookup_reloaded (nodup_withHashes h), (mem_iff_lookup (nodup_withHashes h)).mp hmem]
  rfl

/-- The members that are stored as they are. -/
theorem lookup_stored (h : Describes L ml provider versions files options metadata)
    (hvalue : metadata.lookup name = some value) :
    (Value.reloaded (withHashes L metadata filesHash)).lookup name = some value.sorted :=
  lookup_withHashes h
    (List.mem_append_left _ (List.mem_append_left _ ((mem_iff_lookup h.nodup).mpr hvalue)))

theorem lookup_filesHash (h : Describes L ml provider versions files options metadata) :
    (Value.reloaded (withHashes L metadata filesHash)).lookup "artifact_files_hash" =
      some (.str filesHash) :=
  lookup_withHashes h
    (List.mem_append_left _ (List.mem_append_right _ (List.mem_singleton_self _)))

theorem lookup_artifactVersion (h : Describes L ml provider versions files options metadata) :
    (Value.reloaded (withHashes L metadata filesHash)).lookup "artifact_version" =
      some (.str (artifactVersion L (Value.reloaded (withHashes L metadata filesHash)))) := by
  rw [artifactVersion_reloaded h]
  exact lookup_withHashes h (List.mem_append_right _ (List.mem_singleton_self _))

/-! ### Checks -/

theorem isText_str (s : String) : isText s (some (.str s : Value F)) = true := decide_eq_true rfl

theorem isTexts_texts (ss : List String) : isTexts ss (some (.texts ss : Value F)) = true := by
  have hzip : (ss.map Value.str : List (Value F)).zip ss = ss.map fun s => (Value.str s, s) := by
    induction ss with
    | nil => rfl
    | cons s ss ih => exact congrArg ((Value.str s, s) :: ·) ih
  have hlength : (ss.map Value.str : List (Value F)).length = ss.length := List.length_map _
  refine Bool.and_eq_true_iff.mpr ⟨decide_eq_true hlength, List.all_eq_true.mpr fun entry hentry => ?_⟩
  rw [hzip] at hentry
  obtain ⟨s, -, rfl⟩ := List.mem_map.mp hentry
  exact isText_str s

theorem isNonEmpty_str {s : String} (h : s ≠ "") : isNonEmpty (some (.str s : Value F)) = true :=
  decide_eq_true h

theorem Provider.text_ne (provider : Provider) : provider.text ≠ "" := by
  cases provider <;> decide

/-- The runtime of stored metadata. -/
theorem runtimeVersions_reloaded (versions : Versions) (provider : Provider) :
    ∃ fields, (runtimeVersions versions provider).sorted = (.object fields : Value F) ∧
      hasRuntime (some (.object fields)) = true ∧ fields.lookup "provider" = some (.str provider.text) := by
  obtain ⟨runtime, hruntime⟩ : ∃ runtime : List (String × Value F), runtime =
      [("python", .str versions.python), ("dbt_ml", .str versions.stel), ("polars", .str versions.polars),
        ("provider", .str provider.text)] := ⟨_, rfl⟩
  have hkeys : runtime.map Prod.fst = ["python", "dbt_ml", "polars", "provider"] := by rw [hruntime]; rfl
  have hnodup : (runtime.map Prod.fst).Nodup := by
    rw [hkeys]
    decide
  have hlookup : ∀ name, (Value.reloaded runtime).lookup name = (runtime.lookup name).map Value.sorted :=
    Value.lookup_reloaded hnodup
  have hpython : (Value.reloaded runtime).lookup "python" = some (.str versions.python) := by
    rw [hlookup, hruntime]
    rfl
  have hstel : (Value.reloaded runtime).lookup "dbt_ml" = some (.str versions.stel) := by
    rw [hlookup, hruntime]
    rfl
  have hpolars : (Value.reloaded runtime).lookup "polars" = some (.str versions.polars) := by
    rw [hlookup, hruntime]
    rfl
  have hprovider : (Value.reloaded runtime).lookup "provider" = some (.str provider.text) := by
    rw [hlookup, hruntime]
    rfl
  refine ⟨Value.reloaded runtime, by rw [hruntime]; rfl, ?_, hprovider⟩
  simp only [hasRuntime, members?, Option.any_some, List.all_cons, List.all_nil, hpython, hstel, hpolars,
    hprovider, isNonEmpty_str versions.python_ne, isNonEmpty_str versions.stel_ne,
    isNonEmpty_str versions.polars_ne, isNonEmpty_str provider.text_ne, Bool.and_self]

/-- The mode of a writer is one that the readers accept. -/
theorem fitted_mode (hmode : ml.mode.fits = true) :
    (["fit", "fit_transform", "load_pretrained"].all
      fun mode => isText mode (some (.str ml.mode.text : Value F)) = false) = false := by
  cases hm : ml.mode with
  | fit | fitTransform => rfl
  | predict | loadPretrained =>
    rw [hm] at hmode
    cases hmode

theorem validateMetadata_reloaded (h : Describes L ml provider versions files options metadata)
    (hmode : ml.mode.fits = true) {reader : MLConfig (Value F)} (htask : reader.task = ml.task) :
    validateMetadata L (Value.reloaded (withHashes L metadata filesHash)) path provider reader
      ("metadata.json" :: files) = .ok () := by
  obtain ⟨fields, hfields, hruntime, hprovider⟩ := runtimeVersions_reloaded (F := F) versions provider
  unfold validateMetadata
  refine check_bind_eq_ok.mpr ⟨failIf_eq_ok.mpr ?_, ?_⟩
  · rw [lookup_stored h h.schema, Value.sorted_int]
    exact Bool.false_ne_true.symm
  refine check_bind_eq_ok.mpr ⟨failIf_eq_ok.mpr ?_, ?_⟩
  · rw [lookup_stored h h.artifactType, Value.sorted_str, isText_str]
    decide
  refine check_bind_eq_ok.mpr ⟨failIf_eq_ok.mpr ?_, ?_⟩
  · rw [lookup_stored h h.provider_eq, Value.sorted_str, isText_str]
    decide
  refine check_bind_eq_ok.mpr ⟨failIf_eq_ok.mpr ?_, ?_⟩
  · rw [lookup_stored h h.task, htask, Value.sorted_str, isText_str]
    decide
  refine check_bind_eq_ok.mpr ⟨failIf_eq_ok.mpr ?_, ?_⟩
  · rw [lookup_stored h h.mode, Value.sorted_str, fitted_mode hmode]
    decide
  refine check_bind_eq_ok.mpr ⟨failIf_eq_ok.mpr ?_, ?_⟩
  · rw [lookup_stored h h.files_eq, Value.sorted_texts, isTexts_texts]
    decide
  refine check_bind_eq_ok.mpr ⟨failIf_eq_ok.mpr ?_, ?_⟩
  · rw [lookup_stored h h.runtime, hfields, hruntime]
    decide
  refine check_bind_eq_ok.mpr ⟨failIf_eq_ok.mpr ?_, ?_⟩
  · rw [lookup_stored h h.runtime, hfields, members?, Option.bind_some, hprovider, isText_str]
    decide
  refine check_bind_eq_ok.mpr ⟨failIf_eq_ok.mpr ?_, ?_⟩
  · rw [lookup_stored h h.options_eq, Value.sorted_object]
    exact Bool.false_ne_true
  refine check_bind_eq_ok.mpr ⟨failIf_eq_ok.mpr ?_, failIf_eq_ok.mpr ?_⟩
  · rw [lookup_filesHash h]
    exact Bool.false_ne_true
  · rw [lookup_artifactVersion h, isText_str]
    decide

theorem filterMap_readText (ss : List String) :
    (ss.map Value.str : List (Value F)).filterMap readText = ss := by
  induction ss with
  | nil => rfl
  | cons s ss ih => exact congrArg (s :: ·) ih

/-- The files of an artifact are those that were hashed. -/
theorem validateArtifactPayload_eq_ok (h : Describes L ml provider versions files options metadata)
    (hfiles : "metadata.json" ∉ files) (hhash : artifactFilesHash L dir path files summary = .ok filesHash) :
    validateArtifactPayload L dir (Value.reloaded (withHashes L metadata filesHash)) path summary =
      .ok () := by
  have hpayload : ((((some (Value.texts ("metadata.json" :: files) : Value F)).bind readItems).getD
      []).filterMap readText).filter (· ≠ "metadata.json") = files := by
    have htexts := filterMap_readText (F := F) ("metadata.json" :: files)
    refine (congrArg (List.filter (· ≠ "metadata.json")) htexts).trans ?_
    rw [List.filter_cons_of_neg (by decide)]
    exact List.filter_eq_self.mpr fun file hfile => decide_eq_true fun heq => hfiles (heq ▸ hfile)
  rw [validateArtifactPayload, lookup_stored h h.files_eq, Value.sorted_texts]
  rw [hpayload, hhash]
  refine failIf_eq_ok.mpr ?_
  rw [lookup_filesHash h, isText_str]
  decide

end Stel.Ml
