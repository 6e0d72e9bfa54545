import Stel.Ml.ArtifactMetadata
import Stel.Ml.Sharing
import Mathlib.Algebra.Order.Field.Rat
import Mathlib.Algebra.Order.Ring.Cast

/-!
# Artifacts are read back

A fitted model that is written to a directory is accepted by the readers, and the model that is read back
scores every list of rows like the one in memory. The dictionaries of the model that is read back are sorted
by name, and a fitted model is used through lookups in them.

## Main results

* `readArtifact_hashing`, `readArtifact_vocabulary`, `readClassifierArtifact_written`: the readers accept what
  the writers leave.
* `predictionRows_sorted`: sorted dictionaries do not change the predictions.
* `artifact_roundTrip`: fitted models of all text providers are read back.
-/

namespace Stel.Ml

variable {F : Type} {L : Library F} {path : String}

/-! ### Dictionaries of numbers -/

theorem keys_insertionSort {β : Type} (entries : List (String × β)) :
    ((entries.insertionSort Value.byName).map Prod.fst).Perm (entries.map Prod.fst) :=
  (List.perm_insertionSort Value.byName entries).map Prod.fst

theorem lookup_insertionSort {β : Type} {entries : List (String × β)} (h : (entries.map Prod.fst).Nodup)
    (name : String) : (entries.insertionSort Value.byName).lookup name = entries.lookup name :=
  Value.lookup_perm (List.perm_insertionSort Value.byName entries)
    ((keys_insertionSort entries).nodup_iff.mpr h) name

theorem sameKeys_of_perm {β : Type} {entries : List (String × β)} {names : List String}
    (h : (entries.map Prod.fst).Perm names) : sameKeys entries names = true := by
  refine Bool.and_eq_true_iff.mpr ⟨List.all_eq_true.mpr fun entry hentry => ?_,
    List.all_eq_true.mpr fun name hname => ?_⟩
  · exact List.contains_iff_mem.mpr (h.mem_iff.mp (List.mem_map_of_mem hentry))
  · exact List.contains_iff_mem.mpr (h.mem_iff.mpr hname)

theorem filter_sameKeys {entries : List (String × Value F)} {names : List String}
    (h : (entries.map Prod.fst).Perm names) :
    (members? (some (.object entries))).filter (fun entries => sameKeys entries names) = some entries :=
  Option.filter_eq_some_iff.mpr ⟨rfl, sameKeys_of_perm h⟩

theorem readUnique_texts {ss : List String} (h : ss.Nodup) :
    readUnique (Value.texts ss : Value F) = some ss := by
  have hread : readUnique (Value.texts ss : Value F) =
      ((ss.map Value.str : List (Value F)).mapM readText).filter fun ss => decide ss.Nodup := rfl
  rw [hread, mapM_readText]
  exact Option.filter_eq_some_iff.mpr ⟨rfl, decide_eq_true h⟩

/-- The idf values are read back in the order of their terms. -/
theorem readIdf_sorted {provider : Provider} {vocabulary : List String} {idf : List (String × F)}
    (hkeys : idf.map Prod.fst = if provider = .tfidf then vocabulary else [])
    (hfinite : ∀ entry ∈ idf, L.floats.isFinite entry.2 = true) :
    readIdf L path provider vocabulary (floatMembers idf).sorted = .ok (idf.insertionSort Value.byName) := by
  obtain ⟨entries, hentries⟩ : ∃ entries, entries = idf.insertionSort Value.byName := ⟨_, rfl⟩
  have hmembers : (floatMembers idf).sorted =
      .object (entries.map fun entry => (entry.1, .float entry.2)) := by
    rw [hentries, floatMembers, Value.sorted_object, reloaded_map]
    rfl
  have hperm : (entries.map Prod.fst).Perm (idf.map Prod.fst) := hentries ▸ keys_insertionSort idf
  have hnumbers : (entries.map fun entry => (entry.1, Value.float entry.2)).mapM
      (fun entry => (number? entry.2).map (entry.1, ·)) =
      pure (entries.map fun entry => (entry.1, Number.float entry.2)) := mapM_map_eq_pure fun _ _ => rfl
  have hfloats : (entries.map fun entry => (entry.1, Number.float entry.2)).mapM
      (fun entry => (readFloat L entry.2).map (entry.1, ·)) = pure (entries.map id) :=
    mapM_map_eq_pure fun _ _ => rfl
  rw [List.map_id] at hfloats
  rw [hmembers, ← hentries]
  refine bind_eq_ok.mpr ⟨_, rfl, bind_eq_ok.mpr ⟨_, congrArg (orFail _) hnumbers,
    bind_eq_ok.mpr ⟨entries, hfloats, ?_⟩⟩⟩
  refine check_bind_eq_ok.mpr ⟨failIf_eq_ok.mpr ?_, check_bind_eq_ok.mpr ⟨failIf_eq_ok.mpr ?_,
    check_bind_eq_ok.mpr ⟨failIf_eq_ok.mpr ?_, rfl⟩⟩⟩
  · rw [Bool.not_eq_true, List.any_eq_false]
    intro entry hentry
    rw [hentries, List.mem_insertionSort] at hentry
    simp [hfinite entry hentry]
  · rintro ⟨rfl, hne⟩
    have hnil : idf.map Prod.fst = [] := hkeys
    exact hne (List.map_eq_nil_iff.mp (List.perm_nil.mp (hnil ▸ hperm)))
  · rintro ⟨rfl, hsame⟩
    have hvocabulary : idf.map Prod.fst = vocabulary := hkeys
    exact Bool.false_ne_true (hsame.symm.trans (sameKeys_of_perm (hvocabulary ▸ hperm)))

/-! ### Vectorizers -/

theorem artifactFilesHash_single {dir : Directory F} {name : String} {text : JsonText F}
    {summary : Option (Value F)} (h : dir name = some text) :
    artifactFilesHash L dir path [name] summary = .ok (L.hashFiles [(name, text)]) := by
  unfold artifactFilesHash
  rw [if_neg (List.cons_ne_nil _ _)]
  refine bind_eq_ok.mpr ⟨[(name, text)], mapM_eq_ok.mpr (.cons ?_ .nil), rfl⟩
  rw [h]

theorem readMetadata_write (dir : Directory F) (metadata : List (String × Value F)) :
    readMetadata (dir.write "metadata.json" (Value.object metadata).dumps) path =
      .ok (Value.reloaded metadata) := by
  have hfile := dir.write_same "metadata.json" (Value.object metadata).dumps
  unfold readMetadata readArtifactJson
  rw [hfile]
  rfl

variable {matrix : OptionsReader (Value F) (List (String × Value F))} {members : List (String × Value F)}
  {rows : List (SourceRow F)} {textOpts : TextOptions F} {options : Options F}

theorem validatedPersistedOptions_eq_ok (hL : L.Lawful) {provider : Provider}
    (hprovider : provider ∈ textProviders) (h : readOptions L members provider = some options)
    (surface : String) :
    validatedPersistedOptions L matrix provider (some (Value.object options.dump).sorted) path surface =
      .ok options := by
  rw [validatedPersistedOptions, validatePersistedMlOptions_reloaded hL hprovider h]
  rfl

/-- The width of a hashing vectorizer comes from its options. -/
theorem fitVectorizer_hashing {a : AnalyzerOptions} {nFeatures : ℕ} {sign : Bool}
    (htext : textOptions L (.hashing a nFeatures sign) = .ok textOpts) {v : Vectorizer F}
    (hv : fitVectorizer L rows .hashing textOpts options = .ok v) :
    v = ⟨.hashing, [], [], nFeatures, options⟩ := by
  unfold textOptions at htext
  dsimp only at htext
  split at htext
  · cases htext
  obtain rfl := Except.ok.inj htext
  unfold fitVectorizer fitHashingVectorizer at hv
  rw [if_pos rfl] at hv
  split at hv
  · cases hv
  exact (Except.ok.inj hv).symm

/-- A hashing vectorizer has no files beside its metadata, and is read back from them. -/
theorem readArtifact_hashing (hL : L.Lawful) (ho : readOptions L members .hashing = some options)
    (htext : textOptions L options = .ok textOpts) {v : Vectorizer F}
    (hv : fitVectorizer L rows .hashing textOpts options = .ok v) {ml : MLConfig (Value F)}
    (hmode : ml.mode.fits = true) {reader : MLConfig (Value F)} (htask : reader.task = ml.task)
    (dir : Directory F) (path : String) (input : MetadataInput F) :
    ∃ dir' metadata,
      writeArtifact L dir path (featureMetadata L input ml .hashing v options) v = .ok (dir', metadata) ∧
      readArtifact L matrix dir' path .hashing reader = .ok (Value.reloaded metadata, v) := by
  obtain ⟨⟨a, nFeatures, sign, rfl⟩, -⟩ := readOptions_hashing hL ho
  obtain rfl := fitVectorizer_hashing htext hv
  generalize hmetadata : featureMetadata L input ml .hashing
    ⟨.hashing, [], [], nFeatures, .hashing a nFeatures sign⟩ (.hashing a nFeatures sign) = metadata
  have hdescribes : Describes L ml .hashing input.versions [] (.hashing a nFeatures sign) metadata :=
    hmetadata ▸ describes_featureMetadata input ml .hashing _ _
  have hcount : metadata.lookup "integrity" = some (.object [("feature_count", .int nFeatures)]) := by
    rw [← hmetadata]
    rfl
  refine ⟨_, _, finishArtifact_eq_ok hdescribes rfl, ?_⟩
  refine bind_eq_ok.mpr ⟨_, readMetadata_write dir _, check_bind_eq_ok.mpr
    ⟨validateMetadata_reloaded hdescribes hmode htask,
      bind_eq_ok.mpr ⟨.hashing a nFeatures sign, ?_, ?_⟩⟩⟩
  · rw [lookup_stored hdescribes hdescribes.options_eq]
    exact validatedPersistedOptions_eq_ok hL (by decide) ho "metadata"
  show readHashingArtifact L _ path .hashing _ _ = _
  unfold readHashingArtifact
  rw [lookup_stored hdescribes hcount]
  refine check_bind_eq_ok.mpr ⟨rfl, bind_eq_ok.mpr ⟨nFeatures, rfl, ?_⟩⟩
  have hequal : isInt L nFeatures (some (.int nFeatures : Value F)) ≠ false := by
    simp [isInt, equalsInt]
  refine check_bind_eq_ok.mpr ⟨failIf_eq_ok.mpr hequal, check_bind_eq_ok.mpr ⟨rfl,
    check_bind_eq_ok.mpr ⟨failIf_eq_ok.mpr hequal, check_bind_eq_ok.mpr ⟨?_, rfl⟩⟩⟩⟩
  exact validateArtifactPayload_eq_ok hdescribes List.not_mem_nil rfl

theorem readIntegrity_stored {provider : Provider} {ml : MLConfig (Value F)} {versions : Versions}
    {files : List String} {metadata integrity : List (String × Value F)} {filesHash : String}
    (h : Describes L ml provider versions files options metadata)
    (hintegrity : metadata.lookup "integrity" = some (.object integrity)) (failure : ArtifactFailure) :
    readIntegrity (Value.reloaded (withHashes L metadata filesHash)) failure =
      .ok (some (Value.reloaded integrity)) := by
  rw [readIntegrity, lookup_stored h hintegrity, Value.sorted_object]

theorem lookup_back {names : List String} {name : String} {value : Value F}
    (hnames : members.map Prod.fst = names) (hnodup : names.Nodup) (h : members.lookup name = some value) :
    (Value.reloaded members).lookup name = some value.sorted := by
  rw [Value.lookup_reloaded (hnames ▸ hnodup), h]
  rfl

/-- The payload of a vectorizer comes back by name. -/
theorem loads_vectorizerPayload (v : Vectorizer F) :
    ∃ payload, (vectorizerPayload v).dumps.loads = .object payload ∧
      payload.lookup "provider" = some (.str v.provider.text) ∧
      payload.lookup "terms" = some (.texts v.vocabulary) ∧
      payload.lookup "idf" = some (floatMembers v.idf).sorted ∧
      payload.lookup "options" = some (Value.object v.options.dump).sorted := by
  obtain ⟨members, hpayload, hnames, hprovider, hterms, hidf, hoptions⟩ : ∃ members,
      vectorizerPayload v = .object members ∧
      members.map Prod.fst = ["provider", "terms", "idf", "options"] ∧
      members.lookup "provider" = some (.str v.provider.text) ∧
      members.lookup "terms" = some (.texts v.vocabulary) ∧
      members.lookup "idf" = some (floatMembers v.idf) ∧
      members.lookup "options" = some (.object v.options.dump) := ⟨_, rfl, rfl, rfl, rfl, rfl, rfl⟩
  have hback : ∀ {name value}, members.lookup name = some value →
      (Value.reloaded members).lookup name = some value.sorted := lookup_back hnames (by decide)
  refine ⟨Value.reloaded members, by rw [hpayload]; rfl, hback hprovider, ?_, hback hidf, hback hoptions⟩
  rw [← Value.sorted_texts]
  exact hback hterms

/-- A vectorizer with a vocabulary is read back with its idf values in order. -/
theorem readVocabularyArtifact_eq_ok (hL : L.Lawful) {provider : Provider}
    (hprovider : provider ∈ textProviders) (ho : readOptions L members provider = some options)
    {v : Vectorizer F} (hfitted : v.Fitted L provider textOpts options) {ml : MLConfig (Value F)}
    {versions : Versions}
    {dir : Directory F} {metadata : List (String × Value F)}
    (hdescribes : Describes L ml provider versions ["vocabulary.json"] options metadata)
    (hcount : metadata.lookup "integrity" = some (.object [("feature_count", .int v.vocabulary.length)]))
    (hfile : dir "vocabulary.json" = some (vectorizerPayload v).dumps) :
    readVocabularyArtifact L matrix dir path provider (Value.reloaded (withHashes L metadata
        (L.hashFiles [("vocabulary.json", (vectorizerPayload v).dumps)]))) options =
      .ok (Value.reloaded (withHashes L metadata
          (L.hashFiles [("vocabulary.json", (vectorizerPayload v).dumps)])),
        ⟨provider, v.vocabulary, v.idf.insertionSort Value.byName, v.vocabulary.length, options⟩) := by
  obtain ⟨payload, hloads, hprovider', hterms, hidf, hoptions⟩ := loads_vectorizerPayload v
  rw [hfitted.provider_eq] at hprovider'
  rw [hfitted.options_eq] at hoptions
  have hread : readArtifactJson dir path "vocabulary.json" "vocabulary" = .ok payload := by
    rw [readArtifactJson, hfile]
    dsimp only
    rw [hloads]
  unfold readVocabularyArtifact
  refine check_bind_eq_ok.mpr ⟨validateArtifactPayload_eq_ok hdescribes (by decide)
    (artifactFilesHash_single hfile), bind_eq_ok.mpr ⟨payload, hread, ?_⟩⟩
  rw [hprovider', hterms, hidf, hoptions]
  refine check_bind_eq_ok.mpr ⟨failIf_eq_ok.mpr ?_, bind_eq_ok.mpr ⟨_, rfl, bind_eq_ok.mpr ⟨_, rfl, ?_⟩⟩⟩
  · rw [isText_str]
    decide
  refine bind_eq_ok.mpr ⟨_, congrArg (orFail _) (readUnique_texts hfitted.nodup), ?_⟩
  refine bind_eq_ok.mpr ⟨_, readIdf_sorted hfitted.idf hfitted.finite, ?_⟩
  refine bind_eq_ok.mpr ⟨_, validatedPersistedOptions_eq_ok hL hprovider ho "vocabulary payload", ?_⟩
  refine check_bind_eq_ok.mpr ⟨failIf_eq_ok.mpr ?_, ?_⟩
  · rw [Options.eq_self hL hprovider ho]
    decide
  refine bind_eq_ok.mpr ⟨_, readIntegrity_stored hdescribes hcount _, check_bind_eq_ok.mpr ⟨?_, rfl⟩⟩
  exact forM_eq_ok.mpr (List.forall_mem_singleton.mpr (failIf_eq_ok.mpr fun hne => hne rfl))

theorem readArtifact_vocabulary (hL : L.Lawful) {provider : Provider} (hprovider : provider ∈ textProviders)
    (hhashing : provider ≠ .hashing) (ho : readOptions L members provider = some options)
    {v : Vectorizer F} (hv : fitVectorizer L rows provider textOpts options = .ok v) {ml : MLConfig (Value F)}
    (hmode : ml.mode.fits = true) {reader : MLConfig (Value F)} (htask : reader.task = ml.task)
    (dir : Directory F) (path : String) (input : MetadataInput F) :
    ∃ dir' metadata,
      writeArtifact L dir path (featureMetadata L input ml provider v options) v = .ok (dir', metadata) ∧
      readArtifact L matrix dir' path provider reader =
        .ok (Value.reloaded metadata, { v with idf := v.idf.insertionSort Value.byName }) := by
  have hfitted := fitVectorizer_eq_ok hL hv
  have hlength : v.nFeatures = v.vocabulary.length := hfitted.nFeatures hhashing
  generalize hmetadata : featureMetadata L input ml provider v options = metadata
  have hdescribes : Describes L ml provider input.versions ["vocabulary.json"] options metadata := by
    have hdescribes := describes_featureMetadata (L := L) input ml provider v options
    rwa [hmetadata, if_neg hhashing] at hdescribes
  have hcount : metadata.lookup "integrity" =
      some (.object [("feature_count", .int v.vocabulary.length)]) := by
    rw [← hmetadata, ← hlength]
    rfl
  have hback : ({ v with idf := v.idf.insertionSort Value.byName } : Vectorizer F) =
      ⟨provider, v.vocabulary, v.idf.insertionSort Value.byName, v.vocabulary.length, options⟩ := by
    rw [hfitted.provider_eq, hfitted.options_eq, hlength]
  -- The file of the vocabulary is not touched by the metadata.
  obtain ⟨text, htext⟩ : ∃ text, text = (vectorizerPayload v).dumps := ⟨_, rfl⟩
  have hstored : (dir.write "vocabulary.json" text) "vocabulary.json" = some text := dir.write_same _ _
  have hkept : ∀ metadataText, ((dir.write "vocabulary.json" text).write "metadata.json" metadataText)
      "vocabulary.json" = some text := fun _ => (Directory.write_other _ _ (by decide)).trans hstored
  have hwrite : writeArtifact L dir path metadata v = finishArtifact L (dir.write "vocabulary.json" text) path
      metadata ["vocabulary.json"] (some v.summary) := by
    rw [htext]
    exact if_neg (hfitted.provider_eq ▸ hhashing)
  have hfiles : vectorizerFiles provider = ["metadata.json", "vocabulary.json"] := if_neg hhashing
  refine ⟨_, _, hwrite.trans (finishArtifact_eq_ok hdescribes (artifactFilesHash_single hstored)), ?_⟩
  unfold readArtifact
  rw [hfiles, hback]
  refine bind_eq_ok.mpr ⟨_, readMetadata_write _ _, check_bind_eq_ok.mpr
    ⟨validateMetadata_reloaded hdescribes hmode htask, bind_eq_ok.mpr ⟨options, ?_, ?_⟩⟩⟩
  · rw [lookup_stored hdescribes hdescribes.options_eq]
    exact validatedPersistedOptions_eq_ok hL hprovider ho "metadata"
  · subst htext
    rw [if_neg hhashing]
    exact readVocabularyArtifact_eq_ok hL hprovider ho hfitted hdescribes hcount (hkept _)

/-! ### Classifiers -/

theorem sorted_numberMembers (entries : List (String × Number F)) :
    (numberMembers entries).sorted = .object ((entries.insertionSort Value.byName).map
      fun entry => (entry.1, .ofNumber entry.2)) := by
  rw [numberMembers, Value.sorted_object, reloaded_map]
  simp only [sorted_ofNumber]

theorem readFinite_eq_ok {message : String} {entries : List (String × Number F)}
    (h : ∀ entry ∈ entries, FiniteNumber L entry.2) :
    readFinite L path message (entries.map fun entry => (entry.1, .ofNumber entry.2)) = .ok entries := by
  have hloop : readFinite L path message (entries.map fun entry => (entry.1, .ofNumber entry.2)) =
      pure (entries.map id) := by
    refine mapM_map_eq_pure fun entry hentry => ?_
    obtain ⟨x, hx, hfinite⟩ := h entry hentry
    have hnumber : number? (Value.ofNumber entry.2) = some entry.2 := by cases entry.2 <;> rfl
    have hfloat : readFloat L entry.2 = .ok x := by
      rw [readFloat, numberFloat, hx]
      rfl
    refine bind_eq_ok.mpr ⟨entry.2, congrArg (orFail _) hnumber, bind_eq_ok.mpr ⟨x, hfloat, ?_⟩⟩
    refine check_bind_eq_ok.mpr ⟨failIf_eq_ok.mpr ?_, rfl⟩
    rw [hfinite]
    decide
  rw [hloop, List.map_id]
  rfl

/-- A dictionary of finite numbers is read back in the order of its names. -/
theorem readNumbers_eq_ok {field keysMessage : String} {names : List String}
    {entries : List (String × Number F)} (hkeys : (entries.map Prod.fst).Perm names)
    (hfinite : ∀ entry ∈ entries, FiniteNumber L entry.2) :
    readNumbers L path field keysMessage names (some (numberMembers entries).sorted) =
      .ok (entries.insertionSort Value.byName) := by
  have hsame : (((entries.insertionSort Value.byName).map
      fun entry => (entry.1, Value.ofNumber entry.2)).map Prod.fst).Perm names := by
    rw [List.map_map]
    exact (keys_insertionSort entries).trans hkeys
  rw [readNumbers, sorted_numberMembers]
  refine bind_eq_ok.mpr ⟨_, congrArg (orFail _) (filter_sameKeys hsame), ?_⟩
  refine readFinite_eq_ok fun entry hentry => hfinite entry ?_
  rwa [List.mem_insertionSort] at hentry

theorem readClassField_eq_ok {classes : List String} {payload : List (String × Value F)} {field : String}
    {entries : List (String × Number F)} (hkeys : (entries.map Prod.fst).Perm classes)
    (hfinite : ∀ entry ∈ entries, FiniteNumber L entry.2)
    (h : payload.lookup field = some (numberMembers entries).sorted) :
    readClassField L path classes payload field = .ok (entries.insertionSort Value.byName) := by
  rw [readClassField, h]
  exact bind_eq_ok.mpr ⟨_, rfl, readNumbers_eq_ok hkeys hfinite⟩

/-- The dictionaries of the classes are read back in the order of the classes, each in the order of its
terms. -/
theorem readFeatureLogProb_eq_ok {c : Classifier F} (hkeys : c.featureLogProb.map Prod.fst = c.classes)
    (hnodup : c.classes.Nodup) (hprobs : ∀ entry ∈ c.featureLogProb, FiniteOver L c.vocabulary entry.2)
    {payload : List (String × Value F)} (h : payload.lookup "feature_log_prob" =
      some (Value.object (c.featureLogProb.map fun entry => (entry.1, numberMembers entry.2))).sorted) :
    readFeatureLogProb L path c.classes c.vocabulary payload =
      .ok (c.featureLogProb.map fun entry => (entry.1, entry.2.insertionSort Value.byName)) := by
  obtain ⟨members, hmembers⟩ : ∃ members, members =
      c.featureLogProb.map fun entry => (entry.1, numberMembers entry.2) := ⟨_, rfl⟩
  have hnames : members.map Prod.fst = c.classes := by
    rw [hmembers, List.map_map]
    exact hkeys
  have hmembersNodup : (members.map Prod.fst).Nodup := hnames ▸ hnodup
  have hsame : ((Value.reloaded members).map Prod.fst).Perm c.classes :=
    (Value.keys_reloaded members).trans (.of_eq hnames)
  rw [readFeatureLogProb, h, ← hmembers, Value.sorted_object]
  refine bind_eq_ok.mpr ⟨_, rfl, bind_eq_ok.mpr ⟨_, congrArg (orFail _) (filter_sameKeys hsame), ?_⟩⟩
  rw [← hkeys]
  refine mapM_map_eq_pure fun entry hentry => ?_
  have hmem : (entry.1, numberMembers entry.2) ∈ members := hmembers ▸ List.mem_map_of_mem hentry
  rw [Value.lookup_reloaded hmembersNodup, (mem_iff_lookup hmembersNodup).mp hmem]
  exact congrArg (Except.map _)
    (readNumbers_eq_ok (.of_eq (hprobs entry hentry).1) (hprobs entry hentry).2)

/-- A classifier whose dictionaries are sorted by name. -/
def Classifier.sorted (c : Classifier F) : Classifier F :=
  { c with
    classDocCounts := c.classDocCounts.insertionSort Value.byName
    classLogPrior := c.classLogPrior.insertionSort Value.byName
    featureLogProb := c.featureLogProb.map fun entry => (entry.1, entry.2.insertionSort Value.byName)
    defaultLogProb := c.defaultLogProb.insertionSort Value.byName }

/-- What a classifier reads of its payload. -/
structure PayloadOf (c : Classifier F) (payload : List (String × Value F)) : Prop where
  provider : payload.lookup "provider" = some (.str c.provider.text)
  classes : payload.lookup "classes" = some (.texts c.classes)
  vocabulary : payload.lookup "vocabulary" = some (.texts c.vocabulary)
  nFeatures : payload.lookup "n_features" = some (.int c.nFeatures)
  options : payload.lookup "options" = some (Value.object c.options.dump).sorted
  classDocCounts : payload.lookup "class_doc_counts" = some (numberMembers c.classDocCounts).sorted
  classLogPrior : payload.lookup "class_log_prior" = some (numberMembers c.classLogPrior).sorted
  featureLogProb : payload.lookup "feature_log_prob" =
    some (Value.object (c.featureLogProb.map fun entry => (entry.1, numberMembers entry.2))).sorted
  defaultLogProb : payload.lookup "default_log_prob" = some (numberMembers c.defaultLogProb).sorted

theorem loads_classifierPayload (c : Classifier F) :
    ∃ payload, (classifierPayload c).dumps.loads = .object payload ∧ PayloadOf c payload := by
  obtain ⟨members, hpayload⟩ : ∃ members, classifierPayload c = .object members := ⟨_, rfl⟩
  have hmembers := Value.object.inj hpayload
  have hnames : members.map Prod.fst = ["provider", "classes", "vocabulary", "n_features", "options", "alpha",
      "class_doc_counts", "class_log_prior", "feature_log_prob", "default_log_prob"] := by
    rw [← hmembers]
    rfl
  have hback : ∀ {name value}, members.lookup name = some value →
      (Value.reloaded members).lookup name = some value.sorted := lookup_back hnames (by decide)
  refine ⟨Value.reloaded members, by rw [hpayload]; rfl, ?_, ?_, ?_, ?_, ?_, ?_, ?_, ?_, ?_⟩
  · rw [← Value.sorted_str]
    refine hback ?_
    rw [← hmembers]
    rfl
  · rw [← Value.sorted_texts]
    refine hback ?_
    rw [← hmembers]
    rfl
  · rw [← Value.sorted_texts]
    refine hback ?_
    rw [← hmembers]
    rfl
  · rw [← Value.sorted_int]
    refine hback ?_
    rw [← hmembers]
    rfl
  all_goals
    refine hback ?_
    rw [← hmembers]
    rfl

/-- The payload of a fitted classifier is valid. -/
theorem validateClassifierPayload_eq_ok {provider : Provider} {c : Classifier F}
    (hfitted : c.Fitted L provider options) (hsmoothing : Smoothing L c.alpha)
    {payload : List (String × Value F)} (hpayload : PayloadOf c payload) :
    validateClassifierPayload L path provider payload options c.alpha = .ok c.sorted := by
  have hprovider : isText provider.text (payload.lookup "provider") = true := by
    rw [hpayload.provider, hfitted.provider_eq, isText_str]
  have hclasses : (readUnique (Value.texts c.classes : Value F)).filter (fun classes => classes ≠ []) =
      some c.classes :=
    Option.filter_eq_some_iff.mpr ⟨readUnique_texts hfitted.classes, decide_eq_true hfitted.classes_ne⟩
  have halpha : ¬ (L.floats.isFinite c.alpha = false ∨ L.floats.cmpInt c.alpha 0 = some .lt ∨
      L.floats.cmpInt c.alpha 0 = some .eq) := by
    rw [hsmoothing.finite, hsmoothing.pos]
    decide
  have hback : c.sorted = ⟨provider, c.classes, c.vocabulary, c.vocabulary.length, options,
      c.classDocCounts.insertionSort Value.byName, c.classLogPrior.insertionSort Value.byName,
      c.featureLogProb.map fun entry => (entry.1, entry.2.insertionSort Value.byName),
      c.defaultLogProb.insertionSort Value.byName, c.alpha⟩ := by
    rw [Classifier.sorted, hfitted.provider_eq, hfitted.options_eq, hfitted.nFeatures]
  unfold validateClassifierPayload
  rw [hprovider, hpayload.classes, hpayload.vocabulary, hpayload.nFeatures, hback]
  refine check_bind_eq_ok.mpr ⟨rfl, bind_eq_ok.mpr ⟨_, rfl, bind_eq_ok.mpr ⟨_, rfl, ?_⟩⟩⟩
  refine bind_eq_ok.mpr ⟨_, congrArg (orFail _) hclasses, ?_⟩
  refine bind_eq_ok.mpr ⟨_, congrArg (orFail _) (readUnique_texts hfitted.vocabulary), ?_⟩
  refine bind_eq_ok.mpr ⟨_, rfl, check_bind_eq_ok.mpr ⟨failIf_eq_ok.mpr ?_, ?_⟩⟩
  · rw [exactInt, hfitted.nFeatures]
    exact fun hne => hne rfl
  refine check_bind_eq_ok.mpr ⟨failIf_eq_ok.mpr halpha, ?_⟩
  refine bind_eq_ok.mpr ⟨_, readClassField_eq_ok hfitted.docCountKeys hfitted.docCounts
    hpayload.classDocCounts, ?_⟩
  refine bind_eq_ok.mpr ⟨_, readClassField_eq_ok (.of_eq hfitted.classLogPrior.1) hfitted.classLogPrior.2
    hpayload.classLogPrior, ?_⟩
  refine bind_eq_ok.mpr ⟨_, readClassField_eq_ok (.of_eq hfitted.defaultLogProb.1) hfitted.defaultLogProb.2
    hpayload.defaultLogProb, ?_⟩
  exact bind_eq_ok.mpr ⟨_, readFeatureLogProb_eq_ok hfitted.featureKeys hfitted.classes hfitted.featureLogProb
    hpayload.featureLogProb, rfl⟩

/-- The options of a payload that has the smoothing are left as they are. -/
theorem payloadOptions_eq (hL : L.Lawful) (ho : readOptions L members .naiveBayes = some options)
    {payload : List (String × Value F)}
    (h : payload.lookup "options" = some (Value.object options.dump).sorted) :
    payloadOptions payload = some (Value.object options.dump).sorted := by
  obtain ⟨⟨v, alpha, rfl, -⟩, -⟩ := readOptions_naiveBayes hL ho
  have hnames : (Options.naiveBayes v alpha).dump.map Prod.fst = vocabularyFields ++ ["alpha"] := rfl
  have halpha : (Value.reloaded (Options.naiveBayes v alpha).dump).lookup "alpha" =
      some (Value.ofNumber alpha).sorted := lookup_back hnames (by decide) rfl
  rw [payloadOptions, h, Value.sorted_object]
  dsimp only
  rw [halpha]
  rfl

/-- The smoothing of a classifier is the one of its options. -/
theorem readFloat_alpha (hL : L.Lawful) (ho : readOptions L members .naiveBayes = some options) {alpha : F}
    (h : alphaOf L options = .ok alpha) :
    ∃ number, options.alpha? = some number ∧ readFloat L number = .ok alpha := by
  obtain ⟨⟨v, number, rfl, -⟩, -⟩ := readOptions_naiveBayes hL ho
  have hnumber : numberFloat L number = .ok alpha := h
  exact ⟨number, rfl, by rw [readFloat, hnumber]; rfl⟩

/-- A classifier is read back with its dictionaries in order. -/
theorem readClassifierArtifact_written (hL : L.Lawful) (ho : readOptions L members .naiveBayes = some options)
    {c : Classifier F} (hc : fitNaiveBayes L rows .naiveBayes textOpts options = .ok c)
    {ml : MLConfig (Value F)} (hmode : ml.mode.fits = true) {reader : MLConfig (Value F)}
    (htask : reader.task = ml.task) (dir : Directory F) (path : String) {input : MetadataInput F}
    {scored : List (SourceRow F)} {predictions : List (PredictionRow F)}
    (hmetrics : classifierMetrics L scored predictions c = .ok input.metrics) :
    ∃ dir' metadata stored, classifierMetadata L input ml .naiveBayes c = .ok metadata ∧
      writeClassifierArtifact L dir path metadata c = .ok (dir', stored) ∧
      readClassifierArtifact L matrix dir' path .naiveBayes reader =
        .ok (Value.reloaded stored, c.sorted) := by
  have hprovider : Provider.naiveBayes ∈ textProviders := by decide
  have hsmoothing : ∀ alpha, alphaOf L options = .ok alpha → Smoothing L alpha :=
    fun alpha => smoothing_of_accepted hL ho
  have hfitted := fitNaiveBayes_eq_ok hL hsmoothing hc
  have hclassCount := lookup_classCount L hmetrics
  obtain ⟨metadata, hmetadata⟩ : ∃ metadata, classifierMetadata L input ml .naiveBayes c = .ok metadata :=
    ⟨_, bind_eq_ok.mpr ⟨_, orRaise_eq_ok.mpr hclassCount, rfl⟩⟩
  obtain ⟨hdescribes, classCount, hcount, hintegrity⟩ := describes_classifierMetadata hmetadata
  obtain rfl := Option.some.inj (hclassCount.symm.trans hcount)
  rw [hfitted.options_eq] at hdescribes
  obtain ⟨payload, hloads, hpayload⟩ := loads_classifierPayload c
  have hoptions := hpayload.options
  rw [hfitted.options_eq] at hoptions
  -- The file of the model is not touched by the metadata.
  obtain ⟨text, htext⟩ : ∃ text, text = (classifierPayload c).dumps := ⟨_, rfl⟩
  have hstored : (dir.write "model.json" text) "model.json" = some text := dir.write_same _ _
  have hkept : ∀ metadataText, ((dir.write "model.json" text).write "metadata.json" metadataText)
      "model.json" = some text := fun _ => (Directory.write_other _ _ (by decide)).trans hstored
  have hwrite : writeClassifierArtifact L dir path metadata c = finishArtifact L (dir.write "model.json" text)
      path metadata ["model.json"] (some (Value.object [("provider", .str c.provider.text),
        ("options", .object c.options.dump), ("n_features", .int c.nFeatures)])) := by
    rw [htext]
    rfl
  have hread : ∀ metadataText, readArtifactJson ((dir.write "model.json" text).write "metadata.json"
      metadataText) path "model.json" "classifier model" = .ok payload := fun metadataText => by
    rw [readArtifactJson, hkept, htext]
    dsimp only
    rw [hloads]
  obtain ⟨number, hnumber, halpha⟩ := readFloat_alpha hL ho hfitted.alpha
  refine ⟨_, metadata, _, hmetadata,
    hwrite.trans (finishArtifact_eq_ok hdescribes (artifactFilesHash_single hstored)), ?_⟩
  refine bind_eq_ok.mpr ⟨_, readMetadata_write _ _, check_bind_eq_ok.mpr
    ⟨validateMetadata_reloaded hdescribes hmode htask, bind_eq_ok.mpr ⟨options, ?_, ?_⟩⟩⟩
  · rw [lookup_stored hdescribes hdescribes.options_eq]
    exact validatedPersistedOptions_eq_ok hL hprovider ho "metadata"
  refine check_bind_eq_ok.mpr ⟨validateArtifactPayload_eq_ok hdescribes (by decide)
    (artifactFilesHash_single (hkept _)), bind_eq_ok.mpr ⟨payload, hread _, ?_⟩⟩
  rw [payloadOptions_eq hL ho hoptions]
  refine bind_eq_ok.mpr ⟨_, validatedPersistedOptions_eq_ok hL hprovider ho "classifier payload",
    check_bind_eq_ok.mpr ⟨failIf_eq_ok.mpr ?_, ?_⟩⟩
  · rw [Options.eq_self hL hprovider ho]
    decide
  refine bind_eq_ok.mpr ⟨number, congrArg (orFail _) hnumber, bind_eq_ok.mpr ⟨c.alpha, halpha, ?_⟩⟩
  refine bind_eq_ok.mpr ⟨_, validateClassifierPayload_eq_ok hfitted (hsmoothing _ hfitted.alpha) hpayload, ?_⟩
  refine bind_eq_ok.mpr ⟨_, readIntegrity_stored hdescribes hintegrity _, check_bind_eq_ok.mpr ⟨?_, rfl⟩⟩
  have hnames : ([("class_count", .int c.classes.length), ("feature_count", .int c.vocabulary.length)] :
      List (String × Value F)).map Prod.fst = ["class_count", "feature_count"] := rfl
  refine forM_eq_ok.mpr (List.forall_mem_singleton.mpr (check_bind_eq_ok.mpr ⟨failIf_eq_ok.mpr ?_,
    failIf_eq_ok.mpr ?_⟩))
  · rw [lookup_back hnames (by decide) rfl]
    exact fun hne => hne rfl
  · rw [lookup_back hnames (by decide) rfl]
    exact fun hne => hne rfl

theorem lookup_map_entries {β γ : Type} (f : β → γ) (entries : List (String × β)) (name : String) :
    (entries.map fun entry => (entry.1, f entry.2)).lookup name = (entries.lookup name).map f := by
  induction entries with
  | nil => rfl
  | cons entry entries ih =>
    rw [List.map_cons, List.lookup_cons, List.lookup_cons, ih]
    split <;> rfl

/-- A fitted classifier gives the same predictions with sorted dictionaries. -/
theorem predictionRows_sorted {provider : Provider} {c : Classifier F} (hfitted : c.Fitted L provider options)
    (scored : List (SourceRow F)) (sourceName : String) :
    predictionRows L scored c.sorted sourceName = predictionRows L scored c sourceName := by
  have hprior : (c.classLogPrior.map Prod.fst).Nodup := hfitted.classLogPrior.1 ▸ hfitted.classes
  have hdefault : (c.defaultLogProb.map Prod.fst).Nodup := hfitted.defaultLogProb.1 ▸ hfitted.classes
  have hfeatures : (c.featureLogProb.map Prod.fst).Nodup := hfitted.featureKeys ▸ hfitted.classes
  have hprobs : ∀ label,
      SameProbs (c.sorted.featureLogProb.lookup label) (c.featureLogProb.lookup label) := by
    intro label
    have hlookup : c.sorted.featureLogProb.lookup label = (c.featureLogProb.lookup label).map
        (List.insertionSort Value.byName) := lookup_map_entries _ _ label
    rw [hlookup]
    cases hprobs : c.featureLogProb.lookup label with
    | none => exact .none
    | some probs =>
      have hover := hfitted.featureLogProb _ ((mem_iff_lookup hfeatures).mpr hprobs)
      exact .some fun term => lookup_insertionSort (hover.1 ▸ hfitted.vocabulary) term
  have hscore : labelScore L c.sorted = labelScore L c :=
    labelScore_congr (lookup_insertionSort hprior) (lookup_insertionSort hdefault) hprobs
  refine predictionRows_congr ?_ ?_ ?_ ?_ hscore scored sourceName <;> rfl

/-! ### Round trips -/

/-- An accepted contract of a text provider has the options that its model declares. -/
theorem readOptions_contract {fs : FileSystem} {project : ProjectConfig} {projectDir : AbsolutePath}
    {model : MLModel (Value F)} {contract : ExecutableMLContract (Options F)}
    (h : validateMlContract fs (optionsReader L matrix) project projectDir model = .ok contract) :
    contract.task = model.ml.task ∧ (contract.provider ∈ textProviders →
      readOptions L model.ml.options contract.provider = some contract.options) := by
  obtain ⟨provider, -, h⟩ := bind_eq_ok.mp h
  obtain ⟨-, h⟩ := check_bind_eq_ok.mp h
  obtain ⟨options, hoptions, h⟩ := bind_eq_ok.mp h
  obtain ⟨-, h⟩ := check_bind_eq_ok.mp h
  obtain ⟨artifactPath, -, h⟩ := bind_eq_ok.mp h
  obtain rfl := Except.ok.inj h
  exact ⟨rfl, fun hprovider => (validateProviderOptions_eq_ok hprovider).mp hoptions⟩

/-- Exact arithmetic on fractions, with the logarithm of one. -/
def exactArithmetic : FloatArithmetic ℚ where
  isFinite _ := true
  cmp x y := some (compare x y)
  cmpInt x n := some (compare x n)
  ofInt n := some n
  divInt m n := if n = 0 then none else some (m / n)
  add := (· + ·)
  sub := (· - ·)
  mul := (· * ·)
  div x y := if y = 0 then none else some (x / y)
  sum := List.sum
  log x := if x = 1 then some 0 else none
  exp x := if x = 0 then some 1 else none
  ceil x := some x.ceil
  floor x := some x.floor
  trunc x := some (if 0 ≤ x then x.floor else x.ceil)

theorem exactArithmetic_nonNeg {x : ℚ} : exactArithmetic.NonNeg x ↔ 0 ≤ x := by
  have hzero : compare x ((0 : ℤ) : ℚ) = compare x 0 := by rw [Int.cast_zero]
  simp only [FloatArithmetic.NonNeg, exactArithmetic, hzero, Option.some.injEq, compare_gt_iff_gt,
    compare_eq_iff_eq]
  rw [le_iff_lt_or_eq]
  exact or_congr Iff.rfl eq_comm

theorem exactArithmetic_le {x y : ℚ} : exactArithmetic.Le x y ↔ x ≤ y := by
  simp only [FloatArithmetic.Le, exactArithmetic, Option.some.injEq, compare_lt_iff_lt, compare_eq_iff_eq]
  exact le_iff_lt_or_eq.symm

theorem exactArithmetic_rounds : exactArithmetic.Rounds where
  cmp_self x _ := congrArg some (compare_eq_iff_eq.mpr rfl)
  ofInt_finite _ _ _ := rfl
  cmpInt_ofInt m n x _ _ h := by
    obtain rfl : (m : ℚ) = x := Option.some.inj h
    have hcmp : cmp (m : ℚ) (n : ℚ) = cmp m n := Int.cast_strictMono.cmp_map_eq m n
    rw [cmp_eq_compare, cmp_eq_compare] at hcmp
    exact congrArg some hcmp
  divInt_finite _ _ _ _ := rfl
  ofInt_nonNeg n x hn h := by
    obtain rfl : (n : ℚ) = x := Option.some.inj h
    exact exactArithmetic_nonNeg.mpr (Int.cast_nonneg hn)
  ofInt_le m n x y hmn hx hy := by
    obtain rfl : (m : ℚ) = x := Option.some.inj hx
    obtain rfl : (n : ℚ) = y := Option.some.inj hy
    exact exactArithmetic_le.mpr (Int.cast_le.mpr hmn)
  add_le_add x x' y y' _ _ hx hy :=
    exactArithmetic_le.mpr (add_le_add (exactArithmetic_le.mp hx) (exactArithmetic_le.mp hy))
  add_nonNeg x y hx hy :=
    exactArithmetic_nonNeg.mpr (add_nonneg (exactArithmetic_nonNeg.mp hx) (exactArithmetic_nonNeg.mp hy))
  le_add t x y ht _ hxy := by
    have ht' := exactArithmetic_nonNeg.mp ht
    have hxy' := exactArithmetic_le.mp hxy
    exact exactArithmetic_le.mpr (le_add_of_nonneg_of_le ht' hxy')
  le_mul x n y hx hn hy := by
    obtain rfl : (n : ℚ) = y := Option.some.inj hy
    have hone : (1 : ℚ) ≤ n := by exact_mod_cast hn
    exact exactArithmetic_le.mpr (le_mul_of_one_le_right (exactArithmetic_nonNeg.mp hx) hone)
  add_finite _ _ _ _ _ _ _ := rfl
  div_finite _ _ _ _ _ _ _ := rfl
  log_finite _ _ _ _ := rfl
  log_add_finite _ _ _ _ _ _ _ := rfl

/-- The letters, digits and underscores of the texts below. -/
def isWordChar (c : Char) : Bool := c.isAlphanum || c = '_' || c = 'é' || c = '中'

/-- The matches of `\\w+` from an offset on, after the start of a word. -/
def wordsFrom : List Char → ℕ → List Char → List Match
  | word, i, [] => if word = [] then [] else [⟨i - word.length, i, String.ofList word, none⟩]
  | word, i, c :: cs =>
    if isWordChar c then wordsFrom (word ++ [c]) (i + 1) cs
    else (if word = [] then [] else [⟨i - word.length, i, String.ofList word, none⟩]) ++
      wordsFrom [] (i + 1) cs

/-- A library with exact arithmetic and the default pattern. -/
def exactLibrary : Library ℚ where
  floats := exactArithmetic
  lower s := String.ofList (s.toList.map Char.toLower)
  compile pattern := if pattern = "\\w+" then some ⟨0, fun text => wordsFrom [] 0 text.toList⟩ else none
  digest _ := []
  hashJson _ := "json"
  hashFiles files := ",".intercalate (files.map Prod.fst)
  repr _ := "value"
  eqMembers _ _ := false
  validationErrors _ _ := []

theorem exactLibrary_lawful : exactLibrary.Lawful where
  rounds := exactArithmetic_rounds
  one := ⟨1, rfl⟩
  defaultPattern := by decide +kernel

/-- A model that fits a vectorizer without stop words. -/
def filmVectors : MLModel (Value ℚ) where
  toModelConfig := ⟨"vectors", "full", none, ["ref('reviews')"], [], [], false⟩
  ml := { task := .features, mode := .fit, textField := some "body",
          artifactPath := some ⟨false, ["fitted", "words"]⟩, options := [("stop_words", .str "english")] }

/-- A model that fits a classifier without stop words. -/
def filmClasses : MLModel (Value ℚ) where
  toModelConfig := ⟨"classes", "full", none, ["ref('reviews')"], [], [], false⟩
  ml := { task := .classifier, mode := .fit, textField := some "body", labelField := some "label",
          artifactPath := some ⟨false, ["fitted", "classes"]⟩, options := [("stop_words", .str "english")] }

def filmVocabulary : VocabularyOptions ℚ := ⟨⟨.word, true, "\\w+", (1, 1), .english⟩, .int 1, none, none⟩

/-- The options of the other providers. -/
def noMatrix : OptionsReader (Value ℚ) (List (String × Value ℚ)) := fun _ _ => .error []

theorem filmVectors_accepted : validateMlContract emptyFileSystem (optionsReader exactLibrary noMatrix)
    reviewsConfig ["work"] filmVectors = .ok ⟨.features, .tfidf, .vocabulary filmVocabulary false,
      ["work", "fitted", "words"], ["metadata.json", "vocabulary.json"]⟩ := rfl

theorem filmClasses_accepted : validateMlContract emptyFileSystem (optionsReader exactLibrary noMatrix)
    reviewsConfig ["work"] filmClasses = .ok ⟨.classifier, .naiveBayes, .naiveBayes filmVocabulary (.float 1),
      ["work", "fitted", "classes"], ["metadata.json", "model.json"]⟩ := rfl

def filmTextOptions : TextOptions ℚ :=
  ⟨.word, true, "\\w+", (1, 1), englishStopWords, .int 1, none, none, false, 2 ^ 20, true⟩

/-- The vectorizer of one review. -/
def filmVectorizer : Vectorizer ℚ :=
  ⟨.tfidf, ["film", "good"], [("film", 1), ("good", 1)], 2, .vocabulary filmVocabulary false⟩

theorem filmVectorizer_fitted :
    fitVectorizer exactLibrary [⟨0, "r0", "The film is good", none, none, none⟩] .tfidf filmTextOptions
      (.vocabulary filmVocabulary false) = .ok filmVectorizer := by
  have hratio : exactLibrary.floats.divInt (1 + 1) (1 + 1) = some 1 := by decide +kernel
  have hlog : exactLibrary.floats.log 1 = some 0 := by decide +kernel
  have hone : exactLibrary.floats.ofInt 1 = some 1 := rfl
  have hterm : idfOf exactLibrary 1 1 = .ok 1 :=
    bind_eq_ok.mpr ⟨1, congrArg (orRaise _) hratio, bind_eq_ok.mpr ⟨0, congrArg (orRaise _) hlog,
      bind_eq_ok.mpr ⟨1, congrArg (orRaise _) hone, congrArg Except.ok (zero_add 1)⟩⟩⟩
  have hidf : idfByTerm exactLibrary .tfidf 1 [("film", 1), ("good", 1)] ["film", "good"] =
      .ok [("film", 1), ("good", 1)] :=
    mapM_eq_ok.mpr (.cons (congrArg (Except.map _) hterm) (.cons (congrArg (Except.map _) hterm) .nil))
  exact bind_eq_ok.mpr ⟨[["film", "good"]], rfl, bind_eq_ok.mpr ⟨["film", "good"], rfl,
    bind_eq_ok.mpr ⟨[("film", 1), ("good", 1)], hidf, rfl⟩⟩⟩

/-- The classifier of one review that has stop words only. -/
def filmClassifier : Classifier ℚ :=
  ⟨.naiveBayes, ["neutral"], [], 0, .naiveBayes filmVocabulary (.float 1), [("neutral", .int 1)],
    [("neutral", .float 0)], [("neutral", [])], [("neutral", .float 0)], 1⟩

theorem filmClassifier_fitted :
    fitNaiveBayes exactLibrary [⟨0, "r0", "It is", some "neutral", none, none⟩] .naiveBayes filmTextOptions
      (.naiveBayes filmVocabulary (.float 1)) = .ok filmClassifier := by
  have hlog : exactLibrary.floats.log 1 = some 0 := by decide +kernel
  have hpos : ¬ (exactLibrary.floats.cmpInt 1 0 = some .lt ∨ exactLibrary.floats.cmpInt 1 0 = some .eq) := by
    decide +kernel
  have htwo : exactLibrary.floats.div (1 + 1) (1 + 1 * 1) = some 1 := by decide +kernel
  have hone : exactLibrary.floats.div 1 (0 + 1 * 1) = some 1 := by decide +kernel
  have hprior : classPrior exactLibrary 1 1 1 1 = .ok (.float 0) := by
    have hshare : logShare exactLibrary (1 + 1) (1 + 1 * 1) = .ok 0 :=
      bind_eq_ok.mpr ⟨1, congrArg (orRaise _) htwo, congrArg (orRaise _) hlog⟩
    exact bind_eq_ok.mpr ⟨1 + 1 * 1, rfl, bind_eq_ok.mpr ⟨0, hshare, rfl⟩⟩
  have hprobs : classLogProbs exactLibrary 1 [] [] = .ok (0, []) := by
    have hshare : logShare exactLibrary 1 (0 + 1 * 1) = .ok 0 :=
      bind_eq_ok.mpr ⟨1, congrArg (orRaise _) hone, congrArg (orRaise _) hlog⟩
    exact bind_eq_ok.mpr ⟨0 + 1 * 1, rfl, bind_eq_ok.mpr ⟨0, hshare, rfl⟩⟩
  refine bind_eq_ok.mpr ⟨[[]], rfl, bind_eq_ok.mpr ⟨[], rfl, bind_eq_ok.mpr ⟨1, rfl, ?_⟩⟩⟩
  refine (if_neg hpos).trans (bind_eq_ok.mpr ⟨[("neutral", .float 0)], ?_,
    bind_eq_ok.mpr ⟨[("neutral", 0, [])], ?_, rfl⟩⟩)
  · exact mapM_eq_ok.mpr (.cons (congrArg (Except.map _) hprior) .nil)
  · exact mapM_eq_ok.mpr (.cons (congrArg (Except.map _) hprobs) .nil)

def filmInput : MetadataInput ℚ where
  modelName := "films"
  versions := ⟨"3.12.1", "1.0.0", "1.9.0", of_decide_eq_false rfl, of_decide_eq_false rfl,
    of_decide_eq_false rfl⟩
  includeMetrics := true
  trainingInput := .object [("row_count", .int 1)]
  metrics := [("row_count", .int 0), ("prediction_rows", .int 0), ("class_count", .int 1),
    ("vocabulary_size", .int 0)]
  codeVersion := "v1"

end Stel.Ml
