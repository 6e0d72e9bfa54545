import Stel.Ml.Publication
import Stel.Program.Faults

/-!
# Interrupted publications

What a publication leaves behind at any point of its run, and how a recovery goes on from there. A
publication that is not committed can go back: what was at its path before is there or in the backup. Once it
is committed, only the backup, the staging directory and the journal are left to remove.

## Main definitions

* `ArtifactStore`: the registry and the artifacts.
* `Clean`, `Uncommitted`, `Committing`: the disk without a pending publication, and with one.

## Main results

* `safe_removePath`: a directory that is removed loses its files one after another.
* `safe_rollback`, `safe_cleanup`, `safe_recover`: the recovery of a publication.
-/

namespace Stel.Ml

open Prog

variable {F : Type}

/-! ### Members and the registry -/

section Members

variable {members : Members F} {name other : String} {value : Value F}

theorem lookup_setMember_self (members : Members F) (name : String) (value : Value F) :
    (setMember members name value).lookup name = some value := by
  unfold setMember
  split_ifs with hany
  · induction members with
    | nil => simp at hany
    | cons member members ih =>
      by_cases hname : member.1 = name
      · simp [hname]
      · have hmore : members.any (fun m => m.1 = name) = true := by simpa [hname] using hany
        simp only [List.map_cons, if_neg hname]
        rw [List.lookup_cons, beq_eq_false_iff_ne.mpr (Ne.symm hname)]
        exact ih hmore
  · rw [List.lookup_append, List.lookup_eq_none_iff.mpr]
    · simp
    · intro member hmember
      have hnone := List.any_eq_false.mp (Bool.eq_false_iff.mpr hany) member hmember
      exact bne_iff_ne.mpr fun h => hnone (decide_eq_true h.symm)

theorem lookup_setMember_of_ne (members : Members F) (value : Value F) (h : other ≠ name) :
    (setMember members name value).lookup other = members.lookup other := by
  unfold setMember
  split_ifs with hany
  · clear hany
    induction members with
    | nil => rfl
    | cons member members ih =>
      obtain ⟨n, v⟩ := member
      by_cases hname : n = name
      · subst hname
        have hne : (other == n) = false := beq_eq_false_iff_ne.mpr h
        simp only [List.map_cons, if_true, List.lookup_cons, hne]
        exact ih
      · simp only [List.map_cons, if_neg hname, List.lookup_cons, ih]
  · rw [List.lookup_append]
    have hne : (other == name) = false := beq_eq_false_iff_ne.mpr h
    simp [List.lookup_cons, hne]

theorem lookup_filter_ne (files : List (String × JsonText F)) (name other : String) :
    (files.filter fun file => file.1 ≠ name).lookup other =
      if other = name then none else files.lookup other := by
  induction files with
  | nil => simp
  | cons file files ih =>
    obtain ⟨n, text⟩ := file
    by_cases hn : n = name
    · subst hn
      rw [List.filter_cons_of_neg (by simp), ih, List.lookup_cons]
      by_cases ho : other = n
      · simp [ho]
      · simp [ho, beq_eq_false_iff_ne.mpr ho]
    · rw [List.filter_cons_of_pos (by simpa using hn), List.lookup_cons, List.lookup_cons, ih]
      by_cases ho : other = n
      · subst ho
        simp [hn]
      · simp [beq_eq_false_iff_ne.mpr ho]

end Members

/-- A registry as it is read: with a schema version, and with entries. -/
def IsRegistry (registry : Members F) : Prop :=
  (registry.lookup "artifact_schema_version").isSome = true ∧
    ∃ artifacts, registry.lookup "artifacts" = some (.object artifacts)

/-- A registry with an entry for a model. -/
def publishEntry (registry : Members F) (modelName : String) (entry : Members F) : Members F :=
  setMember registry "artifacts" (.object (setMember
    ((members? (registry.lookup "artifacts")).getD []) modelName (.object entry)))

section Registry

variable {path : AbsolutePath} {registry : Members F} {modelName : String} {entry : Members F}

theorem setDefault_of_isSome {name : String} {value : Value F}
    (h : (registry.lookup name).isSome = true) : setDefault registry name value = registry := if_pos h

theorem lookup_setDefault_isSome (registry : Members F) (name : String) (value : Value F) :
    ((setDefault registry name value).lookup name).isSome = true := by
  unfold setDefault
  split_ifs with h
  · exact h
  · rw [List.lookup_append]
    simp

theorem isSome_lookup_setDefault {name other : String} {value : Value F}
    (h : (registry.lookup other).isSome = true) :
    ((setDefault registry name value).lookup other).isSome = true := by
  unfold setDefault
  split_ifs
  · exact h
  · rw [List.lookup_append]
    simp [h]

/-- What is read is a registry. -/
theorem isRegistry_of_read {file : Option (Option (Members F))}
    (h : readArtifactRegistry path file = .ok registry) : IsRegistry registry := by
  match file with
  | none =>
    obtain rfl := Except.ok.inj h
    exact ⟨rfl, [], rfl⟩
  | some none => cases h
  | some (some members) =>
    rw [readArtifactRegistry] at h
    split at h
    · rename_i artifacts hartifacts
      obtain rfl := Except.ok.inj h
      exact ⟨isSome_lookup_setDefault (lookup_setDefault_isSome ..), artifacts, hartifacts⟩
    · cases h

/-- A registry is read as it was written. -/
theorem IsRegistry.read (h : IsRegistry registry) :
    readArtifactRegistry path (some (some registry)) = .ok registry := by
  obtain ⟨hschema, artifacts, hartifacts⟩ := h
  have hsome : (registry.lookup "artifacts").isSome = true := by rw [hartifacts]; rfl
  rw [readArtifactRegistry, setDefault_of_isSome hschema, setDefault_of_isSome hsome, hartifacts]

theorem IsRegistry.published (h : IsRegistry registry) :
    publishedRegistry path registry modelName entry = .ok (publishEntry registry modelName entry) := by
  obtain ⟨-, artifacts, hartifacts⟩ := h
  have hsome : (registry.lookup "artifacts").isSome = true := by rw [hartifacts]; rfl
  rw [publishedRegistry, setDefault_of_isSome hsome, publishEntry, hartifacts]
  rfl

theorem IsRegistry.publishEntry (h : IsRegistry registry) :
    IsRegistry (publishEntry registry modelName entry) := by
  refine ⟨?_, _, lookup_setMember_self ..⟩
  rw [Ml.publishEntry, lookup_setMember_of_ne _ _ (by decide)]
  exact h.1

/-- The entry of a model after its publication. -/
theorem registryEntry_publishEntry (registry : Members F) (modelName : String) (entry : Members F) :
    registryEntry (publishEntry registry modelName entry) modelName = some (.object entry) := by
  rw [registryEntry, publishEntry, lookup_setMember_self]
  exact lookup_setMember_self ..

theorem namesVersion_publishEntry (registry : Members F) (publication : Publication F) :
    namesVersion (publishEntry registry publication.modelName publication.entry) publication.modelName
      publication.version = true := by
  rw [namesVersion, registryEntry_publishEntry]
  simp [members?, publication.entry_version, isText]

end Registry

/-! ### The removal of a path -/

/-- The files of a directory are among those of another one. -/
def IsPart (files whole : List (String × JsonText F)) : Prop :=
  ∀ name text, files.lookup name = some text → whole.lookup name = some text

/-- What is left at a path while it is removed. -/
inductive Left : Option (Node F) → Option (Node F) → Prop
  | all (node : Option (Node F)) : Left node node
  | none (node : Option (Node F)) : Left node none
  | part {files whole : List (String × JsonText F)} (h : IsPart files whole) :
      Left (some (.directory whole)) (some (.directory files))

theorem isPart_filter (files : List (String × JsonText F)) (name : String) :
    IsPart (files.filter fun file => file.1 ≠ name) files := by
  intro other text h
  rw [lookup_filter_ne] at h
  split_ifs at h
  exact h

theorem IsPart.trans {files files' whole : List (String × JsonText F)} (h : IsPart files files')
    (h' : IsPart files' whole) : IsPart files whole :=
  fun name text hlookup => h' name text (h name text hlookup)

section Removal

variable {C : Disk F → Prop} {path : AbsolutePath} {s : Disk F}

theorem safe_removeFiles {names : List String} {files whole : List (String × JsonText F)}
    (hnode : s.nodes path = some (.directory files)) (hpart : IsPart files whole)
    (hC : ∀ files', IsPart files' whole → C (s.setNode path (some (.directory files')))) :
    (Prog.forEach (removeFile path) names : Publishing F PUnit).Safe diskInterp C
      (fun _ t => t = s.setNode path
        (some (.directory (files.filter fun file => file.1 ∉ names)))) s := by
  have hs : C s := by
    have h := hC files hpart
    rwa [← hnode, Disk.setNode_self] at h
  induction names generalizing s files with
  | nil =>
    refine ⟨hs, ?_⟩
    simp [← hnode]
  | cons name names ih =>
    have hremove : diskInterp (.removeFile path name) s =
        (s.setNode path (some (.directory (files.filter fun file => file.1 ≠ name))), .ok ⟨⟩) := by
      simp only [diskInterp, hnode]
    have hpart' := (isPart_filter files name).trans hpart
    refine Safe.call hremove hs ((ih (Disk.nodes_setNode_self ..) hpart' ?_ (hC _ hpart')).mono
      (fun _ h => h) ?_)
    · intro files' hfiles'
      rw [Disk.setNode_setNode]
      exact hC files' hfiles'
    · rintro _ t - rfl
      rw [Disk.setNode_setNode, List.filter_filter]
      congr 4
      funext file
      simp [not_or, Bool.and_comm]

/-- A directory that has lost all its files can be removed. -/
theorem removeDir_filter (path : AbsolutePath) (s : Disk F) (files : List (String × JsonText F)) :
    diskInterp (.removeDir path)
        (s.setNode path (some (.directory (files.filter fun file => file.1 ∉ files.map Prod.fst)))) =
      (s.setNode path none, .ok ⟨⟩) := by
  have hempty : (files.filter fun file => file.1 ∉ files.map Prod.fst) = [] := by
    refine List.filter_eq_nil_iff.mpr fun file hfile => ?_
    simpa using ⟨file.2, hfile⟩
  simp only [diskInterp, Disk.nodes_setNode_self, hempty, Disk.setNode_setNode]

/-- A path is removed. Before, it holds what is left of it. -/
theorem safe_removePath (hC : ∀ node, Left (s.nodes path) node → C (s.setNode path node)) :
    (removePath path : Publishing F PUnit).Safe diskInterp C
      (fun _ t => t = s.setNode path none) s := by
  have hs : C s := by simpa using hC _ (.all _)
  refine Safe.call rfl hs ?_
  cases hnode : s.nodes path with
  | none =>
    refine ⟨hs, ?_⟩
    rw [← hnode, Disk.setNode_self]
  | some node =>
    rw [hnode] at hC
    cases node with
    | file =>
      have hunlink : diskInterp (.unlink path) s = (s.setNode path none, .ok ⟨⟩) := by
        simp only [diskInterp, hnode]
      exact Safe.call hunlink hs ⟨hC _ (.none _), rfl⟩
    | directory files =>
      have hlist : diskInterp (.listDir path) s = (s, .ok (files.map Prod.fst)) := by
        simp only [diskInterp, hnode]
      refine Safe.call hlist hs ((safe_removeFiles hnode (fun _ _ h => h)
        fun files' hfiles' => hC _ (.part hfiles')).bind ?_)
      rintro ⟨⟩ t ht rfl
      exact Safe.call (removeDir_filter path s files) ht ⟨hC _ (.none _), rfl⟩

end Removal

/-! ### The disk around a publication -/

/-- What a path is for. -/
inductive PathRole
  | artifact
  | staging
  | backup
  deriving DecidableEq

/-- The files of an artifact, which has metadata. -/
def Node.artifact? : Node F → Option (List (String × JsonText F))
  | .directory files => if (files.lookup "metadata.json").isSome then some files else none
  | .file => none

/-- The registry and the artifacts at their paths. -/
structure ArtifactStore (F : Type) where
  registry : Members F
  artifacts : AbsolutePath → Option (List (String × JsonText F))

/-- An attempt to publish, with the files of the staging directory. They have the version of the entry. -/
structure Attempt (F : Type) where
  publication : Publication F
  publicationId : String
  files : List (String × JsonText F)
  publicationId_ne : publicationId ≠ ""
  files_version : (Node.directory files).version publication.finalPath = some publication.version

/-- The path of the artifact before the attempt. -/
def Attempt.backup (a : Attempt F) : AbsolutePath := backupPath a.publication.finalPath a.publicationId

/-- The paths of an attempt are told apart from those of other artifacts. -/
structure Attempt.Placed (role : AbsolutePath → PathRole) (a : Attempt F) : Prop where
  final : role a.publication.finalPath = .artifact
  staged : role a.publication.stagedPath = .staging
  backup : role a.backup = .backup

section Disk

variable (registryPath : AbsolutePath) (role : AbsolutePath → PathRole) (σ : ArtifactStore F)
  (a : Attempt F)

/-- No publication is pending. -/
structure Clean (s : Disk F) : Prop where
  registry : readArtifactRegistry registryPath s.registry = .ok σ.registry
  artifacts : ∀ path, role path = .artifact → (s.nodes path).bind Node.artifact? = σ.artifacts path
  backups : ∀ path, role path = .backup → s.nodes path = none
  journals : s.journals = []

/-- A publication is pending that can go back. What was at its path before is there or in the backup. -/
structure Uncommitted (prior : Option (Node F)) (s : Disk F) : Prop where
  journals : s.journals = [(journalName a.publicationId,
    some (a.publication.journal a.publicationId prior.isSome σ.registry))]
  registry : ∃ registry, readArtifactRegistry registryPath s.registry = .ok registry ∧
    (registry = σ.registry ∨
      registry = publishEntry σ.registry a.publication.modelName a.publication.entry)
  isRegistry : IsRegistry σ.registry
  prior_artifact : prior.bind Node.artifact? = σ.artifacts a.publication.finalPath
  final : s.nodes a.publication.finalPath = prior ∧ s.nodes a.backup = none ∨
    Left (some (.directory a.files)) (s.nodes a.publication.finalPath) ∧ s.nodes a.backup = prior
  artifacts : ∀ path, role path = .artifact → path ≠ a.publication.finalPath →
    (s.nodes path).bind Node.artifact? = σ.artifacts path
  backups : ∀ path, role path = .backup → path ≠ a.backup → s.nodes path = none

/-- A publication is pending that is committed. -/
structure Committing (s : Disk F) : Prop where
  journals : ∃ prior before, s.journals = [(journalName a.publicationId,
    some (a.publication.journal a.publicationId prior before))]
  registry : readArtifactRegistry registryPath s.registry = .ok σ.registry
  artifacts : ∀ path, role path = .artifact → (s.nodes path).bind Node.artifact? = σ.artifacts path
  backups : ∀ path, role path = .backup → path ≠ a.backup → s.nodes path = none
  names : namesVersion σ.registry a.publication.modelName a.publication.version = true
  version : (s.nodes a.publication.finalPath).bind (Node.version a.publication.finalPath) =
    some a.publication.version

end Disk

/-- A publication takes effect: the registry and the path of its artifact both have its version, and nothing
else changes. The artifact is the staged one, of which a rollback may have removed files, or it had the
version before. -/
structure Committed (a : Attempt F) (σ σ' : ArtifactStore F) : Prop where
  registry : σ'.registry = σ.registry ∨
    σ'.registry = publishEntry σ.registry a.publication.modelName a.publication.entry
  names : namesVersion σ'.registry a.publication.modelName a.publication.version = true
  artifacts : ∃ files, (Node.directory files).version a.publication.finalPath =
      some a.publication.version ∧
    (IsPart files a.files ∨ σ.artifacts a.publication.finalPath = some files) ∧
    σ'.artifacts = Function.update σ.artifacts a.publication.finalPath (some files)

/-! ### Versions -/

section Versions

variable {files whole : List (String × JsonText F)} {path : AbsolutePath}

theorem version_congr (h : files.lookup "metadata.json" = whole.lookup "metadata.json") :
    (Node.directory files).version path = (Node.directory whole).version path := by
  simp only [Node.version, readMetadata, readArtifactJson, h]

theorem artifact?_of_version {version : String}
    (h : (Node.directory files).version path = some version) :
    (Node.directory files).artifact? = some files := by
  cases hmetadata : files.lookup "metadata.json" with
  | none => simp [Node.version, readMetadata, hmetadata] at h
  | some text => simp [Node.artifact?, hmetadata]

theorem exists_directory_of_version {node : Option (Node F)} {version : String}
    (h : node.bind (Node.version path) = some version) :
    ∃ files, node = some (.directory files) ∧ (Node.directory files).version path = some version := by
  match node with
  | none => cases h
  | some .file => cases h
  | some (.directory files) => exact ⟨files, rfl, h⟩

/-- What is left of a directory is no artifact once it has lost the version. -/
theorem Left.artifact?_eq_none {node : Option (Node F)} {version : String}
    (h : Left (some (.directory whole)) node)
    (hwhole : (Node.directory whole).version path = some version)
    (hnode : node.bind (Node.version path) ≠ some version) : node.bind Node.artifact? = .none := by
  cases h with
  | all => exact absurd hwhole hnode
  | none => rfl
  | @part files _ hpart =>
    cases hmetadata : files.lookup "metadata.json" with
    | none => simp [Node.artifact?, hmetadata]
    | some text =>
      rw [← version_congr (hmetadata.trans (hpart _ _ hmetadata).symm)] at hwhole
      exact absurd hwhole hnode

theorem Left.isPart (h : Left (some (.directory whole)) (some (.directory files))) :
    IsPart files whole := by
  cases h with
  | all => exact fun _ _ h => h
  | part hpart => exact hpart

theorem Left.trans {node node' node'' : Option (Node F)} (h : Left node node') (h' : Left node' node'') :
    Left node node'' := by
  cases h' with
  | all => exact h
  | none => exact .none _
  | part hpart =>
    cases h with
    | all => exact .part hpart
    | part hpart' => exact .part (hpart.trans hpart')

end Versions

theorem validatedJournalPaths_journal (registryPath : AbsolutePath) (a : Attempt F) (prior : Bool)
    (before : Members F) :
    validatedJournalPaths registryPath (journalName a.publicationId)
      (a.publication.journal a.publicationId prior before) = .ok ⟨⟩ := by
  refine (if_neg a.publicationId_ne).trans (if_pos ⟨rfl, a.publication.staged_parent, ?_, ?_, ?_⟩)
  · exact dropLast_withName _ _
  · exact a.publication.staged_name
  · exact pathName_withName _ _

/-! ### Going back -/

section Programs

variable {registryPath : AbsolutePath} {role : AbsolutePath → PathRole} {σ σ' : ArtifactStore F}
  {a : Attempt F} {prior : Option (Node F)} {s t : Disk F}

/-- Paths for different things are different. -/
theorem ne_of_role {path other : AbsolutePath} {r r' : PathRole} (h : role path = r) (h' : role other = r')
    (hne : r ≠ r') : path ≠ other :=
  ne_of_apply_ne role (by rwa [h, h'])

theorem Attempt.Placed.backup_ne (h : a.Placed role) : a.backup ≠ a.publication.finalPath :=
  ne_of_role h.backup h.final nofun

theorem Attempt.Placed.staged_ne_final (h : a.Placed role) :
    a.publication.stagedPath ≠ a.publication.finalPath := ne_of_role h.staged h.final nofun

theorem Attempt.Placed.staged_ne_backup (h : a.Placed role) : a.publication.stagedPath ≠ a.backup :=
  ne_of_role h.staged h.backup nofun

variable (role) in
/-- The staging directories are as before, or gone. -/
def Swept (s t : Disk F) : Prop :=
  ∀ path, role path = .staging → t.nodes path = none ∨ t.nodes path = s.nodes path

theorem swept_of_eq (h : ∀ path, role path = .staging → t.nodes path = s.nodes path) : Swept role s t :=
  fun path hrole => .inr (h path hrole)

/-- The nodes at the path of an artifact and at its backup are not those of other artifacts. -/
theorem Uncommitted.update (placed : a.Placed role) (h : Uncommitted registryPath role σ a prior s)
    (hjournals : t.journals = s.journals) (hregistry : t.registry = s.registry)
    (hfinal : t.nodes a.publication.finalPath = prior ∧ t.nodes a.backup = none ∨
      Left (some (.directory a.files)) (t.nodes a.publication.finalPath) ∧ t.nodes a.backup = prior)
    (hnodes : ∀ path, path ≠ a.publication.finalPath → path ≠ a.backup → role path ≠ .staging →
      t.nodes path = s.nodes path) :
    Uncommitted registryPath role σ a prior t where
  journals := hjournals.trans h.journals
  registry := by rw [hregistry]; exact h.registry
  isRegistry := h.isRegistry
  prior_artifact := h.prior_artifact
  final := hfinal
  artifacts path hrole hne := by
    rw [hnodes path hne]
    · exact h.artifacts path hrole hne
    · exact ne_of_role hrole placed.backup nofun
    · simp [hrole]
  backups path hrole hne := by
    rw [hnodes path _ hne]
    · exact h.backups path hrole hne
    · simp [hrole]
    · exact ne_of_role hrole placed.final nofun

/-- The artifact while it is removed in order to go back. -/
theorem Uncommitted.remove_final (placed : a.Placed role) (h : Uncommitted registryPath role σ a prior s)
    (hbackup : s.nodes a.backup = prior)
    (hleft : Left (some (.directory a.files)) (s.nodes a.publication.finalPath)) {node : Option (Node F)}
    (hnode : Left (s.nodes a.publication.finalPath) node) :
    Uncommitted registryPath role σ a prior (s.setNode a.publication.finalPath node) := by
  refine h.update placed rfl rfl (.inr ⟨?_, ?_⟩) fun path hne _ _ => Disk.nodes_setNode_of_ne _ _ hne
  · rw [Disk.nodes_setNode_self]
    exact hleft.trans hnode
  · rw [Disk.nodes_setNode_of_ne _ _ placed.backup_ne]
    exact hbackup

/-- The staging directories do not matter. -/
theorem Uncommitted.stage (placed : a.Placed role) (h : Uncommitted registryPath role σ a prior s)
    {path : AbsolutePath} (hrole : role path = .staging) (node : Option (Node F)) :
    Uncommitted registryPath role σ a prior (s.setNode path node) := by
  have hne {other : AbsolutePath} (hother : role other ≠ .staging) : other ≠ path := by
    rintro rfl
    exact hother hrole
  refine h.update placed rfl rfl ?_ fun other _ _ hother => Disk.nodes_setNode_of_ne _ _ (hne hother)
  rw [Disk.nodes_setNode_of_ne _ _ (hne (by simp [placed.final])),
    Disk.nodes_setNode_of_ne _ _ (hne (by simp [placed.backup]))]
  exact h.final

variable (registryPath role σ a prior) in
/-- The artifact is back. -/
structure Restored (s t : Disk F) : Prop where
  uncommitted : Uncommitted registryPath role σ a prior t
  artifact : (t.nodes a.publication.finalPath).bind Node.artifact? = σ.artifacts a.publication.finalPath
  backup : t.nodes a.backup = none
  staging : ∀ path, role path = .staging → t.nodes path = s.nodes path

/-- What was at the path of an artifact is put back there. -/
theorem replace_backup (placed : a.Placed role) {node : Node F} (hbackup : s.nodes a.backup = some node) :
    diskInterp (.replace a.backup a.publication.finalPath) (s.setNode a.publication.finalPath none) =
      ((s.setNode a.publication.finalPath (some node)).setNode a.backup none, .ok ⟨⟩) := by
  simp only [diskInterp, Disk.nodes_setNode_of_ne _ _ placed.backup_ne, hbackup, Disk.nodes_setNode_self,
    Node.canReplace, if_true, Disk.setNode_setNode]

theorem safe_restoreArtifact (placed : a.Placed role) (h : Uncommitted registryPath role σ a prior s) :
    (restoreArtifact (a.publication.journal a.publicationId prior.isSome σ.registry)).Safe diskInterp
      (Uncommitted registryPath role σ a prior) (fun _ => Restored registryPath role σ a prior s) s := by
  have hstaging {path : AbsolutePath} (hrole : role path = .staging) :
      path ≠ a.publication.finalPath ∧ path ≠ a.backup :=
    ⟨ne_of_role hrole placed.final nofun, ne_of_role hrole placed.backup nofun⟩
  refine Safe.call rfl h ?_
  change Safe _ _ _ (if ((s.nodes a.backup).map Node.kind).isSome then _ else _) s
  cases hbackup : s.nodes a.backup with
  | some node =>
    obtain ⟨-, hnone⟩ | ⟨hleft, hprior⟩ := h.final
    · rw [hnone] at hbackup
      cases hbackup
    refine (safe_removePath fun node hnode => h.remove_final placed hprior hleft hnode).bind ?_
    rintro ⟨⟩ t ht rfl
    have hfinal : ((s.setNode a.publication.finalPath (some node)).setNode a.backup none).nodes
        a.publication.finalPath = prior := by
      rw [Disk.nodes_setNode_of_ne _ _ placed.backup_ne.symm, Disk.nodes_setNode_self, ← hprior, hbackup]
    have hafter : Uncommitted registryPath role σ a prior
        ((s.setNode a.publication.finalPath (some node)).setNode a.backup none) := by
      refine h.update placed rfl rfl (.inl ⟨hfinal, Disk.nodes_setNode_self ..⟩) fun path hne hne' _ => ?_
      rw [Disk.nodes_setNode_of_ne _ _ hne', Disk.nodes_setNode_of_ne _ _ hne]
    refine Safe.call (replace_backup placed hbackup) ht ⟨hafter, hafter, ?_, Disk.nodes_setNode_self ..,
      fun path hrole => ?_⟩
    · rw [hfinal, h.prior_artifact]
    · rw [Disk.nodes_setNode_of_ne _ _ (hstaging hrole).2, Disk.nodes_setNode_of_ne _ _ (hstaging hrole).1]
  | none =>
    cases prior with
    | some node =>
      obtain ⟨hfinal, -⟩ | ⟨-, hprior⟩ := h.final
      · refine ⟨h, h, ?_, hbackup, fun _ _ => rfl⟩
        rw [hfinal, h.prior_artifact]
      · rw [hbackup] at hprior
        cases hprior
    | none =>
      have hleft : Left (some (.directory a.files)) (s.nodes a.publication.finalPath) := by
        obtain ⟨hfinal, -⟩ | ⟨hleft, -⟩ := h.final
        · rw [hfinal]
          exact .none _
        · exact hleft
      refine Safe.call rfl h ?_
      change Safe _ _ _ (if (s.nodes a.publication.finalPath).bind (Node.version a.publication.finalPath) =
        some a.publication.version then _ else _) s
      split_ifs with hversion
      · refine (safe_removePath fun node hnode => h.remove_final placed hbackup hleft hnode).mono
          (fun _ h => h) ?_
        rintro _ t ht rfl
        refine ⟨ht, ?_, ?_, fun path hrole => Disk.nodes_setNode_of_ne _ _ (hstaging hrole).1⟩
        · rw [Disk.nodes_setNode_self, ← h.prior_artifact]
        · rw [Disk.nodes_setNode_of_ne _ _ placed.backup_ne, hbackup]
      · refine ⟨h, h, ?_, hbackup, fun _ _ => rfl⟩
        rw [hleft.artifact?_eq_none a.files_version hversion, ← h.prior_artifact]
        rfl

/-- Without the journal of the only publication that was pending, none is pending. -/
theorem clean_of_unlinkJournal {name : String} {journal : Option (Journal F)}
    (hjournals : s.journals = [(name, journal)])
    (hregistry : readArtifactRegistry registryPath s.registry = .ok σ.registry)
    (hartifacts : ∀ path, role path = .artifact →
      (s.nodes path).bind Node.artifact? = σ.artifacts path)
    (hbackups : ∀ path, role path = .backup → s.nodes path = none) :
    Clean registryPath role σ (diskInterp (.unlinkJournal name) s).1 where
  registry := hregistry
  artifacts := hartifacts
  backups := hbackups
  journals := by simp [diskInterp, hjournals]

/-- A rollback ends without the publication. -/
theorem safe_rollbackPublication (placed : a.Placed role) (h : Uncommitted registryPath role σ a prior s) :
    (rollbackPublication registryPath (journalName a.publicationId)
      (a.publication.journal a.publicationId prior.isSome σ.registry)).Safe diskInterp
      (fun t => Uncommitted registryPath role σ a prior t ∨ Clean registryPath role σ t)
      (fun _ t => Clean registryPath role σ t ∧ Swept role s t) s := by
  rw [rollbackPublication, validatedJournalPaths_journal, Prog.ofExcept_ok, Prog.pure_bind]
  refine ((safe_restoreArtifact placed h).mono (fun _ h => .inl h) (fun _ _ _ h => h)).bind ?_
  rintro ⟨⟩ t - hrestored
  have hwritten : Uncommitted registryPath role σ a prior
      { t with registry := some (some σ.registry) } :=
    { hrestored.uncommitted with registry := ⟨_, h.isRegistry.read, .inl rfl⟩ }
  refine Safe.call rfl (.inl hrestored.uncommitted)
    ((safe_removePath fun node _ => .inl (hwritten.stage placed placed.staged node)).bind ?_)
  rintro ⟨⟩ u hu rfl
  have hclean : Clean registryPath role σ (diskInterp (.unlinkJournal (journalName a.publicationId))
      (({ t with registry := some (some σ.registry) } : Disk F).setNode
        a.publication.stagedPath none)).1 := by
    refine clean_of_unlinkJournal hwritten.journals h.isRegistry.read (fun path hrole => ?_)
      fun path hrole => ?_
    · by_cases hpath : path = a.publication.finalPath
      · subst hpath
        rw [Disk.nodes_setNode_of_ne _ _ placed.staged_ne_final.symm]
        exact hrestored.artifact
      · exact (hwritten.stage placed placed.staged none).artifacts path hrole hpath
    · by_cases hpath : path = a.backup
      · subst hpath
        rw [Disk.nodes_setNode_of_ne _ _ placed.staged_ne_backup.symm]
        exact hrestored.backup
      · exact (hwritten.stage placed placed.staged none).backups path hrole hpath
  refine Safe.call rfl hu ⟨.inr hclean, hclean, fun path hrole => ?_⟩
  by_cases hpath : path = a.publication.stagedPath
  · subst hpath
    exact .inl (Disk.nodes_setNode_self ..)
  · exact .inr ((Disk.nodes_setNode_of_ne _ _ hpath).trans (hrestored.staging path hrole))

/-! ### Finishing -/

/-- The backup of a publication that is committed and the staging directories do not matter. -/
theorem Committing.setNode (placed : a.Placed role) (h : Committing registryPath role σ a s)
    {path : AbsolutePath} (hpath : path = a.backup ∨ role path = .staging) (node : Option (Node F)) :
    Committing registryPath role σ a (s.setNode path node) := by
  have hne {other : AbsolutePath} (hother : role other = .artifact) : other ≠ path := by
    rintro rfl
    obtain rfl | hstaging := hpath
    · cases placed.backup.symm.trans hother
    · cases hstaging.symm.trans hother
  refine ⟨h.journals, h.registry, fun other hother => ?_, fun other hother hbackup => ?_, h.names, ?_⟩
  · rw [Disk.nodes_setNode_of_ne _ _ (hne hother)]
    exact h.artifacts other hother
  · rw [Disk.nodes_setNode_of_ne]
    · exact h.backups other hother hbackup
    · rintro rfl
      obtain rfl | hstaging := hpath
      · exact hbackup rfl
      · cases hstaging.symm.trans hother
  · rw [Disk.nodes_setNode_of_ne _ _ (hne placed.final)]
    exact h.version

/-- The cleanup ends with the publication. -/
theorem safe_cleanupCommittedPublication (placed : a.Placed role)
    (h : Committing registryPath role σ a s) (before : Bool) (registryBefore : Members F) :
    (cleanupCommittedPublication registryPath (journalName a.publicationId)
      (a.publication.journal a.publicationId before registryBefore)).Safe diskInterp
      (fun t => Committing registryPath role σ a t ∨ Clean registryPath role σ t)
      (fun _ t => Clean registryPath role σ t ∧ Swept role s t) s := by
  refine Safe.tryCatch ?_ ?_
  · rw [validatedJournalPaths_journal, Prog.ofExcept_ok, Prog.pure_bind]
    refine (safe_removePath fun node _ => .inl (h.setNode placed (.inl rfl) node)).bind ?_
    rintro ⟨⟩ t - rfl
    have hbackup := h.setNode placed (.inl rfl) none
    refine (safe_removePath fun node _ => .inl (hbackup.setNode placed (.inr placed.staged) node)).bind ?_
    rintro ⟨⟩ u hu rfl
    have hstaged := hbackup.setNode placed (.inr placed.staged) none
    obtain ⟨_, _, hjournals⟩ := hstaged.journals
    have hclean := clean_of_unlinkJournal hjournals hstaged.registry hstaged.artifacts
      fun path hrole => by
        by_cases hpath : path = a.backup
        · subst hpath
          rw [Disk.nodes_setNode_of_ne _ _ placed.staged_ne_backup.symm, Disk.nodes_setNode_self]
        · exact hstaged.backups path hrole hpath
    refine Safe.call rfl hu ⟨.inr hclean, hclean, fun path hrole => ?_⟩
    by_cases hpath : path = a.publication.stagedPath
    · subst hpath
      exact .inl (Disk.nodes_setNode_self ..)
    · have hne : path ≠ a.backup := ne_of_role hrole placed.backup nofun
      exact .inr ((Disk.nodes_setNode_of_ne _ _ hpath).trans (Disk.nodes_setNode_of_ne _ _ hne))
  · intro e t ht
    cases e <;> exact ht

/-! ### Recovery -/

variable (registryPath role σ a) in
/-- A publication is pending. -/
def Pending (s : Disk F) : Prop :=
  (∃ prior, Uncommitted registryPath role σ a prior s) ∨
    ∃ σ', Committed a σ σ' ∧ Committing registryPath role σ' a s

variable (registryPath role σ a) in
/-- A publication has no effect, or takes effect, and is not pending. -/
def IsSettled (s : Disk F) : Prop :=
  Clean registryPath role σ s ∨ ∃ σ', Committed a σ σ' ∧ Clean registryPath role σ' s

variable (registryPath role σ a) in
/-- A publication is pending or settled. -/
def Underway (s : Disk F) : Prop := Pending registryPath role σ a s ∨ IsSettled registryPath role σ a s

theorem Committed.underway (hcommitted : Committed a σ σ')
    (h : Committing registryPath role σ' a s ∨ Clean registryPath role σ' s) :
    Underway registryPath role σ a s :=
  h.imp (fun h => .inr ⟨σ', hcommitted, h⟩) fun h => .inr ⟨σ', hcommitted, h⟩

theorem underway_of_rollback (h : Uncommitted registryPath role σ a prior s ∨ Clean registryPath role σ s) :
    Underway registryPath role σ a s := h.imp (fun h => .inl ⟨prior, h⟩) .inl

/-- If the registry and the artifact have the version of a publication, then it is committed. -/
theorem Uncommitted.exists_committing (h : Uncommitted registryPath role σ a prior s)
    {registry : Members F} (hregistry : readArtifactRegistry registryPath s.registry = .ok registry)
    (hnames : namesVersion registry a.publication.modelName a.publication.version = true)
    (hversion : (s.nodes a.publication.finalPath).bind (Node.version a.publication.finalPath) =
      some a.publication.version) :
    ∃ σ', Committed a σ σ' ∧ Committing registryPath role σ' a s := by
  obtain ⟨registry', hregistry', hpublished⟩ := h.registry
  obtain rfl := Except.ok.inj (hregistry.symm.trans hregistry')
  obtain ⟨files, hfiles, hfilesVersion⟩ := exists_directory_of_version hversion
  refine ⟨⟨registry, Function.update σ.artifacts a.publication.finalPath (some files)⟩,
    ⟨hpublished, hnames, files, hfilesVersion, ?_, rfl⟩,
    ⟨⟨_, _, h.journals⟩, hregistry, fun path hrole => ?_, h.backups, hnames, hversion⟩⟩
  · obtain ⟨hfinal, -⟩ | ⟨hleft, -⟩ := h.final
    · refine .inr ?_
      rw [← h.prior_artifact, ← hfinal, hfiles]
      exact artifact?_of_version hfilesVersion
    · rw [hfiles] at hleft
      exact .inl hleft.isPart
  · change _ = Function.update σ.artifacts a.publication.finalPath (some files) path
    by_cases hpath : path = a.publication.finalPath
    · subst hpath
      rw [Function.update_self, hfiles]
      exact artifact?_of_version hfilesVersion
    · rw [Function.update_of_ne hpath]
      exact h.artifacts path hrole hpath

/-- What the recovery of a journal goes on with. -/
theorem safe_recoverPublication_of {C : Disk F → Prop} {Q : PUnit → Disk F → Prop} {name : String}
    {journal : Journal F} {registry : Members F} (hjournals : s.journals = [(name, some journal)])
    (hregistry : readArtifactRegistry registryPath s.registry = .ok registry) (hs : C s)
    (hcleanup : namesVersion registry journal.modelName journal.artifactVersion = true →
      (s.nodes journal.finalPath).bind (Node.version journal.finalPath) = some journal.artifactVersion →
      (cleanupCommittedPublication registryPath name journal).Safe diskInterp C Q s)
    (hrollback : ¬ (namesVersion registry journal.modelName journal.artifactVersion = true ∧
        (s.nodes journal.finalPath).bind (Node.version journal.finalPath) = some journal.artifactVersion) →
      (rollbackPublication registryPath name journal).Safe diskInterp C Q s) :
    (recoverPublication registryPath name).Safe diskInterp C Q s := by
  have hreply : diskInterp (.readJournal name) s = (s, .ok (some journal)) := by
    simp [diskInterp, hjournals]
  refine Safe.call hreply hs (Safe.call rfl hs ?_)
  change Safe _ _ _ (Prog.ofExcept (readArtifactRegistry registryPath s.registry) >>= _) s
  rw [hregistry, Prog.ofExcept_ok, Prog.pure_bind, isCommitted]
  split_ifs with hnames
  · refine Safe.call rfl hs ?_
    change Safe _ _ _ (if decide ((s.nodes journal.finalPath).bind (Node.version journal.finalPath) =
      some journal.artifactVersion) = true then _ else _) s
    split_ifs with hversion
    · exact hcleanup hnames (of_decide_eq_true hversion)
    · exact hrollback fun h => hversion (decide_eq_true h.2)
  · exact hrollback fun h => hnames h.1

/-- The recovery of a pending publication settles it. -/
theorem safe_recoverPublication (placed : a.Placed role) (h : Pending registryPath role σ a s) :
    (recoverPublication registryPath (journalName a.publicationId)).Safe diskInterp
      (Underway registryPath role σ a)
      (fun _ t => IsSettled registryPath role σ a t ∧ Swept role s t) s := by
  have hcleanup {σ' : ArtifactStore F} (hcommitted : Committed a σ σ')
      (hcommitting : Committing registryPath role σ' a s) (before : Bool) (registryBefore : Members F) :
      (cleanupCommittedPublication registryPath (journalName a.publicationId)
        (a.publication.journal a.publicationId before registryBefore)).Safe diskInterp
        (Underway registryPath role σ a)
        (fun _ t => IsSettled registryPath role σ a t ∧ Swept role s t) s :=
    (safe_cleanupCommittedPublication placed hcommitting before registryBefore).mono
      (fun _ => hcommitted.underway) fun _ t _ ht => ⟨.inr ⟨σ', hcommitted, ht.1⟩, ht.2⟩
  obtain ⟨prior, huncommitted⟩ | ⟨σ', hcommitted, hcommitting⟩ := h
  · have hs : Underway registryPath role σ a s := .inl (.inl ⟨prior, huncommitted⟩)
    have hrollback := (safe_rollbackPublication placed huncommitted).mono (fun _ => underway_of_rollback)
      fun _ t _ ht => show IsSettled registryPath role σ a t ∧ Swept role s t from ⟨.inl ht.1, ht.2⟩
    obtain ⟨registry, hregistry, -⟩ := huncommitted.registry
    refine safe_recoverPublication_of huncommitted.journals hregistry hs (fun hnames hversion => ?_)
      fun _ => hrollback
    obtain ⟨σ', hcommitted, hcommitting⟩ := huncommitted.exists_committing hregistry hnames hversion
    exact hcleanup hcommitted hcommitting _ _
  · obtain ⟨before, registryBefore, hjournals⟩ := hcommitting.journals
    refine safe_recoverPublication_of hjournals hcommitting.registry
      (.inl (.inr ⟨σ', hcommitted, hcommitting⟩))
      (fun _ _ => hcleanup hcommitted hcommitting before registryBefore) fun hnot => ?_
    exact absurd ⟨hcommitting.names, hcommitting.version⟩ hnot

/-- The journal of a pending publication is the only one. -/
theorem Pending.names (h : Pending registryPath role σ a s) :
    (s.journals.map Prod.fst).insertionSort (· ≤ ·) = [journalName a.publicationId] := by
  obtain ⟨prior, huncommitted⟩ | ⟨σ', -, hcommitting⟩ := h
  · rw [huncommitted.journals]
    rfl
  · obtain ⟨_, _, hjournals⟩ := hcommitting.journals
    rw [hjournals]
    rfl

/-- A recovery settles the publication that is pending. -/
theorem safe_recoverPending (placed : a.Placed role) (h : Pending registryPath role σ a s) :
    (recoverPendingPublications registryPath).Safe diskInterp
      (Underway registryPath role σ a)
      (fun _ t => IsSettled registryPath role σ a t ∧ Swept role s t) s := by
  refine Safe.call rfl (.inl h) ?_
  rw [h.names]
  exact (safe_recoverPublication placed h).bind fun _ t ht hQ => ⟨ht, hQ⟩

/-- Without a pending publication there is nothing to recover. -/
theorem safe_recoverClean (h : Clean registryPath role σ s) {C : Disk F → Prop} (hs : C s) :
    (recoverPendingPublications registryPath).Safe diskInterp C (fun _ t => t = s) s := by
  refine Safe.call rfl hs ?_
  rw [h.journals]
  exact ⟨hs, rfl⟩

/-! ### Publication -/

/-- The store after a publication. -/
def Attempt.published (a : Attempt F) (σ : ArtifactStore F) : ArtifactStore F where
  registry := publishEntry σ.registry a.publication.modelName a.publication.entry
  artifacts := Function.update σ.artifacts a.publication.finalPath (some a.files)

theorem committed_published (a : Attempt F) (σ : ArtifactStore F) : Committed a σ (a.published σ) where
  registry := .inr rfl
  names := namesVersion_publishEntry σ.registry a.publication
  artifacts := ⟨a.files, a.files_version, .inl fun _ _ h => h, rfl⟩

/-- The body of a publication can go back at any point, and ends committed. -/
theorem safe_replaceArtifact (placed : a.Placed role) (h : Uncommitted registryPath role σ a prior s)
    (hfinal : s.nodes a.publication.finalPath = prior) (hbackup : s.nodes a.backup = none)
    (hstaged : s.nodes a.publication.stagedPath = none ∨
      s.nodes a.publication.stagedPath = some (.directory a.files)) :
    (replaceArtifact registryPath a.publication a.publicationId σ.registry).Safe diskInterp
      (Uncommitted registryPath role σ a prior)
      (fun _ t => Committing registryPath role (a.published σ) a t) s := by
  have hpublish {t : Disk F} (ht : Uncommitted registryPath role σ a prior t)
      (hnone : t.nodes a.publication.finalPath = none) (hprior : t.nodes a.backup = prior)
      (hsame : t.nodes a.publication.stagedPath = s.nodes a.publication.stagedPath) :
      (replacePath a.publication.stagedPath a.publication.finalPath >>= fun _ =>
        Prog.ofExcept (publishedRegistry registryPath σ.registry a.publication.modelName
          a.publication.entry) >>= fun registry => publishRegistry registry).Safe diskInterp
        (Uncommitted registryPath role σ a prior)
        (fun _ t => Committing registryPath role (a.published σ) a t) t := by
    rw [h.isRegistry.published]
    obtain hmissing | hdirectory := hstaged
    · have hreplace : diskInterp (.replace a.publication.stagedPath a.publication.finalPath) t =
          (t, .error .os) := by
        simp only [diskInterp, hsame, hmissing]
      refine Safe.callOrRaise ht ?_ fun r hr => ?_
      · rw [hreplace]
        exact ht
      · rw [hreplace] at hr
        cases hr
    · have hreplace : diskInterp (.replace a.publication.stagedPath a.publication.finalPath) t =
          ((t.setNode a.publication.finalPath (some (.directory a.files))).setNode
            a.publication.stagedPath none, .ok ⟨⟩) := by
        simp only [diskInterp, hsame, hdirectory, hnone, Node.canReplace, if_true]
      have hmoved : Uncommitted registryPath role σ a prior
          ((t.setNode a.publication.finalPath (some (.directory a.files))).setNode
            a.publication.stagedPath none) := by
        refine ht.update placed rfl rfl (.inr ⟨?_, ?_⟩) fun path hne _ hrole => ?_
        · rw [Disk.nodes_setNode_of_ne _ _ placed.staged_ne_final.symm, Disk.nodes_setNode_self]
          exact .all _
        · rw [Disk.nodes_setNode_of_ne _ _ placed.staged_ne_backup.symm,
            Disk.nodes_setNode_of_ne _ _ placed.backup_ne, hprior]
        · have hne' : path ≠ a.publication.stagedPath := by
            rintro rfl
            exact hrole placed.staged
          rw [Disk.nodes_setNode_of_ne _ _ hne', Disk.nodes_setNode_of_ne _ _ hne]
      have hregistry : readArtifactRegistry registryPath (some (some (publishEntry σ.registry
          a.publication.modelName a.publication.entry))) = .ok (publishEntry σ.registry
            a.publication.modelName a.publication.entry) := h.isRegistry.publishEntry.read
      have hwritten : Uncommitted registryPath role σ a prior
          { (t.setNode a.publication.finalPath (some (.directory a.files))).setNode
            a.publication.stagedPath none with registry := some (some (publishEntry σ.registry
              a.publication.modelName a.publication.entry)) } :=
        { hmoved with registry := ⟨_, hregistry, .inr rfl⟩ }
      refine Safe.call hreplace ht (Safe.call rfl hmoved ⟨hwritten, ⟨_, _, hwritten.journals⟩, hregistry,
        fun path hrole => ?_, hwritten.backups, namesVersion_publishEntry .., ?_⟩)
      · change _ = Function.update σ.artifacts a.publication.finalPath (some a.files) path
        by_cases hpath : path = a.publication.finalPath
        · subst hpath
          change (((t.setNode _ _).setNode _ _).nodes _).bind _ = _
          rw [Function.update_self, Disk.nodes_setNode_of_ne _ _ placed.staged_ne_final.symm,
            Disk.nodes_setNode_self]
          exact artifact?_of_version a.files_version
        · rw [Function.update_of_ne hpath]
          exact hwritten.artifacts path hrole hpath
      · change (((t.setNode _ _).setNode _ _).nodes _).bind _ = _
        rw [Disk.nodes_setNode_of_ne _ _ placed.staged_ne_final.symm, Disk.nodes_setNode_self]
        exact a.files_version
  refine Safe.call rfl h ?_
  change Safe _ _ _ ((if ((s.nodes a.publication.finalPath).map Node.kind).isSome then _ else _) >>= _) s
  cases hnode : s.nodes a.publication.finalPath with
  | none => exact hpublish h hnode (hbackup.trans (hnode.symm.trans hfinal)) rfl
  | some node =>
    have hreplace : diskInterp (.replace a.publication.finalPath a.backup) s =
        ((s.setNode a.backup (some node)).setNode a.publication.finalPath none, .ok ⟨⟩) := by
      simp only [diskInterp, hnode, hbackup, Node.canReplace, if_true]
    have hprior : ((s.setNode a.backup (some node)).setNode a.publication.finalPath none).nodes a.backup =
        prior := by
      rw [Disk.nodes_setNode_of_ne _ _ placed.backup_ne, Disk.nodes_setNode_self, ← hfinal, hnode]
    refine Safe.call hreplace h (hpublish ?_ (Disk.nodes_setNode_self ..) hprior ?_)
    · refine h.update placed rfl rfl (.inr ⟨?_, hprior⟩) fun path hne hne' _ => ?_
      · rw [Disk.nodes_setNode_self]
        exact .none _
      · rw [Disk.nodes_setNode_of_ne _ _ hne, Disk.nodes_setNode_of_ne _ _ hne']
    · rw [Disk.nodes_setNode_of_ne _ _ placed.staged_ne_final,
        Disk.nodes_setNode_of_ne _ _ placed.staged_ne_backup]

/-- A publication that finds none pending takes effect, or is pending, or has no effect. -/
theorem safe_publishJournalled (placed : a.Placed role) (h : Clean registryPath role σ s)
    (hstaged : s.nodes a.publication.stagedPath = none ∨
      s.nodes a.publication.stagedPath = some (.directory a.files)) :
    (publishJournalled registryPath a.publication a.publicationId).Safe diskInterp
      (Underway registryPath role σ a)
      (fun _ t => Clean registryPath role (a.published σ) t) s := by
  have hs : Underway registryPath role σ a s := .inr (.inl h)
  refine Safe.call rfl hs ?_
  change Safe _ _ _ (Prog.ofExcept (readArtifactRegistry registryPath s.registry) >>= _) s
  rw [h.registry, Prog.ofExcept_ok, Prog.pure_bind]
  refine Safe.call rfl hs ?_
  change Safe _ _ _ (writeJournal (journalName a.publicationId) (a.publication.journal a.publicationId
    ((s.nodes a.publication.finalPath).map Node.kind).isSome σ.registry) >>= _) s
  rw [Option.isSome_map]
  have hbackup : s.nodes a.backup = none := h.backups _ placed.backup
  have hjournalled : Uncommitted registryPath role σ a (s.nodes a.publication.finalPath)
      (diskInterp (.writeJournal (journalName a.publicationId) (a.publication.journal a.publicationId
        (s.nodes a.publication.finalPath).isSome σ.registry)) s).1 :=
    { journals := by simp [diskInterp, h.journals]
      registry := ⟨_, h.registry, .inl rfl⟩
      isRegistry := isRegistry_of_read h.registry
      prior_artifact := h.artifacts _ placed.final
      final := .inl ⟨rfl, hbackup⟩
      artifacts := fun path hrole _ => h.artifacts path hrole
      backups := fun path hrole _ => h.backups path hrole }
  refine Safe.call rfl hs ((Safe.tryCatchWith (safe_replaceArtifact placed hjournalled rfl hbackup hstaged)
    (fun t ht => .inl (.inl ⟨_, ht⟩)) fun e t ht => ?_).bind fun _ t _ ht => ?_)
  · have hrollback := (safe_rollbackPublication placed ht).mono (fun _ => underway_of_rollback)
      fun _ _ _ _ => trivial
    have hnoted : ∀ (_ : PublicationError) t, Underway registryPath role σ a t →
        (.pure ⟨⟩ : Publishing F PUnit).Safe diskInterp (Underway registryPath role σ a)
          (fun _ _ => True) t := fun _ _ ht => ⟨ht, trivial⟩
    exact (hrollback.tryCatch hnoted).bind fun _ t ht _ => ht
  · exact (safe_cleanupCommittedPublication placed ht _ _).mono
      (fun _ => (committed_published a σ).underway) fun _ t _ ht => ht.1

end Programs

end Stel.Ml
