import Mathlib.Logic.Function.Basic
import Stel.Ml.Artifact
import Stel.Ml.ArtifactPaths
import Stel.Program.Basic

/-!
# The publication of artifacts

`ClassicMLArtifactPublication.publish` moves the staged directory of a fitted model to its path and
records its version in the registry. A journal, which is written before the first change, says how to
go back; a later attempt goes back, or finishes, for every journal that it finds.

A JSON file is written through a temporary file and `os.replace`, hence as a whole. A directory is
removed one file after another.

## Main definitions

* `Disk`, `DiskOp`, `diskInterp`: the directories, the registry and the journals, and the operations on them.
* `publishStagedArtifact`, `recoverPendingPublications`: the programs.
-/

namespace Stel.Ml

variable {F : Type}

/-! ### The disk -/

/-- The members of a JSON object. -/
abbrev Members (F : Type) : Type := List (String × Value F)

/-- What a path leads to: a directory with its files in the order of `scandir`, or a regular file. -/
inductive Node (F : Type)
  | directory (files : List (String × JsonText F))
  | file

/-- `is_dir` and `is_file` of a path that exists. -/
inductive NodeKind
  | directory
  | file
  deriving DecidableEq

def Node.kind : Node F → NodeKind
  | .directory _ => .directory
  | .file => .file

/-- `_artifact_version_at`. -/
def Node.version (path : AbsolutePath) : Node F → Option String
  | .directory files =>
    match readMetadata (fun name => files.lookup name) (pathText path) with
    | .ok metadata =>
      match metadata.lookup "artifact_version" with
      | some (.str version) => some version
      | _ => none
    | .error _ => none
  | .file => none

/-- The journal of a publication. -/
structure Journal (F : Type) where
  publicationId : String
  modelName : String
  artifactVersion : String
  finalPath : AbsolutePath
  stagedPath : AbsolutePath
  backupPath : AbsolutePath
  priorArtifactExists : Bool
  registryBefore : Option (Members F)

/-- The paths of artifacts and their siblings, the file of the registry, and the journals by the names of
their files. A file that holds no object of the right form is `none`. -/
structure Disk (F : Type) where
  nodes : AbsolutePath → Option (Node F)
  registry : Option (Option (Members F))
  journals : List (String × Option (Journal F))

namespace Disk

/-- The disk with another node at a path. -/
def setNode (s : Disk F) (path : AbsolutePath) (node : Option (Node F)) : Disk F :=
  { s with nodes := Function.update s.nodes path node }

variable (s : Disk F) (path other : AbsolutePath) (node node' : Option (Node F))

@[simp] theorem nodes_setNode_self : (s.setNode path node).nodes path = node :=
  Function.update_self ..

theorem nodes_setNode_of_ne {path other : AbsolutePath} (h : other ≠ path) :
    (s.setNode path node).nodes other = s.nodes other := Function.update_of_ne h ..

@[simp] theorem registry_setNode : (s.setNode path node).registry = s.registry := rfl

@[simp] theorem journals_setNode : (s.setNode path node).journals = s.journals := rfl

@[simp] theorem setNode_self : s.setNode path (s.nodes path) = s := by
  rw [setNode, Function.update_eq_self]

@[simp] theorem setNode_setNode : (s.setNode path node).setNode path node' = s.setNode path node' := by
  simp only [setNode, Function.update_idem]

end Disk

/-- The exceptions of an attempt: those of the artifacts, those of the operating system, and others. -/
inductive PublicationError
  | artifact (message : String)
  | os
  | other

/-- The operations on the disk. -/
inductive DiskOp (F : Type)
  | inspect (path : AbsolutePath)
  | artifactVersionAt (path : AbsolutePath)
  | replace (source target : AbsolutePath)
  | listDir (path : AbsolutePath)
  | removeFile (path : AbsolutePath) (name : String)
  | removeDir (path : AbsolutePath)
  | unlink (path : AbsolutePath)
  | readRegistry
  | writeRegistry (registry : Members F)
  | listJournals
  | readJournal (name : String)
  | writeJournal (name : String) (journal : Journal F)
  | unlinkJournal (name : String)

/-- What an operation replies with. -/
abbrev DiskRet : DiskOp F → Type
  | .inspect _ => Option NodeKind
  | .artifactVersionAt _ => Option String
  | .listDir _ => List String
  | .readRegistry => Option (Option (Members F))
  | .listJournals => List String
  | .readJournal _ => Option (Journal F)
  | _ => PUnit

/-- `os.replace` puts a directory in the place of nothing or of an empty directory, and a file in the place of
nothing or of a file. -/
def Node.canReplace : Node F → Option (Node F) → Bool
  | _, none => true
  | .directory _, some (.directory files) => files.isEmpty
  | .file, some .file => true
  | _, _ => false

/-- The operations on the disk, one at a time. What is read is what is on the disk. -/
def diskInterp : Interp (DiskOp F) DiskRet PublicationError (Disk F)
  | .inspect path, s => (s, .ok ((s.nodes path).map Node.kind))
  | .artifactVersionAt path, s => (s, .ok ((s.nodes path).bind (Node.version path)))
  | .replace source target, s =>
    match s.nodes source with
    | none => (s, .error .os)
    | some node =>
      if node.canReplace (s.nodes target) then
        ((s.setNode target (some node)).setNode source none, .ok ⟨⟩)
      else (s, .error .os)
  | .listDir path, s =>
    match s.nodes path with
    | some (.directory files) => (s, .ok (files.map Prod.fst))
    | _ => (s, .error .os)
  | .removeFile path name, s =>
    match s.nodes path with
    | some (.directory files) =>
      (s.setNode path (some (.directory (files.filter fun file => file.1 ≠ name))), .ok ⟨⟩)
    | _ => (s, .error .os)
  | .removeDir path, s =>
    match s.nodes path with
    | some (.directory []) => (s.setNode path none, .ok ⟨⟩)
    | _ => (s, .error .os)
  | .unlink path, s =>
    match s.nodes path with
    | some (.directory _) => (s, .error .os)
    | _ => (s.setNode path none, .ok ⟨⟩)
  | .readRegistry, s => (s, .ok s.registry)
  | .writeRegistry registry, s => ({ s with registry := some (some registry) }, .ok ⟨⟩)
  | .listJournals, s => (s, .ok ((s.journals.map Prod.fst).insertionSort (· ≤ ·)))
  | .readJournal name, s => (s, .ok (s.journals.lookup name).join)
  | .writeJournal name journal, s =>
    ({ s with journals := (s.journals.filter fun entry => entry.1 ≠ name) ++ [(name, some journal)] },
      .ok ⟨⟩)
  | .unlinkJournal name, s =>
    ({ s with journals := s.journals.filter fun entry => entry.1 ≠ name }, .ok ⟨⟩)

/-- Programs over the disk. -/
abbrev Publishing (F α : Type) : Type := Prog (DiskOp F) DiskRet PublicationError α

def inspect (path : AbsolutePath) : Publishing F (Option NodeKind) := .perform (DiskOp.inspect path)

def artifactVersionAt (path : AbsolutePath) : Publishing F (Option String) :=
  .perform (DiskOp.artifactVersionAt path)

/-- `os.replace`. -/
def replacePath (source target : AbsolutePath) : Publishing F PUnit := .perform (DiskOp.replace source target)

def listDir (path : AbsolutePath) : Publishing F (List String) := .perform (DiskOp.listDir path)

def removeFile (path : AbsolutePath) (name : String) : Publishing F PUnit :=
  .perform (DiskOp.removeFile path name)

def removeDir (path : AbsolutePath) : Publishing F PUnit := .perform (DiskOp.removeDir path)

def unlink (path : AbsolutePath) : Publishing F PUnit := .perform (DiskOp.unlink path)

def readRegistryFile : Publishing F (Option (Option (Members F))) := .perform DiskOp.readRegistry

/-- `_publish_registry`. -/
def publishRegistry (registry : Members F) : Publishing F PUnit := .perform (DiskOp.writeRegistry registry)

def listJournals : Publishing F (List String) := .perform DiskOp.listJournals

def readJournal (name : String) : Publishing F (Option (Journal F)) := .perform (DiskOp.readJournal name)

def writeJournal (name : String) (journal : Journal F) : Publishing F PUnit :=
  .perform (DiskOp.writeJournal name journal)

def unlinkJournal (name : String) : Publishing F PUnit := .perform (DiskOp.unlinkJournal name)

/-! ### The registry -/

/-- `members.setdefault(name, value)`. -/
def setDefault (members : Members F) (name : String) (value : Value F) : Members F :=
  if (members.lookup name).isSome then members else members ++ [(name, value)]

/-- `_read_artifact_registry`, on the contents of the file. -/
def readArtifactRegistry (path : AbsolutePath) :
    Option (Option (Members F)) → Except PublicationError (Members F)
  | none => .ok [("artifact_schema_version", .int artifactSchemaVersion), ("artifacts", .object [])]
  | some none =>
    .error (.artifact s!"malformed artifact registry at {pathText path}: expected an object")
  | some (some registry) =>
    let registry := setDefault (setDefault registry "artifact_schema_version" (.int artifactSchemaVersion))
      "artifacts" (.object [])
    match registry.lookup "artifacts" with
    | some (.object _) => .ok registry
    | _ => .error (.artifact
        s!"malformed artifact registry at {pathText path}: 'artifacts' must be an object")

/-- The entry of a model in a registry. -/
def registryEntry (registry : Members F) (modelName : String) : Option (Value F) :=
  (members? (registry.lookup "artifacts")).bind fun artifacts => artifacts.lookup modelName

/-- The entry of a model has the version of an artifact. -/
def namesVersion (registry : Members F) (modelName version : String) : Bool :=
  (members? (registryEntry registry modelName)).any fun entry =>
    isText version (entry.lookup "artifact_version")

/-- The registry after a publication. -/
def publishedRegistry (path : AbsolutePath) (registryBefore : Members F) (modelName : String)
    (entry : Members F) : Except PublicationError (Members F) :=
  let registry := setDefault registryBefore "artifacts" (.object [])
  match registry.lookup "artifacts" with
  | some (.object artifacts) =>
    .ok (setMember registry "artifacts" (.object (setMember artifacts modelName (.object entry))))
  | _ => .error (.artifact
      s!"malformed artifact registry at {pathText path}: 'artifacts' must be an object")

/-! ### Paths -/

/-- `path.with_name(name)`. -/
def withName (path : AbsolutePath) (name : String) : AbsolutePath := path.dropLast ++ [name]

/-- `path.name`. -/
def pathName (path : AbsolutePath) : String := path.getLastD ""

@[simp] theorem dropLast_withName (path : AbsolutePath) (name : String) :
    (withName path name).dropLast = path.dropLast := List.dropLast_concat

@[simp] theorem pathName_withName (path : AbsolutePath) (name : String) :
    pathName (withName path name) = name := List.getLastD_concat

/-- The name of the file of a journal. -/
def journalName (publicationId : String) : String := s!".artifact-publication-{publicationId}.json"

/-- The prefix of the names of the staging directories of a path. -/
def stagingPrefix (finalPath : AbsolutePath) : String := s!".{pathName finalPath}.staging-"

/-- The path to which a publication moves what was at its path before. -/
def backupPath (finalPath : AbsolutePath) (publicationId : String) : AbsolutePath :=
  withName finalPath s!".{pathName finalPath}.backup-{publicationId}"

/-- `ClassicMLArtifactPublication`, with a staging directory of `_new_artifact_staging_path` and an entry of
`_artifact_publication`. -/
structure Publication (F : Type) where
  finalPath : AbsolutePath
  stagedPath : AbsolutePath
  modelName : String
  entry : Members F
  version : String
  staged_parent : stagedPath.dropLast = finalPath.dropLast
  staged_name : (stagingPrefix finalPath).toList.isPrefixOf (pathName stagedPath).toList = true
  entry_version : entry.lookup "artifact_version" = some (.str version)

/-- The journal of a publication. -/
def Publication.journal (publication : Publication F) (publicationId : String) (prior : Bool)
    (registryBefore : Members F) : Journal F where
  publicationId := publicationId
  modelName := publication.modelName
  artifactVersion := publication.version
  finalPath := publication.finalPath
  stagedPath := publication.stagedPath
  backupPath := backupPath publication.finalPath publicationId
  priorArtifactExists := prior
  registryBefore := some registryBefore

/-! ### The programs -/

section Programs

variable (registryPath : AbsolutePath)

/-- `_remove_path`. `shutil.rmtree` removes the files of a directory and then the directory. -/
def removePath (path : AbsolutePath) : Publishing F PUnit :=
  inspect path >>= fun
    | none => .pure ⟨⟩
    | some .file => unlink path
    | some .directory =>
      listDir path >>= fun names =>
        Prog.forEach (removeFile path) names >>= fun _ =>
          removeDir path

/-- `_validated_journal_paths`. -/
def validatedJournalPaths (name : String) (journal : Journal F) : Except PublicationError PUnit :=
  if journal.publicationId = "" then
    .error (.artifact
      s!"malformed artifact publication journal at {pathText (withName registryPath name)}")
  else if name = journalName journal.publicationId ∧
      journal.stagedPath.dropLast = journal.finalPath.dropLast ∧
      journal.backupPath.dropLast = journal.finalPath.dropLast ∧
      (stagingPrefix journal.finalPath).toList.isPrefixOf (pathName journal.stagedPath).toList ∧
      pathName journal.backupPath = s!".{pathName journal.finalPath}.backup-{journal.publicationId}" then
    .ok ⟨⟩
  else .error (.artifact
    s!"malformed artifact publication journal paths at {pathText (withName registryPath name)}")

/-- The part of `_rollback_publication` that puts the artifact back. -/
def restoreArtifact (journal : Journal F) : Publishing F PUnit :=
  inspect journal.backupPath >>= fun backup =>
    if backup.isSome then
      removePath journal.finalPath >>= fun _ => replacePath journal.backupPath journal.finalPath
    else if !journal.priorArtifactExists then
      artifactVersionAt journal.finalPath >>= fun version =>
        if version = some journal.artifactVersion then removePath journal.finalPath else .pure ⟨⟩
    else .pure ⟨⟩

/-- `_rollback_publication`. -/
def rollbackPublication (name : String) (journal : Journal F) : Publishing F PUnit :=
  Prog.ofExcept (validatedJournalPaths registryPath name journal) >>= fun _ =>
    match journal.registryBefore with
    | none => .throw (.artifact
        s!"malformed artifact publication journal at {pathText (withName registryPath name)}")
    | some registryBefore =>
      restoreArtifact journal >>= fun _ =>
        publishRegistry registryBefore >>= fun _ =>
          removePath journal.stagedPath >>= fun _ => unlinkJournal name

/-- `_cleanup_committed_publication`. -/
def cleanupCommittedPublication (name : String) (journal : Journal F) : Publishing F PUnit :=
  (Prog.ofExcept (validatedJournalPaths registryPath name journal) >>= fun _ =>
    removePath journal.backupPath >>= fun _ =>
      removePath journal.stagedPath >>= fun _ => unlinkJournal name).tryCatch fun
  | .os => .throw (.artifact ("Committed artifact publication cleanup remains pending at " ++
      s!"{pathText (withName registryPath name)}; retry before publishing another artifact"))
  | e => .throw e

/-- Whether the registry and the path of the artifact both have the version of a journal. -/
def isCommitted (registry : Members F) (journal : Journal F) : Publishing F Bool :=
  if namesVersion registry journal.modelName journal.artifactVersion then
    artifactVersionAt journal.finalPath >>= fun version =>
      .pure (version = some journal.artifactVersion)
  else .pure false

/-- The body of the loop of `_recover_pending_publications`. -/
def recoverPublication (name : String) : Publishing F PUnit :=
  readJournal name >>= fun
    | none => .throw (.artifact ("malformed artifact publication journal at " ++
        s!"{pathText (withName registryPath name)}: expected an object"))
    | some journal =>
      readRegistryFile >>= fun file =>
        Prog.ofExcept (readArtifactRegistry registryPath file) >>= fun registry =>
          isCommitted registry journal >>= fun committed =>
            if committed then cleanupCommittedPublication registryPath name journal
            else rollbackPublication registryPath name journal

/-- `_recover_pending_publications`. -/
def recoverPendingPublications : Publishing F PUnit :=
  listJournals >>= fun names => Prog.forEach (recoverPublication registryPath) names

/-- The body of the `try` of `_publish_staged_artifact`. -/
def replaceArtifact (publication : Publication F) (publicationId : String) (registryBefore : Members F) :
    Publishing F PUnit :=
  inspect publication.finalPath >>= fun prior =>
    (if prior.isSome then replacePath publication.finalPath
      (backupPath publication.finalPath publicationId) else .pure ⟨⟩) >>= fun _ =>
      replacePath publication.stagedPath publication.finalPath >>= fun _ =>
        Prog.ofExcept (publishedRegistry registryPath registryBefore publication.modelName
          publication.entry) >>= fun registry => publishRegistry registry

/-- The part of `_publish_staged_artifact` that follows the recovery. -/
def publishJournalled (publication : Publication F) (publicationId : String) : Publishing F PUnit :=
  readRegistryFile >>= fun file =>
    Prog.ofExcept (readArtifactRegistry registryPath file) >>= fun registryBefore =>
      inspect publication.finalPath >>= fun prior =>
        let name := journalName publicationId
        let journal := publication.journal publicationId prior.isSome registryBefore
        writeJournal name journal >>= fun _ =>
          ((replaceArtifact registryPath publication publicationId registryBefore).tryCatch fun e =>
            -- A rollback that raises is noted in the exception of the publication.
            (rollbackPublication registryPath name journal).tryCatch (fun _ => .pure ⟨⟩) >>= fun _ =>
              .throw e) >>= fun _ =>
            cleanupCommittedPublication registryPath name journal

/-- `_publish_staged_artifact`, under the lock of the registry. -/
def publishStagedArtifact (publication : Publication F) (publicationId : String) : Publishing F PUnit :=
  inspect publication.stagedPath >>= fun staged =>
    if staged ≠ some .directory then
      .throw (.artifact s!"staged artifact is missing or invalid at {pathText publication.stagedPath}")
    else
      inspect publication.finalPath >>= fun final =>
        if final = some .file then
          .throw (.artifact
            s!"artifact path is not a regular directory: {pathText publication.finalPath}")
        else recoverPendingPublications registryPath >>= fun _ =>
          publishJournalled registryPath publication publicationId

end Programs

end Stel.Ml
