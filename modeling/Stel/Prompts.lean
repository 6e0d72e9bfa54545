import Stel.Data.JsonEquality
import Stel.Data.Keyed
import Stel.Data.SortedSet
import Stel.Dag
import Stel.Hashing

/-!
# Versioned prompts and their lock

`prompts.py`: a prompt is a file `prompts/<name>/<version>.md`. The lock `prompts/lock.json` records
the content hash of every released version; `check_lock` compares it with the tree, and `write_lock`
records the tree.

The tree is the directory `prompts` of a project with what is below it. A symbolic link is a flag of
the entry; what the entry is otherwise is what following the link finds. The lock file is the JSON
value that it holds.

## Main definitions

* `Project`: the directory, and the lock.
* `discoverPrompts`, `readLock`, `checkLock`, `writeLock`, `resolvePrompt`.
-/

namespace Stel.Prompts

open Stel.Hashing

/-- The exceptions of the module, and any other one. -/
inductive PromptFailure
  | promptError (message : String)
  | promptLockError (message : String)
  | other (message : String)
  deriving DecidableEq, Repr

/-! ### The tree -/

/-- What a path is after links are followed. A regular file has a text if it can be read as UTF-8. -/
inductive Leaf
  | regular (text : Option String)
  | directory
  | special
  deriving DecidableEq, Repr

/-- A file of a prompt directory; a broken link has no target. -/
structure PromptFile where
  symlink : Bool
  target : Option Leaf
  deriving DecidableEq, Repr

/-- An entry of `prompts`, with the files in it if it is a directory. -/
structure PromptItem where
  symlink : Bool
  files : Option (List (String × PromptFile))
  nodup : ∀ entries ∈ files, (entries.map Prod.fst).Nodup

/-- What is at `prompts`. -/
inductive PromptsPath
  | absent
  | file
  | directory (items : List (String × PromptItem))

/-- The entries of `prompts`, if it is a directory. -/
def PromptsPath.items : PromptsPath → List (String × PromptItem)
  | .directory items => items
  | _ => []

/-- `prompts/lock.json`: a file that cannot be read as JSON has the class of the error. -/
inductive LockFile
  | absent
  | unreadable (error : String)
  | json (payload : JsonValue)

/-- A project directory, as far as its prompts are concerned. -/
structure Project where
  symlink : Bool
  prompts : PromptsPath
  lockSymlink : Bool
  lock : LockFile
  nodup : (prompts.items.map Prod.fst).Nodup
  noSlash : ∀ item ∈ prompts.items, '/' ∉ item.1.toList
  /-- The lock is in the directory. -/
  lock_absent : (∀ items, prompts ≠ .directory items) → lock = .absent

/-- What the module uses of its environment: the digest, the numbers of JSON floats, `repr` of a JSON
value, and the path of the project. -/
structure PromptEnv where
  blake2b : ℤ → List UInt8 → List UInt8
  floats : JsonValue.Floats
  repr : JsonValue → String
  projectDir : String

variable (env : PromptEnv)

/-- `verify_project_path`, for the components of a path that are links. A path without links is in
the project. -/
def verifyProjectPath (components : List (String × Bool)) (path what : String) :
    Except String Unit :=
  match components.find? (·.2) with
  | some part => .error ("Refusing to use " ++ what ++ " at " ++ path ++ ": '" ++ part.1 ++
      "' is a symlink. stel confines project-configured paths to the project.")
  | none => .ok ()

/-! ### Discovery -/

/-- `Path.stem` of a name that ends in `.md`. -/
def stem (name : String) : String :=
  if name = ".md" then name else String.ofList (name.toList.take (name.toList.length - 3))

/-- `*.md` matches the name. -/
def isPrompt (name : String) : Bool := ".md".toList.isSuffixOf name.toList

/-- The fingerprint of a text. -/
def textHash (text : String) : Except PromptFailure String :=
  match canonicalFingerprint env.blake2b (.mapping [(.str "text", .str (stripText text))])
      "prompt-content" 1 16 with
  | .ok digest => .ok digest
  | .error _ => .error (.other "ValueError")

/-- `content_hash` of a regular file. -/
def contentHash (text : Option String) : Except PromptFailure String :=
  match text with
  | some text => textHash env text
  | none => .error (.other "UnicodeDecodeError")

/-- The text of a file, if it is regular and no link. -/
def PromptFile.regular? (file : PromptFile) : Option (Option String) :=
  match file.symlink, file.target with
  | false, some (.regular text) => some text
  | _, _ => none

/-- The entries in the order of their names. -/
def byName {β : Type} (entries : List (String × β)) : List (String × β) :=
  entries.insertionSort fun a b => a.1 ≤ b.1

/-- The prompts of one directory, with their texts. -/
def promptsIn (directory : String) (files : List (String × PromptFile)) :
    List (String × Option String) :=
  ((byName files).filter fun f => isPrompt f.1).filterMap fun f =>
    f.2.regular?.map fun text => (directory ++ "/" ++ stem f.1, text)

/-- The prompts of the tree, with their texts. -/
def promptTexts (project : Project) : List (String × Option String) :=
  (byName project.prompts.items).flatMap fun item =>
    match item.2.files with
    | some files => promptsIn item.1 files
    | none => []

/-- `discover_prompts`. -/
def discoverPrompts (project : Project) : Except PromptFailure (Keyed String String) := do
  let entries ← (promptTexts project).mapM fun p => do
    let digest ← contentHash env p.2
    return (p.1, digest)
  return Keyed.upsertAll ∅ entries

/-! ### The lock -/

def promptsDirname : String := "prompts"

/-- `lock_path`. -/
def lockPath : String := env.projectDir ++ "/prompts/lock.json"

/-- `_verified_lock_path`. -/
def verifiedLockPath (project : Project) : Except PromptFailure Unit :=
  match verifyProjectPath [(promptsDirname, project.symlink), ("lock.json", project.lockSymlink)]
      (lockPath env) "the prompt lock" with
  | .ok () => .ok ()
  | .error message => .error (.promptLockError message)

/-- The error about a lock that cannot be read. -/
def unreadableLock (error : String) : PromptFailure :=
  .promptLockError ("Could not read the prompt lock at " ++ lockPath env ++ " [" ++ error ++
    "]. Delete it and re-run `stel prompts lock` if it was hand-edited.")

/-- `payload["version"]` and `payload["prompts"]`. -/
def lockMembers (payload : JsonValue) : Except PromptFailure (JsonValue × JsonValue) :=
  match payload with
  | .object members =>
    match members.lookup "version", members.lookup "prompts" with
    | some version, some entries => .ok (version, entries)
    | _, _ => .error (unreadableLock env "KeyError")
  | _ => .error (unreadableLock env "TypeError")

/-- A JSON value that is a string. -/
def asString : JsonValue → Option String
  | .string s => some s
  | _ => none

/-- A JSON object of strings, as a dictionary. -/
def asEntries : JsonValue → Option (Keyed String String)
  | .object members =>
    (members.mapM fun m => (asString m.2).map fun s => (m.1, s)).map (Keyed.upsertAll ∅)
  | _ => none

/-- The entries that a lock holds. -/
def lockEntries (payload : JsonValue) : Except PromptFailure (Keyed String String) := do
  let (version, entries) ← lockMembers env payload
  if ¬ version.pyEq env.floats (.int 1) then
    throw (.promptLockError ("The prompt lock at " ++ lockPath env ++ " declares format version " ++
      env.repr version ++ ", but this stel understands version 1. Upgrade stel, or delete the " ++
      "lock and re-run `stel prompts lock`."))
  match asEntries entries with
  | some locked => return locked
  | none => throw (.promptLockError ("The prompt lock at " ++ lockPath env ++
      " has a malformed `prompts` mapping. Delete it and re-run `stel prompts lock`."))

/-- The entries of a lock file. -/
def LockFile.entries : LockFile → Except PromptFailure (Keyed String String)
  | .absent => .ok ∅
  | .unreadable error => .error (unreadableLock env error)
  | .json payload => lockEntries env payload

/-- `read_lock`. -/
def readLock (project : Project) : Except PromptFailure (Keyed String String) := do
  verifiedLockPath env project
  project.lock.entries env

/-- The kinds of `LockDrift`. -/
inductive DriftKind
  | changed
  | missingFile
  | unlocked
  deriving DecidableEq, Repr

/-- `LockDrift`. -/
structure LockDrift where
  name : String
  version : String
  kind : DriftKind
  deriving DecidableEq, Repr

/-- The drift of a key: `key.partition("/")` with its kind. -/
def driftOf (key : String) (kind : DriftKind) : LockDrift where
  name := String.ofList (key.toList.takeWhile (· ≠ '/'))
  version := String.ofList ((key.toList.dropWhile (· ≠ '/')).drop 1)
  kind := kind

/-- The drift of a locked key. -/
def lockedDrift (locked found : Keyed String String) (key : String) : Option LockDrift :=
  match found.lookup key with
  | none => some (driftOf key .missingFile)
  | some digest => if locked.lookup key ≠ some digest then some (driftOf key .changed) else none

/-- `check_lock`. -/
def checkLock (project : Project) : Except PromptFailure (List LockDrift) := do
  let locked ← readLock env project
  let found ← discoverPrompts env project
  return (sortedSet locked.keys).filterMap (lockedDrift locked found) ++
    (sortedSet (found.keys.filter (· ∉ locked.keys))).map fun key => driftOf key .unlocked

/-- The keys that are locked with another digest. -/
def changedKeys (locked found : Keyed String String) : List String :=
  sortedSet (found.keys.filter fun key => key ∈ locked.keys ∧ locked.lookup key ≠ found.lookup key)

/-- The locked keys that are not found. -/
def removedKeys (locked found : Keyed String String) : List String :=
  sortedSet (locked.keys.filter (· ∉ found.keys))

/-- The refusal of `write_lock`. -/
def refusal (changed removed : List String) : PromptFailure :=
  let problems :=
    (if changed ≠ [] then
      ["contents changed: " ++ ", ".intercalate changed ++ " — add the next version instead."]
    else []) ++
    if removed ≠ [] then
      ["file(s) gone: " ++ ", ".intercalate removed ++ " — rows already produced under a version " ++
        "record it, so its provenance outlives the file."]
    else []
  .promptLockError ("Refusing to rewrite the lock for released prompt version(s). " ++
    " ".intercalate problems ++ " Pass --force only when the change is deliberate and reviewed.")

/-- The lock of a dictionary. -/
def lockOf (found : Keyed String String) : JsonValue :=
  .object [("version", .int 1), ("prompts", .object
    ((sortedSet found.keys).map fun key => (key, .string ((found.lookup key).getD ""))))]

/-- `path.parent.mkdir(parents=True, exist_ok=True)`. -/
def Project.makeDirectory (project : Project) : Except PromptFailure Project :=
  match h : project.prompts with
  | .file => .error (.other "FileExistsError")
  | .directory _ => .ok project
  | .absent => .ok
    { project with
      prompts := .directory []
      nodup := by simp [PromptsPath.items]
      noSlash := by simp [PromptsPath.items]
      lock_absent := fun _ => project.lock_absent fun items hitems => by simp [h] at hitems }

/-- `path.write_text`, in a directory. -/
def Project.storeLock (project : Project) (payload : JsonValue)
    (h : ∃ items, project.prompts = .directory items) : Project :=
  { project with
    lock := .json payload
    lock_absent := fun hnone => absurd h.choose_spec (hnone h.choose) }

/-- The check of `write_lock`: no released entry changes or goes without force. -/
def checkReleased (locked found : Keyed String String) (force : Bool) : Except PromptFailure Unit :=
  let changed := changedKeys locked found
  let removed := removedKeys locked found
  if (changed ≠ [] ∨ removed ≠ []) ∧ ¬ force then .error (refusal changed removed) else .ok ()

/-- What `write_lock` decides before it writes: the entries, and the numbers of added and rewritten
ones. -/
def planLock (project : Project) (force : Bool) :
    Except PromptFailure (Keyed String String × ℕ × ℕ) := do
  let locked ← readLock env project
  let found ← discoverPrompts env project
  checkReleased locked found force
  verifiedLockPath env project
  return (found, (found.keys.filter (· ∉ locked.keys)).length, (changedKeys locked found).length)

/-- `write_lock`: the result, and the project after it. -/
def writeLock (project : Project) (force : Bool) : Except PromptFailure (ℕ × ℕ) × Project :=
  match planLock env project force with
  | .error e => (.error e, project)
  | .ok (found, counts) =>
    match project.makeDirectory with
    | .error e => (.error e, project)
    | .ok made =>
      match h : made.prompts with
      | .directory items => (.ok counts, made.storeLock (lockOf found) ⟨items, h⟩)
      | _ => (.error (.other "NotADirectoryError"), made)

/-! ### Resolution -/

/-- `_SEGMENT`: a letter or a digit, and then letters, digits, underscores and hyphens. A line break
may follow, where `$` matches. -/
def isSegment (value : String) : Bool :=
  let isFirst := fun c : Char => c.isAlphanum
  let isNext := fun c : Char => c.isAlphanum || c = '_' || c = '-'
  match value.toList with
  | c :: cs => isFirst c && ((cs.all isNext) || (cs.getLast? = some '\n' && cs.dropLast.all isNext))
  | [] => false

/-- `PromptRef`. -/
structure PromptRef where
  name : String
  version : String
  valid : isSegment name = true ∧ isSegment version = true

/-- `ResolvedPrompt` of a reference. -/
structure ResolvedPrompt where
  text : String
  name : String
  version : String
  deriving DecidableEq, Repr

/-- `prompt_path`. -/
def promptPath (ref : PromptRef) : String :=
  env.projectDir ++ "/prompts/" ++ ref.name ++ "/" ++ ref.version ++ ".md"

/-- The entry of `prompts` of a name. -/
def Project.item? (project : Project) (name : String) : Option PromptItem :=
  project.prompts.items.lookup name

/-- The file of a reference. -/
def Project.file? (project : Project) (ref : PromptRef) : Option PromptFile := do
  let item ← project.item? ref.name
  let files ← item.files
  files.lookup (ref.version ++ ".md")

/-- `_available_versions`. -/
def availableVersions (project : Project) (name : String) : List String :=
  match (project.item? name).bind PromptItem.files with
  | some files => sortedSet ((files.filter fun f =>
      isPrompt f.1 ∧ f.1 ≠ ".md" ∧ f.2.target.any fun leaf => leaf matches .regular _).map fun f =>
        stem f.1)
  | none => []

/-- The error about a reference to no file. -/
def missingPrompt (project : Project) (ref : PromptRef) (modelName : String) : PromptFailure :=
  let available := availableVersions project ref.name
  let hint := if available ≠ [] then
      " Available versions of '" ++ ref.name ++ "': " ++ ", ".intercalate available ++ "."
    else " No versions of '" ++ ref.name ++ "' exist yet."
  .promptError ("Model '" ++ modelName ++ "' references prompt " ++ ref.name ++ "/" ++ ref.version ++
    ", but " ++ promptPath env ref ++ " does not exist." ++ hint)

/-- The error about a prompt without text. -/
def emptyPrompt (ref : PromptRef) : PromptFailure :=
  .promptError ("Prompt " ++ ref.name ++ "/" ++ ref.version ++ " at " ++ promptPath env ref ++
    " is empty; a prompt with no instruction is a typo, not a valid version.")

/-- `resolve_prompt` of a reference. -/
def resolvePrompt (project : Project) (ref : PromptRef) (modelName : String) :
    Except PromptFailure ResolvedPrompt :=
  let file? := project.file? ref
  let components := [(promptsDirname, project.symlink),
    (ref.name, (project.item? ref.name).any (·.symlink)),
    (ref.version ++ ".md", file?.any (·.symlink))]
  match verifyProjectPath components (promptPath env ref)
      ("prompt " ++ ref.name ++ "/" ++ ref.version) with
  | .error message => .error (.promptError message)
  | .ok () =>
    match file? with
    | none => .error (missingPrompt env project ref modelName)
    | some file =>
      match file.regular? with
      | none => .error (.promptError ("Refusing to read prompt " ++ ref.name ++ "/" ++ ref.version ++
          " at " ++ promptPath env ref ++ ": expected a regular non-symlink file."))
      | some none => .error (.other "UnicodeDecodeError")
      | some (some content) =>
        let text := stripText content
        if text = "" then .error (emptyPrompt env ref) else .ok ⟨text, ref.name, ref.version⟩

end Stel.Prompts
