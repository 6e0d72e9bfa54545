import Mathlib.Data.List.Infix
import Mathlib.Data.List.TakeDrop

/-!
# Artifact paths

The paths of `ml_contracts.py` and `paths.py`. An absolute path is the list of its components. Two
paths are compared by their canonical forms: the device and inode of every component that exists,
and the names of those that do not, case-folded where the file system ignores case.

## Main definitions

* `FileSystem`: what the checks ask the operating system.
* `resolveWithinProject`: `resolve_within_project`.
* `canonicalPath`, `pathsOverlap`: the canonical form of a path, and when two of them overlap.

## Main results

* `canonicalPath_mono`: a path that is a prefix of another one is so in canonical form.
* `not_overlap_iff`: paths that do not overlap.
-/

namespace Stel.Ml

/-- The components of an absolute path below its anchor. -/
abbrev AbsolutePath : Type := List String

/-- What `lstat` finds: a device and an inode, and whether it is a symbolic link. -/
inductive Lstat
  | found (device inode : ℕ) (link : Bool)
  | notFound
  | failed
  deriving DecidableEq

/-- What the checks ask the operating system. Resolving a path is idempotent, and the root
directory exists. `normalizeFold` is `unicodedata.normalize("NFC", ·).casefold()`. -/
structure FileSystem where
  resolve : AbsolutePath → AbsolutePath
  stat : AbsolutePath → Option (ℕ × ℕ)
  isDir : AbsolutePath → Bool
  iterdir : AbsolutePath → List String
  lstat : AbsolutePath → Lstat
  normalizeFold : String → String
  resolve_resolve : ∀ path, resolve (resolve path) = resolve path
  stat_root : (stat []).isSome = true

/-- `str(path)`. -/
def pathText (path : AbsolutePath) : String := "/" ++ "/".intercalate path

/-- A path in a configuration. -/
structure ConfiguredPath where
  absolute : Bool
  parts : List String
  deriving DecidableEq

/-- `str(path)`. -/
def ConfiguredPath.text (path : ConfiguredPath) : String :=
  if path.absolute then pathText path.parts
  else if path.parts = [] then "." else "/".intercalate path.parts

/-- `base / path`. -/
def joinPath (base : AbsolutePath) (path : ConfiguredPath) : AbsolutePath :=
  if path.absolute then path.parts else base ++ path.parts

/-- `path.is_relative_to(base)`. -/
def isRelativeTo (path base : AbsolutePath) : Bool := base.isPrefixOf path

section Resolution

variable (fs : FileSystem)

/-- `resolve_within_project`, or the text of its `ConfigError`. -/
def resolveWithinProject (path : ConfiguredPath) (projectDir : AbsolutePath) (surface : String)
    (external : Bool) (hint : Option String) : Except String AbsolutePath :=
  let resolved := fs.resolve (joinPath projectDir path)
  if external then .ok resolved
  else if !isRelativeTo resolved (fs.resolve projectDir) then
    .error (s!"{surface} '{path.text}' resolves outside the project directory: " ++
      s!"{pathText resolved}. stel confines project-configured paths to the project. " ++
      hint.getD "Move it inside the project directory.")
  else .ok resolved

/-! ### Canonical paths -/

/-- `_ascii_case_variant`. -/
def asciiCaseVariant (name : String) : Option String :=
  let variant := String.ofList (name.toList.map fun c =>
    if c.isUpper then c.toLower else if c.isLower then c.toUpper else c)
  if variant ≠ name then some variant else none

/-- What an entry of a directory says about the case of names. -/
def caseEvidence (directory : AbsolutePath) (entry : String) : Option Bool :=
  match fs.lstat (directory ++ [entry]) with
  | .found device inode false =>
    (asciiCaseVariant entry).bind fun variant =>
      match fs.lstat (directory ++ [variant]) with
      | .notFound =>
        match fs.lstat (directory ++ [entry]) with
        | .found device' inode' _ => if device' ≠ device ∨ inode' ≠ inode then none else some false
        | _ => none
      | .failed => none
      | .found device' inode' _ => some (device' = device ∧ inode' = inode)
  | _ => none

/-- `_same_filesystem`. -/
def sameFilesystem (first second : AbsolutePath) : Bool :=
  match fs.stat first, fs.stat second with
  | some (device, _), some (device', _) => device = device'
  | _, _ => false

/-- The loop of `_filesystem_is_case_insensitive`, on the reversed components of a directory. -/
def caseInsensitiveFrom : List String → Bool
  | [] => ((fs.iterdir []).findSome? (caseEvidence fs [])).getD true
  | name :: parents =>
    let directory := (name :: parents).reverse
    match (fs.iterdir directory).findSome? (caseEvidence fs directory) with
    | some insensitive => insensitive
    | none =>
      if sameFilesystem fs directory parents.reverse then caseInsensitiveFrom parents else true

/-- `_filesystem_is_case_insensitive`. -/
def filesystemIsCaseInsensitive (existing : AbsolutePath) : Bool :=
  caseInsensitiveFrom fs (if fs.isDir existing then existing else existing.dropLast).reverse

/-- `_normalize_component`. -/
def normalizeComponent (component : String) (caseInsensitive : Bool) : String :=
  if caseInsensitive then fs.normalizeFold component else component

inductive PathToken
  | inode (device inode : ℕ)
  | name (name : String)
  deriving DecidableEq

/-- `_CanonicalPath`. -/
abbrev CanonicalPath : Type := List PathToken

/-- The tokens of the components that follow an existing directory. -/
def componentTokens (current : AbsolutePath) : List String → List PathToken
  | [] => []
  | part :: parts =>
    match fs.stat (current ++ [part]) with
    | none =>
      let caseInsensitive := filesystemIsCaseInsensitive fs current
      (part :: parts).map fun part => .name (normalizeComponent fs part caseInsensitive)
    | some (device, inode) => .inode device inode :: componentTokens (current ++ [part]) parts

/-- `_canonical_path`. -/
def canonicalPath (path : AbsolutePath) : CanonicalPath :=
  let absolute := fs.resolve path
  match fs.stat [] with
  | none => [.name (normalizeComponent fs (pathText absolute) false)]
  | some (device, inode) => .inode device inode :: componentTokens fs [] absolute

/-- `_canonical_paths_overlap`. -/
def canonicalPathsOverlap (first second : CanonicalPath) : Bool :=
  let shared := min first.length second.length
  first.take shared = second.take shared

/-- `_paths_overlap`. -/
def pathsOverlap (first second : AbsolutePath) : Bool :=
  canonicalPathsOverlap (canonicalPath fs first) (canonicalPath fs second)

end Resolution

/-! ### Overlapping paths -/

/-- Canonical paths overlap if one of them is a prefix of the other. -/
theorem overlap_iff {first second : CanonicalPath} :
    canonicalPathsOverlap first second = true ↔ first <+: second ∨ second <+: first := by
  rw [canonicalPathsOverlap, decide_eq_true_iff, List.prefix_iff_eq_take, List.prefix_iff_eq_take]
  rcases Nat.le_total first.length second.length with h | h
  · rw [Nat.min_eq_left h, List.take_length]
    refine ⟨.inl, ?_⟩
    rintro (heq | heq)
    · exact heq
    · have hlength : second.length = first.length := by
        have := congrArg List.length heq
        rw [List.length_take] at this
        omega
      rw [heq, List.take_take, hlength, Nat.min_self, List.take_length]
  · rw [Nat.min_eq_right h, List.take_length]
    refine ⟨fun heq => .inr heq.symm, ?_⟩
    rintro (heq | heq)
    · have hlength : second.length = first.length := by
        have := congrArg List.length heq
        rw [List.length_take] at this
        omega
      rw [heq, List.take_take, hlength, Nat.min_self, ← hlength, List.take_length]
    · exact heq.symm

variable {fs : FileSystem}

theorem componentTokens_mono {current parts longer : List String} (h : parts <+: longer) :
    componentTokens fs current parts <+: componentTokens fs current longer := by
  induction parts generalizing current longer with
  | nil => exact List.nil_prefix
  | cons part parts ih =>
    obtain ⟨rest, rfl⟩ := h
    have htail : parts <+: parts ++ rest := List.prefix_append _ _
    simp only [List.cons_append, componentTokens]
    cases fs.stat (current ++ [part]) with
    | none => exact List.IsPrefix.map _ ((List.prefix_cons_inj part).mpr htail)
    | some found => exact (List.prefix_cons_inj _).mpr (ih htail)

/-- A resolved path that is a prefix of another one is so in canonical form. -/
theorem canonicalPath_mono {path longer : AbsolutePath} (h : fs.resolve path <+: fs.resolve longer) :
    canonicalPath fs path <+: canonicalPath fs longer := by
  obtain ⟨⟨device, inode⟩, hroot⟩ := Option.isSome_iff_exists.mp fs.stat_root
  simp only [canonicalPath, hroot]
  exact (List.prefix_cons_inj _).mpr (componentTokens_mono h)

end Stel.Ml
