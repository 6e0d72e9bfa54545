import Stel.Data.Glob
import Stel.Data.Keyed
import Stel.Failure
import Mathlib.Data.List.Sort
import Mathlib.Data.String.Basic

/-!
# Local sources

The discovery of files by `sources/local.py`. A pattern is matched by a set of states that is advanced
by one component of a path at a time; the walk over a directory tree leaves out the directories that no
state can continue in. A directory is read through a descriptor, or by its path.

The file system does not change during a walk, and `fnmatch` is a parameter.

## Main definitions

* `validateFilePattern`, `effectivePattern`: the components of a pattern.
* `patternStates`, `pathMatches`, `couldMatchDescendant`.
* `Node`: a directory tree; `walkFd`, `walkPath`, `matchedFiles`.

## Main results

* `matches_append_iff`: what the states of a path say of its descendants.
* `matchedFiles_spec`: the files that are found.
-/

namespace Stel.Sources

open Glob

/-! ### Patterns -/

/-- The components of a relative path, without those that `PurePath` leaves out. -/
def pureParts (separators : List Char) (text : String) : List String :=
  ((text.toList.splitOnP (· ∈ separators)).map String.ofList).filter fun part => part ≠ "" ∧ part ≠ "."

/-- `validate_file_pattern`: a Windows path has a root if it starts with a separator, and a drive if its
second character is a colon. -/
def validateFilePattern (pattern : String) : Except String String :=
  if pattern.toList.head? = some '/' ∨ pattern.toList.head? = some '\\' ∨ pattern.toList[1]? = some ':' then
    .error "file_pattern must be a relative path pattern"
  else if ".." ∈ pureParts ['/'] pattern ∨ ".." ∈ pureParts ['/', '\\'] pattern then
    .error "file_pattern must not contain parent traversal ('..')"
  else .ok pattern

/-- What discovery reads of `SourceConfig`. -/
structure SourceConfig where
  name : String
  filePattern : String
  recursive : Bool

/-- A `ConfigError`. -/
def configError (message : String) : Failure := .other message

/-- `normalized`. -/
def normalizedPattern (pattern : String) : String :=
  String.ofList (pattern.toList.map fun c => if c = '\\' then '/' else c)

/-- `_effective_pattern`. -/
def effectivePattern (source : SourceConfig) : Except Failure (List String) :=
  match validateFilePattern source.filePattern with
  | .error e => .error (configError ("Source '" ++ source.name ++ "' has invalid configuration: " ++ e))
  | .ok pattern =>
    let parts := pureParts ['/'] (normalizedPattern pattern)
    if parts = [] then
      .error (configError ("Source '" ++ source.name ++ "' has invalid configuration: " ++
        "file_pattern must not be empty"))
    else .ok (if source.recursive then "**" :: parts else parts)

/-- What `_closure` adds for a state: the state that it pushes is the one that it pops next. -/
def chase (out : List ℕ) : ℕ → List String → List ℕ
  | index, pattern :: rest =>
    if pattern = "**" ∧ index + 1 ∉ out then chase (out.insert (index + 1)) (index + 1) rest else out
  | _, [] => out

/-- `_closure`. A set of states is a list of them. -/
def closure (patternParts : List String) (states : List ℕ) : List ℕ :=
  states.reverse.foldl (fun out index => chase out index (patternParts.drop index)) states

section States

variable (fnmatch : String → String → Bool) (patternParts : List String)

/-- The states after one more component. -/
def nextStates (states : List ℕ) (part : String) : List ℕ :=
  states.filterMap fun index =>
    match patternParts[index]? with
    | none => none
    | some pattern =>
      if pattern = "**" then some index else if fnmatch part pattern then some (index + 1) else none

/-- The loop of `_pattern_states`. -/
def advance (states : List ℕ) : List String → List ℕ
  | [] => states
  | part :: parts =>
    let states := closure patternParts (nextStates fnmatch patternParts states part)
    if states = [] then states else advance states parts

/-- `_pattern_states`. -/
def patternStates (pathParts : List String) : List ℕ :=
  advance fnmatch patternParts (closure patternParts [0]) pathParts

/-- `_matches`. -/
def pathMatches (pathParts : List String) : Bool :=
  patternParts.length ∈ patternStates fnmatch patternParts pathParts

/-- `_could_match_descendant`. -/
def couldMatchDescendant (pathParts : List String) : Bool :=
  (patternStates fnmatch patternParts pathParts).any (· < patternParts.length)

end States

/-! ### Walks -/

/-- A node of a file system. A directory lists its entries in any order. -/
inductive Node (σ γ : Type)
  | file (stat : σ) (content : γ)
  | symlink
  | special
  | dir (entries : List (String × Node σ γ))

section Walks

variable {σ γ : Type}

/-- The node at a path below a directory, without following links. -/
def Node.find : Node σ γ → List String → Option (Node σ γ)
  | node, [] => some node
  | .dir entries, name :: rest => (entries.lookup name).bind fun child => child.find rest
  | _, _ :: _ => none

mutual

/-- The number of directories below one another. -/
def Node.height : Node σ γ → ℕ
  | .dir entries => heightOfAll entries + 1
  | _ => 0
termination_by structural x => x

/-- The greatest height of some entries. -/
def heightOfAll : List (String × Node σ γ) → ℕ
  | [] => 0
  | entry :: rest => max (heightOf entry) (heightOfAll rest)
termination_by structural x => x

/-- The height of an entry. -/
def heightOf : String × Node σ γ → ℕ
  | (_, node) => node.height
termination_by structural x => x

end

/-- `_MatchedFile`. -/
structure MatchedFile (σ : Type) where
  relativePath : String
  path : List String
  stat : σ
  contentHash : Option String

/-- `_symlink_error`. -/
def symlinkError (source : SourceConfig) (relativePath : String) (wouldTraverse : Bool) : Failure :=
  configError (if wouldTraverse then
    "Source '" ++ source.name ++ "' file_pattern would traverse symlink '" ++ relativePath ++
      "', which may resolve outside the source root. " ++
      "stel does not traverse symlinked source directories."
  else
    "Source '" ++ source.name ++ "' file_pattern matched symlink '" ++ relativePath ++
      "'. stel does not read symlinked source files.")

/-- The error for a file that is not what it was. -/
def changedFile (source : SourceConfig) (relativePath : String) : Failure :=
  configError ("Source '" ++ source.name ++ "' file '" ++ relativePath ++
    "' changed or became a symlink during discovery")

variable (fnmatch : String → String → Bool) (hash : γ → String) (source : SourceConfig)
  (sourceDir : List String) (patternParts : List String) (includeHash : Bool)

/-- The file at a path below the root. -/
def fileAt (childParts : List String) (stat : σ) (content : γ) : MatchedFile σ where
  relativePath := "/".intercalate childParts
  path := sourceDir ++ childParts
  stat
  contentHash := if includeHash then some (hash content) else none

/-- What both walks do with an entry: `recurse` is the walk of a directory, and `opened` a file. -/
def visit (node : Node σ γ) (childParts : List String) (recurse : Except Failure (List (MatchedFile σ)))
    (opened : Except Failure (σ × γ)) : Except Failure (List (MatchedFile σ)) :=
  let found := pathMatches fnmatch patternParts childParts
  let descend := couldMatchDescendant fnmatch patternParts childParts
  match node with
  | .symlink =>
    if found ∨ descend then
      .error (symlinkError source ("/".intercalate childParts) (descend && !found))
    else .ok []
  | .dir _ => if descend then recurse else .ok []
  | .special => .ok []
  | .file _ _ =>
    if found then do
      let (stat, content) ← opened
      return [fileAt hash sourceDir includeHash childParts stat content]
    else .ok []

/-- The entries of a directory, visited by their names. -/
def inOrder (visited : List (String × Except Failure (List (MatchedFile σ)))) :
    Except Failure (List (MatchedFile σ)) := do
  let found ← (visited.insertionSort fun a b => a.1 ≤ b.1).mapM Prod.snd
  return found.flatten

/-- A file that is opened below its directory. -/
def openAt (relativePath : String) : Node σ γ → Except Failure (σ × γ)
  | .file stat content => .ok (stat, content)
  | _ => .error (changedFile source relativePath)

/-- `_open_path_checked`. -/
def openPathChecked (root : Node σ γ) (childParts : List String) : Except Failure (σ × γ) :=
  match root.find childParts with
  | some node => openAt source ("/".intercalate childParts) node
  | none => .error (changedFile source ("/".intercalate childParts))

mutual

/-- `_walk_fd`, of the directory that is open. -/
def walkFd : Node σ γ → List String → Except Failure (List (MatchedFile σ))
  | .dir entries, relativeParts => inOrder (walkEntries entries relativeParts)
  | _, _ => .error (.other "NotADirectoryError")
termination_by structural x => x

/-- The visits of its entries. -/
def walkEntries : List (String × Node σ γ) → List String →
    List (String × Except Failure (List (MatchedFile σ)))
  | [], _ => []
  | entry :: rest, relativeParts => walkEntry entry relativeParts :: walkEntries rest relativeParts
termination_by structural x => x

/-- The visit of one entry. -/
def walkEntry : String × Node σ γ → List String → String × Except Failure (List (MatchedFile σ))
  | (name, child), relativeParts =>
    (name, visit fnmatch hash source sourceDir patternParts includeHash child (relativeParts ++ [name])
      (walkFd child (relativeParts ++ [name]))
      (openAt source ("/".intercalate (relativeParts ++ [name])) child))
termination_by structural x => x

end

/-- `_walk_path`, of the directory at a path. -/
def walkPath (root : Node σ γ) : ℕ → List String → Except Failure (List (MatchedFile σ))
  | 0, _ => .error (.other "RecursionError")
  | depth + 1, relativeParts =>
    match root.find relativeParts with
    | some (.dir entries) => inOrder (entries.map fun entry =>
      (entry.1, visit fnmatch hash source sourceDir patternParts includeHash entry.2
        (relativeParts ++ [entry.1]) (walkPath root depth (relativeParts ++ [entry.1]))
        (openPathChecked source root (relativeParts ++ [entry.1]))))
    | some _ => .error (configError ("Source '" ++ source.name ++
      "' directory changed or became a symlink during discovery: /" ++
      "/".intercalate (sourceDir ++ relativeParts)))
    | none => .error (.other "FileNotFoundError")

/-- `_matched_files`. -/
def matchedFiles (hasDescriptorWalk : Bool) (root : Node σ γ) : Except Failure (List (MatchedFile σ)) := do
  let patternParts ← effectivePattern source
  let found ←
    if hasDescriptorWalk then
      match root with
      | .dir _ => walkFd fnmatch hash source sourceDir patternParts includeHash root []
      | _ => .error (configError ("Source '" ++ source.name ++
        "' root changed or became a symlink during discovery"))
    else walkPath fnmatch hash source sourceDir patternParts includeHash root root.height []
  return found.insertionSort fun a b => a.relativePath ≤ b.relativePath

end Walks

/-! ### States -/

section States

variable {fnmatch : String → String → Bool} {patternParts path : List String} {S out pending : List ℕ}
  {i j : ℕ}

/-- A star does not need a component. -/
def Reaches (patternParts : List String) (i j : ℕ) : Prop :=
  i ≤ j ∧ ∀ k, i ≤ k → k < j → patternParts[k]? = some "**"

/-- States that stand in the pattern, with those after their stars, except after the pending ones. -/
structure Closed (patternParts : List String) (states pending : List ℕ) : Prop where
  le : ∀ i ∈ states, i ≤ patternParts.length
  star : ∀ i ∈ states, i ∉ pending → patternParts[i]? = some "**" → i + 1 ∈ states

/-- A state is no longer pending once the one after its star is there. -/
theorem Closed.pop (hclosed : Closed patternParts out (i :: pending))
    (hstar : patternParts[i]? = some "**" → i + 1 ∈ out) : Closed patternParts out pending := by
  refine ⟨hclosed.le, fun j hj hpending hj' => ?_⟩
  by_cases hji : j = i
  · subst hji
    exact hstar hj'
  · exact hclosed.star j hj (List.not_mem_cons_of_ne_of_not_mem hji hpending) hj'

theorem chase_spec {suffix : List String} (hsuffix : patternParts.drop i = suffix)
    (hclosed : Closed patternParts out (i :: pending)) :
    out ⊆ chase out i suffix ∧ Closed patternParts (chase out i suffix) pending ∧
      ∀ j ∈ chase out i suffix, j ∈ out ∨ Reaches patternParts i j := by
  induction suffix generalizing out i with
  | nil =>
    have hnone : patternParts[i]? = none := List.getElem?_eq_none (List.drop_eq_nil_iff.mp hsuffix)
    exact ⟨fun _ h => h, hclosed.pop fun h => absurd (hnone.symm.trans h) nofun, fun _ h => .inl h⟩
  | cons p rest ih =>
    have hp : patternParts[i]? = some p := by
      rw [← List.head?_drop, hsuffix, List.head?_cons]
    have hrest : patternParts.drop (i + 1) = rest := by
      rw [← List.tail_drop, hsuffix, List.tail_cons]
    unfold chase
    split
    · rename_i hstar
      obtain ⟨rfl, hnew⟩ := hstar
      have hclosed' : Closed patternParts (out.insert (i + 1)) (i :: (i + 1) :: pending) := by
        refine ⟨fun j hj => ?_, fun j hj hpending hj' => ?_⟩
        · rcases List.mem_insert_iff.mp hj with rfl | hj
          · exact (List.getElem?_eq_some_iff.mp hp).1
          · exact hclosed.le j hj
        · simp only [List.mem_cons, not_or] at hpending
          have hj := (List.mem_insert_iff.mp hj).resolve_left hpending.2.1
          exact List.mem_insert_of_mem
            (hclosed.star j hj (List.not_mem_cons_of_ne_of_not_mem hpending.1 hpending.2.2) hj')
      obtain ⟨hsub, hdone, hreach⟩ := ih hrest (hclosed'.pop fun _ => List.mem_insert_self)
      refine ⟨fun j hj => hsub (List.mem_insert_of_mem hj), hdone, fun j hj => ?_⟩
      have hone : Reaches patternParts i (i + 1) :=
        ⟨Nat.le_succ i, fun k hik hki => by rwa [Nat.le_antisymm (Nat.le_of_lt_succ hki) hik]⟩
      rcases hreach j hj with hj | ⟨hle, hstars⟩
      · rcases List.mem_insert_iff.mp hj with rfl | hj
        · exact .inr hone
        · exact .inl hj
      · refine .inr ⟨(Nat.le_succ i).trans hle, fun k hik hkj => ?_⟩
        rcases Nat.eq_or_lt_of_le hik with rfl | hik
        · exact hp
        · exact hstars k hik hkj
    · rename_i hstar
      refine ⟨fun _ h => h, hclosed.pop fun h => ?_, fun _ h => .inl h⟩
      obtain rfl := Option.some.inj (hp.symm.trans h)
      simpa using hstar

theorem foldl_chase_spec (hclosed : Closed patternParts out pending) :
    let states := pending.foldl (fun out index => chase out index (patternParts.drop index)) out
    out ⊆ states ∧ Closed patternParts states [] ∧
      ∀ j ∈ states, j ∈ out ∨ ∃ i ∈ pending, Reaches patternParts i j := by
  induction pending generalizing out with
  | nil => exact ⟨fun _ h => h, hclosed, fun _ h => .inl h⟩
  | cons i pending ih =>
    obtain ⟨hsub, hnext, hreach⟩ := chase_spec rfl hclosed
    obtain ⟨hsub', hdone, hreach'⟩ := ih hnext
    refine ⟨fun j hj => hsub' (hsub hj), hdone, fun j hj => ?_⟩
    rcases hreach' j hj with hj | ⟨k, hk, hkj⟩
    · exact (hreach j hj).imp_right fun h => ⟨i, List.mem_cons_self, h⟩
    · exact .inr ⟨k, List.mem_cons_of_mem _ hk, hkj⟩

/-- The closure adds the states after stars, and no others. -/
theorem closure_spec (hle : ∀ i ∈ S, i ≤ patternParts.length) :
    S ⊆ closure patternParts S ∧ Closed patternParts (closure patternParts S) [] ∧
      ∀ j ∈ closure patternParts S, ∃ i ∈ S, Reaches patternParts i j := by
  have hall : Closed patternParts S S.reverse :=
    ⟨hle, fun i hi hpending => absurd (List.mem_reverse.mpr hi) hpending⟩
  obtain ⟨hsub, hdone, hreach⟩ := foldl_chase_spec hall
  refine ⟨hsub, hdone, fun j hj => ?_⟩
  rcases hreach j hj with hj | ⟨i, hi, hij⟩
  · exact ⟨j, hj, le_rfl, fun k hjk hkj => absurd hkj (Nat.not_lt.mpr hjk)⟩
  · exact ⟨i, List.mem_reverse.mp hi, hij⟩

/-- The component that stands for any number of them. -/
def IsStar (pattern : String) : Prop := pattern = "**"

/-- `**` stands for any components, and any other component for one that `fnmatch` accepts. -/
abbrev PathMatches (fnmatch : String → String → Bool) (patternParts path : List String) : Prop :=
  Matches IsStar (fun part pattern => fnmatch part pattern = true) patternParts path

/-- What is left of a path matches what a state leaves of the pattern. -/
def Accepts (fnmatch : String → String → Bool) (patternParts : List String) (states : List ℕ)
    (path : List String) : Prop :=
  ∃ i ∈ states, PathMatches fnmatch (patternParts.drop i) path

theorem matches_of_reaches (h : Reaches patternParts i j)
    (hmatches : PathMatches fnmatch (patternParts.drop j) path) :
    PathMatches fnmatch (patternParts.drop i) path := by
  obtain ⟨hle, hstars⟩ := h
  induction j, hle using Nat.le_induction with
  | base => exact hmatches
  | succ j hij ih =>
    refine ih ?_ fun k hik hkj => hstars k hik (hkj.trans j.lt_succ_self)
    obtain ⟨hlt, hstar⟩ := List.getElem?_eq_some_iff.mp (hstars j hij j.lt_succ_self)
    have hstar : IsStar patternParts[j] := hstar
    rw [PathMatches, List.drop_eq_getElem_cons hlt]
    exact (matches_cons_star hstar).mpr (.inl hmatches)

theorem accepts_closure (hle : ∀ i ∈ S, i ≤ patternParts.length) :
    Accepts fnmatch patternParts (closure patternParts S) path ↔ Accepts fnmatch patternParts S path := by
  obtain ⟨hsub, -, hreach⟩ := closure_spec hle
  constructor
  · rintro ⟨j, hj, hmatches⟩
    obtain ⟨i, hi, hij⟩ := hreach j hj
    exact ⟨i, hi, matches_of_reaches hij hmatches⟩
  · rintro ⟨i, hi, hmatches⟩
    exact ⟨i, hsub hi, hmatches⟩

theorem mem_nextStates {part : String} : j ∈ nextStates fnmatch patternParts S part ↔
    ∃ i ∈ S, ∃ pattern, patternParts[i]? = some pattern ∧
      (IsStar pattern ∧ j = i ∨ ¬ IsStar pattern ∧ fnmatch part pattern = true ∧ j = i + 1) := by
  rw [nextStates, List.mem_filterMap]
  refine exists_congr fun i => and_congr_right fun _ => ?_
  cases patternParts[i]? with
  | none => simp
  | some pattern =>
    by_cases hstar : pattern = "**"
    · simp [IsStar, hstar, eq_comm (a := j)]
    · by_cases hfits : fnmatch part pattern = true <;> simp [IsStar, hstar, hfits, eq_comm (a := j)]

theorem nextStates_le {part : String} :
    ∀ j ∈ nextStates fnmatch patternParts S part, j ≤ patternParts.length := by
  intro j hj
  obtain ⟨i, -, pattern, hpattern, hj⟩ := mem_nextStates.mp hj
  have hlt := (List.getElem?_eq_some_iff.mp hpattern).1
  rcases hj with ⟨-, rfl⟩ | ⟨-, -, rfl⟩
  · exact hlt.le
  · exact hlt

/-- One component. -/
theorem accepts_cons (hclosed : Closed patternParts S []) {part : String} :
    Accepts fnmatch patternParts S (part :: path) ↔
      Accepts fnmatch patternParts (nextStates fnmatch patternParts S part) path := by
  constructor
  · rintro ⟨i, hi, hmatches⟩
    -- by what is left of the pattern: a star is skipped, or it stands for the component
    obtain ⟨n, hn⟩ : ∃ n, patternParts.length - i = n := ⟨_, rfl⟩
    induction n generalizing i with
    | zero =>
      rw [PathMatches, List.drop_eq_nil_iff.mpr (Nat.le_of_sub_eq_zero hn), matches_nil_left] at hmatches
      cases hmatches
    | succ n ih =>
      have hlt : i < patternParts.length := by omega
      rw [PathMatches, List.drop_eq_getElem_cons hlt] at hmatches
      have hget := List.getElem?_eq_getElem hlt
      by_cases hstar : IsStar patternParts[i]
      · rcases (matches_cons_star hstar).mp hmatches with hmatches | ⟨c, rest, heq, hmatches⟩
        · exact ih (i + 1) (hclosed.star i hi List.not_mem_nil (hget.trans (congrArg some hstar)))
            hmatches (by omega)
        · obtain ⟨rfl, rfl⟩ := List.cons.inj heq
          refine ⟨i, mem_nextStates.mpr ⟨i, hi, _, hget, .inl ⟨hstar, rfl⟩⟩, ?_⟩
          rwa [PathMatches, List.drop_eq_getElem_cons hlt]
      · obtain ⟨c, rest, heq, hfits, hmatches⟩ := (matches_cons_part hstar).mp hmatches
        obtain ⟨rfl, rfl⟩ := List.cons.inj heq
        exact ⟨i + 1, mem_nextStates.mpr ⟨i, hi, _, hget, .inr ⟨hstar, hfits, rfl⟩⟩, hmatches⟩
  · rintro ⟨j, hj, hmatches⟩
    obtain ⟨i, hi, pattern, hpattern, hj⟩ := mem_nextStates.mp hj
    obtain ⟨hlt, rfl⟩ := List.getElem?_eq_some_iff.mp hpattern
    refine ⟨i, hi, ?_⟩
    rw [PathMatches, List.drop_eq_getElem_cons hlt]
    rcases hj with ⟨hstar, rfl⟩ | ⟨hstar, hfits, rfl⟩
    · rw [PathMatches, List.drop_eq_getElem_cons hlt] at hmatches
      exact (matches_cons_star hstar).mpr (.inr ⟨part, path, rfl, hmatches⟩)
    · exact (matches_cons_part hstar).mpr ⟨part, path, rfl, hfits, hmatches⟩

variable (fnmatch path) in
theorem advance_spec (rest : List String) (hclosed : Closed patternParts S []) :
    Closed patternParts (advance fnmatch patternParts S path) [] ∧
      (Accepts fnmatch patternParts S (path ++ rest) ↔
        Accepts fnmatch patternParts (advance fnmatch patternParts S path) rest) := by
  induction path generalizing S with
  | nil => exact ⟨hclosed, Iff.rfl⟩
  | cons part path ih =>
    have hle : ∀ j ∈ nextStates fnmatch patternParts S part, j ≤ patternParts.length := nextStates_le
    have hnext := closure_spec hle
    obtain ⟨hdone, hiff⟩ := ih hnext.2.1
    have hstep : Accepts fnmatch patternParts S (part :: path ++ rest) ↔
        Accepts fnmatch patternParts (closure patternParts (nextStates fnmatch patternParts S part))
          (path ++ rest) :=
      (accepts_cons hclosed).trans (accepts_closure nextStates_le).symm
    simp only [advance]
    split
    · rename_i hnone
      refine ⟨hnext.2.1, hstep.trans ?_⟩
      rw [hnone]
      exact ⟨fun ⟨_, h, _⟩ => absurd h List.not_mem_nil, fun ⟨_, h, _⟩ => absurd h List.not_mem_nil⟩
    · exact ⟨hdone, hstep.trans hiff⟩

variable (fnmatch patternParts path) in
theorem patternStates_spec (rest : List String) :
    Closed patternParts (patternStates fnmatch patternParts path) [] ∧
      (PathMatches fnmatch patternParts (path ++ rest) ↔
        Accepts fnmatch patternParts (patternStates fnmatch patternParts path) rest) := by
  have hzero : ∀ i ∈ [0], i ≤ patternParts.length := fun i hi => by
    rw [List.mem_singleton.mp hi]
    exact Nat.zero_le _
  obtain ⟨hdone, hiff⟩ := advance_spec fnmatch path rest (closure_spec hzero).2.1
  refine ⟨hdone, Iff.trans ?_ ((accepts_closure hzero).symm.trans hiff)⟩
  exact ⟨fun h => ⟨0, List.mem_singleton_self 0, h⟩, fun ⟨i, hi, h⟩ => by
    rwa [List.mem_singleton.mp hi] at h⟩

/-- The states of a path match what the pattern stands for. -/
theorem matches_append_iff {rest : List String} : PathMatches fnmatch patternParts (path ++ rest) ↔
    Accepts fnmatch patternParts (patternStates fnmatch patternParts path) rest :=
  (patternStates_spec fnmatch patternParts path rest).2

theorem pathMatches_iff : pathMatches fnmatch patternParts path = true ↔
    PathMatches fnmatch patternParts path := by
  obtain ⟨hclosed, hiff⟩ := patternStates_spec fnmatch patternParts path []
  rw [List.append_nil] at hiff
  rw [hiff, pathMatches, decide_eq_true_iff]
  constructor
  · exact fun h => ⟨_, h, by rw [PathMatches, List.drop_length, matches_nil_left]⟩
  · rintro ⟨i, hi, hmatches⟩
    -- only stars are left, and the states after them are there too
    obtain ⟨n, hn⟩ : ∃ n, patternParts.length - i = n := ⟨_, rfl⟩
    induction n generalizing i with
    | zero =>
      have heq := Nat.le_antisymm (hclosed.le i hi) (Nat.le_of_sub_eq_zero hn)
      exact heq ▸ hi
    | succ n ih =>
      have hlt : i < patternParts.length := by omega
      rw [PathMatches, List.drop_eq_getElem_cons hlt] at hmatches
      by_cases hstar : IsStar patternParts[i]
      · rcases (matches_cons_star hstar).mp hmatches with hmatches | ⟨_, _, heq, -⟩
        · exact ih (i + 1) (hclosed.star i hi List.not_mem_nil
            ((List.getElem?_eq_getElem hlt).trans (congrArg some hstar))) hmatches (by omega)
        · cases heq
      · obtain ⟨_, _, heq, -⟩ := (matches_cons_part hstar).mp hmatches
        cases heq

/-- No directory that is left out has a descendant that matches. -/
theorem not_matches_of_couldMatchDescendant
    (h : couldMatchDescendant fnmatch patternParts path = false) {rest : List String} (hrest : rest ≠ []) :
    ¬ PathMatches fnmatch patternParts (path ++ rest) := by
  rw [matches_append_iff]
  rintro ⟨i, hi, hmatches⟩
  have hle : patternParts.length ≤ i := by simpa using List.any_eq_false.mp h i hi
  rw [PathMatches, List.drop_eq_nil_iff.mpr hle, matches_nil_left] at hmatches
  exact hrest hmatches

end States

/-! ### Discovery -/

section Discovery

variable {σ γ : Type}

/-- A directory tree without symlinks, with names as a file system has them. -/
inductive Node.NoSymlinks : Node σ γ → Prop
  | file (stat : σ) (content : γ) : NoSymlinks (.file stat content)
  | special : NoSymlinks .special
  | dir {entries : List (String × Node σ γ)} (nodup : (entries.map Prod.fst).Nodup)
      (names : ∀ entry ∈ entries, '/' ∉ entry.1.toList)
      (children : ∀ entry ∈ entries, entry.2.NoSymlinks) : NoSymlinks (.dir entries)

theorem find_append {root node : Node σ γ} {parts rest : List String} (h : root.find parts = some node) :
    root.find (parts ++ rest) = node.find rest := by
  induction parts generalizing root with
  | nil =>
    unfold Node.find at h
    rw [List.nil_append, Option.some.inj h]
  | cons name parts ih =>
    cases root with
    | dir entries =>
      obtain ⟨child, hchild, h⟩ := Option.bind_eq_some_iff.mp h
      show (entries.lookup name).bind (fun child => child.find (parts ++ rest)) = _
      rw [hchild, Option.bind_some, ih h]
    | file | symlink | special => cases h

theorem height_le_heightOfAll {entries : List (String × Node σ γ)} {entry : String × Node σ γ}
    (h : entry ∈ entries) : entry.2.height ≤ heightOfAll entries := by
  induction entries with
  | nil => cases h
  | cons first entries ih =>
    show _ ≤ max (heightOf first) (heightOfAll entries)
    rcases List.mem_cons.mp h with rfl | h
    · obtain ⟨name, node⟩ := entry
      exact le_max_left node.height _
    · exact (ih h).trans (le_max_right _ _)

variable {fnmatch : String → String → Bool} {hash : γ → String} {source : SourceConfig}
  {sourceDir patternParts : List String} {includeHash : Bool}

theorem walkEntries_eq {entries : List (String × Node σ γ)} {relativeParts : List String} :
    walkEntries fnmatch hash source sourceDir patternParts includeHash entries relativeParts =
      entries.map fun entry =>
        (entry.1, visit fnmatch hash source sourceDir patternParts includeHash entry.2
          (relativeParts ++ [entry.1])
          (walkFd fnmatch hash source sourceDir patternParts includeHash entry.2 (relativeParts ++ [entry.1]))
          (openAt source ("/".intercalate (relativeParts ++ [entry.1])) entry.2)) := by
  induction entries with
  | nil => rfl
  | cons entry entries ih =>
    obtain ⟨name, child⟩ := entry
    rw [walkEntries, walkEntry, ih, List.map_cons]

variable (fnmatch hash sourceDir patternParts includeHash) in
/-- Exactly the files below a node whose path matches, each once. -/
structure Found (node : Node σ γ) (parts : List String) (files : List (MatchedFile σ)) : Prop where
  mem : ∀ file, file ∈ files ↔ ∃ rest stat content, node.find rest = some (.file stat content) ∧
    PathMatches fnmatch patternParts (parts ++ rest) ∧
    file = fileAt hash sourceDir includeHash (parts ++ rest) stat content
  nodup : (files.map MatchedFile.path).Nodup

theorem fileAt_path {parts : List String} {stat : σ} {content : γ} :
    (fileAt hash sourceDir includeHash parts stat content).path = sourceDir ++ parts := rfl

theorem found_nil {node : Node σ γ} {parts : List String}
    (h : ∀ rest stat content, node.find rest = some (.file stat content) →
      ¬ PathMatches fnmatch patternParts (parts ++ rest)) :
    Found fnmatch hash sourceDir patternParts includeHash node parts [] := by
  refine ⟨fun file => ⟨nofun, ?_⟩, List.nodup_nil⟩
  rintro ⟨rest, stat, content, hfind, hmatches, -⟩
  exact absurd hmatches (h rest stat content hfind)

/-- What a walk does with an entry, by its kind. -/
theorem visit_found {node : Node σ γ} (hnode : node.NoSymlinks) {parts : List String}
    {recurse : Except Failure (List (MatchedFile σ))} {opened : Except Failure (σ × γ)}
    (hrecurse : ∀ entries, node = .dir entries → ∃ files, recurse = .ok files ∧
      Found fnmatch hash sourceDir patternParts includeHash node parts files)
    (hopened : ∀ stat content, node = .file stat content → opened = .ok (stat, content)) :
    ∃ files, visit fnmatch hash source sourceDir patternParts includeHash node parts recurse opened =
      .ok files ∧ Found fnmatch hash sourceDir patternParts includeHash node parts files := by
  cases hnode with
  | special =>
    refine ⟨[], rfl, found_nil fun rest stat content hfind => ?_⟩
    cases rest with
    | nil => cases hfind
    | cons => cases hfind
  | file stat content =>
    rw [hopened stat content rfl]
    simp only [visit]
    split
    · rename_i hfound
      refine ⟨_, rfl, fun file => ?_, List.nodup_singleton _⟩
      rw [List.mem_singleton]
      constructor
      · rintro rfl
        exact ⟨[], stat, content, rfl, by rw [List.append_nil]; exact pathMatches_iff.mp hfound,
          by rw [List.append_nil]⟩
      · rintro ⟨rest, stat', content', hfind, -, rfl⟩
        cases rest with
        | nil =>
          obtain ⟨rfl, rfl⟩ := Node.file.inj (Option.some.inj hfind)
          rw [List.append_nil]
        | cons => cases hfind
    · rename_i hfound
      refine ⟨[], rfl, found_nil fun rest stat' content' hfind => ?_⟩
      cases rest with
      | nil => rwa [List.append_nil, ← pathMatches_iff]
      | cons => cases hfind
  | @dir entries =>
    simp only [visit]
    split
    · exact hrecurse entries rfl
    · rename_i hdescend
      refine ⟨[], rfl, found_nil fun rest stat content hfind =>
        not_matches_of_couldMatchDescendant (Bool.eq_false_iff.mpr hdescend) ?_⟩
      rintro rfl
      cases hfind

/-- What a visit returns. -/
def returned (visited : String × Except Failure (List (MatchedFile σ))) : List (MatchedFile σ) :=
  visited.2.toOption.getD []

theorem inOrder_eq {visited : List (String × Except Failure (List (MatchedFile σ)))}
    (h : ∀ v ∈ visited, ∃ files, v.2 = .ok files) :
    inOrder visited = .ok ((visited.insertionSort fun a b => a.1 ≤ b.1).flatMap returned) := by
  have hall : (visited.insertionSort fun a b => a.1 ≤ b.1).mapM Prod.snd =
      .ok ((visited.insertionSort fun a b => a.1 ≤ b.1).map returned) := by
    rw [mapM_eq_ok, List.forall₂_map_right_iff, List.forall₂_same]
    intro v hv
    obtain ⟨files, hfiles⟩ := h v ((List.perm_insertionSort _ _).mem_iff.mp hv)
    rw [returned, hfiles]
    rfl
  rw [inOrder, hall]
  rfl

/-- The files of a directory, from those of its entries. -/
theorem found_dir {entries : List (String × Node σ γ)} {parts : List String}
    (hnodup : (entries.map Prod.fst).Nodup)
    {visitOf : String × Node σ γ → Except Failure (List (MatchedFile σ))}
    (hvisit : ∀ entry ∈ entries, ∃ files, visitOf entry = .ok files ∧
      Found fnmatch hash sourceDir patternParts includeHash entry.2 (parts ++ [entry.1]) files) :
    ∃ files, inOrder (entries.map fun entry => (entry.1, visitOf entry)) = .ok files ∧
      Found fnmatch hash sourceDir patternParts includeHash (.dir entries) parts files := by
  have hsorted := List.perm_insertionSort (fun a b : String × _ => a.1 ≤ b.1)
    (entries.map fun entry => (entry.1, visitOf entry))
  -- an entry in the order of the visits, with what its visit returns
  have hreturned : ∀ v ∈ (entries.map fun entry => (entry.1, visitOf entry)).insertionSort
      fun a b => a.1 ≤ b.1, ∃ node, (v.1, node) ∈ entries ∧
        Found fnmatch hash sourceDir patternParts includeHash node (parts ++ [v.1]) (returned v) := by
    intro v hv
    obtain ⟨entry, hentry, rfl⟩ := List.mem_map.mp (hsorted.mem_iff.mp hv)
    obtain ⟨files, hfiles, hfound⟩ := hvisit entry hentry
    refine ⟨entry.2, hentry, ?_⟩
    rw [returned, hfiles]
    exact hfound
  refine ⟨_, inOrder_eq fun v hv => ?_, fun file => ?_, ?_⟩
  · obtain ⟨entry, hentry, rfl⟩ := List.mem_map.mp hv
    obtain ⟨files, hfiles, -⟩ := hvisit entry hentry
    exact ⟨files, hfiles⟩
  · rw [List.mem_flatMap]
    constructor
    · rintro ⟨v, hv, hfile⟩
      obtain ⟨node, hnode, hfound⟩ := hreturned v hv
      obtain ⟨rest, stat, content, hfind, hmatches, rfl⟩ := (hfound.mem file).mp hfile
      have hlookup := (mem_iff_lookup hnodup).mp hnode
      refine ⟨v.1 :: rest, stat, content, ?_, by rwa [List.append_cons], by rw [← List.append_cons]⟩
      show (entries.lookup v.1).bind (fun child => child.find rest) = _
      rw [hlookup, Option.bind_some, hfind]
    · rintro ⟨rest, stat, content, hfind, hmatches, rfl⟩
      cases rest with
      | nil => cases hfind
      | cons name rest =>
        obtain ⟨child, hchild, hfind⟩ := Option.bind_eq_some_iff.mp hfind
        have hmem := (mem_iff_lookup hnodup).mpr hchild
        have hv := hsorted.mem_iff.mpr (List.mem_map_of_mem hmem)
        obtain ⟨node, hnode, hfound⟩ := hreturned _ hv
        obtain rfl := Option.some.inj (hchild.symm.trans ((mem_iff_lookup hnodup).mp hnode))
        refine ⟨_, hv, (hfound.mem _).mpr ⟨rest, stat, content, hfind, ?_, ?_⟩⟩
        · rwa [← List.append_cons]
        · rw [← List.append_cons]
  · rw [List.map_flatMap, List.nodup_flatMap]
    refine ⟨fun v hv => ?_, ?_⟩
    · obtain ⟨node, -, hfound⟩ := hreturned v hv
      exact hfound.nodup
    · have hnames : ((entries.map fun entry => (entry.1, visitOf entry)).insertionSort
          fun a b => a.1 ≤ b.1).Pairwise fun a b => a.1 ≠ b.1 := by
        rw [← List.pairwise_map, ← List.nodup_iff_pairwise_ne, (hsorted.map Prod.fst).nodup_iff, List.map_map]
        exact hnodup
      refine hnames.imp_of_mem fun {a b} ha hb hne path hpath hpath' => hne ?_
      have hpathOf : ∀ {v : String × Except Failure (List (MatchedFile σ))},
          v ∈ (entries.map fun entry => (entry.1, visitOf entry)).insertionSort (fun a b => a.1 ≤ b.1) →
          path ∈ (returned v).map MatchedFile.path →
          ∃ rest, path = sourceDir ++ (parts ++ v.1 :: rest) := by
        intro v hv hpath
        obtain ⟨node, -, hfound⟩ := hreturned v hv
        obtain ⟨file, hfile, rfl⟩ := List.mem_map.mp hpath
        obtain ⟨rest, stat, content, -, -, rfl⟩ := (hfound.mem file).mp hfile
        exact ⟨rest, by rw [fileAt_path, ← List.append_cons]⟩
      obtain ⟨rest, hrest⟩ := hpathOf ha hpath
      obtain ⟨rest', hrest'⟩ := hpathOf hb hpath'
      have heq := List.append_cancel_left (List.append_cancel_left (hrest.symm.trans hrest'))
      exact (List.cons.inj heq).1

theorem visit_congr {node : Node σ γ} {parts : List String}
    {recurse recurse' : Except Failure (List (MatchedFile σ))} {opened opened' : Except Failure (σ × γ)}
    (hrecurse : ∀ entries, node = .dir entries → recurse = recurse')
    (hopened : ∀ stat content, node = .file stat content → opened = opened') :
    visit fnmatch hash source sourceDir patternParts includeHash node parts recurse opened =
      visit fnmatch hash source sourceDir patternParts includeHash node parts recurse' opened' := by
  cases node with
  | symlink | special => rfl
  | file stat content => rw [hopened stat content rfl]; rfl
  | dir entries => rw [hrecurse entries rfl]; rfl

/-- Both walks of a directory return the files below it. -/
theorem walk_spec {root node : Node σ γ} (hnode : node.NoSymlinks) {parts : List String}
    (hroot : root.find parts = some node) {entries : List (String × Node σ γ)} (hdir : node = .dir entries) :
    ∃ files, walkFd fnmatch hash source sourceDir patternParts includeHash node parts = .ok files ∧
      Found fnmatch hash sourceDir patternParts includeHash node parts files ∧
      ∀ depth, node.height ≤ depth →
        walkPath fnmatch hash source sourceDir patternParts includeHash root depth parts = .ok files := by
  induction hnode generalizing parts entries with
  | file | special => cases hdir
  | @dir entries' hnodup _ hchildren ih =>
    have hfind : ∀ entry ∈ entries', root.find (parts ++ [entry.1]) = some entry.2 := by
      intro entry hentry
      have hlookup := (mem_iff_lookup hnodup).mp hentry
      rw [find_append hroot]
      show (entries'.lookup entry.1).bind (fun child => child.find []) = _
      rw [hlookup, Option.bind_some]
      unfold Node.find
      rfl
    have hvisit : ∀ entry ∈ entries', ∃ files, visit fnmatch hash source sourceDir patternParts includeHash
        entry.2 (parts ++ [entry.1])
        (walkFd fnmatch hash source sourceDir patternParts includeHash entry.2 (parts ++ [entry.1]))
        (openAt source ("/".intercalate (parts ++ [entry.1])) entry.2) = .ok files ∧
        Found fnmatch hash sourceDir patternParts includeHash entry.2 (parts ++ [entry.1]) files := by
      intro entry hentry
      refine visit_found (hchildren entry hentry) (fun entries hdir => ?_) fun stat content hfile => ?_
      · obtain ⟨files, hwalk, hfound, -⟩ := ih entry hentry (hfind entry hentry) hdir
        exact ⟨files, hwalk, hfound⟩
      · rw [hfile]
        rfl
    obtain ⟨files, hfiles, hfound⟩ := found_dir hnodup hvisit
    rw [← walkEntries_eq] at hfiles
    refine ⟨files, by rw [walkFd, hfiles], hfound, fun depth hdepth => ?_⟩
    have hheight : heightOfAll entries' + 1 ≤ depth := hdepth
    obtain ⟨depth, rfl⟩ := Nat.exists_eq_succ_of_ne_zero (Nat.ne_of_gt ((Nat.succ_pos _).trans_le hheight))
    rw [walkPath, hroot]
    simp only
    rw [walkEntries_eq] at hfiles
    refine Eq.trans (congrArg inOrder (List.map_congr_left fun entry hentry => ?_)) hfiles
    refine congrArg _ (visit_congr (fun entries hdir => ?_) fun stat content hfile => ?_)
    · obtain ⟨files, hwalk, -, hpath⟩ := ih entry hentry (hfind entry hentry) hdir
      rw [hwalk, hpath depth ((height_le_heightOfAll hentry).trans (Nat.le_of_succ_le_succ hheight))]
    · rw [openPathChecked, hfind entry hentry]

theorem notMem_of_find {node found : Node σ γ} (hnode : node.NoSymlinks) {parts : List String}
    (h : node.find parts = some found) : ∀ name ∈ parts, '/' ∉ name.toList := by
  induction parts generalizing node with
  | nil => exact nofun
  | cons first parts ih =>
    cases hnode with
    | file | special => cases h
    | @dir entries hnodup hnames hchildren =>
      obtain ⟨child, hchild, h⟩ := Option.bind_eq_some_iff.mp h
      have hmem := (mem_iff_lookup hnodup).mpr hchild
      intro name hname
      rcases List.mem_cons.mp hname with rfl | hname
      · exact hnames _ hmem
      · exact ih (hchildren _ hmem) h name hname

/-- A relative path determines its components. -/
theorem join_inj {parts parts' : List String} (hne : parts ≠ []) (hne' : parts' ≠ [])
    (h : ∀ name ∈ parts, '/' ∉ name.toList) (h' : ∀ name ∈ parts', '/' ∉ name.toList)
    (heq : "/".intercalate parts = "/".intercalate parts') : parts = parts' := by
  have hsplit : ∀ {parts : List String}, parts ≠ [] → (∀ name ∈ parts, '/' ∉ name.toList) →
      ("/".intercalate parts).toList.splitOn '/' = parts.map String.toList := by
    intro parts hne h
    rw [String.toList_intercalate]
    refine List.splitOn_intercalate '/' (fun l hl => ?_) (by simpa using hne)
    obtain ⟨name, hname, rfl⟩ := List.mem_map.mp hl
    exact h name hname
  refine List.map_injective_iff.mpr (fun _ _ h => String.toList_injective h) ?_
  rw [← hsplit hne h, heq, hsplit hne' h']

/-- Discovery returns exactly the matching files, each once and by their relative paths. -/
theorem matchedFiles_spec {entries : List (String × Node σ γ)} (htree : (Node.dir entries).NoSymlinks)
    {pattern : String} (hvalid : validateFilePattern source.filePattern = .ok pattern) :
    (pureParts ['/'] (normalizedPattern pattern) = [] → ∀ hasDescriptorWalk,
      matchedFiles fnmatch hash source sourceDir includeHash hasDescriptorWalk (.dir entries) =
        .error (configError ("Source '" ++ source.name ++ "' has invalid configuration: " ++
          "file_pattern must not be empty"))) ∧
    (pureParts ['/'] (normalizedPattern pattern) ≠ [] → ∃ patternParts files,
      patternParts = (if source.recursive then "**" :: pureParts ['/'] (normalizedPattern pattern)
        else pureParts ['/'] (normalizedPattern pattern)) ∧
      walkPath fnmatch hash source sourceDir patternParts includeHash (.dir entries)
          (Node.dir entries).height [] =
        walkFd fnmatch hash source sourceDir patternParts includeHash (.dir entries) [] ∧
      (∀ hasDescriptorWalk, matchedFiles fnmatch hash source sourceDir includeHash hasDescriptorWalk
        (.dir entries) = .ok files) ∧
      (∀ file, file ∈ files ↔ ∃ parts stat content,
        (Node.dir entries).find parts = some (.file stat content) ∧
        PathMatches fnmatch patternParts parts ∧
        file = fileAt hash sourceDir includeHash parts stat content) ∧
      (files.map MatchedFile.relativePath).Pairwise (· < ·) ∧
      ∀ dir, couldMatchDescendant fnmatch patternParts dir = false → ∀ rest ≠ [],
        ¬ PathMatches fnmatch patternParts (dir ++ rest)) := by
  constructor
  · intro hnone hasDescriptorWalk
    rw [matchedFiles, effectivePattern, hvalid]
    simp only [hnone, if_true]
    rfl
  · intro hparts
    have heffective : effectivePattern source =
        .ok (if source.recursive then "**" :: pureParts ['/'] (normalizedPattern pattern)
          else pureParts ['/'] (normalizedPattern pattern)) := by
      rw [effectivePattern, hvalid]
      exact if_neg hparts
    set patternParts := if source.recursive then "**" :: pureParts ['/'] (normalizedPattern pattern)
      else pureParts ['/'] (normalizedPattern pattern)
    obtain ⟨files, hwalk, hfound, hpath⟩ : ∃ files, walkFd fnmatch hash source sourceDir patternParts
        includeHash (.dir entries) [] = .ok files ∧
        Found fnmatch hash sourceDir patternParts includeHash (.dir entries) [] files ∧
        ∀ depth, (Node.dir entries).height ≤ depth → walkPath fnmatch hash source sourceDir patternParts
          includeHash (.dir entries) depth [] = .ok files := walk_spec htree rfl rfl
    have hsorted := List.perm_insertionSort
      (fun a b : MatchedFile σ => a.relativePath ≤ b.relativePath) files
    refine ⟨patternParts, files.insertionSort fun a b => a.relativePath ≤ b.relativePath, rfl,
      (hpath _ le_rfl).trans hwalk.symm, fun hasDescriptorWalk => ?_, fun file => ?_, ?_,
      fun dir hdir rest hrest => not_matches_of_couldMatchDescendant hdir hrest⟩
    · rw [matchedFiles, heffective]
      cases hasDescriptorWalk with
      | true =>
        show (walkFd fnmatch hash source sourceDir patternParts includeHash (.dir entries) [] >>= _) = _
        rw [hwalk]
        rfl
      | false =>
        show (walkPath fnmatch hash source sourceDir patternParts includeHash (.dir entries) _ [] >>= _) = _
        rw [hpath _ le_rfl]
        rfl
    · rw [hsorted.mem_iff, hfound.mem]
      rfl
    · -- a relative path determines the file
      have hinj : ∀ file ∈ files, ∀ file' ∈ files, file.relativePath = file'.relativePath → file = file' := by
        intro file hfile file' hfile' heq
        obtain ⟨parts, stat, content, hfind, -, rfl⟩ := (hfound.mem file).mp hfile
        obtain ⟨parts', stat', content', hfind', -, rfl⟩ := (hfound.mem file').mp hfile'
        have hne : ∀ {parts : List String} {stat content},
            (Node.dir entries).find parts = some (.file stat content) → parts ≠ [] := by
          rintro parts stat content hfind rfl
          cases hfind
        obtain rfl := join_inj (hne hfind) (hne hfind') (notMem_of_find htree hfind)
          (notMem_of_find htree hfind') heq
        obtain ⟨rfl, rfl⟩ := Node.file.inj (Option.some.inj (hfind.symm.trans hfind'))
        rfl
      have hnodup : ((files.insertionSort fun a b => a.relativePath ≤ b.relativePath).map
          MatchedFile.relativePath).Nodup := by
        rw [(hsorted.map _).nodup_iff]
        exact (List.Nodup.of_map _ hfound.nodup).map_on hinj
      have hle : ((files.insertionSort fun a b => a.relativePath ≤ b.relativePath).map
          MatchedFile.relativePath).Pairwise (· ≤ ·) :=
        List.pairwise_map.mpr (@List.pairwise_insertionSort _
          (fun a b : MatchedFile σ => a.relativePath ≤ b.relativePath) _
          ⟨fun a b => le_total a.relativePath b.relativePath⟩ ⟨fun _ _ _ => le_trans⟩ files)
      exact hle.imp₂ (fun _ _ hle hne => lt_of_le_of_ne hle hne) hnodup

end Discovery

/-! ### A small tree -/

/-- `fnmatch` for a name, or a star with a suffix. -/
def suffixMatch (part pattern : String) : Bool :=
  match pattern.toList with
  | '*' :: suffix => suffix.isSuffixOf part.toList
  | name => name = part.toList

/-- Two directories and three files, which are their own hashes. -/
def smallTree : List (String × Node ℕ String) :=
  [("notes", .dir [("b.json", .file 1 "b"), ("c.txt", .file 2 "c")]), ("a.json", .file 3 "a")]

theorem noSymlinks_smallTree : (Node.dir smallTree).NoSymlinks := by
  refine .dir (by decide) (by decide) fun entry hentry => ?_
  rcases List.mem_pair.mp hentry with rfl | rfl
  · refine .dir (by decide) (by decide) fun entry hentry => ?_
    rcases List.mem_pair.mp hentry with rfl | rfl
    · exact .file 1 "b"
    · exact .file 2 "c"
  · exact .file 3 "a"

/-- The files of the small tree whose names end with `.json`. -/
theorem matchedFiles_spec_small : ∃ files : List (MatchedFile ℕ),
    matchedFiles suffixMatch id ⟨"docs", "*.json", true⟩ ["data"] true false (.dir smallTree) = .ok files ∧
    matchedFiles suffixMatch id ⟨"docs", "*.json", true⟩ ["data"] true true (.dir smallTree) = .ok files ∧
    (files.map MatchedFile.relativePath).Pairwise (· < ·) := by
  have hvalid : validateFilePattern "*.json" = .ok "*.json" := by decide +kernel
  have hparts : pureParts ['/'] (normalizedPattern "*.json") ≠ [] := by decide +kernel
  obtain ⟨-, files, -, -, hfiles, -, hsorted, -⟩ :=
    (@matchedFiles_spec ℕ String suffixMatch id ⟨"docs", "*.json", true⟩ ["data"] true _
      noSymlinks_smallTree _ hvalid).2 hparts
  exact ⟨files, hfiles false, hfiles true, hsorted⟩

/-- A pattern without components is valid, and refused. -/
theorem matchedFiles_noParts : validateFilePattern "." = .ok "." ∧
    ∀ hasDescriptorWalk, matchedFiles suffixMatch id ⟨"docs", ".", true⟩ ["data"] true hasDescriptorWalk
      (.dir smallTree) = .error (configError ("Source 'docs' has invalid configuration: " ++
        "file_pattern must not be empty")) := by
  have hvalid : validateFilePattern "." = .ok "." := by decide +kernel
  have hnone : pureParts ['/'] (normalizedPattern ".") = [] := by decide +kernel
  refine ⟨hvalid, fun hasDescriptorWalk => ?_⟩
  rw [matchedFiles, effectivePattern, hvalid]
  simp only [hnone, if_true]
  rfl

end Stel.Sources
