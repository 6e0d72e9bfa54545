import Stel.Dag
import Stel.Data.SortedSet
import Stel.Failure
import Mathlib.Data.String.Basic

/-!
# Selecting models

`select_models` and `required_sources` of `dag.py`: a token of a selector names a node, the nodes
with a tag or the modified models, and a `+` before or behind it adds what these depend on or what
depends on them.

## Main definitions

* `SelectableDAG`: a project graph with the tags of its nodes.
* `expandToken`, `applySelector`, `selectModels`, `requiredSources`.
* `IsSeed`, `Denotes`, `ValidBody`: what a token stands for.

## Main results

* `mem_expandToken`: the nodes of a token.
* `selectModels_closure`: the selected models and the sources that they require.
-/

namespace Stel

/-- A project graph with the tags of its nodes. -/
structure SelectableDAG extends ProjectDAG where
  tags : String → List String

/-- The text of a list of node names, sorted. -/
def nodeList (names : List String) : String :=
  "[" ++ ", ".intercalate ((sortedSet names).map fun n => "'" ++ n ++ "'") ++ "]"

/-- `token.strip("+")`. -/
def stripPlus (token : String) : String :=
  String.ofList ((token.toList.dropWhile (· = '+')).rdropWhile (· = '+'))

/-- `token.startswith("+")`. -/
def expandsUp (token : String) : Bool := token.toList.head? = some '+'

/-- `token.endswith("+")`. -/
def expandsDown (token : String) : Bool := token.toList.getLast? = some '+'

/-- What follows a prefix of a token's body. -/
def bodyAfter (start body : String) : Option String :=
  (start.toList.isPrefixOf? body.toList).map String.ofList

namespace ProjectDAG

variable (dag : ProjectDAG)

/-- `self.predecessors`. -/
def predecessors (name : String) : List String :=
  (dag.model? name).elim [] predecessorsOf

/-- `_bfs(name, self.predecessors)`. -/
def ancestors (name : String) : List String := reachableFrom dag.predecessors dag.nodes name

/-- `required_sources`, or the text of its `SelectionError`. -/
def requiredSources (modelNames : List String) : Except String (List String) := do
  let required ← modelNames.mapM fun name =>
    if name ∉ dag.nodes then
      .error ("Unknown selected model '" ++ name ++ "'. Known nodes: " ++ nodeList dag.nodes)
    else .ok ((dag.ancestors name).filter (· ∈ dag.sources))
  return dag.sorted.filter (· ∈ required.flatten)

end ProjectDAG

namespace SelectableDAG

variable (dag : SelectableDAG) (modified : Option (List String))

/-- The seeds of a token's body, or the text of its `SelectionError`. -/
def seedsOf (token body : String) : Except String (List String) :=
  if body = "" then .error ("Empty selector token in '" ++ token ++ "'")
  else if body = "state:modified" then
    match modified with
    | none => .error ("Selector 'state:modified' requires a previous manifest; " ++
        "pass --state <path-to-manifest-or-its-directory>.")
    | some names => .ok (names.filter (· ∈ dag.nodes))
  else if (bodyAfter "state:" body).isSome then
    .error ("Unknown state selector '" ++ body ++ "'. Supported: state:modified")
  else match bodyAfter "tag:" body with
    | some tag =>
      if tag = "" then .error ("Empty tag in selector '" ++ token ++ "'")
      else .ok (dag.nodes.filter fun n => tag ∈ dag.tags n)
    | none =>
      if body ∉ dag.nodes then
        .error ("Unknown selector '" ++ body ++ "'. Known nodes: " ++ nodeList dag.nodes)
      else .ok [body]

/-- `_expand_token`. -/
def expandToken (token : String) : Except String (List String) := do
  let seeds ← dag.seedsOf modified token (stripPlus token)
  return seeds ++ seeds.flatMap fun seed =>
    (if expandsUp token then dag.ancestors seed else []) ++
      if expandsDown token then dag.descendants seed else []

/-- `_apply`. -/
def applySelector (expression : String) : Except String (List String) := do
  let expanded ← (Text.splitWords expression).mapM (dag.expandToken modified)
  return expanded.flatten

/-- The nodes of an expression, or those without one. An empty expression is none. -/
def nodesOf (expression : Option String) (otherwise : List String) :
    Except String (List String) :=
  match expression with
  | none => .ok otherwise
  | some expression =>
    if expression = "" then .ok otherwise else dag.applySelector modified expression

/-- `select_models`, or the text of its `SelectionError`. -/
def selectModels (select exclude : Option String) : Except String (List String) := do
  let selected ← dag.nodesOf modified select dag.nodes
  let excluded ← dag.nodesOf modified exclude []
  return dag.toProjectDAG.selectModels fun name => name ∈ selected ∧ name ∉ excluded

end SelectableDAG

/-! ### Paths -/

namespace ProjectDAG

variable {dag : ProjectDAG}

theorem model?_eq_some {name : String} {model : ModelConfig} :
    dag.model? name = some model ↔ model ∈ dag.models ∧ model.name = name := by
  have hnodup : (dag.models.map ModelConfig.name).Nodup := (List.nodup_append.mp dag.nodup).2.1
  constructor
  · intro h
    exact ⟨List.mem_of_find?_eq_some h, by simpa using List.find?_some h⟩
  · rintro ⟨hmodel, rfl⟩
    cases hfind : dag.model? model.name with
    | none => simpa using List.find?_eq_none.mp hfind model hmodel
    | some other =>
      have hother : other.name = model.name := by simpa using List.find?_some hfind
      rw [List.inj_on_of_nodup_map hnodup (List.mem_of_find?_eq_some hfind) hmodel hother]

/-- The predecessors of a node are the nodes it succeeds. -/
theorem mem_predecessors {p name : String} :
    p ∈ dag.predecessors name ↔ name ∈ dag.successors p := by
  rw [successors, mem_successorsIn, predecessors]
  constructor
  · intro h
    cases hmodel : dag.model? name with
    | none =>
      rw [hmodel] at h
      cases h
    | some model =>
      rw [hmodel] at h
      exact ⟨model, (model?_eq_some.mp hmodel).1, h, (model?_eq_some.mp hmodel).2⟩
  · rintro ⟨model, hmodel, hp, rfl⟩
    rw [model?_eq_some.mpr ⟨hmodel, rfl⟩]
    exact hp

theorem mem_nodes_of_predecessor {p name : String} (h : p ∈ dag.predecessors name) :
    p ∈ dag.nodes := by
  obtain ⟨model, hmodel, hp, -⟩ := mem_successorsIn.mp (mem_predecessors.mp h)
  exact dag.known model hmodel p hp

/-- The ancestors are the nodes from which there is a path. -/
theorem mem_ancestors {name a : String} (hname : name ∈ dag.nodes) :
    a ∈ dag.ancestors name ↔ dag.Ancestor a name := by
  rw [ancestors, mem_reachableFrom (fun _ _ _ hw => mem_nodes_of_predecessor hw) hname, Ancestor,
    ← Relation.transGen_swap]
  have hswap : (fun v w => w ∈ dag.predecessors v) =
      Function.swap fun v w => w ∈ dag.successors v := by
    funext v w
    exact propext mem_predecessors
  rw [hswap]

/-- A path leads from and to nodes. -/
theorem Ancestor.mem_nodes {a b : String} (h : dag.Ancestor a b) : a ∈ dag.nodes ∧ b ∈ dag.nodes := by
  have hleft : ∀ {v w : String}, w ∈ dag.successors v → v ∈ dag.nodes := fun hw =>
    mem_nodes_of_predecessor (mem_predecessors.mpr hw)
  induction h with
  | single h => exact ⟨hleft h, mem_nodes_of_successor h⟩
  | tail _ h ih => exact ⟨ih.1, mem_nodes_of_successor h⟩

end ProjectDAG

/-! ### Tokens -/

namespace SelectableDAG

/-- The nodes that the body of a token names. -/
inductive IsSeed (dag : SelectableDAG) (modified : Option (List String)) : String → String → Prop
  | modified {names : List String} {seed : String} (h : modified = some names)
      (hnames : seed ∈ names) (hseed : seed ∈ dag.nodes) : IsSeed dag modified "state:modified" seed
  | tag {tag seed : String} (hseed : seed ∈ dag.nodes) (htag : tag ∈ dag.tags seed) :
      IsSeed dag modified ("tag:" ++ tag) seed
  | name {name : String} (hname : name ∈ dag.nodes) (hstate : ∀ rest, name ≠ "state:" ++ rest)
      (htag : ∀ rest, name ≠ "tag:" ++ rest) : IsSeed dag modified name name

/-- A token denotes its seeds, before a `+` the nodes with a path to one of them, and behind it
the nodes to which one of them has a path. -/
def Denotes (dag : SelectableDAG) (modified : Option (List String)) (token name : String) : Prop :=
  ∃ seed, IsSeed dag modified (stripPlus token) seed ∧
    (name = seed ∨ expandsUp token = true ∧ dag.Ancestor name seed ∨
      expandsDown token = true ∧ dag.Ancestor seed name)

/-- The body of a token is a node, a tag, or `state:modified` with a manifest. -/
def ValidBody (dag : SelectableDAG) (modified : Option (List String)) (body : String) : Prop :=
  (body = "state:modified" ∧ modified.isSome = true) ∨ (∃ tag, tag ≠ "" ∧ body = "tag:" ++ tag) ∨
    (body ≠ "" ∧ body ∈ dag.nodes ∧ (∀ rest, body ≠ "state:" ++ rest) ∧
      ∀ rest, body ≠ "tag:" ++ rest)

variable {dag : SelectableDAG} {modified : Option (List String)}

theorem bodyAfter_eq_some {start body rest : String} :
    bodyAfter start body = some rest ↔ body = start ++ rest := by
  rw [bodyAfter, Option.map_eq_some_iff]
  constructor
  · rintro ⟨chars, hchars, rfl⟩
    apply String.toList_inj.mp
    rw [String.toList_append, String.toList_ofList]
    exact (List.isPrefixOf?_eq_some_iff_append_eq.mp hchars).symm
  · rintro rfl
    refine ⟨rest.toList, ?_, String.ofList_toList⟩
    rw [String.toList_append]
    exact List.isPrefixOf?_eq_some_iff_append_eq.mpr rfl

theorem bodyAfter_eq_none {start body : String} :
    bodyAfter start body = none ↔ ∀ rest, body ≠ start ++ rest := by
  constructor
  · intro h rest hbody
    rw [bodyAfter_eq_some.mpr hbody] at h
    cases h
  · intro h
    cases hafter : bodyAfter start body with
    | none => rfl
    | some rest => exact absurd (bodyAfter_eq_some.mp hafter) (h rest)

theorem head?_tag (tag : String) : ("tag:" ++ tag).toList.head? = some 't' := by
  rw [String.toList_append]
  rfl

theorem tag_ne_state (tag rest : String) : "tag:" ++ tag ≠ "state:" ++ rest := by
  intro h
  have hstate : ("state:" ++ rest).toList.head? = some 's' := by
    rw [String.toList_append]
    rfl
  rw [← h, head?_tag] at hstate
  exact absurd hstate (by decide)

theorem tag_ne_empty (tag : String) : "" ≠ "tag:" ++ tag := by
  intro h
  have hhead := head?_tag tag
  rw [← h] at hhead
  cases hhead

theorem tag_inj {tag tag' : String} (h : "tag:" ++ tag = "tag:" ++ tag') : tag = tag' :=
  Option.some.inj ((bodyAfter_eq_some.mpr rfl).symm.trans (bodyAfter_eq_some.mpr h))

/-- The seeds of a body, by what the body is. -/
theorem seedsOf_cases (token body : String) :
    (body = "state:modified" ∧ ∃ names, modified = some names ∧
      dag.seedsOf modified token body = .ok (names.filter (· ∈ dag.nodes))) ∨
    (∃ tag, tag ≠ "" ∧ body = "tag:" ++ tag ∧
      dag.seedsOf modified token body = .ok (dag.nodes.filter fun n => tag ∈ dag.tags n)) ∨
    (body ≠ "" ∧ body ∈ dag.nodes ∧ (∀ rest, body ≠ "state:" ++ rest) ∧
      (∀ rest, body ≠ "tag:" ++ rest) ∧ dag.seedsOf modified token body = .ok [body]) ∨
    (¬ ValidBody dag modified body ∧
      ∃ message, dag.seedsOf modified token body = .error message) := by
  unfold seedsOf
  by_cases hempty : body = ""
  · rw [if_pos hempty]
    refine .inr (.inr (.inr ⟨?_, _, rfl⟩))
    rintro (⟨hbody, -⟩ | ⟨tag, -, hbody⟩ | ⟨hne, -⟩)
    · exact absurd (hempty.symm.trans hbody) (by decide)
    · exact tag_ne_empty tag (hempty.symm.trans hbody)
    · exact hne hempty
  rw [if_neg hempty]
  by_cases hmodified : body = "state:modified"
  · rw [if_pos hmodified]
    cases modified with
    | some names => exact .inl ⟨hmodified, names, rfl, rfl⟩
    | none =>
      refine .inr (.inr (.inr ⟨?_, _, rfl⟩))
      rintro (⟨-, hsome⟩ | ⟨tag, -, hbody⟩ | ⟨-, -, hstate, -⟩)
      · cases hsome
      · exact tag_ne_state tag "modified" (hbody.symm.trans hmodified)
      · exact hstate "modified" hmodified
  rw [if_neg hmodified]
  cases hstate : bodyAfter "state:" body with
  | some rest =>
    rw [if_pos Option.isSome_some]
    have hbody := bodyAfter_eq_some.mp hstate
    refine .inr (.inr (.inr ⟨?_, _, rfl⟩))
    rintro (⟨hsame, -⟩ | ⟨tag, -, htag⟩ | ⟨-, -, hnone, -⟩)
    · exact hmodified hsame
    · exact tag_ne_state tag rest (htag.symm.trans hbody)
    · exact hnone rest hbody
  | none =>
    rw [if_neg (by simp)]
    cases htag : bodyAfter "tag:" body with
    | some tag =>
      have hbody := bodyAfter_eq_some.mp htag
      dsimp only
      by_cases hnone : tag = ""
      · rw [if_pos hnone]
        refine .inr (.inr (.inr ⟨?_, _, rfl⟩))
        rintro (⟨hsame, -⟩ | ⟨tag', hne, hsame⟩ | ⟨-, -, -, hother⟩)
        · exact hmodified hsame
        · exact hne ((tag_inj (hbody.symm.trans hsame)).symm.trans hnone)
        · exact hother tag hbody
      · rw [if_neg hnone]
        exact .inr (.inl ⟨tag, hnone, hbody, rfl⟩)
    | none =>
      dsimp only
      by_cases hnode : body ∈ dag.nodes
      · rw [if_neg (not_not.mpr hnode)]
        exact .inr (.inr (.inl ⟨hempty, hnode, bodyAfter_eq_none.mp hstate,
          bodyAfter_eq_none.mp htag, rfl⟩))
      · rw [if_pos hnode]
        refine .inr (.inr (.inr ⟨?_, _, rfl⟩))
        rintro (⟨hsame, -⟩ | ⟨tag, -, hsame⟩ | ⟨-, hmem, -⟩)
        · exact hmodified hsame
        · exact bodyAfter_eq_none.mp htag tag hsame
        · exact hnode hmem

/-- The seeds are those that the body names. -/
theorem mem_seedsOf {token body : String} {seeds : List String}
    (h : dag.seedsOf modified token body = .ok seeds) (seed : String) :
    seed ∈ seeds ↔ IsSeed dag modified body seed := by
  have hmodified : ∀ rest, "state:modified" ≠ "tag:" ++ rest := fun rest heq =>
    tag_ne_state rest "modified" heq.symm
  rcases @seedsOf_cases dag modified token body with ⟨rfl, names, hnames, hok⟩ |
    ⟨tag, -, rfl, hok⟩ | ⟨-, hnode, hstate, htag, hok⟩ | ⟨-, message, herror⟩
  · obtain rfl := Except.ok.inj (hok.symm.trans h)
    rw [List.mem_filter, decide_eq_true_eq]
    constructor
    · rintro ⟨hseed, hnode⟩
      exact .modified hnames hseed hnode
    · intro hseed
      generalize hbody : "state:modified" = body at hseed
      cases hseed with
      | modified hsome hseed hnode =>
        obtain rfl := Option.some.inj (hnames.symm.trans hsome)
        exact ⟨hseed, hnode⟩
      | tag _ _ => exact absurd hbody (hmodified _)
      | name _ hstate _ => exact absurd hbody.symm (hstate "modified")
  · obtain rfl := Except.ok.inj (hok.symm.trans h)
    rw [List.mem_filter, decide_eq_true_eq]
    constructor
    · rintro ⟨hnode, htag⟩
      exact .tag hnode htag
    · intro hseed
      generalize hbody : "tag:" ++ tag = body at hseed
      cases hseed with
      | modified _ _ _ => exact absurd hbody (tag_ne_state tag "modified")
      | tag hnode htag =>
        obtain rfl := tag_inj hbody
        exact ⟨hnode, htag⟩
      | name _ _ htag => exact absurd hbody.symm (htag tag)
  · obtain rfl := Except.ok.inj (hok.symm.trans h)
    rw [List.mem_singleton]
    constructor
    · rintro rfl
      exact .name hnode hstate htag
    · intro hseed
      cases hseed with
      | modified _ _ _ => exact absurd rfl (hstate "modified")
      | tag _ _ => exact absurd rfl (htag _)
      | name _ _ _ => rfl
  · rw [herror] at h
    cases h

/-- The seeds exist exactly for a valid body. -/
theorem seedsOf_isOk {token body : String} :
    (∃ seeds, dag.seedsOf modified token body = .ok seeds) ↔ ValidBody dag modified body := by
  rcases @seedsOf_cases dag modified token body with ⟨hbody, names, hnames, hok⟩ |
    ⟨tag, htag, hbody, hok⟩ | ⟨hempty, hnode, hstate, htag, hok⟩ | ⟨hinvalid, message, herror⟩
  · exact iff_of_true ⟨_, hok⟩ (.inl ⟨hbody, by rw [hnames]; rfl⟩)
  · exact iff_of_true ⟨_, hok⟩ (.inr (.inl ⟨tag, htag, hbody⟩))
  · exact iff_of_true ⟨_, hok⟩ (.inr (.inr ⟨hempty, hnode, hstate, htag⟩))
  · refine iff_of_false ?_ hinvalid
    rintro ⟨seeds, hok⟩
    rw [herror] at hok
    cases hok

/-- A seed is a node. -/
theorem IsSeed.mem_nodes {body seed : String} (h : IsSeed dag modified body seed) :
    seed ∈ dag.nodes := by
  cases h with
  | modified _ _ hseed => exact hseed
  | tag hseed _ => exact hseed
  | name hname _ _ => exact hname

/-- The nodes of a token. -/
theorem mem_expandToken {token : String} {names : List String}
    (h : dag.expandToken modified token = .ok names) (n : String) :
    n ∈ names ↔ Denotes dag modified token n := by
  obtain ⟨seeds, hseeds, hnames⟩ := bind_eq_ok.mp h
  obtain rfl := Except.ok.inj hnames
  have hclosure : ∀ seed ∈ seeds, n ∈ (if expandsUp token then dag.ancestors seed else []) ++
      (if expandsDown token then dag.descendants seed else []) ↔
      expandsUp token = true ∧ dag.Ancestor n seed ∨
        expandsDown token = true ∧ dag.Ancestor seed n := by
    intro seed hseed
    have hnode := ((mem_seedsOf hseeds seed).mp hseed).mem_nodes
    have hup : n ∈ (if expandsUp token then dag.ancestors seed else []) ↔
        expandsUp token = true ∧ dag.Ancestor n seed := by
      by_cases hplus : expandsUp token = true
      · rw [if_pos hplus, ProjectDAG.mem_ancestors hnode]
        exact ⟨fun hpath => ⟨hplus, hpath⟩, And.right⟩
      · rw [if_neg hplus]
        exact iff_of_false List.not_mem_nil fun hboth => hplus hboth.1
    have hdown : n ∈ (if expandsDown token then dag.descendants seed else []) ↔
        expandsDown token = true ∧ dag.Ancestor seed n := by
      by_cases hplus : expandsDown token = true
      · rw [if_pos hplus, ProjectDAG.mem_descendants hnode]
        exact ⟨fun hpath => ⟨hplus, hpath⟩, And.right⟩
      · rw [if_neg hplus]
        exact iff_of_false List.not_mem_nil fun hboth => hplus hboth.1
    rw [List.mem_append, hup, hdown]
  rw [List.mem_append, List.mem_flatMap]
  constructor
  · rintro (hseed | ⟨seed, hseed, hn⟩)
    · exact ⟨n, (mem_seedsOf hseeds n).mp hseed, .inl rfl⟩
    · exact ⟨seed, (mem_seedsOf hseeds seed).mp hseed, .inr ((hclosure seed hseed).mp hn)⟩
  · rintro ⟨seed, hseed, rfl | hpath⟩
    · exact .inl ((mem_seedsOf hseeds n).mpr hseed)
    · have hmem := (mem_seedsOf hseeds seed).mpr hseed
      exact .inr ⟨seed, hmem, (hclosure seed hmem).mpr hpath⟩

theorem expandToken_isOk {token : String} :
    (∃ names, dag.expandToken modified token = .ok names) ↔
      ValidBody dag modified (stripPlus token) := by
  rw [← seedsOf_isOk]
  constructor
  · rintro ⟨names, h⟩
    obtain ⟨seeds, hseeds, -⟩ := bind_eq_ok.mp h
    exact ⟨seeds, hseeds⟩
  · rintro ⟨seeds, hseeds⟩
    exact ⟨_, bind_eq_ok.mpr ⟨seeds, hseeds, rfl⟩⟩

/-! ### Expressions -/

/-- The tokens of an expression. -/
def tokensOf (expression : Option String) : List String := Text.splitWords (expression.getD "")

theorem applySelector_eq_ok {expression : String} {names : List String}
    (h : dag.applySelector modified expression = .ok names) (n : String) :
    n ∈ names ↔ ∃ token ∈ Text.splitWords expression, Denotes dag modified token n := by
  obtain ⟨expanded, hexpanded, hnames⟩ := bind_eq_ok.mp h
  obtain rfl := Except.ok.inj hnames
  have htokens := mapM_eq_ok.mp hexpanded
  rw [List.mem_flatten]
  constructor
  · rintro ⟨nodes, hnodes, hn⟩
    obtain ⟨token, htoken, hexpand⟩ := exists_of_mem_right htokens hnodes
    exact ⟨token, htoken, (mem_expandToken hexpand n).mp hn⟩
  · rintro ⟨token, htoken, hdenotes⟩
    obtain ⟨nodes, hnodes, hexpand⟩ := exists_of_mem_right htokens.flip htoken
    exact ⟨nodes, hnodes, (mem_expandToken hexpand n).mpr hdenotes⟩

theorem applySelector_isOk {expression : String} :
    (∃ names, dag.applySelector modified expression = .ok names) ↔
      ∀ token ∈ Text.splitWords expression, ValidBody dag modified (stripPlus token) := by
  constructor
  · rintro ⟨names, h⟩ token htoken
    obtain ⟨expanded, hexpanded, -⟩ := bind_eq_ok.mp h
    obtain ⟨nodes, -, hexpand⟩ := exists_of_mem_right (mapM_eq_ok.mp hexpanded).flip htoken
    exact expandToken_isOk.mp ⟨nodes, hexpand⟩
  · intro h
    obtain ⟨expanded, hexpanded⟩ := exists_mapM_eq_ok fun token htoken =>
      expandToken_isOk.mpr (h token htoken)
    exact ⟨_, bind_eq_ok.mpr ⟨expanded, hexpanded, rfl⟩⟩

/-- The nodes of an expression are those of its tokens, or the given ones without an expression. -/
theorem mem_nodesOf {expression : Option String} {otherwise names : List String}
    (h : dag.nodesOf modified expression otherwise = .ok names) (n : String) :
    n ∈ names ↔ expression.getD "" = "" ∧ n ∈ otherwise ∨
      ∃ token ∈ tokensOf expression, Denotes dag modified token n := by
  have hnone : ∀ {names : List String}, Except.ok otherwise = (.ok names : Except String _) →
      (n ∈ names ↔ ("" = "" ∧ n ∈ otherwise ∨
        ∃ token ∈ Text.splitWords "", Denotes dag modified token n)) := by
    intro names hok
    obtain rfl := Except.ok.inj hok
    have hwords : Text.splitWords "" = [] := by decide
    rw [hwords]
    simp
  cases expression with
  | none => exact hnone h
  | some expression =>
    rw [nodesOf] at h
    by_cases hempty : expression = ""
    · rw [if_pos hempty] at h
      subst hempty
      exact hnone h
    · rw [if_neg hempty] at h
      rw [applySelector_eq_ok h n]
      exact ⟨.inr, fun hor => hor.resolve_left fun hboth => hempty hboth.1⟩

theorem nodesOf_isOk {expression : Option String} {otherwise : List String} :
    (∃ names, dag.nodesOf modified expression otherwise = .ok names) ↔
      ∀ token ∈ tokensOf expression, ValidBody dag modified (stripPlus token) := by
  have hwords : Text.splitWords "" = [] := by decide
  cases expression with
  | none =>
    refine iff_of_true ⟨_, rfl⟩ fun token htoken => ?_
    rw [tokensOf, Option.getD_none, hwords] at htoken
    cases htoken
  | some expression =>
    rw [nodesOf]
    by_cases hempty : expression = ""
    · rw [if_pos hempty]
      refine iff_of_true ⟨_, rfl⟩ fun token htoken => ?_
      rw [tokensOf, Option.getD_some, hempty, hwords] at htoken
      cases htoken
    · rw [if_neg hempty]
      exact applySelector_isOk

/-! ### The selection -/

/-- The sources that some nodes require, in graph order. -/
theorem requiredSources_eq_ok {modelNames : List String} (h : ∀ n ∈ modelNames, n ∈ dag.nodes) :
    ∃ sources, dag.requiredSources modelNames = .ok sources ∧ sources.Sublist dag.sorted ∧
      ∀ s, s ∈ sources ↔ s ∈ dag.sources ∧ ∃ n ∈ modelNames, dag.Ancestor s n := by
  have hrequired : modelNames.mapM (fun name =>
      if name ∉ dag.nodes then
        .error ("Unknown selected model '" ++ name ++ "'. Known nodes: " ++ nodeList dag.nodes)
      else .ok ((dag.ancestors name).filter (· ∈ dag.sources)) : String → Except String (List String)) =
      .ok (modelNames.map fun name => (dag.ancestors name).filter (· ∈ dag.sources)) := by
    refine mapM_eq_ok.mpr (List.forall₂_map_right_iff.mpr (List.forall₂_same.mpr fun n hn => ?_))
    exact if_neg (not_not.mpr (h n hn))
  refine ⟨_, bind_eq_ok.mpr ⟨_, hrequired, rfl⟩, List.filter_sublist, fun s => ?_⟩
  rw [List.mem_filter, decide_eq_true_eq, List.mem_flatten]
  constructor
  · rintro ⟨-, required, hmem, hs⟩
    obtain ⟨n, hn, rfl⟩ := List.mem_map.mp hmem
    obtain ⟨hancestor, hsource⟩ := List.mem_filter.mp hs
    exact ⟨by simpa using hsource, n, hn, (ProjectDAG.mem_ancestors (h n hn)).mp hancestor⟩
  · rintro ⟨hsource, n, hn, hpath⟩
    refine ⟨dag.sorted_perm.mem_iff.mpr hpath.mem_nodes.1, _, List.mem_map_of_mem hn, ?_⟩
    exact List.mem_filter.mpr ⟨(ProjectDAG.mem_ancestors (h n hn)).mpr hpath, by simpa using hsource⟩

/-- What a selection returns: models in topological order without repetition, those of some select
token and of no exclude token, where a missing or empty select expression stands for every node. The
sources that they require are those with a path to one of them. -/
structure IsClosure (dag : SelectableDAG) (modified : Option (List String))
    (select exclude : Option String) (names : List String) : Prop where
  nodup : names.Nodup
  sublist : names.Sublist dag.sorted
  topological : names.Pairwise fun a b => ¬ dag.Ancestor b a
  members : ∀ n, n ∈ names ↔ n ∈ dag.models.map ModelConfig.name ∧
    (select.getD "" = "" ∨ ∃ token ∈ tokensOf select, Denotes dag modified token n) ∧
      ∀ token ∈ tokensOf exclude, ¬ Denotes dag modified token n
  sources : ∃ sources, dag.requiredSources names = .ok sources ∧ sources.Sublist dag.sorted ∧
    ∀ s, s ∈ sources ↔ s ∈ dag.sources ∧ ∃ n ∈ names, dag.Ancestor s n

/-- A selection is the closure of its tokens, and it exists exactly if every token is valid. -/
theorem selectModels_closure (dag : SelectableDAG) (modified : Option (List String))
    (select exclude : Option String) :
    ((∃ names, dag.selectModels modified select exclude = .ok names) ↔
      ∀ token ∈ tokensOf select ++ tokensOf exclude, ValidBody dag modified (stripPlus token)) ∧
    ∀ names, dag.selectModels modified select exclude = .ok names →
      IsClosure dag modified select exclude names := by
  refine ⟨?_, fun names h => ?_⟩
  · have hparts : (∃ names, dag.selectModels modified select exclude = .ok names) ↔
        (∃ selected, dag.nodesOf modified select dag.nodes = .ok selected) ∧
          ∃ excluded, dag.nodesOf modified exclude [] = .ok excluded := by
      constructor
      · rintro ⟨names, h⟩
        obtain ⟨selected, hselected, h⟩ := bind_eq_ok.mp h
        obtain ⟨excluded, hexcluded, -⟩ := bind_eq_ok.mp h
        exact ⟨⟨selected, hselected⟩, excluded, hexcluded⟩
      · rintro ⟨⟨selected, hselected⟩, excluded, hexcluded⟩
        exact ⟨_, bind_eq_ok.mpr ⟨selected, hselected, bind_eq_ok.mpr ⟨excluded, hexcluded, rfl⟩⟩⟩
    rw [hparts, nodesOf_isOk, nodesOf_isOk, List.forall_mem_append]
  · obtain ⟨selected, hselected, h⟩ := bind_eq_ok.mp h
    obtain ⟨excluded, hexcluded, h⟩ := bind_eq_ok.mp h
    obtain rfl := Except.ok.inj h
    refine ⟨ProjectDAG.selectModels_nodup _, ProjectDAG.selectModels_sublist _, ?_, fun n => ?_,
      requiredSources_eq_ok fun n hn => ProjectDAG.mem_nodes_of_selected hn⟩
    · refine (ProjectDAG.pairwise_idxOf _).imp fun hlt hpath => ?_
      exact absurd hpath.idxOf_lt hlt.asymm
    · have hnode : n ∈ dag.models.map ModelConfig.name → n ∈ dag.nodes := fun hn =>
        List.mem_append_right _ hn
      have hsorted : n ∈ dag.models.map ModelConfig.name → n ∈ dag.sorted := fun hn =>
        dag.sorted_perm.mem_iff.mpr (hnode hn)
      have hin := mem_nodesOf hselected n
      have hout := mem_nodesOf hexcluded n
      rw [ProjectDAG.selectModels, List.mem_filter, decide_eq_true_eq, decide_eq_true_eq, hin, hout]
      constructor
      · rintro ⟨-, ⟨hchosen, hnot⟩, hmodel⟩
        refine ⟨hmodel, hchosen.imp And.left id, fun token htoken hdenotes => ?_⟩
        exact hnot (.inr ⟨token, htoken, hdenotes⟩)
      · rintro ⟨hmodel, hchosen, hnot⟩
        refine ⟨hsorted hmodel, ⟨hchosen.imp (fun hempty => ⟨hempty, hnode hmodel⟩) id, ?_⟩, hmodel⟩
        rintro (⟨-, hnone⟩ | ⟨token, htoken, hdenotes⟩)
        · cases hnone
        · exact hnot token htoken hdenotes

/-- A project whose models are a chunk model, its embeddings, and notes that are tagged. -/
def notesProject : SelectableDAG where
  sources := ["docs"]
  models := [⟨"chunks", "incremental", some "docs", [], [], [], false⟩,
    ⟨"vectors", "incremental", none, ["ref('chunks')"], [], [], false⟩,
    ⟨"notes", "full", some "docs", [], [], [], false⟩]
  sorted := ["docs", "chunks", "vectors", "notes"]
  nodup := by decide
  known := by decide +kernel
  sorted_perm := .refl _
  sorted_lt := idxOf_lt_of_models (by decide +kernel)
  tags name := if name = "notes" then ["nightly"] else []

theorem selectModels_closure_notes :
    notesProject.selectModels none (some "+vectors tag:nightly") (some "chunks") =
        .ok ["vectors", "notes"] ∧
      IsClosure notesProject none (some "+vectors tag:nightly") (some "chunks")
        ["vectors", "notes"] := by
  have hselect : notesProject.selectModels none (some "+vectors tag:nightly") (some "chunks") =
      .ok ["vectors", "notes"] := by decide +kernel
  exact ⟨hselect, (selectModels_closure _ _ _ _).2 _ hselect⟩

/-- An empty select expression has no token, and every model is returned. -/
theorem empty_select_returns_models :
    ¬ ∀ (dag : SelectableDAG) (modified : Option (List String)) (select exclude : Option String)
      (names : List String), dag.selectModels modified select exclude = .ok names →
      ∀ n, n ∈ names ↔ n ∈ dag.models.map ModelConfig.name ∧
        (∃ token ∈ tokensOf select, Denotes dag modified token n) ∧
          ∀ token ∈ tokensOf exclude, ¬ Denotes dag modified token n := by
  intro h
  have hselect : notesProject.selectModels none (some "") none =
      .ok ["chunks", "vectors", "notes"] := by decide +kernel
  obtain ⟨-, ⟨token, htoken, -⟩, -⟩ := (h _ _ _ _ _ hselect "chunks").mp (by decide)
  have hwords : tokensOf (some "") = [] := by decide
  rw [hwords] at htoken
  cases htoken

end SelectableDAG

end Stel
