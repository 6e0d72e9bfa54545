import Stel.Dag
import Stel.Data.Words

/-!
# Structured HTML

`_render_structured` of `backends/html_backend.py`: one walk over a tree emits the text and records the
headings and tables with their offsets into it. At the end, the line breaks after the text are stripped.

A table is rendered as the cells of its rows, so what it holds outside of them is not in the text.

## Main definitions

* `renderStructured`.
* `itemsOf`: what a walk emits, in the order of the document.
* `keptWordsOf`: the words of a document that are rendered.

## Main results

* `walk_eq_foldl`: the walk emits the items.
* `sublist_words_itemsOf`: the items of a document have its words.
-/

namespace Stel.Html

open Text

/-! ### Trees -/

/-- A node of a parsed document: a text, a CDATA section, other markup that is no element, or an element with
its `id()`. -/
inductive Node
  | text (s : String)
  | cdata (s : String)
  | markup (s : String)
  | tag (identity : ℕ) (name : String) (attributes : List (String × String)) (children : List Node)

/-- `_HEADING_TAGS`. -/
def headingTags : List (String × ℕ) := [("h1", 1), ("h2", 2), ("h3", 3), ("h4", 4), ("h5", 5), ("h6", 6)]

/-- `_BLOCK_TAGS`. -/
def blockTags : List String :=
  ["p", "div", "section", "article", "li", "tr", "br", "hr", "blockquote", "pre", "ul", "ol", "dl", "dt",
    "dd"]

/-- The elements that the walk leaves out. -/
def skippedTags : List String := ["script", "style", "head", "template"]

/-- The elements whose strings `get_text` leaves out. -/
def hiddenTags : List String := ["script", "style", "template"]

/-- `node.children`. -/
def Node.children : Node → List Node
  | .tag _ _ _ children => children
  | _ => []

/-- The node is an element with one of the names. -/
def Node.hasName (names : List String) : Node → Bool
  | .tag _ name _ _ => names.contains name
  | _ => false

/-- `node.get`. -/
def Node.attribute (key : String) : Node → Option String
  | .tag _ _ attributes _ => attributes.lookup key
  | _ => none

mutual

/-- The nodes within a node, in the order of the document. -/
def Node.descendants : Node → List Node
  | .tag _ _ _ children => nodesWithin children
  | _ => []

def nodesWithin : List Node → List Node
  | [] => []
  | node :: rest => node :: (node.descendants ++ nodesWithin rest)

end

mutual

/-- The visible strings of a node. -/
def Node.visibleTexts : Node → List String
  | .text s => [s]
  | .cdata s => [s]
  | .markup _ => []
  | .tag _ name _ children => if hiddenTags.contains name then [] else textsOf children

def textsOf : List Node → List String
  | [] => []
  | node :: rest => node.visibleTexts ++ textsOf rest

end

/-- `node.get_text(" ", strip=True)`. -/
def Node.getText (node : Node) : String :=
  " ".intercalate (((textsOf node.children).map stripText).filter (· ≠ ""))

/-- The text of a node, with single spaces. -/
def Node.plainText (node : Node) : String := " ".intercalate (splitWords node.getText)

/-- `_anchor_of`. -/
def Node.anchor (node : Node) : Option String :=
  let own := node.attribute "id"
  let found := if (own.getD "") ≠ "" then own
    else
      let links := node.descendants.filter (Node.hasName ["a"])
      match (links.find? fun a => (a.attribute "id").isSome).or
        (links.find? fun a => (a.attribute "name").isSome) with
      | none => own
      | some a => if ((a.attribute "id").getD "") ≠ "" then a.attribute "id" else a.attribute "name"
  found.filter (· ≠ "")

/-- The cells of a table, by its rows that are not empty. -/
def Node.cells (table : Node) : List (List String) :=
  ((table.descendants.filter (Node.hasName ["tr"])).map fun tr =>
    (tr.descendants.filter (Node.hasName ["td", "th"])).map Node.plainText).filter fun row =>
      row.any (· ≠ "")

/-! ### The rendering -/

/-- An entry of `sections`. -/
structure Section where
  level : ℕ
  heading : String
  charStart : ℕ
  source : String
  anchor : Option String
  deriving DecidableEq

/-- An entry of `tables`. -/
structure Table where
  index : ℕ
  charStart : ℕ
  nRows : ℕ
  nCols : ℕ
  cells : List (List String)
  deriving DecidableEq

/-- The variables of the walk, with the parts of the text, the last one first. -/
structure Render where
  parts : List String := []
  length : ℕ := 0
  sections : List Section := []
  tables : List Table := []

/-- `emit`. -/
def Render.emit (r : Render) (text : String) : Render :=
  if text = "" then r else { r with parts := text :: r.parts, length := r.length + text.length }

/-- There is a last part, and it does not end in one of the characters. -/
def Render.endsOutside (r : Render) (chars : List Char) : Bool :=
  r.parts.head?.any fun last => last.toList.getLast?.all fun c => !chars.contains c

/-- `newline`. -/
def Render.newline (r : Render) : Render := if r.endsOutside ['\n'] then r.emit "\n" else r

/-- What the walk does at a text. -/
def Render.emitText (r : Render) (s : String) : Render :=
  let text := " ".intercalate (splitWords s)
  if text = "" then r
  else (if r.endsOutside ['\n', ' '] then r.emit " " else r).emit text

/-- `emit_heading`. -/
def Render.emitHeading (r : Render) (level : ℕ) (source heading : String) (anchor : Option String) :
    Render :=
  let r := r.newline
  if heading = "" then r
  else
    let entry : Section := ⟨level, heading, r.length, source, anchor⟩
    Render.newline (Render.emit { r with sections := r.sections ++ [entry] } heading)

/-- The text of a table. -/
def renderCells (cells : List (List String)) : String := "\n".intercalate (cells.map (" | ".intercalate))

/-- What the walk does at a table. -/
def Render.emitTable (r : Render) (cells : List (List String)) : Render :=
  let r := r.newline
  let entry : Table :=
    ⟨r.tables.length, r.length, cells.length, (cells.map List.length).foldl max 0, cells⟩
  Render.newline (Render.emit { r with tables := r.tables ++ [entry] } (renderCells cells))

section Walk

variable (headingMap : ℕ → Option (ℕ × String))

/-- The level and the source of an element that is a heading. -/
def headingOf (identity : ℕ) (name : String) : Option (ℕ × String) :=
  (headingMap identity).or ((headingTags.lookup name).map fun level => (level, "tag"))

mutual

/-- One step of `walk`. -/
def walkChild (r : Render) : Node → Render
  | .cdata _ => r
  | .markup _ => r
  | .text s => r.emitText s
  | .tag identity name attributes children =>
    if skippedTags.contains name then r
    else
      match headingOf headingMap identity name with
      | some (level, source) =>
        let child := Node.tag identity name attributes children
        r.emitHeading level source child.plainText child.anchor
      | none =>
        if name = "table" then r.emitTable (Node.tag identity name attributes children).cells
        else if blockTags.contains name then (walk r.newline children).newline
        else walk r children

/-- `walk`. -/
def walk (r : Render) : List Node → Render
  | [] => r
  | child :: rest => walk (walkChild r child) rest

end

/-- The text, the sections and the tables. -/
structure Rendered where
  text : String
  sections : List Section
  tables : List Table

/-- `_render_structured`. -/
def renderStructured (root : Node) : Rendered :=
  let r := walk headingMap {} root.children
  ⟨String.ofList ((String.join r.parts.reverse).toList.rdropWhile (· = '\n')), r.sections, r.tables⟩

end Walk

example : (renderStructured (fun _ => none) (.tag 0 "body" []
    [.tag 1 "h1" [] [.text "A"], .tag 2 "p" [] [.text " b  c "]])).text = "A\nb c" := by decide

/-! ### Items -/

/-- What the walk emits. -/
inductive Item
  | newline
  | text (s : String)
  | heading (level : ℕ) (source heading : String) (anchor : Option String)
  | table (cells : List (List String))

/-- The rendering of an item. -/
def Render.step (r : Render) : Item → Render
  | .newline => r.newline
  | .text s => r.emitText s
  | .heading level source heading anchor => r.emitHeading level source heading anchor
  | .table cells => r.emitTable cells

section Items

variable (headingMap : ℕ → Option (ℕ × String))

mutual

/-- The items of a node. -/
def Node.items : Node → List Item
  | .cdata _ => []
  | .markup _ => []
  | .text s => [.text s]
  | .tag identity name attributes children =>
    if skippedTags.contains name then []
    else
      match headingOf headingMap identity name with
      | some (level, source) =>
        let child := Node.tag identity name attributes children
        [.heading level source child.plainText child.anchor]
      | none =>
        if name = "table" then [.table (Node.tag identity name attributes children).cells]
        else if blockTags.contains name then .newline :: (itemsOf children ++ [.newline])
        else itemsOf children

/-- The items of the nodes of a document. -/
def itemsOf : List Node → List Item
  | [] => []
  | child :: rest => child.items ++ itemsOf rest

end

mutual

theorem walkChild_eq_foldl (r : Render) : ∀ node : Node,
    walkChild headingMap r node = (node.items headingMap).foldl Render.step r
  | .cdata _ => rfl
  | .markup _ => rfl
  | .text _ => rfl
  | .tag identity name attributes children => by
    rw [walkChild, Node.items]
    split
    · rfl
    · split
      · rfl
      · split
        · rfl
        · split
          · rw [walk_eq_foldl, List.foldl_cons, List.foldl_append]
            rfl
          · exact walk_eq_foldl r children

/-- The walk renders the items one after the other. -/
theorem walk_eq_foldl (r : Render) : ∀ nodes : List Node,
    walk headingMap r nodes = (itemsOf headingMap nodes).foldl Render.step r
  | [] => rfl
  | child :: rest => by
    rw [walk, itemsOf, List.foldl_append, ← walkChild_eq_foldl r child, walk_eq_foldl _ rest]

end

end Items

/-! ### Texts -/

theorem splitWords_stripText (s : String) : splitWords (stripText s) = splitWords s := by
  rw [splitWords_eq, stripText, String.toList_ofList, wordsOf_rdropWhile fun _ h => h, wordsOf_dropWhile,
    splitWords_eq]

/-- The text of a node has the words of its visible strings. -/
theorem splitWords_plainText (node : Node) :
    splitWords node.plainText = (textsOf node.children).flatMap splitWords := by
  rw [Node.plainText, splitWords_join, Node.getText, splitWords_intercalate]
  induction textsOf node.children with
  | nil => rfl
  | cons text texts ih =>
    rw [List.map_cons, List.filter_cons, List.flatMap_cons, ← splitWords_stripText text]
    split
    · rw [List.flatMap_cons, ih]
    · rename_i hempty
      have hnil : stripText text = "" := by simpa using hempty
      rw [hnil, ih]
      rfl

/-- A text without line breaks. -/
def Plain (s : String) : Prop := ∀ c ∈ s.toList, c ≠ '\n'

theorem plain_plainText (node : Node) : Plain node.plainText := by
  have hsep : " ".toList = [' '] := rfl
  rw [Plain, Node.plainText, String.toList_intercalate, hsep]
  refine forall_mem_intercalate (by simp) fun text htext c hc hbreak => ?_
  have hword : IsWord text := isWord_of_mem_wordsOf (map_toList_splitWords node.getText ▸ htext)
  have hspace := hword.2 c hc
  rw [hbreak] at hspace
  exact absurd hspace (by decide)

/-- The texts of the item are plain, and no row of it is empty. -/
def Item.IsPlain : Item → Prop
  | .heading _ _ title _ => Plain title
  | .table cells => ∀ row ∈ cells, (∃ cell ∈ row, cell ≠ "") ∧ ∀ cell ∈ row, Plain cell
  | _ => True

theorem isPlain_cells (table : Node) : (Item.table table.cells).IsPlain := by
  intro row hrow
  obtain ⟨hmem, hany⟩ := List.mem_filter.mp hrow
  obtain ⟨tr, -, rfl⟩ := List.mem_map.mp hmem
  refine ⟨?_, fun cell hcell => ?_⟩
  · obtain ⟨cell, hcell, hne⟩ := List.any_eq_true.mp hany
    exact ⟨cell, hcell, of_decide_eq_true hne⟩
  · obtain ⟨td, -, rfl⟩ := List.mem_map.mp hcell
    exact plain_plainText td

section Kept

variable (headingMap : ℕ → Option (ℕ × String))

mutual

theorem isPlain_items : ∀ node : Node, ∀ item ∈ node.items headingMap, item.IsPlain
  | .cdata _ => fun _ h => absurd h List.not_mem_nil
  | .markup _ => fun _ h => absurd h List.not_mem_nil
  | .text _ => fun _ h => List.mem_singleton.mp h ▸ trivial
  | .tag identity name attributes children => by
    rw [Node.items]
    split
    · exact fun _ h => absurd h List.not_mem_nil
    · split
      · exact fun _ h => List.mem_singleton.mp h ▸ plain_plainText _
      · split
        · exact fun _ h => List.mem_singleton.mp h ▸ isPlain_cells _
        · split
          · intro item hitem
            simp only [List.mem_cons, List.mem_append, List.not_mem_nil, or_false] at hitem
            rcases hitem with rfl | hitem | rfl
            · trivial
            · exact isPlain_itemsOf children item hitem
            · trivial
          · exact isPlain_itemsOf children

/-- The headings and cells of a document are plain. -/
theorem isPlain_itemsOf : ∀ nodes : List Node, ∀ item ∈ itemsOf headingMap nodes, item.IsPlain
  | [] => fun _ h => absurd h List.not_mem_nil
  | child :: rest => by
    intro item hitem
    rw [itemsOf] at hitem
    rcases List.mem_append.mp hitem with hitem | hitem
    · exact isPlain_items child item hitem
    · exact isPlain_itemsOf rest item hitem

end

/-! ### The words that are rendered -/

/-- The words of an item. -/
def Item.words : Item → List String
  | .newline => []
  | .text s => splitWords s
  | .heading _ _ title _ => splitWords title
  | .table cells => cells.flatMap fun row => row.flatMap splitWords

mutual

/-- The words of a node of a table that are in its cells, and whether the node is in a row. -/
def Node.cellWords (inRow : Bool) : Node → List String
  | .tag _ name _ children =>
    if skippedTags.contains name then []
    else if inRow && ["td", "th"].contains name then (textsOf children).flatMap splitWords
    else cellWordsOf (inRow || name = "tr") children
  | _ => []

def cellWordsOf (inRow : Bool) : List Node → List String
  | [] => []
  | node :: rest => node.cellWords inRow ++ cellWordsOf inRow rest

end

mutual

/-- The words of a node that are rendered: those outside of skipped elements, and of a table those in its
cells. -/
def Node.keptWords : Node → List String
  | .cdata _ => []
  | .markup _ => []
  | .text s => splitWords s
  | .tag identity name _ children =>
    if skippedTags.contains name then []
    else if (headingOf headingMap identity name).isSome then (textsOf children).flatMap splitWords
    else if name = "table" then cellWordsOf false children
    else keptWordsOf children

def keptWordsOf : List Node → List String
  | [] => []
  | node :: rest => node.keptWords ++ keptWordsOf rest

end

/-- What the elements with a name bring within some nodes. -/
def wordsWithin (names : List String) (words : Node → List String) (nodes : List Node) : List String :=
  ((nodesWithin nodes).filter (Node.hasName names)).flatMap words

/-- The words of the visible strings in a node. -/
def Node.words (node : Node) : List String := (textsOf node.children).flatMap splitWords

/-- The words of the cells within a row. -/
def Node.rowWords (tr : Node) : List String := wordsWithin ["td", "th"] Node.words tr.children

theorem descendants_eq (node : Node) : node.descendants = nodesWithin node.children := by
  cases node <;> rfl

theorem wordsWithin_cons (names : List String) (words : Node → List String) (node : Node) (rest : List Node) :
    wordsWithin names words (node :: rest) = (if node.hasName names then words node else []) ++
      (wordsWithin names words node.children ++ wordsWithin names words rest) := by
  rw [wordsWithin, nodesWithin, List.filter_cons, List.filter_append, descendants_eq]
  split
  · rw [List.flatMap_cons, List.flatMap_append]
    rfl
  · rw [List.flatMap_append, List.nil_append]
    rfl

mutual

theorem sublist_cellWords_row : ∀ node : Node,
    (node.cellWords true).Sublist (wordsWithin ["td", "th"] Node.words [node])
  | .text _ | .cdata _ | .markup _ => List.nil_sublist _
  | .tag identity name attributes children => by
    have hcons := wordsWithin_cons ["td", "th"] Node.words (.tag identity name attributes children) []
    rw [hcons, Node.cellWords]
    split
    · exact List.nil_sublist _
    · split
      · rename_i hcell
        have hname : Node.hasName ["td", "th"] (.tag identity name attributes children) = true := hcell
        rw [if_pos hname]
        exact List.sublist_append_left _ _
      · exact (sublist_cellWordsOf_row children).trans
          ((List.sublist_append_left _ _).trans (List.sublist_append_right _ _))

/-- The words that are kept of a row are those of its cells. -/
theorem sublist_cellWordsOf_row : ∀ nodes : List Node,
    (cellWordsOf true nodes).Sublist (wordsWithin ["td", "th"] Node.words nodes)
  | [] => List.nil_sublist _
  | node :: rest => by
    have hnode := sublist_cellWords_row node
    rw [wordsWithin_cons] at hnode ⊢
    have hnil : wordsWithin ["td", "th"] Node.words [] = [] := rfl
    rw [hnil, List.append_nil] at hnode
    rw [cellWordsOf, ← List.append_assoc]
    exact hnode.append (sublist_cellWordsOf_row rest)

end

mutual

theorem sublist_cellWords_table : ∀ node : Node,
    (node.cellWords false).Sublist (wordsWithin ["tr"] Node.rowWords [node])
  | .text _ | .cdata _ | .markup _ => List.nil_sublist _
  | .tag identity name attributes children => by
    have hcons := wordsWithin_cons ["tr"] Node.rowWords (.tag identity name attributes children) []
    rw [hcons, Node.cellWords]
    split
    · exact List.nil_sublist _
    · rw [if_neg (by simp)]
      by_cases hrow : name = "tr"
      · have hname : Node.hasName ["tr"] (.tag identity name attributes children) = true := by
          simp [Node.hasName, hrow]
        rw [if_pos hname, decide_eq_true hrow]
        exact (sublist_cellWordsOf_row children).trans (List.sublist_append_left _ _)
      · rw [decide_eq_false hrow]
        exact (sublist_cellWordsOf_table children).trans
          ((List.sublist_append_left _ _).trans (List.sublist_append_right _ _))

/-- The words that are kept of a table are those of its rows. -/
theorem sublist_cellWordsOf_table : ∀ nodes : List Node,
    (cellWordsOf false nodes).Sublist (wordsWithin ["tr"] Node.rowWords nodes)
  | [] => List.nil_sublist _
  | node :: rest => by
    have hnode := sublist_cellWords_table node
    rw [wordsWithin_cons] at hnode ⊢
    have hnil : wordsWithin ["tr"] Node.rowWords [] = [] := rfl
    rw [hnil, List.append_nil] at hnode
    rw [cellWordsOf, ← List.append_assoc]
    exact hnode.append (sublist_cellWordsOf_table rest)

end

theorem flatMap_splitWords_row (tr : Node) :
    ((tr.descendants.filter (Node.hasName ["td", "th"])).map Node.plainText).flatMap splitWords =
      tr.rowWords := by
  rw [List.flatMap_map, Node.rowWords, wordsWithin, ← descendants_eq]
  exact List.flatMap_congr fun td _ => splitWords_plainText td

/-- A row that is left out has no words. -/
theorem words_cells (table : Node) :
    (Item.table table.cells).words = wordsWithin ["tr"] Node.rowWords table.children := by
  rw [Item.words, Node.cells, wordsWithin, ← descendants_eq]
  induction table.descendants.filter (Node.hasName ["tr"]) with
  | nil => rfl
  | cons tr rows ih =>
    rw [List.map_cons, List.filter_cons, List.flatMap_cons, ← ih, ← flatMap_splitWords_row]
    split
    · rw [List.flatMap_cons]
    · rename_i hany
      have hempty : ∀ cell ∈ (tr.descendants.filter (Node.hasName ["td", "th"])).map Node.plainText,
          splitWords cell = [] := by
        intro cell hcell
        have hcellEmpty : cell = "" := by
          by_contra hne
          exact hany (List.any_eq_true.mpr ⟨cell, hcell, decide_eq_true hne⟩)
        rw [hcellEmpty]
        rfl
      rw [List.flatMap_eq_nil_iff.mpr hempty, List.nil_append]

mutual

theorem sublist_words_items : ∀ node : Node,
    (node.keptWords headingMap).Sublist ((node.items headingMap).flatMap Item.words)
  | .cdata _ | .markup _ => List.nil_sublist _
  | .text s => by rw [Node.items, List.flatMap_singleton, Item.words, Node.keptWords]
  | .tag identity name attributes children => by
    rw [Node.items, Node.keptWords]
    split
    · exact List.nil_sublist _
    · cases hheading : headingOf headingMap identity name with
      | some heading =>
        rw [if_pos (by simp), List.flatMap_singleton, Item.words, splitWords_plainText]
        rfl
      | none =>
        rw [if_neg (by simp)]
        dsimp only
        split
        · rw [List.flatMap_singleton, words_cells]
          exact sublist_cellWordsOf_table children
        · split
          · have hitems : (Item.newline :: (itemsOf headingMap children ++ [.newline])).flatMap Item.words =
                (itemsOf headingMap children).flatMap Item.words := by
              rw [List.flatMap_cons, List.flatMap_append, List.flatMap_singleton]
              exact List.append_nil _
            rw [hitems]
            exact sublist_words_itemsOf children
          · exact sublist_words_itemsOf children

/-- The items of a document have its words. -/
theorem sublist_words_itemsOf : ∀ nodes : List Node,
    (keptWordsOf headingMap nodes).Sublist ((itemsOf headingMap nodes).flatMap Item.words)
  | [] => List.nil_sublist _
  | node :: rest => by
    rw [keptWordsOf, itemsOf, List.flatMap_append]
    exact (sublist_words_items node).append (sublist_words_itemsOf rest)

end

end Kept

end Stel.Html
