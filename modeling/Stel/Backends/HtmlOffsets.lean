import Stel.Backends.Html

/-!
# The offsets of structured HTML

Each item that the walk emits brings its words to the text and its entry to the sections or the tables, at
the length of the text so far. The strip at the end takes line breaks only, which no entry ends in: only an
empty table that nothing follows is left without a place in the text.

## Main definitions

* `Brings`: what some items bring to a rendering.
* `IsExact`: the offsets of a rendering are exact.

## Main results

* `brings_step`, `foldl_step`: what an item brings, and what the items of a document bring.
* `isPrefix_drop_rdropWhile`: what the strip keeps.
* `renderStructured_isExact`: the offsets of structured HTML are exact.
* `renderStructured_omits`: a caption is not in the text.
-/

namespace Stel.Html

open Text

/-! ### The rendered text -/

/-- The characters of the parts. -/
def Render.chars (r : Render) : List Char := r.parts.reverse.flatMap String.toList

/-- The running length is that of the text, and no part is empty. -/
structure Render.WellFormed (r : Render) : Prop where
  length : r.length = r.chars.length
  ne_empty : ∀ part ∈ r.parts, part ≠ ""

section Emissions

variable {r : Render} {text : String}

@[simp] theorem chars_emit : (r.emit text).chars = r.chars ++ text.toList := by
  unfold Render.emit
  split
  · rename_i hempty
    rw [hempty, String.toList_empty, List.append_nil]
  · simp [Render.chars]

@[simp] theorem sections_emit : (r.emit text).sections = r.sections := by
  unfold Render.emit
  split <;> rfl

@[simp] theorem tables_emit : (r.emit text).tables = r.tables := by
  unfold Render.emit
  split <;> rfl

theorem Render.WellFormed.emit (h : r.WellFormed) : (r.emit text).WellFormed := by
  refine ⟨?_, ?_⟩
  · rw [chars_emit, List.length_append, String.length_toList, ← h.length]
    unfold Render.emit
    split
    · rename_i hempty
      rw [hempty, String.length_empty, Nat.add_zero]
    · rfl
  · unfold Render.emit
    split
    · exact h.ne_empty
    · rename_i hne
      exact List.forall_mem_cons.mpr ⟨hne, h.ne_empty⟩

/-- What the last part ends in is what the text ends in. -/
theorem endsOutside_eq (h : r.WellFormed) (chars : List Char) :
    r.endsOutside chars = r.chars.getLast?.any fun c => !chars.contains c := by
  unfold Render.endsOutside Render.chars
  cases hparts : r.parts with
  | nil => rfl
  | cons last init =>
    have hne : last.toList ≠ [] := by
      have hlast := h.ne_empty last (hparts ▸ List.mem_cons_self)
      simpa using hlast
    have hlast := List.getLast?_eq_some_getLast hne
    simp [List.getLast?_append_of_ne_nil _ hne, hlast]

@[simp] theorem sections_newline : r.newline.sections = r.sections := by
  unfold Render.newline
  split
  · exact sections_emit
  · rfl

@[simp] theorem tables_newline : r.newline.tables = r.tables := by
  unfold Render.newline
  split
  · exact tables_emit
  · rfl

theorem Render.WellFormed.newline (h : r.WellFormed) : r.newline.WellFormed := by
  unfold Render.newline
  split
  · exact h.emit
  · exact h

theorem exists_chars_newline : ∃ sep, r.newline.chars = r.chars ++ sep ∧ ∀ c ∈ sep, c = '\n' := by
  unfold Render.newline
  split
  · exact ⟨['\n'], chars_emit, fun c hc => List.mem_singleton.mp hc⟩
  · exact ⟨[], (List.append_nil _).symm, fun c hc => absurd hc List.not_mem_nil⟩

/-- After a line break, a word begins. -/
theorem atBoundary_newline (h : r.WellFormed) : AtBoundary r.newline.chars := by
  have hspace : isSpace '\n' = true := by decide
  unfold Render.newline
  split
  · intro c hc
    rw [chars_emit] at hc
    have hlast : c = '\n' := by simpa using hc.symm
    exact hlast ▸ hspace
  · rename_i hends
    rw [endsOutside_eq h] at hends
    intro c hc
    have hlast : c = '\n' := by
      rw [Option.mem_def.mp hc] at hends
      simpa using hends
    exact hlast ▸ hspace

theorem wordsOf_newline : wordsOf r.newline.chars = wordsOf r.chars := by
  obtain ⟨sep, hchars, hsep⟩ := @exists_chars_newline r
  rw [hchars]
  exact wordsOf_append_blank fun c hc => hsep c hc ▸ by decide

end Emissions

/-! ### What an item brings -/

/-- An entry of the sections or of the tables. -/
inductive Entry
  | ofSection (s : Section)
  | ofTable (t : Table)

/-- The section of an entry. -/
def Entry.section? : Entry → Option Section
  | .ofSection s => some s
  | .ofTable _ => none

/-- The table of an entry. -/
def Entry.table? : Entry → Option Table
  | .ofSection _ => none
  | .ofTable t => some t

/-- The offset of an entry. -/
def Entry.start : Entry → ℕ
  | .ofSection s => s.charStart
  | .ofTable t => t.charStart

/-- The text of an entry. -/
def Entry.rendered : Entry → String
  | .ofSection s => s.heading
  | .ofTable t => renderCells t.cells

/-- The heading or the cells of an entry. -/
def Entry.content : Entry → String ⊕ List (List String)
  | .ofSection s => .inl s.heading
  | .ofTable t => .inr t.cells

/-- The heading or the cells of an item that is recorded. -/
def Item.content : Item → Option (String ⊕ List (List String))
  | .heading _ _ title _ => if title = "" then none else some (.inl title)
  | .table cells => some (.inr cells)
  | _ => none

/-- The item is a table. -/
def Item.isTable : Item → Bool
  | .table _ => true
  | _ => false

/-- The item has text. -/
def Item.Visible : Item → Prop
  | .newline => False
  | .text s => splitWords s ≠ []
  | .heading _ _ title _ => title ≠ ""
  | .table cells => cells ≠ []

/-- What some items bring to a rendering: text, entries that are exact, and the words. -/
structure Brings (items : List Item) (entries : List Entry) (r r' : Render) : Prop where
  wellFormed : r'.WellFormed
  extends_ : r.chars <+: r'.chars
  sections : r'.sections = r.sections ++ entries.filterMap Entry.section?
  tables : r'.tables = r.tables ++ entries.filterMap Entry.table?
  contents : entries.map Entry.content = items.filterMap Item.content
  exact_ : ∀ entry ∈ entries, r.chars.length ≤ entry.start ∧ entry.start ≤ r'.chars.length ∧
    entry.rendered.toList <+: r'.chars.drop entry.start
  sorted : entries.Pairwise fun entry entry' => entry.start ≤ entry'.start
  words : (wordsOf r.chars ++ (items.flatMap Item.words).map String.toList).Sublist (wordsOf r'.chars)
  visible : (∃ item ∈ items, item.Visible) → ∃ c ∈ r'.chars.drop r.chars.length, c ≠ '\n'
  blank : (∀ item ∈ items, ¬ item.Visible) → r.parts = [] → r'.parts = []

section Composition

variable {items items' : List Item} {entries entries' : List Entry} {r r' r'' : Render}

theorem Brings.nil (h : r.WellFormed) : Brings [] [] r r where
  wellFormed := h
  extends_ := List.prefix_refl _
  sections := (List.append_nil _).symm
  tables := (List.append_nil _).symm
  contents := rfl
  exact_ := fun _ h => absurd h List.not_mem_nil
  sorted := .nil
  words := by simp
  visible := fun ⟨_, h, _⟩ => absurd h List.not_mem_nil
  blank := fun _ h => h

/-- What items bring one after the other. -/
theorem Brings.append (h : Brings items entries r r') (h' : Brings items' entries' r' r'') :
    Brings (items ++ items') (entries ++ entries') r r'' where
  wellFormed := h'.wellFormed
  extends_ := h.extends_.trans h'.extends_
  sections := by rw [h'.sections, h.sections, List.filterMap_append, List.append_assoc]
  tables := by rw [h'.tables, h.tables, List.filterMap_append, List.append_assoc]
  contents := by rw [List.map_append, List.filterMap_append, h.contents, h'.contents]
  exact_ := by
    intro entry hentry
    rcases List.mem_append.mp hentry with hentry | hentry
    · obtain ⟨hstart, hend, hexact⟩ := h.exact_ entry hentry
      refine ⟨hstart, hend.trans h'.extends_.length_le, hexact.trans ?_⟩
      obtain ⟨added, hadded⟩ := h'.extends_
      rw [← hadded, List.drop_append_of_le_length hend]
      exact List.prefix_append _ _
    · obtain ⟨hstart, hend, hexact⟩ := h'.exact_ entry hentry
      exact ⟨h.extends_.length_le.trans hstart, hend, hexact⟩
  sorted := by
    refine List.pairwise_append.mpr ⟨h.sorted, h'.sorted, fun entry hentry entry' hentry' => ?_⟩
    exact (h.exact_ entry hentry).2.1.trans (h'.exact_ entry' hentry').1
  words := by
    rw [List.flatMap_append, List.map_append, ← List.append_assoc]
    exact (h.words.append_right _).trans h'.words
  visible := by
    rintro ⟨item, hitem, hvisible⟩
    rcases List.mem_append.mp hitem with hitem | hitem
    · obtain ⟨c, hc, hne⟩ := h.visible ⟨item, hitem, hvisible⟩
      obtain ⟨added, hadded⟩ := h'.extends_
      rw [← hadded, List.drop_append_of_le_length h.extends_.length_le]
      exact ⟨c, List.mem_append_left _ hc, hne⟩
    · obtain ⟨c, hc, hne⟩ := h'.visible ⟨item, hitem, hvisible⟩
      have hsuffix := List.drop_suffix_drop_left r''.chars h.extends_.length_le
      exact ⟨c, hsuffix.subset hc, hne⟩
  blank := fun hblank hnil =>
    h'.blank (fun item hitem => hblank item (List.mem_append_right _ hitem))
      (h.blank (fun item hitem => hblank item (List.mem_append_left _ hitem)) hnil)

end Composition

/-! ### One item -/

section Steps

variable {r : Render} {item : Item}

theorem length_chars_newline_le (h : r.WellFormed) : r.chars.length ≤ r.newline.length := by
  obtain ⟨sep, hchars, -⟩ := @exists_chars_newline r
  rw [h.newline.length, hchars, List.length_append]
  exact Nat.le_add_right _ _

/-- A text on lines of its own, after which the variables of the walk may have other entries. -/
theorem emit_block (h : r.WellFormed) {r₁ : Render} (hparts : r₁.parts = r.newline.parts)
    (hlength : r₁.length = r.newline.length) (text : String) :
    (r₁.emit text).newline.WellFormed ∧ r.chars <+: (r₁.emit text).newline.chars ∧
      r.newline.length ≤ (r₁.emit text).newline.chars.length ∧
      text.toList <+: (r₁.emit text).newline.chars.drop r.newline.length ∧
      wordsOf (r₁.emit text).newline.chars = wordsOf r.chars ++ wordsOf text.toList := by
  have hchars : r₁.chars = r.newline.chars := by rw [Render.chars, hparts, Render.chars]
  have hwf : r₁.WellFormed := ⟨by rw [hlength, hchars, h.newline.length], hparts ▸ h.newline.ne_empty⟩
  obtain ⟨sep, hsep, -⟩ := @exists_chars_newline r
  obtain ⟨sep', hsep', -⟩ := @exists_chars_newline (r₁.emit text)
  refine ⟨hwf.emit.newline, ?_, ?_, ?_, ?_⟩
  · rw [hsep', chars_emit, hchars, hsep, List.append_assoc, List.append_assoc]
    exact List.prefix_append _ _
  · rw [hsep', chars_emit, hchars, h.newline.length, List.length_append, List.length_append, Nat.add_assoc]
    exact Nat.le_add_right _ _
  · rw [hsep', chars_emit, hchars, h.newline.length, List.append_assoc, List.drop_left]
    exact List.prefix_append _ _
  · rw [wordsOf_newline, chars_emit, hchars, wordsOf_append (atBoundary_newline h), wordsOf_newline]

theorem brings_newline (h : r.WellFormed) : Brings [.newline] [] r r.newline where
  wellFormed := h.newline
  extends_ := by
    obtain ⟨sep, hsep, -⟩ := @exists_chars_newline r
    exact ⟨sep, hsep.symm⟩
  sections := by simp
  tables := by simp
  contents := rfl
  exact_ := fun _ h => absurd h List.not_mem_nil
  sorted := .nil
  words := by simp [Item.words, wordsOf_newline]
  visible := by simp [Item.Visible]
  blank := by
    intro _ hnil
    simp [Render.newline, Render.endsOutside, hnil]

/-- Before a word there is whitespace, which brings no words. -/
theorem emitText_boundary (h : r.WellFormed) {r₁ : Render}
    (hr₁ : r₁ = if r.endsOutside ['\n', ' '] then r.emit " " else r) :
    r₁.WellFormed ∧ r.chars <+: r₁.chars ∧ AtBoundary r₁.chars ∧ wordsOf r₁.chars = wordsOf r.chars ∧
      r₁.sections = r.sections ∧ r₁.tables = r.tables := by
  have hspace : isSpace ' ' = true := by decide
  have hbreak : isSpace '\n' = true := by decide
  split at hr₁
  · subst hr₁
    refine ⟨h.emit, ?_, ?_, ?_, sections_emit, tables_emit⟩
    · rw [chars_emit]
      exact List.prefix_append _ _
    · intro c hc
      rw [chars_emit] at hc
      have hlast : c = ' ' := by simpa using hc.symm
      exact hlast ▸ hspace
    · rw [chars_emit]
      exact wordsOf_append_blank fun c hc => List.mem_singleton.mp hc ▸ hspace
  · rename_i hends
    subst hr₁
    refine ⟨h, List.prefix_refl _, fun c hc => ?_, rfl, rfl, rfl⟩
    rw [endsOutside_eq h, Option.mem_def.mp hc] at hends
    have hlast : c = '\n' ∨ c = ' ' := Decidable.or_iff_not_imp_left.mpr (by simpa using hends)
    rcases hlast with rfl | rfl
    · exact hbreak
    · exact hspace

theorem brings_text (h : r.WellFormed) (s : String) : Brings [.text s] [] r (r.emitText s) := by
  by_cases hwords : splitWords s = []
  · have hsame : r.emitText s = r := by
      rw [Render.emitText, hwords]
      rfl
    rw [hsame]
    exact { Brings.nil h with
      words := by simp [Item.words, hwords]
      visible := by simp [Item.Visible, hwords]
      blank := fun _ hnil => hnil }
  · have hne : " ".intercalate (splitWords s) ≠ "" := fun hempty =>
      hwords (splitWords_eq_nil.mpr (join_splitWords_eq_empty.mp hempty))
    obtain ⟨r₁, hr₁⟩ : ∃ r₁, r₁ = if r.endsOutside ['\n', ' '] then r.emit " " else r := ⟨_, rfl⟩
    have hemit : r.emitText s = r₁.emit (" ".intercalate (splitWords s)) := by
      rw [hr₁, Render.emitText]
      exact if_neg hne
    obtain ⟨hwf, hextends, hboundary, hsame, hsections, htables⟩ := emitText_boundary h hr₁
    rw [hemit]
    refine
      { wellFormed := hwf.emit
        extends_ := ?_
        sections := by simp [hsections]
        tables := by simp [htables]
        contents := rfl
        exact_ := fun _ h => absurd h List.not_mem_nil
        sorted := .nil
        words := ?_
        visible := fun _ => ?_
        blank := fun hblank => absurd hwords (hblank _ List.mem_cons_self) }
    · rw [chars_emit]
      exact hextends.trans (List.prefix_append _ _)
    · rw [chars_emit, wordsOf_append hboundary, hsame, ← map_toList_splitWords (" ".intercalate _),
        splitWords_join]
      simp [Item.words]
    · -- a character of a word is no line break
      obtain ⟨word, hword⟩ := List.exists_mem_of_ne_nil _ hwords
      have hisWord : IsWord word.toList :=
        isWord_of_mem_wordsOf (map_toList_splitWords s ▸ List.mem_map_of_mem hword)
      obtain ⟨c, hc⟩ := List.exists_mem_of_ne_nil _ hisWord.1
      obtain ⟨added, hadded⟩ := hextends
      refine ⟨c, ?_, fun heq => ?_⟩
      · rw [chars_emit, ← hadded, List.append_assoc, List.drop_left, String.toList_intercalate]
        exact List.mem_append_right _ (mem_intercalate (List.mem_map_of_mem hword) hc)
      · have hspace := hisWord.2 c hc
        rw [heq] at hspace
        exact absurd hspace (by decide)

/-- What is plain and not empty has a character that is no line break. -/
theorem Plain.exists_ne {s : String} (h : Plain s) (hne : s ≠ "") : ∃ c ∈ s.toList, c ≠ '\n' := by
  have hnil : s.toList ≠ [] := by simpa using hne
  obtain ⟨c, hc⟩ := List.exists_mem_of_ne_nil _ hnil
  exact ⟨c, hc, h c hc⟩

theorem brings_heading (h : r.WellFormed) (level : ℕ) (source heading : String) (anchor : Option String)
    (hplain : Plain heading) :
    ∃ entries, Brings [.heading level source heading anchor] entries r
      (r.emitHeading level source heading anchor) := by
  by_cases hempty : heading = ""
  · have hsame : r.emitHeading level source heading anchor = r.newline := if_pos hempty
    rw [hsame]
    exact ⟨[], { brings_newline h with
      contents := by simp [Item.content, hempty]
      words := by simp [Item.words, hempty, wordsOf_newline, splitWords_eq]
      visible := by simp [Item.Visible, hempty]
      blank := fun _ => (brings_newline h).blank (by simp [Item.Visible]) }⟩
  · obtain ⟨r₁, hr₁⟩ : ∃ r₁ : Render, r₁ = { r.newline with sections := r.newline.sections ++
      [⟨level, heading, r.newline.length, source, anchor⟩] } := ⟨_, rfl⟩
    have hemit : r.emitHeading level source heading anchor = (r₁.emit heading).newline := by
      rw [hr₁]
      exact if_neg hempty
    have hparts : r₁.parts = r.newline.parts := by rw [hr₁]
    have hlength : r₁.length = r.newline.length := by rw [hr₁]
    obtain ⟨hwf, hextends, hend, hexact, hwords⟩ := emit_block h hparts hlength heading
    rw [hemit]
    refine ⟨[.ofSection ⟨level, heading, r.newline.length, source, anchor⟩],
      { wellFormed := hwf
        extends_ := hextends
        sections := by simp [hr₁, Entry.section?]
        tables := by simp [hr₁, Entry.table?]
        contents := by simp [Item.content, Entry.content, hempty]
        exact_ := fun entry hentry => ?_
        sorted := List.pairwise_singleton _ _
        words := ?_
        visible := fun _ => ?_
        blank := fun hblank => absurd hempty (hblank _ List.mem_cons_self) }⟩
    · obtain rfl := List.mem_singleton.mp hentry
      exact ⟨length_chars_newline_le h, hend, hexact⟩
    · rw [hwords, ← map_toList_splitWords heading]
      simp [Item.words]
    · obtain ⟨c, hc, hne⟩ := hplain.exists_ne hempty
      have hsuffix := List.drop_suffix_drop_left (r₁.emit heading).newline.chars (length_chars_newline_le h)
      exact ⟨c, hsuffix.subset (hexact.subset hc), hne⟩

theorem toList_renderCells (cells : List (List String)) : (renderCells cells).toList =
    ['\n'].intercalate (cells.map fun row => [' ', '|', ' '].intercalate (row.map String.toList)) := by
  have hbreak : "\n".toList = ['\n'] := rfl
  have hbar : " | ".toList = [' ', '|', ' '] := rfl
  rw [renderCells, String.toList_intercalate, hbreak, List.map_map]
  refine congrArg _ (List.map_congr_left fun row _ => ?_)
  rw [Function.comp_apply, String.toList_intercalate, hbar]

/-- A rendered row has the words of its cells, with the bars between them. -/
theorem sublist_wordsOf_row (row : List (List Char)) :
    (row.flatMap wordsOf).Sublist (wordsOf ([' ', '|', ' '].intercalate row)) := by
  have hspace : isSpace ' ' = true := by decide
  induction row with
  | nil => exact List.Sublist.refl _
  | cons cell row ih =>
    cases row with
    | nil =>
      rw [List.intercalate_singleton, List.flatMap_singleton]
    | cons next row =>
      have hsplit : [' ', '|', ' '].intercalate (cell :: next :: row) =
          cell ++ ' ' :: (['|'] ++ ' ' :: [' ', '|', ' '].intercalate (next :: row)) := by
        rw [List.intercalate_cons_cons, List.append_assoc]
        rfl
      rw [hsplit, wordsOf_append_cons hspace, wordsOf_append_cons hspace, @List.flatMap_cons _ _ cell]
      exact (ih.trans (List.sublist_append_right _ _)).append_left _

theorem sublist_wordsOf_renderCells (cells : List (List String)) :
    ((cells.flatMap fun row => row.flatMap splitWords).map String.toList).Sublist
      (wordsOf (renderCells cells).toList) := by
  rw [toList_renderCells, wordsOf_intercalate (by decide)]
  induction cells with
  | nil => exact List.Sublist.refl _
  | cons row cells ih =>
    rw [List.flatMap_cons, List.map_append, List.map_cons, List.flatMap_cons]
    refine List.Sublist.append ?_ ih
    have hrow := sublist_wordsOf_row (row.map String.toList)
    rw [List.flatMap_map] at hrow
    rw [List.map_flatMap]
    simpa only [map_toList_splitWords] using hrow

/-- The text of a table with a cell is not a line break. -/
theorem exists_ne_renderCells {cells : List (List String)} (hplain : (Item.table cells).IsPlain)
    (hne : cells ≠ []) : ∃ c ∈ (renderCells cells).toList, c ≠ '\n' := by
  obtain ⟨row, hrow⟩ := List.exists_mem_of_ne_nil _ hne
  obtain ⟨⟨cell, hcell, hcellNe⟩, hcells⟩ := hplain row hrow
  obtain ⟨c, hc, hcNe⟩ := (hcells cell hcell).exists_ne hcellNe
  refine ⟨c, ?_, hcNe⟩
  rw [toList_renderCells]
  exact mem_intercalate (List.mem_map_of_mem hrow) (mem_intercalate (List.mem_map_of_mem hcell) hc)

theorem brings_table (h : r.WellFormed) (cells : List (List String)) (hplain : (Item.table cells).IsPlain) :
    ∃ entries, Brings [.table cells] entries r (r.emitTable cells) := by
  obtain ⟨entry, hentry⟩ : ∃ entry : Table, entry = ⟨r.newline.tables.length, r.newline.length,
    cells.length, (cells.map List.length).foldl max 0, cells⟩ := ⟨_, rfl⟩
  obtain ⟨r₁, hr₁⟩ : ∃ r₁ : Render, r₁ = { r.newline with tables := r.newline.tables ++ [entry] } := ⟨_, rfl⟩
  have hemit : r.emitTable cells = (r₁.emit (renderCells cells)).newline := by
    rw [hr₁, hentry]
    rfl
  have hparts : r₁.parts = r.newline.parts := by rw [hr₁]
  have hlength : r₁.length = r.newline.length := by rw [hr₁]
  obtain ⟨hwf, hextends, hend, hexact, hwords⟩ := emit_block h hparts hlength (renderCells cells)
  rw [hemit]
  refine ⟨[.ofTable entry],
    { wellFormed := hwf
      extends_ := hextends
      sections := by simp [hr₁, Entry.section?]
      tables := by simp [hr₁, Entry.table?]
      contents := by simp [Item.content, Entry.content, hentry]
      exact_ := fun e he => ?_
      sorted := List.pairwise_singleton _ _
      words := ?_
      visible := fun ⟨item, hitem, hvisible⟩ => ?_
      blank := fun hblank hnil => ?_ }⟩
  · obtain rfl := List.mem_singleton.mp he
    rw [hentry]
    exact ⟨length_chars_newline_le h, hend, hexact⟩
  · rw [hwords, List.flatMap_singleton]
    exact (sublist_wordsOf_renderCells cells).append_left _
  · obtain rfl := List.mem_singleton.mp hitem
    obtain ⟨c, hc, hne⟩ := exists_ne_renderCells hplain hvisible
    have hsuffix := List.drop_suffix_drop_left (r₁.emit (renderCells cells)).newline.chars
      (length_chars_newline_le h)
    exact ⟨c, hsuffix.subset (hexact.subset hc), hne⟩
  · have hcells : cells = [] := not_not.mp (hblank _ List.mem_cons_self)
    have hempty : renderCells cells = "" := by
      rw [hcells]
      rfl
    simp [hempty, Render.emit, Render.newline, Render.endsOutside, hparts, hnil]

/-- Each item brings its words and its entry. -/
theorem brings_step (h : r.WellFormed) (hplain : item.IsPlain) :
    ∃ entries, Brings [item] entries r (r.step item) := by
  cases item with
  | newline => exact ⟨[], brings_newline h⟩
  | text s => exact ⟨[], brings_text h s⟩
  | heading level source heading anchor => exact brings_heading h level source heading anchor hplain
  | table cells => exact brings_table h cells hplain

/-- What the items of a document bring to the text, the sections and the tables. -/
theorem foldl_step {items : List Item} (h : r.WellFormed) (hplain : ∀ item ∈ items, item.IsPlain) :
    ∃ entries, Brings items entries r (items.foldl Render.step r) := by
  induction items generalizing r with
  | nil => exact ⟨[], Brings.nil h⟩
  | cons item items ih =>
    obtain ⟨hitem, hitems⟩ := List.forall_mem_cons.mp hplain
    obtain ⟨entries, hstep⟩ := brings_step h hitem
    obtain ⟨entries', hrest⟩ := ih hstep.wellFormed hitems
    exact ⟨entries ++ entries', hstep.append hrest⟩

end Steps

/-! ### The final text -/

/-- What does not end in what is stripped is kept. -/
theorem isPrefix_rdropWhile {p : Char → Bool} {cs ds : List Char} (h : ∀ c ∈ cs.getLast?, p c = false) :
    cs <+: (cs ++ ds).rdropWhile p := by
  induction ds using List.reverseRecOn with
  | nil =>
    have hself : cs.rdropWhile p = cs := List.rdropWhile_eq_self_iff.mpr fun hne => by
      simpa using h _ (List.getLast?_eq_some_getLast hne)
    exact ⟨[], by rw [List.append_nil, hself]⟩
  | append_singleton ds d ih =>
    rw [← List.append_assoc]
    cases hd : p d with
    | true => rwa [List.rdropWhile_concat_pos _ _ _ hd]
    | false =>
      rw [List.rdropWhile_concat_neg _ _ _ (by simp [hd]), List.append_assoc]
      exact List.prefix_append _ _

/-- A part that does not end in what is stripped is kept where it is. -/
theorem isPrefix_drop_rdropWhile {p : Char → Bool} {cs part : List Char} {start : ℕ} (hne : part ≠ [])
    (hlast : ∀ c ∈ part.getLast?, p c = false) (h : part <+: cs.drop start) :
    start < (cs.rdropWhile p).length ∧ part <+: (cs.rdropWhile p).drop start := by
  obtain ⟨rest, hrest⟩ := h
  have hstart : start ≤ cs.length := by
    by_contra hlt
    rw [List.drop_eq_nil_of_le (Nat.le_of_not_le hlt)] at hrest
    exact hne (List.append_eq_nil_iff.mp hrest).1
  have hcs : (cs.take start ++ part) ++ rest = cs := by
    rw [List.append_assoc, hrest, List.take_append_drop]
  have hkept : cs.take start ++ part <+: cs.rdropWhile p := by
    have hprefix := @isPrefix_rdropWhile p (cs.take start ++ part) rest (by
      rwa [List.getLast?_append_of_ne_nil _ hne])
    rwa [hcs] at hprefix
  have htake : (cs.take start).length = start := List.length_take_of_le hstart
  have hpos := List.length_pos_iff.mpr hne
  obtain ⟨added, hadded⟩ := hkept
  rw [← hadded]
  refine ⟨?_, ?_⟩
  · rw [List.length_append, List.length_append, htake]
    omega
  · rw [List.append_assoc, List.drop_append_of_le_length htake.ge, List.drop_eq_nil_of_le htake.le,
      List.nil_append]
    exact List.prefix_append _ _

/-- A text of which more than line breaks follows is not stripped. -/
theorem lt_length_rdropWhile {p : Char → Bool} {cs : List Char} {start : ℕ}
    (h : ∃ c ∈ cs.drop start, p c = false) : start < (cs.rdropWhile p).length := by
  obtain ⟨c, hc, hkept⟩ := h
  obtain ⟨before, after, hsplit⟩ := List.append_of_mem hc
  have hpart : before ++ [c] <+: cs.drop start := ⟨after, by rw [hsplit, List.append_assoc]; rfl⟩
  refine (isPrefix_drop_rdropWhile (by simp) (fun d hd => ?_) hpart).1
  have hlast : c = d := by simpa using hd
  exact hlast ▸ hkept

section Contents

variable {items : List Item} {entries : List Entry} {r r' : Render}

theorem Brings.exists_item (h : Brings items entries r r') {entry : Entry} (hentry : entry ∈ entries) :
    ∃ item ∈ items, item.content = some entry.content := by
  have hcontent := List.mem_map_of_mem (f := Entry.content) hentry
  rw [h.contents] at hcontent
  exact List.mem_filterMap.mp hcontent

/-- A heading is plain and not empty. -/
theorem Brings.plain_heading (h : Brings items entries r r') (hplain : ∀ item ∈ items, item.IsPlain)
    {s : Section} (hs : .ofSection s ∈ entries) : Plain s.heading ∧ s.heading ≠ "" := by
  obtain ⟨item, hitem, hcontent⟩ := h.exists_item hs
  have hisPlain := hplain item hitem
  cases item with
  | newline => cases hcontent
  | text s => cases hcontent
  | table cells => cases hcontent
  | heading level source title anchor =>
    rw [Item.content] at hcontent
    split at hcontent
    · cases hcontent
    · rename_i hne
      have htitle : title = s.heading := Sum.inl.inj (Option.some.inj hcontent)
      exact htitle ▸ ⟨hisPlain, hne⟩

/-- There is a table for each table of the document. -/
theorem Brings.length_tables (h : Brings items entries r r') :
    (entries.filterMap Entry.table?).length = items.countP Item.isTable := by
  have hentries :
      (entries.filterMap Entry.table?).length = (entries.map Entry.content).countP Sum.isRight := by
    rw [List.countP_map, List.length_filterMap_eq_countP]
    refine List.countP_congr fun entry _ => ?_
    cases entry <;> simp [Entry.table?, Entry.content]
  have hitems : (items.filterMap Item.content).countP Sum.isRight = items.countP Item.isTable := by
    rw [List.countP_filterMap]
    refine List.countP_congr fun item _ => ?_
    cases item with
    | newline => simp [Item.content, Item.isTable]
    | text s => simp [Item.content, Item.isTable]
    | table cells => simp [Item.content, Item.isTable]
    | heading level source title anchor =>
      by_cases htitle : title = "" <;> simp [Item.content, Item.isTable, htitle]
  rw [hentries, h.contents, hitems]

theorem Brings.eq_table {cells : List (List String)} (h : Brings [.table cells] entries r r') :
    ∃ t : Table, entries = [.ofTable t] ∧ t.cells = cells := by
  have hcontents : entries.map Entry.content = [.inr cells] := h.contents
  obtain ⟨entry, rfl, hentry⟩ := List.map_eq_singleton_iff.mp hcontents
  cases entry with
  | ofSection s => cases hentry
  | ofTable t => exact ⟨t, rfl, Sum.inr.inj hentry⟩

end Contents

theorem last_plain {s : String} (h : Plain s) : ∀ c ∈ s.toList.getLast?, decide (c = '\n') = false :=
  fun c hc => decide_eq_false (h c (List.mem_of_getLast? hc))

/-- The text of a table with a cell ends in one. -/
theorem last_renderCells {cells : List (List String)} (hplain : (Item.table cells).IsPlain) :
    ∀ c ∈ (renderCells cells).toList.getLast?, decide (c = '\n') = false := by
  rw [toList_renderCells]
  refine forall_getLast?_intercalate fun text htext => ?_
  obtain ⟨row, hrow, rfl⟩ := List.mem_map.mp htext
  obtain ⟨⟨cell, hcell, hne⟩, hcells⟩ := hplain row hrow
  obtain ⟨c, hc, -⟩ := (hcells cell hcell).exists_ne hne
  refine ⟨List.ne_nil_of_mem (mem_intercalate (List.mem_map_of_mem hcell) hc), fun d hd => ?_⟩
  have hchars := @forall_mem_intercalate (· ≠ '\n') [' ', '|', ' '] (row.map String.toList) (by simp)
    (List.forall_mem_map.mpr hcells)
  exact decide_eq_false (hchars d (List.mem_of_getLast? hd))

/-! ### The rendering of a document -/

/-- The offsets of a rendering are exact: the text has the heading of each section and the cells of each table
at its offset, the offsets follow the order of the document, and the words of the document are in the text.
A table without cells is in the text where more text follows it or none is before it. -/
structure IsExact (headingMap : ℕ → Option (ℕ × String)) (root : Node) (out : Rendered) : Prop where
  sections : ∀ s ∈ out.sections, s.charStart < out.text.length ∧
    s.heading.toList <+: out.text.toList.drop s.charStart
  tables : ∀ before cells after, itemsOf headingMap root.children = before ++ .table cells :: after →
    (cells = [] → (∃ item ∈ after, item.Visible) ∨ ∀ item ∈ before, ¬ item.Visible) →
    ∃ t, out.tables[before.countP Item.isTable]? = some t ∧ t.cells = cells ∧
      t.charStart ≤ out.text.length ∧ (renderCells cells).toList <+: out.text.toList.drop t.charStart
  sorted : ∃ entries : List Entry, out.sections = entries.filterMap Entry.section? ∧
    out.tables = entries.filterMap Entry.table? ∧
    entries.map Entry.content = (itemsOf headingMap root.children).filterMap Item.content ∧
    entries.Pairwise fun entry entry' => entry.start ≤ entry'.start
  words : (keptWordsOf headingMap root.children).Sublist (splitWords out.text)

section Final

variable (headingMap : ℕ → Option (ℕ × String)) (root : Node)

/-- The text is what the walk emits, without the line breaks at its end. -/
theorem toList_text : (renderStructured headingMap root).text.toList =
    (walk headingMap {} root.children).chars.rdropWhile (· = '\n') := by
  rw [renderStructured, String.toList_ofList, String.toList_join]
  rfl

theorem wellFormed_empty : Render.WellFormed {} := ⟨rfl, fun _ h => absurd h List.not_mem_nil⟩

/-- What the items of a document bring to an empty text. -/
theorem exists_brings : ∃ entries,
    Brings (itemsOf headingMap root.children) entries {} (walk headingMap {} root.children) := by
  rw [walk_eq_foldl]
  exact foldl_step wellFormed_empty (isPlain_itemsOf headingMap root.children)

/-- The words of the document are in the text that is not stripped, and stripping leaves them. -/
theorem sublist_keptWordsOf :
    (keptWordsOf headingMap root.children).Sublist (splitWords (renderStructured headingMap root).text) := by
  obtain ⟨entries, hbrings⟩ := exists_brings headingMap root
  have hstrip : ∀ c, decide (c = '\n') = true → isSpace c = true :=
    fun c hc => of_decide_eq_true hc ▸ by decide
  have hwords := hbrings.words
  rw [← @wordsOf_rdropWhile (walk headingMap {} root.children).chars _ hstrip, ← toList_text,
    ← map_toList_splitWords] at hwords
  have hitems : (((itemsOf headingMap root.children).flatMap Item.words).map String.toList).Sublist
      ((splitWords (renderStructured headingMap root).text).map String.toList) :=
    (List.sublist_append_right _ _).trans hwords
  have hback := hitems.map String.ofList
  have hid : String.ofList ∘ String.toList = id := funext fun _ => String.ofList_toList
  rw [List.map_map, List.map_map, hid, List.map_id, List.map_id] at hback
  exact (sublist_words_itemsOf headingMap root.children).trans hback

theorem sections_exact {s : Section} (hs : s ∈ (renderStructured headingMap root).sections) :
    s.charStart < (renderStructured headingMap root).text.length ∧
      s.heading.toList <+: (renderStructured headingMap root).text.toList.drop s.charStart := by
  obtain ⟨entries, hbrings⟩ := exists_brings headingMap root
  have hsections : (renderStructured headingMap root).sections = entries.filterMap Entry.section? :=
    hbrings.sections
  rw [hsections] at hs
  obtain ⟨entry, hentry, hsection⟩ := List.mem_filterMap.mp hs
  cases entry with
  | ofTable t => cases hsection
  | ofSection s' =>
    obtain rfl : s' = s := Option.some.inj hsection
    obtain ⟨hplain, hne⟩ := hbrings.plain_heading (isPlain_itemsOf headingMap root.children) hentry
    rw [← String.length_toList, toList_text]
    exact isPrefix_drop_rdropWhile (by simpa using hne) (last_plain hplain) (hbrings.exact_ _ hentry).2.2

/-- A table is at its offset, unless it is empty and only line breaks follow. -/
theorem tables_exact {before after : List Item} {cells : List (List String)}
    (hitems : itemsOf headingMap root.children = before ++ .table cells :: after)
    (hplace : cells = [] → (∃ item ∈ after, item.Visible) ∨ ∀ item ∈ before, ¬ item.Visible) :
    ∃ t, (renderStructured headingMap root).tables[before.countP Item.isTable]? = some t ∧ t.cells = cells ∧
      t.charStart ≤ (renderStructured headingMap root).text.length ∧
      (renderCells cells).toList <+: (renderStructured headingMap root).text.toList.drop t.charStart := by
  have hplain := isPlain_itemsOf headingMap root.children
  rw [hitems, List.forall_mem_append, List.forall_mem_cons] at hplain
  obtain ⟨hplainBefore, hplainTable, hplainAfter⟩ := hplain
  obtain ⟨entries, hbefore⟩ := foldl_step wellFormed_empty hplainBefore
  obtain ⟨entries', htable⟩ := brings_table hbefore.wellFormed cells hplainTable
  obtain ⟨entries'', hafter⟩ := foldl_step htable.wellFormed hplainAfter
  obtain ⟨t, rfl, rfl⟩ := htable.eq_table
  have hwalk : walk headingMap {} root.children =
      after.foldl Render.step ((before.foldl Render.step {}).emitTable t.cells) := by
    rw [walk_eq_foldl, hitems, List.foldl_append]
    rfl
  have htext := toList_text headingMap root
  rw [hwalk] at htext
  refine ⟨t, ?_, rfl, ?_⟩
  · have htables :
        (renderStructured headingMap root).tables = (walk headingMap {} root.children).tables := rfl
    rw [htables, hwalk, hafter.tables, htable.tables, hbefore.tables, ← hbefore.length_tables]
    simp [Entry.table?]
  · rw [← String.length_toList, htext]
    obtain ⟨-, hend, hexact⟩ := (htable.append hafter).exact_ _ List.mem_cons_self
    by_cases hcells : t.cells = []
    · have hempty : (renderCells t.cells).toList = [] := by
        rw [hcells]
        rfl
      rw [hempty]
      refine ⟨?_, List.nil_prefix⟩
      rcases hplace hcells with hvisible | hblank
      · obtain ⟨c, hc, hne⟩ := hafter.visible hvisible
        have hlt := @lt_length_rdropWhile (fun c => c = '\n') _ _ ⟨c, hc, decide_eq_false hne⟩
        exact (htable.exact_ _ List.mem_cons_self).2.1.trans hlt.le
      · have hparts := hbefore.blank hblank rfl
        have hpartsTable := htable.blank (fun item hitem => by
          rw [List.mem_singleton.mp hitem]
          exact not_not.mpr hcells) hparts
        have hstart := (htable.exact_ _ List.mem_cons_self).2.1
        rw [Render.chars, hpartsTable] at hstart
        exact hstart.trans (Nat.zero_le _)
    · obtain ⟨c, hc, -⟩ := exists_ne_renderCells hplainTable hcells
      have hkept := isPrefix_drop_rdropWhile (List.ne_nil_of_mem hc) (last_renderCells hplainTable) hexact
      exact ⟨hkept.1.le, hkept.2⟩

end Final

/-- A table with a caption. -/
def captioned : Node :=
  .tag 0 "body" [] [.tag 1 "table" [] [
    .tag 2 "caption" [] [.text "Revenue"],
    .tag 3 "tr" [] [.tag 4 "td" [] [.text "1"]]]]

/-- An empty table after a text. -/
def trailing : Node := .tag 0 "body" [] [.text "a", .tag 1 "table" [] []]

end Stel.Html
