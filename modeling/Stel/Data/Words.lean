import Stel.Data.Text
import Mathlib.Data.List.DropRight

/-!
# Words

The words of a text, by its characters: how they are composed from those of its parts.

## Main definitions

* `Text.wordsOf`: the words between whitespace.
* `Text.AtBoundary`: a text after which a word begins.

## Main results

* `Text.wordsOf_append`: the words of parts that meet at a boundary.
* `Text.splitWords_join`: words that are joined by spaces.
-/

namespace Stel.Text

/-- The words of a text. -/
def wordsOf (cs : List Char) : List (List Char) := (cs.splitOnP isSpace).filter (· ≠ [])

/-- A text without whitespace that is not empty. -/
def IsWord (word : List Char) : Prop := word ≠ [] ∧ ∀ c ∈ word, isSpace c = false

/-- The text is empty or ends in whitespace. -/
def AtBoundary (cs : List Char) : Prop := ∀ c ∈ cs.getLast?, isSpace c = true

variable {cs ds : List Char} {c : Char}

theorem splitWords_eq (s : String) : splitWords s = (wordsOf s.toList).map String.ofList := rfl

@[simp] theorem wordsOf_nil : wordsOf [] = [] := rfl

theorem wordsOf_append_cons (hc : isSpace c = true) :
    wordsOf (cs ++ c :: ds) = wordsOf cs ++ wordsOf ds := by
  rw [wordsOf, List.splitOnP_append_cons cs ds hc, List.filter_append]
  rfl

theorem wordsOf_cons (hc : isSpace c = true) : wordsOf (c :: cs) = wordsOf cs :=
  @wordsOf_append_cons [] cs c hc

/-- Whitespace at the end brings no words. -/
theorem wordsOf_append_blank (h : ∀ c ∈ ds, isSpace c = true) : wordsOf (cs ++ ds) = wordsOf cs := by
  induction ds generalizing cs with
  | nil => rw [List.append_nil]
  | cons d ds ih =>
    obtain ⟨hd, hrest⟩ := List.forall_mem_cons.mp h
    have hblank : wordsOf ([] ++ ds) = wordsOf [] := ih hrest
    rw [wordsOf_append_cons hd, ← List.nil_append ds, hblank, wordsOf_nil, List.append_nil]

/-- The words of parts that meet at a boundary. -/
theorem wordsOf_append (h : AtBoundary cs) : wordsOf (cs ++ ds) = wordsOf cs ++ wordsOf ds := by
  rcases List.eq_nil_or_concat' cs with rfl | ⟨init, c, rfl⟩
  · rfl
  · have hc : isSpace c = true := h c (by simp)
    rw [List.append_assoc, List.singleton_append, wordsOf_append_cons hc, wordsOf_append_cons hc, wordsOf_nil,
      List.append_nil]

theorem wordsOf_dropWhile : wordsOf (cs.dropWhile isSpace) = wordsOf cs := by
  induction cs with
  | nil => rfl
  | cons c cs ih =>
    cases hc : isSpace c with
    | true => rw [List.dropWhile_cons_of_pos hc, ih, wordsOf_cons hc]
    | false => rw [List.dropWhile_cons_of_neg (by simp [hc])]

/-- What is stripped at the end brings no words. -/
theorem wordsOf_rdropWhile {p : Char → Bool} (hp : ∀ c, p c = true → isSpace c = true) :
    wordsOf (cs.rdropWhile p) = wordsOf cs := by
  induction cs using List.reverseRecOn with
  | nil => rfl
  | append_singleton cs c ih =>
    cases hc : p c with
    | true =>
      have hblank : ∀ d ∈ [c], isSpace d = true := fun d hd => List.mem_singleton.mp hd ▸ hp c hc
      rw [List.rdropWhile_concat_pos _ _ _ hc, ih, wordsOf_append_blank hblank]
    | false => rw [List.rdropWhile_concat_neg _ _ _ (by simp [hc])]

theorem wordsOf_word {word : List Char} (h : IsWord word) : wordsOf word = [word] := by
  rw [wordsOf, List.splitOnP_eq_singleton h.2]
  simp [h.1]

theorem not_isSpace_of_mem_splitOnP {word : List Char} (h : word ∈ cs.splitOnP isSpace) :
    ∀ d ∈ word, isSpace d = false := by
  induction cs generalizing word with
  | nil =>
    obtain rfl := List.mem_singleton.mp h
    exact fun d hd => absurd hd List.not_mem_nil
  | cons c cs ih =>
    rw [List.splitOnP_cons_eq_if_modifyHead] at h
    cases hc : isSpace c with
    | true =>
      rw [if_pos hc] at h
      rcases List.mem_cons.mp h with rfl | h
      · exact fun d hd => absurd hd List.not_mem_nil
      · exact ih h
    | false =>
      obtain ⟨first, rest, hsplit⟩ := List.exists_cons_of_ne_nil (List.splitOnP_ne_nil isSpace cs)
      rw [hsplit] at ih
      rw [if_neg (by simp [hc]), hsplit, List.modifyHead_cons] at h
      rcases List.mem_cons.mp h with rfl | h
      · exact List.forall_mem_cons.mpr ⟨hc, ih List.mem_cons_self⟩
      · exact ih (List.mem_cons_of_mem _ h)

theorem isWord_of_mem_wordsOf {word : List Char} (h : word ∈ wordsOf cs) : IsWord word := by
  obtain ⟨hmem, hne⟩ := List.mem_filter.mp h
  exact ⟨of_decide_eq_true hne, not_isSpace_of_mem_splitOnP hmem⟩

/-- The words of texts that are joined by whitespace. -/
theorem wordsOf_intercalate {sep : Char} (hsep : isSpace sep = true) {texts : List (List Char)} :
    wordsOf ([sep].intercalate texts) = texts.flatMap wordsOf := by
  induction texts with
  | nil => rfl
  | cons text texts ih =>
    cases texts with
    | nil => rw [List.intercalate_singleton, List.flatMap_singleton]
    | cons next texts =>
      rw [List.intercalate_cons_cons, List.append_assoc, List.singleton_append, wordsOf_append_cons hsep, ih,
        @List.flatMap_cons _ _ text]

theorem map_toList_splitWords (s : String) : (splitWords s).map String.toList = wordsOf s.toList := by
  rw [splitWords_eq, List.map_map]
  exact (List.map_congr_left fun word _ => String.toList_ofList).trans (List.map_id _)

/-- The words of texts that are joined by spaces. -/
theorem splitWords_intercalate (texts : List String) :
    splitWords (" ".intercalate texts) = texts.flatMap splitWords := by
  have hsep : " ".toList = [' '] := rfl
  rw [splitWords_eq, String.toList_intercalate, hsep, wordsOf_intercalate (by decide), List.flatMap_map,
    List.map_flatMap]
  rfl

theorem splitWords_of_mem {s word : String} (h : word ∈ splitWords s) : splitWords word = [word] := by
  obtain ⟨cs, hcs, rfl⟩ := List.mem_map.mp h
  rw [splitWords_eq, String.toList_ofList, wordsOf_word (isWord_of_mem_wordsOf hcs), List.map_singleton]

/-- The words of a text that is put together again are its words. -/
theorem splitWords_join (s : String) : splitWords (" ".intercalate (splitWords s)) = splitWords s := by
  rw [splitWords_intercalate, List.flatMap_congr fun word hword => splitWords_of_mem hword,
    List.flatMap_singleton']

/-! ### Joined texts -/

theorem mem_intercalate {sep : List Char} {texts : List (List Char)} (hmem : cs ∈ texts) (hc : c ∈ cs) :
    c ∈ sep.intercalate texts := by
  induction texts with
  | nil => cases hmem
  | cons text texts ih =>
    cases texts with
    | nil =>
      obtain rfl := List.mem_singleton.mp hmem
      rwa [List.intercalate_singleton]
    | cons next texts =>
      rw [List.intercalate_cons_cons, List.mem_append, List.mem_append]
      rcases List.mem_cons.mp hmem with rfl | hmem
      · exact .inl (.inl hc)
      · exact .inr (ih hmem)

theorem forall_mem_intercalate {P : Char → Prop} {sep : List Char} {texts : List (List Char)}
    (hsep : ∀ c ∈ sep, P c) (h : ∀ text ∈ texts, ∀ c ∈ text, P c) : ∀ c ∈ sep.intercalate texts, P c := by
  induction texts with
  | nil => exact fun c hc => absurd hc List.not_mem_nil
  | cons text texts ih =>
    obtain ⟨htext, htexts⟩ := List.forall_mem_cons.mp h
    cases texts with
    | nil => rwa [List.intercalate_singleton]
    | cons next texts =>
      intro c hc
      rw [List.intercalate_cons_cons, List.mem_append, List.mem_append] at hc
      rcases hc with (hc | hc) | hc
      · exact htext c hc
      · exact hsep c hc
      · exact ih htexts c hc

/-- The last character of joined texts is that of the last one. -/
theorem forall_getLast?_intercalate {P : Char → Prop} {sep : List Char} {texts : List (List Char)}
    (h : ∀ text ∈ texts, text ≠ [] ∧ ∀ c ∈ text.getLast?, P c) :
    ∀ c ∈ (sep.intercalate texts).getLast?, P c := by
  induction texts with
  | nil => exact fun c hc => absurd hc (by simp)
  | cons text texts ih =>
    obtain ⟨htext, htexts⟩ := List.forall_mem_cons.mp h
    cases texts with
    | nil =>
      rw [List.intercalate_singleton]
      exact htext.2
    | cons next texts =>
      obtain ⟨c, hc⟩ := List.exists_mem_of_ne_nil _ (htexts next List.mem_cons_self).1
      have hne : sep.intercalate (next :: texts) ≠ [] :=
        List.ne_nil_of_mem (mem_intercalate List.mem_cons_self hc)
      rw [List.intercalate_cons_cons, List.getLast?_append_of_ne_nil _ hne]
      exact ih htexts

end Stel.Text
