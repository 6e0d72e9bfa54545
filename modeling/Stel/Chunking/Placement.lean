import Stel.Chunking

/-!
# Placement of recursive chunks

The recursive splitter places its chunks exactly: each chunk is the text at its offset, without
surrounding whitespace, the offsets do not decrease, and every other character lies in a chunk.

## Main definitions

* `TextAt`: a non-whitespace character of the text at a position.
* `ChunksHeld`: the invariant of `_merge_with_overlap` on the emitted chunks.
* `MergeHeld`: the invariant on its locals.

## Main results

* `flatten_recurse`: the segments of `_recurse` concatenate back to the text.
* `split_recursive_exact`: the placed chunks of `_split_recursive`.
-/

namespace Stel.Chunking

variable {text : List Char}

/-! ### The segments -/

theorem splitSeparator_skip (sep : List Char) (skip : ℕ) (cs : List Char) :
    splitSeparator sep skip cs = splitSeparator sep 0 (cs.drop skip) := by
  induction cs generalizing skip with
  | nil => cases skip <;> rfl
  | cons c cs ih =>
    cases skip with
    | zero => rfl
    | succ skip => rw [splitSeparator, ih, List.drop_succ_cons]

theorem splitSeparator_ne_nil (sep : List Char) (skip : ℕ) (cs : List Char) :
    splitSeparator sep skip cs ≠ [] := by
  induction cs generalizing skip with
  | nil => cases skip <;> simp [splitSeparator]
  | cons c cs ih =>
    cases skip with
    | zero =>
      rw [splitSeparator]
      split
      · simp
      · simpa using ih 0
    | succ skip => exact ih skip

theorem flatten_reattach_cons (sep part : List Char) {parts : List (List Char)} (h : parts ≠ []) :
    (reattach sep (part :: parts)).flatten = part ++ sep ++ (reattach sep parts).flatten := by
  rw [reattach, List.flatten_cons]
  exact h

theorem flatten_reattach_modifyHead (sep : List Char) (c : Char) {parts : List (List Char)}
    (h : parts ≠ []) :
    (reattach sep (parts.modifyHead (c :: ·))).flatten = c :: (reattach sep parts).flatten := by
  obtain ⟨part, parts, rfl⟩ := List.exists_cons_of_ne_nil h
  rw [List.modifyHead_cons]
  cases parts with
  | nil => simp [reattach]
  | cons next parts => simp [flatten_reattach_cons]

/-- The parts with their separators are the text. -/
theorem flatten_reattach_splitSeparator {sep : List Char} (hsep : sep ≠ []) (text : List Char) :
    (reattach sep (splitSeparator sep 0 text)).flatten = text := by
  obtain ⟨n, hn⟩ : ∃ n, text.length ≤ n := ⟨_, le_rfl⟩
  induction n generalizing text with
  | zero =>
    obtain rfl := List.length_eq_zero_iff.mp (Nat.le_zero.mp hn)
    rfl
  | succ n ih =>
    cases text with
    | nil => rfl
    | cons c cs =>
      have hcs : cs.length ≤ n := Nat.le_of_succ_le_succ hn
      rw [splitSeparator]
      split
      · rename_i hprefix
        obtain ⟨rest, hrest⟩ := hprefix
        obtain ⟨s, sep, rfl⟩ := List.exists_cons_of_ne_nil hsep
        obtain ⟨rfl, rfl⟩ := List.cons.inj hrest
        rw [flatten_reattach_cons _ _ (splitSeparator_ne_nil _ _ _), splitSeparator_skip, ih]
        · simp
        · simp only [List.length_drop]
          omega
      · rw [flatten_reattach_modifyHead _ _ (splitSeparator_ne_nil _ _ _), ih cs hcs]

theorem flatten_hardCut {size : ℕ} (hsize : 1 ≤ size) (fuel : ℕ) (text : List Char)
    (h : text.length ≤ fuel) : (hardCut size fuel text).flatten = text := by
  induction fuel generalizing text with
  | zero =>
    obtain rfl := List.length_eq_zero_iff.mp (Nat.le_zero.mp h)
    rfl
  | succ fuel ih =>
    rw [hardCut]
    split
    · rename_i hempty
      rw [hempty, List.flatten_nil]
    · rename_i hne
      have hpos := List.length_pos_of_ne_nil hne
      rw [List.flatten_cons, ih _ (by rw [List.length_drop]; omega), List.take_append_drop]

/-- The segments concatenate back to the text. -/
theorem flatten_recurse {size : ℕ} (hsize : 1 ≤ size) (separators : List (List Char))
    (text : List Char) : (recurse size separators text).flatten = text := by
  induction separators generalizing text with
  | nil => exact flatten_hardCut hsize _ _ le_rfl
  | cons sep remaining ih =>
    rw [recurse]
    split
    · split
      · rename_i hempty
        rw [hempty, List.flatten_nil]
      · exact List.flatten_singleton
    split
    · exact flatten_hardCut hsize _ _ le_rfl
    split
    · rename_i hsep _
      have hsegment : ∀ segment : List Char,
          (if segment.length ≤ size then [segment] else recurse size remaining segment).flatten =
            segment := by
        intro segment
        split
        · exact List.flatten_singleton
        · exact ih segment
      rw [List.flatMap_def, List.flatten_flatten, List.map_map]
      simp only [Function.comp_def, hsegment, List.map_id']
      rw [List.flatten_filter_ne_nil, flatten_reattach_splitSeparator hsep]
    · exact ih text

/-! ### Stripped windows -/

/-- The text has a character other than whitespace at the position. -/
def TextAt (text : List Char) (p : ℕ) : Prop := ∃ c, text[p]? = some c ∧ isSpace c = false

/-- No whitespace at either end. -/
def Stripped (piece : List Char) : Prop :=
  (∀ c ∈ piece.head?, isSpace c = false) ∧ ∀ c ∈ piece.getLast?, isSpace c = false

/-- What `strip` removes. -/
theorem strip_spec (window : List Char) : ∃ lead trail,
    window = lead ++ (strip window ++ trail) ∧
      window.length - (lstrip window).length = lead.length ∧
      (∀ c ∈ lead, isSpace c = true) ∧ (∀ c ∈ trail, isSpace c = true) ∧
      Stripped (strip window) := by
  refine ⟨window.takeWhile isSpace, (lstrip window).rtakeWhile isSpace, ?_, ?_, ?_, ?_, ?_, ?_⟩
  · rw [strip, List.rdropWhile_append_rtakeWhile, lstrip, List.takeWhile_append_dropWhile]
  · have hlen := congrArg List.length (List.takeWhile_append_dropWhile (p := isSpace) (l := window))
    rw [List.length_append] at hlen
    rw [lstrip]
    omega
  · exact fun c hc => List.mem_takeWhile_imp hc
  · exact fun c hc => List.mem_rtakeWhile_imp hc
  · intro c hc
    obtain ⟨rest, hrest⟩ := List.rdropWhile_prefix (p := isSpace) (l := lstrip window)
    have hhead : (lstrip window).head? = some c := by
      rw [← hrest, List.head?_append_of_ne_nil]
      · exact hc
      · intro hnil
        rw [strip, hnil] at hc
        cases hc
    have hdrop := List.head?_dropWhile_not isSpace window
    rw [lstrip] at hhead
    rw [hhead] at hdrop
    simpa using hdrop
  · intro c hc
    have hne : strip window ≠ [] := by
      intro hnil
      rw [hnil] at hc
      cases hc
    have hlast := List.rdropWhile_last_not isSpace (lstrip window) hne
    rw [List.getLast?_eq_some_getLast hne] at hc
    rw [← Option.some.inj hc]
    exact Bool.eq_false_of_not_eq_true hlast

/-! ### The emitted chunks -/

/-- The chunks emitted for the text before the offset `upTo`, in order. -/
structure ChunksHeld (text : List Char) (chunks : List (ℕ × List Char)) (upTo : ℕ) : Prop where
  placed : ∀ c ∈ chunks, c.2 <+: text.drop c.1
  nonempty : ∀ c ∈ chunks, c.2 ≠ []
  stripped : ∀ c ∈ chunks, Stripped c.2
  sorted : chunks.Pairwise (·.1 ≤ ·.1)
  /-- A chunk starts at or before the text that is still to come. -/
  before : ∀ c ∈ chunks, ∀ p, upTo ≤ p → TextAt text p → c.1 ≤ p
  covered : ∀ p < upTo, TextAt text p → ∃ c ∈ chunks, c.1 ≤ p ∧ p < c.1 + c.2.length

theorem ChunksHeld.empty : ChunksHeld text [] 0 where
  placed := by simp
  nonempty := by simp
  stripped := by simp
  sorted := .nil
  before := by simp
  covered := by simp

/-- A character of a window that is not whitespace lies in its stripped part. -/
theorem TextAt.of_window {start p : ℕ} {lead piece trail post : List Char}
    (h : text.drop start = lead ++ (piece ++ trail) ++ post) (hlead : ∀ c ∈ lead, isSpace c = true)
    (htrail : ∀ c ∈ trail, isSpace c = true) (hp : TextAt text p) (hstart : start ≤ p)
    (hend : p < start + (lead ++ (piece ++ trail)).length) :
    start + lead.length ≤ p ∧ p < start + lead.length + piece.length := by
  obtain ⟨c, hc, hspace⟩ := hp
  obtain ⟨i, rfl⟩ := Nat.exists_eq_add_of_le hstart
  rw [← List.getElem?_drop, h, List.getElem?_append_left (by omega)] at hc
  have hlead' : lead.length ≤ i := by
    by_contra hlt
    rw [List.getElem?_append_left (by omega)] at hc
    rw [hlead c (List.mem_of_getElem? hc)] at hspace
    cases hspace
  rw [List.getElem?_append_right hlead'] at hc
  have hpiece : i - lead.length < piece.length := by
    by_contra hge
    rw [List.getElem?_append_right (by omega)] at hc
    rw [htrail c (List.mem_of_getElem? hc)] at hspace
    cases hspace
  omega

/-- The first character of a stripped piece. -/
theorem TextAt.of_head {start : ℕ} {piece : List Char} (h : piece <+: text.drop start)
    (hne : piece ≠ []) (hstripped : Stripped piece) : TextAt text start := by
  obtain ⟨c, piece, rfl⟩ := List.exists_cons_of_ne_nil hne
  obtain ⟨post, hpost⟩ := h
  refine ⟨c, ?_, hstripped.1 c rfl⟩
  rw [← Nat.add_zero start, ← List.getElem?_drop, ← hpost]
  rfl

/-- Emitting the window that starts where the emitted chunks end. The next window starts inside it
or at its end. -/
theorem ChunksHeld.append {chunks : List (ℕ × List Char)} {start next : ℕ} {window : List Char}
    (h : ChunksHeld text chunks start) (hwindow : window <+: text.drop start) (hnext : start ≤ next)
    (hend : next ≤ start + window.length) :
    ChunksHeld text (appendChunk chunks start window) next := by
  obtain ⟨lead, trail, hsplit, hlength, hlead, htrail, hstripped⟩ := strip_spec window
  obtain ⟨post, hpost⟩ := hwindow
  have hdrop : text.drop start = lead ++ (strip window ++ trail) ++ post := by
    rw [← hsplit, hpost]
  -- what is not whitespace in the window lies in the stripped piece
  have hinside : ∀ p, start ≤ p → p < start + window.length → TextAt text p →
      start + lead.length ≤ p ∧ p < start + lead.length + (strip window).length := by
    intro p hle hlt hp
    exact hp.of_window hdrop hlead htrail hle (by rw [← hsplit]; exact hlt)
  unfold appendChunk
  split
  · rename_i hempty
    refine ⟨h.placed, h.nonempty, h.stripped, h.sorted,
      fun c hc p hle => h.before c hc p (hnext.trans hle), fun p hlt hp => ?_⟩
    by_cases hle : start ≤ p
    · have hin := hinside p hle (by omega) hp
      rw [hempty, List.length_nil] at hin
      omega
    · exact h.covered p (by omega) hp
  · rename_i hne
    rw [hlength]
    have hplaced : strip window <+: text.drop (start + lead.length) := by
      rw [← List.drop_drop, hdrop, List.append_assoc, List.drop_left, List.append_assoc]
      exact List.prefix_append _ _
    have hfirst := TextAt.of_head hplaced hne hstripped
    refine ⟨?_, ?_, ?_, ?_, ?_, ?_⟩
    · simpa only [List.forall_mem_append, List.forall_mem_singleton] using ⟨h.placed, hplaced⟩
    · simpa only [List.forall_mem_append, List.forall_mem_singleton] using ⟨h.nonempty, hne⟩
    · simpa only [List.forall_mem_append, List.forall_mem_singleton] using ⟨h.stripped, hstripped⟩
    · refine List.pairwise_append.mpr ⟨h.sorted, List.pairwise_singleton _ _, fun c hc d hd => ?_⟩
      obtain rfl := List.mem_singleton.mp hd
      exact h.before c hc _ (Nat.le_add_right _ _) hfirst
    · intro c hc p hle hp
      rcases List.mem_append.mp hc with hc | hc
      · exact h.before c hc p (hnext.trans hle) hp
      · obtain rfl := List.mem_singleton.mp hc
        by_cases hlt : p < start + window.length
        · exact (hinside p (hnext.trans hle) hlt hp).1
        · have hlen := congrArg List.length hsplit
          rw [List.length_append] at hlen
          show start + lead.length ≤ p
          omega
    · intro p hlt hp
      by_cases hle : start ≤ p
      · exact ⟨_, List.mem_append_right _ (List.mem_singleton_self _),
          hinside p hle (by omega) hp⟩
      · obtain ⟨c, hc, hin⟩ := h.covered p (by omega) hp
        exact ⟨c, List.mem_append_left _ hc, hin⟩

/-! ### The loop -/

/-- The invariant of the loop of `_merge_with_overlap`: the current window ends at the position that
was reached, and the chunks before it were emitted. -/
structure MergeHeld (text : List Char) (m : Merge) (todo : List (List Char)) : Prop where
  rest : text.drop m.position = todo.flatten
  total : m.position + todo.flatten.length = text.length
  reached : m.currentStart + m.current.length = m.position
  window : m.current <+: text.drop m.currentStart
  chunks : ChunksHeld text m.chunks m.currentStart

theorem overlapTail_suffix (window : List Char) (overlap : ℕ) :
    overlapTail window overlap <:+ window := by
  unfold overlapTail
  split
  · exact List.nil_suffix
  split
  · exact List.suffix_rfl
  · exact List.drop_suffix _ _

/-- A window with the text behind it is a window. -/
theorem window_append {start position : ℕ} {window split : List Char} {rest : List Char}
    (hwindow : window <+: text.drop start) (hreached : start + window.length = position)
    (hrest : text.drop position = split ++ rest) : window ++ split <+: text.drop start := by
  obtain ⟨post, hpost⟩ := hwindow
  have hdrop : text.drop position = post := by
    rw [← hreached, ← List.drop_drop, ← hpost, List.drop_left]
  refine ⟨rest, ?_⟩
  rw [List.append_assoc, ← hrest, hdrop, hpost]

/-- One pass of the loop. -/
theorem MergeHeld.step {m : Merge} {split : List Char} {todo : List (List Char)} (size overlap : ℕ)
    (h : MergeHeld text m (split :: todo)) : MergeHeld text (mergeStep size overlap m split) todo := by
  obtain ⟨hrest, htotal, hreached, hwindow, hchunks⟩ := h
  rw [List.flatten_cons] at hrest htotal
  rw [List.length_append, ← Nat.add_assoc] at htotal
  have hnext : text.drop (m.position + split.length) = todo.flatten := by
    rw [← List.drop_drop, hrest, List.drop_left]
  unfold mergeStep
  split
  · obtain ⟨front, hfront⟩ := overlapTail_suffix m.current overlap
    set tail := overlapTail m.current overlap
    have hlen := congrArg List.length hfront
    rw [List.length_append] at hlen
    have hstart : m.position - tail.length = m.currentStart + front.length := by omega
    have htail : tail <+: text.drop (m.position - tail.length) := by
      obtain ⟨post, hpost⟩ := hwindow
      rw [hstart, ← List.drop_drop, ← hpost, ← hfront, List.append_assoc, List.drop_left]
      exact List.prefix_append _ _
    have hback : m.position - tail.length + tail.length = m.position := by omega
    refine ⟨hnext, htotal, ?_, window_append htail hback hrest, hchunks.append hwindow ?_ ?_⟩
    · simp only [List.length_append]
      omega
    · show m.currentStart ≤ m.position - tail.length
      omega
    · show m.position - tail.length ≤ m.currentStart + m.current.length
      omega
  · have hsame : (if m.current = [] then m.position else m.currentStart) = m.currentStart := by
      split
      · rename_i hempty
        rw [← hreached, hempty, List.length_nil, Nat.add_zero]
      · rfl
    rw [hsame]
    refine ⟨hnext, htotal, ?_, window_append hwindow hreached hrest, hchunks⟩
    simp only [List.length_append]
    omega

theorem MergeHeld.foldl {m : Merge} {todo : List (List Char)} (size overlap : ℕ)
    (h : MergeHeld text m todo) : MergeHeld text (todo.foldl (mergeStep size overlap) m) [] := by
  induction todo generalizing m with
  | nil => exact h
  | cons split todo ih => exact ih (h.step size overlap)

/-- The chunks of a merge of segments. -/
theorem mergeWithOverlap_held (splits : List (List Char)) (size overlap : ℕ) :
    ChunksHeld splits.flatten (mergeWithOverlap splits size overlap) splits.flatten.length := by
  have hinit : MergeHeld splits.flatten {} splits :=
    ⟨rfl, Nat.zero_add _, rfl, List.nil_prefix, .empty⟩
  obtain ⟨-, htotal, hreached, hwindow, hchunks⟩ := hinit.foldl size overlap
  rw [List.flatten_nil, List.length_nil, Nat.add_zero] at htotal
  refine hchunks.append hwindow ?_ ?_ <;> omega

/-- **Recursive chunks are placed exactly.** Each chunk is the text at its offset, nonempty and
without whitespace at its ends, the offsets do not decrease, and every other character of the text
lies in a chunk. -/
theorem split_recursive_exact (text : List Char) {size : ℕ} (hsize : 1 ≤ size) (overlap : ℕ) :
    (∀ c ∈ splitRecursive text size overlap,
      (text.drop c.1).take c.2.length = c.2 ∧ c.2 ≠ [] ∧ Stripped c.2) ∧
    (splitRecursive text size overlap).Pairwise (·.1 ≤ ·.1) ∧
    ∀ p, TextAt text p → ∃ c ∈ splitRecursive text size overlap, c.1 ≤ p ∧ p < c.1 + c.2.length := by
  have hheld := mergeWithOverlap_held (recurse size recursiveSeparators text) size overlap
  rw [flatten_recurse hsize] at hheld
  refine ⟨fun c hc => ⟨?_, hheld.nonempty c hc, hheld.stripped c hc⟩, hheld.sorted, fun p hp => ?_⟩
  · exact (List.prefix_iff_eq_take.mp (hheld.placed c hc)).symm
  · obtain ⟨c, hc, -⟩ := id hp
    exact hheld.covered p (List.getElem?_eq_some_iff.mp hc).1 hp

/-- A text with a paragraph break, cut into pieces of at most ten characters. -/
theorem split_recursive_exact_paragraphs :
    (∀ c ∈ splitRecursive "one two\n\n three four".toList 10 4,
      ("one two\n\n three four".toList.drop c.1).take c.2.length = c.2 ∧ c.2 ≠ [] ∧ Stripped c.2) ∧
    (splitRecursive "one two\n\n three four".toList 10 4).map Prod.fst = [0, 10, 10] := by
  exact ⟨(split_recursive_exact _ (by decide) 4).1, by decide⟩

end Stel.Chunking
