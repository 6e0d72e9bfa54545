import Stel.Chunking.OverlapBand

/-!
# The sizes of recursive chunks

The segments of `_recurse` have at most the size of a chunk, and a tail has at most twice the
overlap, so a chunk has at most the size and twice the overlap.

## Main definitions

* `SizesHeld`: the invariant of `_merge_with_overlap` on the lengths.

## Main results

* `length_recurse_le`, `length_overlapTail_le`: the parts of a chunk.
* `splitText_length`: the chunks of `split_text`.
* `splitText_eq_error`: when `split_text` raises.
-/

namespace Stel.Chunking

/-! ### The parts of a chunk -/

theorem length_hardCut_le {size : ℕ} : ∀ (fuel : ℕ) (text : List Char),
    ∀ piece ∈ hardCut size fuel text, piece.length ≤ size := by
  intro fuel
  induction fuel with
  | zero => simp [hardCut]
  | succ fuel ih =>
    intro text piece hpiece
    rw [hardCut] at hpiece
    split at hpiece
    · cases hpiece
    · rcases List.mem_cons.mp hpiece with rfl | hpiece
      · exact List.length_take_le _ _
      · exact ih _ _ hpiece

/-- A segment has at most the size of a chunk. -/
theorem length_recurse_le {size : ℕ} (separators : List (List Char)) (text : List Char) :
    ∀ piece ∈ recurse size separators text, piece.length ≤ size := by
  induction separators generalizing text with
  | nil => exact length_hardCut_le _ _
  | cons sep remaining ih =>
    intro piece hpiece
    rw [recurse] at hpiece
    split at hpiece
    · rename_i hsize
      split at hpiece
      · cases hpiece
      · obtain rfl := List.mem_singleton.mp hpiece
        exact hsize
    split at hpiece
    · exact length_hardCut_le _ _ _ hpiece
    split at hpiece
    · obtain ⟨segment, -, hsegment⟩ := List.mem_flatMap.mp hpiece
      split at hsegment
      · rename_i hsize
        obtain rfl := List.mem_singleton.mp hsegment
        exact hsize
      · exact ih _ _ hsegment
    · exact ih _ _ hpiece

/-- A tail has at most twice the overlap. -/
theorem length_overlapTail_le (text : List Char) (overlap : ℕ) :
    (overlapTail text overlap).length ≤ 2 * overlap := by
  by_cases hpos : 0 < overlap
  · by_cases hlt : overlap < text.length
    · rcases overlapTail_cases hpos hlt with ⟨-, htail⟩ |
        ⟨-, sep, -, p, -, -, ⟨hearly, -⟩, -, -, htail⟩
      · rw [htail, List.length_drop]
        omega
      · rw [htail, List.length_drop]
        omega
    · have hsuffix := (overlapTail_suffix text overlap).length_le
      omega
  · obtain rfl : overlap = 0 := by omega
    simp [overlapTail]

theorem length_strip_le (text : List Char) : (strip text).length ≤ text.length :=
  (List.rdropWhile_prefix isSpace _).length_le.trans (List.dropWhile_suffix isSpace).length_le

/-! ### The merge -/

/-- The lengths of a run of `_merge_with_overlap`. -/
structure SizesHeld (bound : ℕ) (m : Merge) : Prop where
  chunks : ∀ c ∈ m.chunks, c.2.length ≤ bound
  current : m.current.length ≤ bound

variable {size overlap bound : ℕ}

theorem appendChunk_length {chunks : List (ℕ × List Char)} {start : ℕ} {window : List Char}
    (hchunks : ∀ c ∈ chunks, c.2.length ≤ bound) (hwindow : window.length ≤ bound) :
    ∀ c ∈ appendChunk chunks start window, c.2.length ≤ bound := by
  intro c hc
  rw [appendChunk] at hc
  split at hc
  · exact hchunks c hc
  · rcases List.mem_append.mp hc with hc | hc
    · exact hchunks c hc
    · obtain rfl := List.mem_singleton.mp hc
      exact (length_strip_le window).trans hwindow

/-- A split either still fits, or starts a chunk behind the tail of the last one. -/
theorem SizesHeld.step {m : Merge} {split : List Char} (h : SizesHeld (size + 2 * overlap) m)
    (hsplit : split.length ≤ size) : SizesHeld (size + 2 * overlap) (mergeStep size overlap m split) := by
  unfold mergeStep
  by_cases hfull : m.current ≠ [] ∧ size < m.current.length + split.length
  · rw [if_pos hfull]
    refine ⟨appendChunk_length h.chunks h.current, ?_⟩
    have htail := length_overlapTail_le m.current overlap
    rw [List.length_append]
    omega
  · rw [if_neg hfull]
    refine ⟨h.chunks, ?_⟩
    rw [List.length_append]
    rcases not_and_or.mp hfull with hempty | hfits
    · rw [not_not.mp hempty, List.length_nil]
      omega
    · omega

theorem SizesHeld.foldl {m : Merge} {splits : List (List Char)}
    (h : SizesHeld (size + 2 * overlap) m) (hsplits : ∀ split ∈ splits, split.length ≤ size) :
    SizesHeld (size + 2 * overlap) (splits.foldl (mergeStep size overlap) m) := by
  induction splits generalizing m with
  | nil => exact h
  | cons split splits ih =>
    exact ih (h.step (hsplits split List.mem_cons_self))
      fun split' hsplit' => hsplits split' (List.mem_cons_of_mem _ hsplit')

/-- A chunk has at most the size and twice the overlap. -/
theorem splitRecursive_length {text : List Char} :
    ∀ c ∈ splitRecursive text size overlap, c.2.length ≤ size + 2 * overlap := by
  have hinit : SizesHeld (size + 2 * overlap) {} := ⟨by simp, by simp⟩
  have hsplits : ∀ split ∈ recurse size recursiveSeparators text, split.length ≤ size :=
    length_recurse_le recursiveSeparators text
  have hheld := hinit.foldl hsplits
  exact appendChunk_length hheld.chunks hheld.current

/-! ### The text -/

section Text

variable {rt : TextRuntime} {text : String} {config : ChunkConfig} {reserved : ℕ}

/-- `split_text` raises exactly for a text that is not blank, if the reserved room leaves none for
text or none beyond the overlap. -/
theorem splitText_eq_error :
    (∃ message, splitText rt text config reserved = .error message) ↔
      ¬ isBlank text = true ∧ (config.chunkSize ≤ reserved ∨
        config.chunkSize - reserved ≤ config.chunkOverlap) := by
  unfold splitText
  dsimp only
  by_cases hblank : isBlank text = true
  · rw [if_pos hblank]
    simp [hblank]
  rw [if_neg hblank]
  by_cases hsize : config.chunkSize - reserved = 0
  · rw [if_pos hsize]
    exact iff_of_true ⟨_, rfl⟩ ⟨hblank, .inl (by omega)⟩
  rw [if_neg hsize]
  by_cases hoverlap : config.chunkSize - reserved ≤ config.chunkOverlap
  · rw [if_pos hoverlap]
    exact iff_of_true ⟨_, rfl⟩ ⟨hblank, .inr hoverlap⟩
  rw [if_neg hoverlap]
  refine iff_of_false (by simp) ?_
  rintro ⟨-, h | h⟩ <;> omega

/-- With the reserved room, a chunk has at most the size and twice the overlap. -/
theorem splitText_length (hstrategy : config.strategy = .recursive) {chunks : List Chunk}
    (h : splitText rt text config reserved = .ok chunks) :
    ∀ chunk ∈ chunks, reserved + chunk.text.toList.length ≤
      config.chunkSize + 2 * config.chunkOverlap := by
  intro chunk hchunk
  by_cases hblank : isBlank text = true
  · rw [splitText, if_pos hblank] at h
    obtain rfl := Except.ok.inj h
    cases hchunk
  have hroom : reserved + config.chunkOverlap < config.chunkSize := by
    by_contra hnone
    obtain ⟨message, herror⟩ : ∃ message, splitText rt text config reserved = .error message :=
      splitText_eq_error.mpr ⟨hblank, by omega⟩
    rw [herror] at h
    cases h
  rw [splitText, if_neg hblank, if_neg (by omega), if_neg (by omega)] at h
  obtain rfl := Except.ok.inj h
  obtain ⟨⟨piece, index⟩, hpiece, rfl⟩ := List.mem_map.mp hchunk
  have hmem := List.mem_of_getElem? (List.mk_mem_zipIdx_iff_getElem?.mp hpiece)
  rw [splitPieces, hstrategy] at hmem
  obtain ⟨placed, hplaced, rfl⟩ := List.mem_map.mp hmem
  have hlength := splitRecursive_length placed hplaced
  show reserved + (String.ofList placed.2).toList.length ≤ _
  rw [String.toList_ofList]
  omega

end Text

end Stel.Chunking
