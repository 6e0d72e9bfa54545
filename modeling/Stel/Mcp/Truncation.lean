import Stel.Mcp.Service

/-!
# Truncated texts

The snippets of a search and the chunks of a document are cut to a number of bytes. The cut may fall within
a character; the decoder drops what is left of it, and nothing else.

## Main results

* `truncateText_spec`: the longest prefix that fits, with a flag if it is not the whole text.
* `searchResult_snippet`, `documentChunk_text`: what the responses hold of a text.
-/

namespace Stel.Mcp

open AgentContext Hashing Utf8

/-! ### The cut -/

theorem utf8_eq_encode (s : String) : utf8 s = encode s.toList := by
  rw [utf8, String.toUTF8_eq_toByteArray, ← String.utf8Encode_toList, List.utf8Encode,
    List.toList_data_toByteArray, encode]

section Cut

variable {value kept : String} {limit : ℕ}

/-- The text is cut to the characters that fit. -/
theorem truncateText_fst : (truncateText value limit).1 = String.ofList (takeBytes limit value.toList) := by
  unfold truncateText
  dsimp only
  split
  · rename_i hfits
    rw [utf8_eq_encode] at hfits
    have hwhole := (prefix_takeBytes (List.prefix_refl value.toList) hfits).eq_of_length_le
      takeBytes_isPrefix.length_le
    rw [← hwhole, String.ofList_toList]
  · rw [utf8_eq_encode, decodeIgnore_take_encode]

theorem truncateText_isPrefix : (truncateText value limit).1.toList <+: value.toList := by
  rw [truncateText_fst, String.toList_ofList]
  exact takeBytes_isPrefix

theorem length_truncateText : (utf8 (truncateText value limit).1).length ≤ limit := by
  rw [truncateText_fst, utf8_eq_encode, String.toList_ofList]
  exact length_encode_takeBytes

theorem prefix_truncateText (h : kept.toList <+: value.toList) (hfits : (utf8 kept).length ≤ limit) :
    kept.toList <+: (truncateText value limit).1.toList := by
  rw [utf8_eq_encode] at hfits
  rw [truncateText_fst, String.toList_ofList]
  exact prefix_takeBytes h hfits

theorem truncateText_snd : (truncateText value limit).2 = true ↔ (truncateText value limit).1 ≠ value := by
  have hlength := @length_truncateText value limit
  unfold truncateText at hlength ⊢
  dsimp only at hlength ⊢
  split
  · simp
  · rename_i hlong
    rw [if_neg hlong] at hlength
    refine iff_of_true rfl fun heq => hlong ?_
    rwa [heq] at hlength

end Cut

/-- A text is cut to its longest prefix whose encoding fits, and the flag says that this is not the whole
text. -/
theorem truncateText_spec (value : String) (limit : ℕ) :
    (truncateText value limit).1.toList <+: value.toList ∧
      (utf8 (truncateText value limit).1).length ≤ limit ∧
      (∀ kept : String, kept.toList <+: value.toList → (utf8 kept).length ≤ limit →
        kept.toList <+: (truncateText value limit).1.toList) ∧
      ((truncateText value limit).2 = true ↔ (truncateText value limit).1 ≠ value) :=
  ⟨truncateText_isPrefix, length_truncateText, fun _ => prefix_truncateText, truncateText_snd⟩

/-! ### The responses -/

section Responses

variable {service : ContextService} {links : String → List ContextEntity}

/-- The snippet of a result is the cut text of its row. -/
theorem searchResult_snippet {resource : ContextResource} {item : ContextService.ReadableHit}
    {result : SearchContextResult}
    (h : service.searchResult resource links item = .ok result) :
    ∃ text, requiredString item.row "text" = .ok text ∧
      (result.snippet, result.snippetTruncated) = truncateText text service.settings.maxSnippetBytes := by
  obtain ⟨text, htext, h⟩ := bind_eq_ok.mp h
  obtain ⟨contextId, -, h⟩ := bind_eq_ok.mp h
  obtain ⟨documentId, -, h⟩ := bind_eq_ok.mp h
  obtain ⟨documentVersionId, -, h⟩ := bind_eq_ok.mp h
  obtain ⟨chunkId, -, h⟩ := bind_eq_ok.mp h
  obtain ⟨sourceVersion, -, h⟩ := bind_eq_ok.mp h
  obtain ⟨interval, -, h⟩ := bind_eq_ok.mp h
  obtain ⟨freshness, -, h⟩ := bind_eq_ok.mp h
  obtain ⟨citation, -, h⟩ := bind_eq_ok.mp h
  obtain ⟨lineage, -, h⟩ := bind_eq_ok.mp h
  obtain rfl := Except.ok.inj h
  exact ⟨text, htext, rfl⟩

/-- The text of a chunk is the cut text of its row. -/
theorem documentChunk_text {row : Row} {chunk : DocumentChunk}
    (h : service.documentChunk links row = .ok chunk) :
    ∃ text, requiredString row "text" = .ok text ∧
      (chunk.text, chunk.textTruncated) = truncateText text service.settings.maxChunkBytes := by
  obtain ⟨text, htext, h⟩ := bind_eq_ok.mp h
  obtain ⟨contextId, -, h⟩ := bind_eq_ok.mp h
  obtain ⟨chunkId, -, h⟩ := bind_eq_ok.mp h
  obtain ⟨chunkIndex, -, h⟩ := bind_eq_ok.mp h
  obtain ⟨citation, -, h⟩ := bind_eq_ok.mp h
  obtain rfl := Except.ok.inj h
  exact ⟨text, htext, rfl⟩

end Responses

end Stel.Mcp
