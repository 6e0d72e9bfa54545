import Stel.Chunking.Sizes
import Stel.Execution.Chunk

/-!
# The sizes of emitted chunks

A chunk model prepends the metadata block to every piece of a document after it has taken the
length of the block from the room of the splitter. So the emitted texts, block included, keep the
bound that holds without a block.

## Main definitions

* `WithinSize`: the text of a chunk row keeps the bound of its configuration.
* `ChunkConfig.withoutMetadata`: the configuration without a block.

## Main results

* `chunkTexts_withinSize`: the texts that a chunk model emits, and when `split_text` raises.
-/

namespace Stel.Execution

open Stel.Warehouse Stel.Chunking

/-- The text of a row has at most `chunk_size + 2 * chunk_overlap` characters, and at most
`chunk_size` if chunks do not overlap. -/
def WithinSize (config : ChunkConfig) (row : Row) : Prop :=
  ∃ text, row "text" = .string text ∧
    text.toList.length ≤ config.chunkSize + 2 * config.chunkOverlap ∧
    (config.chunkOverlap = 0 → text.toList.length ≤ config.chunkSize)

/-- The configuration without a metadata block. -/
def withoutMetadata (config : ChunkConfig) : ChunkConfig :=
  { config with
    inTextMetadata := []
    metadata_nodup := List.nodup_nil
    text_notMem := List.not_mem_nil }

variable {rt : ChunkRuntime} {model : ChunkModel} {config : ChunkConfig} {columns : List String}
  {chunkedAt : String}

/-! ### The rows -/

/-- The text of a chunk row. -/
theorem chunkRow_text {carried : List (String × Cell)} {documentId text codeVersion : String}
    {pieceIndex chunkCount : ℕ} {sectionName : Option String} {row : Row}
    (h : chunkRow rt config carried documentId pieceIndex chunkCount text codeVersion chunkedAt
      sectionName = .ok row) : row "text" = .string text := by
  obtain ⟨id, -, hrow⟩ := bind_eq_ok.mp h
  obtain rfl := Except.ok.inj hrow
  rw [dictRow, List.append_assoc, List.lookup_append, lookup_sectionColumn sectionName (by decide)]
  rfl

/-- The rows of a document keep the bound: the block was taken from the room of the pieces. -/
theorem documentRows_withinSize (hstrategy : config.strategy = .recursive) {documentId : String}
    {record : Row} {rows : List Row}
    (h : documentRows rt model config columns chunkedAt documentId record = .ok rows) :
    ∀ row ∈ rows, WithinSize config row := by
  intro row hrow
  simp only [documentRows] at h
  split at h
  · cases h
  rename_i pieces hpieces
  obtain ⟨piece, hpiece, hchunk⟩ := exists_of_mem_right (mapM_eq_ok.mp h) hrow
  have hblock : (renderMetadataBlock record config.inTextMetadata).toList.length =
      if renderMetadataBlock record config.inTextMetadata = "" then 0
      else Chunking.measure rt.toTextRuntime (renderMetadataBlock record config.inTextMetadata) config := by
    split
    · rename_i hempty
      rw [hempty]
      rfl
    · rw [Chunking.measure, hstrategy]
  have hlength := splitText_length hstrategy hpieces piece hpiece
  rw [← hblock, ← List.length_append, ← String.toList_append] at hlength
  exact ⟨_, chunkRow_text hchunk, hlength, fun hoverlap => by rw [hoverlap] at hlength; exact hlength⟩

/-- The rows of the loop are rows of its documents. -/
theorem chunkDocuments_rows {previous : String → Option StateValue}
    {documents : List (String × Row)} {loop : ChunkLoop}
    (h : chunkDocuments rt model config columns chunkedAt previous documents = .ok loop) :
    ∀ row ∈ loop.rows, ∃ document ∈ documents, ∃ rows,
      documentRows rt model config columns chunkedAt document.1 document.2 = .ok rows ∧
        row ∈ rows := by
  induction documents generalizing loop with
  | nil =>
    obtain rfl := Except.ok.inj h
    simp
  | cons document documents ih =>
    have hlater : ∀ {rest : ChunkLoop} {row : Row},
        chunkDocuments rt model config columns chunkedAt previous documents = .ok rest →
        row ∈ rest.rows → ∃ document' ∈ document :: documents, ∃ rows,
          documentRows rt model config columns chunkedAt document'.1 document'.2 = .ok rows ∧
            row ∈ rows := by
      intro rest row hrest hrow
      obtain ⟨document', hmem, hrows⟩ := ih hrest row hrow
      exact ⟨document', List.mem_cons_of_mem _ hmem, hrows⟩
    intro row hrow
    simp only [chunkDocuments] at h
    split at h
    · obtain ⟨rest, hrest, hloop⟩ := bind_eq_ok.mp h
      obtain rfl := Except.ok.inj hloop
      exact hlater hrest hrow
    · obtain ⟨rows, hrows, h⟩ := bind_eq_ok.mp h
      obtain ⟨rest, hrest, hloop⟩ := bind_eq_ok.mp h
      obtain rfl := Except.ok.inj hloop
      rcases List.mem_append.mp hrow with hrow | hrow
      · exact ⟨document, List.mem_cons_self, rows, hrows, hrow⟩
      · exact hlater hrest hrow

/-- The emitted frame has the texts of the rows. -/
theorem chunkFrame_text {rows : List Row} {chunks : Frame}
    (h : chunkFrame rt config columns rows = .ok chunks) :
    ∀ row ∈ chunks.rows, ∃ source ∈ rows, row "text" = source "text" := by
  intro row hrow
  simp only [chunkFrame] at h
  split at h
  · obtain rfl := Except.ok.inj h
    cases hrow
  split at h
  · obtain rfl := Except.ok.inj h
    obtain ⟨source, hsource, rfl⟩ := List.mem_map.mp hrow
    refine ⟨source, hsource, if_pos ?_⟩
    rw [mem_emittedColumns]
    exact .inr (.inl (by decide))
  · cases h

/-! ### The emitted texts -/

/-- Every text that a chunk model emits has at most `chunk_size + 2 * chunk_overlap` characters,
and at most `chunk_size` without overlap, which is the bound of the configuration without metadata;
`split_text` raises exactly for a text that is not blank, if the block leaves no room for text or
for the overlap. -/
theorem chunkTexts_withinSize (hstrategy : config.strategy = .recursive) :
    (∀ previous documents loop chunks,
      chunkDocuments rt model config columns chunkedAt previous documents = .ok loop →
      chunkFrame rt config columns loop.rows = .ok chunks →
      ∀ row ∈ chunks.rows, WithinSize config row ∧ WithinSize (withoutMetadata config) row) ∧
    ∀ text reserved, (∃ message, splitText rt.toTextRuntime text config reserved = .error message) ↔
      ¬ isBlank text = true ∧ (config.chunkSize ≤ reserved ∨
        config.chunkSize - reserved ≤ config.chunkOverlap) := by
  refine ⟨fun previous documents loop chunks hloop hchunks row hrow => ?_,
    fun text reserved => splitText_eq_error⟩
  obtain ⟨source, hsource, htext⟩ := chunkFrame_text hchunks row hrow
  obtain ⟨document, -, rows, hrows, hmem⟩ := chunkDocuments_rows hloop source hsource
  have hwithin : WithinSize config row := by
    obtain ⟨text, hsourceText, hbound⟩ := documentRows_withinSize hstrategy hrows source hmem
    exact ⟨text, htext.trans hsourceText, hbound⟩
  exact ⟨hwithin, hwithin⟩

/-- A runtime without headings and tokens. -/
def wordRuntime : ChunkRuntime where
  finditer _ _ := []
  encode _ _ := []
  decode _ _ := []
  digest := id
  inputFingerprint documentId text _ := documentId ++ text
  codeVersion _ _ := "v1"
  inferType _ := "String"

theorem titled_overlap_lt : 4 < 30 := by decide

theorem titled_text_notMem : "text" ∉ ["title"] := by decide

/-- Chunks with a title. -/
def titledConfig : ChunkConfig where
  chunkSize := 30
  chunkOverlap := 4
  inTextMetadata := ["title"]
  overlap_lt := titled_overlap_lt
  metadata_nodup := List.nodup_singleton _
  text_notMem := titled_text_notMem
  headings_recursive := plainConfig.headings_recursive
  column_ne_text := plainConfig.column_ne_text
  column_notMem := plainConfig.column_notMem

/-- A document with a title. -/
def titledDocument : String × Row :=
  ("00000000000000000000000000000000", fun c =>
    if c = "title" then .string "A" else if c = "text" then .string "alpha beta gamma delta" else .null)

/-- The frame that is emitted for this document. -/
def titledFrame : Except Failure Frame := do
  let loop ← chunkDocuments wordRuntime ⟨"chunks", "docs", true, .fail⟩ titledConfig
    ["document_id", "title", "text"] "t1" (fun _ => none) [titledDocument]
  chunkFrame wordRuntime titledConfig ["document_id", "title", "text"] loop.rows

theorem chunkTexts_withinSize_titled : ∃ chunks, titledFrame = .ok chunks ∧
    chunks.rows.map (· "text") =
      [.string "title: A\n---\nalpha beta gamma", .string "title: A\n---\ngamma delta"] ∧
    ∀ row ∈ chunks.rows, WithinSize titledConfig row := by
  have htexts : titledFrame.toOption.map (fun chunks => chunks.rows.map (· "text")) =
      some [.string "title: A\n---\nalpha beta gamma", .string "title: A\n---\ngamma delta"] := by
    decide +kernel
  cases hframe : titledFrame with
  | error e =>
    rw [hframe] at htexts
    cases htexts
  | ok chunks =>
    rw [hframe] at htexts
    obtain ⟨loop, hloop, hchunks⟩ := bind_eq_ok.mp hframe
    exact ⟨chunks, rfl, Option.some.inj htexts, fun row hrow =>
      ((chunkTexts_withinSize rfl).1 _ _ loop chunks hloop hchunks row hrow).1⟩

end Stel.Execution
