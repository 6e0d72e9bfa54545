import Stel.Data.Text
import Stel.Warehouse.Frame
import Mathlib.Data.List.Infix
import Mathlib.Data.List.DropRight
import Mathlib.Data.Nat.Dist

/-!
# Text chunking

The splitters of `chunking.py` over texts as lists of characters. Regular expressions and token
encodings are other packages', so `TextRuntime` supplies them.

## Main definitions

* `ChunkConfig`: a validated chunk configuration.
* `recurse`, `mergeWithOverlap`, `overlapTail`: the recursive splitter.
* `splitText`: the chunks of a text.
* `chunkPreimage`, `makeChunkId`: chunk identifiers.

## Main results

* `splitText_index`: chunks are numbered consecutively.
* `chunkPreimage_inj`: the preimage of a chunk identifier determines document and position.
-/

namespace Stel.Chunking

open Stel.Warehouse

/-! ### Configuration -/

/-- `CHUNK_GENERATED_FIELDS`, in the order of `chunk_row`. -/
def chunkGeneratedFields : List String :=
  ["chunk_id", "document_id", "chunk_index", "chunk_count", "text", "chunk_strategy",
    "code_version", "chunked_at"]

/-- `HeadingConfig`. -/
structure HeadingConfig where
  pattern : String
  column : String
  deriving DecidableEq, Repr

/-- `ChunkConfig.strategy`. -/
inductive Strategy
  | recursive
  | tokens
  deriving DecidableEq, Repr

/-- The value of the strategy. -/
def Strategy.value : Strategy → String
  | .recursive => "recursive"
  | .tokens => "tokens"

/-- `ChunkConfig`, with what its validators check. -/
structure ChunkConfig where
  strategy : Strategy := .recursive
  textField : String := "text"
  chunkSize : ℕ := 1000
  chunkOverlap : ℕ := 100
  encoding : String := "cl100k_base"
  inTextMetadata : List String := []
  headings : Option HeadingConfig := none
  overlap_lt : chunkOverlap < chunkSize
  metadata_nodup : inTextMetadata.Nodup
  text_notMem : textField ∉ inTextMetadata
  headings_recursive : headings.isSome → strategy = .recursive
  column_ne_text : ∀ h ∈ headings, h.column ≠ textField
  column_notMem : ∀ h ∈ headings, h.column ∉ chunkGeneratedFields

/-- The heading column. -/
def ChunkConfig.sectionColumn (config : ChunkConfig) : Option String :=
  config.headings.map (·.column)

/-- What the splitters use of other packages. -/
structure TextRuntime where
  /-- `re.compile(pattern, re.MULTILINE).finditer(text)`: the offset of each match in order, with
  its capture group, or the whole match if the pattern has no group. -/
  finditer : String → List Char → List (ℕ × Option (List Char))
  /-- `get_encoding(name).encode`. -/
  encode : String → List Char → List ℕ
  /-- `get_encoding(name).decode`. -/
  decode : String → List ℕ → List Char

/-! ### The recursive splitter -/

/-- `str.lstrip`. -/
def lstrip (text : List Char) : List Char := text.dropWhile isSpace

/-- `str.strip`. -/
def strip (text : List Char) : List Char := (lstrip text).rdropWhile isSpace

/-- `_RECURSIVE_SEPARATORS`. -/
def recursiveSeparators : List (List Char) :=
  [['\n', '\n'], ['\n'], ['.', ' '], [' '], []]

/-- `text.split(sep)`, with `skip` characters of a separator still to pass. -/
def splitSeparator (sep : List Char) : ℕ → List Char → List (List Char)
  | _, [] => [[]]
  | skip + 1, _ :: cs => splitSeparator sep skip cs
  | 0, c :: cs =>
    if sep <+: c :: cs then [] :: splitSeparator sep (sep.length - 1) cs
    else (splitSeparator sep 0 cs).modifyHead (c :: ·)

/-- The parts with their separator attached again, between parts only. -/
def reattach (sep : List Char) : List (List Char) → List (List Char)
  | [] => []
  | [last] => [last]
  | part :: parts => (part ++ sep) :: reattach sep parts

/-- `[text[i : i + size] for i in range(0, len(text), size)]`. -/
def hardCut (size : ℕ) : ℕ → List Char → List (List Char)
  | 0, _ => []
  | fuel + 1, text =>
    if text = [] then [] else text.take size :: hardCut size fuel (text.drop size)

/-- `_recurse`. -/
def recurse (size : ℕ) : List (List Char) → List Char → List (List Char)
  -- the hierarchy ends with the empty separator
  | [], text => hardCut size text.length text
  | sep :: remaining, text =>
    if text.length ≤ size then if text = [] then [] else [text]
    else if sep = [] then hardCut size text.length text
    else if sep <:+: text then
      ((reattach sep (splitSeparator sep 0 text)).filter (· ≠ [])).flatMap fun segment =>
        if segment.length ≤ size then [segment] else recurse size remaining segment
    else recurse size remaining text

/-- The positions just after an occurrence of the separator that starts in the band. -/
def tailCandidates (sep text : List Char) (earliest latest : ℕ) : List ℕ :=
  ((List.range text.length).filter fun p => earliest ≤ p ∧ p < latest ∧ sep <+: text.drop p).map
    (· + sep.length)

/-- `min(candidates, key=lambda p: abs(p - target))`. -/
def nearest (target : ℕ) : List ℕ → Option ℕ
  | [] => none
  | p :: ps =>
    match nearest target ps with
    | none => some p
    | some q => if Nat.dist p target ≤ Nat.dist q target then some p else some q

/-- `_overlap_tail`. -/
def overlapTail (text : List Char) (overlap : ℕ) : List Char :=
  if overlap = 0 ∨ text = [] then []
  else if text.length ≤ overlap then text
  else
    let target := text.length - overlap
    let earliest := text.length - 2 * overlap
    let latest := text.length - max 1 (overlap / 2)
    let found := (recursiveSeparators.filter (· ≠ [])).findSome? fun sep =>
      nearest target (tailCandidates sep text earliest latest)
    text.drop (found.getD target)

/-- The locals of the loop of `_merge_with_overlap`. -/
structure Merge where
  chunks : List (ℕ × List Char) := []
  current : List Char := []
  currentStart : ℕ := 0
  position : ℕ := 0
  deriving DecidableEq, Repr

/-- `_append_chunk`. -/
def appendChunk (chunks : List (ℕ × List Char)) (start : ℕ) (text : List Char) :
    List (ℕ × List Char) :=
  if strip text = [] then chunks
  else chunks ++ [(start + (text.length - (lstrip text).length), strip text)]

/-- One pass of the loop of `_merge_with_overlap`. -/
def mergeStep (size overlap : ℕ) (m : Merge) (split : List Char) : Merge :=
  if m.current ≠ [] ∧ size < m.current.length + split.length then
    let tail := overlapTail m.current overlap
    { chunks := appendChunk m.chunks m.currentStart m.current
      current := tail ++ split
      currentStart := m.position - tail.length
      position := m.position + split.length }
  else
    { m with
      currentStart := if m.current = [] then m.position else m.currentStart
      current := m.current ++ split
      position := m.position + split.length }

/-- `_merge_with_overlap`. -/
def mergeWithOverlap (splits : List (List Char)) (size overlap : ℕ) : List (ℕ × List Char) :=
  let m := splits.foldl (mergeStep size overlap) {}
  appendChunk m.chunks m.currentStart m.current

/-- `_split_recursive`. -/
def splitRecursive (text : List Char) (size overlap : ℕ) : List (ℕ × List Char) :=
  mergeWithOverlap (recurse size recursiveSeparators text) size overlap

/-! ### Headings and tokens -/

/-- `_find_headings`. -/
def findHeadings (rt : TextRuntime) (text : List Char) :
    Option HeadingConfig → List (ℕ × List Char)
  | none => []
  | some config => (rt.finditer config.pattern text).filterMap fun found =>
      found.2.bind fun name => if strip name = [] then none else some (found.1, strip name)

/-- `_section_at`. -/
def sectionAt (headings : List (ℕ × List Char)) (start : ℕ) : Option (List Char) :=
  ((headings.filter (·.1 ≤ start)).getLast?).map Prod.snd

/-- The windows of `_split_tokens`. -/
def tokenWindows (tokens : List ℕ) (size step : ℕ) : ℕ → ℕ → List (List ℕ)
  | 0, _ => []
  | fuel + 1, start =>
    if tokens.length ≤ start then []
    else (tokens.drop start).take size ::
      if tokens.length ≤ start + size then [] else tokenWindows tokens size step fuel (start + step)

/-- `_split_tokens`. -/
def splitTokens (rt : TextRuntime) (text : List Char) (size overlap : ℕ) (encoding : String) :
    List (List Char) :=
  let tokens := rt.encode encoding text
  let pieces := (tokenWindows tokens size (size - overlap) tokens.length 0).map fun window =>
    strip (rt.decode encoding window)
  pieces.filter (· ≠ [])

/-! ### Chunks -/

/-- `Chunk`. -/
structure Chunk where
  index : ℕ
  text : String
  sectionName : Option String := none
  deriving DecidableEq, Repr

/-- `render_metadata_block`. -/
def renderMetadataBlock (record : Row) (fields : List String) : String :=
  let lines := fields.filterMap fun field =>
    (record field).text.map fun value => field ++ ": " ++ value
  if lines = [] then "" else "\n".intercalate lines ++ "\n---\n"

/-- `_unit`. -/
def ChunkConfig.unit (config : ChunkConfig) : String :=
  match config.strategy with
  | .tokens => "tokens"
  | .recursive => "characters"

/-- `measure`. -/
def measure (rt : TextRuntime) (text : String) (config : ChunkConfig) : ℕ :=
  match config.strategy with
  | .tokens => (rt.encode config.encoding text.toList).length
  | .recursive => text.toList.length

/-- The placed texts of the chunks with their sections. -/
def splitPieces (rt : TextRuntime) (text : List Char) (config : ChunkConfig) (size : ℕ) :
    List (List Char × Option (List Char)) :=
  match config.strategy with
  | .tokens => (splitTokens rt text size config.chunkOverlap config.encoding).map fun piece =>
      (piece, none)
  | .recursive =>
    let headings := findHeadings rt text config.headings
    (splitRecursive text size config.chunkOverlap).map fun placed =>
      (placed.2, sectionAt headings placed.1)

/-- `split_text`, with the message of its `ChunkingError`. -/
def splitText (rt : TextRuntime) (text : String) (config : ChunkConfig) (reserved : ℕ) :
    Except String (List Chunk) :=
  let size := config.chunkSize - reserved
  if isBlank text then .ok []
  else if size = 0 then
    .error ("in-text metadata needs " ++ toString reserved ++ " of the " ++
      toString config.chunkSize ++ " " ++ config.unit ++
      " chunk_size allows, leaving no room for text. " ++
      "Raise chunk_size or shorten the metadata fields.")
  else if size ≤ config.chunkOverlap then
    .error ("chunk_overlap (" ++ toString config.chunkOverlap ++ ") must stay below the " ++
      toString size ++ " " ++ config.unit ++ " left for text once in-text metadata takes " ++
      toString reserved ++ " of chunk_size " ++ toString config.chunkSize ++ ".")
  else .ok ((splitPieces rt text.toList config size).zipIdx.map fun piece =>
    ⟨piece.2, String.ofList piece.1.1, piece.1.2.map String.ofList⟩)

/-- Chunks are numbered consecutively. -/
theorem splitText_index {rt : TextRuntime} {text : String} {config : ChunkConfig} {reserved : ℕ}
    {chunks : List Chunk} (h : splitText rt text config reserved = .ok chunks) :
    chunks.map (·.index) = List.range chunks.length := by
  simp only [splitText] at h
  split at h
  · obtain rfl := Except.ok.inj h
    rfl
  split at h
  · cases h
  split at h
  · cases h
  obtain rfl := Except.ok.inj h
  rw [List.map_map, List.length_map, List.length_zipIdx]
  exact List.zipIdx_map_snd 0 _ |>.trans (by simp [List.range_eq_range'])

/-! ### Chunk identifiers -/

/-- `_ID_PATTERN`. -/
def isStableId (s : String) : Bool :=
  s.toList.length = 32 && s.toList.all fun c => ('0' ≤ c && c ≤ '9') || ('a' ≤ c && c ≤ 'f')

/-- What `make_chunk_id` digests. -/
def chunkPreimage (documentId : String) (index : ℕ) (text : String) : String :=
  documentId ++ "|" ++ toString index ++ "|" ++ text

/-- `make_chunk_id`, with the digest as a parameter. -/
def makeChunkId (digest : String → String) (documentId : String) (index : ℕ) (text : String) :
    Except Failure String :=
  if documentId = "" then .error (.other "document_id must be a non-empty string")
  else if ¬ isStableId documentId then
    .error (.other "document_id must be a 32-character lowercase hex identifier")
  else if text = "" then .error (.other "text must be a non-empty string")
  else .ok (digest (chunkPreimage documentId index text))

/-- The preimage determines the document and the position. -/
theorem chunkPreimage_inj {d d' : String} {i i' : ℕ} {t t' : String} (hd : isStableId d = true)
    (hd' : isStableId d' = true) (h : chunkPreimage d i t = chunkPreimage d' i' t') :
    d = d' ∧ i = i' := by
  simp only [isStableId, Bool.and_eq_true, decide_eq_true_iff] at hd hd'
  have hlist := congrArg String.toList h
  simp only [chunkPreimage, String.toList_append, Nat.toString_eq_repr, Nat.toList_repr,
    List.append_assoc] at hlist
  obtain ⟨hdoc, hrest⟩ := List.append_inj hlist (hd.1.trans hd'.1.symm)
  have hdigits := (append_cons_inj (notMem_toDigits (by decide) i) (notMem_toDigits (by decide) i')
    (List.cons.inj hrest).2).1
  exact ⟨String.toList_inj.mp hdoc, toDigits_injective hdigits⟩

/-- Chunk identifiers determine the document and the position. -/
theorem makeChunkId_inj {digest : String → String} (hdigest : Function.Injective digest)
    {d d' id : String} {i i' : ℕ} {t t' : String} (h : makeChunkId digest d i t = .ok id)
    (h' : makeChunkId digest d' i' t' = .ok id) : d = d' ∧ i = i' := by
  have hok : ∀ {d t : String} {i : ℕ}, makeChunkId digest d i t = .ok id →
      isStableId d = true ∧ id = digest (chunkPreimage d i t) := by
    intro d t i h
    unfold makeChunkId at h
    split at h
    · cases h
    split at h
    · cases h
    rename_i hstable
    split at h
    · cases h
    exact ⟨by simpa using hstable, (Except.ok.inj h).symm⟩
  obtain ⟨hd, hid⟩ := hok h
  obtain ⟨hd', hid'⟩ := hok h'
  exact chunkPreimage_inj hd hd' (hdigest (hid.symm.trans hid'))

end Stel.Chunking
