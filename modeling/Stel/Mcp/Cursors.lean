import Stel.Data.Base64
import Stel.Data.JsonReader
import Stel.Mcp.QueryLog

/-!
# Cursors

The cursors of the context server are JSON objects in base64 without its padding. A cursor is accepted by
the requests that it belongs to, and by no others.

## Main definitions

* `CursorLaws`: what cursors rely on of the standard library.
* `modelsCursor`: the cursor of a listing.

## Main results

* `decodeCursor_encodeCursor`: a cursor is decoded to what was encoded.
* `cursors_accepted`: the requests that accept a cursor.
-/

namespace Stel.Mcp

open AgentContext ContextService

/-- What cursors rely on: a text in base64 consists of digits and of at most two characters that fill the
last group of four, and is decoded to what was encoded; a JSON object of strings, integers and arrays of
these is read back with its members in the order of their names. -/
structure CursorLaws (env : ServiceEnv) : Prop where
  padded : ∀ s, ∃ digits count, env.base64Encode s = String.ofList (digits ++ List.replicate count '=') ∧
    '=' ∉ digits ∧ count ≤ 2 ∧ 4 ∣ digits.length + count
  decode : ∀ s, env.base64Decode (env.base64Encode s) = some s
  loads : ∀ members : List (String × JsonValue), (members.map Prod.fst).Nodup →
    (∀ member ∈ members, member.2.IsPlain) →
    env.loads (JsonValue.object members).dumpsAscii =
      some (.object (members.insertionSort fun a b => a.1 ≤ b.1))

section Cursors

variable {env : ServiceEnv}

/-- A cursor is decoded to what was encoded. -/
theorem decodeCursor_encodeCursor (laws : CursorLaws env) {payload : List (String × JsonValue)}
    (hnodup : (payload.map Prod.fst).Nodup) (hplain : ∀ member ∈ payload, member.2.IsPlain) :
    decodeCursor env (encodeCursor env payload) =
      .ok (payload.insertionSort fun a b => a.1 ≤ b.1) := by
  obtain ⟨digits, count, hencoded, hdigits, hcount, hfour⟩ :=
    laws.padded (JsonValue.object payload).dumpsAscii
  have hstripped : encodeCursor env payload = String.ofList digits := by
    have hreverse : (digits ++ List.replicate count '=').reverse =
        List.replicate count '=' ++ digits.reverse := by
      rw [List.reverse_append, List.reverse_replicate]
    have hdrop : (List.replicate count '=' ++ digits.reverse).dropWhile (· = '=') = digits.reverse := by
      rw [List.dropWhile_append_of_pos fun c hc => by simpa using List.eq_of_mem_replicate hc]
      cases hlast : digits.reverse with
      | nil => rfl
      | cons c rest =>
        have hmem : c ∈ digits := List.mem_reverse.mp (hlast ▸ List.mem_cons_self)
        have hne : c ≠ '=' := fun heq => hdigits (heq ▸ hmem)
        exact List.dropWhile_cons_of_neg (by simpa using hne)
    rw [encodeCursor, hencoded, String.toList_ofList, hreverse, hdrop, List.reverse_reverse]
  have hcountPadding : (4 - (String.ofList digits).length % 4) % 4 = count := by
    rw [String.length_ofList]
    omega
  have hpadded : String.ofList digits ++ String.ofList (List.replicate count '=') =
      env.base64Encode (JsonValue.object payload).dumpsAscii := by
    rw [hencoded, String.ofList_append]
  rw [decodeCursor, hstripped, hcountPadding, hpadded, laws.decode, Option.bind_some,
    laws.loads payload hnodup hplain]

/-- The cursor of a listing whose page ends with a name. -/
def modelsCursor (env : ServiceEnv) (name : String) : String :=
  encodeCursor env [("kind", .string "models"), ("after", .string name)]

/-- The members of the cursor of a listing, in the order of their names. -/
def modelsMembers (name : String) : List (String × JsonValue) :=
  [("after", .string name), ("kind", .string "models")]

/-- The members of the cursor of a document, in the order of their names. -/
def documentMembers (resource : ContextResource) (request : GetDocumentRequest)
    (last : (ℤ ×ₗ String) × Row) : List (String × JsonValue) :=
  [("after", .array [.int (ofLex last.1).1, .string (ofLex last.1).2]),
    ("document_id", .string request.documentId),
    ("document_version_id", .string request.documentVersionId), ("kind", .string "document"),
    ("model", .string resource.name)]

theorem lookup_modelsMembers (name : String) :
    (modelsMembers name).lookup "kind" = some (.string "models") ∧
      (modelsMembers name).lookup "after" = some (.string name) := by
  constructor <;> simp [modelsMembers, List.lookup_cons]

theorem lookup_documentMembers (resource : ContextResource) (request : GetDocumentRequest)
    (last : (ℤ ×ₗ String) × Row) :
    (documentMembers resource request last).lookup "kind" = some (.string "document") ∧
      (documentMembers resource request last).lookup "model" = some (.string resource.name) ∧
      (documentMembers resource request last).lookup "document_id" =
        some (.string request.documentId) ∧
      (documentMembers resource request last).lookup "document_version_id" =
        some (.string request.documentVersionId) ∧
      (documentMembers resource request last).lookup "after" =
        some (.array [.int (ofLex last.1).1, .string (ofLex last.1).2]) := by
  refine ⟨?_, ?_, ?_, ?_, ?_⟩ <;> simp [documentMembers, List.lookup_cons]

theorem decodeCursor_modelsCursor (laws : CursorLaws env) (name : String) :
    decodeCursor env (modelsCursor env name) = .ok (modelsMembers name) := by
  rw [modelsCursor, decodeCursor_encodeCursor laws (by simp) (by simp [JsonValue.IsPlain])]
  simp [modelsMembers, List.insertionSort, List.orderedInsert]

theorem decodeCursor_documentCursor {service : ContextService} (laws : CursorLaws service.env)
    (resource : ContextResource) (request : GetDocumentRequest) (last : (ℤ ×ₗ String) × Row) :
    decodeCursor service.env (service.documentCursor resource request last) =
      .ok (documentMembers resource request last) := by
  rw [documentCursor, decodeCursor_encodeCursor laws (by simp)
    (by simp [JsonValue.IsPlain, JsonValue.IsScalar])]
  simp [documentMembers, List.insertionSort, List.orderedInsert]

theorem decodeListCursor_eq {value : String} {payload : List (String × JsonValue)}
    (h : decodeCursor env value = .ok payload) :
    decodeListCursor env (some value) =
      match jsonString (payload.lookup "kind"), jsonString (payload.lookup "after") with
      | some "models", some after => .ok (some after)
      | _, _ => .error invalidCursor := by
  rw [decodeListCursor, h]
  rfl

theorem decodeDocumentCursor_eq {request : GetDocumentRequest} {value : String}
    {payload : List (String × JsonValue)} (hcursor : request.cursor = some value)
    (h : decodeCursor env value = .ok payload) :
    decodeDocumentCursor env request =
      if jsonString (payload.lookup "kind") = some "document" ∧
          jsonString (payload.lookup "model") = some request.model ∧
          jsonString (payload.lookup "document_id") = some request.documentId ∧
          jsonString (payload.lookup "document_version_id") = some request.documentVersionId then
        (documentAfter (payload.lookup "after")).map some
      else .error invalidCursor := by
  rw [decodeDocumentCursor, hcursor]
  change (decodeCursor env value >>= _) = _
  rw [h]
  rfl

/-- The requests that accept the cursor of a document. -/
theorem decodeDocumentCursor_documentCursor {service : ContextService} (laws : CursorLaws service.env)
    {resource : ContextResource} {request request' : GetDocumentRequest}
    {last : (ℤ ×ₗ String) × Row}
    (hcursor : request'.cursor = some (service.documentCursor resource request last)) :
    decodeDocumentCursor service.env request' =
      if request'.model = resource.name ∧ request'.documentId = request.documentId ∧
          request'.documentVersionId = request.documentVersionId then .ok (some last.1)
      else .error invalidCursor := by
  have hdocument := decodeCursor_documentCursor laws resource request last
  obtain ⟨hkind, hmodel, hid, hversion, hafter⟩ := lookup_documentMembers resource request last
  have hiff : (jsonString (some (.string "document")) = some "document" ∧
      jsonString (some (.string resource.name)) = some request'.model ∧
      jsonString (some (.string request.documentId)) = some request'.documentId ∧
      jsonString (some (.string request.documentVersionId)) = some request'.documentVersionId) ↔
      request'.model = resource.name ∧ request'.documentId = request.documentId ∧
        request'.documentVersionId = request.documentVersionId := by
    simp [jsonString, eq_comm]
  rw [decodeDocumentCursor_eq hcursor hdocument, hkind, hmodel, hid, hversion, hafter]
  exact if_congr hiff rfl rfl

theorem decodeListCursor_modelsCursor (laws : CursorLaws env) (name : String) :
    decodeListCursor env (some (modelsCursor env name)) = .ok (some name) := by
  obtain ⟨hkind, hafter⟩ := lookup_modelsMembers name
  rw [decodeListCursor_eq (decodeCursor_modelsCursor laws name), hkind, hafter]
  rfl

/-- The cursor of a document is accepted by the requests for the version, model and document of the request
that it was issued to, with the key of the last chunk, and the cursor of a listing by all listings, with the
last name. Every other request raises that the cursor is not valid. -/
theorem cursors_accepted (service : ContextService) (laws : CursorLaws service.env)
    (resource : ContextResource) (request request' : GetDocumentRequest)
    (last : (ℤ ×ₗ String) × Row) (name : String) :
    (request'.cursor = some (service.documentCursor resource request last) →
      decodeDocumentCursor service.env request' =
        if request'.model = resource.name ∧ request'.documentId = request.documentId ∧
            request'.documentVersionId = request.documentVersionId then .ok (some last.1)
        else .error invalidCursor) ∧
    decodeListCursor service.env (some (service.documentCursor resource request last)) =
      .error invalidCursor ∧
    decodeListCursor service.env (some (modelsCursor service.env name)) = .ok (some name) ∧
    (request'.cursor = some (modelsCursor service.env name) →
      decodeDocumentCursor service.env request' = .error invalidCursor) := by
  refine ⟨decodeDocumentCursor_documentCursor laws, ?_, decodeListCursor_modelsCursor laws name,
    fun hcursor => ?_⟩
  · have hdocument := decodeCursor_documentCursor laws resource request last
    rw [decodeListCursor_eq hdocument, (lookup_documentMembers resource request last).1]
    rfl
  · have hmodels := decodeCursor_modelsCursor laws name
    rw [decodeDocumentCursor_eq hcursor hmodels, (lookup_modelsMembers name).1, if_neg]
    rintro ⟨hkind, -⟩
    exact absurd hkind (by simp [jsonString])

end Cursors

/-! ### The standard library -/

/-- The base64 and the JSON of the standard library; a citation without fields is accepted. -/
def cursorEnv : ServiceEnv :=
  { QueryLog.refundEnv with
    loads := JsonValue.readObject
    base64Encode := Base64.encodeText
    base64Decode := Base64.decodeText
    citationDescriptor := fun _ =>
      some ⟨none, none, none, none, none, none, none, none, none, .object []⟩
    optionalDatetime := fun _ => some none }

theorem cursorLaws_cursorEnv : CursorLaws cursorEnv where
  padded s := by
    obtain ⟨digits, count, hencode, hdigits, hcount, hfour⟩ :=
      Base64.exists_padded_encode s.toUTF8.data.toList
    exact ⟨digits, count, congrArg String.ofList hencode, hdigits, hcount, hfour⟩
  decode := Base64.decodeText_encodeText
  loads _ _ hplain := JsonValue.readObject_dumpsAscii hplain

/-- A server whose cursors are those of the standard library. -/
def cursorService : ContextService := { QueryLog.policyService with env := cursorEnv }

/-- A request for a version of a document. -/
def versionRequest (documentVersionId : String) (h : isStableId documentVersionId) :
    GetDocumentRequest where
  model := "policies"
  documentId := "0123456789abcdef0123456789abcdef"
  documentVersionId := documentVersionId
  limit := 1
  cursor := none
  model_ne := QueryLog.refundRequest.model_ne
  isStableId := ⟨by decide, h⟩
  limit_mem := by decide

/-- The request for the first version. -/
def firstVersion : GetDocumentRequest :=
  versionRequest "00000000000000000000000000000001" (by decide)

/-- The request for another version. -/
def secondVersion : GetDocumentRequest :=
  versionRequest "00000000000000000000000000000002" (by decide)

/-- A cursor after the first chunk of the first version. -/
def firstCursor : String :=
  cursorService.documentCursor QueryLog.policies firstVersion (toLex (0, "refunds"), fun _ => .null)

theorem cursors_accepted_versions :
    decodeDocumentCursor cursorEnv { firstVersion with cursor := some firstCursor } =
        .ok (some (toLex (0, "refunds"))) ∧
      decodeDocumentCursor cursorEnv { secondVersion with cursor := some firstCursor } =
        .error invalidCursor ∧
      decodeListCursor cursorEnv (some firstCursor) = .error invalidCursor := by
  have hfirst := cursors_accepted cursorService cursorLaws_cursorEnv QueryLog.policies
    firstVersion { firstVersion with cursor := some firstCursor }
    (toLex (0, "refunds"), fun _ => .null) "policies"
  have hsecond := cursors_accepted cursorService cursorLaws_cursorEnv QueryLog.policies
    firstVersion { secondVersion with cursor := some firstCursor }
    (toLex (0, "refunds"), fun _ => .null) "policies"
  refine ⟨(hfirst.1 rfl).trans (if_pos ⟨rfl, rfl, rfl⟩), (hsecond.1 rfl).trans (if_neg ?_), hfirst.2.1⟩
  decide

end Stel.Mcp
