import Stel.Data.Keyset
import Stel.Mcp.Cursors
import Stel.Mcp.EntityTypes

/-!
# Pages of the context server

`get_document` and `list_context_models` return pages, each with a cursor for the page after it. A caller
that follows the cursors, with any limits, gets every chunk and every model once, in order.

## Main definitions

* `DocumentPages`, `ModelPages`: the responses to a caller that follows the cursors.

## Main results

* `document_pages`, `model_pages`: what the responses hold together.
-/

namespace Stel.Mcp

open AgentContext ContextService

/-! ### Documents -/

/-- The request for a page of a document. -/
def GetDocumentRequest.page (request : GetDocumentRequest) (limit : ℕ) (cursor : Option String)
    (h : 1 ≤ limit ∧ limit ≤ 100) : GetDocumentRequest :=
  { request with limit := limit, cursor := cursor, limit_mem := h }

/-- The responses to requests for a document: each request has a limit of its own and the cursor of the
response before it. -/
inductive DocumentPages (service : ContextService) (world : World) (request : GetDocumentRequest) :
    Option String → List GetDocumentResponse → Prop
  | last {cursor : Option String} {limit : ℕ} {response : GetDocumentResponse}
      (hlimit : 1 ≤ limit ∧ limit ≤ 100)
      (hresponse : (service.getDocument (request.page limit cursor hlimit)).evaluate world.answer =
        .ok response) :
      DocumentPages service world request cursor [response]
  | next {cursor : Option String} {limit : ℕ} {response : GetDocumentResponse} {next : String}
      {responses : List GetDocumentResponse} (hlimit : 1 ≤ limit ∧ limit ≤ 100)
      (hresponse : (service.getDocument (request.page limit cursor hlimit)).evaluate world.answer =
        .ok response)
      (hnext : response.nextCursor = some next)
      (hresponses : DocumentPages service world request (some next) responses) :
      DocumentPages service world request cursor (response :: responses)

/-- The rows of a version in the context relation. -/
def documentRows (service : ContextService) (world : World) (resource : ContextResource)
    (request : GetDocumentRequest) : List Row :=
  selectRows world.warehouse
    { relation := resource.contextRelation
      predicates := documentPredicates request
      maxRows := service.settings.maxScanRows }

section Document

variable {service : ContextService} {world : World} {request : GetDocumentRequest}
  {response : GetDocumentResponse}

variable (service world request) in
/-- The reads of a request for a document: the principal reads the registry row and all rows of the
version, of which there is at least one. -/
structure ReadsDocument (authorized : AuthorizedResource) (registry : Row) : Prop where
  resolved : service.authorizeResource request.model = .ok authorized
  registry_mem : registry ∈ world.warehouse.rows authorized.resource.registryRelation
  registry_version : registry "document_version_id" = .string request.documentVersionId
  registry_read :
    canRead authorized.principal registry authorized.resource.policyAttributes = true
  rows_ne : documentRows service world authorized.resource request ≠ []
  rows_read : ∀ row ∈ documentRows service world authorized.resource request,
    canRead authorized.principal row authorized.resource.policyAttributes = true

theorem mem_of_mem_selectRows {call : ReadCall} (hcolumns : call.columns = none) {row : Row}
    (h : row ∈ selectRows world.warehouse call) :
    row ∈ world.warehouse.rows call.relation ∧ call.predicates.all (ReadPredicate.holds row) := by
  obtain ⟨row', hrow', rfl⟩ := List.mem_map.mp h
  rw [hcolumns]
  exact List.mem_filter.mp hrow'

/-- A response to a request for a document is made of the rows of its version. -/
theorem getDocument_eq_ok (h : (service.getDocument request).evaluate world.answer = .ok response) :
    ∃ authorized registry, ReadsDocument service world request authorized registry ∧
      (service.documentResponse authorized.resource request registry
        (documentRows service world authorized.resource request)).evaluate world.answer =
          .ok response := by
  rw [getDocument, Prog.evaluate_bind, Prog.evaluate_ofExcept] at h
  obtain ⟨authorized, hauthorized, h⟩ := bind_eq_ok.mp h
  split_ifs at h
  · cases h
  · dsimp only at h
    rw [Prog.evaluate_bind, evaluate_readRows] at h
    obtain ⟨registryRows, hregistry, h⟩ := bind_eq_ok.mp h
    split at h
    · rename_i registry
      split_ifs at h with hread
      · rw [Prog.evaluate_bind, evaluate_readRows] at h
        obtain ⟨rows, hrows, h⟩ := bind_eq_ok.mp h
        obtain ⟨-, rfl⟩ := Warehouse.readRows_eq_ok_iff.mp hrows
        split_ifs at h with hrefused
        · cases h
        · obtain ⟨-, hselected⟩ := Warehouse.readRows_eq_ok_iff.mp hregistry
          obtain ⟨hmem, hholds⟩ :=
            mem_of_mem_selectRows rfl (hselected ▸ List.mem_singleton_self registry)
          have hversion : registry "document_version_id" = .string request.documentVersionId := by
            simp only [documentPredicates, List.all_cons, List.all_nil, ReadPredicate.holds,
              Bool.and_true, Bool.and_eq_true, decide_eq_true_eq] at hholds
            exact hholds.2
          refine ⟨authorized, registry, ⟨hauthorized, hmem, hversion, hread,
            fun hnil => hrefused (.inl hnil), fun row hrow => ?_⟩, h⟩
          by_contra hnot
          exact hrefused (.inr ⟨row, hrow, Bool.eq_false_of_not_eq_true hnot⟩)
      · cases h
    · cases h

/-- What a response holds of the rows of its version. -/
theorem documentResponse_eq_ok {resource : ContextResource} {registry : Row} {rows : List Row}
    (h : (service.documentResponse resource request registry rows).evaluate world.answer =
      .ok response) :
    ∃ ordered after links, sortByKey (chunkSortKey service.env) false rows = .ok ordered ∧
      decodeDocumentCursor service.env request = .ok after ∧
      (((ordered.filter fun item => after.all (· < item.1)).take request.limit).map Prod.snd).mapM
        (service.documentChunk links) = .ok response.chunks ∧
      response.nextCursor =
        if ((ordered.filter fun item => after.all (· < item.1)).take request.limit).length <
            (ordered.filter fun item => after.all (· < item.1)).length then
          ((ordered.filter fun item => after.all (· < item.1)).take request.limit).getLast?.map
            (service.documentCursor resource request)
        else none := by
  rw [documentResponse, Prog.evaluate_bind, Prog.evaluate_ofExcept] at h
  obtain ⟨ordered, hordered, h⟩ := bind_eq_ok.mp h
  rw [Prog.evaluate_bind, Prog.evaluate_ofExcept] at h
  obtain ⟨after, hafter, h⟩ := bind_eq_ok.mp h
  dsimp only at h
  rw [Prog.evaluate_bind] at h
  obtain ⟨links, -, h⟩ := bind_eq_ok.mp h
  rw [Prog.evaluate_ofExcept] at h
  obtain ⟨source, -, h⟩ := bind_eq_ok.mp h
  obtain ⟨interval, -, h⟩ := bind_eq_ok.mp h
  obtain ⟨freshness, -, h⟩ := bind_eq_ok.mp h
  obtain ⟨lineage, -, h⟩ := bind_eq_ok.mp h
  obtain ⟨chunks, hchunks, h⟩ := bind_eq_ok.mp h
  obtain rfl := Except.ok.inj h
  exact ⟨ordered, after, links, hordered, hafter, hchunks, rfl⟩

/-- The resource of a request is the one with its name. -/
theorem get_of_authorizeResource {name : String} {authorized : AuthorizedResource}
    (h : service.authorizeResource name = .ok authorized) :
    service.catalog.get name = some authorized.resource := by
  obtain ⟨principal, -, h⟩ := bind_eq_ok.mp h
  cases hget : service.catalog.get name with
  | none =>
    rw [hget] at h
    cases h
  | some resource =>
    rw [hget] at h
    obtain ⟨filters, -, h⟩ := bind_eq_ok.mp h
    obtain rfl := Except.ok.inj h
    rfl

theorem name_of_get {name : String} {resource : ContextResource}
    (h : service.catalog.get name = some resource) : resource.name = name := by
  simpa using List.find?_some h

/-- A loop keeps what every pass keeps. -/
theorem map_of_mapM_eq_ok {ε α β γ : Type} {f : α → Except ε β} {g : β → γ} {g' : α → γ} {xs : List α}
    {ys : List β} (h : xs.mapM f = .ok ys) (hkeep : ∀ x ∈ xs, ∀ y, f x = .ok y → g y = g' x) :
    ys.map g = xs.map g' := by
  have hforall := mapM_eq_ok.mp h
  clear h
  induction hforall with
  | nil => rfl
  | cons hxy _ ih =>
    rw [List.map_cons, List.map_cons, hkeep _ List.mem_cons_self _ hxy,
      ih fun x hx => hkeep x (List.mem_cons_of_mem _ hx)]

/-! ### Sorted rows -/

section Sorted

variable {κ : Type} [LinearOrder κ] {key : Row → Except ContextException κ} {rows : List Row}
  {ordered : List (κ × Row)}

/-- Sorted rows are the rows with their keys. -/
theorem sortByKey_eq_ok {descending : Bool} (h : sortByKey key descending rows = .ok ordered) :
    (ordered.map Prod.snd).Perm rows ∧ ∀ item ∈ ordered, key item.2 = .ok item.1 := by
  obtain ⟨keyed, hkeyed, h⟩ := bind_eq_ok.mp h
  obtain rfl := Except.ok.inj h
  have hitem (row : Row) (item : κ × Row) (h : ((key row).map fun k => (k, row)) = .ok item) :
      item.2 = row ∧ key item.2 = .ok item.1 := by
    obtain ⟨k, hkey, rfl⟩ := map_eq_ok.mp h
    exact ⟨rfl, hkey⟩
  have hsnd : keyed.map Prod.snd = rows.map id :=
    map_of_mapM_eq_ok hkeyed fun row _ item h => (hitem row item h).1
  rw [List.map_id] at hsnd
  refine ⟨hsnd ▸ (List.perm_insertionSort _ keyed).map Prod.snd, fun item hmem => ?_⟩
  obtain ⟨row, -, hrow⟩ := exists_of_mem_right (mapM_eq_ok.mp hkeyed)
    ((List.mem_insertionSort _).mp hmem)
  exact (hitem row item hrow).2

theorem pairwise_sortByKey (h : sortByKey key false rows = .ok ordered) :
    ordered.Pairwise fun a b => a.1 ≤ b.1 := by
  obtain ⟨keyed, -, h⟩ := bind_eq_ok.mp h
  obtain rfl := Except.ok.inj h
  exact List.pairwise_insertionSort (fun a b : κ × Row => a.1 ≤ b.1) keyed

/-- The keys of sorted rows are those of the rows. -/
theorem perm_keys (h : sortByKey key false rows = .ok ordered) :
    (rows.map key).Perm ((ordered.map Prod.fst).map .ok) := by
  obtain ⟨hperm, hkeys⟩ := sortByKey_eq_ok h
  have hmap : (ordered.map Prod.snd).map key = (ordered.map Prod.fst).map .ok := by
    rw [List.map_map, List.map_map]
    exact List.map_congr_left hkeys
  exact hmap ▸ (hperm.map key).symm

/-- Rows with distinct keys are sorted strictly. -/
theorem pairwise_lt_of_nodup (h : sortByKey key false rows = .ok ordered)
    (hdistinct : (rows.map key).Nodup) : ordered.Pairwise fun a b => a.1 < b.1 := by
  have hnodup : (ordered.map Prod.fst).Nodup :=
    List.Nodup.of_map _ ((perm_keys h).nodup_iff.mp hdistinct)
  have hle := pairwise_sortByKey h
  have hne : ordered.Pairwise fun a b => a.1 ≠ b.1 := List.pairwise_map.mp hnodup
  exact (hle.and hne).imp fun ⟨hab, hab'⟩ => lt_of_le_of_ne hab hab'

end Sorted

/-! ### The pages of a document -/

/-- The key of a chunk. -/
def chunkKey (chunk : DocumentChunk) : ℤ ×ₗ String := toLex (chunk.chunkIndex, chunk.contextId)

theorem requiredString_eq_ok {row : Row} {field s : String} (h : requiredString row field = .ok s) :
    row field = .string s := by
  unfold requiredString at h
  split at h
  · rename_i t ht
    split_ifs at h
    rw [ht, Except.ok.inj h]
  · cases h

/-- A chunk has the key of its row. -/
theorem chunkSortKey_of_documentChunk {links : String → List ContextEntity} {row : Row}
    {chunk : DocumentChunk} (h : service.documentChunk links row = .ok chunk) :
    chunkSortKey service.env row = .ok (chunkKey chunk) := by
  obtain ⟨text, -, h⟩ := bind_eq_ok.mp h
  obtain ⟨contextId, hcontext, h⟩ := bind_eq_ok.mp h
  obtain ⟨chunkId, -, h⟩ := bind_eq_ok.mp h
  obtain ⟨chunkIndex, hindex, h⟩ := bind_eq_ok.mp h
  obtain ⟨citation, -, h⟩ := bind_eq_ok.mp h
  obtain rfl := Except.ok.inj h
  rw [chunkSortKey, hindex, requiredString_eq_ok hcontext]
  rfl

/-- What a page holds, if a number of chunks was delivered before it. -/
theorem documentResponse_page {resource : ContextResource} {registry : Row} {rows : List Row}
    {ordered : List ((ℤ ×ₗ String) × Row)} {count : ℕ} {after : Option (ℤ ×ₗ String)}
    (h : (service.documentResponse resource request registry rows).evaluate world.answer =
      .ok response)
    (hordered : sortByKey (chunkSortKey service.env) false rows = .ok ordered)
    (hsorted : ordered.Pairwise fun a b => a.1 < b.1)
    (hafter : decodeDocumentCursor service.env request = .ok after)
    (hdelivered : Delivered Prod.fst ordered count after) :
    response.chunks.map chunkKey = ((ordered.drop count).take request.limit).map Prod.fst ∧
      response.nextCursor =
        if count + ((ordered.drop count).take request.limit).length < ordered.length then
          ((ordered.drop count).take request.limit).getLast?.map
            (service.documentCursor resource request)
        else none := by
  obtain ⟨ordered', after', links, hordered', hafter', hchunks, hcursor⟩ := documentResponse_eq_ok h
  obtain rfl := Except.ok.inj (hordered.symm.trans hordered')
  obtain rfl := Except.ok.inj (hafter.symm.trans hafter')
  rw [hdelivered.filter_eq_drop hsorted] at hchunks hcursor
  have hkeys := (sortByKey_eq_ok hordered).2
  constructor
  · have hrows : response.chunks.map (fun chunk => (.ok (chunkKey chunk) : Except ContextException _)) =
        (((ordered.drop count).take request.limit).map Prod.snd).map (chunkSortKey service.env) :=
      map_of_mapM_eq_ok hchunks fun row _ chunk hchunk => (chunkSortKey_of_documentChunk hchunk).symm
    have hitems : (((ordered.drop count).take request.limit).map Prod.snd).map
        (chunkSortKey service.env) = ((ordered.drop count).take request.limit).map
          fun item => .ok item.1 := by
      rw [List.map_map]
      exact List.map_congr_left fun item hitem =>
        hkeys item (List.mem_of_mem_drop (List.mem_of_mem_take hitem))
    have hinj : Function.Injective (Except.ok : ℤ ×ₗ String → Except ContextException (ℤ ×ₗ String)) :=
      fun _ _ => Except.ok.inj
    refine List.map_injective_iff.mpr hinj ?_
    rw [List.map_map, List.map_map]
    exact hrows.trans hitems
  · have hle := hdelivered.le_length
    rw [hcursor]
    refine if_congr ?_ rfl rfl
    rw [List.length_drop]
    omega

theorem DocumentPages.followed {cursor : Option String} {responses : List GetDocumentResponse}
    (h : DocumentPages service world request cursor responses) :
    Followed (fun cursor response => ∃ limit hlimit,
      (service.getDocument (request.page limit cursor hlimit)).evaluate world.answer = .ok response)
      GetDocumentResponse.nextCursor cursor responses := by
  induction h with
  | last hlimit hresponse => exact .last ⟨_, hlimit, hresponse⟩
  | next hlimit hresponse hnext _ ih => exact .next ⟨_, hlimit, hresponse⟩ hnext ih

/-- A page of the document of a resource. -/
theorem getDocument_page {resource : ContextResource} {ordered : List ((ℤ ×ₗ String) × Row)}
    {count limit : ℕ} {cursor : Option String} {after : Option (ℤ ×ₗ String)}
    (hget : service.catalog.get request.model = some resource)
    (hordered : sortByKey (chunkSortKey service.env) false
      (documentRows service world resource request) = .ok ordered)
    (hsorted : ordered.Pairwise fun a b => a.1 < b.1) (hlimit : 1 ≤ limit ∧ limit ≤ 100)
    (hresponse : (service.getDocument (request.page limit cursor hlimit)).evaluate world.answer =
      .ok response)
    (hafter : decodeDocumentCursor service.env (request.page limit cursor hlimit) = .ok after)
    (hdelivered : Delivered Prod.fst ordered count after) :
    response.chunks.map chunkKey = ((ordered.drop count).take limit).map Prod.fst ∧
      response.nextCursor =
        if count + ((ordered.drop count).take limit).length < ordered.length then
          ((ordered.drop count).take limit).getLast?.map
            (service.documentCursor resource (request.page limit cursor hlimit))
        else none := by
  obtain ⟨authorized, registry, hreads, hdocument⟩ := getDocument_eq_ok hresponse
  obtain rfl : authorized.resource = resource :=
    Option.some.inj ((get_of_authorizeResource hreads.resolved).symm.trans hget)
  exact documentResponse_page hdocument hordered hsorted hafter hdelivered

variable (service) in
/-- A caller that follows the cursors of a document, with any limits, gets the chunks of the version in the
order of their keys, without gaps or repetitions; the cursor is missing exactly when all of them were
delivered, which needs no more requests than there are chunks. -/
theorem document_pages {responses : List GetDocumentResponse} (laws : CursorLaws service.env)
    (hdistinct : ∀ resource, service.catalog.get request.model = some resource →
      ((documentRows service world resource request).map (chunkSortKey service.env)).Nodup)
    (hpages : DocumentPages service world request none responses) :
    ∃ resource keys, service.catalog.get request.model = some resource ∧
      ((documentRows service world resource request).map (chunkSortKey service.env)).Perm
        (keys.map .ok) ∧
      keys.Pairwise (· < ·) ∧
      (responses.flatMap GetDocumentResponse.chunks).map chunkKey <+: keys ∧
      ((∃ last, responses.getLast? = some last ∧ last.nextCursor = none) ↔
        (responses.flatMap GetDocumentResponse.chunks).map chunkKey = keys) ∧
      responses.length ≤ keys.length := by
  obtain ⟨-, response, limit, hlimit, hresponse⟩ := hpages.followed.exists_first
  obtain ⟨authorized, registry, hreads, hdocument⟩ := getDocument_eq_ok hresponse
  have hget : service.catalog.get request.model = some authorized.resource :=
    get_of_authorizeResource hreads.resolved
  obtain ⟨ordered, -, -, hordered, -⟩ := documentResponse_eq_ok hdocument
  change sortByKey _ _ (documentRows service world authorized.resource request) = _ at hordered
  have hperm := perm_keys hordered
  have hsorted := pairwise_lt_of_nodup hordered (hdistinct _ hget)
  have hreads' (last : (ℤ ×ₗ String) × Row) : ∀ limit hlimit, decodeDocumentCursor service.env
      (request.page limit (some (service.documentCursor authorized.resource request last)) hlimit) =
        .ok (some last.1) := by
    intro limit hlimit
    rw [decodeDocumentCursor_documentCursor laws rfl]
    exact if_pos ⟨(name_of_get hget).symm, rfl, rfl⟩
  obtain ⟨hreceived, hdone, hlength⟩ := hpages.followed.holds
    (fun response => response.chunks.map chunkKey) Prod.fst
    (service.documentCursor authorized.resource request)
    (fun cursor after => ∀ limit hlimit,
      decodeDocumentCursor service.env (request.page limit cursor hlimit) = .ok after) hreads'
    (fun ⟨limit, hlimit, hresponse⟩ hcursor hdelivered => ⟨limit, hlimit.1,
      getDocument_page hget hordered hsorted hlimit hresponse (hcursor limit hlimit) hdelivered⟩)
    (fun _ _ => rfl) delivered_zero
  rw [List.drop_zero, ← List.map_flatMap] at hreceived hdone
  refine ⟨authorized.resource, ordered.map Prod.fst, hget, hperm, List.pairwise_map.mpr hsorted,
    hreceived, hdone, ?_⟩
  have hsome : 0 < (documentRows service world authorized.resource request).length :=
    List.length_pos_iff.mpr hreads.rows_ne
  have hlen := hperm.length_eq
  simp only [List.length_map] at hlen
  rw [List.length_map]
  omega

end Document

/-! ### Models -/

/-- The request for a page of a listing. -/
def modelsRequest (limit : ℕ) (cursor : Option String) (h : 1 ≤ limit ∧ limit ≤ 100) :
    ListContextModelsRequest :=
  ⟨limit, cursor, h⟩

/-- The responses to requests for the models: each request has a limit of its own and the cursor of the
response before it. -/
inductive ModelPages (service : ContextService) (world : World) :
    Option String → List ListContextModelsResponse → Prop
  | last {cursor : Option String} {limit : ℕ} {response : ListContextModelsResponse}
      (hlimit : 1 ≤ limit ∧ limit ≤ 100)
      (hresponse : (service.listContextModels (modelsRequest limit cursor hlimit)).evaluate
        world.answer = .ok response) :
      ModelPages service world cursor [response]
  | next {cursor : Option String} {limit : ℕ} {response : ListContextModelsResponse} {next : String}
      {responses : List ListContextModelsResponse} (hlimit : 1 ≤ limit ∧ limit ≤ 100)
      (hresponse : (service.listContextModels (modelsRequest limit cursor hlimit)).evaluate
        world.answer = .ok response)
      (hnext : response.nextCursor = some next)
      (hresponses : ModelPages service world (some next) responses) :
      ModelPages service world cursor (response :: responses)

section Models

variable {service : ContextService} {world : World} {principal : Principal}
  {available : List ContextResource} {response : ListContextModelsResponse}

/-- The resources that are listed are sorted by their names. -/
theorem pairwise_available
    (h : availableResources principal service.catalog.all = .ok available) :
    available.Pairwise fun a b => a.name < b.name := by
  have hsorted := List.pairwise_insertionSort (fun a b : ContextResource => a.name ≤ b.name)
    service.catalog.resources
  have hnodup : (service.catalog.all.map ContextResource.name).Nodup :=
    ((List.perm_insertionSort _ _).map _).nodup_iff.mpr service.catalog.nodup
  have hall : service.catalog.all.Pairwise fun a b => a.name < b.name :=
    (hsorted.and (List.pairwise_map.mp hnodup)).imp fun ⟨hle, hne⟩ => lt_of_le_of_ne hle hne
  exact hall.sublist (sublist_availableResources h)

/-- A page of a listing, if a number of models was delivered before it. -/
theorem listContextModels_page {count limit : ℕ} {cursor after : Option String}
    (hprincipal : service.principal = some principal)
    (havailable : availableResources principal service.catalog.all = .ok available)
    (hlimit : 1 ≤ limit ∧ limit ≤ 100)
    (hresponse : (service.listContextModels (modelsRequest limit cursor hlimit)).evaluate
      world.answer = .ok response)
    (hafter : decodeListCursor service.env cursor = .ok after)
    (hdelivered : Delivered ContextResource.name available count after) :
    response.models.map ContextModelSummary.name =
        ((available.drop count).take (min limit service.settings.maxResults)).map ContextResource.name ∧
      response.nextCursor =
        if count + ((available.drop count).take (min limit service.settings.maxResults)).length <
            available.length then
          ((available.drop count).take (min limit service.settings.maxResults)).getLast?.map fun last =>
            modelsCursor service.env last.name
        else none := by
  obtain ⟨e, -, heval⟩ | ⟨page, cursor', hpage, heval⟩ :=
    evaluate_listContextModels (modelsRequest limit cursor hlimit) hprincipal
  · rw [heval] at hresponse
    cases hresponse
  · have hpaged : (page, cursor') = ((available.drop count).take (min limit service.settings.maxResults),
        if ((available.drop count).take (min limit service.settings.maxResults)).length <
            (available.drop count).length then
          ((available.drop count).take (min limit service.settings.maxResults)).getLast?.map fun last =>
            modelsCursor service.env last.name
        else none) := by
      obtain ⟨available', havailable', hpage⟩ := bind_eq_ok.mp hpage
      obtain rfl := Except.ok.inj (havailable.symm.trans havailable')
      obtain ⟨after', hafter', hpage⟩ := bind_eq_ok.mp hpage
      obtain rfl := Except.ok.inj (hafter.symm.trans hafter')
      rw [← hdelivered.filter_eq_drop (pairwise_available havailable)]
      exact (Except.ok.inj hpage).symm
    obtain ⟨rfl, rfl⟩ := Prod.mk.inj hpaged
    rw [heval] at hresponse
    obtain hok | ⟨herror, -⟩ := foldlM_addSummary service principal
      world.warehouse ((available.drop count).take (min limit service.settings.maxResults)) []
    · rw [hok] at hresponse
      obtain rfl := Except.ok.inj hresponse
      refine ⟨?_, if_congr ?_ rfl rfl⟩
      · rw [List.nil_append, List.map_map]
        rfl
      · have hle := hdelivered.le_length
        rw [List.length_drop]
        omega
    · rw [herror] at hresponse
      cases hresponse

theorem ModelPages.followed {cursor : Option String} {responses : List ListContextModelsResponse}
    (h : ModelPages service world cursor responses) :
    Followed (fun cursor response => ∃ limit hlimit,
      (service.listContextModels (modelsRequest limit cursor hlimit)).evaluate world.answer = .ok response)
      ListContextModelsResponse.nextCursor cursor responses := by
  induction h with
  | last hlimit hresponse => exact .last ⟨_, hlimit, hresponse⟩
  | next hlimit hresponse hnext _ ih => exact .next ⟨_, hlimit, hresponse⟩ hnext ih

variable (service) in
/-- A caller that follows the cursors of a listing, with any limits, gets the models that it is authorized
for in the order of their names, without gaps or repetitions; the cursor is missing exactly when all of them
were delivered, which needs no more requests than there are models, or one. -/
theorem model_pages {responses : List ListContextModelsResponse} (laws : CursorLaws service.env)
    (hprincipal : service.principal = some principal)
    (hpages : ModelPages service world none responses) :
    ∃ available, availableResources principal service.catalog.all = .ok available ∧
      (available.map ContextResource.name).Pairwise (· < ·) ∧
      (responses.flatMap ListContextModelsResponse.models).map ContextModelSummary.name <+:
        available.map ContextResource.name ∧
      ((∃ last, responses.getLast? = some last ∧ last.nextCursor = none) ↔
        (responses.flatMap ListContextModelsResponse.models).map ContextModelSummary.name =
          available.map ContextResource.name) ∧
      responses.length ≤ max 1 available.length := by
  obtain ⟨-, response, limit, hlimit, hresponse⟩ := hpages.followed.exists_first
  obtain ⟨available, havailable⟩ :
      ∃ available, availableResources principal service.catalog.all = .ok available := by
    obtain ⟨e, -, heval⟩ | ⟨page, cursor, hpage, -⟩ :=
      evaluate_listContextModels (modelsRequest limit none hlimit) hprincipal
    · rw [heval] at hresponse
      cases hresponse
    · obtain ⟨available, havailable, -⟩ := bind_eq_ok.mp hpage
      exact ⟨available, havailable⟩
  have hmax := service.settings.maxResults_mem.1
  obtain ⟨hreceived, hdone, hlength⟩ := hpages.followed.holds
    (fun response => response.models.map ContextModelSummary.name) ContextResource.name
    (fun last => modelsCursor service.env last.name)
    (fun cursor after => decodeListCursor service.env cursor = .ok after)
    (fun last => decodeListCursor_modelsCursor laws last.name)
    (fun ⟨limit, hlimit, hresponse⟩ hcursor hdelivered =>
      ⟨min limit service.settings.maxResults, by omega,
        listContextModels_page hprincipal havailable hlimit hresponse hcursor hdelivered⟩)
    rfl delivered_zero
  rw [List.drop_zero, ← List.map_flatMap] at hreceived hdone
  exact ⟨available, havailable, List.pairwise_map.mpr (pairwise_available havailable), hreceived, hdone,
    hlength⟩

end Models

/-! ### Two pages -/

/-- Another resource. -/
def runbooks : ContextResource := { QueryLog.policies with name := "runbooks" }

/-- A server of two resources. -/
def pagedService : ContextService :=
  { cursorService with catalog := ⟨[runbooks, QueryLog.policies], by decide⟩ }

/-- The response with one model. -/
def modelResponse (resource : ContextResource) (nextCursor : Option String) :
    ListContextModelsResponse where
  models := [resource.summary []]
  nextCursor := nextCursor

/-- The page after the first model. -/
theorem modelsPage_runbooks (h : 1 ≤ 5 ∧ 5 ≤ 100) :
    pagedService.modelsPage QueryLog.analyst
      (modelsRequest 5 (some (modelsCursor cursorEnv "policies")) h) = .ok ([runbooks], none) :=
  bind_eq_ok.mpr ⟨[QueryLog.policies, runbooks], rfl,
    bind_eq_ok.mpr ⟨some "policies", decodeListCursor_modelsCursor cursorLaws_cursorEnv "policies", rfl⟩⟩

theorem modelPages_policies : ModelPages pagedService QueryLog.emptyWorld none
    [modelResponse QueryLog.policies (some (modelsCursor cursorEnv "policies")),
      modelResponse runbooks none] := by
  refine .next (show 1 ≤ 1 ∧ 1 ≤ 100 by decide) rfl rfl
    (.last (show 1 ≤ 5 ∧ 5 ≤ 100 by decide) ?_)
  obtain ⟨e, hpage, -⟩ | ⟨page, cursor, hpage, heval⟩ := evaluate_listContextModels
    (modelsRequest 5 (some (modelsCursor cursorEnv "policies")) (by decide))
    (rfl : pagedService.principal = some QueryLog.analyst)
  · rw [modelsPage_runbooks] at hpage
    cases hpage
  · rw [modelsPage_runbooks] at hpage
    cases hpage
    exact heval QueryLog.emptyWorld

theorem model_pages_policies :
    ∃ available, availableResources QueryLog.analyst pagedService.catalog.all = .ok available ∧
      (available.map ContextResource.name).Pairwise (· < ·) ∧
      ["policies", "runbooks"] <+: available.map ContextResource.name := by
  obtain ⟨available, havailable, hsorted, hreceived, -⟩ :=
    model_pages pagedService cursorLaws_cursorEnv rfl modelPages_policies
  exact ⟨available, havailable, hsorted, hreceived⟩

/-- The registry row of a version. -/
def versionRow : Row := rowOf
  [("document_id", .string firstVersion.documentId),
    ("document_version_id", .string firstVersion.documentVersionId),
    ("authorization_resolved", .bool true), ("is_public", .bool true),
    ("source_system", .string "wiki"), ("source_key", .string "refunds"),
    ("source_version", .string "1"), ("source_content_hash", .string "0a"),
    ("recorded_from", .timestamp ⟨0, some 0⟩)]

/-- The row of a chunk of the version. -/
def versionChunk (index : ℤ) (contextId : String) : Row := rowOf
  [("document_id", .string firstVersion.documentId),
    ("document_version_id", .string firstVersion.documentVersionId),
    ("authorization_resolved", .bool true), ("is_public", .bool true),
    ("chunk_index", .int index), ("context_id", .string contextId), ("chunk_id", .string contextId),
    ("text", .string "Refunds take a week."), ("upstream_unique_id", .string "model.policies"),
    ("invocation_id", .string "run"), ("provenance_fingerprint", .string "0b")]

/-- A world with a version of two chunks. -/
def versionWorld : World where
  warehouse
    | "policy_documents" => some [versionRow]
    | "policy_chunks" => some [versionChunk 1 "deadlines", versionChunk 0 "refunds"]
    | _ => none
  execute := fun _ _ => .ok []

/-- The response with one chunk of the version. -/
def versionResponse (index : ℤ) (contextId : String) (nextCursor : Option String) :
    GetDocumentResponse where
  documentId := firstVersion.documentId
  documentVersionId := firstVersion.documentVersionId
  source := some ⟨"wiki", "refunds", none, "1", "0a"⟩
  interval := some ⟨false, none, none, ⟨0, some 0⟩, none⟩
  freshness := some ⟨.unknown, none, none, none, none, none⟩
  lineage := some
    { resources := []
      upstreamUniqueId := "model.policies"
      invocationId := "run"
      parserIdentity := none
      transformIdentity := none
      providerIdentity := none
      modelIdentity := none
      promptFingerprint := none
      schemaFingerprint := none
      provenanceFingerprint := "0b"
      searchIndexUniqueId := "search_index.support.policies"
      storeType := "lancedb" }
  chunks := [⟨contextId, contextId, index, "Refunds take a week.", false,
    ⟨none, none, none, none, none, none, none, none, none, .object []⟩, []⟩]
  nextCursor := nextCursor

theorem documentPages_version : DocumentPages cursorService versionWorld firstVersion none
    [versionResponse 0 "refunds" (some firstCursor), versionResponse 1 "deadlines" none] := by
  refine .next (show 1 ≤ 1 ∧ 1 ≤ 100 by decide) rfl rfl
    (.last (show 1 ≤ 2 ∧ 2 ≤ 100 by decide) ?_)
  have hcursor : decodeDocumentCursor cursorService.env
      (firstVersion.page 2 (some firstCursor) (by decide)) = .ok (some (toLex (0, "refunds"))) :=
    (@decodeDocumentCursor_documentCursor cursorService cursorLaws_cursorEnv QueryLog.policies
      firstVersion (firstVersion.page 2 (some firstCursor) (by decide))
      (toLex (0, "refunds"), fun _ => .null) rfl).trans (if_pos ⟨rfl, rfl, rfl⟩)
  rw [getDocument, Prog.evaluate_bind]
  refine bind_eq_ok.mpr ⟨_, rfl, ?_⟩
  rw [if_neg (by decide), Prog.evaluate_bind]
  refine bind_eq_ok.mpr ⟨[versionRow], rfl, ?_⟩
  dsimp only
  rw [if_pos (by decide), Prog.evaluate_bind]
  refine bind_eq_ok.mpr ⟨[versionChunk 1 "deadlines", versionChunk 0 "refunds"], rfl, ?_⟩
  rw [if_neg (by decide), documentResponse, Prog.evaluate_bind]
  refine bind_eq_ok.mpr ⟨_, rfl, ?_⟩
  rw [Prog.evaluate_bind, Prog.evaluate_ofExcept]
  exact bind_eq_ok.mpr ⟨_, hcursor, rfl⟩

theorem document_pages_version :
    ∃ resource keys, cursorService.catalog.get "policies" = some resource ∧
      ((documentRows cursorService versionWorld resource firstVersion).map
        (chunkSortKey cursorEnv)).Perm (keys.map .ok) ∧
      keys.Pairwise (· < ·) ∧
      [toLex ((0 : ℤ), "refunds"), toLex (1, "deadlines")] = keys := by
  obtain ⟨resource, keys, hget, hperm, hsorted, -, hall, -⟩ :=
    document_pages cursorService cursorLaws_cursorEnv (fun resource hresource => by
      obtain rfl := Option.some.inj ((rfl : some QueryLog.policies = _).trans hresource)
      decide) documentPages_version
  exact ⟨resource, keys, hget, hperm, hsorted, hall.mp ⟨_, rfl, rfl⟩⟩

end Stel.Mcp
