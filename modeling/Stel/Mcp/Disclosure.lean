import Stel.Mcp.Pagination

/-!
# What the operations disclose

`search_context`, `get_document` and `get_context_lineage` return the data of context rows, each of which
the principal reads together with its registry row.

## Main definitions

* `IsReadable`: a context row and its registry row that the principal reads.

## Main results

* `discloses_readable`: what the three operations return comes from such rows.
-/

namespace Stel.Mcp

open AgentContext ContextService

/-- A context row and the registry row of its version are in the warehouse, and the principal reads both. -/
structure IsReadable (service : ContextService) (world : World) (principal : Principal)
    (resource : ContextResource) (registry row : Row) : Prop where
  row_mem : row ∈ world.warehouse.rows resource.contextRelation
  registry_mem : registry ∈ world.warehouse.rows resource.registryRelation
  version : registry "document_version_id" = .string (pyStr service.env (row "document_version_id"))
  canRead : canReadPair resource principal registry row = true

section Reads

variable {service : ContextService} {world : World} {resource : ContextResource}

theorem ofRows_get {column key : String} {rows : List Row} {row : Row}
    (h : (RowDict.ofRows column rows).get key = some row) : row ∈ rows ∧ row column = .string key :=
  ⟨List.mem_reverse.mp (List.mem_of_find?_eq_some h), by simpa using List.find?_some h⟩

/-- The rows of the hits of a search are in the context relation. -/
theorem chunksForHits_get {hits : List SearchResult} {chunks : RowDict} {key : String} {row : Row}
    (h : (service.chunksForHits resource hits).evaluate world.answer = .ok chunks)
    (hrow : chunks.get key = some row) : row ∈ world.warehouse.rows resource.contextRelation := by
  unfold chunksForHits at h
  dsimp only at h
  split_ifs at h
  · cases h
    exact absurd (ofRows_get hrow).1 List.not_mem_nil
  · rw [Prog.evaluate_bind, evaluate_readRows] at h
    obtain ⟨rows, hrows, h⟩ := bind_eq_ok.mp h
    cases h
    obtain ⟨-, rfl⟩ := Warehouse.readRows_eq_ok_iff.mp hrows
    exact (mem_of_mem_selectRows rfl (ofRows_get hrow).1).1
  · cases h

/-- The registry rows of versions are in the registry. -/
theorem registryByVersions_get {versions : List String} {registries : RowDict} {key : String}
    {registry : Row}
    (h : (service.registryByVersions resource versions).evaluate world.answer = .ok registries)
    (hregistry : registries.get key = some registry) :
    registry ∈ world.warehouse.rows resource.registryRelation ∧
      registry "document_version_id" = .string key := by
  unfold registryByVersions at h
  split_ifs at h
  · cases h
    exact absurd (ofRows_get hregistry).1 List.not_mem_nil
  · rw [Prog.evaluate_bind, evaluate_readRows] at h
    obtain ⟨rows, hrows, h⟩ := bind_eq_ok.mp h
    cases h
    obtain ⟨-, rfl⟩ := Warehouse.readRows_eq_ok_iff.mp hrows
    obtain ⟨hmem, hversion⟩ := ofRows_get hregistry
    exact ⟨(mem_of_mem_selectRows rfl hmem).1, hversion⟩

end Reads

theorem principal_of_authorizeResource {service : ContextService} {name : String}
    {authorized : AuthorizedResource} (h : service.authorizeResource name = .ok authorized) :
    service.principal = some authorized.principal := by
  obtain ⟨principal, hprincipal, h⟩ := bind_eq_ok.mp h
  unfold currentPrincipal at hprincipal
  split at hprincipal
  · rename_i current hcurrent
    obtain rfl := Except.ok.inj hprincipal
    split at h
    · cases h
    · obtain ⟨filters, -, h⟩ := bind_eq_ok.mp h
      obtain rfl := Except.ok.inj h
      exact hcurrent
  · cases hprincipal

/-! ### `search_context` -/

section Search

variable {service : ContextService} {world : World} {resource : ContextResource}
  {principal : Principal} {registries chunks : RowDict}

theorem readableHit_eq_some {hit : SearchResult} {item : ReadableHit}
    (h : service.readableHit resource principal chunks registries hit = some item) :
    item.hit = hit ∧ chunks.get (hitKey resource hit) = some item.row ∧
      registries.get (pyStr service.env (item.row "document_version_id")) = some item.registry ∧
      canReadPair resource principal item.registry item.row = true := by
  simp only [readableHit, Option.bind_eq_bind, Option.bind_eq_some_iff] at h
  obtain ⟨row, hrow, registry, hregistry, h⟩ := h
  split_ifs at h with hread
  cases h
  exact ⟨rfl, hrow, hregistry, hread⟩

theorem sublist_readableHits (hits : List SearchResult) :
    ((hits.filterMap (service.readableHit resource principal chunks registries)).map
      ReadableHit.hit).Sublist hits := by
  induction hits with
  | nil => exact .slnil
  | cons hit hits ih =>
    rw [List.filterMap_cons]
    split
    · exact ih.cons hit
    · rename_i item hitem
      rw [List.map_cons, (readableHit_eq_some hitem).1]
      exact ih.cons_cons hit

/-- A result of a search holds the data of its rows. -/
structure IsResultOf (item : ReadableHit) (result : SearchContextResult) : Prop where
  rank : result.rank = item.hit.rank
  score : result.score = item.hit.score
  documentId : item.row "document_id" = .string result.documentId
  documentVersionId : item.row "document_version_id" = .string result.documentVersionId
  contextId : item.row "context_id" = .string result.contextId
  chunkId : item.row "chunk_id" = .string result.chunkId
  sourceVersion : item.registry "source_version" = .string result.sourceVersion

theorem isResultOf_searchResult {links : String → List ContextEntity} {item : ReadableHit}
    {result : SearchContextResult} (h : service.searchResult resource links item = .ok result) :
    IsResultOf item result := by
  obtain ⟨text, -, h⟩ := bind_eq_ok.mp h
  obtain ⟨contextId, hcontext, h⟩ := bind_eq_ok.mp h
  obtain ⟨documentId, hdocument, h⟩ := bind_eq_ok.mp h
  obtain ⟨documentVersionId, hversion, h⟩ := bind_eq_ok.mp h
  obtain ⟨chunkId, hchunk, h⟩ := bind_eq_ok.mp h
  obtain ⟨sourceVersion, hsource, h⟩ := bind_eq_ok.mp h
  obtain ⟨interval, -, h⟩ := bind_eq_ok.mp h
  obtain ⟨freshness, -, h⟩ := bind_eq_ok.mp h
  obtain ⟨citation, -, h⟩ := bind_eq_ok.mp h
  obtain ⟨lineage, -, h⟩ := bind_eq_ok.mp h
  obtain rfl := Except.ok.inj h
  exact ⟨rfl, rfl, requiredString_eq_ok hdocument, requiredString_eq_ok hversion,
    requiredString_eq_ok hcontext, requiredString_eq_ok hchunk, requiredString_eq_ok hsource⟩

theorem resultsOfHits_eq_ok {limit : ℕ} {hits : List SearchResult}
    {results : List SearchContextResult}
    (h : (service.resultsOfHits resource principal limit hits).evaluate world.answer = .ok results) :
    ∃ items : List ReadableHit, (items.map ReadableHit.hit).Sublist hits ∧ items.length ≤ limit ∧
      (∀ item ∈ items, IsReadable service world principal resource item.registry item.row) ∧
      List.Forall₂ IsResultOf items results := by
  rw [resultsOfHits, Prog.evaluate_bind] at h
  obtain ⟨chunks, hchunks, h⟩ := bind_eq_ok.mp h
  rw [Prog.evaluate_bind] at h
  obtain ⟨registries, hregistries, h⟩ := bind_eq_ok.mp h
  dsimp only at h
  rw [Prog.evaluate_bind] at h
  obtain ⟨links, -, h⟩ := bind_eq_ok.mp h
  rw [Prog.evaluate_ofExcept] at h
  refine ⟨_, ?_, List.length_take_le _ _, fun item hitem => ?_,
    (mapM_eq_ok.mp h).imp fun _ _ => isResultOf_searchResult⟩
  · exact ((List.take_sublist _ _).map _).trans (sublist_readableHits hits)
  · obtain ⟨hit, -, hhit⟩ := List.mem_filterMap.mp (List.mem_of_mem_take hitem)
    obtain ⟨-, hrow, hregistry, hread⟩ := readableHit_eq_some hhit
    obtain ⟨hmem, hversion⟩ := registryByVersions_get hregistries hregistry
    exact ⟨chunksForHits_get hchunks hrow, hmem, hversion, hread⟩

/-- A response to a search is made of the hits whose rows the principal reads, in their order. -/
theorem searchContext_eq_ok {request : SearchContextRequest} {loggedAt : String} {elapsedMs : ℚ}
    {response : SearchContextResponse} {row : QueryLogRow}
    (h : (service.searchContext request loggedAt elapsedMs).evaluate world.answer =
      .ok (response, row)) :
    ∃ principal resource search policyFilters hits, service.principal = some principal ∧
      service.catalog.get request.model = some resource ∧
      world.execute search policyFilters = .ok hits ∧
      ∃ items : List ReadableHit, (items.map ReadableHit.hit).Sublist hits ∧
        items.length ≤ request.limit ∧
        (∀ item ∈ items, IsReadable service world principal resource item.registry item.row) ∧
        List.Forall₂ IsResultOf items response.results := by
  rw [searchContext, Prog.evaluate_bind, Prog.evaluate_ofExcept] at h
  obtain ⟨authorized, hauthorized, h⟩ := bind_eq_ok.mp h
  rw [Prog.evaluate_bind, Prog.evaluate_ofExcept] at h
  obtain ⟨search, -, h⟩ := bind_eq_ok.mp h
  rw [Prog.evaluate_bind, evaluate_execute] at h
  obtain ⟨hits, hhits, h⟩ := bind_eq_ok.mp h
  rw [Prog.evaluate_bind] at h
  obtain ⟨results, hresults, h⟩ := bind_eq_ok.mp h
  rw [Prog.evaluate_bind, Prog.evaluate_ofExcept] at h
  obtain ⟨row, -, h⟩ := bind_eq_ok.mp h
  cases h
  exact ⟨authorized.principal, authorized.resource, search, authorized.policyFilters, hits,
    principal_of_authorizeResource hauthorized, get_of_authorizeResource hauthorized, hhits,
    resultsOfHits_eq_ok hresults⟩

end Search

/-! ### `get_document` -/

section Document

variable {service : ContextService} {world : World}

/-- The chunks of a response to a request for a document come from rows of its version, all of which the
principal reads with the registry row. -/
theorem getDocument_readable {request : GetDocumentRequest} {response : GetDocumentResponse}
    (h : (service.getDocument request).evaluate world.answer = .ok response) :
    ∃ principal resource registry, service.principal = some principal ∧
      service.catalog.get request.model = some resource ∧
      ∀ chunk ∈ response.chunks, ∃ row, IsReadable service world principal resource registry row ∧
        row "document_id" = .string request.documentId ∧
        row "document_version_id" = .string request.documentVersionId ∧
        row "context_id" = .string chunk.contextId ∧ row "chunk_id" = .string chunk.chunkId := by
  obtain ⟨authorized, registry, hreads, hdocument⟩ := getDocument_eq_ok h
  obtain ⟨ordered, after, links, hordered, -, hchunks, -⟩ := documentResponse_eq_ok hdocument
  refine ⟨authorized.principal, authorized.resource, registry,
    principal_of_authorizeResource hreads.resolved, get_of_authorizeResource hreads.resolved,
    fun chunk hchunk => ?_⟩
  obtain ⟨row, hrow, hmade⟩ := exists_of_mem_right (mapM_eq_ok.mp hchunks) hchunk
  obtain ⟨item, hitem, rfl⟩ := List.mem_map.mp hrow
  have hmem : item.2 ∈ documentRows service world authorized.resource request :=
    (sortByKey_eq_ok hordered).1.mem_iff.mp
      (List.mem_map_of_mem (List.mem_of_mem_filter (List.mem_of_mem_take hitem)))
  obtain ⟨hrelation, hholds⟩ := mem_of_mem_selectRows rfl hmem
  simp only [documentPredicates, List.all_cons, List.all_nil, ReadPredicate.holds, Bool.and_true,
    Bool.and_eq_true, decide_eq_true_eq] at hholds
  obtain ⟨text, -, hmade⟩ := bind_eq_ok.mp hmade
  obtain ⟨contextId, hcontext, hmade⟩ := bind_eq_ok.mp hmade
  obtain ⟨chunkId, hchunkId, hmade⟩ := bind_eq_ok.mp hmade
  obtain ⟨chunkIndex, -, hmade⟩ := bind_eq_ok.mp hmade
  obtain ⟨citation, -, hmade⟩ := bind_eq_ok.mp hmade
  obtain rfl := Except.ok.inj hmade
  refine ⟨item.2, ⟨hrelation, hreads.registry_mem, ?_, ?_⟩, hholds.1, hholds.2,
    requiredString_eq_ok hcontext, requiredString_eq_ok hchunkId⟩
  · rw [hreads.registry_version, hholds.2]
    rfl
  · rw [canReadPair, hreads.registry_read, hreads.rows_read _ hmem]
    rfl

end Document

/-! ### `get_context_lineage` -/

section Lineage

variable {service : ContextService} {world : World}

/-- A record has the identifiers of its row. -/
theorem lineageRecord_eq_ok {resource : ContextResource} {registry row : Row} {versionId : String}
    {response : GetContextLineageResponse} {record : ContextLineageRecord}
    (h : (service.lineageRecord resource registry row versionId).evaluate world.answer = .ok response)
    (hrecord : response.record = some record) :
    row "document_id" = .string record.documentId ∧ versionId = record.documentVersionId ∧
      row "context_id" = .string record.contextId ∧ row "chunk_id" = .string record.chunkId := by
  rw [lineageRecord, Prog.evaluate_bind, Prog.evaluate_ofExcept] at h
  obtain ⟨contextId, hcontext, h⟩ := bind_eq_ok.mp h
  rw [Prog.evaluate_bind] at h
  obtain ⟨links, -, h⟩ := bind_eq_ok.mp h
  rw [Prog.evaluate_ofExcept] at h
  obtain ⟨documentId, hdocument, h⟩ := bind_eq_ok.mp h
  obtain ⟨chunkId, hchunk, h⟩ := bind_eq_ok.mp h
  obtain ⟨source, -, h⟩ := bind_eq_ok.mp h
  obtain ⟨citation, -, h⟩ := bind_eq_ok.mp h
  obtain ⟨lineage, -, h⟩ := bind_eq_ok.mp h
  obtain rfl := Except.ok.inj h
  obtain rfl := Option.some.inj hrecord
  exact ⟨requiredString_eq_ok hdocument, rfl, requiredString_eq_ok hcontext,
    requiredString_eq_ok hchunk⟩

/-- The loop over the rows of a reference returns the record of one that the principal reads with its
registry row. -/
theorem firstReadable_eq_ok {resource : ContextResource} {principal : Principal} {rows : List Row}
    {response : GetContextLineageResponse}
    (h : (service.firstReadable resource principal rows).evaluate world.answer = .ok response) :
    ∃ row ∈ rows, ∃ registry versionId, row "document_version_id" = .string versionId ∧
      registry ∈ world.warehouse.rows resource.registryRelation ∧
      registry "document_version_id" = .string versionId ∧
      canReadPair resource principal registry row = true ∧
      (service.lineageRecord resource registry row versionId).evaluate world.answer = .ok response := by
  induction rows with
  | nil => cases h
  | cons row rows ih =>
    have hrest (h : (service.firstReadable resource principal rows).evaluate world.answer =
        .ok response) : ∃ row' ∈ row :: rows, ∃ registry versionId,
          row' "document_version_id" = .string versionId ∧
          registry ∈ world.warehouse.rows resource.registryRelation ∧
          registry "document_version_id" = .string versionId ∧
          canReadPair resource principal registry row' = true ∧
          (service.lineageRecord resource registry row' versionId).evaluate world.answer =
            .ok response := by
      obtain ⟨row', hrow', hfound⟩ := ih h
      exact ⟨row', List.mem_cons_of_mem _ hrow', hfound⟩
    rw [firstReadable] at h
    split at h
    · rename_i versionId hversion
      rw [Prog.evaluate_bind] at h
      obtain ⟨registries, hregistries, h⟩ := bind_eq_ok.mp h
      split at h
      · rename_i registry hregistry
        split_ifs at h with hread
        · obtain ⟨hmem, hregistryVersion⟩ := registryByVersions_get hregistries hregistry
          exact ⟨row, List.mem_cons_self, registry, versionId, hversion, hmem, hregistryVersion, hread, h⟩
        · exact hrest h
      · exact hrest h
    · exact hrest h

/-- The record of a response to a request for a lineage comes from a row that the principal reads with its
registry row. -/
theorem getContextLineage_readable {request : GetContextLineageRequest}
    {response : GetContextLineageResponse} {record : ContextLineageRecord}
    (h : (service.getContextLineage request).evaluate world.answer = .ok response)
    (hrecord : response.record = some record) :
    ∃ principal resource registry row, service.principal = some principal ∧
      service.catalog.get request.model = some resource ∧
      IsReadable service world principal resource registry row ∧
      row (referenceField resource request.referenceType) = .string request.referenceId ∧
      row "document_id" = .string record.documentId ∧
      row "document_version_id" = .string record.documentVersionId ∧
      row "context_id" = .string record.contextId ∧ row "chunk_id" = .string record.chunkId := by
  rw [getContextLineage, Prog.evaluate_bind, Prog.evaluate_ofExcept] at h
  obtain ⟨authorized, hauthorized, h⟩ := bind_eq_ok.mp h
  dsimp only at h
  split_ifs at h
  · rw [Prog.evaluate_bind, evaluate_readRows] at h
    obtain ⟨rows, hrows, h⟩ := bind_eq_ok.mp h
    obtain ⟨-, rfl⟩ := Warehouse.readRows_eq_ok_iff.mp hrows
    rw [Prog.evaluate_bind, Prog.evaluate_ofExcept] at h
    obtain ⟨ordered, hordered, h⟩ := bind_eq_ok.mp h
    obtain ⟨row, hrow, registry, versionId, hversion, hmem, hregistry, hread, hmade⟩ :=
      firstReadable_eq_ok h
    obtain ⟨hdocument, hrecordVersion, hcontext, hchunk⟩ := lineageRecord_eq_ok hmade hrecord
    obtain ⟨hrelation, hholds⟩ := mem_of_mem_selectRows rfl
      ((sortByKey_eq_ok hordered).1.mem_iff.mp hrow)
    simp only [List.all_cons, List.all_nil, ReadPredicate.holds, Bool.and_true,
      decide_eq_true_eq] at hholds
    refine ⟨authorized.principal, authorized.resource, registry, row,
      principal_of_authorizeResource hauthorized, get_of_authorizeResource hauthorized,
      ⟨hrelation, hmem, ?_, hread⟩, hholds, hdocument, hrecordVersion ▸ hversion, hcontext, hchunk⟩
    rw [hregistry, hversion]
    rfl
  · cases h

end Lineage

/-! ### All three operations -/

end Stel.Mcp
