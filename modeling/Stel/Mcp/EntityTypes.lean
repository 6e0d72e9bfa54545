import Stel.Mcp.QueryLog

/-!
# What a listing discloses

`ContextService._list_context_models` lists the entity types of a resource. They are the names of the
current links to contexts with a row that the principal reads, and of no other links; so rows that the
principal does not read have no influence on a listing whose reads stay within the scan limit.

## Main definitions

* `IsCurrentLink`, `ReadableContext`, `Discloses`: what a warehouse discloses to a principal.
* `SameReadable`: two warehouses that differ in what the principal does not read.
* `ExceedsScan`: the reads for a resource exceed the scan limit.
* `listing`: the response to a request.

## Main results

* `evaluate_entityTypes`, `mem_entityTypesOf`: the entity types of a resource.
* `listing_discloses`: a listing holds what is disclosed, and depends on it alone.
-/

namespace Stel.Mcp

open AgentContext ContextService

/-! ### What is disclosed -/

section Disclosure

variable (principal : Principal) (resource : ContextResource) (warehouse warehouse' : Warehouse)

/-- A row of an entity relation that has not ended. -/
def IsCurrentLink (link : Row) : Prop :=
  (∃ relation ∈ resource.entityRelations, link ∈ warehouse.rows relation) ∧
    link "recorded_to" = .null

/-- The principal reads a row of the context. -/
def ReadableContext (contextId : String) : Prop :=
  ∃ row ∈ warehouse.rows resource.contextRelation, row "context_id" = .string contextId ∧
    canRead principal row resource.policyAttributes = true

/-- A current link to a context with a readable row has the name. -/
def Discloses (name : String) : Prop :=
  ∃ link contextId, IsCurrentLink resource warehouse link ∧ link "entity_name" = .string name ∧
    link "context_id" = .string contextId ∧ ReadableContext principal resource warehouse contextId

/-- The two warehouses have the same readable context rows and, for contexts with such a row, the same
current links. -/
structure SameReadable : Prop where
  contexts : ∀ row, canRead principal row resource.policyAttributes = true →
    (row ∈ warehouse.rows resource.contextRelation ↔ row ∈ warehouse'.rows resource.contextRelation)
  links : ∀ link contextId, link "context_id" = .string contextId →
    ReadableContext principal resource warehouse contextId →
    (IsCurrentLink resource warehouse link ↔ IsCurrentLink resource warehouse' link)

end Disclosure

section Same

variable {principal : Principal} {resource : ContextResource} {warehouse warehouse' : Warehouse}

theorem SameReadable.readableContext (h : SameReadable principal resource warehouse warehouse')
    {contextId : String} :
    ReadableContext principal resource warehouse contextId ↔
      ReadableContext principal resource warehouse' contextId := by
  constructor
  · rintro ⟨row, hrow, hid, hread⟩
    exact ⟨row, (h.contexts row hread).mp hrow, hid, hread⟩
  · rintro ⟨row, hrow, hid, hread⟩
    exact ⟨row, (h.contexts row hread).mpr hrow, hid, hread⟩

theorem SameReadable.discloses (h : SameReadable principal resource warehouse warehouse')
    {name : String} :
    Discloses principal resource warehouse name ↔ Discloses principal resource warehouse' name := by
  constructor
  · rintro ⟨link, contextId, hlink, hname, hid, hcontext⟩
    exact ⟨link, contextId, (h.links link contextId hid hcontext).mp hlink, hname, hid,
      h.readableContext.mp hcontext⟩
  · rintro ⟨link, contextId, hlink, hname, hid, hcontext⟩
    have hcontext' := h.readableContext.mpr hcontext
    exact ⟨link, contextId, (h.links link contextId hid hcontext').mpr hlink, hname, hid, hcontext'⟩

end Same

/-! ### The reads for a resource -/

section Reads

variable (service : ContextService) (warehouse : Warehouse) (resource : ContextResource)
  (principal : Principal)

/-- The read of the current links of a relation. -/
def linkCall (relation : String) : ReadCall where
  relation := relation
  predicates := [.isNull "recorded_to"]
  maxRows := service.settings.maxScanRows
  columns := some ["context_id", "entity_name"]

/-- The links that are read for a resource. -/
def linksOf : List Row :=
  resource.entityRelations.flatMap fun relation => selectRows warehouse (linkCall service relation)

/-- The contexts of the links. -/
def linkedContexts : List String :=
  sortedSet ((linksOf service warehouse resource).filterMap fun row => stringOf (row "context_id"))

/-- The read of the rows of the linked contexts. -/
def contextCall : ReadCall where
  relation := resource.contextRelation
  predicates := [.isIn "context_id" (linkedContexts service warehouse resource)]
  maxRows := service.settings.maxScanRows

/-- The entity types of a resource. -/
def entityTypesOf : List String :=
  entityNames resource principal (linksOf service warehouse resource)
    (selectRows warehouse (contextCall service warehouse resource))

/-- The current links of a resource, or the rows of their contexts, are more than the scan limit. -/
def ExceedsScan : Prop :=
  service.settings.maxScanRows < (linksOf service warehouse resource).length ∨
    service.settings.maxScanRows <
      (selectRows warehouse (contextCall service warehouse resource)).length

instance : Decidable (ExceedsScan service warehouse resource) := inferInstanceAs (Decidable (_ ∨ _))

end Reads

section Evaluate

variable {service : ContextService} {world : World} {resource : ContextResource}
  {principal : Principal}

theorem evaluate_addLinks (links : List Row) (relation : String) :
    (service.addLinks links relation).evaluate world.answer =
      if service.settings.maxScanRows <
          (links ++ selectRows world.warehouse (linkCall service relation)).length then
        .error .contextRepositoryLimitError
      else .ok (links ++ selectRows world.warehouse (linkCall service relation)) := by
  have hread : (service.addLinks links relation).evaluate world.answer =
      world.warehouse.readRows (linkCall service relation) >>= fun rows =>
        if service.settings.maxScanRows < (links ++ rows).length then
          .error .contextRepositoryLimitError
        else .ok (links ++ rows) := by
    rw [addLinks, Prog.evaluate_bind]
    refine congrArg₂ _ (evaluate_readRows world _) (funext fun rows => ?_)
    split_ifs <;> rfl
  rw [hread]
  obtain ⟨hle, hok⟩ | ⟨hlt, herror⟩ := world.warehouse.readRows_cases (linkCall service relation)
  · rw [hok]
    rfl
  · rw [herror, if_pos]
    · rfl
    · rw [List.length_append]
      exact lt_of_lt_of_le hlt (Nat.le_add_left _ _)

variable (service world) in
/-- The links of several relations, after those that were read before. -/
theorem evaluate_foldM_addLinks (relations : List String) (links : List Row)
    (hlinks : links.length ≤ service.settings.maxScanRows) :
    (Prog.foldM service.addLinks links relations).evaluate world.answer =
      if service.settings.maxScanRows < (links ++ relations.flatMap fun relation =>
          selectRows world.warehouse (linkCall service relation)).length then
        .error .contextRepositoryLimitError
      else .ok (links ++ relations.flatMap fun relation =>
        selectRows world.warehouse (linkCall service relation)) := by
  rw [Prog.evaluate_foldM]
  induction relations generalizing links with
  | nil =>
    rw [List.flatMap_nil, List.append_nil, if_neg (not_lt.mpr hlinks)]
    rfl
  | cons relation relations ih =>
    rw [List.foldlM_cons, evaluate_addLinks, List.flatMap_cons, ← List.append_assoc]
    by_cases hexceeds : service.settings.maxScanRows <
        (links ++ selectRows world.warehouse (linkCall service relation)).length
    · rw [if_pos hexceeds, if_pos]
      · rfl
      · rw [@List.length_append _ (links ++ _)]
        omega
    · rw [if_neg hexceeds]
      exact ih _ (not_lt.mp hexceeds)

theorem evaluate_links :
    (Prog.foldM service.addLinks [] resource.entityRelations).evaluate world.answer =
      if service.settings.maxScanRows < (linksOf service world.warehouse resource).length then
        .error .contextRepositoryLimitError
      else .ok (linksOf service world.warehouse resource) := by
  have hlinks := evaluate_foldM_addLinks service world resource.entityRelations [] (Nat.zero_le _)
  rwa [List.nil_append] at hlinks

variable (principal) in
/-- Without linked contexts there is nothing to read. -/
theorem entityTypesOf_eq_nil (h : linkedContexts service world.warehouse resource = []) :
    selectRows world.warehouse (contextCall service world.warehouse resource) = [] ∧
      entityTypesOf service world.warehouse resource principal = [] := by
  have hselected : selectRows world.warehouse (contextCall service world.warehouse resource) = [] := by
    simp [selectRows, contextCall, h, ReadPredicate.holds]
  refine ⟨hselected, ?_⟩
  rw [entityTypesOf, hselected, entityNames, sortedSet_eq_nil]
  simp

/-- The entity types of a resource are read within the scan limit, or not at all. -/
theorem evaluate_entityTypes :
    (service.entityTypes resource principal).evaluate world.answer =
      if ExceedsScan service world.warehouse resource then .error .contextRepositoryLimitError
      else .ok (entityTypesOf service world.warehouse resource principal) := by
  rw [entityTypes, Prog.evaluate_bind, evaluate_links]
  by_cases hexceeds : service.settings.maxScanRows < (linksOf service world.warehouse resource).length
  · have hscan : ExceedsScan service world.warehouse resource := .inl hexceeds
    rw [if_pos hexceeds, if_pos hscan]
    rfl
  · rw [if_neg hexceeds]
    change (if linkedContexts service world.warehouse resource = [] then Prog.pure [] else
      readRows (contextCall service world.warehouse resource) >>= fun chunks =>
        Prog.pure (entityNames resource principal (linksOf service world.warehouse resource)
          chunks)).evaluate world.answer = _
    split_ifs with hnone hscan hscan
    · obtain ⟨hselected, -⟩ := entityTypesOf_eq_nil principal hnone
      rw [ExceedsScan, hselected] at hscan
      exact absurd hscan (by simp [hexceeds])
    · rw [(entityTypesOf_eq_nil principal hnone).2]
      rfl
    · have hread : world.warehouse.readRows (contextCall service world.warehouse resource) =
          .error .contextRepositoryLimitError := if_pos (hscan.resolve_left hexceeds)
      rw [Prog.evaluate_bind, evaluate_readRows, hread]
      rfl
    · have hread : world.warehouse.readRows (contextCall service world.warehouse resource) =
          .ok (selectRows world.warehouse (contextCall service world.warehouse resource)) :=
        if_neg fun hlt => hscan (.inr hlt)
      rw [Prog.evaluate_bind, evaluate_readRows, hread]
      rfl

end Evaluate

/-! ### The entity types -/

section EntityTypes

variable {service : ContextService} {warehouse warehouse' : Warehouse} {resource : ContextResource}
  {principal : Principal}

theorem mem_linksOf {row : Row} :
    row ∈ linksOf service warehouse resource ↔ ∃ link, IsCurrentLink resource warehouse link ∧
      row = project (some ["context_id", "entity_name"]) link := by
  simp only [linksOf, List.mem_flatMap, selectRows, linkCall, List.mem_map, List.mem_filter,
    List.all_cons, List.all_nil, ReadPredicate.holds, Bool.and_true, decide_eq_true_eq, IsCurrentLink]
  constructor
  · rintro ⟨relation, hrelation, link, ⟨hlink, hcurrent⟩, rfl⟩
    exact ⟨link, ⟨⟨relation, hrelation, hlink⟩, hcurrent⟩, rfl⟩
  · rintro ⟨link, ⟨⟨relation, hrelation, hlink⟩, hcurrent⟩, rfl⟩
    exact ⟨relation, hrelation, link, ⟨hlink, hcurrent⟩, rfl⟩

theorem stringOf_eq_some {value : Value} {s : String} : stringOf value = some s ↔ value = .string s := by
  cases value <;> simp [stringOf]

variable (service) in
theorem mem_linkedContexts {contextId : String} :
    contextId ∈ linkedContexts service warehouse resource ↔
      ∃ link, IsCurrentLink resource warehouse link ∧ link "context_id" = .string contextId := by
  simp only [linkedContexts, mem_sortedSet, List.mem_filterMap, mem_linksOf, stringOf_eq_some]
  constructor
  · rintro ⟨row, ⟨link, hlink, rfl⟩, hid⟩
    exact ⟨link, hlink, hid⟩
  · rintro ⟨link, hlink, hid⟩
    exact ⟨_, ⟨link, hlink, rfl⟩, hid⟩

theorem mem_linkedRows {row : Row} :
    row ∈ selectRows warehouse (contextCall service warehouse resource) ↔
      row ∈ warehouse.rows resource.contextRelation ∧
        ∃ contextId ∈ linkedContexts service warehouse resource, row "context_id" = .string contextId := by
  simp [selectRows, contextCall, project, ReadPredicate.holds]

/-- The entity types of a resource are the names that are disclosed. -/
theorem mem_entityTypesOf {name : String} :
    name ∈ entityTypesOf service warehouse resource principal ↔
      Discloses principal resource warehouse name := by
  simp only [entityTypesOf, entityNames, mem_sortedSet, List.mem_filterMap, List.mem_filter,
    mem_linksOf, mem_linkedRows, Option.any_eq_true, decide_eq_true_eq, stringOf_eq_some]
  constructor
  · rintro ⟨row, ⟨⟨link, hlink, rfl⟩, contextId, hid, chunk, ⟨⟨hchunk, -⟩, hread⟩, hchunkId⟩, hname⟩
    exact ⟨link, contextId, hlink, hname, hid, chunk, hchunk, hchunkId, hread⟩
  · rintro ⟨link, contextId, hlink, hname, hid, chunk, hchunk, hchunkId, hread⟩
    have hlinked := (mem_linkedContexts service).mpr ⟨link, hlink, hid⟩
    exact ⟨_, ⟨⟨link, hlink, rfl⟩, contextId, hid, chunk,
      ⟨⟨hchunk, contextId, hlinked, hchunkId⟩, hread⟩, hchunkId⟩, hname⟩

/-- What a principal does not read has no influence on the summary of a resource. -/
theorem summary_congr (h : SameReadable principal resource warehouse warehouse') :
    resource.summary (entityTypesOf service warehouse resource principal) =
      resource.summary (entityTypesOf service warehouse' resource principal) := by
  have htypes : sortedSet (entityTypesOf service warehouse resource principal) =
      sortedSet (entityTypesOf service warehouse' resource principal) := by
    refine sortedSet_eq_iff.mpr fun name => ?_
    rw [mem_entityTypesOf, mem_entityTypesOf, h.discloses]
  rw [ContextResource.summary, htypes]
  rfl

end EntityTypes

/-! ### Listings -/

section Listing

variable {service : ContextService} {principal : Principal} {request : ListContextModelsRequest}
  {world world' : World}

theorem sublist_availableResources {resources available : List ContextResource}
    (h : availableResources principal resources = .ok available) : available.Sublist resources := by
  induction resources generalizing available with
  | nil =>
    cases h
    exact .slnil
  | cons resource resources ih =>
    unfold availableResources at h
    split at h
    · cases hrest : availableResources principal resources with
      | error e =>
        rw [hrest] at h
        cases h
      | ok rest =>
        rw [hrest] at h
        cases h
        exact (ih hrest).cons_cons resource
    · exact (ih h).cons resource
    · cases h

/-- A page holds resources of the catalog. -/
theorem mem_catalog_of_modelsPage {page : List ContextResource} {cursor : Option String}
    (h : service.modelsPage principal request = .ok (page, cursor)) {resource : ContextResource}
    (hresource : resource ∈ page) : resource ∈ service.catalog.resources := by
  obtain ⟨available, havailable, h⟩ := bind_eq_ok.mp h
  obtain ⟨after, -, h⟩ := bind_eq_ok.mp h
  cases h
  have hmem := List.mem_of_mem_filter (List.mem_of_mem_take hresource)
  exact List.mem_insertionSort _ |>.mp ((sublist_availableResources havailable).subset hmem)

variable (service principal) in
/-- One pass of the loop over a page. -/
def addSummary (warehouse : Warehouse) (models : List ContextModelSummary)
    (resource : ContextResource) : Except ContextException (List ContextModelSummary) :=
  if ExceedsScan service warehouse resource then .error .contextRepositoryLimitError
  else .ok (models ++ [resource.summary (entityTypesOf service warehouse resource principal)])

theorem evaluate_summaries (page : List ContextResource) :
    (service.summaries principal page).evaluate world.answer =
      page.foldlM (addSummary service principal world.warehouse) [] := by
  rw [summaries, Prog.evaluate_foldM]
  congr 1
  funext models resource
  rw [Prog.evaluate_bind, evaluate_entityTypes, addSummary]
  split_ifs <;> rfl

variable (service principal) in
/-- The summaries of a page are read within the scan limit, or not at all. -/
theorem foldlM_addSummary (warehouse : Warehouse) (page : List ContextResource)
    (models : List ContextModelSummary) :
    page.foldlM (addSummary service principal warehouse) models =
        .ok (models ++ page.map fun resource =>
          resource.summary (entityTypesOf service warehouse resource principal)) ∨
      page.foldlM (addSummary service principal warehouse) models =
          .error .contextRepositoryLimitError ∧
        ∃ resource ∈ page, ExceedsScan service warehouse resource := by
  induction page generalizing models with
  | nil => exact .inl (by simp [pure, Except.pure])
  | cons resource page ih =>
    rw [List.foldlM_cons, addSummary]
    by_cases hexceeds : ExceedsScan service warehouse resource
    · rw [if_pos hexceeds]
      exact .inr ⟨rfl, resource, List.mem_cons_self, hexceeds⟩
    · rw [if_neg hexceeds]
      obtain hok | ⟨herror, other, hother, hscan⟩ :=
        ih (models ++ [resource.summary (entityTypesOf service warehouse resource principal)])
      · refine .inl (hok.trans ?_)
        rw [List.map_cons, List.append_assoc]
        rfl
      · exact .inr ⟨herror, other, List.mem_cons_of_mem _ hother, hscan⟩

variable (request) in
/-- What a listing evaluates to. -/
theorem evaluate_listContextModels (hprincipal : service.principal = some principal) :
    (∃ e, service.modelsPage principal request = .error e ∧
        ∀ world : World, (service.listContextModels request).evaluate world.answer = .error e) ∨
      ∃ page cursor, service.modelsPage principal request = .ok (page, cursor) ∧ ∀ world : World,
        (service.listContextModels request).evaluate world.answer =
          (page.foldlM (addSummary service principal world.warehouse) []).map fun models =>
            { models := models, nextCursor := cursor } := by
  have hcurrent : service.currentPrincipal = .ok principal := by rw [currentPrincipal, hprincipal]
  cases hpage : service.modelsPage principal request with
  | error e =>
    refine .inl ⟨e, rfl, fun world => ?_⟩
    rw [listContextModels, Prog.evaluate_bind, Prog.evaluate_ofExcept, hcurrent]
    change Prog.evaluate world.answer (Prog.ofExcept (service.modelsPage principal request) >>= _) = _
    rw [Prog.evaluate_bind, Prog.evaluate_ofExcept, hpage]
    rfl
  | ok paged =>
    obtain ⟨page, cursor⟩ := paged
    refine .inr ⟨page, cursor, rfl, fun world => ?_⟩
    rw [listContextModels, Prog.evaluate_bind, Prog.evaluate_ofExcept, hcurrent]
    change Prog.evaluate world.answer (Prog.ofExcept (service.modelsPage principal request) >>= _) = _
    rw [Prog.evaluate_bind, Prog.evaluate_ofExcept, hpage]
    change Prog.evaluate world.answer (service.summaries principal page >>= _) = _
    rw [Prog.evaluate_bind, evaluate_summaries]
    cases page.foldlM (addSummary service principal world.warehouse) [] <;> rfl

variable (service request) in
/-- The response to a request. -/
def listing (size : ListContextModelsResponse → ℕ) (world : World) : ListContextModelsResponse :=
  service.respond size (fun error => { error := some error })
    ((service.listContextModels request).evaluate world.answer)

/-- The response at the scan limit. -/
def scanLimited : ListContextModelsResponse where
  error := some (toolError .contextRepositoryLimitError)

theorem models_respond {size : ListContextModelsResponse → ℕ}
    {outcome : Except ContextException ListContextModelsResponse} {model : ContextModelSummary}
    (h : model ∈ (service.respond size (fun error => { error := some error }) outcome).models) :
    ∃ response, outcome = .ok response ∧ model ∈ response.models := by
  cases outcome with
  | error e => cases h
  | ok response =>
    refine ⟨response, rfl, ?_⟩
    unfold respond at h
    dsimp only at h
    split_ifs at h
    · cases h
    · exact h

/-- Every entity type of a listing is the name of a current link to a context with a row that the
principal reads. Two warehouses that differ in other rows only have the same listing, unless one of them
holds more rows than are scanned for a resource; that one has the listing at the scan limit. -/
theorem listing_discloses (size : ListContextModelsResponse → ℕ)
    (hprincipal : service.principal = some principal)
    (hsame : ∀ resource ∈ service.catalog.resources,
      SameReadable principal resource world.warehouse world'.warehouse) :
    (∀ model ∈ (listing service request size world).models, ∃ resource ∈ service.catalog.resources,
      resource.name = model.name ∧
        ∀ name, name ∈ model.entityTypes ↔ Discloses principal resource world.warehouse name) ∧
    (listing service request size world = listing service request size world' ∨
      (listing service request size world = scanLimited ∧
        ∃ resource ∈ service.catalog.resources, ExceedsScan service world.warehouse resource) ∨
      listing service request size world' = scanLimited ∧
        ∃ resource ∈ service.catalog.resources, ExceedsScan service world'.warehouse resource) := by
  obtain ⟨e, -, herror⟩ | ⟨page, cursor, hpage, heval⟩ :=
    evaluate_listContextModels request hprincipal
  · refine ⟨fun model hmodel => ?_, .inl ?_⟩
    · obtain ⟨response, hresponse, -⟩ := models_respond hmodel
      rw [herror] at hresponse
      cases hresponse
    · rw [listing, listing, herror, herror]
  · have hlimited {w : World}
        (hscan : page.foldlM (addSummary service principal w.warehouse) [] =
          .error .contextRepositoryLimitError) : listing service request size w = scanLimited := by
      rw [listing, heval, hscan]
      rfl
    have hcatalog {w : World} (h : ∃ resource ∈ page, ExceedsScan service w.warehouse resource) :
        ∃ resource ∈ service.catalog.resources, ExceedsScan service w.warehouse resource := by
      obtain ⟨resource, hresource, hscan⟩ := h
      exact ⟨resource, mem_catalog_of_modelsPage hpage hresource, hscan⟩
    obtain hok | ⟨hscan, hexceeds⟩ :=
      foldlM_addSummary service principal world.warehouse page []
    · constructor
      · intro model hmodel
        obtain ⟨response, hresponse, hmem⟩ := models_respond hmodel
        rw [heval, hok] at hresponse
        cases hresponse
        obtain ⟨resource, hresource, rfl⟩ := List.mem_map.mp hmem
        refine ⟨resource, mem_catalog_of_modelsPage hpage hresource, rfl, fun name => ?_⟩
        rw [ContextResource.summary, mem_sortedSet, mem_entityTypesOf]
      · obtain hok' | ⟨hscan', hexceeds'⟩ :=
          foldlM_addSummary service principal world'.warehouse page []
        · left
          have hmodels : (page.map fun resource =>
              resource.summary (entityTypesOf service world.warehouse resource principal)) =
              page.map fun resource =>
                resource.summary (entityTypesOf service world'.warehouse resource principal) :=
            List.map_congr_left fun resource hresource =>
              summary_congr (hsame resource (mem_catalog_of_modelsPage hpage hresource))
          rw [listing, listing, heval, heval, hok, hok', hmodels]
        · exact .inr (.inr ⟨hlimited hscan', hcatalog hexceeds'⟩)
    · refine ⟨fun model hmodel => ?_, .inr (.inl ⟨hlimited hscan, hcatalog hexceeds⟩)⟩
      rw [hlimited hscan] at hmodel
      cases hmodel

end Listing

/-! ### A context row that was not resolved -/

/-- A resource with links. -/
def linkedPolicies : ContextResource := { QueryLog.policies with entityRelations := ["policy_links"] }

/-- A server of the resource. -/
def linkedService : ContextService :=
  { QueryLog.policyService with catalog := ⟨[linkedPolicies], by decide⟩ }

/-- A context row, whose authorization is resolved if it is public. -/
def contextRow (contextId : String) (isPublic : Bool) : Row
  | "context_id" => .string contextId
  | "authorization_resolved" | "is_public" => .bool isPublic
  | _ => .null

/-- A current link. -/
def linkRow (contextId entityName : String) : Row
  | "context_id" => .string contextId
  | "entity_name" => .string entityName
  | _ => .null

/-- A world with two linked contexts, of which one has a public row. -/
def linkedWorld (contextRows : List Row) : World where
  warehouse
    | "policy_chunks" => some contextRows
    | "policy_links" => some [linkRow "refunds" "customer", linkRow "payroll" "employee"]
    | _ => none
  execute := fun _ _ => .ok []

/-- A request for the first page. -/
def firstPage : ListContextModelsRequest := ⟨7, none, by decide⟩

theorem listing_discloses_refunds :
    (∀ model ∈ (listing linkedService firstPage (fun _ => 0)
        (linkedWorld [contextRow "refunds" true])).models,
      ∃ resource ∈ linkedService.catalog.resources, resource.name = model.name ∧
        ∀ name, name ∈ model.entityTypes ↔ Discloses QueryLog.analyst resource
          (linkedWorld [contextRow "refunds" true]).warehouse name) ∧
    (listing linkedService firstPage (fun _ => 0) (linkedWorld [contextRow "refunds" true]) =
        listing linkedService firstPage (fun _ => 0)
          (linkedWorld [contextRow "refunds" true, contextRow "payroll" false]) ∨
      (listing linkedService firstPage (fun _ => 0) (linkedWorld [contextRow "refunds" true]) =
          scanLimited ∧ ∃ resource ∈ linkedService.catalog.resources,
        ExceedsScan linkedService (linkedWorld [contextRow "refunds" true]).warehouse resource) ∨
      listing linkedService firstPage (fun _ => 0)
          (linkedWorld [contextRow "refunds" true, contextRow "payroll" false]) = scanLimited ∧
        ∃ resource ∈ linkedService.catalog.resources, ExceedsScan linkedService
          (linkedWorld [contextRow "refunds" true, contextRow "payroll" false]).warehouse resource) := by
  refine listing_discloses _ rfl fun resource hresource => ?_
  obtain rfl := List.mem_singleton.mp hresource
  constructor
  · intro row hread
    change row ∈ [contextRow "refunds" true] ↔
      row ∈ [contextRow "refunds" true, contextRow "payroll" false]
    have hhidden : canRead QueryLog.analyst (contextRow "payroll" false) [] = false := by decide
    have hne : row ≠ contextRow "payroll" false := by
      rintro rfl
      exact absurd (hread.symm.trans hhidden) (by decide)
    simp [hne]
  · intro link contextId _ _
    simp [IsCurrentLink, linkedPolicies, linkedWorld, Warehouse.rows]

end Stel.Mcp
