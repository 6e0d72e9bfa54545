import Stel.Mcp.Pagination

/-!
# The order of the rows of a read

A warehouse returns the rows of a read in no particular order, and in another one each time.  If its keys
tell its rows apart and its links are within the caps, the answers do not depend on these orders.

## Main definitions

* `currentLinks`: the current links of a context.
* `TellsApart`: what the answers about a resource rely on.

## Main results

* `agree_entityLinks`, `agree_registryByVersions`, `agree_chunksForHits`: the reads of the operations.
* `answers_unordered`: the operations return the same for all orders of the rows.
-/

namespace Stel.Mcp

open AgentContext ContextService

/-! ### Rows in two orders -/

/-- The results of a loop over a list in another order, if its passes raise one exception only. -/
theorem mapM_perm {α β ε : Type} {f : α → Except ε β} {e : ε} {xs ys : List α} (h : xs.Perm ys)
    (hraise : ∀ x ∈ xs, ∀ e', f x = .error e' → e' = e) :
    (xs.mapM f = .error e ∧ ys.mapM f = .error e) ∨
      ∃ bs cs, xs.mapM f = .ok bs ∧ ys.mapM f = .ok cs ∧ bs.Perm cs := by
  induction h with
  | nil => exact .inr ⟨[], [], rfl, rfl, .nil⟩
  | cons x h ih =>
    simp only [List.mapM_cons]
    cases hx : f x with
    | error e' =>
      obtain rfl := hraise x List.mem_cons_self e' hx
      exact .inl ⟨rfl, rfl⟩
    | ok b =>
      obtain ⟨hxs, hys⟩ | ⟨bs, cs, hxs, hys, hperm⟩ :=
        ih fun y hy => hraise y (List.mem_cons_of_mem x hy)
      · exact .inl ⟨by rw [hxs]; rfl, by rw [hys]; rfl⟩
      · exact .inr ⟨b :: bs, b :: cs, by rw [hxs]; rfl, by rw [hys]; rfl, hperm.cons b⟩
  | swap x y xs =>
    simp only [List.mapM_cons]
    cases hy : f y with
    | error e' =>
      obtain rfl := hraise y List.mem_cons_self e' hy
      refine .inl ⟨rfl, ?_⟩
      cases hx : f x with
      | error e'' => rw [hraise x (List.mem_cons_of_mem _ List.mem_cons_self) e'' hx]; rfl
      | ok b => rfl
    | ok b =>
      cases hx : f x with
      | error e' =>
        rw [hraise x (List.mem_cons_of_mem _ List.mem_cons_self) e' hx]
        exact .inl ⟨rfl, rfl⟩
      | ok c =>
        cases hxs : xs.mapM f with
        | error e' =>
          obtain ⟨z, hz, hze⟩ := mapM_error hxs
          rw [hraise z (List.mem_cons_of_mem _ (List.mem_cons_of_mem _ hz)) e' hze]
          exact .inl ⟨rfl, rfl⟩
        | ok bs => exact .inr ⟨b :: c :: bs, c :: b :: bs, rfl, rfl, .swap c b bs⟩
  | trans h h' ih ih' =>
    obtain ⟨hxs, hys⟩ | ⟨bs, cs, hxs, hys, hperm⟩ := ih hraise
    · obtain ⟨-, hzs⟩ | ⟨bs, cs, hys', -, -⟩ := ih' fun y hy => hraise y (h.mem_iff.mpr hy)
      · exact .inl ⟨hxs, hzs⟩
      · cases hys.symm.trans hys'
    · obtain ⟨hys', -⟩ | ⟨bs', cs', hys', hzs, hperm'⟩ := ih' fun y hy => hraise y (h.mem_iff.mpr hy)
      · cases hys.symm.trans hys'
      · obtain rfl := Except.ok.inj (hys.symm.trans hys')
        exact .inr ⟨bs, cs', hxs, hzs, hperm.trans hperm'⟩

/-- A search for the one entry that satisfies a predicate. -/
theorem find?_perm {α : Type} {p : α → Bool} {xs ys : List α} (h : xs.Perm ys)
    (hunique : ∀ a ∈ xs, ∀ b ∈ xs, p a = true → p b = true → a = b) : xs.find? p = ys.find? p := by
  cases hxs : xs.find? p with
  | none =>
    refine (List.find?_eq_none.mpr fun y hy => ?_).symm
    exact List.find?_eq_none.mp hxs y (h.mem_iff.mpr hy)
  | some a =>
    cases hys : ys.find? p with
    | none =>
      exact absurd (List.find?_some hxs)
        (List.find?_eq_none.mp hys a (h.mem_iff.mp (List.mem_of_find?_eq_some hxs)))
    | some b =>
      rw [hunique a (List.mem_of_find?_eq_some hxs) b (h.mem_iff.mpr (List.mem_of_find?_eq_some hys))
        (List.find?_some hxs) (List.find?_some hys)]

theorem ofRows_perm {column : String} {rows rows' : List Row} (h : rows.Perm rows')
    (hunique : ∀ a ∈ rows, ∀ b ∈ rows, a column = b column → a = b) :
    RowDict.ofRows column rows = RowDict.ofRows column rows' := by
  have hkeys : sortedSet (rows.filterMap fun row => stringOf (row column)) =
      sortedSet (rows'.filterMap fun row => stringOf (row column)) :=
    sortedSet_eq_iff.mpr fun _ => (h.filterMap _).mem_iff
  have hget (key : String) : lastWith rows column (.string key) =
      lastWith rows' column (.string key) := by
    refine find?_perm (rows.reverse_perm.trans (h.trans rows'.reverse_perm.symm)) ?_
    intro a ha b hb hak hbk
    exact hunique a (List.mem_reverse.mp ha) b (List.mem_reverse.mp hb)
      ((of_decide_eq_true hak).trans (of_decide_eq_true hbk).symm)
  rw [RowDict.ofRows, RowDict.ofRows, hkeys]
  exact congrArg _ (funext hget)

theorem sortByKey_perm {κ : Type} [LinearOrder κ] {key : Row → Except ContextException κ}
    {e : ContextException} {descending : Bool} {rows rows' : List Row} (h : rows.Perm rows')
    (hraise : ∀ row ∈ rows, ∀ e', key row = .error e' → e' = e)
    (hunique : ∀ a ∈ rows, ∀ b ∈ rows, ∀ k, key a = .ok k → key b = .ok k → a = b) :
    sortByKey key descending rows = sortByKey key descending rows' := by
  rw [sortByKey, sortByKey]
  obtain ⟨hrows, hrows'⟩ | ⟨items, items', hrows, hrows', hperm⟩ :=
    mapM_perm h fun row hrow e' he => hraise row hrow e' (map_eq_error.mp he)
  · rw [hrows, hrows']
  · rw [hrows, hrows']
    have hinj (a : κ × Row) (ha : a ∈ items) (b : κ × Row) (hb : b ∈ items) (heq : a.1 = b.1) :
        a = b := by
      obtain ⟨row, hrow, hitem⟩ := exists_of_mem_right (mapM_eq_ok.mp hrows) ha
      obtain ⟨row', hrow', hitem'⟩ := exists_of_mem_right (mapM_eq_ok.mp hrows) hb
      obtain ⟨k, hkey, rfl⟩ := map_eq_ok.mp hitem
      obtain ⟨k', hkey', rfl⟩ := map_eq_ok.mp hitem'
      obtain rfl : k = k' := heq
      exact Prod.ext rfl (hunique _ hrow _ hrow' _ hkey hkey')
    have : Std.Total fun a b : κ × Row => if descending then b.1 ≤ a.1 else a.1 ≤ b.1 :=
      ⟨fun a b => by cases descending <;> simp [le_total]⟩
    have : IsTrans (κ × Row) fun a b => if descending then b.1 ≤ a.1 else a.1 ≤ b.1 :=
      ⟨fun a b c => by
        cases descending with
        | true => exact fun hab hbc => le_trans hbc hab
        | false => exact le_trans⟩
    refine congrArg Except.ok (insertionSort_congr hperm fun a ha b hb hab hba => ?_)
    refine hinj a ha b hb ?_
    cases descending with
    | true => exact le_antisymm hba hab
    | false => exact le_antisymm hab hba

/-! ### Reads -/

/-- The current links of a context in one relation. -/
def currentLinks (warehouse : Warehouse) (contextId relation : String) : List Row :=
  (warehouse.rows relation).filter fun row =>
    row "recorded_to" = .null ∧ row "context_id" = .string contextId

/-- What the answers about a resource rely on: contexts and versions have one row, a current link is valid,
and a context has one link to an entity, and not more links than the cap. -/
structure TellsApart (service : ContextService) (warehouse : Warehouse) (resource : ContextResource) :
    Prop where
  context_string : ∀ row ∈ warehouse.rows resource.contextRelation,
    ∃ contextId, row "context_id" = .string contextId
  context_unique : ∀ a ∈ warehouse.rows resource.contextRelation,
    ∀ b ∈ warehouse.rows resource.contextRelation, a "context_id" = b "context_id" → a = b
  id_unique : resource.idField ∈ ["context_id", "chunk_id"] →
    ∀ a ∈ warehouse.rows resource.contextRelation, ∀ b ∈ warehouse.rows resource.contextRelation,
      a resource.idField = b resource.idField → a = b
  version_unique : ∀ a ∈ warehouse.rows resource.registryRelation,
    ∀ b ∈ warehouse.rows resource.registryRelation,
      a "document_version_id" = b "document_version_id" → a = b
  link_valid : ∀ relation ∈ resource.entityRelations, ∀ contextId,
    ∀ row ∈ currentLinks warehouse contextId relation, ∃ item, entity service.env row = .ok item
  entity_unique : ∀ contextId,
    ∀ a ∈ resource.entityRelations.flatMap (currentLinks warehouse contextId),
    ∀ b ∈ resource.entityRelations.flatMap (currentLinks warehouse contextId),
    ∀ item item', entity service.env a = .ok item → entity service.env b = .ok item' →
      item.entityId = item'.entityId → item = item'
  link_cap : ∀ contextId, (resource.entityRelations.flatMap
    (currentLinks warehouse contextId)).length ≤ service.settings.maxEntitiesPerContext

section Reads

variable {service : ContextService} {world : World} {resource : ContextResource}

/-- The answers to a read. -/
theorem agree_readRows (world : World) (call : ReadCall) :
    (readRows call).Agree (RowAnswer world) (fun rows rows' =>
      rows.Perm (selectRows world.warehouse call) ∧ rows'.Perm (selectRows world.warehouse call))
      (readRows call) := by
  refine Prog.agree_perform (o := ServiceOp.readRows call) ?_ ?_
  · rintro rows rows' (⟨all, hall, rows, hperm, hrows⟩ | ⟨e, -, h⟩)
      (⟨all', hall', rows', hperm', hrows'⟩ | ⟨e', -, h'⟩)
    · obtain ⟨-, rfl⟩ := Warehouse.readRows_eq_ok_iff.mp hall
      obtain ⟨-, rfl⟩ := Warehouse.readRows_eq_ok_iff.mp hall'
      cases hrows
      cases hrows'
      exact ⟨hperm, hperm'⟩
    · cases h'
    · cases h
    · cases h
  · rintro e (⟨all, -, rows, -, h⟩ | ⟨e, he, h⟩) x (⟨all', hall', rows', -, h'⟩ | ⟨e', he', h'⟩)
    · cases h
    · cases h
    · cases he.symm.trans hall'
    · cases h
      rw [h', ← he', he]

/-- All answers to the operations of an action lead to one result. -/
def Steady {α : Type} (world : World) (action : Action α) : Prop :=
  action.Agree (RowAnswer world) Eq action

theorem agree_execute (world : World) (request : SearchRequest) (policyFilters : List SearchFilter) :
    Steady world (execute request policyFilters) := by
  refine Prog.agree_perform (o := ServiceOp.execute request policyFilters) ?_ ?_
  · intro hits hits' h h'
    exact Except.ok.inj (Eq.trans h (Eq.symm h'))
  · intro e h x h'
    exact Eq.trans h' (Eq.symm h)

theorem mem_rows_of_perm {call : ReadCall} (hcolumns : call.columns = none) {rows : List Row}
    (h : rows.Perm (selectRows world.warehouse call)) {row : Row} (hrow : row ∈ rows) :
    row ∈ world.warehouse.rows call.relation :=
  (mem_of_mem_selectRows hcolumns (h.mem_iff.mp hrow)).1

theorem agree_registryByVersions (h : TellsApart service world.warehouse resource)
    (versions : List String) : Steady world (service.registryByVersions resource versions) := by
  unfold registryByVersions
  split_ifs
  · exact Prog.agree_pure rfl
  · refine (agree_readRows world _).bind fun rows rows' ⟨hrows, hrows'⟩ => Prog.agree_pure ?_
    exact ofRows_perm (hrows.trans hrows'.symm) fun a ha b hb =>
      h.version_unique a (mem_rows_of_perm rfl hrows ha) b (mem_rows_of_perm rfl hrows hb)

theorem agree_chunksForHits (h : TellsApart service world.warehouse resource)
    (hits : List SearchResult) : Steady world (service.chunksForHits resource hits) := by
  unfold chunksForHits
  dsimp only
  split_ifs
  · exact Prog.agree_pure rfl
  · rename_i hid _
    refine (agree_readRows world _).bind fun rows rows' ⟨hrows, hrows'⟩ => Prog.agree_pure ?_
    exact ofRows_perm (hrows.trans hrows'.symm) fun a ha b hb =>
      h.id_unique hid a (mem_rows_of_perm rfl hrows ha) b (mem_rows_of_perm rfl hrows hb)
  · exact Prog.agree_throw _

end Reads

/-! ### Links -/

section Links

variable {service : ContextService} {world : World} {resource : ContextResource}
  {contextIds : List String}

/-- The entities of the links of a context. -/
def entitiesOf (service : ContextService) (contextIds : List String) (rows : List Row)
    (contextId : String) : List ContextEntity :=
  if contextId ∈ contextIds then
    (rows.filter fun row => row "context_id" = .string contextId).filterMap fun row =>
      (entity service.env row).toOption
  else []

theorem entitiesOf_append (rows rows' : List Row) (contextId : String) :
    entitiesOf service contextIds (rows ++ rows') contextId =
      entitiesOf service contextIds rows contextId ++ entitiesOf service contextIds rows' contextId := by
  unfold entitiesOf
  split_ifs
  · rw [List.filter_append, List.filterMap_append]
  · rfl

theorem entitiesOf_perm {rows rows' : List Row} (h : rows.Perm rows') (contextId : String) :
    (entitiesOf service contextIds rows contextId).Perm
      (entitiesOf service contextIds rows' contextId) := by
  unfold entitiesOf
  split_ifs
  · exact (h.filter _).filterMap _
  · exact .refl _

/-- One link, if its context has fewer entities than the cap. -/
theorem addEntity_eq {grouped : String → List ContextEntity} {row : Row}
    (hvalid : ∀ c ∈ contextIds, row "context_id" = .string c → ∃ item, entity service.env row = .ok item)
    (hcap : ∀ c ∈ contextIds, row "context_id" = .string c →
      (grouped c).length < service.settings.maxEntitiesPerContext) :
    service.addEntity contextIds grouped row =
      .ok fun c => grouped c ++ entitiesOf service contextIds [row] c := by
  unfold addEntity
  split
  · rename_i contextId hrow
    split_ifs with hmem hfull
    · exact absurd (hcap contextId hmem hrow) (not_lt.mpr hfull)
    · obtain ⟨item, hitem⟩ := hvalid contextId hmem hrow
      rw [hitem]
      refine congrArg Except.ok (funext fun c => ?_)
      dsimp only
      by_cases hc : c = contextId
      · subst hc
        simp [entitiesOf, hmem, hrow, hitem, Except.toOption]
      · rw [Function.update_of_ne hc]
        simp [entitiesOf, hrow, Ne.symm hc]
    · refine congrArg Except.ok (funext fun c => ?_)
      by_cases hc : c = contextId
      · subst hc
        simp [entitiesOf, hmem]
      · simp [entitiesOf, hrow, Ne.symm hc]
  · rename_i hrow
    refine congrArg Except.ok (funext fun c => ?_)
    have hne : row "context_id" ≠ .string c := hrow c
    simp [entitiesOf, hne]

/-- The links of one relation, if no context has more of them than the cap leaves room for. -/
theorem foldlM_addEntity {rows : List Row} {grouped : String → List ContextEntity}
    (hvalid : ∀ row ∈ rows, ∀ c ∈ contextIds, row "context_id" = .string c →
      ∃ item, entity service.env row = .ok item)
    (hcap : ∀ c ∈ contextIds, (grouped c).length +
      (rows.filter fun row => row "context_id" = .string c).length ≤
        service.settings.maxEntitiesPerContext) :
    rows.foldlM (service.addEntity contextIds) grouped =
      .ok fun c => grouped c ++ entitiesOf service contextIds rows c := by
  induction rows generalizing grouped with
  | nil =>
    refine congrArg Except.ok (funext fun c => ?_)
    simp [entitiesOf]
  | cons row rows ih =>
    have hfirst : service.addEntity contextIds grouped row =
        .ok fun c => grouped c ++ entitiesOf service contextIds [row] c := by
      refine addEntity_eq (hvalid row List.mem_cons_self) fun c hc hrow => ?_
      have hroom := hcap c hc
      rw [List.filter_cons_of_pos (by simpa using hrow), List.length_cons] at hroom
      omega
    rw [List.foldlM_cons, hfirst]
    refine (ih (fun row' hrow' => hvalid row' (List.mem_cons_of_mem _ hrow')) fun c hc => ?_).trans ?_
    · have hroom := hcap c hc
      have hone : (entitiesOf service contextIds [row] c).length ≤
          ([row].filter fun row => row "context_id" = .string c).length := by
        unfold entitiesOf
        split_ifs
        exact List.length_filterMap_le _ _
      rw [← List.singleton_append, List.filter_append, List.length_append] at hroom
      rw [List.length_append]
      omega
    · refine congrArg Except.ok (funext fun c => ?_)
      rw [List.append_assoc, ← entitiesOf_append, List.singleton_append]

/-- The links of contexts in a relation. -/
def linkRows (warehouse : Warehouse) (contextIds : List String) (relation : String) : List Row :=
  (warehouse.rows relation).filter fun row =>
    [.isIn "context_id" contextIds, .isNull "recorded_to"].all (ReadPredicate.holds row)

/-- The entities by context are those of the links of some relations, in some order. -/
def Collected (service : ContextService) (warehouse : Warehouse) (contextIds relations : List String)
    (grouped : String → List ContextEntity) : Prop :=
  ∀ c, (grouped c).Perm
    (entitiesOf service contextIds (relations.flatMap (linkRows warehouse contextIds)) c)

theorem filter_linkRows (warehouse : Warehouse) (relations : List String) {contextId : String}
    (h : contextId ∈ contextIds) :
    (relations.flatMap (linkRows warehouse contextIds)).filter
        (fun row => row "context_id" = .string contextId) =
      relations.flatMap (currentLinks warehouse contextId) := by
  rw [List.filter_flatMap]
  refine List.flatMap_congr fun relation _ => ?_
  rw [linkRows, List.filter_filter, currentLinks]
  refine List.filter_congr fun row _ => ?_
  by_cases hrow : row "context_id" = .string contextId
  · simp [ReadPredicate.holds, hrow, h]
  · simp [hrow]

theorem agree_addEntities (h : TellsApart service world.warehouse resource) {before after : List String}
    {relation : String} (hrelations : resource.entityRelations = before ++ relation :: after)
    {grouped grouped' : String → List ContextEntity}
    (hgrouped : Collected service world.warehouse contextIds before grouped)
    (hgrouped' : Collected service world.warehouse contextIds before grouped') :
    (service.addEntities contextIds grouped relation).Agree (RowAnswer world)
      (fun g g' => Collected service world.warehouse contextIds (before ++ [relation]) g ∧
        Collected service world.warehouse contextIds (before ++ [relation]) g')
      (service.addEntities contextIds grouped' relation) := by
  have hrelation : relation ∈ resource.entityRelations := hrelations ▸ List.mem_append_cons_self
  -- What one execution holds after the rows of the relation.
  have hloop {grouped : String → List ContextEntity} {rows : List Row}
      (hgrouped : Collected service world.warehouse contextIds before grouped)
      (hrows : rows.Perm (linkRows world.warehouse contextIds relation)) :
      ∃ g, rows.foldlM (service.addEntity contextIds) grouped = .ok g ∧
        Collected service world.warehouse contextIds (before ++ [relation]) g := by
    have hcurrent (c : String) (hc : c ∈ contextIds) :
        (rows.filter fun row => row "context_id" = .string c).Perm
          (currentLinks world.warehouse c relation) := by
      have hone := filter_linkRows world.warehouse [relation] hc
      rw [List.flatMap_singleton, List.flatMap_singleton] at hone
      exact hone ▸ hrows.filter _
    refine ⟨_, foldlM_addEntity (fun row hrow c hc hcontext => ?_) fun c hc => ?_, fun c => ?_⟩
    · refine h.link_valid relation hrelation c row ((hcurrent c hc).mem_iff.mp ?_)
      exact List.mem_filter.mpr ⟨hrow, by simpa using hcontext⟩
    · have hcap := h.link_cap c
      rw [hrelations, List.flatMap_append, List.flatMap_cons, List.length_append,
        List.length_append] at hcap
      have hbefore : (grouped c).length ≤
          (before.flatMap (currentLinks world.warehouse c)).length := by
        rw [(hgrouped c).length_eq, ← filter_linkRows world.warehouse before hc, entitiesOf, if_pos hc]
        exact List.length_filterMap_le _ _
      have hrows' := (hcurrent c hc).length_eq
      omega
    · rw [List.flatMap_append, List.flatMap_singleton, entitiesOf_append]
      exact (hgrouped c).append (entitiesOf_perm hrows c)
  unfold addEntities
  refine (agree_readRows world _).bind fun rows rows' ⟨hrows, hrows'⟩ => Prog.agree_ofExcept ?_
  have hselect : selectRows world.warehouse
      { relation := relation
        predicates := [.isIn "context_id" contextIds, .isNull "recorded_to"]
        maxRows := service.settings.maxScanRows } = linkRows world.warehouse contextIds relation :=
    List.map_id _
  rw [hselect] at hrows hrows'
  obtain ⟨g, hg, hcollected⟩ := hloop hgrouped hrows
  obtain ⟨g', hg', hcollected'⟩ := hloop hgrouped' hrows'
  exact .inr ⟨g, g', hg, hg', hcollected, hcollected'⟩

theorem agree_foldM_addEntities (h : TellsApart service world.warehouse resource)
    {before after : List String} (hrelations : resource.entityRelations = before ++ after)
    {grouped grouped' : String → List ContextEntity}
    (hgrouped : Collected service world.warehouse contextIds before grouped)
    (hgrouped' : Collected service world.warehouse contextIds before grouped') :
    (Prog.foldM (service.addEntities contextIds) grouped after).Agree (RowAnswer world)
      (fun g g' => Collected service world.warehouse contextIds resource.entityRelations g ∧
        Collected service world.warehouse contextIds resource.entityRelations g')
      (Prog.foldM (service.addEntities contextIds) grouped' after) := by
  induction after generalizing before grouped grouped' with
  | nil =>
    rw [List.append_nil] at hrelations
    exact Prog.agree_pure (hrelations ▸ ⟨hgrouped, hgrouped'⟩)
  | cons relation after ih =>
    refine (agree_addEntities h hrelations hgrouped hgrouped').bind fun g g' ⟨hg, hg'⟩ => ?_
    exact ih (by rw [hrelations, List.append_assoc, List.singleton_append]) hg hg'

/-- The entities of contexts are the same for all orders of the rows. -/
theorem agree_entityLinks (h : TellsApart service world.warehouse resource) (contextIds : List String) :
    Steady world (service.entityLinks resource contextIds) := by
  unfold entityLinks
  split_ifs
  · exact Prog.agree_pure rfl
  · have hstart : Collected service world.warehouse contextIds [] fun _ => [] := by
      intro c
      simp [entitiesOf]
    refine (agree_foldM_addEntities h (List.nil_append _).symm hstart hstart).bind
      fun g g' ⟨hg, hg'⟩ => Prog.agree_pure (funext fun c => ?_)
    have hentity {item : ContextEntity} (hitem : item ∈ g c) :
        ∃ row ∈ resource.entityRelations.flatMap (currentLinks world.warehouse c),
          entity service.env row = .ok item := by
      have hmem := (hg c).mem_iff.mp hitem
      unfold entitiesOf at hmem
      split_ifs at hmem with hc
      · rw [filter_linkRows world.warehouse _ hc] at hmem
        obtain ⟨row, hrow, hitem⟩ := List.mem_filterMap.mp hmem
        refine ⟨row, hrow, ?_⟩
        cases hentity : entity service.env row with
        | error e => simp [hentity, Except.toOption] at hitem
        | ok item' =>
          rw [hentity] at hitem
          exact congrArg Except.ok (Option.some.inj hitem)
      · cases hmem
    refine insertionSort_congr ((hg c).trans (hg' c).symm) fun item hitem item' hitem' hle hle' => ?_
    obtain ⟨row, hrow, hrowItem⟩ := hentity hitem
    obtain ⟨row', hrow', hrowItem'⟩ := hentity hitem'
    exact h.entity_unique c row hrow row' hrow' item item' hrowItem hrowItem' (le_antisymm hle hle')

end Links

/-! ### Models -/

section Models

variable {service : ContextService} {world : World}

theorem agree_entityTypes (resource : ContextResource) (principal : Principal) :
    Steady world (service.entityTypes resource principal) := by
  have hlinks : (Prog.foldM service.addLinks [] resource.entityRelations).Agree (RowAnswer world)
      List.Perm (Prog.foldM service.addLinks [] resource.entityRelations) := by
    refine Prog.agree_foldM (fun relation _ links links' hlinks => ?_) (.refl _)
    unfold addLinks
    refine (agree_readRows world _).bind fun rows rows' ⟨hrows, hrows'⟩ => ?_
    have hperm := hlinks.append (hrows.trans hrows'.symm)
    rw [hperm.length_eq]
    split_ifs
    · exact Prog.agree_throw _
    · exact Prog.agree_pure hperm
  unfold entityTypes
  refine hlinks.bind fun links links' hlinks => ?_
  have hids : sortedSet (links.filterMap fun row => stringOf (row "context_id")) =
      sortedSet (links'.filterMap fun row => stringOf (row "context_id")) :=
    sortedSet_eq_iff.mpr fun _ => (hlinks.filterMap _).mem_iff
  rw [hids]
  dsimp only
  split_ifs
  · exact Prog.agree_pure rfl
  · refine (agree_readRows world _).bind fun rows rows' ⟨hrows, hrows'⟩ => Prog.agree_pure ?_
    have hreadable (contextId : String) :
        contextId ∈ (rows.filter fun row => canRead principal row resource.policyAttributes).filterMap
          (fun row => stringOf (row "context_id")) ↔
        contextId ∈ (rows'.filter fun row => canRead principal row resource.policyAttributes).filterMap
          (fun row => stringOf (row "context_id")) :=
      (((hrows.trans hrows'.symm).filter _).filterMap _).mem_iff
    unfold entityNames
    simp only [hreadable]
    exact sortedSet_eq_iff.mpr fun _ => ((hlinks.filter _).filterMap _).mem_iff

/-- The models of a page are the same for all orders of the rows. -/
theorem agree_listContextModels (request : ListContextModelsRequest) :
    Steady world (service.listContextModels request) := by
  unfold listContextModels
  refine Prog.agree_ofExcept_bind fun principal _ => ?_
  refine Prog.agree_ofExcept_bind fun page _ => ?_
  refine Prog.Agree.bind (R := Eq) ?_ fun models _ hmodels => Prog.agree_pure (by rw [hmodels])
  refine Prog.agree_foldM (fun resource _ models _ hmodels => ?_) rfl
  subst hmodels
  refine (agree_entityTypes resource principal).bind fun types _ htypes => Prog.agree_pure ?_
  rw [htypes]

end Models

/-! ### Searches, documents and lineages -/

section Operations

variable {service : ContextService} {world : World} {resource : ContextResource}

theorem agree_resultsOfHits (h : TellsApart service world.warehouse resource) (principal : Principal)
    (limit : ℕ) (hits : List SearchResult) :
    Steady world (service.resultsOfHits resource principal limit hits) := by
  unfold resultsOfHits
  refine (agree_chunksForHits h hits).bind_self fun chunks => ?_
  refine (agree_registryByVersions h _).bind_self fun registries => ?_
  refine (agree_entityLinks h _).bind_self fun links => ?_
  exact Prog.agree_ofExcept_self _

theorem agree_documentResponse (h : TellsApart service world.warehouse resource)
    (request : GetDocumentRequest) (registry : Row) (rows : List Row) :
    Steady world (service.documentResponse resource request registry rows) := by
  unfold documentResponse
  refine Prog.agree_ofExcept_bind fun ordered _ => ?_
  refine Prog.agree_ofExcept_bind fun after _ => ?_
  refine (agree_entityLinks h _).bind_self fun links => ?_
  exact Prog.agree_ofExcept_self _

theorem agree_firstReadable (h : TellsApart service world.warehouse resource) (principal : Principal)
    (rows : List Row) : Steady world (service.firstReadable resource principal rows) := by
  induction rows with
  | nil => exact Prog.agree_throw _
  | cons row rows ih =>
    unfold firstReadable
    split
    · refine (agree_registryByVersions h _).bind_self fun registries => ?_
      split
      · split_ifs
        · refine Prog.agree_ofExcept_bind fun contextId _ => ?_
          refine (agree_entityLinks h _).bind_self fun links => ?_
          exact Prog.agree_ofExcept_self _
        · exact ih
      · exact ih
    · exact ih

theorem pyInt_error {env : ServiceEnv} {value : Value} {e : ContextException}
    (h : pyInt env value = .error e) : e = .other := by
  unfold pyInt at h
  split at h
  · cases h
  · cases h
  · cases h
  · unfold validated at h
    split at h
    · cases h
    · cases h
      rfl
  · cases h
    rfl

/-- Rows of the same context are one row. -/
theorem eq_of_pyStr (h : TellsApart service world.warehouse resource) {a b : Row}
    (ha : a ∈ world.warehouse.rows resource.contextRelation)
    (hb : b ∈ world.warehouse.rows resource.contextRelation)
    (heq : pyStr service.env (a "context_id") = pyStr service.env (b "context_id")) : a = b := by
  obtain ⟨c, hc⟩ := h.context_string a ha
  obtain ⟨c', hc'⟩ := h.context_string b hb
  rw [hc, hc'] at heq
  exact h.context_unique a ha b hb (by rw [hc, hc', show c = c' from heq])

/-- Rows of contexts are sorted alike in all orders, by a key that has the context. -/
theorem sortByKey_contexts {κ : Type} [LinearOrder κ] (h : TellsApart service world.warehouse resource)
    {f : Row → ℤ → κ} (hf : ∀ a b m n, f a m = f b n →
      pyStr service.env (a "context_id") = pyStr service.env (b "context_id"))
    {descending : Bool} {rows rows' : List Row} (hperm : rows.Perm rows')
    (hrows : ∀ row ∈ rows, row ∈ world.warehouse.rows resource.contextRelation) :
    sortByKey (fun row => (pyInt service.env (row "chunk_index")).map (f row)) descending rows =
      sortByKey (fun row => (pyInt service.env (row "chunk_index")).map (f row)) descending rows' := by
  refine sortByKey_perm hperm (fun row _ e he => pyInt_error (map_eq_error.mp he))
    fun a ha b hb k hka hkb => ?_
  obtain ⟨m, -, hm⟩ := map_eq_ok.mp hka
  obtain ⟨n, -, hn⟩ := map_eq_ok.mp hkb
  exact eq_of_pyStr h (hrows a ha) (hrows b hb) (hf a b m n (hm.trans hn.symm))

theorem documentResponse_perm (h : TellsApart service world.warehouse resource)
    (request : GetDocumentRequest) (registry : Row) {rows rows' : List Row} (hperm : rows.Perm rows')
    (hrows : ∀ row ∈ rows, row ∈ world.warehouse.rows resource.contextRelation) :
    service.documentResponse resource request registry rows =
      service.documentResponse resource request registry rows' := by
  have hsort : sortByKey (chunkSortKey service.env) false rows =
      sortByKey (chunkSortKey service.env) false rows' :=
    sortByKey_contexts (f := fun row index => toLex (index, pyStr service.env (row "context_id"))) h
      (fun _ _ _ _ heq => congrArg (fun k => (ofLex k).2) heq) hperm hrows
  rw [documentResponse, documentResponse, hsort]

theorem sortByKey_lineageSortKey (h : TellsApart service world.warehouse resource)
    {rows rows' : List Row} (hperm : rows.Perm rows')
    (hrows : ∀ row ∈ rows, row ∈ world.warehouse.rows resource.contextRelation) :
    sortByKey (lineageSortKey service.env) true rows =
      sortByKey (lineageSortKey service.env) true rows' :=
  sortByKey_contexts (f := fun row index => toLex (pyStr service.env (row "recorded_from"),
      toLex (pyStr service.env (row "document_version_id"),
        toLex (index, pyStr service.env (row "context_id"))))) h
    (fun _ _ _ _ heq => congrArg (fun k => (ofLex (ofLex (ofLex k).2).2).2) heq) hperm hrows

theorem agree_searchContext
    (h : ∀ resource ∈ service.catalog.resources, TellsApart service world.warehouse resource)
    (request : SearchContextRequest) (loggedAt : String) (elapsedMs : ℚ) :
    Steady world (service.searchContext request loggedAt elapsedMs) := by
  unfold searchContext
  refine Prog.agree_ofExcept_bind fun authorized hauthorized => ?_
  have hresource := h _ (List.mem_of_find?_eq_some (get_of_authorizeResource hauthorized))
  refine Prog.agree_ofExcept_bind fun search _ => ?_
  refine (agree_execute world search _).bind_self fun hits => ?_
  refine (agree_resultsOfHits hresource _ _ hits).bind_self fun results => ?_
  exact Prog.agree_ofExcept_bind fun row _ => Prog.agree_pure rfl

theorem agree_getDocument
    (h : ∀ resource ∈ service.catalog.resources, TellsApart service world.warehouse resource)
    (request : GetDocumentRequest) :
    Steady world (service.getDocument request) := by
  unfold getDocument
  refine Prog.agree_ofExcept_bind fun authorized hauthorized => ?_
  have hresource := h _ (List.mem_of_find?_eq_some (get_of_authorizeResource hauthorized))
  split_ifs
  · exact Prog.agree_throw _
  · refine (agree_readRows world _).bind fun registries registries' hreads => ?_
    have hperm : registries.Perm registries' := hreads.1.trans hreads.2.symm
    clear hreads
    split
    · rename_i registry
      rw [List.perm_singleton.mp hperm.symm]
      dsimp only
      split_ifs
      · refine (agree_readRows world _).bind fun rows rows' ⟨hrows, hrows'⟩ => ?_
        have hperm := hrows.trans hrows'.symm
        have hrefused : (rows = [] ∨ ∃ row ∈ rows,
            canRead authorized.principal row authorized.resource.policyAttributes = false) ↔
            (rows' = [] ∨ ∃ row ∈ rows',
              canRead authorized.principal row authorized.resource.policyAttributes = false) := by
          simp only [hperm.mem_iff, ← List.length_eq_zero_iff, hperm.length_eq]
        by_cases hrefuse : rows = [] ∨ ∃ row ∈ rows,
            canRead authorized.principal row authorized.resource.policyAttributes = false
        · rw [if_pos hrefuse, if_pos (hrefused.mp hrefuse)]
          exact Prog.agree_throw _
        · rw [if_neg hrefuse, if_neg (mt hrefused.mpr hrefuse)]
          rw [documentResponse_perm hresource request registry hperm fun row =>
            mem_rows_of_perm rfl hrows]
          exact agree_documentResponse hresource request registry rows'
      · exact Prog.agree_throw _
    · rename_i hnone
      split
      · rename_i registry
        exact absurd (List.perm_singleton.mp hperm) (hnone registry)
      · exact Prog.agree_throw _

theorem agree_getContextLineage
    (h : ∀ resource ∈ service.catalog.resources, TellsApart service world.warehouse resource)
    (request : GetContextLineageRequest) :
    Steady world (service.getContextLineage request) := by
  unfold getContextLineage
  refine Prog.agree_ofExcept_bind fun authorized hauthorized => ?_
  have hresource := h _ (List.mem_of_find?_eq_some (get_of_authorizeResource hauthorized))
  dsimp only
  split_ifs
  · refine (agree_readRows world _).bind fun rows rows' ⟨hrows, hrows'⟩ => ?_
    rw [sortByKey_lineageSortKey hresource (hrows.trans hrows'.symm) fun row =>
      mem_rows_of_perm rfl hrows]
    exact Prog.agree_ofExcept_bind fun ordered _ => agree_firstReadable hresource _ _
  · exact Prog.agree_throw _

end Operations

/-! ### All four operations -/

/-- However the warehouse orders the rows of each read, the result is the same. -/
def Unordered {α : Type} (world : World) (action : Action α) : Prop :=
  ∀ x, action.Outcome (RowAnswer world) x → x = action.evaluate world.answer

theorem Unordered.of_agree {α : Type} {world : World} {action : Action α}
    (h : Steady world action) : Unordered world action :=
  fun _ => h.eq_evaluate (rowAnswer_answer world)

/-- However the warehouse orders the rows of each read, a listing of models is the same; so are the
responses to searches and the requests for documents and lineages, if the keys of the relations tell their
rows apart and no context has more links than the cap. -/
theorem answers_unordered (service : ContextService) (world : World) :
    (∀ request, Unordered world (service.listContextModels request)) ∧
    ((∀ resource ∈ service.catalog.resources, TellsApart service world.warehouse resource) →
      (∀ request loggedAt elapsedMs,
        Unordered world (service.searchContext request loggedAt elapsedMs)) ∧
      (∀ request, Unordered world (service.getDocument request)) ∧
      ∀ request, Unordered world (service.getContextLineage request)) :=
  ⟨fun request => .of_agree (agree_listContextModels request), fun h =>
    ⟨fun request loggedAt elapsedMs => .of_agree (agree_searchContext h request loggedAt elapsedMs),
      fun request => .of_agree (agree_getDocument h request),
      fun request => .of_agree (agree_getContextLineage h request)⟩⟩

/-- A world whose relations hold the rows of another one in other orders gives answers of that one. -/
theorem rowAnswer_of_perm {world world' : World}
    (hrows : ∀ relation, (world'.warehouse.rows relation).Perm (world.warehouse.rows relation))
    (hexecute : world'.execute = world.execute) (o : ServiceOp) :
    RowAnswer world o (world'.answer o) := by
  cases o with
  | readRows call =>
    have hselect : (selectRows world'.warehouse call).Perm (selectRows world.warehouse call) :=
      ((hrows call.relation).filter _).map _
    change RowAnswer world (.readRows call) (world'.warehouse.readRows call)
    unfold Warehouse.readRows RowAnswer
    rw [hselect.length_eq]
    split_ifs with hlimit
    · exact .inr ⟨_, if_pos hlimit, rfl⟩
    · exact .inl ⟨_, if_neg hlimit, _, hselect, rfl⟩
  | execute request policyFilters => exact congrFun (congrFun hexecute request) policyFilters

theorem tellsApart_versionWorld : TellsApart cursorService versionWorld.warehouse QueryLog.policies := by
  have hchunks : ∀ a ∈ versionWorld.warehouse.rows QueryLog.policies.contextRelation,
      a = versionChunk 1 "deadlines" ∨ a = versionChunk 0 "refunds" := by
    intro a ha
    simpa using (show a ∈ [versionChunk 1 "deadlines", versionChunk 0 "refunds"] from ha)
  have hunique : ∀ a ∈ versionWorld.warehouse.rows QueryLog.policies.contextRelation,
      ∀ b ∈ versionWorld.warehouse.rows QueryLog.policies.contextRelation,
        a "context_id" = b "context_id" → a = b := by
    intro a ha b hb hab
    obtain rfl | rfl := hchunks a ha <;> obtain rfl | rfl := hchunks b hb
    · rfl
    · exact absurd hab (by decide)
    · exact absurd hab (by decide)
    · rfl
  refine ⟨fun a ha => ?_, hunique, fun _ => hunique, fun a ha b hb _ => ?_, ?_, ?_, fun _ => ?_⟩
  · obtain rfl | rfl := hchunks a ha
    · exact ⟨"deadlines", rfl⟩
    · exact ⟨"refunds", rfl⟩
  · have hregistry {row : Row}
        (hrow : row ∈ versionWorld.warehouse.rows QueryLog.policies.registryRelation) :
        row = versionRow := List.mem_singleton.mp hrow
    rw [hregistry ha, hregistry hb]
  · intro relation hrelation
    cases hrelation
  · intro c a ha
    cases ha
  · exact Nat.zero_le _

/-- The world of the version, with a warehouse that returns the chunks in the other order. -/
def reversedWorld : World where
  warehouse := fun relation => (versionWorld.warehouse relation).map List.reverse
  execute := versionWorld.execute

theorem rows_reversedWorld (relation : String) :
    (reversedWorld.warehouse.rows relation).Perm (versionWorld.warehouse.rows relation) := by
  have hrows : reversedWorld.warehouse.rows relation =
      (versionWorld.warehouse.rows relation).reverse := by
    cases h : versionWorld.warehouse relation <;> simp [Warehouse.rows, reversedWorld, h]
  exact hrows ▸ List.reverse_perm _

theorem answers_unordered_version :
    (cursorService.getDocument firstVersion).evaluate reversedWorld.answer =
      .ok (versionResponse 0 "refunds" (some firstCursor)) :=
  ((answers_unordered cursorService versionWorld).2 (fun resource hresource => by
    obtain rfl := List.mem_singleton.mp hresource
    exact tellsApart_versionWorld)).2.1 firstVersion _
      (Prog.outcome_evaluate (rowAnswer_of_perm rows_reversedWorld rfl) _)

end Stel.Mcp
