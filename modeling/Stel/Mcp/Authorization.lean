import Stel.Mcp.Contracts

/-!
# Authorization of the context server

`mcp_server/authorization.py`: the filters that a principal's claims put on a search, and the check
of a row against them.

## Main definitions

* `Principal`, `PolicyAttribute`.
* `claimValue`, `searchPolicyFilters`, `canRead`: `ClaimAuthorizationProvider`.

## Main results

* `meetsClaim_of_canRead`: a private row that a principal reads passes the filters of the search.
-/

namespace Stel.Mcp

open AgentContext

/-! ### Equality of Python -/

/-- The number that a value of a row is equal to. -/
def valueNumber : Value → Option ℚ
  | .bool b => some (if b then 1 else 0)
  | .int n => some n
  | .float q => some q
  | _ => none

/-- The number that a claim is equal to. -/
def SearchScalar.number : SearchScalar → Option ℚ
  | .bool b => some (if b then 1 else 0)
  | .int n => some n
  | .float q => some q
  | _ => none

/-- Equality of two `datetime`s: an aware one and a naive one differ. -/
def sameInstant (d e : DateTime) : Bool :=
  match d.offset, e.offset with
  | some a, some b => d.clock - a = e.clock - b
  | none, none => d.clock = e.clock
  | _, _ => false

/-- `row_value == claim`. -/
def equals (value : Value) (claim : SearchScalar) : Bool :=
  match value, claim with
  | .string s, .string t => s = t
  | .timestamp d, .datetime e => sameInstant d e
  | value, claim =>
    match valueNumber value, claim.number with
    | some a, some b => a = b
    | _, _ => false

/-- The comparison of a value of a row with a claim: membership in a tuple, else equality. -/
def meetsClaim (value : Value) : FilterValue → Bool
  | .scalar claim => equals value claim
  | .tuple claims => claims.any (equals value)

/-! ### Principals -/

/-- `PolicyAttribute`. -/
structure PolicyAttribute where
  name : String
  dataType : String
  deriving DecidableEq

/-- `Principal`. -/
structure Principal where
  subjectId : String
  tenantId : Option String
  accessGroups : List String
  policyClaims : List (String × FilterValue)
  subject_ne : subjectId ≠ ""
  sorted : accessGroups.Pairwise (· < ·)
  groups_ne : "" ∉ accessGroups
  nodup : (policyClaims.map Prod.fst).Nodup

/-- `ClaimAuthorizationProvider._claim_value`. -/
def claimValue (principal : Principal) (field : String) : Option FilterValue :=
  match principal.policyClaims.lookup field with
  | some value => some value
  | none =>
    if field ∈ ["tenant", "tenant_id"] then
      principal.tenantId.map fun tenant => .scalar (.string tenant)
    else if field ∈ ["access_group", "group"] then
      some (.tuple (principal.accessGroups.map .string))
    else none

/-! ### Filters of a search -/

/-- `SearchFilter.__post_init__`. -/
def makeSearchFilter (field : String) (operator : FilterOperator) (value : FilterValue) :
    Except ContextException SearchFilter :=
  if field = "" then .error .other
  else match operator, value with
    | .isIn, .tuple [] | .isIn, .scalar _ => .error .other
    | .isIn, .tuple values => .ok ⟨field, .isIn, .tuple values⟩
    | operator, .scalar scalar => .ok ⟨field, operator, .scalar scalar⟩
    | _, .tuple _ => .error .other

/-- The filter of a policy attribute in `search_policy_filters`. -/
def policyFilter (principal : Principal) (policy : PolicyAttribute) :
    Except ContextException SearchFilter :=
  if policy.dataType = "array[string]" then
    .error (.authorizationError
      "The active retrieval store cannot compile array-valued policy claims")
  else
    match claimValue principal policy.name with
    | none | some (.tuple []) => .error (.authorizationError
        "The caller has no trusted value for every required policy attribute")
    | some (.tuple values) => makeSearchFilter policy.name .isIn (.tuple values)
    | some (.scalar value) => makeSearchFilter policy.name .equal (.scalar value)

/-- `ClaimAuthorizationProvider.search_policy_filters`. -/
def searchPolicyFilters (principal : Principal) (access : Access)
    (attributes : List PolicyAttribute) : Except ContextException (List SearchFilter) :=
  if access = .«public» then .ok []
  else do
    let filters ← attributes.mapM (policyFilter principal)
    if filters = [] then
      .error (.authorizationError
        "The governed context model has no enforceable policy attributes")
    else .ok filters

/-! ### The check of a row -/

/-- The tenant check of `can_read`: without a value if it refuses, else whether it matched. -/
def checkTenant (principal : Principal) (row : Row) : Option Bool :=
  match row "tenant_id" with
  | .string tenant =>
    if tenant = "" then some false
    else if principal.tenantId ≠ some tenant then none else some true
  | _ => some false

/-- The groups of a row. -/
def rowGroups (row : Row) : List String :=
  match row "access_groups" with
  | .list items => (items.filterMap id).filter (· ≠ "")
  | _ => []

/-- The group check of `can_read`. -/
def checkGroups (principal : Principal) (row : Row) : Option Bool :=
  let groups := rowGroups row
  if groups = [] then some false
  else if ∀ group ∈ groups, group ∉ principal.accessGroups then none else some true

/-- The check of one policy attribute in `can_read`. -/
def checkAttribute (principal : Principal) (row : Row) (_matched : Bool)
    (policy : PolicyAttribute) : Option Bool :=
  match claimValue principal policy.name with
  | none => none
  | some claim =>
    if row policy.name = .null then none
    else if meetsClaim (row policy.name) claim then some true else none

/-- The check of one policy claim in `can_read`. -/
def checkClaim (row : Row) (matched : Bool) (claim : String × FilterValue) : Option Bool :=
  if row claim.1 = .null then some matched
  else if meetsClaim (row claim.1) claim.2 then some true else none

/-- The checks of `can_read` on a row that is not public: without a value if one of them refuses,
else whether one of them matched. -/
def checkRow (principal : Principal) (row : Row) (attributes : List PolicyAttribute) :
    Option Bool := do
  let tenant ← checkTenant principal row
  let group ← checkGroups principal row
  let matched ← attributes.foldlM (checkAttribute principal row) (tenant || group)
  principal.policyClaims.foldlM (checkClaim row) matched

/-- `ClaimAuthorizationProvider.can_read`. -/
def canRead (principal : Principal) (row : Row) (attributes : List PolicyAttribute) : Bool :=
  if row "authorization_resolved" ≠ .bool true then false
  else if row "is_public" = .bool true then true
  else (checkRow principal row attributes).getD false

/-! ### The two applications of a policy -/

theorem meetsClaim_of_checkAttribute {principal : Principal} {row : Row} {matched matched' : Bool}
    {policy : PolicyAttribute}
    (h : checkAttribute principal row matched policy = some matched') :
    ∃ claim, claimValue principal policy.name = some claim ∧
      meetsClaim (row policy.name) claim = true := by
  unfold checkAttribute at h
  cases hclaim : claimValue principal policy.name with
  | none =>
    rw [hclaim] at h
    cases h
  | some claim =>
    simp only [hclaim] at h
    split_ifs at h with hnull hmeets
    exact ⟨claim, rfl, hmeets⟩

theorem checkAttribute_of_foldlM {principal : Principal} {row : Row}
    {attributes : List PolicyAttribute} {matched matched' : Bool}
    (h : attributes.foldlM (checkAttribute principal row) matched = some matched') :
    ∀ policy ∈ attributes, ∃ m m', checkAttribute principal row m policy = some m' := by
  induction attributes generalizing matched with
  | nil => simp
  | cons policy attributes ih =>
    rw [List.foldlM_cons, Option.bind_eq_bind, Option.bind_eq_some_iff] at h
    obtain ⟨next, hnext, hrest⟩ := h
    exact List.forall_mem_cons.mpr ⟨⟨matched, next, hnext⟩, ih hrest⟩

theorem meetsClaim_of_policyFilter {principal : Principal} {row : Row}
    {policy : PolicyAttribute} {filter : SearchFilter} {claim : FilterValue}
    (hfilter : policyFilter principal policy = .ok filter)
    (hclaim : claimValue principal policy.name = some claim)
    (hmeets : meetsClaim (row policy.name) claim = true) :
    meetsClaim (row filter.field) filter.value = true := by
  unfold policyFilter at hfilter
  split_ifs at hfilter
  rw [hclaim] at hfilter
  cases claim with
  | scalar scalar =>
    simp only [makeSearchFilter] at hfilter
    split_ifs at hfilter
    obtain rfl := Except.ok.inj hfilter
    exact hmeets
  | tuple values =>
    cases values with
    | nil => cases hfilter
    | cons value values =>
      simp only [makeSearchFilter] at hfilter
      split_ifs at hfilter
      obtain rfl := Except.ok.inj hfilter
      exact hmeets

/-- A row that a principal reads without its being public passes the filters that are put on the
principal's search. -/
theorem meetsClaim_of_canRead {principal : Principal} {row : Row} {access : Access}
    {attributes : List PolicyAttribute} {filters : List SearchFilter}
    (hread : canRead principal row attributes = true) (hprivate : row "is_public" ≠ .bool true)
    (hfilters : searchPolicyFilters principal access attributes = .ok filters) :
    ∀ filter ∈ filters, meetsClaim (row filter.field) filter.value = true := by
  unfold searchPolicyFilters at hfilters
  split_ifs at hfilters with hpublic
  · obtain rfl := Except.ok.inj hfilters
    simp
  · obtain ⟨compiled, hcompiled, hne⟩ := bind_eq_ok.mp hfilters
    split_ifs at hne
    obtain rfl := Except.ok.inj hne
    intro filter hfilter
    obtain ⟨policy, hattribute, hpolicy⟩ := exists_of_mem_right (mapM_eq_ok.mp hcompiled) hfilter
    have hrow : ∃ matched, checkRow principal row attributes = some matched := by
      unfold canRead at hread
      split_ifs at hread
      cases hcheck : checkRow principal row attributes with
      | none =>
        rw [hcheck] at hread
        cases hread
      | some matched => exact ⟨matched, rfl⟩
    obtain ⟨matched, hmatched⟩ := hrow
    simp only [checkRow, Option.bind_eq_bind, Option.bind_eq_some_iff] at hmatched
    obtain ⟨tenant, -, group, -, next, hnext, -⟩ := hmatched
    obtain ⟨m, m', hcheck⟩ := checkAttribute_of_foldlM hnext policy hattribute
    obtain ⟨claim, hclaim, hmeets⟩ := meetsClaim_of_checkAttribute hcheck
    exact meetsClaim_of_policyFilter hpolicy hclaim hmeets

end Stel.Mcp
