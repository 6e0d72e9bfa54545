import Stel.Mcp.Contracts
import Stel.Program.Outcomes

/-!
# What the context server reads

The two operations that the server performs on the world, `ContextRepository.read_rows` and
`ContextSearch.execute`, and `WarehouseContextRepository` on the contents of a warehouse.

## Main definitions

* `ReadPredicate`, `ReadCall`, `ServiceOp`: the operations.
* `Warehouse`, `Warehouse.readRows`: the rows that a warehouse returns for a call.
* `RowAnswer`: the answers that differ from those of a warehouse in the order of the rows only.

## Main results

* `Warehouse.readRows_eq_ok_iff`, `Warehouse.readRows_cases`: a read returns the selected rows, within its limit.
-/

namespace Stel.Mcp

open AgentContext

/-- The `ReadPredicate`s that the server makes: `_eq`, `_in` and `_is_null`. -/
inductive ReadPredicate
  | eq (column value : String)
  | isIn (column : String) (values : List String)
  | isNull (column : String)
  deriving DecidableEq, Repr

/-- The rows that satisfy a predicate. -/
def ReadPredicate.holds (row : Row) : ReadPredicate → Bool
  | .eq column value => row column = .string value
  | .isIn column values => values.any fun value => row column = .string value
  | .isNull column => row column = .null

/-- The arguments of `read_rows`. -/
structure ReadCall where
  relation : String
  predicates : List ReadPredicate
  maxRows : ℕ
  columns : Option (List String) := none
  deriving DecidableEq, Repr

/-- The operations of the server on the world. -/
inductive ServiceOp
  | readRows (call : ReadCall)
  | execute (request : SearchRequest) (policyFilters : List SearchFilter)

/-- The replies to the operations. -/
@[reducible] def ServiceRet : ServiceOp → Type
  | .readRows _ => List Row
  | .execute _ _ => List SearchResult

/-- A computation of the server. -/
abbrev Action (α : Type) : Type := Prog ServiceOp ServiceRet ContextException α

/-- `repository.read_rows`. -/
def readRows (call : ReadCall) : Action (List Row) := Prog.perform (ServiceOp.readRows call)

/-- `context_search.execute`. -/
def execute (request : SearchRequest) (policyFilters : List SearchFilter) :
    Action (List SearchResult) :=
  Prog.perform (ServiceOp.execute request policyFilters)

/-! ### The warehouse -/

/-- The contents of a warehouse: the rows of the relations that exist. -/
abbrev Warehouse : Type := String → Option (List Row)

/-- The rows of a relation; one that does not exist reads as an empty one. -/
def Warehouse.rows (warehouse : Warehouse) (relation : String) : List Row :=
  (warehouse relation).getD []

/-- The columns of a row that are read. -/
def project (columns : Option (List String)) (row : Row) : Row :=
  match columns with
  | none => row
  | some columns => fun column => if column ∈ columns then row column else .null

/-- The rows that a call selects. -/
def selectRows (warehouse : Warehouse) (call : ReadCall) : List Row :=
  ((warehouse.rows call.relation).filter fun row =>
    call.predicates.all (ReadPredicate.holds row)).map (project call.columns)

/-- `WarehouseContextRepository.read_rows`. -/
def Warehouse.readRows (warehouse : Warehouse) (call : ReadCall) :
    Except ContextException (List Row) :=
  if call.maxRows < (selectRows warehouse call).length then .error .contextRepositoryLimitError
  else .ok (selectRows warehouse call)

theorem Warehouse.readRows_eq_ok_iff {warehouse : Warehouse} {call : ReadCall} {rows : List Row} :
    warehouse.readRows call = .ok rows ↔
      (selectRows warehouse call).length ≤ call.maxRows ∧ rows = selectRows warehouse call := by
  unfold Warehouse.readRows
  split_ifs with hlimit
  · constructor
    · intro h
      cases h
    · rintro ⟨hle, -⟩
      omega
  · constructor
    · intro h
      exact ⟨not_lt.mp hlimit, (Except.ok.inj h).symm⟩
    · rintro ⟨-, rfl⟩
      rfl

theorem Warehouse.readRows_cases (warehouse : Warehouse) (call : ReadCall) :
    ((selectRows warehouse call).length ≤ call.maxRows ∧
      warehouse.readRows call = .ok (selectRows warehouse call)) ∨
    (call.maxRows < (selectRows warehouse call).length ∧
      warehouse.readRows call = .error .contextRepositoryLimitError) := by
  by_cases hlimit : call.maxRows < (selectRows warehouse call).length
  · exact .inr ⟨hlimit, if_pos hlimit⟩
  · exact .inl ⟨not_lt.mp hlimit, if_neg hlimit⟩

/-- The world of the server: a warehouse and a search, which answers a request or raises. -/
structure World where
  warehouse : Warehouse
  execute : SearchRequest → List SearchFilter → Except ContextException (List SearchResult)

/-- The answers of a world. -/
def World.answer (world : World) : (o : ServiceOp) → Except ContextException (ServiceRet o)
  | .readRows call => world.warehouse.readRows call
  | .execute request policyFilters => world.execute request policyFilters

@[simp] theorem evaluate_readRows (world : World) (call : ReadCall) :
    (readRows call).evaluate world.answer = world.warehouse.readRows call :=
  Prog.evaluate_perform world.answer (.readRows call)

@[simp] theorem evaluate_execute (world : World) (request : SearchRequest)
    (policyFilters : List SearchFilter) :
    (execute request policyFilters).evaluate world.answer =
      world.execute request policyFilters :=
  Prog.evaluate_perform world.answer (.execute request policyFilters)

/-- The answers of a world that returns the rows of every read in some order. -/
def RowAnswer (world : World) : (o : ServiceOp) → Except ContextException (ServiceRet o) → Prop
  | .readRows call, x =>
    (∃ rows, world.warehouse.readRows call = .ok rows ∧ ∃ rows', rows'.Perm rows ∧ x = .ok rows') ∨
    ∃ e, world.warehouse.readRows call = .error e ∧ x = .error e
  | .execute request policyFilters, x => x = world.execute request policyFilters

theorem rowAnswer_answer (world : World) (o : ServiceOp) : RowAnswer world o (world.answer o) := by
  cases o with
  | readRows call =>
    cases h : world.warehouse.readRows call with
    | ok rows => exact .inl ⟨rows, h, rows, .refl _, h⟩
    | error e => exact .inr ⟨e, h, h⟩
  | execute request policyFilters => rfl

end Stel.Mcp
