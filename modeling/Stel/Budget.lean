import Stel.Failure
import Mathlib.Algebra.Order.Floor.Semiring
import Mathlib.Data.NNRat.Floor
import Mathlib.Data.PNat.Basic

/-!
# Execution budgets

A budget caps the documents, bytes, provider calls, tokens and spend of one model or of one run.
A `BudgetLedger` accumulates what was used; `ensureHeadroom` gates the next provider call on the
totals and `chargeUsage` records a response after it arrived. A `BudgetGuard` consults the ledger
of the model and the ledger shared by the run, in this order. Costs are exact rational numbers.

## Main definitions

* `LLMBudgetConfig`, `BudgetExceededError`, `BudgetLedger` and the methods of a ledger.
* `Meter`: the four quantities that are only known after a response.
* `Metrics`, `BudgetGuard`, `BudgetGuard.measure`: how a guard reads a metrics mapping.

## Main results

* `BudgetLedger.ensureHeadroom_eq_ok`: when the gate lets the next calls pass.
* `BudgetLedger.used_chargeUsage`: what a charge adds to each meter.
-/

namespace Stel.Budget

/-! ### Configuration and errors -/

/-- The caps of a budget, every one at least one or positive. An absent cap is unlimited. -/
structure LLMBudgetConfig where
  maxDocuments : Option ℕ+
  maxFileBytes : Option ℕ+
  maxTotalBytes : Option ℕ+
  maxInputTokens : Option ℕ+
  maxOutputTokens : Option ℕ+
  maxApiCalls : Option ℕ+
  maxCostUsd : Option {cost : ℚ≥0 // 0 < cost}

/-- The budget without caps. -/
def LLMBudgetConfig.unlimited : LLMBudgetConfig := ⟨none, none, none, none, none, none, none⟩

/-- A budget of one call. -/
def oneCall : LLMBudgetConfig := { LLMBudgetConfig.unlimited with maxApiCalls := some 1 }

/-- A model or run budget would be, or has been, exceeded. -/
structure BudgetExceededError where
  scope : String
  limit : String
  cap : ℚ≥0
  observed : ℚ≥0
  deriving DecidableEq

/-- The text of the error, for a rendering `g` of numbers in general format. -/
def BudgetExceededError.message (g : ℚ≥0 → String) (e : BudgetExceededError) : String :=
  e.scope ++ " budget exceeded: " ++ e.limit ++ "=" ++ g e.observed ++ " over cap " ++ g e.cap

/-- Raises the error of `limit` unless `observed` stays within an existing cap. -/
def requireAtMost (scope limit : String) (cap : Option ℕ+) (observed : ℕ) :
    Except BudgetExceededError Unit :=
  match cap with
  | none => .ok ()
  | some cap => if (cap : ℕ) < observed then .error ⟨scope, limit, (cap : ℕ), observed⟩ else .ok ()

/-- A cap on a count, as an amount. -/
def amount (cap : Option ℕ+) : Option ℚ≥0 :=
  cap.map fun n : ℕ+ => ((n : ℕ) : ℚ≥0)

/-! ### Ledgers -/

/-- The accumulated totals of one budget. -/
structure BudgetLedger where
  config : LLMBudgetConfig
  scope : String
  documents : ℕ
  totalBytes : ℕ
  apiCalls : ℕ
  inputTokens : ℕ
  outputTokens : ℕ
  costUsd : ℚ≥0

namespace BudgetLedger

/-- A new ledger. -/
def fresh (config : LLMBudgetConfig) (scope : String) : BudgetLedger :=
  ⟨config, scope, 0, 0, 0, 0, 0, 0⟩

/-- Counts documents. The count stays recorded when the cap is exceeded. -/
def chargeDocuments (ledger : BudgetLedger) (count : ℕ) :
    Except BudgetExceededError Unit × BudgetLedger :=
  let documents := ledger.documents + count
  (requireAtMost ledger.scope "max_documents" ledger.config.maxDocuments documents,
    { ledger with documents })

/-- Rejects a file over the size cap. -/
def checkFileBytes (ledger : BudgetLedger) (size : ℕ) : Except BudgetExceededError Unit :=
  requireAtMost ledger.scope "max_file_bytes" ledger.config.maxFileBytes size

/-- Counts request bytes. The count stays recorded when the cap is exceeded. -/
def chargeBytes (ledger : BudgetLedger) (count : ℕ) :
    Except BudgetExceededError Unit × BudgetLedger :=
  let totalBytes := ledger.totalBytes + count
  (requireAtMost ledger.scope "max_total_bytes" ledger.config.maxTotalBytes totalBytes,
    { ledger with totalBytes })

/-- The comparisons of the gate, in order: limit, cap and observed value. -/
def checks (ledger : BudgetLedger) (nextCalls : ℕ) : List (String × Option ℚ≥0 × ℚ≥0) :=
  [("max_api_calls", amount ledger.config.maxApiCalls, (ledger.apiCalls + nextCalls : ℕ)),
    ("max_input_tokens", amount ledger.config.maxInputTokens, ledger.inputTokens),
    ("max_output_tokens", amount ledger.config.maxOutputTokens, ledger.outputTokens),
    ("max_cost_usd", ledger.config.maxCostUsd.map Subtype.val, ledger.costUsd)]

/-- Whether the gate finds a cap exceeded: calls are counted with the next ones, the other limits
stop at the cap because they are only measured afterwards. -/
def exceeded (limit : String) (observed cap : ℚ≥0) : Bool :=
  if limit = "max_api_calls" then cap < observed else cap ≤ observed

/-- One comparison of the gate. -/
def check (scope : String) : String × Option ℚ≥0 × ℚ≥0 → Except BudgetExceededError Unit
  | (_, none, _) => .ok ()
  | (limit, some cap, observed) =>
    if exceeded limit observed cap then .error ⟨scope, limit, cap, observed⟩ else .ok ()

/-- Gates the next provider calls on the accumulated totals. -/
def ensureHeadroom (ledger : BudgetLedger) (nextCalls : ℕ) : Except BudgetExceededError Unit :=
  (ledger.checks nextCalls).forM (check ledger.scope)

end BudgetLedger

/-- Measured usage of provider calls. -/
structure Usage where
  apiCalls : ℕ
  inputTokens : ℕ
  outputTokens : ℕ
  costUsd : ℚ≥0
  deriving DecidableEq

/-- The usage that `charge_usage` records for its arguments: negative counts count as zero, as
does a cost that is negative or not finite (`none`). -/
def Usage.clamp (apiCalls inputTokens outputTokens : ℤ) (costUsd : Option ℚ) : Usage where
  apiCalls := apiCalls.toNat
  inputTokens := inputTokens.toNat
  outputTokens := outputTokens.toNat
  costUsd := (costUsd.getD 0).toNNRat

/-- Records measured usage. Never raises. -/
def BudgetLedger.chargeUsage (ledger : BudgetLedger) (usage : Usage) : BudgetLedger :=
  { ledger with
    apiCalls := ledger.apiCalls + usage.apiCalls
    inputTokens := ledger.inputTokens + usage.inputTokens
    outputTokens := ledger.outputTokens + usage.outputTokens
    costUsd := ledger.costUsd + usage.costUsd }

/-! ### Meters -/

/-- The quantities that are charged after a response and gate the next call. -/
inductive Meter where
  | apiCalls
  | inputTokens
  | outputTokens
  | costUsd
  deriving DecidableEq

/-- The amount of a usage on a meter. -/
def Usage.amount (usage : Usage) : Meter → ℚ≥0
  | .apiCalls => usage.apiCalls
  | .inputTokens => usage.inputTokens
  | .outputTokens => usage.outputTokens
  | .costUsd => usage.costUsd

/-- The cap of a budget on a meter. -/
def LLMBudgetConfig.cap (config : LLMBudgetConfig) : Meter → Option ℚ≥0
  | .apiCalls => amount config.maxApiCalls
  | .inputTokens => amount config.maxInputTokens
  | .outputTokens => amount config.maxOutputTokens
  | .costUsd => config.maxCostUsd.map Subtype.val

/-- A cap is positive. -/
theorem LLMBudgetConfig.cap_pos {config : LLMBudgetConfig} {meter : Meter} {cap : ℚ≥0}
    (h : cap ∈ config.cap meter) : 0 < cap := by
  have hcount : ∀ {limit : Option ℕ+}, cap ∈ amount limit → 0 < cap := by
    intro limit hlimit
    obtain ⟨n, -, rfl⟩ := Option.mem_map.mp hlimit
    exact_mod_cast n.pos
  cases meter with
  | apiCalls => exact hcount h
  | inputTokens => exact hcount h
  | outputTokens => exact hcount h
  | costUsd =>
    obtain ⟨cost, -, rfl⟩ := Option.mem_map.mp h
    exact cost.2

/-- The total of a ledger on a meter. -/
def BudgetLedger.used (ledger : BudgetLedger) : Meter → ℚ≥0
  | .apiCalls => ledger.apiCalls
  | .inputTokens => ledger.inputTokens
  | .outputTokens => ledger.outputTokens
  | .costUsd => ledger.costUsd

namespace BudgetLedger

@[simp]
theorem used_fresh (config : LLMBudgetConfig) (scope : String) (meter : Meter) :
    (fresh config scope).used meter = 0 := by
  cases meter <;> simp [fresh, used]

@[simp]
theorem config_fresh (config : LLMBudgetConfig) (scope : String) :
    (fresh config scope).config = config := rfl

@[simp]
theorem config_chargeUsage (ledger : BudgetLedger) (usage : Usage) :
    (ledger.chargeUsage usage).config = ledger.config := rfl

@[simp]
theorem used_chargeUsage (ledger : BudgetLedger) (usage : Usage) (meter : Meter) :
    (ledger.chargeUsage usage).used meter = ledger.used meter + usage.amount meter := by
  cases meter <;> simp [chargeUsage, used, Usage.amount]

theorem check_eq_ok {scope limit : String} {cap : Option ℚ≥0} {observed : ℚ≥0} :
    check scope (limit, cap, observed) = .ok () ↔ ∀ c ∈ cap, exceeded limit observed c = false := by
  cases cap with
  | none => simp [check]
  | some cap => simp [check]

theorem exceeded_calls {observed cap : ℚ≥0} :
    exceeded "max_api_calls" observed cap = false ↔ observed ≤ cap := by
  simp [exceeded]

theorem exceeded_of_ne {limit : String} {observed cap : ℚ≥0} (h : limit ≠ "max_api_calls") :
    exceeded limit observed cap = false ↔ observed < cap := by
  simp [exceeded, h]

/-- The gate lets the next calls pass when they stay within the cap on calls and every other
total is below its cap. -/
theorem ensureHeadroom_eq_ok {ledger : BudgetLedger} {nextCalls : ℕ} :
    ledger.ensureHeadroom nextCalls = .ok () ↔
      (∀ cap ∈ ledger.config.cap .apiCalls, ledger.used .apiCalls + nextCalls ≤ cap) ∧
        ∀ meter, meter ≠ .apiCalls → ∀ cap ∈ ledger.config.cap meter, ledger.used meter < cap := by
  have hmeters : (∀ meter, meter ≠ .apiCalls →
      ∀ cap ∈ ledger.config.cap meter, ledger.used meter < cap) ↔
      (∀ cap ∈ ledger.config.cap .inputTokens, ledger.used .inputTokens < cap) ∧
      (∀ cap ∈ ledger.config.cap .outputTokens, ledger.used .outputTokens < cap) ∧
      ∀ cap ∈ ledger.config.cap .costUsd, ledger.used .costUsd < cap := by
    constructor
    · intro h
      exact ⟨h _ nofun, h _ nofun, h _ nofun⟩
    · rintro ⟨hin, hout, hcost⟩ (_ | _ | _ | _) hne
      exacts [absurd rfl hne, hin, hout, hcost]
  rw [hmeters, ensureHeadroom, forM_eq_ok]
  simp only [checks, List.forall_mem_cons, check_eq_ok, exceeded_calls, ne_eq, String.reduceEq,
    not_false_eq_true, exceeded_of_ne, Nat.cast_add]
  exact ⟨fun ⟨hcalls, hin, hout, hcost, _⟩ => ⟨hcalls, hin, hout, hcost⟩,
    fun ⟨hcalls, hin, hout, hcost⟩ => ⟨hcalls, hin, hout, hcost, nofun⟩⟩

/-- The calls that the gate lets pass stay within the cap. -/
theorem calls_le_of_ensureHeadroom {ledger : BudgetLedger} {nextCalls : ℕ}
    (h : ledger.ensureHeadroom nextCalls = .ok ()) {cap : ℕ+}
    (hcap : cap ∈ ledger.config.maxApiCalls) : ledger.apiCalls + nextCalls ≤ cap := by
  have hle : (ledger.apiCalls : ℚ≥0) + nextCalls ≤ ((cap : ℕ) : ℚ≥0) :=
    (ensureHeadroom_eq_ok.mp h).1 _ (Option.mem_map_of_mem _ hcap)
  exact_mod_cast hle

/-- A count stays within a cap with one more exactly if it is below the cap. -/
theorem succ_le_amount {cap : Option ℕ+} {n : ℕ} :
    (∀ c ∈ amount cap, (n : ℚ≥0) + (1 : ℕ) ≤ c) ↔ ∀ c ∈ amount cap, (n : ℚ≥0) < c := by
  cases cap with
  | none => simp [amount]
  | some cap =>
    have h : (n : ℚ≥0) + (1 : ℕ) ≤ ((cap : ℕ) : ℚ≥0) ↔ (n : ℚ≥0) < ((cap : ℕ) : ℚ≥0) := by
      rw [← Nat.cast_add, Nat.cast_le, Nat.cast_lt, Nat.succ_le_iff]
    constructor
    · rintro hc _ ⟨⟩
      exact h.mp (hc _ rfl)
    · rintro hc _ ⟨⟩
      exact h.mpr (hc _ rfl)

/-- The gate for one call lets it pass when every total is below its cap. -/
theorem ensureHeadroom_one_eq_ok {ledger : BudgetLedger} :
    ledger.ensureHeadroom 1 = .ok () ↔
      ∀ meter, ∀ cap ∈ ledger.config.cap meter, ledger.used meter < cap := by
  have hcalls : (∀ cap ∈ ledger.config.cap .apiCalls,
      ledger.used .apiCalls + (1 : ℕ) ≤ cap) ↔
      ∀ cap ∈ ledger.config.cap .apiCalls, ledger.used .apiCalls < cap :=
    succ_le_amount
  rw [ensureHeadroom_eq_ok, hcalls]
  constructor
  · rintro ⟨hcalls, hrest⟩ meter
    by_cases h : meter = .apiCalls
    · exact h ▸ hcalls
    · exact hrest meter h
  · intro h
    exact ⟨h _, fun meter _ => h meter⟩

end BudgetLedger

/-! ### Metrics and guards -/

/-- A value of a metrics mapping: an absent key, a boolean, an integer, a finite float, a float
that is not finite, or anything else. -/
inductive MetricValue where
  | absent
  | bool (b : Bool)
  | int (z : ℤ)
  | float (q : ℚ)
  | nonFinite
  | other
  deriving DecidableEq

/-- The entries of an extraction-result metrics mapping that a guard or a cost estimate reads. -/
structure Metrics where
  apiCalls : MetricValue
  inputTokens : MetricValue
  outputTokens : MetricValue
  cacheReadInputTokens : MetricValue
  cacheCreationInputTokens : MetricValue
  reportedCostUsd : MetricValue

/-- The usage that a provider reports for one response. -/
structure ProviderUsage where
  inputTokens : ℕ
  outputTokens : ℕ
  cacheReadInputTokens : ℕ
  cacheCreationInputTokens : ℕ
  reportedCostUsd : Option ℚ≥0

/-- The metrics of billed work: the calls it counts for and the usage reported for it. -/
def ProviderUsage.toMetrics (usage : ProviderUsage) (apiCalls : ℕ) : Metrics where
  apiCalls := .int apiCalls
  inputTokens := .int usage.inputTokens
  outputTokens := .int usage.outputTokens
  cacheReadInputTokens := .int usage.cacheReadInputTokens
  cacheCreationInputTokens := .int usage.cacheCreationInputTokens
  reportedCostUsd :=
    match usage.reportedCostUsd with
    | none => .absent
    | some cost => .float cost

/-- The metrics of one provider call that returned. -/
def ProviderUsage.callMetrics (usage : ProviderUsage) : Metrics := usage.toMetrics 1

/-- The metrics of an answer from the response cache: no call and no tokens. -/
def cachedMetrics : Metrics := ⟨.int 0, .int 0, .int 0, .int 0, .int 0, .absent⟩

/-- The count that a guard reads from a metric. Truncating a float that is not finite raises
(`none`). -/
def MetricValue.count : MetricValue → Option ℕ
  | .int z => some z.toNat
  | .float q => some ⌊q⌋₊
  | .nonFinite => none
  | .absent | .bool _ | .other => some 0

/-- The spend that the provider reported, if it is a positive finite number. -/
def MetricValue.reportedCost : MetricValue → Option ℚ
  | .int z => if 0 < z then some z else none
  | .float q => if 0 < q then some q else none
  | .absent | .bool _ | .nonFinite | .other => none

/-- The ledgers of a run: one for each model `M`, and the shared one. -/
inductive LedgerId (M : Type*) where
  | model (m : M)
  | run
  deriving DecidableEq

/-- The ledgers consulted as one unit: the ledger of a model, if it has one, and the shared
ledger of the run, if there is one. The estimator prices usage whose spend is not reported; it may
answer with a number that is not finite (`none`). -/
structure BudgetGuard (M : Type*) where
  modelLedger : Option M
  runLedger : Bool
  costEstimator : Option (Metrics → Option ℚ)

namespace BudgetGuard

variable {M : Type*}

/-- The ledgers of a guard, in the order in which they are consulted. -/
def ledgers (guard : BudgetGuard M) : List (LedgerId M) :=
  (guard.modelLedger.map LedgerId.model).toList ++ (if guard.runLedger then [.run] else [])

theorem nodup_ledgers (guard : BudgetGuard M) : guard.ledgers.Nodup := by
  rcases guard with ⟨_ | m, _ | _, _⟩ <;> simp [ledgers]

/-- The cost that `charge_metrics` charges for a metrics mapping: spend reported by the provider
wins over the estimate. -/
def cost (guard : BudgetGuard M) (metrics : Metrics) : Option ℚ :=
  match metrics.reportedCostUsd.reportedCost with
  | some cost => some cost
  | none =>
    match guard.costEstimator with
    | some estimate => estimate metrics
    | none => some 0

/-- The usage that `charge_metrics` charges to every ledger, unless reading a count raises. -/
def measure (guard : BudgetGuard M) (metrics : Metrics) : Option Usage := do
  let apiCalls ← metrics.apiCalls.count
  let inputTokens ← metrics.inputTokens.count
  let outputTokens ← metrics.outputTokens.count
  pure (Usage.clamp apiCalls inputTokens outputTokens (guard.cost metrics))

/-- What a guard charges for billed work. -/
theorem measure_toMetrics (guard : BudgetGuard M) (usage : ProviderUsage) (apiCalls : ℕ) :
    guard.measure (usage.toMetrics apiCalls) =
      some (Usage.clamp apiCalls usage.inputTokens usage.outputTokens
        (guard.cost (usage.toMetrics apiCalls))) := rfl

/-- What a guard charges for an answer from the response cache. -/
theorem measure_cachedMetrics (guard : BudgetGuard M) :
    guard.measure cachedMetrics = some (Usage.clamp 0 0 0 (guard.cost cachedMetrics)) := rfl

end BudgetGuard

end Stel.Budget
