import Stel.Budget
import Stel.Program.Basic
import Mathlib.Algebra.Order.BigOperators.Group.List

/-!
# What the ledgers of an extraction run see

An llm extraction run executes its documents one by one, or in native batches, under a guard.
What the provider bills for a document reaches the ledgers through the metrics of its result or
through the failure envelope of its error. Some outcomes lose it: on the per-document path
everything that raises after the call, and on the batch path usage that is reported beside an
error or with a result that does not validate.

## Main definitions

* `InferenceFailure`, `ProviderError`, `BatchInferenceItem` and the functions that hand them on.
* `Item`: what became of one document, with `Item.billed`, `Item.charged` and `Item.Metered`.
* `extractOne`, `flushPartition`, `extractBatch`, `iterExtracted`: the run as a program over the
  methods of the ledgers.
* `Gate`, `Gate.Covers`: one check of a ledger, and that the ledger has seen every bill.

## Main results

* `Item.charged_amount`: what reaches the ledgers of a bill.
* `meets_iterExtracted`: the invariant of a run.
* `ledgers_cover_iff`: when every gate sees all that was billed before it.
-/

namespace Stel.Budget

/-! ### Provider answers -/

/-- Who did provider work. -/
structure Provenance where
  provider : String
  model : String
  implementationIdentity : String

/-- Billing and provenance for provider work that produced no usable result. -/
structure InferenceFailure where
  errorCode : String
  usage : ProviderUsage
  billedRequests : ℕ
  provenance : Provenance

/-- A provider error with the billed-failure envelope it may carry. -/
structure ProviderError where
  failure : Option InferenceFailure

/-- `sanitized_provider_error`: the text is replaced and the envelope survives. -/
def ProviderError.sanitized (error : ProviderError) : ProviderError where
  failure := error.failure

/-- A batch item: a result with its usage, or an error with the usage billed for it, if any. -/
inductive BatchInferenceItem where
  | result (usage : ProviderUsage)
  | error (error : ProviderError) (usage : Option ProviderUsage)

/-- What `validate_batch_result` makes of an item whose result the provider rejects with
`rejection`. Items with an error are built anew without their usage. -/
def BatchInferenceItem.validated (rejection : Option ProviderError) :
    BatchInferenceItem → BatchInferenceItem
  | .error e _ => .error e.sanitized none
  | .result usage =>
    match rejection with
    | none => .result usage
    | some e => .error e.sanitized none

/-- `_resolve_batch_item`: the metrics of a result, or the error, with the envelope synthesized
from the usage of the item when it has none. -/
def BatchInferenceItem.resolve (provenance : Provenance) :
    BatchInferenceItem → Except ProviderError Metrics
  | .result usage => .ok usage.callMetrics
  | .error e none => .error e
  | .error e (some usage) =>
    match e.failure with
    | some _ => .error e
    | none => .error ⟨some ⟨"batch_item_failed", usage, 1, provenance⟩⟩

/-- What the backend makes of one document on the per-document path: an answer from the response
cache, a result, or an error after work that the provider reported usage for. -/
inductive Extraction where
  | cached
  | completed (usage : ProviderUsage)
  | failed (error : ProviderError) (usage : Option ProviderUsage)

/-- `LLMBackend.extract`: the metrics of the result, or the error. -/
def Extraction.extract : Extraction → Except ProviderError Metrics
  | .cached => .ok cachedMetrics
  | .completed usage => .ok usage.callMetrics
  | .failed error _ => .error error.sanitized

/-! ### Bills -/

/-- What became of a document that was handed to the provider or found in the response cache. -/
inductive Item where
  | document (extraction : Extraction) (hookRaises : Bool)
  | batch (item : BatchInferenceItem) (rejection : Option ProviderError)

/-- A bill for usage. -/
def bill (requests : ℕ) (usage : ProviderUsage) : Usage :=
  ⟨requests, usage.inputTokens, usage.outputTokens, 0⟩

/-- What the provider billed for failed work: what the envelope says, else one request for the
usage it reported, else nothing. -/
def ProviderError.billed (error : ProviderError) (usage : Option ProviderUsage) : Usage :=
  match error.failure, usage with
  | some failure, _ => bill failure.billedRequests failure.usage
  | none, some usage => bill 1 usage
  | none, none => ⟨0, 0, 0, 0⟩

/-- The calls and tokens that the provider billed for an item. -/
def Item.billed : Item → Usage
  | .document .cached _ => ⟨0, 0, 0, 0⟩
  | .document (.completed usage) _ => bill 1 usage
  | .document (.failed error usage) _ => error.billed usage
  | .batch (.result usage) none => bill 1 usage
  | .batch (.result usage) (some rejection) => rejection.billed (some usage)
  | .batch (.error error usage) _ => error.billed usage

/-- The outcomes whose bill reaches the ledgers. On the per-document path the item must not raise
after a billed call; on the batch path a failed item must carry its bill in its envelope. -/
def Item.Metered : Item → Prop
  | .document .cached _ => True
  | .document (.completed _) hookRaises => hookRaises = false
  | .document (.failed error usage) _ => error.billed usage = ⟨0, 0, 0, 0⟩
  | .batch (.result _) none => True
  | .batch (.result _) (some rejection) => rejection.failure.isSome
  | .batch (.error error usage) _ => error.failure.isSome ∨ usage = none

variable {M : Type}

/-- The metrics charged for a resolved batch item: those of its result, or of its envelope. -/
def resolvedMetrics : Except ProviderError Metrics → Option Metrics
  | .ok metrics => some metrics
  | .error e => e.failure.map fun failure => failure.usage.toMetrics failure.billedRequests

/-- The metrics that are charged for an item, if any. -/
def Item.chargedMetrics (provenance : Provenance) : Item → Option Metrics
  | .document extraction hookRaises =>
    match extraction.extract with
    | .ok metrics => if hookRaises then none else some metrics
    | .error _ => none
  | .batch item rejection => resolvedMetrics ((item.validated rejection).resolve provenance)

/-! ### The run -/

/-- A document of the per-document path: the size of its file unless the source cannot deliver it,
what the backend makes of it, and whether the post-extract hook raises. -/
structure Document where
  fetched : Option ℕ
  extraction : Extraction
  hookRaises : Bool

/-- A document of the batch path. `cached` says that its response is in the cache when the document
is reached; otherwise `item` answers its request. -/
structure BatchDocument where
  fetched : Option ℕ
  readable : Bool
  cached : Bool
  item : BatchInferenceItem
  rejection : Option ProviderError
  hookRaises : Bool

/-- What ends a run, or the execution of one document. -/
inductive Stop where
  | budgetExceeded (e : BudgetExceededError)
  | raised

/-- The methods of the ledgers, and the provider answering for one document. -/
inductive LedgerOp (M : Type) where
  | chargeDocuments (k : LedgerId M) (count : ℕ)
  | checkFileBytes (k : LedgerId M) (size : ℕ)
  | chargeBytes (k : LedgerId M) (count : ℕ)
  | ensureHeadroom (k : LedgerId M) (nextCalls : ℕ)
  | chargeUsage (k : LedgerId M) (usage : Usage)
  | answer (item : Item)

/-- Programs over the ledgers. -/
abbrev LedgerProg (M α : Type) : Type := Prog (LedgerOp M) (fun _ => Unit) Stop α

namespace BudgetGuard

variable {M : Type} (guard : BudgetGuard M)

/-- Counts documents in every ledger. -/
def chargeDocuments (count : ℕ) : LedgerProg M Unit :=
  Prog.forEach (fun k => Prog.perform (.chargeDocuments k count)) guard.ledgers

/-- Checks the size of a file against every ledger. -/
def checkFileBytes (size : ℕ) : LedgerProg M Unit :=
  Prog.forEach (fun k => Prog.perform (.checkFileBytes k size)) guard.ledgers

/-- Counts request bytes in every ledger. -/
def chargeBytes (count : ℕ) : LedgerProg M Unit :=
  Prog.forEach (fun k => Prog.perform (.chargeBytes k count)) guard.ledgers

/-- Asks every ledger for headroom. -/
def ensureHeadroom (nextCalls : ℕ) : LedgerProg M Unit :=
  Prog.forEach (fun k => Prog.perform (.ensureHeadroom k nextCalls)) guard.ledgers

/-- Charges usage to every ledger. -/
def chargeUsage (usage : Usage) : LedgerProg M Unit :=
  Prog.forEach (fun k => Prog.perform (.chargeUsage k usage)) guard.ledgers

/-- Charges the usage of a metrics mapping. -/
def chargeMetrics (metrics : Metrics) : LedgerProg M Unit :=
  match guard.measure metrics with
  | some usage => guard.chargeUsage usage
  | none => .throw .raised

end BudgetGuard

variable {M : Type} (guard : BudgetGuard M)

/-- `run_extraction_model._one`: errors other than an exceeded budget stay with the document. -/
def extractOne (document : Document) : LedgerProg M Unit :=
  Prog.tryCatch (do
    guard.ensureHeadroom 1
    match document.fetched with
    | none => .throw .raised
    | some size => do
      guard.checkFileBytes size
      guard.chargeBytes size
      Prog.perform (.answer (.document document.extraction document.hookRaises))
      match document.extraction.extract with
      | .error _ => .throw .raised
      | .ok metrics => if document.hookRaises then .throw .raised else guard.chargeMetrics metrics)
    fun
      | .budgetExceeded e => .throw (.budgetExceeded e)
      | .raised => .pure ()

variable (provenance : Provenance)

/-- Charges what a resolved batch item says about its bill. -/
def chargeItem (item : BatchInferenceItem) : LedgerProg M Unit :=
  match resolvedMetrics (item.resolve provenance) with
  | some metrics => guard.chargeMetrics metrics
  | none => .pure ()

/-- `_flush_partition`: one native batch for the pending documents, whose job may fail as a
whole. -/
def flushPartition (jobReturns : List BatchDocument → Bool) (pending : List BatchDocument) :
    LedgerProg M Unit :=
  if pending = [] then .pure ()
  else do
    guard.ensureHeadroom pending.length
    Prog.forEach (fun document => Prog.perform (.answer (.batch document.item document.rejection)))
      pending
    if jobReturns pending then
      Prog.forEach (fun document =>
        chargeItem guard provenance (document.item.validated document.rejection)) pending
    else .throw .raised

/-- The loop body of `extract_batch_with_metrics` for one fetched document: the pending documents
of the partition after it. -/
def batchStep (jobReturns : List BatchDocument → Bool) (partitionSize : ℕ)
    (pending : List BatchDocument) (document : BatchDocument × ℕ) :
    LedgerProg M (List BatchDocument) := do
  guard.checkFileBytes document.2
  if document.1.readable && !document.1.cached then do
    guard.chargeBytes document.2
    let pending := pending ++ [document.1]
    if partitionSize ≤ pending.length then do
      flushPartition guard provenance jobReturns pending
      .pure []
    else .pure pending
  else .pure pending

/-- `extract_batch_with_metrics` for the fetched documents of a window. -/
def extractBatch (jobReturns : List BatchDocument → Bool) (partitionSize : ℕ)
    (documents : List (BatchDocument × ℕ)) : LedgerProg M Unit := do
  let pending ← Prog.foldM (batchStep guard provenance jobReturns partitionSize) [] documents
  flushPartition guard provenance jobReturns pending

/-- Whether a document of a window ends with an error. -/
def BatchDocument.fails (document : BatchDocument) : Bool :=
  document.fetched.isNone || !document.readable ||
    (!document.cached &&
      match (document.item.validated document.rejection).resolve provenance with
      | .ok _ => false
      | .error _ => true) ||
    document.hookRaises

/-- One window of the batch path: with `on_partial_batch: fail` a failed document ends the run. -/
def extractWindow (jobReturns : List BatchDocument → Bool) (partitionSize : ℕ) (failPartial : Bool)
    (window : List BatchDocument) : LedgerProg M Unit := do
  extractBatch guard provenance jobReturns partitionSize
    (window.filterMap fun document => document.fetched.map fun size => (document, size))
  if failPartial && window.any (BatchDocument.fails provenance) then .throw .raised else .pure ()

/-- The documents of a run, on the per-document path, or on the batch path in windows. -/
inductive Workload where
  | perDocument (documents : List Document)
  | batch (jobReturns : List BatchDocument → Bool) (partitionSize : ℕ) (failPartial : Bool)
      (windows : List (List BatchDocument))

/-- The number of documents of a run. -/
def Workload.size : Workload → ℕ
  | .perDocument documents => documents.length
  | .batch _ _ _ windows => windows.flatten.length

/-- Counts the documents of a run that has any. -/
def countDocuments (count : ℕ) : LedgerProg M Unit :=
  if count = 0 then .pure () else guard.chargeDocuments count

/-- `run_extraction_model` up to what it writes: the documents are counted and executed. -/
def iterExtracted (workload : Workload) : LedgerProg M Unit := do
  countDocuments guard workload.size
  match workload with
  | .perDocument documents => Prog.forEach (extractOne guard) documents
  | .batch jobReturns partitionSize failPartial windows =>
    Prog.forEach (extractWindow guard provenance jobReturns partitionSize failPartial) windows

/-- One check of a ledger: the calls asked for, the ledger as the check saw it, and the items the
provider had answered for before. -/
structure Gate (M : Type) where
  id : LedgerId M
  nextCalls : ℕ
  ledger : BudgetLedger
  answered : List Item

/-- The ledgers, with the answers of the provider and the checks made so far. -/
structure World (M : Type) where
  ledger : LedgerId M → BudgetLedger
  answered : List Item
  gates : List (Gate M)

/-- The effect of an operation. -/
def ledgerInterp [DecidableEq M] : Interp (LedgerOp M) (fun _ => Unit) Stop (World M)
  | .chargeDocuments k count, w =>
    let (result, ledger) := (w.ledger k).chargeDocuments count
    ({ w with ledger := Function.update w.ledger k ledger }, result.mapError .budgetExceeded)
  | .checkFileBytes k size, w => (w, ((w.ledger k).checkFileBytes size).mapError .budgetExceeded)
  | .chargeBytes k count, w =>
    let (result, ledger) := (w.ledger k).chargeBytes count
    ({ w with ledger := Function.update w.ledger k ledger }, result.mapError .budgetExceeded)
  | .ensureHeadroom k nextCalls, w =>
    ({ w with gates := ⟨k, nextCalls, w.ledger k, w.answered⟩ :: w.gates },
      ((w.ledger k).ensureHeadroom nextCalls).mapError .budgetExceeded)
  | .chargeUsage k usage, w =>
    ({ w with ledger := Function.update w.ledger k ((w.ledger k).chargeUsage usage) }, .ok ())
  | .answer item, w => ({ w with answered := item :: w.answered }, .ok ())

/-! ### What is charged of a bill -/

/-- The usage that the ledgers are charged for an item. -/
def Item.charged (item : Item) : Usage :=
  ((item.chargedMetrics provenance).bind guard.measure).getD ⟨0, 0, 0, 0⟩

@[simp]
theorem Usage.amount_zero (meter : Meter) : (⟨0, 0, 0, 0⟩ : Usage).amount meter = 0 := by
  cases meter <;> simp [Usage.amount]

theorem Usage.eq_zero {usage : Usage} (h : ∀ meter, usage.amount meter = 0) :
    usage = ⟨0, 0, 0, 0⟩ := by
  obtain ⟨apiCalls, inputTokens, outputTokens, costUsd⟩ := usage
  obtain rfl : apiCalls = 0 := Nat.cast_eq_zero.mp (h .apiCalls)
  obtain rfl : inputTokens = 0 := Nat.cast_eq_zero.mp (h .inputTokens)
  obtain rfl : outputTokens = 0 := Nat.cast_eq_zero.mp (h .outputTokens)
  obtain rfl : costUsd = 0 := h .costUsd
  rfl

theorem Item.billed_costUsd (item : Item) : item.billed.costUsd = 0 := by
  have herror : ∀ (e : ProviderError) (usage : Option ProviderUsage),
      (e.billed usage).costUsd = 0 := by
    rintro ⟨_ | failure⟩ (_ | usage) <;> rfl
  match item with
  | .document .cached _ => rfl
  | .document (.completed usage) _ => rfl
  | .document (.failed e usage) _ => exact herror e usage
  | .batch (.result usage) none => rfl
  | .batch (.result usage) (some rejection) => exact herror rejection (some usage)
  | .batch (.error e usage) _ => exact herror e usage

/-- What is charged for billed work is its bill, beside the cost. -/
theorem measure_bill (usage : ProviderUsage) (requests : ℕ) : ∃ charged,
    guard.measure (usage.toMetrics requests) = some charged ∧
      ∀ meter, meter ≠ .costUsd → charged.amount meter = (bill requests usage).amount meter := by
  refine ⟨_, guard.measure_toMetrics usage requests, ?_⟩
  rintro (_ | _ | _ | _) h
  · rfl
  · rfl
  · rfl
  · exact absurd rfl h

/-- An item that charges something is metered and is charged its bill. -/
theorem Item.charged_of_some {item : Item} {metrics : Metrics}
    (h : item.chargedMetrics provenance = some metrics) : item.Metered ∧ ∃ charged,
      guard.measure metrics = some charged ∧
        ∀ meter, meter ≠ .costUsd → charged.amount meter = item.billed.amount meter := by
  match item with
  | .document .cached hookRaises =>
    cases hookRaises with
    | true => cases h
    | false =>
      obtain rfl := Option.some.inj h
      refine ⟨trivial, _, guard.measure_cachedMetrics, ?_⟩
      rintro (_ | _ | _ | _) hne
      · rfl
      · rfl
      · rfl
      · exact absurd rfl hne
  | .document (.completed usage) hookRaises =>
    cases hookRaises with
    | true => cases h
    | false =>
      obtain rfl := Option.some.inj h
      exact ⟨rfl, measure_bill guard usage 1⟩
  | .document (.failed e usage) _ => cases h
  | .batch (.result usage) none =>
    obtain rfl := Option.some.inj h
    exact ⟨trivial, measure_bill guard usage 1⟩
  | .batch (.result usage) (some ⟨some failure⟩) =>
    obtain rfl := Option.some.inj h
    exact ⟨rfl, measure_bill guard failure.usage failure.billedRequests⟩
  | .batch (.result usage) (some ⟨none⟩) => cases h
  | .batch (.error ⟨some failure⟩ usage) _ =>
    obtain rfl := Option.some.inj h
    exact ⟨.inl rfl, measure_bill guard failure.usage failure.billedRequests⟩
  | .batch (.error ⟨none⟩ usage) _ => cases h

theorem bill_one_ne_zero (usage : ProviderUsage) : bill 1 usage ≠ ⟨0, 0, 0, 0⟩ := by
  intro h
  exact absurd (congrArg Usage.apiCalls h) one_ne_zero

/-- An item that charges nothing is metered exactly if nothing was billed for it. -/
theorem Item.metered_of_none {item : Item} (h : item.chargedMetrics provenance = none) :
    item.Metered ↔ item.billed = ⟨0, 0, 0, 0⟩ := by
  match item with
  | .document .cached hookRaises => exact iff_of_true trivial rfl
  | .document (.completed usage) true => exact iff_of_false nofun (bill_one_ne_zero usage)
  | .document (.failed e usage) _ => exact Iff.rfl
  | .batch (.result usage) (some ⟨none⟩) => exact iff_of_false nofun (bill_one_ne_zero usage)
  | .batch (.error ⟨none⟩ none) _ => exact iff_of_true (.inr rfl) rfl
  | .batch (.error ⟨none⟩ (some usage)) _ =>
    refine iff_of_false ?_ (bill_one_ne_zero usage)
    rintro (h | h)
    · cases h
    · cases h

/-- Apart from the cost, no more is charged than was billed. -/
theorem Item.charged_le (item : Item) {meter : Meter} (hmeter : meter ≠ .costUsd) :
    (item.charged guard provenance).amount meter ≤ item.billed.amount meter := by
  rw [Item.charged]
  cases h : item.chargedMetrics provenance with
  | none => simp
  | some metrics =>
    obtain ⟨-, charged, hcharged, hamount⟩ := Item.charged_of_some guard provenance h
    simp [hcharged, hamount meter hmeter]

/-- What was billed for a metered item is charged. -/
theorem Item.Metered.billed_le {item : Item} (hitem : item.Metered) (meter : Meter) :
    item.billed.amount meter ≤ (item.charged guard provenance).amount meter := by
  by_cases hmeter : meter = .costUsd
  · rw [hmeter, Usage.amount, item.billed_costUsd]
    exact zero_le
  · rw [Item.charged]
    cases h : item.chargedMetrics provenance with
    | none => simp [(Item.metered_of_none provenance h).mp hitem]
    | some metrics =>
      obtain ⟨-, charged, hcharged, hamount⟩ := Item.charged_of_some guard provenance h
      simp [hcharged, hamount meter hmeter]

/-- Of an item that is not metered some amount is not charged. -/
theorem Item.exists_charged_lt {item : Item} (hitem : ¬ item.Metered) : ∃ meter,
    meter ≠ .costUsd ∧ (item.charged guard provenance).amount meter < item.billed.amount meter := by
  have hnone : item.chargedMetrics provenance = none := by
    cases h : item.chargedMetrics provenance with
    | none => rfl
    | some metrics => exact absurd (Item.charged_of_some guard provenance h).1 hitem
  have hcharged : ∀ meter, (item.charged guard provenance).amount meter = 0 := by
    intro meter
    simp [Item.charged, hnone]
  have hbilled : item.billed ≠ ⟨0, 0, 0, 0⟩ := fun h =>
    hitem ((Item.metered_of_none provenance hnone).mpr h)
  by_contra! hall
  refine hbilled (Usage.eq_zero fun meter => ?_)
  by_cases hmeter : meter = .costUsd
  · exact hmeter ▸ item.billed_costUsd
  · exact le_antisymm (hcharged meter ▸ hall meter hmeter) zero_le

/-- The sum of what is charged for items. -/
def chargedSum (items : List Item) (meter : Meter) : ℚ≥0 :=
  (items.map fun item => (item.charged guard provenance).amount meter).sum

/-- The sum of what was billed for items. -/
def billedSum (items : List Item) (meter : Meter) : ℚ≥0 :=
  (items.map fun item => item.billed.amount meter).sum

/-- Everything billed for items is charged exactly if all of them are metered. -/
theorem billedSum_le_chargedSum {items : List Item} :
    (∀ meter, billedSum items meter ≤ chargedSum guard provenance items meter) ↔
      ∀ item ∈ items, item.Metered := by
  constructor
  · intro hle item hitem
    by_contra hmetered
    obtain ⟨meter, hmeter, hlt⟩ := Item.exists_charged_lt guard provenance hmetered
    have hsum : chargedSum guard provenance items meter < billedSum items meter :=
      List.sum_lt_sum _ _ (fun item _ => item.charged_le guard provenance hmeter)
        ⟨item, hitem, hlt⟩
    exact absurd (hle meter) (not_le.mpr hsum)
  · intro hmetered meter
    exact List.sum_le_sum fun item hitem => (hmetered item hitem).billed_le guard provenance meter

/-! ### The invariant of a run -/

/-- The totals that a check saw cover all that the provider billed before it, beside what the
ledger held before the run. -/
def Gate.Covers (initial : LedgerId M → BudgetLedger) (gate : Gate M) : Prop :=
  ∀ meter, (initial gate.id).used meter + billedSum gate.answered meter ≤ gate.ledger.used meter

variable (initial : LedgerId M → BudgetLedger)

/-- A check of the run consulted a ledger of the guard, which had been charged for the items
answered before. -/
def Gate.Settled (gate : Gate M) : Prop :=
  gate.id ∈ guard.ledgers ∧ ∀ meter, gate.ledger.used meter =
    (initial gate.id).used meter + chargedSum guard provenance gate.answered meter

theorem Gate.Settled.covers_iff {gate : Gate M} (h : gate.Settled guard provenance initial) :
    gate.Covers initial ↔ ∀ item ∈ gate.answered, item.Metered := by
  rw [← billedSum_le_chargedSum guard provenance, Gate.Covers]
  refine forall_congr' fun meter => ?_
  rw [h.2 meter]
  exact add_le_add_iff_left _

/-- A check of a ledger that passed, after which at most the calls it asked for were made. -/
def Gate.Admits (k : LedgerId M) (answered : List Item) (gate : Gate M) : Prop :=
  gate.id = k ∧ (∀ cap ∈ (initial k).config.maxApiCalls,
      gate.ledger.apiCalls + gate.nextCalls ≤ cap) ∧
    ∃ new, answered = new ++ gate.answered ∧ new.length ≤ gate.nextCalls

/-- What the end of a run says about its checks: each saw a settled ledger, and every item
answered was admitted by a check of every ledger. -/
structure World.Checked (w : World M) : Prop where
  settled : ∀ gate ∈ w.gates, gate.Settled guard provenance initial
  admitted : ∀ k ∈ guard.ledgers, w.answered = [] ∨
    ∃ gate ∈ w.gates, gate.Admits initial k w.answered

/-- The invariant of a run, while the items `owed` are answered and not handled yet. -/
structure World.Inv (owed : List Item) (w : World M) : Prop
    extends World.Checked guard provenance initial w where
  config : ∀ k, (w.ledger k).config = (initial k).config
  account : ∀ k ∈ guard.ledgers, ∀ meter,
    (w.ledger k).used meter + chargedSum guard provenance owed meter =
      (initial k).used meter + chargedSum guard provenance w.answered meter

theorem World.inv_initial : World.Inv guard provenance initial [] ⟨initial, [], []⟩ where
  settled _ hgate := absurd hgate List.not_mem_nil
  admitted _ _ := .inl rfl
  config _ := rfl
  account _ _ _ := by simp [chargedSum]

variable {guard provenance initial}

/-- An item for which nothing is charged is handled without the ledgers. -/
theorem World.Inv.skip {item : Item} {owed : List Item} {w : World M}
    (h : World.Inv guard provenance initial (item :: owed) w)
    (hnone : item.chargedMetrics provenance = none) :
    World.Inv guard provenance initial owed w where
  toChecked := h.toChecked
  config := h.config
  account k hk meter := by
    have haccount := h.account k hk meter
    simpa [chargedSum, Item.charged, hnone] using haccount

variable [DecidableEq M]

/-- The ledgers after usage has been charged to all those in a list. -/
def World.charge (w : World M) (ledgers : List (LedgerId M)) (usage : Usage) : World M :=
  { w with ledger := fun k =>
      if k ∈ ledgers then (w.ledger k).chargeUsage usage else w.ledger k }

/-- Charging the usage of an item handles it. -/
theorem World.Inv.charge {item : Item} {owed : List Item} {w : World M}
    (h : World.Inv guard provenance initial (item :: owed) w) :
    World.Inv guard provenance initial owed
      (w.charge guard.ledgers (item.charged guard provenance)) where
  toChecked := ⟨h.settled, h.admitted⟩
  config k := by
    by_cases hk : k ∈ guard.ledgers <;> simp [World.charge, hk, h.config]
  account k hk meter := by
    have haccount := h.account k hk meter
    simp only [World.charge, hk, if_true, BudgetLedger.used_chargeUsage]
    rw [← haccount]
    simp [chargedSum, add_assoc]

omit [DecidableEq M] in
/-- Items admitted by the last checks may be answered. -/
theorem World.Inv.answer (items : List Item) {w : World M}
    (h : World.Inv guard provenance initial [] w)
    (hallowed : ∀ k ∈ guard.ledgers, ∃ gate ∈ w.gates, gate.Admits initial k w.answered ∧
      gate.answered = w.answered ∧ items.length ≤ gate.nextCalls) :
    World.Inv guard provenance initial items
      { w with answered := items.reverse ++ w.answered } where
  settled := h.settled
  admitted k hk := by
    obtain ⟨gate, hgate, ⟨hid, hcap, -⟩, hsame, hlength⟩ := hallowed k hk
    refine .inr ⟨gate, hgate, hid, hcap, items.reverse, ?_, ?_⟩
    · rw [hsame]
    · rwa [List.length_reverse]
  config := h.config
  account k hk meter := by
    have haccount := h.account k hk meter
    have hsum : chargedSum guard provenance (items.reverse ++ w.answered) meter =
        chargedSum guard provenance items meter + chargedSum guard provenance w.answered meter := by
      simp [chargedSum, List.sum_reverse]
    rw [hsum, add_left_comm, ← haccount]
    simp [chargedSum, add_comm]

/-! ### One step of the run -/

/-- The operations that count documents and bytes. -/
def LedgerOp.Counts : LedgerOp M → Prop
  | .chargeDocuments _ _ | .checkFileBytes _ _ | .chargeBytes _ _ => True
  | .ensureHeadroom _ _ | .chargeUsage _ _ | .answer _ => False

/-- Counting documents and bytes keeps the invariant. -/
theorem World.Inv.count {owed : List Item} {w : World M}
    (h : World.Inv guard provenance initial owed w) {o : LedgerOp M} (ho : o.Counts) :
    World.Inv guard provenance initial owed (ledgerInterp o w).1 := by
  have hupdate : ∀ (k : LedgerId M) (ledger : BudgetLedger), ledger.config = (w.ledger k).config →
      (∀ meter, ledger.used meter = (w.ledger k).used meter) →
      World.Inv guard provenance initial owed
        { w with ledger := Function.update w.ledger k ledger } := by
    intro k ledger hconfig hused
    refine ⟨⟨h.settled, h.admitted⟩, fun k' => ?_, fun k' hk' meter => ?_⟩
    · rcases eq_or_ne k' k with rfl | hne
      · simp [hconfig, h.config]
      · simp [hne, h.config]
    · rcases eq_or_ne k' k with rfl | hne
      · simpa [hused] using h.account k' hk' meter
      · simpa [hne] using h.account k' hk' meter
  cases o with
  | chargeDocuments k count => exact hupdate k _ rfl fun meter => by cases meter <;> rfl
  | checkFileBytes k size => exact h
  | chargeBytes k count => exact hupdate k _ rfl fun meter => by cases meter <;> rfl
  | ensureHeadroom | chargeUsage | answer => cases ho

theorem gates_count {o : LedgerOp M} (ho : o.Counts) (w : World M) :
    (ledgerInterp o w).1.gates = w.gates ∧ (ledgerInterp o w).1.answered = w.answered := by
  cases o with
  | chargeDocuments | checkFileBytes | chargeBytes => exact ⟨rfl, rfl⟩
  | ensureHeadroom | chargeUsage | answer => cases ho

/-- Methods that count documents and bytes keep the invariant, whether they return or raise. -/
theorem meets_count (f : LedgerId M → LedgerOp M) (hf : ∀ k, (f k).Counts) {owed : List Item}
    {w : World M} (h : World.Inv guard provenance initial owed w) (ids : List (LedgerId M)) :
    (Prog.forEach (fun k => Prog.perform (f k)) ids : LedgerProg M Unit).Meets ledgerInterp
      (fun _ t => World.Inv guard provenance initial owed t ∧ t.gates = w.gates ∧
        t.answered = w.answered)
      (fun _ t => World.Inv guard provenance initial owed t) w := by
  refine Prog.Meets.forEach (fun _ t => World.Inv guard provenance initial owed t ∧
    t.gates = w.gates ∧ t.answered = w.answered) ⟨h, rfl, rfl⟩ ?_
  rintro k rest t ⟨ht, hgates, hanswered⟩
  have hcount := ht.count (hf k)
  obtain ⟨hgates', hanswered'⟩ := gates_count (hf k) t
  refine Prog.meets_perform (fun u r hop => ?_) fun u e hop => ?_
  · rw [hop] at hcount hgates' hanswered'
    exact ⟨hcount, hgates'.trans hgates, hanswered'.trans hanswered⟩
  · rwa [hop] at hcount

/-- Every check that passes admits the calls it was asked for. -/
theorem meets_ensureHeadroom {w : World M} (h : World.Inv guard provenance initial [] w) (n : ℕ) :
    (guard.ensureHeadroom n).Meets ledgerInterp
      (fun _ t => World.Inv guard provenance initial [] t ∧ ∀ k ∈ guard.ledgers,
        ∃ gate ∈ t.gates, gate.Admits initial k t.answered ∧ gate.answered = t.answered ∧
          gate.nextCalls = n)
      (fun _ t => World.Inv guard provenance initial [] t) w := by
  have hgate : ∀ t, World.Inv guard provenance initial [] t → ∀ k ∈ guard.ledgers,
      World.Inv guard provenance initial []
        { t with gates := ⟨k, n, t.ledger k, t.answered⟩ :: t.gates } := by
    intro t ht k hk
    refine ⟨⟨?_, fun k' hk' => ?_⟩, ht.config, ht.account⟩
    · rintro gate hgate
      rcases List.mem_cons.mp hgate with rfl | hgate
      · exact ⟨hk, fun meter => by simpa [chargedSum] using ht.account k hk meter⟩
      · exact ht.settled gate hgate
    · rcases ht.admitted k' hk' with hnone | ⟨gate, hgate, hadmits⟩
      · exact .inl hnone
      · exact .inr ⟨gate, List.mem_cons_of_mem _ hgate, hadmits⟩
  let J : List (LedgerId M) → World M → Prop := fun rest t =>
    World.Inv guard provenance initial [] t ∧ rest ⊆ guard.ledgers ∧ ∀ k ∈ guard.ledgers,
      k ∈ rest ∨ ∃ gate ∈ t.gates, gate.Admits initial k t.answered ∧
        gate.answered = t.answered ∧ gate.nextCalls = n
  have hloop : (guard.ensureHeadroom n).Meets ledgerInterp (fun _ t => J [] t)
      (fun _ t => World.Inv guard provenance initial [] t) w := by
    refine Prog.Meets.forEach J ⟨h, List.Subset.refl _, fun k hk => .inl hk⟩ ?_
    rintro k rest t ⟨ht, hsub, hdone⟩
    have hk : k ∈ guard.ledgers := hsub List.mem_cons_self
    refine Prog.meets_perform (fun u r hop => ?_) fun u e hop => ?_
    · obtain ⟨rfl, hpass⟩ := Prod.mk.inj hop
      refine ⟨hgate t ht k hk, fun k' hk' => hsub (List.mem_cons_of_mem k hk'), fun k' hk' => ?_⟩
      have hok : (t.ledger k).ensureHeadroom n = .ok () := mapError_eq_ok.mp hpass
      rcases hdone k' hk' with hmem | ⟨gate, hgate, hadmits⟩
      · rcases List.mem_cons.mp hmem with rfl | hmem
        · refine .inr ⟨_, List.mem_cons_self, ⟨rfl, fun cap hcap => ?_, [], rfl, Nat.zero_le n⟩,
            rfl, rfl⟩
          exact BudgetLedger.calls_le_of_ensureHeadroom hok (ht.config k' ▸ hcap)
        · exact .inl hmem
      · exact .inr ⟨gate, List.mem_cons_of_mem _ hgate, hadmits⟩
    · obtain ⟨rfl, -⟩ := Prod.mk.inj hop
      exact hgate t ht k hk
  refine hloop.mono (fun _ t ht => ⟨ht.1, fun k hk => ?_⟩) fun _ _ ht => ht
  exact (ht.2.2 k hk).resolve_left List.not_mem_nil

theorem exec_answer {γ : Type} (f : γ → Item) (xs : List γ) (w : World M) :
    (Prog.forEach (fun x => Prog.perform (.answer (f x))) xs : LedgerProg M Unit).exec ledgerInterp
      w = ({ w with answered := (xs.map f).reverse ++ w.answered }, .ok ()) := by
  induction xs generalizing w with
  | nil => rfl
  | cons x xs ih =>
    rw [Prog.forEach, Prog.exec_bind_ok _ rfl, ih]
    simp

theorem exec_chargeUsage {ids : List (LedgerId M)} (hids : ids.Nodup) (usage : Usage)
    (w : World M) :
    (Prog.forEach (fun k => Prog.perform (.chargeUsage k usage)) ids : LedgerProg M Unit).exec
      ledgerInterp w = (w.charge ids usage, .ok ()) := by
  induction ids generalizing w with
  | nil => simp [Prog.forEach, World.charge]
  | cons k ids ih =>
    obtain ⟨hk, hids⟩ := List.nodup_cons.mp hids
    rw [Prog.forEach, Prog.exec_bind_ok _ rfl, ih hids]
    refine congrArg (fun ledger => (({ w with ledger } : World M), Except.ok ())) ?_
    funext k'
    rcases eq_or_ne k' k with rfl | hne
    · simp [hk]
    · simp [hne]

/-- Charging the metrics of an item handles it. -/
theorem meets_chargeMetrics {item : Item} {metrics : Metrics} {owed : List Item} {w : World M}
    {E : Stop → World M → Prop} (h : World.Inv guard provenance initial (item :: owed) w)
    (hitem : item.chargedMetrics provenance = some metrics) :
    (guard.chargeMetrics metrics).Meets ledgerInterp
      (fun _ t => World.Inv guard provenance initial owed t) E w := by
  obtain ⟨-, usage, husage, -⟩ := Item.charged_of_some guard provenance hitem
  have hcharged : item.charged guard provenance = usage := by
    simp [Item.charged, hitem, husage]
  have hexec : (guard.chargeMetrics metrics).exec ledgerInterp w =
      (w.charge guard.ledgers usage, .ok ()) := by
    simp only [BudgetGuard.chargeMetrics, husage]
    exact exec_chargeUsage guard.nodup_ledgers usage w
  rw [Prog.Meets, hexec]
  exact hcharged ▸ h.charge

/-- A document that was admitted alone may be answered. -/
theorem meets_answerOne {item : Item} {w : World M} (h : World.Inv guard provenance initial [] w)
    (hallowed : ∀ k ∈ guard.ledgers, ∃ gate ∈ w.gates, gate.Admits initial k w.answered ∧
      gate.answered = w.answered ∧ gate.nextCalls = 1) :
    (Prog.perform (.answer item) : LedgerProg M Unit).Meets ledgerInterp
      (fun _ t => World.Inv guard provenance initial [item] t)
      (fun _ t => World.Inv guard provenance initial [] t) w := by
  refine Prog.meets_perform (fun t r hop => ?_) fun t e hop => ?_
  · obtain ⟨rfl, -⟩ := Prod.mk.inj hop
    refine h.answer [item] fun k hk => ?_
    obtain ⟨gate, hgate, hadmits, hsame, hcalls⟩ := hallowed k hk
    exact ⟨gate, hgate, hadmits, hsame, hcalls.ge⟩
  · cases hop

/-- One document of the per-document path keeps the invariant. -/
theorem meets_extractOne {w : World M} (h : World.Inv guard provenance initial [] w)
    (document : Document) :
    (extractOne guard document).Meets ledgerInterp
      (fun _ t => World.Inv guard provenance initial [] t)
      (fun _ t => World.Inv guard provenance initial [] t) w := by
  refine Prog.Meets.tryCatch (fun _ t => World.Inv guard provenance initial [] t) ?_ ?_
  · refine (meets_ensureHeadroom h 1).bind fun _ t ht => ?_
    cases document.fetched with
    | none => exact Prog.meets_throw ht.1
    | some size =>
      refine (meets_count (.checkFileBytes · size) (fun _ => trivial) ht.1 guard.ledgers).bind fun _ u hu => ?_
      refine (meets_count (.chargeBytes · size) (fun _ => trivial) hu.1 guard.ledgers).bind fun _ v hv => ?_
      have hallowed := ht.2
      rw [← hu.2.1, ← hv.2.1, ← hu.2.2, ← hv.2.2] at hallowed
      refine (meets_answerOne hv.1 hallowed).bind fun _ x hx => ?_
      cases hextract : document.extraction.extract with
      | error e => exact Prog.meets_throw (hx.skip (by simp [Item.chargedMetrics, hextract]))
      | ok metrics =>
        cases hhook : document.hookRaises with
        | true =>
          rw [hhook] at hx
          exact Prog.meets_throw (hx.skip (by simp [Item.chargedMetrics, hextract]))
        | false =>
          rw [hhook] at hx
          exact meets_chargeMetrics hx (by simp [Item.chargedMetrics, hextract])
  · rintro (e | _) t ht
    · exact Prog.meets_throw ht
    · exact Prog.meets_pure ht

/-- A batch item is charged what its result or its envelope says. -/
theorem meets_chargeItem {item : BatchInferenceItem} {rejection : Option ProviderError}
    {owed : List Item} {w : World M} {E : Stop → World M → Prop}
    (h : World.Inv guard provenance initial (.batch item rejection :: owed) w) :
    (chargeItem guard provenance (item.validated rejection)).Meets ledgerInterp
      (fun _ t => World.Inv guard provenance initial owed t) E w := by
  rw [chargeItem]
  cases hitem : resolvedMetrics ((item.validated rejection).resolve provenance) with
  | none => exact Prog.meets_pure (h.skip hitem)
  | some metrics => exact meets_chargeMetrics h hitem

theorem meets_chargeItems {pending : List BatchDocument} {w : World M}
    {E : Stop → World M → Prop} (h : World.Inv guard provenance initial
      (pending.map fun document => .batch document.item document.rejection) w) :
    (Prog.forEach (fun document : BatchDocument =>
        chargeItem guard provenance (document.item.validated document.rejection))
      pending).Meets ledgerInterp (fun _ t => World.Inv guard provenance initial [] t) E w := by
  refine Prog.Meets.forEach (fun rest t => World.Inv guard provenance initial
    (rest.map fun document => .batch document.item document.rejection) t) h ?_
  intro document rest t ht
  exact meets_chargeItem ht

/-- The items of a partition that was admitted may be answered. -/
theorem meets_answers {γ : Type} (f : γ → Item) {xs : List γ} {w : World M}
    {E : Stop → World M → Prop} (h : World.Inv guard provenance initial [] w)
    (hallowed : ∀ k ∈ guard.ledgers, ∃ gate ∈ w.gates, gate.Admits initial k w.answered ∧
      gate.answered = w.answered ∧ gate.nextCalls = xs.length) :
    (Prog.forEach (fun x => Prog.perform (.answer (f x))) xs : LedgerProg M Unit).Meets ledgerInterp
      (fun _ t => World.Inv guard provenance initial (xs.map f) t) E w := by
  rw [Prog.Meets, exec_answer]
  refine h.answer (xs.map f) fun k hk => ?_
  obtain ⟨gate, hgate, hadmits, hsame, hcalls⟩ := hallowed k hk
  exact ⟨gate, hgate, hadmits, hsame, by simp [hcalls]⟩

/-- A partition keeps the invariant unless its job fails, which ends the run. -/
theorem meets_flushPartition {w : World M} (h : World.Inv guard provenance initial [] w)
    (jobReturns : List BatchDocument → Bool) (pending : List BatchDocument) :
    (flushPartition guard provenance jobReturns pending).Meets ledgerInterp
      (fun _ t => World.Inv guard provenance initial [] t)
      (fun _ t => World.Checked guard provenance initial t) w := by
  by_cases hpending : pending = []
  · rw [flushPartition, if_pos hpending]
    exact Prog.meets_pure h
  · rw [flushPartition, if_neg hpending]
    refine ((meets_ensureHeadroom h pending.length).mono (fun _ _ ht => ht)
      fun _ _ ht => ht.toChecked).bind fun _ t ht => ?_
    refine (meets_answers _ ht.1 ht.2).bind fun _ u hu => ?_
    cases jobReturns pending with
    | true => exact meets_chargeItems hu
    | false => exact Prog.meets_throw hu.toChecked

/-- One fetched document of the batch path keeps the invariant. -/
theorem meets_batchStep {w : World M} (h : World.Inv guard provenance initial [] w)
    (jobReturns : List BatchDocument → Bool) (partitionSize : ℕ) (pending : List BatchDocument)
    (document : BatchDocument × ℕ) :
    (batchStep guard provenance jobReturns partitionSize pending document).Meets ledgerInterp
      (fun _ t => World.Inv guard provenance initial [] t)
      (fun _ t => World.Checked guard provenance initial t) w := by
  have hchecked : ∀ (_ : Stop) (t : World M), World.Inv guard provenance initial [] t →
      World.Checked guard provenance initial t := fun _ _ ht => ht.toChecked
  refine ((meets_count (.checkFileBytes · document.2) (fun _ => trivial) h guard.ledgers).mono
    (fun _ _ ht => ht) hchecked).bind fun _ t ht => ?_
  cases document.1.readable && !document.1.cached with
  | false => exact Prog.meets_pure ht.1
  | true =>
    refine ((meets_count (.chargeBytes · document.2) (fun _ => trivial) ht.1 guard.ledgers).mono
      (fun _ _ hu => hu) hchecked).bind fun _ u hu => ?_
    by_cases hfull : partitionSize ≤ (pending ++ [document.1]).length
    · simp only [hfull, if_true]
      refine (meets_flushPartition hu.1 jobReturns _).bind fun _ v hv => ?_
      exact Prog.meets_pure hv
    · simp only [hfull, if_false]
      exact Prog.meets_pure hu.1

/-- One window of the batch path keeps the invariant. -/
theorem meets_extractWindow {w : World M} (h : World.Inv guard provenance initial [] w)
    (jobReturns : List BatchDocument → Bool) (partitionSize : ℕ) (failPartial : Bool)
    (window : List BatchDocument) :
    (extractWindow guard provenance jobReturns partitionSize failPartial window).Meets ledgerInterp
      (fun _ t => World.Inv guard provenance initial [] t)
      (fun _ t => World.Checked guard provenance initial t) w := by
  have hbatch : (extractBatch guard provenance jobReturns partitionSize
      (window.filterMap fun document => document.fetched.map fun size => (document, size))).Meets
      ledgerInterp (fun _ t => World.Inv guard provenance initial [] t)
      (fun _ t => World.Checked guard provenance initial t) w := by
    refine (Prog.Meets.foldM (fun _ t => World.Inv guard provenance initial [] t) h
      fun pending document t ht => ?_).bind fun pending t ht => ?_
    · exact meets_batchStep ht jobReturns partitionSize pending document
    · exact meets_flushPartition ht jobReturns pending
  refine hbatch.bind fun _ t ht => ?_
  cases failPartial && window.any (BatchDocument.fails provenance) with
  | true => exact Prog.meets_throw ht.toChecked
  | false => exact Prog.meets_pure ht

/-- What a run leaves behind, however it ends. -/
def extractionRun (guard : BudgetGuard M) (provenance : Provenance) (workload : Workload)
    (initial : LedgerId M → BudgetLedger) : World M :=
  ((iterExtracted guard provenance workload).exec ledgerInterp ⟨initial, [], []⟩).1

/-- However a run ends, its checks saw settled ledgers and admitted every item. -/
theorem checked_extractionRun (guard : BudgetGuard M) (provenance : Provenance)
    (workload : Workload) (initial : LedgerId M → BudgetLedger) :
    World.Checked guard provenance initial
      (extractionRun guard provenance workload initial) := by
  have hchecked : ∀ (_ : Stop) (t : World M), World.Inv guard provenance initial [] t →
      World.Checked guard provenance initial t := fun _ _ ht => ht.toChecked
  have hcount : (countDocuments guard workload.size).Meets ledgerInterp
      (fun _ t => World.Inv guard provenance initial [] t)
      (fun _ t => World.Checked guard provenance initial t) ⟨initial, [], []⟩ := by
    have hinitial := World.inv_initial guard provenance initial
    by_cases hsize : workload.size = 0
    · rw [countDocuments, if_pos hsize]
      exact Prog.meets_pure hinitial
    · rw [countDocuments, if_neg hsize]
      exact (meets_count (.chargeDocuments · workload.size) (fun _ => trivial) hinitial
        guard.ledgers).mono (fun _ _ ht => ht.1) hchecked
  have hrun : (iterExtracted guard provenance workload).Meets ledgerInterp
      (fun _ t => World.Checked guard provenance initial t)
      (fun _ t => World.Checked guard provenance initial t) ⟨initial, [], []⟩ := by
    refine hcount.bind fun _ t ht => ?_
    cases workload with
    | perDocument documents =>
      refine (Prog.Meets.forEach (fun _ t => World.Inv guard provenance initial [] t) ht
        fun document _ u hu => meets_extractOne hu document).mono ?_ hchecked
      exact fun _ _ hu => hu.toChecked
    | batch jobReturns partitionSize failPartial windows =>
      refine (Prog.Meets.forEach (fun _ t => World.Inv guard provenance initial [] t) ht
        fun window _ u hu => meets_extractWindow hu jobReturns partitionSize failPartial
          window).mono ?_ fun _ _ hu => hu
      exact fun _ _ hu => hu.toChecked
  rw [Prog.Meets] at hrun
  rw [extractionRun]
  rcases hexec : (iterExtracted guard provenance workload).exec ledgerInterp ⟨initial, [], []⟩
    with ⟨t, e | a⟩
  · rwa [hexec] at hrun
  · rwa [hexec] at hrun

/-! ### Every bill before every check -/

/-- The number of items that the provider billed calls for. -/
def billedCalls (items : List Item) : ℕ :=
  items.countP fun item => 0 < item.billed.apiCalls

theorem billedCalls_le (items : List Item) :
    (billedCalls items : ℚ≥0) ≤ billedSum items .apiCalls := by
  induction items with
  | nil => simp [billedCalls, billedSum]
  | cons item items ih =>
    have hitem : (if 0 < item.billed.apiCalls then 1 else 0 : ℕ) ≤ item.billed.apiCalls := by
      split <;> omega
    have hcast : ((if 0 < item.billed.apiCalls then 1 else 0 : ℕ) : ℚ≥0) ≤
        item.billed.amount .apiCalls := Nat.cast_le.mpr hitem
    have hcount : billedCalls (item :: items) =
        (if 0 < item.billed.apiCalls then 1 else 0) + billedCalls items := by
      simp [billedCalls, List.countP_cons, add_comm]
    rw [hcount, Nat.cast_add]
    exact add_le_add hcast ih

omit [DecidableEq M] in
/-- Items that were admitted by a check that saw every bill stay within the cap on calls. -/
theorem Gate.Admits.billedCalls_le {k : LedgerId M} {answered : List Item} {gate : Gate M}
    (h : gate.Admits initial k answered) (hcovers : gate.Covers initial) {cap : ℕ+}
    (hcap : cap ∈ (initial k).config.maxApiCalls) : billedCalls answered ≤ cap := by
  obtain ⟨rfl, hgate, new, rfl, hnew⟩ := h
  have hseen : billedCalls gate.answered ≤ gate.ledger.apiCalls := by
    have hle : billedSum gate.answered .apiCalls ≤ gate.ledger.used .apiCalls :=
      le_trans le_add_self (hcovers .apiCalls)
    exact Nat.cast_le.mp ((Budget.billedCalls_le gate.answered).trans hle)
  have hsplit : billedCalls (new ++ gate.answered) = billedCalls new + billedCalls gate.answered :=
    List.countP_append
  have hcount : billedCalls new ≤ new.length := List.countP_le_length
  have hbound := hgate cap hcap
  omega

/-- However the documents of an extraction run end, on the per-document path and on the batch
path: every check of a ledger sees all that the provider billed before it exactly if every item
answered before a check is metered; and then no ledger admits more billed calls than its cap. -/
theorem ledgers_cover_iff (guard : BudgetGuard M) (provenance : Provenance) (workload : Workload)
    (initial : LedgerId M → BudgetLedger) :
    ((∀ gate ∈ (extractionRun guard provenance workload initial).gates, gate.Covers initial) ↔
      ∀ gate ∈ (extractionRun guard provenance workload initial).gates,
        ∀ item ∈ gate.answered, item.Metered) ∧
    ((∀ gate ∈ (extractionRun guard provenance workload initial).gates, gate.Covers initial) →
      ∀ k ∈ guard.ledgers, ∀ cap ∈ (initial k).config.maxApiCalls,
        billedCalls (extractionRun guard provenance workload initial).answered ≤ cap) := by
  have hchecked := checked_extractionRun guard provenance workload initial
  refine ⟨?_, fun hcovers k hk cap hcap => ?_⟩
  · exact forall₂_congr fun gate hgate => (hchecked.settled gate hgate).covers_iff
  · rcases hchecked.admitted k hk with hnone | ⟨gate, hgate, hadmits⟩
    · simp [hnone, billedCalls]
    · exact hadmits.billedCalls_le (hcovers gate hgate) hcap

/-- A document of a hundred bytes whose call returns ten tokens in and two tokens out. -/
def sampleDocument (hookRaises : Bool) : Document :=
  ⟨some 100, .completed ⟨10, 2, 0, 0, none⟩, hookRaises⟩

/-- The ledger of a run with a cap of one call. -/
def sampleLedger (_ : LedgerId Unit) : BudgetLedger :=
  .fresh oneCall "run"

/-- A post-extract hook that raises after a completed call hides the call from the ledger, whose
next check passes, so that two calls are billed under a cap of one. -/
theorem hook_hides_call :
    ¬ ((∀ gate ∈ (extractionRun ⟨none, true, none⟩ ⟨"p", "m", "i"⟩
        (.perDocument [sampleDocument true, sampleDocument false]) sampleLedger).gates,
          gate.Covers sampleLedger) ∧
      billedCalls (extractionRun ⟨none, true, none⟩ ⟨"p", "m", "i"⟩
        (.perDocument [sampleDocument true, sampleDocument false]) sampleLedger).answered ≤ 1) := by
  rintro ⟨-, hcalls⟩
  revert hcalls
  decide +kernel

end Stel.Budget
