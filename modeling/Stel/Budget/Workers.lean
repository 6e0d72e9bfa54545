import Stel.Budget
import Mathlib.Algebra.BigOperators.Fin
import Mathlib.Algebra.Order.BigOperators.Group.Multiset
import Mathlib.Data.Fintype.BigOperators

/-!
# Workers under shared ledgers

Any number of workers execute items. For each item a worker asks the ledgers of its guard for
headroom one after another, makes the provider call, and charges what the response reports to the
same ledgers one after another; every method of a ledger is atomic. The gate of a ledger does not
see the calls that other workers have been admitted to and that nobody has charged yet.

## Main definitions

* `Outcome`, `Phase`, `WorkerPool`, `WorkerPool.Step`, `WorkerPool.Run`.
* `WorkerPool.owed`: what has passed the gate of a ledger and is not charged to it.
* `WorkerPool.Spare`: the gate of a ledger would also pass with that charged.
* `WithinOne`: a total exceeds a cap by less than one of its summands.

## Main results

* `WorkerPool.Run.accounted`: what a ledger has seen and what it is owed.
* `WorkerPool.Run.withinOne`: what has passed a gate stays within one response of the cap.
* `budgets_hold_when_spare`: the caps hold in runs whose gates only pass with room to spare.
-/

namespace Stel.Budget

/-! ### Sums within one summand of a cap -/

/-- A sum of amounts is below a cap, or exceeds it by less than one of the amounts. -/
def WithinOne (cap : ℚ≥0) (amounts : Multiset ℚ≥0) : Prop :=
  amounts.sum < cap ∨ ∃ x ∈ amounts, amounts.sum < cap + x

/-- A further amount may be added below the cap. -/
theorem WithinOne.cons {cap : ℚ≥0} {amounts : Multiset ℚ≥0} (h : amounts.sum < cap) (x : ℚ≥0) :
    WithinOne cap (x ::ₘ amounts) := by
  right
  refine ⟨x, Multiset.mem_cons_self x amounts, ?_⟩
  rw [Multiset.sum_cons, add_comm]
  exact add_lt_add_left h x

/-- Amounts may be taken away. -/
theorem WithinOne.of_add {cap : ℚ≥0} {kept removed : Multiset ℚ≥0}
    (h : WithinOne cap (kept + removed)) : WithinOne cap kept := by
  rw [WithinOne, Multiset.sum_add] at h
  rcases h with h | ⟨x, hx, h⟩
  · exact .inl (lt_of_le_of_lt le_self_add h)
  · rcases Multiset.mem_add.mp hx with hkept | hremoved
    · exact .inr ⟨x, hkept, lt_of_le_of_lt le_self_add h⟩
    · have hle : x ≤ removed.sum := Multiset.single_le_sum (fun _ _ => zero_le) x hremoved
      have hlt : kept.sum + x < cap + x := lt_of_le_of_lt (add_le_add_right hle kept.sum) h
      exact .inl (lt_of_add_lt_add_right hlt)

/-- Replacing one value of a family exchanges its summand. -/
theorem sum_update_add {ι A : Type*} [Fintype ι] [DecidableEq ι] [AddCommMonoid A] (f : ι → A)
    (i : ι) (a : A) : ∑ j, Function.update f i a j + f i = ∑ j, f j + a := by
  rw [Finset.sum_update_of_mem (Finset.mem_univ i), ← Finset.add_sum_erase _ f (Finset.mem_univ i),
    Finset.sdiff_singleton_eq_erase]
  abel

/-! ### Workers -/

/-- What becomes of an item: it is answered from the response cache, its call returns and is
charged, or its call is made and the item raises before it is charged. -/
inductive Outcome where
  | cached
  | completed (usage : ProviderUsage)
  | failed (usage : ProviderUsage)

/-- The metrics of an item. -/
def Outcome.metrics : Outcome → Metrics
  | .cached => cachedMetrics
  | .completed usage | .failed usage => usage.callMetrics

/-- Whether an item makes a provider call. -/
def Outcome.isCall : Outcome → Bool
  | .cached => false
  | .completed _ | .failed _ => true

/-- Whether an item raises after its call. -/
def Outcome.raises : Outcome → Bool
  | .failed _ => true
  | .cached | .completed _ => false

/-- The usage that an item amounts to under a guard. -/
def Outcome.usage {M : Type*} (guard : BudgetGuard M) (outcome : Outcome) : Usage :=
  (guard.measure outcome.metrics).getD ⟨0, 0, 0, 0⟩

theorem Outcome.usage_apiCalls {M : Type*} (guard : BudgetGuard M) (outcome : Outcome) :
    (outcome.usage guard).apiCalls = if outcome.isCall then 1 else 0 := by
  cases outcome <;> rfl

/-- Where a worker stands: between items, asking the ledgers in `remaining` for headroom after
those in `passed` let it pass, or charging the ledgers in `remaining` after its call. -/
inductive Phase (M : Type*) where
  | idle
  | checking (outcome : Outcome) (passed remaining : List (LedgerId M))
  | charging (usage : Usage) (remaining : List (LedgerId M))

namespace Phase

variable {M : Type*}

/-- The lists of a phase are parts of the ledgers of the guard. -/
def WellFormed (guard : BudgetGuard M) : Phase M → Prop
  | .idle => True
  | .checking _ passed remaining => passed.reverse ++ remaining = guard.ledgers
  | .charging _ remaining => remaining <:+ guard.ledgers

theorem WellFormed.mem_passed {guard : BudgetGuard M} {outcome : Outcome}
    {passed : List (LedgerId M)} (h : (checking outcome passed []).WellFormed guard)
    {k : LedgerId M} : k ∈ passed ↔ k ∈ guard.ledgers := by
  have hpassed : passed.reverse = guard.ledgers := by
    simpa [WellFormed] using h
  rw [← hpassed, List.mem_reverse]

theorem WellFormed.notMem_passed {guard : BudgetGuard M} {outcome : Outcome}
    {passed remaining : List (LedgerId M)} {k : LedgerId M}
    (h : (checking outcome passed (k :: remaining)).WellFormed guard) : k ∉ passed := by
  have hnodup : (passed.reverse ++ k :: remaining).Nodup := by
    have hledgers : passed.reverse ++ k :: remaining = guard.ledgers := h
    exact hledgers ▸ guard.nodup_ledgers
  intro hk
  exact (List.nodup_append.mp hnodup).2.2 k (List.mem_reverse.mpr hk) k List.mem_cons_self rfl

theorem WellFormed.notMem_remaining {guard : BudgetGuard M} {usage : Usage}
    {remaining : List (LedgerId M)} {k : LedgerId M}
    (h : (charging usage (k :: remaining)).WellFormed guard) : k ∉ remaining :=
  (List.nodup_cons.mp (guard.nodup_ledgers.sublist (List.IsSuffix.sublist h))).1

variable [DecidableEq M]

/-- The amounts that a worker has passed the gate of a ledger with and made no call for. -/
def pending (guard : BudgetGuard M) (k : LedgerId M) (meter : Meter) :
    Phase M → Multiset ℚ≥0
  | .checking outcome passed _ =>
    if k ∈ passed then {(outcome.usage guard).amount meter} else 0
  | .idle | .charging _ _ => 0

/-- The amount of a call that a worker has made and not yet charged to a ledger. -/
def uncharged (k : LedgerId M) (meter : Meter) : Phase M → ℚ≥0
  | .charging usage remaining => if k ∈ remaining then usage.amount meter else 0
  | .idle | .checking _ _ _ => 0

@[simp]
theorem pending_idle (guard : BudgetGuard M) (k : LedgerId M) (meter : Meter) :
    (idle : Phase M).pending guard k meter = 0 := rfl

@[simp]
theorem pending_charging (guard : BudgetGuard M) (k : LedgerId M) (meter : Meter) (usage : Usage)
    (remaining : List (LedgerId M)) : (charging usage remaining).pending guard k meter = 0 := rfl

theorem pending_checking (guard : BudgetGuard M) (k : LedgerId M) (meter : Meter)
    (outcome : Outcome) (passed remaining : List (LedgerId M)) :
    (checking outcome passed remaining).pending guard k meter =
      if k ∈ passed then {(outcome.usage guard).amount meter} else 0 := rfl

theorem uncharged_charging (k : LedgerId M) (meter : Meter) (usage : Usage)
    (remaining : List (LedgerId M)) : (charging usage remaining).uncharged k meter =
      if k ∈ remaining then usage.amount meter else 0 := rfl

end Phase

/-- The guards of the workers and the budgets of the ledgers. -/
structure WorkerPool (ι M : Type*) where
  guard : ι → BudgetGuard M
  config : LedgerId M → LLMBudgetConfig
  scope : LedgerId M → String

namespace WorkerPool

variable {ι M : Type*}

/-- The phases of the workers, the shared ledgers, and the items answered so far with the workers
that executed them, the latest first. -/
structure State (ι M : Type*) where
  phase : ι → Phase M
  ledger : LedgerId M → BudgetLedger
  answered : List (ι × Outcome)

/-- No item has been executed. -/
def fresh (sys : WorkerPool ι M) : State ι M where
  phase _ := .idle
  ledger k := .fresh (sys.config k) (sys.scope k)
  answered := []

namespace State

variable (s : State ι M) (i : ι) (phase : Phase M) (k : LedgerId M) (usage : Usage)
  (outcome : Outcome)

/-- A worker has executed an item. -/
def answer : State ι M :=
  { s with answered := (i, outcome) :: s.answered }

@[simp] theorem phase_answer : (s.answer i outcome).phase = s.phase := rfl

@[simp] theorem ledger_answer : (s.answer i outcome).ledger = s.ledger := rfl

/-- A worker charges a ledger. -/
def charge [DecidableEq M] : State ι M :=
  { s with ledger := Function.update s.ledger k ((s.ledger k).chargeUsage usage) }

@[simp] theorem phase_charge [DecidableEq M] : (s.charge k usage).phase = s.phase := rfl

@[simp] theorem answered_charge [DecidableEq M] : (s.charge k usage).answered = s.answered := rfl

variable [DecidableEq ι]

/-- A worker moves to a phase. -/
def set : State ι M :=
  { s with phase := Function.update s.phase i phase }

@[simp] theorem ledger_set : (s.set i phase).ledger = s.ledger := rfl

@[simp] theorem answered_set : (s.set i phase).answered = s.answered := rfl

@[simp] theorem phase_set_self : (s.set i phase).phase i = phase := by
  simp [set]

theorem phase_set_of_ne {j : ι} (h : j ≠ i) : (s.set i phase).phase j = s.phase j := by
  simp [set, h]

/-- A sum over the phases when one worker moves. -/
theorem sum_set [Fintype ι] {A : Type*} [AddCommMonoid A] (f : ι → Phase M → A) :
    ∑ j, f j ((s.set i phase).phase j) + f i (s.phase i) =
      ∑ j, f j (s.phase j) + f i phase := by
  have hupdate : (fun j => f j ((s.set i phase).phase j)) =
      Function.update (fun j => f j (s.phase j)) i (f i phase) := by
    funext j
    rcases eq_or_ne j i with rfl | hne
    · simp
    · simp [s.phase_set_of_ne i phase hne, hne]
  rw [hupdate, sum_update_add]

end State

variable [DecidableEq ι] [DecidableEq M]

/-- The phase after the provider call of an item: usage is charged unless the item raises. -/
def afterCall (guard : BudgetGuard M) (outcome : Outcome) : Phase M :=
  if outcome.raises then .idle else .charging (outcome.usage guard) guard.ledgers

/-- One step of one worker. Gates pass only in states that `ok` allows. -/
inductive Step (sys : WorkerPool ι M) (ok : State ι M → LedgerId M → Prop) :
    State ι M → State ι M → Prop
  /-- A worker takes an item. -/
  | start {s : State ι M} (i : ι) (outcome : Outcome) (h : s.phase i = .idle) :
      Step sys ok s (s.set i (.checking outcome [] (sys.guard i).ledgers))
  /-- The gate of a ledger lets the worker pass. -/
  | pass {s : State ι M} (i : ι) {outcome : Outcome} {passed remaining : List (LedgerId M)}
      {k : LedgerId M} (h : s.phase i = .checking outcome passed (k :: remaining))
      (hpass : (s.ledger k).ensureHeadroom 1 = .ok ()) (hok : ok s k) :
      Step sys ok s (s.set i (.checking outcome (k :: passed) remaining))
  /-- The gate of a ledger raises. -/
  | exceeded {s : State ι M} (i : ι) {outcome : Outcome} {passed remaining : List (LedgerId M)}
      {k : LedgerId M} {e : BudgetExceededError}
      (h : s.phase i = .checking outcome passed (k :: remaining))
      (hraise : (s.ledger k).ensureHeadroom 1 = .error e) :
      Step sys ok s (s.set i .idle)
  /-- Something else raises before the call. -/
  | abandon {s : State ι M} (i : ι) {outcome : Outcome} {passed : List (LedgerId M)}
      (h : s.phase i = .checking outcome passed []) :
      Step sys ok s (s.set i .idle)
  /-- The worker makes the call of its item, or finds the item in the response cache. -/
  | call {s : State ι M} (i : ι) {outcome : Outcome} {passed : List (LedgerId M)}
      (h : s.phase i = .checking outcome passed []) :
      Step sys ok s ((s.set i (afterCall (sys.guard i) outcome)).answer i outcome)
  /-- The worker charges a ledger. -/
  | charge {s : State ι M} (i : ι) {usage : Usage} {remaining : List (LedgerId M)}
      {k : LedgerId M} (h : s.phase i = .charging usage (k :: remaining)) :
      Step sys ok s ((s.set i (.charging usage remaining)).charge k usage)
  /-- The worker has charged every ledger. -/
  | finish {s : State ι M} (i : ι) {usage : Usage} (h : s.phase i = .charging usage []) :
      Step sys ok s (s.set i .idle)

/-- The states that interleaved workers reach. -/
inductive Run (sys : WorkerPool ι M) (ok : State ι M → LedgerId M → Prop) : State ι M → Prop
  | fresh : Run sys ok sys.fresh
  | step {s s' : State ι M} (run : Run sys ok s) (step : Step sys ok s s') : Run sys ok s'

/-! ### What a ledger is owed -/

/-- The items executed by workers whose guard consults a ledger. -/
def State.seen (sys : WorkerPool ι M) (s : State ι M) (k : LedgerId M) : List (ι × Outcome) :=
  s.answered.filter fun x => k ∈ (sys.guard x.1).ledgers

/-- The number of provider calls made under a ledger. -/
def State.callsMade (sys : WorkerPool ι M) (s : State ι M) (k : LedgerId M) : ℕ :=
  (s.seen sys k).countP fun x => x.2.isCall

/-- The amounts of the items executed under a ledger. -/
def State.responses (sys : WorkerPool ι M) (s : State ι M) (k : LedgerId M) (meter : Meter) :
    Multiset ℚ≥0 :=
  (s.seen sys k).map fun x => (x.2.usage (sys.guard x.1)).amount meter

/-- The amounts of the items that raised after their call under a ledger, which nobody charges. -/
def State.lost (sys : WorkerPool ι M) (s : State ι M) (k : LedgerId M) (meter : Meter) : ℚ≥0 :=
  (((s.seen sys k).filter fun x => x.2.raises).map
    fun x => (x.2.usage (sys.guard x.1)).amount meter).sum

section Totals

variable [Fintype ι]

/-- The amounts that have passed the gate of a ledger: of the calls made, and of those to come. -/
def State.admitted (sys : WorkerPool ι M) (s : State ι M) (k : LedgerId M) (meter : Meter) :
    Multiset ℚ≥0 :=
  s.responses sys k meter + ∑ i, (s.phase i).pending (sys.guard i) k meter

/-- What has passed the gate of a ledger and is not charged to it: calls to come, calls made and
not yet charged, and calls whose item raised. -/
def State.owed (sys : WorkerPool ι M) (s : State ι M) (k : LedgerId M) (meter : Meter) : ℚ≥0 :=
  (∑ i, (s.phase i).pending (sys.guard i) k meter).sum + ∑ i, (s.phase i).uncharged k meter +
    s.lost sys k meter

/-- The gate of a ledger would also pass with everything charged that the ledger is owed. -/
def Spare (sys : WorkerPool ι M) (s : State ι M) (k : LedgerId M) : Prop :=
  ∀ meter, ∀ cap ∈ (sys.config k).cap meter,
    (s.ledger k).used meter + s.owed sys k meter < cap

end Totals

/-! ### Accounting -/

section Answer

omit [DecidableEq ι]

variable (sys : WorkerPool ι M) (s : State ι M) (i : ι) (outcome : Outcome) (k : LedgerId M)
  (meter : Meter)

theorem State.seen_answer : (s.answer i outcome).seen sys k =
    if k ∈ (sys.guard i).ledgers then (i, outcome) :: s.seen sys k else s.seen sys k := by
  simp [State.seen, State.answer, List.filter_cons]

theorem State.responses_answer : (s.answer i outcome).responses sys k meter =
    (if k ∈ (sys.guard i).ledgers then {(outcome.usage (sys.guard i)).amount meter} else 0) +
      s.responses sys k meter := by
  rw [State.responses, State.seen_answer]
  by_cases hk : k ∈ (sys.guard i).ledgers
  · rw [if_pos hk, if_pos hk, Multiset.singleton_add, List.map_cons, ← Multiset.cons_coe]
    rfl
  · rw [if_neg hk, if_neg hk, zero_add]
    rfl

theorem State.lost_answer : (s.answer i outcome).lost sys k meter =
    (if outcome.raises ∧ k ∈ (sys.guard i).ledgers then
      (outcome.usage (sys.guard i)).amount meter else 0) + s.lost sys k meter := by
  rw [State.lost, State.seen_answer]
  by_cases hk : k ∈ (sys.guard i).ledgers
  · by_cases hraises : outcome.raises = true <;> simp [State.lost, hk, hraises]
  · simp [State.lost, hk]

theorem uncharged_afterCall : (afterCall (sys.guard i) outcome).uncharged k meter =
    if ¬ outcome.raises ∧ k ∈ (sys.guard i).ledgers then
      (outcome.usage (sys.guard i)).amount meter else 0 := by
  by_cases hraises : outcome.raises = true <;> simp [afterCall, Phase.uncharged, hraises]

end Answer

variable {sys : WorkerPool ι M} {ok : State ι M → LedgerId M → Prop} {s s' : State ι M}

/-- Every phase is made of the ledgers of its guard. -/
def State.WellFormed (sys : WorkerPool ι M) (s : State ι M) : Prop :=
  ∀ i, (s.phase i).WellFormed (sys.guard i)

omit [DecidableEq M] in
theorem State.WellFormed.set (h : s.WellFormed sys) {i : ι} {phase : Phase M}
    (hphase : phase.WellFormed (sys.guard i)) : (s.set i phase).WellFormed sys := by
  intro j
  rcases eq_or_ne j i with rfl | hne
  · simpa using hphase
  · simpa [s.phase_set_of_ne i phase hne] using h j

/-- A step keeps the phases well formed. -/
theorem Step.wellFormed (step : Step sys ok s s') (h : s.WellFormed sys) : s'.WellFormed sys := by
  cases step with
  | start i outcome hp => exact h.set (List.nil_append _)
  | @pass i outcome passed remaining k hp hpass hok =>
    have hledgers : passed.reverse ++ k :: remaining = (sys.guard i).ledgers := by
      simpa [hp, Phase.WellFormed] using h i
    refine h.set ?_
    simpa [Phase.WellFormed] using hledgers
  | exceeded i hp hraise => exact h.set trivial
  | abandon i hp => exact h.set trivial
  | @call i outcome passed hp =>
    refine State.WellFormed.set h ?_
    cases outcome <;> simp [afterCall, Outcome.raises, Phase.WellFormed]
  | @charge i usage remaining k hp =>
    have hsuffix : k :: remaining <:+ (sys.guard i).ledgers := by
      simpa [hp, Phase.WellFormed] using h i
    exact State.WellFormed.set h ((List.suffix_cons k remaining).trans hsuffix)
  | finish i hp => exact h.set trivial

theorem Run.wellFormed (run : Run sys ok s) : s.WellFormed sys := by
  induction run with
  | fresh => exact fun _ => trivial
  | step _ step ih => exact step.wellFormed ih

variable [Fintype ι]

/-- A ledger has seen everything answered under it, except for what is still to be charged or was
lost. -/
def State.Accounted (sys : WorkerPool ι M) (s : State ι M) (k : LedgerId M) (meter : Meter) : Prop :=
  (s.ledger k).used meter + ∑ i, (s.phase i).uncharged k meter + s.lost sys k meter =
    (s.responses sys k meter).sum

/-- Moves between phases that have nothing left to charge keep the account. -/
theorem State.Accounted.set {k : LedgerId M} {meter : Meter} (h : s.Accounted sys k meter) {i : ι}
    {phase : Phase M} (hbefore : (s.phase i).uncharged k meter = 0)
    (hafter : phase.uncharged k meter = 0) : (s.set i phase).Accounted sys k meter := by
  have hsum := s.sum_set i phase fun _ p => p.uncharged k meter
  rw [hbefore, hafter, add_zero, add_zero] at hsum
  rw [State.Accounted, hsum]
  exact h

/-- An executed item is charged or lost. -/
theorem State.Accounted.answer {k : LedgerId M} {meter : Meter} (h : s.Accounted sys k meter)
    {i : ι} {outcome : Outcome} (hbefore : (s.phase i).uncharged k meter = 0) :
    ((s.set i (afterCall (sys.guard i) outcome)).answer i outcome).Accounted sys k meter := by
  have hsum := s.sum_set i (afterCall (sys.guard i) outcome) fun _ p => p.uncharged k meter
  rw [hbefore, add_zero, uncharged_afterCall] at hsum
  rw [State.Accounted, State.phase_answer, hsum, State.lost_answer, State.responses_answer,
    Multiset.sum_add]
  have hresponses : ((s.set i (afterCall (sys.guard i) outcome)).responses sys k meter).sum =
      (s.ledger k).used meter + ∑ i, (s.phase i).uncharged k meter + s.lost sys k meter := h.symm
  rw [hresponses]
  change (s.ledger k).used meter + _ + (_ + s.lost sys k meter) = _
  by_cases hk : k ∈ (sys.guard i).ledgers
  · cases hraises : outcome.raises with
    | true => simp [hk]; ring
    | false => simp [hk]; ring
  · simp [hk]

/-- A charge moves an amount into the ledger. -/
theorem State.Accounted.charge {k : LedgerId M} {meter : Meter} (h : s.Accounted sys k meter)
    {i : ι} {usage : Usage} {remaining : List (LedgerId M)} {k' : LedgerId M}
    (hp : s.phase i = .charging usage (k' :: remaining)) (hk : k' ∉ remaining) :
    ((s.set i (.charging usage remaining)).charge k' usage).Accounted sys k meter := by
  have hsum := s.sum_set i (.charging usage remaining) fun _ p => p.uncharged k meter
  rw [hp] at hsum
  have haccount : (s.ledger k).used meter + ∑ i, (s.phase i).uncharged k meter +
      s.lost sys k meter = (s.responses sys k meter).sum := h
  change (Function.update s.ledger k' ((s.ledger k').chargeUsage usage) k).used meter +
    ∑ j, ((s.set i (.charging usage remaining)).phase j).uncharged k meter + s.lost sys k meter =
      (s.responses sys k meter).sum
  rw [← haccount]
  rcases eq_or_ne k k' with rfl | hne
  · simp only [Phase.uncharged_charging, List.mem_cons_self, if_true, hk, if_false, add_zero] at hsum
    rw [Function.update_self, BudgetLedger.used_chargeUsage, ← hsum]
    ring
  · have hiff : k ∈ k' :: remaining ↔ k ∈ remaining := by simp [hne]
    simp only [Phase.uncharged_charging, hiff, add_left_inj] at hsum
    rw [Function.update_of_ne hne]
    exact congrArg (fun x => (s.ledger k).used meter + x + s.lost sys k meter) hsum

/-- A step keeps the account of every ledger. -/
theorem Step.accounted (step : Step sys ok s s') (hwf : s.WellFormed sys) {k : LedgerId M}
    {meter : Meter} (h : s.Accounted sys k meter) : s'.Accounted sys k meter := by
  cases step with
  | start i outcome hp => exact h.set (by rw [hp]; rfl) rfl
  | pass i hp hpass hok => exact h.set (by rw [hp]; rfl) rfl
  | exceeded i hp hraise => exact h.set (by rw [hp]; rfl) rfl
  | abandon i hp => exact h.set (by rw [hp]; rfl) rfl
  | call i hp => exact h.answer (by rw [hp]; rfl)
  | @charge i usage remaining k' hp => exact h.charge hp (hp ▸ hwf i).notMem_remaining
  | finish i hp => exact h.set (by rw [hp]; simp [Phase.uncharged]) rfl

/-- What a ledger has recorded, is still to record, and never records, is what was answered under
it. -/
theorem Run.accounted (run : Run sys ok s) (k : LedgerId M) (meter : Meter) :
    s.Accounted sys k meter := by
  induction run with
  | fresh =>
    simp [State.Accounted, WorkerPool.fresh, Phase.uncharged, State.lost, State.responses, State.seen]
  | step run step ih => exact step.accounted run.wellFormed ih

/-! ### What has passed the gates -/

theorem State.admitted_sum (run : Run sys ok s) (k : LedgerId M) (meter : Meter) :
    (s.admitted sys k meter).sum = (s.ledger k).used meter + s.owed sys k meter := by
  have haccount : _ = (s.responses sys k meter).sum := run.accounted k meter
  rw [State.admitted, Multiset.sum_add, ← haccount, State.owed]
  ring

/-- Phases that have passed no gate may be left and entered freely. -/
theorem State.admitted_set (s : State ι M) (sys : WorkerPool ι M) (i : ι) (phase : Phase M) (k : LedgerId M) (meter : Meter) :
    (s.set i phase).admitted sys k meter + (s.phase i).pending (sys.guard i) k meter =
      s.admitted sys k meter + phase.pending (sys.guard i) k meter := by
  have hsum := s.sum_set i phase fun j p => p.pending (sys.guard j) k meter
  rw [State.admitted, State.admitted, add_assoc, hsum, ← add_assoc]
  rfl

omit [DecidableEq ι] in
theorem State.admitted_answer (i : ι) (outcome : Outcome) (k : LedgerId M) (meter : Meter) :
    (s.answer i outcome).admitted sys k meter =
      (if k ∈ (sys.guard i).ledgers then {(outcome.usage (sys.guard i)).amount meter} else 0) +
        s.admitted sys k meter := by
  rw [State.admitted, State.responses_answer, add_assoc]
  rfl

/-- Whatever passes the gate of a ledger stays within one response of the cap, if the gates that
pass have room to spare. -/
theorem Step.withinOne (step : Step sys (Spare sys) s s') (run : Run sys (Spare sys) s)
    {k : LedgerId M} {meter : Meter} {cap : ℚ≥0} (hcap : cap ∈ (sys.config k).cap meter)
    (h : WithinOne cap (s.admitted sys k meter)) : WithinOne cap (s'.admitted sys k meter) := by
  have hwf := run.wellFormed
  cases step with
  | @start i outcome hp =>
    have hset := s.admitted_set sys i (.checking outcome [] (sys.guard i).ledgers) k meter
    simp only [hp, Phase.pending_idle, Phase.pending_checking, List.not_mem_nil, if_false,
      add_zero] at hset
    rwa [hset]
  | @pass i outcome passed remaining k' hp hpass hok =>
    have hset := s.admitted_set sys i (.checking outcome (k' :: passed) remaining) k meter
    rcases eq_or_ne k k' with rfl | hne
    · have hnew : k ∉ passed := (hp ▸ hwf i).notMem_passed
      simp only [hp, Phase.pending_checking, hnew, List.mem_cons_self, if_true, if_false,
        add_zero] at hset
      have hroom : (s.admitted sys k meter).sum < cap := by
        rw [State.admitted_sum run]
        exact hok meter cap hcap
      rw [hset, add_comm, Multiset.singleton_add]
      exact WithinOne.cons hroom _
    · have hiff : k ∈ k' :: passed ↔ k ∈ passed := by simp [hne]
      simp only [hp, Phase.pending_checking, hiff, add_left_inj] at hset
      rwa [hset]
  | @exceeded i outcome passed remaining k' e hp hraise =>
    have hset := s.admitted_set sys i .idle k meter
    rw [Phase.pending_idle, add_zero] at hset
    exact WithinOne.of_add (hset ▸ h)
  | @abandon i outcome passed hp =>
    have hset := s.admitted_set sys i .idle k meter
    rw [Phase.pending_idle, add_zero] at hset
    exact WithinOne.of_add (hset ▸ h)
  | @call i outcome passed hp =>
    -- the amount moves from the calls to come to the calls made
    have hset := s.admitted_set sys i (afterCall (sys.guard i) outcome) k meter
    have hnone : (afterCall (sys.guard i) outcome).pending (sys.guard i) k meter = 0 := by
      cases outcome <;> rfl
    have hpassed : k ∈ passed ↔ k ∈ (sys.guard i).ledgers := (hp ▸ hwf i).mem_passed
    simp only [hp, hnone, Phase.pending_checking, hpassed, add_zero] at hset
    rwa [State.admitted_answer, add_comm, hset]
  | @charge i usage remaining k' hp =>
    have hset := s.admitted_set sys i (.charging usage remaining) k meter
    simp only [hp, Phase.pending_charging, add_zero] at hset
    exact hset ▸ h
  | @finish i usage hp =>
    have hset := s.admitted_set sys i .idle k meter
    simp only [hp, Phase.pending_charging, Phase.pending_idle, add_zero] at hset
    rwa [hset]

theorem Run.withinOne (run : Run sys (Spare sys) s) {k : LedgerId M} {meter : Meter} {cap : ℚ≥0}
    (hcap : cap ∈ (sys.config k).cap meter) : WithinOne cap (s.admitted sys k meter) := by
  induction run with
  | fresh =>
    left
    simpa [State.admitted, State.responses, State.seen, WorkerPool.fresh] using
      LLMBudgetConfig.cap_pos hcap
  | step run step ih => exact step.withinOne run hcap ih

/-! ### Caps -/

omit [DecidableEq ι] [Fintype ι]

/-- The calls made under a ledger are what their items amount to on the meter of calls. -/
theorem State.callsMade_eq (sys : WorkerPool ι M) (s : State ι M) (k : LedgerId M) :
    (s.callsMade sys k : ℚ≥0) = (s.responses sys k .apiCalls).sum := by
  rw [State.callsMade, State.responses, Multiset.sum_coe]
  induction s.seen sys k with
  | nil => simp
  | cons x seen ih =>
    rw [List.countP_cons, List.map_cons, List.sum_cons, ← ih]
    cases h : x.2.isCall <;> simp [Usage.amount, Outcome.usage_apiCalls, h, add_comm]

/-- An item amounts to at most one call. -/
theorem State.le_one_of_mem_responses {sys : WorkerPool ι M} {s : State ι M} {k : LedgerId M}
    {x : ℚ≥0} (hx : x ∈ s.responses sys k .apiCalls) : x ≤ 1 := by
  obtain ⟨item, -, rfl⟩ := List.mem_map.mp (Multiset.mem_coe.mp hx)
  cases h : item.2.isCall <;> simp [Usage.amount, Outcome.usage_apiCalls, h]

end WorkerPool

variable {ι M : Type*} [DecidableEq ι] [DecidableEq M] [Fintype ι]

open WorkerPool

omit [Fintype ι] in
theorem WorkerPool.Step.suffix_answered {sys : WorkerPool ι M} {ok : State ι M → LedgerId M → Prop}
    {s s' : State ι M} (step : Step sys ok s s') : s.answered <:+ s'.answered := by
  cases step with
  | call i hp => exact List.suffix_cons _ _
  | start | pass | exceeded | abandon | charge | finish => exact List.suffix_rfl

omit [Fintype ι] in
theorem WorkerPool.Run.config_ledger {sys : WorkerPool ι M} {ok : State ι M → LedgerId M → Prop}
    {s : State ι M} (run : Run sys ok s) (k : LedgerId M) :
    (s.ledger k).config = sys.config k := by
  induction run with
  | fresh => rfl
  | step run step ih =>
    cases step with
    | @charge i usage remaining k' hp =>
      rcases eq_or_ne k k' with rfl | hne
      · simpa [State.charge] using ih
      · simpa [State.charge, hne] using ih
    | start | pass | exceeded | abandon | call | finish => exact ih

omit [DecidableEq ι] in
/-- A single worker that loses nothing owes nothing to the ledger it asks. -/
theorem WorkerPool.owed_of_subsingleton [Subsingleton ι] {sys : WorkerPool ι M} {s : State ι M}
    (hwf : s.WellFormed sys) {i : ι} {outcome : Outcome} {passed remaining : List (LedgerId M)}
    {k : LedgerId M} (hp : s.phase i = .checking outcome passed (k :: remaining))
    (hlost : ∀ x ∈ s.answered, x.2.raises = false) (meter : Meter) : s.owed sys k meter = 0 := by
  have hnew : k ∉ passed := (hp ▸ hwf i).notMem_passed
  have hpending : ∑ j, (s.phase j).pending (sys.guard j) k meter = 0 := by
    refine Finset.sum_eq_zero fun j _ => ?_
    obtain rfl := Subsingleton.elim i j
    simp [hp, Phase.pending_checking, hnew]
  have huncharged : ∑ j, (s.phase j).uncharged k meter = 0 := by
    refine Finset.sum_eq_zero fun j _ => ?_
    obtain rfl := Subsingleton.elim i j
    rw [hp]
    rfl
  have hraises : (s.seen sys k).filter (fun x => x.2.raises) = [] := by
    refine List.filter_eq_nil_iff.mpr fun x hx => ?_
    simp [hlost x (List.mem_of_mem_filter hx)]
  simp [State.owed, hpending, huncharged, State.lost, hraises]

/-- The gates of a single worker always have room to spare, as long as no item raises after its
call. -/
theorem WorkerPool.Run.spare [Subsingleton ι] {sys : WorkerPool ι M}
    {ok : State ι M → LedgerId M → Prop} {s : State ι M} (run : Run sys ok s)
    (hlost : ∀ x ∈ s.answered, x.2.raises = false) : Run sys (Spare sys) s := by
  induction run with
  | fresh => exact .fresh
  | @step s s' run step ih =>
    have hlost' : ∀ x ∈ s.answered, x.2.raises = false := by
      intro x hx
      exact hlost x (step.suffix_answered.subset hx)
    refine (ih hlost').step ?_
    cases step with
    | start i outcome hp => exact .start i outcome hp
    | @pass i outcome passed remaining k hp hpass hok =>
      refine .pass i hp hpass fun meter cap hcap => ?_
      rw [owed_of_subsingleton run.wellFormed hp hlost', add_zero]
      exact BudgetLedger.ensureHeadroom_one_eq_ok.mp hpass meter cap
        (run.config_ledger k ▸ hcap)
    | exceeded i hp hraise => exact .exceeded i hp hraise
    | abandon i hp => exact .abandon i hp
    | call i hp => exact .call i hp
    | charge i hp => exact .charge i hp
    | finish i hp => exact .finish i hp

/-! ### Concrete runs -/

/-- Workers that share a run budget of one call. -/
def sharedRun (ι : Type*) : WorkerPool ι Unit where
  guard _ := ⟨none, true, none⟩
  config _ := oneCall
  scope _ := "run"

/-- An item whose call reports ten tokens in and two tokens out. -/
def sampleItem : Outcome := .completed ⟨10, 2, 0, 0, none⟩

theorem oneCall_headroom {ledger : BudgetLedger} (hconfig : ledger.config = oneCall)
    (hcalls : ledger.apiCalls = 0) : ledger.ensureHeadroom 1 = .ok () := by
  rw [BudgetLedger.ensureHeadroom_one_eq_ok, hconfig]
  rintro (_ | _ | _ | _) cap hcap
  · obtain rfl : ((1 : ℕ+) : ℕ) = cap := Option.some.inj hcap
    simp [BudgetLedger.used, hcalls]
  all_goals simp [oneCall, LLMBudgetConfig.unlimited, LLMBudgetConfig.cap, amount] at hcap

end Stel.Budget
