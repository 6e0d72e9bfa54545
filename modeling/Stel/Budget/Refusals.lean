import Stel.Budget.Extraction
import Mathlib.Algebra.Ring.Nat
import Mathlib.Data.List.Induction

/-!
# Refused charges

Before work is done, the guards of the models of a run count its documents and bytes, check the
sizes of its files and ask for headroom. A ledger adds a count before it compares the total with the
cap, so that a refused count stays recorded, in the ledger that refuses it and in the one consulted
before it.

## Main definitions

* `Check`, `BudgetGuard.check`: the methods of a guard that can refuse work.
* `BudgetGuard.ConsumesOnlyAdmitted`: a refusal changes no total, and what passes is within the caps.
* `afterChecks`, `charged`: the ledgers after a sequence of calls, and what was asked for in it.

## Main results

* `exec_forEach_op`: what a check does to the ledgers that it consults.
* `refusals_consume_nothing_iff`: refusals consume nothing in a run that never asks for more documents
  or bytes than a cap allows, and in no other run.
-/

namespace Stel.Budget

variable {M : Type}

/-! ### Checks -/

/-- A method of a guard that lets work pass or refuses it. -/
inductive Check where
  | chargeDocuments (count : ℕ)
  | checkFileBytes (size : ℕ)
  | chargeBytes (count : ℕ)
  | ensureHeadroom (nextCalls : ℕ)

namespace Check

/-- The method of a ledger that the method of a guard calls. -/
def op (k : LedgerId M) : Check → LedgerOp M
  | chargeDocuments count => .chargeDocuments k count
  | checkFileBytes size => .checkFileBytes k size
  | chargeBytes count => .chargeBytes k count
  | ensureHeadroom nextCalls => .ensureHeadroom k nextCalls

/-- The documents that a check counts. -/
def documents : Check → ℕ
  | chargeDocuments count => count
  | checkFileBytes _ | chargeBytes _ | ensureHeadroom _ => 0

/-- The bytes that a check counts. -/
def bytes : Check → ℕ
  | chargeBytes count => count
  | chargeDocuments _ | checkFileBytes _ | ensureHeadroom _ => 0

end Check

/-- The method of a guard. -/
def BudgetGuard.check (guard : BudgetGuard M) : Check → LedgerProg M Unit
  | .chargeDocuments count => guard.chargeDocuments count
  | .checkFileBytes size => guard.checkFileBytes size
  | .chargeBytes count => guard.chargeBytes count
  | .ensureHeadroom nextCalls => guard.ensureHeadroom nextCalls

theorem BudgetGuard.check_eq (guard : BudgetGuard M) (check : Check) :
    guard.check check = Prog.forEach (fun k => Prog.perform (check.op k)) guard.ledgers := by
  cases check <;> rfl

/-! ### One ledger -/

theorem requireAtMost_eq_ok {scope limit : String} {cap : Option ℕ+} {observed : ℕ} :
    requireAtMost scope limit cap observed = .ok () ↔ ∀ c ∈ cap, observed ≤ c := by
  cases cap with
  | none => simp [requireAtMost]
  | some cap => simp [requireAtMost]

namespace BudgetLedger

/-- A ledger after documents and bytes were counted. -/
def counted (ledger : BudgetLedger) (documents bytes : ℕ) : BudgetLedger :=
  { ledger with
    documents := ledger.documents + documents
    totalBytes := ledger.totalBytes + bytes }

theorem counted_zero (ledger : BudgetLedger) : ledger.counted 0 0 = ledger := rfl

theorem counted_counted (ledger : BudgetLedger) (m n m' n' : ℕ) :
    (ledger.counted m n).counted m' n' = ledger.counted (m + m') (n + n') := by
  simp [counted, Nat.add_assoc]

/-- Every total is within its cap. -/
structure WithinCaps (ledger : BudgetLedger) : Prop where
  documents : ∀ cap ∈ ledger.config.maxDocuments, ledger.documents ≤ cap
  totalBytes : ∀ cap ∈ ledger.config.maxTotalBytes, ledger.totalBytes ≤ cap
  used : ∀ meter, ∀ cap ∈ ledger.config.cap meter, ledger.used meter ≤ cap

/-- A new ledger that has only counted documents and bytes. -/
theorem withinCaps_fresh_counted {config : LLMBudgetConfig} {scope : String} {documents bytes : ℕ} :
    ((fresh config scope).counted documents bytes).WithinCaps ↔
      (∀ cap ∈ config.maxDocuments, documents ≤ cap) ∧
        ∀ cap ∈ config.maxTotalBytes, bytes ≤ cap := by
  have hdocuments : ((fresh config scope).counted documents bytes).documents = documents :=
    Nat.zero_add _
  have hbytes : ((fresh config scope).counted documents bytes).totalBytes = bytes := Nat.zero_add _
  constructor
  · rintro ⟨hd, hb, -⟩
    rw [hdocuments] at hd
    rw [hbytes] at hb
    exact ⟨hd, hb⟩
  · rintro ⟨hd, hb⟩
    refine ⟨by rwa [hdocuments], by rwa [hbytes], fun meter cap hcap => ?_⟩
    have hused : ((fresh config scope).counted documents bytes).used meter = 0 := by
      cases meter <;> simp [counted, fresh, used]
    rw [hused]
    exact zero_le

end BudgetLedger

variable [DecidableEq M]

/-- A check counts, whether it passes or not. -/
theorem ledger_interp_op (check : Check) (k : LedgerId M) (w : World M) :
    (ledgerInterp (check.op k) w).1.ledger =
      Function.update w.ledger k ((w.ledger k).counted check.documents check.bytes) := by
  cases check with
  | chargeDocuments count => rfl
  | checkFileBytes size => exact (Function.update_eq_self k w.ledger).symm
  | chargeBytes count => rfl
  | ensureHeadroom nextCalls => exact (Function.update_eq_self k w.ledger).symm

/-- A check that counts passes if the new total is within the cap. -/
theorem interp_op_eq_ok {check : Check} {k : LedgerId M} {w : World M}
    (hcounts : 0 < check.documents ∨ 0 < check.bytes)
    (hwithin : ((w.ledger k).counted check.documents check.bytes).WithinCaps) :
    (ledgerInterp (check.op k) w).2 = .ok () := by
  cases check with
  | chargeDocuments count =>
    have hle : ∀ cap ∈ (w.ledger k).config.maxDocuments, (w.ledger k).documents + count ≤ cap :=
      hwithin.documents
    change (requireAtMost _ _ _ _).mapError _ = _
    rw [requireAtMost_eq_ok.mpr hle]
    rfl
  | chargeBytes count =>
    have hle : ∀ cap ∈ (w.ledger k).config.maxTotalBytes, (w.ledger k).totalBytes + count ≤ cap :=
      hwithin.totalBytes
    change (requireAtMost _ _ _ _).mapError _ = _
    rw [requireAtMost_eq_ok.mpr hle]
    rfl
  | checkFileBytes size => simp [Check.documents, Check.bytes] at hcounts
  | ensureHeadroom nextCalls => simp [Check.documents, Check.bytes] at hcounts

/-! ### The ledgers of a guard -/

/-- A check counts in the ledgers up to the one that refuses it, or in all if none does. -/
theorem exec_forEach_op (check : Check) {ks : List (LedgerId M)} (hnodup : ks.Nodup) (w : World M) :
    ∃ asked, asked <+: ks ∧
      (∀ k, ((Prog.forEach (fun k => Prog.perform (check.op k)) ks).exec ledgerInterp w).1.ledger k =
        if k ∈ asked then (w.ledger k).counted check.documents check.bytes else w.ledger k) ∧
      ((((Prog.forEach (fun k => Prog.perform (check.op k)) ks).exec ledgerInterp w).2 = .ok () ∧
          asked = ks) ∨
        ∃ e, ((Prog.forEach (fun k => Prog.perform (check.op k)) ks).exec ledgerInterp w).2 =
            .error e ∧
          ∃ k ∈ asked, ∃ v : World M, v.ledger k = w.ledger k ∧
            (ledgerInterp (check.op k) v).2 = .error e) := by
  induction ks generalizing w with
  | nil => exact ⟨[], List.prefix_rfl, fun k => rfl, .inl ⟨rfl, rfl⟩⟩
  | cons k ks ih =>
    obtain ⟨hk, hnodup⟩ := List.nodup_cons.mp hnodup
    have hledger := ledger_interp_op check k w
    rcases hop : ledgerInterp (check.op k) w with ⟨v, e | u⟩
    · have hexec : (Prog.forEach (fun k => Prog.perform (check.op k)) (k :: ks)).exec ledgerInterp w =
          (v, .error e) := by
        rw [Prog.forEach, Prog.perform_bind]
        exact Prog.exec_call_error _ hop _ _
      rw [hop] at hledger
      refine ⟨[k], by simp, fun j => ?_, .inr ⟨e, by rw [hexec], k, List.mem_cons_self, w, rfl, by
        rw [hop]⟩⟩
      rw [hexec, hledger, Function.update_apply]
      by_cases hj : j = k <;> simp [hj]
    · have hexec : (Prog.forEach (fun k => Prog.perform (check.op k)) (k :: ks)).exec ledgerInterp w =
          (Prog.forEach (fun k => Prog.perform (check.op k)) ks).exec ledgerInterp v := by
        rw [Prog.forEach, Prog.perform_bind]
        exact Prog.exec_call_ok _ hop _ _
      rw [hop] at hledger
      obtain ⟨asked, hfront, hasked, hend⟩ := ih hnodup v
      have hother : ∀ j ∈ asked, v.ledger j = w.ledger j := fun j hj => by
        have hne : j ≠ k := fun h => hk (h ▸ hfront.subset hj)
        rw [hledger, Function.update_of_ne hne]
      refine ⟨k :: asked, List.cons_prefix_cons.mpr ⟨rfl, hfront⟩, fun j => ?_, ?_⟩
      · rw [hexec, hasked j]
        by_cases hj : j ∈ asked
        · simp [hj, hother j hj]
        · rw [if_neg hj, hledger, Function.update_apply]
          by_cases hjk : j = k <;> simp [hjk, hj]
      · rw [hexec]
        rcases hend with ⟨hok, rfl⟩ | ⟨e, herror, j, hj, v', hv', hrefused⟩
        · exact .inl ⟨hok, rfl⟩
        · exact .inr ⟨e, herror, j, List.mem_cons_of_mem _ hj, v', hv'.trans (hother j hj), hrefused⟩

/-- A check of a guard that raises leaves the document and byte totals of its ledgers as they were,
and one that does not raise leaves every total within its cap. -/
def BudgetGuard.ConsumesOnlyAdmitted (guard : BudgetGuard M) (check : Check) (w : World M) : Prop :=
  (∀ e, ((guard.check check).exec ledgerInterp w).2 = .error e → ∀ k ∈ guard.ledgers,
    (((guard.check check).exec ledgerInterp w).1.ledger k).documents = (w.ledger k).documents ∧
    (((guard.check check).exec ledgerInterp w).1.ledger k).totalBytes = (w.ledger k).totalBytes) ∧
  (((guard.check check).exec ledgerInterp w).2 = .ok () → ∀ k ∈ guard.ledgers,
    (((guard.check check).exec ledgerInterp w).1.ledger k).WithinCaps)

/-! ### Sequences of calls -/

/-- The ledgers after a sequence of calls, which goes on after a refusal with another model. -/
def afterChecks (calls : List (BudgetGuard M × Check)) (w : World M) : World M :=
  calls.foldl (fun w call => ((call.1.check call.2).exec ledgerInterp w).1) w

/-- Every call of a sequence consumes nothing if it is refused, and leaves every total within its cap
if it is not. -/
def RefusalsConsumeNothing (calls : List (BudgetGuard M × Check)) (w : World M) : Prop :=
  ∀ before call after, calls = before ++ call :: after →
    call.1.ConsumesOnlyAdmitted call.2 (afterChecks before w)

/-- What a sequence of calls asks a ledger to count. -/
def charged (count : Check → ℕ) (calls : List (BudgetGuard M × Check)) (k : LedgerId M) : ℕ :=
  (calls.map fun call => if call.1.ledgers.any (· = k) then count call.2 else 0).sum

theorem charged_append (count : Check → ℕ) (before after : List (BudgetGuard M × Check))
    (k : LedgerId M) :
    charged count (before ++ after) k = charged count before k + charged count after k := by
  rw [charged, List.map_append, List.sum_append]
  rfl

theorem charged_singleton (count : Check → ℕ) (call : BudgetGuard M × Check) (k : LedgerId M) :
    charged count [call] k = if k ∈ call.1.ledgers then count call.2 else 0 := by
  simp [charged]

/-- New ledgers. -/
def freshLedgers (config : LedgerId M → LLMBudgetConfig) (scope : LedgerId M → String) : World M :=
  ⟨fun k => .fresh (config k) (scope k), [], []⟩

/-- Every ledger has counted what the calls asked for. -/
def Counted (config : LedgerId M → LLMBudgetConfig) (scope : LedgerId M → String)
    (calls : List (BudgetGuard M × Check)) (w : World M) : Prop :=
  ∀ k, w.ledger k = (BudgetLedger.fresh (config k) (scope k)).counted
    (charged Check.documents calls k) (charged Check.bytes calls k)

/-- The calls ask no ledger for more documents or bytes than its caps. -/
def Fits (config : LedgerId M → LLMBudgetConfig) (calls : List (BudgetGuard M × Check)) : Prop :=
  ∀ k, (∀ cap ∈ (config k).maxDocuments, charged Check.documents calls k ≤ cap) ∧
    ∀ cap ∈ (config k).maxTotalBytes, charged Check.bytes calls k ≤ cap

variable {config : LedgerId M → LLMBudgetConfig} {scope : LedgerId M → String}
  {calls : List (BudgetGuard M × Check)} {w : World M}

theorem Fits.of_append {after : List (BudgetGuard M × Check)} (h : Fits config (calls ++ after)) :
    Fits config calls := by
  intro k
  obtain ⟨hdocuments, hbytes⟩ := h k
  rw [charged_append] at hdocuments hbytes
  exact ⟨fun cap hcap => le_trans (Nat.le_add_right _ _) (hdocuments cap hcap),
    fun cap hcap => le_trans (Nat.le_add_right _ _) (hbytes cap hcap)⟩

theorem Counted.withinCaps_iff (h : Counted config scope calls w) :
    (∀ k, (w.ledger k).WithinCaps) ↔ Fits config calls := by
  refine forall_congr' fun k => ?_
  rw [h k, BudgetLedger.withinCaps_fresh_counted]

/-- A call after which every ledger of the guard has counted. -/
theorem Counted.append (h : Counted config scope calls w) (guard : BudgetGuard M) (check : Check)
    {v : World M} (hv : ∀ k, v.ledger k = if k ∈ guard.ledgers then
      (w.ledger k).counted check.documents check.bytes else w.ledger k) :
    Counted config scope (calls ++ [(guard, check)]) v := by
  intro k
  rw [hv k, h k, charged_append, charged_append, charged_singleton, charged_singleton]
  by_cases hk : k ∈ guard.ledgers
  · simp only [if_pos hk, BudgetLedger.counted_counted]
  · simp only [if_neg hk, Nat.add_zero]

/-- A call that counts nothing. -/
theorem Counted.append_idle (h : Counted config scope calls w) {guard : BudgetGuard M} {check : Check}
    (hidle : check.documents = 0 ∧ check.bytes = 0) {v : World M} (hv : v.ledger = w.ledger) :
    Counted config scope (calls ++ [(guard, check)]) v := by
  refine h.append guard check fun k => ?_
  rw [hv, hidle.1, hidle.2, BudgetLedger.counted_zero, ite_self]

/-- A call of a guard whose ledgers have counted what was asked for: refusals consume nothing if and
only if the call asks for no more than the caps, and then the ledgers have counted it too. -/
theorem Counted.step (h : Counted config scope calls w) (hfits : Fits config calls)
    (guard : BudgetGuard M) (check : Check) :
    (guard.ConsumesOnlyAdmitted check w ↔ Fits config (calls ++ [(guard, check)])) ∧
    (Fits config (calls ++ [(guard, check)]) → Counted config scope (calls ++ [(guard, check)])
      ((guard.check check).exec ledgerInterp w).1) := by
  obtain ⟨asked, hfront, hledger, hend⟩ := exec_forEach_op check guard.nodup_ledgers w
  rw [← guard.check_eq check] at hledger hend
  have hwithin := h.withinCaps_iff.mpr hfits
  set v := ((guard.check check).exec ledgerInterp w).1 with hv
  have hidle (hzero : check.documents = 0 ∧ check.bytes = 0) : v.ledger = w.ledger := by
    funext k
    rw [hledger k, hzero.1, hzero.2, BudgetLedger.counted_zero, ite_self]
  rcases hend with ⟨hok, rfl⟩ | ⟨e, herror, k, hk, u, hu, hrefused⟩
  · have hcounted := h.append guard check hledger
    refine ⟨⟨fun hkept => ?_, fun hfits' => ⟨fun e he => ?_, fun _ k _ => ?_⟩⟩, fun _ => hcounted⟩
    · refine hcounted.withinCaps_iff.mp fun k => ?_
      by_cases hk : k ∈ guard.ledgers
      · exact hkept.2 hok k hk
      · rw [hledger k, if_neg hk]
        exact hwithin k
    · rw [hok] at he
      cases he
    · exact hcounted.withinCaps_iff.mpr hfits' k
  · -- a check that is refused although it counts nothing changes nothing
    have hzero_of_fits : Fits config (calls ++ [(guard, check)]) →
        check.documents = 0 ∧ check.bytes = 0 := by
      intro hfits'
      by_contra hcounts
      have hpass : ((u.ledger k).counted check.documents check.bytes).WithinCaps := by
        have hguard : k ∈ guard.ledgers := hfront.subset hk
        obtain ⟨hdocuments, hbytes⟩ := hfits' k
        rw [charged_append, charged_singleton, if_pos hguard] at hdocuments hbytes
        rw [hu, h k, BudgetLedger.counted_counted]
        exact BudgetLedger.withinCaps_fresh_counted.mpr ⟨hdocuments, hbytes⟩
      rw [interp_op_eq_ok (by omega) hpass] at hrefused
      cases hrefused
    have hzero_of_kept : guard.ConsumesOnlyAdmitted check w →
        check.documents = 0 ∧ check.bytes = 0 := by
      intro hkept
      obtain ⟨hdocuments, hbytes⟩ := hkept.1 e herror k (hfront.subset hk)
      rw [← hv, hledger k, if_pos hk] at hdocuments hbytes
      exact ⟨Nat.add_eq_left.mp hdocuments, Nat.add_eq_left.mp hbytes⟩
    refine ⟨⟨fun hkept => ?_, fun hfits' => ⟨fun _ _ j _ => ?_, fun hok => ?_⟩⟩, fun hfits' => ?_⟩
    · have hzero := hzero_of_kept hkept
      have hcounted : Counted config scope (calls ++ [(guard, check)]) v :=
        h.append_idle hzero (hidle hzero)
      refine hcounted.withinCaps_iff.mp fun j => ?_
      rw [hidle hzero]
      exact hwithin j
    · rw [← hv, hidle (hzero_of_fits hfits')]
      exact ⟨rfl, rfl⟩
    · rw [herror] at hok
      cases hok
    · exact h.append_idle (hzero_of_fits hfits') (hidle (hzero_of_fits hfits'))

/-- The places of a list that goes on with one more entry. -/
theorem forall_split_append_singleton {A : Type} {xs : List A} {y : A} {P : List A → A → Prop} :
    (∀ before x after, xs ++ [y] = before ++ x :: after → P before x) ↔
      (∀ before x after, xs = before ++ x :: after → P before x) ∧ P xs y := by
  constructor
  · intro h
    refine ⟨fun before x after hsplit => h before x (after ++ [y]) ?_, h xs y [] rfl⟩
    rw [hsplit, List.append_assoc, List.cons_append]
  · rintro ⟨hxs, hy⟩ before x after hsplit
    rcases List.eq_nil_or_concat after with rfl | ⟨after, z, rfl⟩
    · obtain ⟨rfl, hxy⟩ := List.append_inj' hsplit rfl
      obtain rfl : y = x := List.head_eq_of_cons_eq hxy
      exact hy
    · rw [List.concat_eq_append, ← List.cons_append, ← List.append_assoc] at hsplit
      exact hxs before x after (List.append_inj_left' hsplit rfl)

theorem refusalsConsumeNothing_append {call : BudgetGuard M × Check} :
    RefusalsConsumeNothing (calls ++ [call]) w ↔
      RefusalsConsumeNothing calls w ∧
        call.1.ConsumesOnlyAdmitted call.2 (afterChecks calls w) :=
  forall_split_append_singleton

/-- In a sequence of calls that guards sharing the ledger of the run make, every refusal consumes
nothing and everything that passes is within the caps, if and only if no ledger is asked for more
documents or bytes than its caps. -/
theorem refusals_consume_nothing_iff (config : LedgerId M → LLMBudgetConfig)
    (scope : LedgerId M → String) (calls : List (BudgetGuard M × Check)) :
    RefusalsConsumeNothing calls (freshLedgers config scope) ↔
      ∀ k, (∀ cap ∈ (config k).maxDocuments, charged Check.documents calls k ≤ cap) ∧
        ∀ cap ∈ (config k).maxTotalBytes, charged Check.bytes calls k ≤ cap := by
  suffices h : (RefusalsConsumeNothing calls (freshLedgers config scope) ↔ Fits config calls) ∧
      (Fits config calls →
        Counted config scope calls (afterChecks calls (freshLedgers config scope))) from h.1
  induction calls using List.reverseRecOn with
  | nil =>
    refine ⟨⟨fun _ k => ?_, fun _ before call after h => ?_⟩, fun _ k => rfl⟩
    · exact ⟨fun cap _ => Nat.zero_le _, fun cap _ => Nat.zero_le _⟩
    · simp at h
  | append_singleton calls call ih =>
    obtain ⟨hiff, hcounted⟩ := ih
    have hafter : afterChecks (calls ++ [call]) (freshLedgers config scope) =
        ((call.1.check call.2).exec ledgerInterp
          (afterChecks calls (freshLedgers config scope))).1 := by
      rw [afterChecks, List.foldl_append]
      rfl
    rw [hafter, refusalsConsumeNothing_append, hiff]
    refine ⟨⟨fun ⟨hfits, hkept⟩ => ?_, fun hfits => ?_⟩, fun hfits => ?_⟩
    · exact ((hcounted hfits).step hfits call.1 call.2).1.mp hkept
    · have hbefore := hfits.of_append
      exact ⟨hbefore, ((hcounted hbefore).step hbefore call.1 call.2).1.mpr hfits⟩
    · have hbefore := hfits.of_append
      exact ((hcounted hbefore).step hbefore call.1 call.2).2 hfits

/-- A run with a cap of three documents, and no caps for its models. -/
def threeDocuments : LedgerId ℕ → LLMBudgetConfig
  | .model _ => .unlimited
  | .run => { LLMBudgetConfig.unlimited with maxDocuments := some 3 }

/-- A model that is refused five documents has counted them in the ledger of the run, so that another
model is refused the single one it has. -/
theorem refused_documents_count :
    (∃ e, ((BudgetGuard.check ⟨some 0, true, none⟩ (.chargeDocuments 5)).exec ledgerInterp
      (freshLedgers threeDocuments fun _ => "run")).2 = .error e) ∧
    ((afterChecks [(⟨some 0, true, none⟩, .chargeDocuments 5)]
      (freshLedgers threeDocuments fun _ => "run")).ledger .run).documents = 5 ∧
    (∃ e, ((BudgetGuard.check ⟨some 1, true, none⟩ (.chargeDocuments 1)).exec ledgerInterp
      (afterChecks [(⟨some 0, true, none⟩, .chargeDocuments 5)]
        (freshLedgers threeDocuments fun _ => "run"))).2 = .error e) ∧
    ¬ RefusalsConsumeNothing
      [(⟨some 0, true, none⟩, .chargeDocuments 5), (⟨some 1, true, none⟩, .chargeDocuments 1)]
      (freshLedgers threeDocuments fun _ => "run") := by
  refine ⟨⟨_, rfl⟩, rfl, ⟨_, rfl⟩, fun h => ?_⟩
  have hkept := (h [] _ _ rfl).1 _ rfl .run (by decide)
  have hdocuments : (5 : ℕ) = 0 := hkept.1
  cases hdocuments

end Stel.Budget
