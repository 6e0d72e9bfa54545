import Mathlib.Data.List.Sort
import Mathlib.Order.Interval.Set.Basic

/-!
# Half-open intervals that may be open-ended

Intervals of a linear order with an inclusive start and an exclusive end, which may be missing.

## Main definitions

* `Interval`, `Interval.Contains`, `Interval.Proper`: the intervals, their instants, and those that
  have one.
* `Interval.Before`: an interval ends before another one starts.
* `Interval.Disjoint`: two intervals without a common instant.

## Main results

* `Interval.pairwise_iff_isChain`: sorted proper intervals are pairwise disjoint if and only if each
  is before the next one.
-/

namespace Stel

/-- An interval with an inclusive start and an exclusive end, if it has one. -/
structure Interval (τ : Type*) where
  start : τ
  stop : Option τ
  deriving DecidableEq

namespace Interval

variable {τ : Type*} [LinearOrder τ] {a b c : Interval τ}

/-- The interval contains an instant. -/
def Contains (a : Interval τ) (t : τ) : Prop := a.start ≤ t ∧ ∀ e ∈ a.stop, t < e

/-- The interval contains its start. -/
def Proper (a : Interval τ) : Prop := ∀ e ∈ a.stop, a.start < e

/-- An interval ends before another one starts. -/
def Before (a b : Interval τ) : Prop := ∃ e ∈ a.stop, e ≤ b.start

/-- Two intervals have no common instant. -/
def Disjoint (a b : Interval τ) : Prop := ∀ t, ¬ (a.Contains t ∧ b.Contains t)

theorem Proper.contains_start (h : a.Proper) : a.Contains a.start := ⟨le_rfl, h⟩

theorem Disjoint.symm (h : a.Disjoint b) : b.Disjoint a := fun t ht => h t ht.symm

theorem Before.disjoint (h : a.Before b) : a.Disjoint b := by
  rintro t ⟨⟨-, ha⟩, hb, -⟩
  obtain ⟨e, he, hle⟩ := h
  exact absurd (ha e he) (not_lt.mpr (hle.trans hb))

/-- Of two disjoint intervals, one that does not start later is before the other one. -/
theorem Disjoint.before (h : a.Disjoint b) (hb : b.Proper) (hstart : a.start ≤ b.start) :
    a.Before b := by
  by_contra hnot
  refine h b.start ⟨⟨hstart, fun e he => ?_⟩, hb.contains_start⟩
  by_contra hle
  exact hnot ⟨e, he, not_lt.mp hle⟩

theorem Before.trans (hab : a.Before b) (hbc : b.Before c) (hb : b.Proper) : a.Before c := by
  obtain ⟨e, he, hle⟩ := hab
  obtain ⟨e', he', hle'⟩ := hbc
  exact ⟨e, he, hle.trans ((hb e' he').le.trans hle')⟩

/-- Proper intervals of which each is before the next one are before all later ones. -/
theorem pairwise_of_isChain {l : List (Interval τ)} (hproper : ∀ a ∈ l, a.Proper)
    (h : l.IsChain Before) : l.Pairwise Before := by
  induction l with
  | nil => exact .nil
  | cons a l ih =>
    cases l with
    | nil => exact List.pairwise_singleton _ _
    | cons b l =>
      obtain ⟨hab, hchain⟩ := List.isChain_cons_cons.mp h
      have htail := ih (fun c hc => hproper c (List.mem_cons_of_mem _ hc)) hchain
      refine List.pairwise_cons.mpr ⟨fun c hc => ?_, htail⟩
      rcases List.mem_cons.mp hc with rfl | hc
      · exact hab
      · exact hab.trans (List.rel_of_pairwise_cons htail hc) (hproper b (by simp))

/-- Sorted proper intervals are pairwise disjoint exactly if each is before the next one. -/
theorem pairwise_iff_isChain {l : List (Interval τ)} (hproper : ∀ a ∈ l, a.Proper)
    (hsorted : l.Pairwise fun a b => a.start ≤ b.start) :
    l.Pairwise Disjoint ↔ l.IsChain Before := by
  constructor
  · intro h
    refine List.Pairwise.isChain ((hsorted.and h).imp_of_mem fun {a b} _ hb hab => ?_)
    exact hab.2.before (hproper b hb) hab.1
  · intro h
    exact (pairwise_of_isChain hproper h).imp Before.disjoint

end Interval

end Stel
