import Mathlib.Data.List.Forall2

/-!
# Patterns of components

A pattern is a list of components, some of which are stars. A star stands for any number of components
of a path, and every other component of the pattern for one that fits it.

## Main definitions

* `Glob.Matches`: a path is cut into one segment for each component of the pattern.

## Main results

* `Glob.matches_nil_left`, `Glob.matches_cons_star`, `Glob.matches_cons_part`: by the first component.
-/

namespace Stel.Glob

variable {α β : Type} (isStar : β → Prop) (fits : α → β → Prop)

/-- What a component of a pattern stands for. -/
def Covers (p : β) (segment : List α) : Prop := isStar p ∨ ∃ c, segment = [c] ∧ fits c p

/-- The path is cut into one segment for each component of the pattern. -/
def Matches (pattern : List β) (path : List α) : Prop :=
  ∃ segments : List (List α), segments.flatten = path ∧ List.Forall₂ (Covers isStar fits) pattern segments

variable {isStar fits} {p : β} {pattern : List β} {path : List α}

@[simp] theorem matches_nil_left : Matches isStar fits [] path ↔ path = [] := by
  constructor
  · rintro ⟨segments, rfl, h⟩
    rw [List.forall₂_nil_left_iff.mp h]
    rfl
  · rintro rfl
    exact ⟨[], rfl, .nil⟩

/-- A star stands for nothing, or for one more component. -/
theorem matches_cons_star (hp : isStar p) : Matches isStar fits (p :: pattern) path ↔
    Matches isStar fits pattern path ∨ ∃ c rest, path = c :: rest ∧ Matches isStar fits (p :: pattern) rest := by
  constructor
  · rintro ⟨segments, rfl, h⟩
    obtain ⟨segment, segments, -, hrest, rfl⟩ := List.forall₂_cons_left_iff.mp h
    cases segment with
    | nil => exact .inl ⟨segments, rfl, hrest⟩
    | cons c segment => exact .inr ⟨c, _, rfl, segment :: segments, rfl, .cons (.inl hp) hrest⟩
  · rintro (⟨segments, rfl, h⟩ | ⟨c, rest, rfl, segments, rfl, h⟩)
    · exact ⟨[] :: segments, rfl, .cons (.inl hp) h⟩
    · obtain ⟨segment, segments, -, hrest, rfl⟩ := List.forall₂_cons_left_iff.mp h
      exact ⟨(c :: segment) :: segments, rfl, .cons (.inl hp) hrest⟩

/-- A component that is not a star stands for one component. -/
theorem matches_cons_part (hp : ¬ isStar p) : Matches isStar fits (p :: pattern) path ↔
    ∃ c rest, path = c :: rest ∧ fits c p ∧ Matches isStar fits pattern rest := by
  constructor
  · rintro ⟨segments, rfl, h⟩
    obtain ⟨segment, segments, hcovers, hrest, rfl⟩ := List.forall₂_cons_left_iff.mp h
    obtain ⟨c, rfl, hfits⟩ := hcovers.resolve_left hp
    exact ⟨c, _, rfl, hfits, segments, rfl, hrest⟩
  · rintro ⟨c, rest, rfl, hfits, segments, rfl, h⟩
    exact ⟨[c] :: segments, rfl, .cons (.inr ⟨c, rfl, hfits⟩) h⟩

end Stel.Glob
