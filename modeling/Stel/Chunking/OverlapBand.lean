import Stel.Chunking.Placement

/-!
# The band of the overlap tail

`_overlap_tail` looks for separators that start in a band of the text, and starts the tail after
the separator. The bounds are those of the start, so a separator of two characters that starts on
the last position of the band leaves a tail that is shorter than the band allows.

## Main definitions

* `leastTail`: half the overlap, and at least one character.
* `InReach`: the positions at which a separator is looked for.
* `InBand`: what a tail of about `overlap` characters is.
* `Overshoots`: the separator that is taken has two characters and starts on the last position.

## Main results

* `overlapTail_cases`: the separator that the tail starts after.
* `inBand_overlapTail_iff`: the tail is in its band unless the separator overshoots.
-/

namespace Stel.Chunking

/-- The least length of a tail. -/
def leastTail (overlap : ℕ) : ℕ := max 1 (overlap / 2)

/-- The separators that can be found in a text. -/
def tailSeparators : List (List Char) := recursiveSeparators.filter (· ≠ [])

/-- A separator is looked for at the positions from twice the overlap before the end of the text
on, while more than the least tail follows. -/
def InReach (text : List Char) (overlap p : ℕ) : Prop :=
  text.length ≤ p + 2 * overlap ∧ p + leastTail overlap < text.length

/-- A separator starts at a position of the text. -/
def StartsAt (sep text : List Char) (p : ℕ) : Prop := sep <+: text.drop p

/-- A tail of about `overlap` characters: it starts just after a separator or has exactly
`overlap` characters. -/
structure InBand (text : List Char) (overlap : ℕ) (tail : List Char) : Prop where
  suffix : tail <:+ text
  least : max 1 (overlap / 2) ≤ tail.length
  most : tail.length ≤ 2 * overlap
  boundary : (∃ sep ∈ tailSeparators, sep ++ tail <:+ text) ∨
    tail = text.drop (text.length - overlap)

/-- The first separator of the hierarchy that starts within reach has two characters, it starts on
the last position within reach, and everywhere else it starts too far before it. -/
def Overshoots (text : List Char) (overlap : ℕ) : Prop :=
  ∃ before sep after, tailSeparators = before ++ sep :: after ∧ sep.length = 2 ∧
    (∀ sep' ∈ before, ∀ p, InReach text overlap p → ¬ StartsAt sep' text p) ∧
    StartsAt sep text (text.length - leastTail overlap - 1) ∧
    ∀ p, InReach text overlap p → StartsAt sep text p →
      p < text.length - leastTail overlap - 1 →
        p + 2 * overlap + 3 < text.length + leastTail overlap

/-! ### The nearest candidate -/

section Nearest

variable {target q : ℕ} {l : List ℕ}

theorem nearest_eq_none : nearest target l = none ↔ l = [] := by
  cases l with
  | nil => simp [nearest]
  | cons p l =>
    rw [nearest]
    split
    · simp
    · split <;> simp

/-- Of increasing candidates the first of the nearest ones is taken. -/
theorem nearest_spec (hl : l.Pairwise (· < ·)) (h : nearest target l = some q) :
    q ∈ l ∧ ∀ p ∈ l, Nat.dist q target < Nat.dist p target ∨
      Nat.dist q target = Nat.dist p target ∧ q ≤ p := by
  induction l generalizing q with
  | nil => cases h
  | cons p l ih =>
    obtain ⟨hp, hl⟩ := List.pairwise_cons.mp hl
    rw [nearest] at h
    cases hrest : nearest target l with
    | none =>
      rw [hrest] at h
      obtain rfl := Option.some.inj h
      obtain rfl := nearest_eq_none.mp hrest
      simp
    | some r =>
      rw [hrest] at h
      obtain ⟨hr, hfirst⟩ := ih hl hrest
      have hlt := hp r hr
      by_cases hle : Nat.dist p target ≤ Nat.dist r target
      · obtain rfl := Option.some.inj ((if_pos hle).symm.trans h)
        refine ⟨List.mem_cons_self, fun x hx => ?_⟩
        rcases List.mem_cons.mp hx with rfl | hx
        · exact .inr ⟨rfl, le_rfl⟩
        · have hpx := hp x hx
          rcases hfirst x hx with hxr | ⟨hxr, -⟩ <;> omega
      · obtain rfl := Option.some.inj ((if_neg hle).symm.trans h)
        refine ⟨List.mem_cons_of_mem _ hr, fun x hx => ?_⟩
        rcases List.mem_cons.mp hx with rfl | hx
        · exact .inl (by omega)
        · exact hfirst x hx

end Nearest

/-! ### The separator of the tail -/

section Tail

variable {text sep : List Char} {overlap p : ℕ}

theorem StartsAt.lt_length (h : StartsAt sep text p) (hsep : sep ≠ []) :
    p + sep.length ≤ text.length := by
  have hle := h.length_le
  have hpos := List.length_pos_of_ne_nil hsep
  rw [List.length_drop] at hle
  omega

/-- The candidates of a separator are the positions after its starts within reach. -/
theorem mem_tailCandidates (hsep : sep ≠ []) {q : ℕ} :
    q ∈ tailCandidates sep text (text.length - 2 * overlap) (text.length - max 1 (overlap / 2)) ↔
      ∃ p, InReach text overlap p ∧ StartsAt sep text p ∧ p + sep.length = q := by
  simp only [tailCandidates, List.mem_map, List.mem_filter, List.mem_range, decide_eq_true_eq]
  constructor
  · rintro ⟨p, ⟨hp, hearly, hlate, hstart⟩, hq⟩
    refine ⟨p, ⟨?_, ?_⟩, hstart, hq⟩
    · omega
    · unfold leastTail
      omega
  · rintro ⟨p, ⟨hearly, hlate⟩, hstart, hq⟩
    have hle := StartsAt.lt_length hstart hsep
    have hpos := List.length_pos_of_ne_nil hsep
    unfold leastTail at hlate
    exact ⟨p, ⟨by omega, by omega, by omega, hstart⟩, hq⟩

theorem pairwise_tailCandidates (sep text : List Char) (earliest latest : ℕ) :
    (tailCandidates sep text earliest latest).Pairwise (· < ·) := by
  refine (List.Pairwise.filter _ List.pairwise_lt_range).map _ fun a b hab => ?_
  exact Nat.add_lt_add_right hab _

theorem ne_nil_of_mem_tailSeparators (h : sep ∈ tailSeparators) : sep ≠ [] := by
  simpa using (List.mem_filter.mp h).2

theorem length_le_two_of_mem (h : sep ∈ tailSeparators) : sep.length ≤ 2 := by
  revert sep
  decide

/-- Either no separator starts within reach and the tail has exactly `overlap` characters, or it
starts after the first separator of the hierarchy that does, at a nearest position. -/
theorem overlapTail_cases (hpos : 0 < overlap) (hlt : overlap < text.length) :
    ((∀ sep ∈ tailSeparators, ∀ p, InReach text overlap p → ¬ StartsAt sep text p) ∧
      overlapTail text overlap = text.drop (text.length - overlap)) ∨
    ∃ before sep after p, tailSeparators = before ++ sep :: after ∧
      (∀ sep' ∈ before, ∀ p, InReach text overlap p → ¬ StartsAt sep' text p) ∧
      InReach text overlap p ∧ StartsAt sep text p ∧
      nearest (text.length - overlap) (tailCandidates sep text (text.length - 2 * overlap)
        (text.length - max 1 (overlap / 2))) = some (p + sep.length) ∧
      overlapTail text overlap = text.drop (p + sep.length) := by
  have hfound : overlapTail text overlap = text.drop ((tailSeparators.findSome? fun sep =>
      nearest (text.length - overlap) (tailCandidates sep text (text.length - 2 * overlap)
        (text.length - max 1 (overlap / 2)))).getD (text.length - overlap)) := by
    have hne : ¬ (overlap = 0 ∨ text = []) := by
      rintro (rfl | rfl)
      · exact absurd hpos (lt_irrefl 0)
      · exact absurd hlt (Nat.not_lt_zero _)
    rw [overlapTail, if_neg hne, if_neg (Nat.not_le.mpr hlt)]
    rfl
  have hnone : ∀ sep ∈ tailSeparators, nearest (text.length - overlap) (tailCandidates sep text
      (text.length - 2 * overlap) (text.length - max 1 (overlap / 2))) = none →
      ∀ p, InReach text overlap p → ¬ StartsAt sep text p := by
    intro sep hsep h p hreach hstart
    have hmem := (mem_tailCandidates (ne_nil_of_mem_tailSeparators hsep)).mpr ⟨p, hreach, hstart, rfl⟩
    rw [nearest_eq_none.mp h] at hmem
    exact List.not_mem_nil hmem
  rw [hfound]
  cases h : tailSeparators.findSome? fun sep => nearest (text.length - overlap)
      (tailCandidates sep text (text.length - 2 * overlap) (text.length - max 1 (overlap / 2))) with
  | none =>
    refine .inl ⟨fun sep hsep => hnone sep hsep (List.findSome?_eq_none_iff.mp h sep hsep), rfl⟩
  | some q =>
    obtain ⟨before, sep, after, hsplit, hnearest, hbefore⟩ := List.findSome?_eq_some_iff.mp h
    have hmem : ∀ sep' ∈ before ++ [sep], sep' ∈ tailSeparators := by
      intro sep' hsep'
      rw [hsplit, List.append_cons]
      exact List.mem_append_left _ hsep'
    have hsep := hmem sep (by simp)
    obtain ⟨p, hreach, hstart, rfl⟩ := (mem_tailCandidates (ne_nil_of_mem_tailSeparators hsep)).mp
      (nearest_spec (pairwise_tailCandidates _ _ _ _) hnearest).1
    exact .inr ⟨before, sep, after, p, hsplit, fun sep' hsep' =>
      hnone sep' (hmem sep' (List.mem_append_left _ hsep')) (hbefore sep' hsep'), hreach, hstart,
      hnearest, rfl⟩

/-- Two elements that come first in a list in the same sense are the same. -/
theorem eq_of_first {α : Type} {a b : α} {before before' after after' : List α}
    (h : before ++ a :: after = before' ++ b :: after') (ha : a ∉ before') (hb : b ∉ before) :
    a = b := by
  rcases List.append_eq_append_iff.mp h with ⟨middle, hmiddle, hrest⟩ | ⟨middle, hmiddle, hrest⟩
  · cases middle with
    | nil => exact (List.cons.inj hrest).1
    | cons c middle =>
      obtain rfl := (List.cons.inj hrest).1
      exact absurd (hmiddle ▸ List.mem_append_right _ List.mem_cons_self) ha
  · cases middle with
    | nil => exact (List.cons.inj hrest).1.symm
    | cons c middle =>
      obtain rfl := (List.cons.inj hrest).1
      exact absurd (hmiddle ▸ List.mem_append_right _ List.mem_cons_self) hb

/-- The last position within reach. -/
theorem inReach_last (hpos : 0 < overlap) (hlt : overlap < text.length) :
    InReach text overlap (text.length - leastTail overlap - 1) := by
  unfold InReach leastTail
  omega

/-- The tail is in its band exactly if the separator does not overshoot. -/
theorem inBand_overlapTail_iff (hpos : 0 < overlap) (hlt : overlap < text.length) :
    InBand text overlap (overlapTail text overlap) ↔ ¬ Overshoots text overlap := by
  have hleast : leastTail overlap = max 1 (overlap / 2) := rfl
  have hle : leastTail overlap ≤ overlap := by omega
  rcases overlapTail_cases hpos hlt with ⟨hnone, htail⟩ |
    ⟨before, sep, after, p, hsplit, hbefore, ⟨hearly, hlate⟩, hstart, hnearest, htail⟩
  · have hband : InBand text overlap (overlapTail text overlap) := by
      rw [htail]
      refine ⟨List.drop_suffix _ _, ?_, ?_, .inr rfl⟩
      · rw [List.length_drop]
        omega
      · rw [List.length_drop]
        omega
    refine iff_of_true hband ?_
    rintro ⟨before, sep, after, hsplit, -, -, hstart, -⟩
    exact hnone sep (by rw [hsplit]; simp) _ (inReach_last hpos hlt) hstart
  · have hsep : sep ∈ tailSeparators := by
      rw [hsplit]
      simp
    have hlength := hstart.lt_length (ne_nil_of_mem_tailSeparators hsep)
    have htwo := length_le_two_of_mem hsep
    have hone := List.length_pos_of_ne_nil (ne_nil_of_mem_tailSeparators hsep)
    obtain ⟨-, hfirst⟩ := nearest_spec (pairwise_tailCandidates _ _ _ _) hnearest
    constructor
    · rintro hband ⟨before', sep', after', hsplit', hlength', hbefore', hstart', hfar⟩
      have hlast := inReach_last hpos hlt
      obtain rfl : sep' = sep := eq_of_first (hsplit'.symm.trans hsplit)
        (fun hmem => hbefore sep' hmem _ hlast hstart') fun hmem => hbefore' sep hmem p ⟨hearly, hlate⟩ hstart
      have hcandidate := hfirst _ ((mem_tailCandidates (ne_nil_of_mem_tailSeparators hsep)).mpr
        ⟨_, hlast, hstart', rfl⟩)
      have hp : p = text.length - leastTail overlap - 1 := by
        by_contra hne
        have hbound := hfar p ⟨hearly, hlate⟩ hstart (by omega)
        unfold Nat.dist at hcandidate
        omega
      have hleastTail := hband.least
      rw [htail, List.length_drop] at hleastTail
      omega
    · intro hsafe
      refine ⟨overlapTail_suffix _ _, ?_, ?_, .inl ⟨sep, hsep, ?_⟩⟩
      · rw [htail, List.length_drop]
        by_contra hshort
        have hp : p = text.length - leastTail overlap - 1 := by omega
        refine hsafe ⟨before, sep, after, hsplit, by omega, hbefore, hp ▸ hstart,
          fun p' hreach hstart' hp' => ?_⟩
        have hfar := hfirst _ ((mem_tailCandidates (ne_nil_of_mem_tailSeparators hsep)).mpr
          ⟨p', hreach, hstart', rfl⟩)
        obtain ⟨hearly', -⟩ := hreach
        unfold Nat.dist at hfar
        omega
      · rw [htail, List.length_drop]
        omega
      · obtain ⟨rest, hrest⟩ := hstart
        have hdrop : text.drop (p + sep.length) = rest := by
          rw [← List.drop_drop, ← hrest, List.drop_left]
        rw [htail, hdrop, hrest]
        exact List.drop_suffix _ _

end Tail

/-- A tail that starts after a space. -/
theorem inBand_words :
    InBand "one two three".toList 5 (overlapTail "one two three".toList 5) ∧
      ¬ Overshoots "one two three".toList 5 := by
  have htail : overlapTail "one two three".toList 5 = "three".toList := by decide
  have hband : InBand "one two three".toList 5 (overlapTail "one two three".toList 5) := by
    rw [htail]
    exact ⟨⟨"one two ".toList, by decide⟩, by decide, by decide,
      .inl ⟨[' '], by decide, "one two".toList, by decide⟩⟩
  exact ⟨hband, (inBand_overlapTail_iff (by decide) (by decide)).mp hband⟩

/-- A sentence ends two characters before the least tail would start. -/
theorem sentence_overshoots :
    ¬ ∀ (text : List Char) (overlap : ℕ), 0 < overlap → overlap < text.length →
      InBand text overlap (overlapTail text overlap) := by
  intro h
  have hband := (h "abcdef. g".toList 4 (by decide) (by decide)).least
  revert hband
  decide

end Stel.Chunking
