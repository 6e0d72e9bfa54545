import Mathlib.Data.List.Basic
import Mathlib.Logic.Function.Basic

/-!
# Prefix-free encodings

Encodings of values as texts in which an encoded value is determined by any text that starts with
it, so that encodings of several values can be written one after the other.

## Main definitions

* `PrefixFree`.
* `encodeList`: the entries, each announced by a marker, and an end mark.

## Main results

* `PrefixFree.pair`, `PrefixFree.list`, `PrefixFree.comp`: the composites.
* `PrefixFree.terminated`: the entries up to an end mark that starts no entry.
* `PrefixFree.of_decode`: encodings that a decoder reads back.
* `prefixFree_text`, `prefixFree_nat`: texts and numbers.
-/

namespace Stel

variable {α β : Type}

/-- An encoded value is determined by any text that starts with it. -/
def PrefixFree (e : α → List Char) : Prop :=
  ∀ ⦃a b x y⦄, e a ++ x = e b ++ y → a = b ∧ x = y

/-- The encodings of the entries, each after a marker, and an end mark. -/
def encodeList (e : α → List Char) : List α → List Char
  | [] => ['.']
  | a :: as => ',' :: (e a ++ encodeList e as)

namespace PrefixFree

variable {e : α → List Char} {f : β → List Char}

theorem injective (he : PrefixFree e) : Function.Injective e := by
  intro a b h
  exact (he (x := []) (y := []) (by rw [h])).1

theorem pair (he : PrefixFree e) (hf : PrefixFree f) :
    PrefixFree fun p : α × β => e p.1 ++ f p.2 := by
  rintro ⟨a, b⟩ ⟨a', b'⟩ x y h
  simp only [List.append_assoc] at h
  obtain ⟨rfl, hrest⟩ := he h
  obtain ⟨rfl, hxy⟩ := hf hrest
  exact ⟨rfl, hxy⟩

theorem comp (he : PrefixFree e) {g : β → α} (hg : Function.Injective g) :
    PrefixFree fun b => e (g b) := by
  intro a b x y h
  obtain ⟨hab, hxy⟩ := he h
  exact ⟨hg hab, hxy⟩

theorem list (he : PrefixFree e) : PrefixFree (encodeList e) := by
  intro as
  induction as with
  | nil =>
    intro bs x y h
    cases bs with
    | nil => exact ⟨rfl, (List.cons.inj h).2⟩
    | cons b bs => exact absurd (List.cons.inj h).1 (by decide)
  | cons a as ih =>
    intro bs x y h
    cases bs with
    | nil => exact absurd (List.cons.inj h).1 (by decide)
    | cons b bs =>
      have htail : e a ++ encodeList e as ++ x = e b ++ encodeList e bs ++ y :=
        (List.cons.inj h).2
      rw [List.append_assoc, List.append_assoc] at htail
      obtain ⟨rfl, hrest⟩ := he htail
      obtain ⟨rfl, hxy⟩ := ih hrest
      exact ⟨rfl, hxy⟩

theorem of_decode {decode : List Char → Option (α × List Char)}
    (h : ∀ a x, decode (e a ++ x) = some (a, x)) : PrefixFree e := by
  intro a b x y hab
  have hread := h a x
  rw [hab, h b y] at hread
  obtain ⟨rfl, rfl⟩ := Prod.mk.inj (Option.some.inj hread)
  exact ⟨rfl, rfl⟩

/-- The encodings of the entries and an end mark, if no encoding starts with the mark. -/
theorem terminated (he : PrefixFree e) {mark : Char}
    (hmark : ∀ a x y, e a ++ x ≠ mark :: y) : PrefixFree fun as : List α => as.flatMap e ++ [mark] := by
  intro as
  induction as with
  | nil =>
    intro bs x y h
    cases bs with
    | nil => exact ⟨rfl, (List.cons.inj h).2⟩
    | cons b bs =>
      simp only [List.flatMap_nil, List.nil_append, List.flatMap_cons, List.append_assoc] at h
      exact absurd h.symm (hmark b _ _)
  | cons a as ih =>
    intro bs x y h
    cases bs with
    | nil =>
      simp only [List.flatMap_nil, List.nil_append, List.flatMap_cons, List.append_assoc] at h
      exact absurd h (hmark a _ _)
    | cons b bs =>
      simp only [List.flatMap_cons, List.append_assoc] at h
      obtain ⟨rfl, hrest⟩ := he h
      obtain ⟨rfl, hxy⟩ := ih (by simpa only [List.append_assoc] using hrest)
      exact ⟨rfl, hxy⟩

end PrefixFree

theorem prefixFree_char : PrefixFree fun c : Char => [c] := by
  intro a b x y h
  exact List.cons.inj h

/-- The encoding of a text. -/
def encodeText (s : String) : List Char := encodeList (fun c => [c]) s.toList

theorem prefixFree_text : PrefixFree encodeText :=
  prefixFree_char.list.comp fun _ _ h => String.toList_inj.mp h

/-- The encoding of a number by its decimal digits. -/
def encodeNat (n : ℕ) : List Char := encodeList (fun c => [c]) (Nat.toDigits 10 n)

theorem prefixFree_nat : PrefixFree encodeNat := by
  refine prefixFree_char.list.comp fun m n h => ?_
  have hvalue := congrArg (Nat.ofDigitChars 10 · 0) h
  simpa using hvalue

end Stel
