import Mathlib.Data.List.Basic
import Mathlib.Order.Lattice

/-!
# Pages of a sorted list

A sorted list that is read in pages, where each page but the first holds what comes after the last key of
the page before it, which a cursor stands for.

## Main definitions

* `Delivered`: the key after which a page begins, if a number of entries was delivered.
* `Followed`: the replies to a caller that follows the cursors.

## Main results

* `Delivered.filter_eq_drop`: what comes after the key is the rest of the list.
* `delivered_next`: a page moves the key past its entries.
* `Followed.holds`: the replies hold every entry once, and the cursor is missing when all are delivered.
-/

namespace Stel

variable {α κ : Type} {key : α → κ} {entries : List α} {count limit : ℕ}
  {after : Option κ}

/-- A number of entries was delivered: none, and there is no key, or the last one of them has the key. -/
def Delivered (key : α → κ) (entries : List α) (count : ℕ) (after : Option κ) : Prop :=
  (count = 0 ∧ after = none) ∨
    ∃ last, (entries.take count).getLast? = some last ∧ count ≤ entries.length ∧ after = some (key last)

theorem delivered_zero : Delivered key entries 0 none := .inl ⟨rfl, rfl⟩

namespace Delivered

theorem le_length (h : Delivered key entries count after) : count ≤ entries.length := by
  obtain ⟨rfl, -⟩ | ⟨_, -, hle, -⟩ := h
  · exact Nat.zero_le _
  · exact hle

/-- What comes after the key is the rest of the list. -/
theorem filter_eq_drop [LinearOrder κ] (h : Delivered key entries count after)
    (hsorted : entries.Pairwise fun a b => key a < key b) :
    (entries.filter fun entry => after.all (· < key entry)) = entries.drop count := by
  obtain ⟨rfl, rfl⟩ | ⟨last, hlast, -, rfl⟩ := h
  · simp
  · have hsplit := List.take_append_drop count entries
    rw [← hsplit, List.pairwise_append] at hsorted
    obtain ⟨htake, -, hcross⟩ := hsorted
    have hmem := List.mem_of_getLast? hlast
    conv_lhs => rw [← hsplit]
    rw [List.filter_append]
    have hnone : ((entries.take count).filter fun entry => (some (key last)).all (· < key entry)) = [] := by
      refine List.filter_eq_nil_iff.mpr fun entry hentry => ?_
      obtain ⟨front, hfront⟩ := List.getLast?_eq_some_iff.mp hlast
      rw [hfront] at hentry htake
      have hle : key entry ≤ key last := by
        obtain hentry | hentry := List.mem_append.mp hentry
        · exact ((List.pairwise_append.mp htake).2.2 entry hentry last List.mem_cons_self).le
        · exact (congrArg key (List.mem_singleton.mp hentry)).le
      simpa using hle
    have hall : ((entries.drop count).filter fun entry => (some (key last)).all (· < key entry)) =
        entries.drop count := by
      refine List.filter_eq_self.mpr fun entry hentry => ?_
      simpa using hcross last hmem entry hentry
    rw [hnone, hall, List.nil_append]

end Delivered

/-- A page moves the key past its entries. -/
theorem delivered_next (key : α → κ) (hlimit : 0 < limit) (hmore : count < entries.length) :
    ∃ last, ((entries.drop count).take limit).getLast? = some last ∧
      Delivered key entries (count + ((entries.drop count).take limit).length) (some (key last)) := by
  have hpage : (entries.drop count).take limit ≠ [] := by
    rw [Ne, List.take_eq_nil_iff, List.drop_eq_nil_iff]
    omega
  refine ⟨((entries.drop count).take limit).getLast hpage, List.getLast?_eq_some_getLast hpage,
    .inr ⟨_, ?_, ?_, rfl⟩⟩
  · have htake : entries.take (count + ((entries.drop count).take limit).length) =
        entries.take count ++ (entries.drop count).take limit := by
      rw [List.take_add, List.length_take, ← List.take_take, List.take_length]
    rw [htake, List.getLast?_append_of_ne_nil _ hpage, List.getLast?_eq_some_getLast hpage]
  · rw [List.length_take, List.length_drop]
    omega

/-! ### Replies with cursors -/

section Follow

variable {γ ρ β : Type} {Reply : Option γ → ρ → Prop} {next : ρ → Option γ} {cursor : Option γ}
  {replies : List ρ}

/-- The replies to a caller that requests the page after a cursor, and goes on with the cursor of each
reply. -/
inductive Followed (Reply : Option γ → ρ → Prop) (next : ρ → Option γ) : Option γ → List ρ → Prop
  | last {cursor : Option γ} {reply : ρ} (hreply : Reply cursor reply) :
      Followed Reply next cursor [reply]
  | next {cursor : Option γ} {reply : ρ} {c : γ} {replies : List ρ} (hreply : Reply cursor reply)
      (hnext : next reply = some c) (hreplies : Followed Reply next (some c) replies) :
      Followed Reply next cursor (reply :: replies)

theorem Followed.exists_first (h : Followed Reply next cursor replies) :
    replies ≠ [] ∧ ∃ reply, Reply cursor reply := by
  cases h with
  | last hreply => exact ⟨List.cons_ne_nil _ _, _, hreply⟩
  | next hreply _ _ => exact ⟨List.cons_ne_nil _ _, _, hreply⟩

/-- A page and the entries after it are what comes after a number of entries. -/
theorem page_append_drop (entries : List α) (count limit : ℕ) : (entries.drop count).take limit ++
    entries.drop (count + ((entries.drop count).take limit).length) = entries.drop count := by
  rw [← List.drop_drop, List.length_take]
  conv_lhs => rw [List.take_eq_take_min]
  exact List.take_append_drop _ _

/-- Replies that are pages, with cursors that stand for the keys of their last entries, hold the entries in
their order, without gaps; the cursor is missing exactly if all of them were delivered, and every page but
that of an empty list holds an entry. -/
theorem Followed.holds {project : α → β} (items : ρ → List β) (key : α → κ) (encode : α → γ)
    (Reads : Option γ → Option κ → Prop) (hreads : ∀ entry, Reads (some (encode entry)) (some (key entry)))
    (hpage : ∀ {cursor count after reply}, Reply cursor reply → Reads cursor after →
      Delivered key entries count after → ∃ limit, 0 < limit ∧
        items reply = ((entries.drop count).take limit).map project ∧
        next reply = if count + ((entries.drop count).take limit).length < entries.length then
          ((entries.drop count).take limit).getLast?.map encode else none)
    (h : Followed Reply next cursor replies) (hcursor : Reads cursor after)
    (hdelivered : Delivered key entries count after) :
    replies.flatMap items <+: (entries.drop count).map project ∧
      ((∃ last, replies.getLast? = some last ∧ next last = none) ↔
        replies.flatMap items = (entries.drop count).map project) ∧
      replies.length ≤ max 1 (entries.length - count) := by
  induction h generalizing count after with
  | @last cursor reply hreply =>
    obtain ⟨limit, hlimit, hitems, hnext⟩ := hpage hreply hcursor hdelivered
    have hsplit := page_append_drop entries count limit
    rw [List.flatMap_singleton, hitems]
    refine ⟨(List.take_prefix _ _).map _, ?_, Nat.le_max_left 1 _⟩
    constructor
    · rintro ⟨last, hlast, hnone⟩
      obtain rfl : reply = last := by simpa using hlast
      by_cases hmore : count + ((entries.drop count).take limit).length < entries.length
      · obtain ⟨last, hlast, -⟩ := delivered_next key hlimit (by omega : count < entries.length)
        rw [hnext, if_pos hmore, hlast] at hnone
        cases hnone
      · conv_rhs => rw [← hsplit, List.drop_eq_nil_of_le (not_lt.mp hmore), List.append_nil]
    · intro hall
      refine ⟨reply, rfl, hnext.trans (if_neg ?_)⟩
      have hlength := congrArg List.length hall
      simp only [List.length_map, List.length_drop] at hlength
      omega
  | @next cursor reply c replies hreply hnext hreplies ih =>
    obtain ⟨limit, hlimit, hitems, hcursor⟩ := hpage hreply hcursor hdelivered
    rw [hnext] at hcursor
    split_ifs at hcursor with hmore
    obtain ⟨last, hlast, hdelivered'⟩ := delivered_next key hlimit (by omega : count < entries.length)
    rw [hlast, Option.map_some, Option.some.injEq] at hcursor
    obtain ⟨hreceived, hdone, hlength⟩ := ih (hcursor ▸ hreads last) hdelivered'
    have hmap := congrArg (List.map project) (page_append_drop entries count limit)
    rw [List.map_append] at hmap
    rw [List.flatMap_cons, hitems, ← hmap]
    refine ⟨(List.prefix_append_right_inj _).mpr hreceived, ?_, ?_⟩
    · rw [List.append_cancel_left_eq, ← hdone, List.getLast?_cons,
        List.getLast?_eq_some_getLast hreplies.exists_first.1]
      simp
    · have hpos : ((entries.drop count).take limit).length ≠ 0 := fun hzero => by
        rw [List.length_eq_zero_iff.mp hzero] at hlast
        cases hlast
      rw [List.length_cons]
      omega

end Follow

end Stel
