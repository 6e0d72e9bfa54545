import Mathlib.Data.List.Forall2

/-!
# Exceptions

The exception classes that the modelled functions raise or catch, each with its message.

## Main results

* `bind_eq_ok`, `check_bind_eq_ok`, `mapError_eq_ok`, `mapM_eq_ok`, `forM_eq_ok`: computations that do
  not raise.
-/

namespace Stel

/-- An exception: the classes that some handler distinguishes, and any other one. The four
coordination classes are subclasses of `RetrievalError`. -/
inductive Failure
  | adapterError (message : String)
  | retrievalError (message : String)
  | servingCoordinationError (message : String)
  | servingBusyError (message : String)
  | servingNotReadyError (message : String)
  | staleServingLeaseError (message : String)
  | runError (message : String)
  | other (message : String)
  deriving DecidableEq, Repr

namespace Failure

/-- `isinstance(error, ServingCoordinationError)`. -/
def isCoordination : Failure → Bool
  | servingCoordinationError _ | servingBusyError _ | servingNotReadyError _
  | staleServingLeaseError _ => true
  | _ => false

/-- `isinstance(error, RetrievalError)`. -/
def isRetrieval : Failure → Bool
  | retrievalError _ => true
  | e => e.isCoordination

/-- `str(error)`. -/
def message : Failure → String
  | adapterError m | retrievalError m | servingCoordinationError m | servingBusyError m
  | servingNotReadyError m | staleServingLeaseError m | runError m | other m => m

end Failure

variable {ε α β : Type}

theorem exists_eq_ok_of_isOk {x : Except ε α} (h : x.isOk = true) : ∃ a, x = .ok a := by
  cases x with
  | ok a => exact ⟨a, rfl⟩
  | error e => cases h

/-- A composite does not raise exactly if neither part does. -/
theorem bind_eq_ok {x : Except ε α} {f : α → Except ε β} {b : β} :
    (x >>= f) = .ok b ↔ ∃ a, x = .ok a ∧ f a = .ok b := by
  cases x with
  | ok a =>
    constructor
    · intro h
      exact ⟨a, rfl, h⟩
    · rintro ⟨_, ha, h⟩
      obtain rfl := Except.ok.inj ha
      exact h
  | error e =>
    constructor
    · intro h
      cases h
    · rintro ⟨_, ha, -⟩
      cases ha

theorem exists_bind_eq_ok {x : Except ε α} {f : α → Except ε β}
    (h : ∃ a, x = .ok a ∧ ∃ b, f a = .ok b) : ∃ b, (x >>= f) = .ok b := by
  obtain ⟨a, ha, b, hb⟩ := h
  exact ⟨b, bind_eq_ok.mpr ⟨a, ha, hb⟩⟩

/-- A composite raises exactly if a part does. -/
theorem bind_eq_error {x : Except ε α} {f : α → Except ε β} {e : ε} :
    (x >>= f) = .error e ↔ x = .error e ∨ ∃ a, x = .ok a ∧ f a = .error e := by
  cases x with
  | ok a =>
    constructor
    · intro h
      exact .inr ⟨a, rfl, h⟩
    · rintro (h | ⟨_, ha, h⟩)
      · cases h
      · obtain rfl := Except.ok.inj ha
        exact h
  | error e' =>
    constructor
    · intro h
      exact .inl (congrArg Except.error (Except.error.inj h))
    · rintro (h | ⟨_, ha, -⟩)
      · exact congrArg Except.error (Except.error.inj h)
      · cases ha

theorem map_eq_ok {x : Except ε α} {f : α → β} {b : β} : x.map f = .ok b ↔ ∃ a, x = .ok a ∧ f a = b := by
  cases x <;> simp [Except.map]

theorem map_eq_error {x : Except ε α} {f : α → β} {e : ε} : x.map f = .error e ↔ x = .error e := by
  cases x <;> simp [Except.map]

/-- A check before a computation. -/
theorem check_bind_eq_ok {x : Except ε Unit} {f : Unit → Except ε β} {b : β} :
    (x >>= f) = .ok b ↔ x = .ok () ∧ f () = .ok b := by
  rw [bind_eq_ok]
  exact ⟨fun ⟨(), hx, hf⟩ => ⟨hx, hf⟩, fun ⟨hx, hf⟩ => ⟨(), hx, hf⟩⟩

/-- A handler that raises another exception. -/
theorem mapError_eq_ok {ε' : Type} {x : Except ε α} {f : ε → ε'} {a : α} :
    x.mapError f = .ok a ↔ x = .ok a := by
  cases x <;> simp [Except.mapError]

/-- `if p: raise error`. -/
def raiseIf (p : Prop) [Decidable p] (error : Failure) : Except Failure Unit :=
  if p then .error error else .ok ()

theorem raiseIf_eq_ok {p : Prop} [Decidable p] {error : Failure} :
    raiseIf p error = .ok () ↔ ¬ p := by
  unfold raiseIf
  split
  · rename_i h
    simp [h]
  · rename_i h
    simp [h]

theorem exists_of_mem_right {R : α → β → Prop} {xs : List α} {ys : List β}
    (h : List.Forall₂ R xs ys) {y : β} (hy : y ∈ ys) : ∃ x ∈ xs, R x y := by
  obtain ⟨i, hi, rfl⟩ := List.getElem_of_mem hy
  have hi' : i < xs.length := h.length_eq ▸ hi
  exact ⟨xs[i], List.getElem_mem hi', h.get hi' hi⟩

theorem exists_of_mem_left {R : α → β → Prop} {xs : List α} {ys : List β}
    (h : List.Forall₂ R xs ys) {x : α} (hx : x ∈ xs) : ∃ y ∈ ys, R x y := by
  obtain ⟨i, hi, rfl⟩ := List.getElem_of_mem hx
  have hi' : i < ys.length := h.length_eq ▸ hi
  exact ⟨ys[i], List.getElem_mem hi', h.get hi hi'⟩

/-- What two lists relate, for items of the first. -/
theorem forall₂_imp_of_mem {R S : α → β → Prop} {xs : List α} {ys : List β} (h : List.Forall₂ R xs ys)
    (himp : ∀ x ∈ xs, ∀ y, R x y → S x y) : List.Forall₂ S xs ys :=
  ((List.forall₂_and_left (p := (· ∈ xs)) xs ys).mpr ⟨fun _ hx => hx, h⟩).imp fun x y hxy =>
    himp x hxy.1 y hxy.2

/-- A loop over a list does not raise exactly if no pass does. -/
theorem mapM_eq_ok {f : α → Except ε β} {xs : List α} {ys : List β} :
    xs.mapM f = .ok ys ↔ List.Forall₂ (fun x y => f x = .ok y) xs ys := by
  induction xs generalizing ys with
  | nil => simp [pure, Except.pure, eq_comm]
  | cons x xs ih =>
    simp only [List.mapM_cons, List.forall₂_cons_left_iff, bind_eq_ok, pure, Except.pure]
    constructor
    · rintro ⟨y, hy, rest, hrest, hys⟩
      exact ⟨y, rest, hy, ih.mp hrest, (Except.ok.inj hys).symm⟩
    · rintro ⟨y, rest, hy, hrest, rfl⟩
      exact ⟨y, hy, rest, ih.mpr hrest, rfl⟩

theorem exists_mapM_eq_ok {f : α → Except ε β} {xs : List α} (h : ∀ x ∈ xs, ∃ y, f x = .ok y) :
    ∃ ys, xs.mapM f = .ok ys := by
  induction xs with
  | nil => exact ⟨[], rfl⟩
  | cons x xs ih =>
    obtain ⟨y, hy⟩ := h x List.mem_cons_self
    obtain ⟨ys, hys⟩ := ih fun x hx => h x (List.mem_cons_of_mem _ hx)
    exact ⟨y :: ys, mapM_eq_ok.mpr (.cons hy (mapM_eq_ok.mp hys))⟩

theorem mapM_error {f : α → Except ε β} {xs : List α} {e : ε} (h : xs.mapM f = .error e) :
    ∃ x ∈ xs, f x = .error e := by
  induction xs with
  | nil => cases h
  | cons x xs ih =>
    rw [List.mapM_cons] at h
    rcases bind_eq_error.mp h with hx | ⟨y, -, h⟩
    · exact ⟨x, List.mem_cons_self, hx⟩
    · rcases bind_eq_error.mp h with hxs | ⟨ys, -, h⟩
      · obtain ⟨x', hmem, hx'⟩ := ih hxs
        exact ⟨x', List.mem_cons_of_mem _ hmem, hx'⟩
      · cases h

/-- A pass that raises ends the loop, unless an earlier one does. -/
theorem mapM_append_cons_error {f : α → Except ε β} (before after : List α) {x : α} {e : ε}
    (h : f x = .error e) : ∃ e', (before ++ x :: after).mapM f = .error e' ∧
      ((∀ y ∈ before, ∃ b, f y = .ok b) → e' = e) := by
  induction before with
  | nil => exact ⟨e, by rw [List.nil_append, List.mapM_cons, h]; rfl, fun _ => rfl⟩
  | cons y before ih =>
    obtain ⟨e', hbefore, hsame⟩ := ih
    rw [List.cons_append, List.mapM_cons]
    cases hy : f y with
    | error e'' =>
      refine ⟨e'', rfl, fun hall => ?_⟩
      obtain ⟨b, hb⟩ := hall y List.mem_cons_self
      rw [hy] at hb
      cases hb
    | ok b =>
      exact ⟨e', by rw [hbefore]; rfl, fun hall => hsame fun z hz =>
        hall z (List.mem_cons_of_mem _ hz)⟩

/-- A loop over a list without results does not raise exactly if no pass does. -/
theorem forM_eq_ok {f : α → Except ε Unit} {xs : List α} :
    xs.forM f = .ok () ↔ ∀ x ∈ xs, f x = .ok () := by
  induction xs with
  | nil => simp [pure, Except.pure]
  | cons x xs ih =>
    change (f x >>= fun _ => xs.forM f) = .ok () ↔ _
    simp only [bind_eq_ok, List.forall_mem_cons]
    constructor
    · rintro ⟨_, hx, hxs⟩
      exact ⟨hx, ih.mp hxs⟩
    · rintro ⟨hx, hxs⟩
      exact ⟨(), hx, ih.mpr hxs⟩

/-- Induction over the passes of a loop that does not raise. A pass is given what the passes before
it did. -/
theorem foldlM_induction {σ : Type} {f : σ → α → Except ε σ} {xs : List α} {s t : σ}
    (h : xs.foldlM f s = .ok t) (P : ℕ → σ → Prop) (hstart : P 0 s)
    (hstep : ∀ k x u v, xs[k]? = some x → (xs.take k).foldlM f s = .ok u → P k u →
      f u x = .ok v → P (k + 1) v) : P xs.length t := by
  induction xs generalizing s P with
  | nil =>
    obtain rfl := Except.ok.inj h
    exact hstart
  | cons x xs ih =>
    rw [List.foldlM_cons] at h
    obtain ⟨u, hu, h⟩ := bind_eq_ok.mp h
    refine ih h (fun k => P (k + 1)) (hstep 0 x s u rfl rfl hstart hu) fun k y v w hy hv hP hw =>
      hstep (k + 1) y v w hy ?_ hP hw
    rw [List.take_succ_cons, List.foldlM_cons]
    exact bind_eq_ok.mpr ⟨u, hu, hv⟩

theorem exists_foldlM_eq_ok {σ : Type} {f : σ → α → Except ε σ} (h : ∀ s x, ∃ t, f s x = .ok t)
    (xs : List α) (s : σ) : ∃ t, xs.foldlM f s = .ok t := by
  induction xs generalizing s with
  | nil => exact ⟨s, rfl⟩
  | cons x xs ih =>
    obtain ⟨u, hu⟩ := h s x
    rw [List.foldlM_cons]
    exact exists_bind_eq_ok ⟨u, hu, ih u⟩

end Stel
