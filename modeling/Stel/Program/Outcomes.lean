import Stel.Program.Basic

/-!
# Outcomes of a program

What a program can end with if its environment answers every call anew: in one way that the call
determines, or in any of several ways.

## Main definitions

* `Prog.evaluate`: the result for an environment without a state.
* `Prog.Outcome`: the results for an environment that may answer a call in several ways.
* `Prog.Agree`: the outcomes of two programs are related.

## Main results

* `Prog.evaluate_bind`, `Prog.evaluate_foldM`, `Prog.outcome_bind`: the composites.
* `Prog.outcome_evaluate`: one answer to every call gives one of the outcomes.
* `Prog.Agree.bind`, `Prog.agree_foldM`, `Prog.agree_perform`: programs whose outcomes are related.
* `Prog.Agree.eq_evaluate`: a program that agrees with itself has one outcome.
-/

namespace Stel.Prog

variable {Op : Type} {Ret : Op → Type} {ε σ α β : Type}

/-! ### One answer to every call -/

/-- The result of a program whose calls are answered by a function of the call. -/
def evaluate (answer : (o : Op) → Except ε (Ret o)) : Prog Op Ret ε α → Except ε α
  | .pure a => .ok a
  | .throw e => .error e
  | .call o next fail =>
    match answer o with
    | .ok r => (next r).evaluate answer
    | .error e => (fail e).evaluate answer

section Evaluate

variable (answer : (o : Op) → Except ε (Ret o))

@[simp] theorem evaluate_pure (a : α) : (.pure a : Prog Op Ret ε α).evaluate answer = .ok a := rfl

@[simp] theorem evaluate_throw (e : ε) :
    (.throw e : Prog Op Ret ε α).evaluate answer = .error e := rfl

@[simp] theorem evaluate_ofExcept (x : Except ε α) :
    (ofExcept x : Prog Op Ret ε α).evaluate answer = x := by
  cases x <;> rfl

@[simp] theorem evaluate_perform (o : Op) :
    (perform o : Prog Op Ret ε (Ret o)).evaluate answer = answer o := by
  simp only [perform, evaluate]
  cases answer o <;> rfl

@[simp] theorem evaluate_bind (p : Prog Op Ret ε α) (f : α → Prog Op Ret ε β) :
    (p >>= f).evaluate answer = p.evaluate answer >>= fun a => (f a).evaluate answer := by
  induction p with
  | pure a => rfl
  | throw e => rfl
  | call o next fail ihn ihf =>
    rw [call_bind]
    simp only [evaluate]
    cases answer o with
    | ok r => exact ihn r
    | error e => exact ihf e

theorem evaluate_foldM {γ : Type} (p : β → γ → Prog Op Ret ε β) (b : β) (xs : List γ) :
    (foldM p b xs).evaluate answer = xs.foldlM (fun b x => (p b x).evaluate answer) b := by
  induction xs generalizing b with
  | nil => rfl
  | cons x xs ih =>
    rw [foldM, evaluate_bind, List.foldlM_cons]
    exact congrArg _ (funext ih)

end Evaluate

/-! ### Several answers to a call -/

/-- The program can end with a result if every call is answered in one of the ways that the
environment may answer it. -/
def Outcome (A : (o : Op) → Except ε (Ret o) → Prop) : Prog Op Ret ε α → Except ε α → Prop
  | .pure a, x => x = .ok a
  | .throw e, x => x = .error e
  | .call o next fail, x => (∃ r, A o (.ok r) ∧ (next r).Outcome A x) ∨
      ∃ e, A o (.error e) ∧ (fail e).Outcome A x

section Outcome

variable {A : (o : Op) → Except ε (Ret o) → Prop}

theorem outcome_bind {p : Prog Op Ret ε α} {f : α → Prog Op Ret ε β} {x : Except ε β} :
    (p >>= f).Outcome A x ↔
      (∃ a, p.Outcome A (.ok a) ∧ (f a).Outcome A x) ∨
      ∃ e, p.Outcome A (.error e) ∧ x = .error e := by
  induction p with
  | pure a =>
    rw [pure_bind]
    constructor
    · intro h
      exact .inl ⟨a, rfl, h⟩
    · rintro (⟨a', ha, h⟩ | ⟨e, he, -⟩)
      · cases ha
        exact h
      · cases he
  | throw e =>
    rw [throw_bind]
    constructor
    · intro h
      exact .inr ⟨e, rfl, h⟩
    · rintro (⟨a, ha, -⟩ | ⟨e', he, h⟩)
      · cases ha
      · cases he
        exact h
  | call o next fail ihn ihf =>
    rw [call_bind]
    simp only [Outcome, ihn, ihf]
    constructor
    · rintro (⟨r, hr, ⟨a, ha, h⟩ | ⟨e, he, h⟩⟩ | ⟨e, he, ⟨a, ha, h⟩ | ⟨e', he', h⟩⟩)
      · exact .inl ⟨a, .inl ⟨r, hr, ha⟩, h⟩
      · exact .inr ⟨e, .inl ⟨r, hr, he⟩, h⟩
      · exact .inl ⟨a, .inr ⟨e, he, ha⟩, h⟩
      · exact .inr ⟨e', .inr ⟨e, he, he'⟩, h⟩
    · rintro (⟨a, ⟨r, hr, ha⟩ | ⟨e, he, ha⟩, h⟩ | ⟨e', ⟨r, hr, he'⟩ | ⟨e, he, he'⟩, h⟩)
      · exact .inl ⟨r, hr, .inl ⟨a, ha, h⟩⟩
      · exact .inr ⟨e, he, .inl ⟨a, ha, h⟩⟩
      · exact .inl ⟨r, hr, .inr ⟨e', he', h⟩⟩
      · exact .inr ⟨e, he, .inr ⟨e', he', h⟩⟩

/-- The result for one answer to every call is an outcome, if the environment may answer so. -/
theorem outcome_evaluate {answer : (o : Op) → Except ε (Ret o)} (h : ∀ o, A o (answer o))
    (p : Prog Op Ret ε α) : p.Outcome A (p.evaluate answer) := by
  induction p with
  | pure a => rfl
  | throw e => rfl
  | call o next fail ihn ihf =>
    have hanswer := h o
    rw [evaluate]
    cases hcall : answer o with
    | ok r => exact .inl ⟨r, hcall ▸ hanswer, ihn r⟩
    | error e => exact .inr ⟨e, hcall ▸ hanswer, ihf e⟩

/-! ### Two executions -/

/-- Any outcomes of two programs are the same exception, or results that are related. -/
def Agree (A : (o : Op) → Except ε (Ret o) → Prop) (R : α → β → Prop) (p : Prog Op Ret ε α)
    (q : Prog Op Ret ε β) : Prop :=
  ∀ x y, p.Outcome A x → q.Outcome A y →
    (∃ e, x = .error e ∧ y = .error e) ∨ ∃ a b, x = .ok a ∧ y = .ok b ∧ R a b

variable {R : α → β → Prop} {p : Prog Op Ret ε α} {q : Prog Op Ret ε β}

theorem agree_pure {a : α} {b : β} (h : R a b) :
    (.pure a : Prog Op Ret ε α).Agree A R (.pure b) := by
  rintro x y rfl rfl
  exact .inr ⟨a, b, rfl, rfl, h⟩

theorem agree_throw (e : ε) : (.throw e : Prog Op Ret ε α).Agree A R (.throw e) := by
  rintro x y rfl rfl
  exact .inl ⟨e, rfl, rfl⟩

theorem Agree.bind {γ δ : Type} {S : γ → δ → Prop} {f : α → Prog Op Ret ε γ} {g : β → Prog Op Ret ε δ}
    (hp : p.Agree A R q) (hf : ∀ a b, R a b → (f a).Agree A S (g b)) :
    (p >>= f).Agree A S (q >>= g) := by
  intro x y hx hy
  rw [outcome_bind] at hx hy
  obtain ⟨a, ha, hx⟩ | ⟨e, he, rfl⟩ := hx
  · obtain ⟨b, hb, hy⟩ | ⟨e, he, rfl⟩ := hy
    · obtain ⟨e, h, -⟩ | ⟨a', b', h, h', hR⟩ := hp _ _ ha hb
      · cases h
      · cases h
        cases h'
        exact hf a b hR x y hx hy
    · obtain ⟨e, h, -⟩ | ⟨a', b', -, h, -⟩ := hp _ _ ha he
      · cases h
      · cases h
  · obtain ⟨b, hb, hy⟩ | ⟨e', he', rfl⟩ := hy
    · obtain ⟨e, -, h⟩ | ⟨a', b', h, -⟩ := hp _ _ he hb
      · cases h
      · cases h
    · obtain ⟨e'', h, h'⟩ | ⟨a', b', h, -⟩ := hp _ _ he he'
      · cases h
        cases h'
        exact .inl ⟨_, rfl, rfl⟩
      · cases h

/-- A program that agrees with itself, before programs that agree for each of its results. -/
theorem Agree.bind_self {γ δ : Type} {S : γ → δ → Prop} {p : Prog Op Ret ε α}
    {f : α → Prog Op Ret ε γ} {g : α → Prog Op Ret ε δ} (hp : p.Agree A Eq p)
    (hf : ∀ a, (f a).Agree A S (g a)) : (p >>= f).Agree A S (p >>= g) :=
  hp.bind fun a _ h => h ▸ hf a

theorem agree_foldM {γ : Type} {f : α → γ → Prog Op Ret ε α} {g : β → γ → Prog Op Ret ε β} {xs : List γ}
    (hstep : ∀ x ∈ xs, ∀ a b, R a b → (f a x).Agree A R (g b x)) {a : α} {b : β} (h : R a b) :
    (foldM f a xs).Agree A R (foldM g b xs) := by
  induction xs generalizing a b with
  | nil => exact agree_pure h
  | cons x xs ih =>
    refine (hstep x List.mem_cons_self a b h).bind fun a b h => ?_
    exact ih (fun y hy => hstep y (List.mem_cons_of_mem x hy)) h

/-- The replies to a call that does not raise at times only. -/
theorem agree_perform {o : Op} {R : Ret o → Ret o → Prop}
    (hreply : ∀ r r', A o (.ok r) → A o (.ok r') → R r r')
    (hraise : ∀ e, A o (.error e) → ∀ x, A o x → x = .error e) :
    (perform o : Prog Op Ret ε (Ret o)).Agree A R (perform o) := by
  intro x y hx hy
  simp only [perform, Outcome] at hx hy
  obtain ⟨r, hr, rfl⟩ | ⟨e, he, rfl⟩ := hx
  · obtain ⟨r', hr', rfl⟩ | ⟨e, he, rfl⟩ := hy
    · exact .inr ⟨r, r', rfl, rfl, hreply r r' hr hr'⟩
    · cases hraise e he _ hr
  · obtain ⟨r', hr', rfl⟩ | ⟨e', he', rfl⟩ := hy
    · cases hraise e he _ hr'
    · cases hraise e he _ he'
      exact .inl ⟨e, rfl, rfl⟩

theorem agree_ofExcept {x : Except ε α} {y : Except ε β}
    (h : (∃ e, x = .error e ∧ y = .error e) ∨ ∃ a b, x = .ok a ∧ y = .ok b ∧ R a b) :
    (ofExcept x : Prog Op Ret ε α).Agree A R (ofExcept y) := by
  obtain ⟨e, rfl, rfl⟩ | ⟨a, b, rfl, rfl, hR⟩ := h
  · exact agree_throw e
  · exact agree_pure hR

theorem agree_ofExcept_self (x : Except ε α) : (ofExcept x : Prog Op Ret ε α).Agree A Eq (ofExcept x) := by
  cases x with
  | ok a => exact agree_pure rfl
  | error e => exact agree_throw e

theorem agree_ofExcept_bind {γ δ : Type} {S : γ → δ → Prop} {x : Except ε α} {f : α → Prog Op Ret ε γ}
    {g : α → Prog Op Ret ε δ} (h : ∀ a, x = .ok a → (f a).Agree A S (g a)) :
    (ofExcept x >>= f).Agree A S (ofExcept x >>= g) := by
  cases x with
  | ok a => exact h a rfl
  | error e => exact agree_throw e

/-- The one outcome of a program that agrees with itself. -/
theorem Agree.eq_evaluate {p : Prog Op Ret ε α} (h : p.Agree A Eq p)
    {answer : (o : Op) → Except ε (Ret o)} (hanswer : ∀ o, A o (answer o)) {x : Except ε α}
    (hx : p.Outcome A x) : x = p.evaluate answer := by
  obtain ⟨e, rfl, he⟩ | ⟨a, b, rfl, hb, rfl⟩ := h x _ hx (outcome_evaluate hanswer p)
  · exact he.symm
  · exact hb.symm

end Outcome

end Stel.Prog
