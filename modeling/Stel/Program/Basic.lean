import Mathlib.Data.List.Basic

/-!
# Terminating programs over an operation signature

A *program* over a signature of operations is a finite-depth tree: it returns a value, raises an
exception, or calls an operation `o : Op` and goes on with the reply `Ret o`, or with the
exception the operation raised. A state on which the operations act is given separately, by an
interpretation, so that one program can be executed alone, with faults
(`Stel.Program.Faults`), or interleaved with others (`Stel.Program.Interleaving`).

## Main definitions

* `Prog`: programs, with `Prog.bind`, `Prog.tryCatch`, `Prog.finally`, `Prog.perform`.
* `Interp`: an interpretation of the operations on a state type, and `Interp.sum` of two.
* `Prog.exec`: the execution of a program without interruption, `Prog.Returns` and `Prog.Meets`.
* `Prog.inl`, `Prog.inr`: programs over one side of a sum of signatures.
* `Prog.Calls`: a property of every operation that a program can call.
* `Prog.Justified`: what is learnt from the replies justifies the operations that follow.

## Main results

* `Prog.exec_bind`, `Prog.exec_tryCatch`: execution of the composites.
* `Prog.exec_inr`: a program over one side leaves the other state alone.
-/

namespace Stel

/-- A program over the operations `Op`: a value, an exception, or an operation followed by one
continuation for its reply and one for the exception it raised. -/
inductive Prog (Op : Type) (Ret : Op → Type) (ε α : Type) : Type
  | pure (a : α) : Prog Op Ret ε α
  | throw (e : ε) : Prog Op Ret ε α
  | call (o : Op) (next : Ret o → Prog Op Ret ε α) (fail : ε → Prog Op Ret ε α) :
      Prog Op Ret ε α

/-- An interpretation of the operations on a state: the state after the operation, and its reply
or the exception it raised. -/
abbrev Interp (Op : Type) (Ret : Op → Type) (ε σ : Type) : Type :=
  (o : Op) → σ → σ × Except ε (Ret o)

namespace Prog

variable {Op : Type} {Ret : Op → Type} {ε σ α β : Type}

/-- The program that calls one operation and returns its reply. -/
def perform (o : Op) : Prog Op Ret ε (Ret o) :=
  .call o .pure .throw

/-- Sequential composition. -/
def bind : Prog Op Ret ε α → (α → Prog Op Ret ε β) → Prog Op Ret ε β
  | .pure a, f => f a
  | .throw e, _ => .throw e
  | .call o next fail, f => .call o (fun r => (next r).bind f) fun e => (fail e).bind f

/-- `try p except e: h e`. -/
def tryCatch : Prog Op Ret ε α → (ε → Prog Op Ret ε α) → Prog Op Ret ε α
  | .pure a, _ => .pure a
  | .throw e, h => h e
  | .call o next fail, h =>
      .call o (fun r => (next r).tryCatch h) fun e => (fail e).tryCatch h

instance : Monad (Prog Op Ret ε) where
  pure := .pure
  bind := bind

@[simp] theorem pure_bind (a : α) (f : α → Prog Op Ret ε β) : (.pure a : Prog Op Ret ε α) >>= f =
    f a := rfl

@[simp] theorem monadPure_eq (a : α) : (Pure.pure a : Prog Op Ret ε α) = .pure a := rfl

@[simp] theorem throw_bind (e : ε) (f : α → Prog Op Ret ε β) :
    (.throw e : Prog Op Ret ε α) >>= f = .throw e := rfl

@[simp] theorem call_bind (o : Op) (next : Ret o → Prog Op Ret ε α) (fail : ε → Prog Op Ret ε α)
    (f : α → Prog Op Ret ε β) :
    (.call o next fail) >>= f = .call o (fun r => next r >>= f) fun e => fail e >>= f := rfl

@[simp] theorem perform_bind (o : Op) (f : Ret o → Prog Op Ret ε β) :
    (perform o : Prog Op Ret ε (Ret o)) >>= f = .call o f .throw := rfl

@[simp] theorem tryCatch_pure (a : α) (h : ε → Prog Op Ret ε α) :
    (.pure a : Prog Op Ret ε α).tryCatch h = .pure a := rfl

@[simp] theorem tryCatch_throw (e : ε) (h : ε → Prog Op Ret ε α) :
    (.throw e : Prog Op Ret ε α).tryCatch h = h e := rfl

@[simp] theorem tryCatch_call (o : Op) (next : Ret o → Prog Op Ret ε α)
    (fail : ε → Prog Op Ret ε α) (h : ε → Prog Op Ret ε α) :
    (Prog.call o next fail).tryCatch h =
      .call o (fun r => (next r).tryCatch h) fun e => (fail e).tryCatch h := rfl

/-- `try: p finally: q`, where `q` runs after `p` returns and after `p` raises. -/
def andFinally (p : Prog Op Ret ε α) (q : Prog Op Ret ε PUnit) : Prog Op Ret ε α := do
  let a ← p.tryCatch fun e => q >>= fun _ => .throw e
  q
  return a

/-- The value of an `Except`, raising its error. -/
def ofExcept : Except ε α → Prog Op Ret ε α
  | .ok a => .pure a
  | .error e => .throw e

@[simp] theorem ofExcept_ok (a : α) : (ofExcept (.ok a) : Prog Op Ret ε α) = .pure a := rfl

@[simp] theorem ofExcept_error (e : ε) : (ofExcept (.error e) : Prog Op Ret ε α) = .throw e := rfl

/-- Runs `p x` for every entry of a list in order. -/
def forEach {γ : Type} (p : γ → Prog Op Ret ε PUnit) : List γ → Prog Op Ret ε PUnit
  | [] => .pure ⟨⟩
  | x :: xs => p x >>= fun _ => forEach p xs

/-- Runs `p b x` for every entry of a list in order, passing an accumulator on. -/
def foldM {γ : Type} (p : β → γ → Prog Op Ret ε β) : β → List γ → Prog Op Ret ε β
  | b, [] => .pure b
  | b, x :: xs => p b x >>= fun b => foldM p b xs

/-! ### Execution without interruption -/

/-- The execution of a program: the final state with the value returned or exception raised. -/
def exec (I : Interp Op Ret ε σ) : Prog Op Ret ε α → σ → σ × Except ε α
  | .pure a, s => (s, .ok a)
  | .throw e, s => (s, .error e)
  | .call o next fail, s =>
      match I o s with
      | (s', .ok r) => (next r).exec I s'
      | (s', .error e) => (fail e).exec I s'

section Exec

variable (I : Interp Op Ret ε σ)

@[simp] theorem exec_pure (a : α) (s : σ) : (.pure a : Prog Op Ret ε α).exec I s = (s, .ok a) := rfl

@[simp] theorem exec_throw (e : ε) (s : σ) :
    (.throw e : Prog Op Ret ε α).exec I s = (s, .error e) := rfl

theorem exec_call_ok {o : Op} {s s' : σ} {r : Ret o} (h : I o s = (s', .ok r))
    (next : Ret o → Prog Op Ret ε α) (fail : ε → Prog Op Ret ε α) :
    (Prog.call o next fail).exec I s = (next r).exec I s' := by
  simp only [exec, h]

theorem exec_call_error {o : Op} {s s' : σ} {e : ε} (h : I o s = (s', .error e))
    (next : Ret o → Prog Op Ret ε α) (fail : ε → Prog Op Ret ε α) :
    (Prog.call o next fail).exec I s = (fail e).exec I s' := by
  simp only [exec, h]

theorem exec_perform (o : Op) (s : σ) : (perform o : Prog Op Ret ε (Ret o)).exec I s = I o s := by
  simp only [perform, exec]
  rcases I o s with ⟨t, e | r⟩ <;> rfl

theorem exec_bind (p : Prog Op Ret ε α) (f : α → Prog Op Ret ε β) (s : σ) :
    (p >>= f).exec I s =
      match p.exec I s with
      | (s', .ok a) => (f a).exec I s'
      | (s', .error e) => (s', .error e) := by
  induction p generalizing s with
  | pure a => rfl
  | throw e => rfl
  | call o next fail ihn ihf =>
    rw [call_bind]
    cases h : I o s with
    | mk s' r =>
      cases r with
      | ok r => rw [exec_call_ok I h, exec_call_ok I h, ihn]
      | error e => rw [exec_call_error I h, exec_call_error I h, ihf]

theorem exec_bind_ok {p : Prog Op Ret ε α} {s s' : σ} {a : α} (h : p.exec I s = (s', .ok a))
    (f : α → Prog Op Ret ε β) : (p >>= f).exec I s = (f a).exec I s' := by
  rw [exec_bind, h]

theorem exec_bind_error {p : Prog Op Ret ε α} {s s' : σ} {e : ε}
    (h : p.exec I s = (s', .error e)) (f : α → Prog Op Ret ε β) :
    (p >>= f).exec I s = (s', .error e) := by
  rw [exec_bind, h]

theorem exec_ofExcept_bind (x : Except ε α) (f : α → Prog Op Ret ε β) (s : σ) :
    (ofExcept x >>= f).exec I s =
      match x with
      | .ok a => (f a).exec I s
      | .error e => (s, .error e) := by
  cases x <;> rfl

theorem exec_tryCatch (p : Prog Op Ret ε α) (h : ε → Prog Op Ret ε α) (s : σ) :
    (p.tryCatch h).exec I s =
      match p.exec I s with
      | (s', .ok a) => (s', .ok a)
      | (s', .error e) => (h e).exec I s' := by
  induction p generalizing s with
  | pure a => rfl
  | throw e => rfl
  | call o next fail ihn ihf =>
    rw [tryCatch_call]
    cases hI : I o s with
    | mk s' r =>
      cases r with
      | ok r => rw [exec_call_ok I hI, exec_call_ok I hI, ihn]
      | error e => rw [exec_call_error I hI, exec_call_error I hI, ihf]

/-- A composite returns exactly when its first part returns and its continuation does. -/
theorem exec_bind_eq_ok {p : Prog Op Ret ε α} {f : α → Prog Op Ret ε β} {s t : σ} {b : β} :
    (p >>= f).exec I s = (t, .ok b) ↔
      ∃ s' a, p.exec I s = (s', .ok a) ∧ (f a).exec I s' = (t, .ok b) := by
  rw [exec_bind]
  rcases p.exec I s with ⟨s', a | a⟩
  · simp
  · constructor
    · intro h
      exact ⟨s', a, rfl, h⟩
    · rintro ⟨_, _, h, h'⟩
      cases h
      exact h'

/-- The execution returns, and the value returned and the final state satisfy `Q`. -/
def Returns (p : Prog Op Ret ε α) (Q : α → σ → Prop) (s : σ) : Prop :=
  ∃ t a, p.exec I s = (t, .ok a) ∧ Q a t

section Returns

variable {I} {Q : α → σ → Prop}

theorem Returns.pure {a : α} {s : σ} (h : Q a s) :
    (.pure a : Prog Op Ret ε α).Returns I Q s :=
  ⟨s, a, rfl, h⟩

theorem Returns.call {o : Op} {next : Ret o → Prog Op Ret ε α} {fail : ε → Prog Op Ret ε α}
    {s t : σ} {r : Ret o} (hI : I o s = (t, .ok r)) (h : (next r).Returns I Q t) :
    (Prog.call o next fail).Returns I Q s := by
  obtain ⟨u, a, hexec, hQ⟩ := h
  exact ⟨u, a, (exec_call_ok I hI next fail).trans hexec, hQ⟩

theorem Returns.mono {Q' : α → σ → Prop} {p : Prog Op Ret ε α} {s : σ} (h : p.Returns I Q s)
    (hQ : ∀ a t, Q a t → Q' a t) : p.Returns I Q' s := by
  obtain ⟨t, a, hexec, h⟩ := h
  exact ⟨t, a, hexec, hQ a t h⟩

theorem Returns.bind {R : β → σ → Prop} {p : Prog Op Ret ε α} {f : α → Prog Op Ret ε β} {s : σ}
    (hp : p.Returns I Q s) (hf : ∀ a t, Q a t → (f a).Returns I R t) :
    (p >>= f).Returns I R s := by
  obtain ⟨t, a, hexec, hQ⟩ := hp
  obtain ⟨u, b, hexec', hR⟩ := hf a t hQ
  exact ⟨u, b, (exec_bind_ok I hexec f).trans hexec', hR⟩

theorem Returns.tryCatch {p : Prog Op Ret ε α} {h : ε → Prog Op Ret ε α} {s : σ}
    (hp : p.Returns I Q s) : (p.tryCatch h).Returns I Q s := by
  obtain ⟨t, a, hexec, hQ⟩ := hp
  refine ⟨t, a, ?_, hQ⟩
  rw [exec_tryCatch, hexec]

/-- A loop returns if each pass through its body does, the loop invariant speaking about the
entries done so far. -/
theorem Returns.foldM {γ : Type} {J : List γ → β → σ → Prop} {p : β → γ → Prog Op Ret ε β}
    {xs : List γ} {b : β} {s : σ} (h : J [] b s)
    (hp : ∀ done x rest, done ++ x :: rest = xs → ∀ b t, J done b t →
      (p b x).Returns I (fun b t => J (done ++ [x]) b t) t) :
    (Prog.foldM p b xs).Returns I (fun b t => J xs b t) s := by
  suffices hgen : ∀ rest done b s, done ++ rest = xs → J done b s →
      (Prog.foldM p b rest).Returns I (fun b t => J xs b t) s from hgen xs [] b s rfl h
  intro rest
  induction rest with
  | nil =>
    intro done b s hdone hJ
    rw [List.append_nil] at hdone
    subst hdone
    exact .pure hJ
  | cons x rest ih =>
    intro done b s hdone hJ
    refine (hp done x rest hdone b s hJ).bind fun b t hJ => ?_
    exact ih (done ++ [x]) b t (by simpa using hdone) hJ

end Returns

/-- The execution ends with a value and state that satisfy `Q`, or with an exception and state
that satisfy `E`. -/
def Meets (Q : α → σ → Prop) (E : ε → σ → Prop) (p : Prog Op Ret ε α) (s : σ) : Prop :=
  match p.exec I s with
  | (t, .ok a) => Q a t
  | (t, .error e) => E e t

section Meets

variable {I} {Q : α → σ → Prop} {E : ε → σ → Prop}

theorem meets_pure {a : α} {s : σ} (h : Q a s) :
    (.pure a : Prog Op Ret ε α).Meets I Q E s := h

theorem meets_throw {e : ε} {s : σ} (h : E e s) :
    (.throw e : Prog Op Ret ε α).Meets I Q E s := h

theorem meets_perform {o : Op} {Q : Ret o → σ → Prop} {s : σ}
    (hok : ∀ t r, I o s = (t, .ok r) → Q r t) (herror : ∀ t e, I o s = (t, .error e) → E e t) :
    (perform o : Prog Op Ret ε (Ret o)).Meets I Q E s := by
  rw [Meets, exec_perform]
  rcases h : I o s with ⟨t, e | r⟩
  · exact herror t e h
  · exact hok t r h

theorem Meets.bind {R : β → σ → Prop} {p : Prog Op Ret ε α} {f : α → Prog Op Ret ε β} {s : σ}
    (hp : p.Meets I Q E s) (hf : ∀ a t, Q a t → (f a).Meets I R E t) :
    (p >>= f).Meets I R E s := by
  rw [Meets] at hp
  rw [Meets, exec_bind]
  rcases h : p.exec I s with ⟨t, e | a⟩
  · rw [h] at hp
    exact hp
  · rw [h] at hp
    exact hf a t hp

theorem Meets.tryCatch (E' : ε → σ → Prop) {p : Prog Op Ret ε α} {h : ε → Prog Op Ret ε α} {s : σ}
    (hp : p.Meets I Q E' s) (hh : ∀ e t, E' e t → (h e).Meets I Q E t) :
    (p.tryCatch h).Meets I Q E s := by
  rw [Meets] at hp
  rw [Meets, exec_tryCatch]
  rcases hexec : p.exec I s with ⟨t, e | a⟩
  · rw [hexec] at hp
    exact hh e t hp
  · rw [hexec] at hp
    exact hp

theorem Meets.andFinally (E' : ε → σ → Prop) {Q' : α → σ → Prop} {p : Prog Op Ret ε α}
    {q : Prog Op Ret ε PUnit} {s : σ} (hp : p.Meets I Q E' s)
    (hok : ∀ a t, Q a t → q.Meets I (fun _ t => Q' a t) E t)
    (herror : ∀ e t, E' e t → q.Meets I (fun _ t => E e t) E t) :
    (p.andFinally q).Meets I Q' E s := by
  have hhandled : (p.tryCatch fun e => q >>= fun _ => .throw e).Meets I Q E s :=
    hp.tryCatch E' fun e t he => (herror e t he).bind fun _ u hu => meets_throw hu
  exact hhandled.bind fun a t ha => (hok a t ha).bind fun _ u hu => meets_pure hu

theorem Meets.mono {Q' : α → σ → Prop} {E' : ε → σ → Prop} {p : Prog Op Ret ε α} {s : σ}
    (h : p.Meets I Q E s) (hQ : ∀ a t, Q a t → Q' a t) (hE : ∀ e t, E e t → E' e t) :
    p.Meets I Q' E' s := by
  rw [Meets] at h ⊢
  rcases hexec : p.exec I s with ⟨t, e | a⟩
  · rw [hexec] at h
    exact hE e t h
  · rw [hexec] at h
    exact hQ a t h

/-- A specification that decides another one wherever the execution ends. -/
theorem Meets.iff {Q' : α → σ → Prop} {E' : ε → σ → Prop} {C : Prop} {p : Prog Op Ret ε α} {s : σ}
    (h : p.Meets I Q' E' s) (hok : ∀ a t, Q' a t → (Q a t ↔ C))
    (herror : ∀ e t, E' e t → (E e t ↔ C)) : p.Meets I Q E s ↔ C := by
  rw [Meets] at h ⊢
  rcases hexec : p.exec I s with ⟨t, e | a⟩
  · rw [hexec] at h
    exact herror e t h
  · rw [hexec] at h
    exact hok a t h

/-- A loop meets its invariant if every pass does, the invariant speaking about the entries still
to come. -/
theorem Meets.forEach {γ : Type} (J : List γ → σ → Prop) {p : γ → Prog Op Ret ε PUnit}
    {xs : List γ} {s : σ} (h : J xs s)
    (hp : ∀ x rest t, J (x :: rest) t → (p x).Meets I (fun _ t => J rest t) E t) :
    (Prog.forEach p xs).Meets I (fun _ t => J [] t) E s := by
  induction xs generalizing s with
  | nil => exact h
  | cons x xs ih => exact (hp x xs s h).bind fun _ t ht => ih ht

/-- A loop with an accumulator keeps an invariant that every pass keeps. -/
theorem Meets.foldM {γ : Type} (J : β → σ → Prop) {p : β → γ → Prog Op Ret ε β} {xs : List γ}
    {b : β} {s : σ} (h : J b s) (hp : ∀ b x t, J b t → (p b x).Meets I J E t) :
    (Prog.foldM p b xs).Meets I J E s := by
  induction xs generalizing b s with
  | nil => exact h
  | cons x xs ih => exact (hp b x s h).bind fun b t ht => ih ht

end Meets

end Exec

/-! ### Properties of all subprograms -/

/-- Every operation the program can call satisfies `A`. -/
def Calls (A : Op → Prop) : Prog Op Ret ε α → Prop
  | .pure _ => True
  | .throw _ => True
  | .call o next fail => A o ∧ (∀ r, (next r).Calls A) ∧ ∀ e, (fail e).Calls A

@[simp] theorem calls_pure (A : Op → Prop) (a : α) : (.pure a : Prog Op Ret ε α).Calls A := trivial

@[simp] theorem calls_throw (A : Op → Prop) (e : ε) : (.throw e : Prog Op Ret ε α).Calls A :=
  trivial

@[simp] theorem calls_call (A : Op → Prop) (o : Op) (next : Ret o → Prog Op Ret ε α)
    (fail : ε → Prog Op Ret ε α) : (Prog.call o next fail).Calls A ↔
      A o ∧ (∀ r, (next r).Calls A) ∧ ∀ e, (fail e).Calls A := Iff.rfl

theorem calls_ofExcept {A : Op → Prop} (x : Except ε α) :
    (ofExcept x : Prog Op Ret ε α).Calls A := by
  cases x <;> trivial

theorem calls_ofExcept_bind {A : Op → Prop} {x : Except ε α} {f : α → Prog Op Ret ε β}
    (h : ∀ a, x = .ok a → (f a).Calls A) : (ofExcept x >>= f).Calls A := by
  cases x with
  | ok a => exact h a rfl
  | error e => trivial

theorem calls_of_forall {A : Op → Prop} (hA : ∀ o, A o) (p : Prog Op Ret ε α) : p.Calls A := by
  induction p with
  | pure a => trivial
  | throw e => trivial
  | call o next fail ihn ihf => exact ⟨hA o, ihn, ihf⟩

theorem Calls.mono {A B : Op → Prop} (hAB : ∀ o, A o → B o) {p : Prog Op Ret ε α}
    (hp : p.Calls A) : p.Calls B := by
  induction p with
  | pure a => trivial
  | throw e => trivial
  | call o next fail ihn ihf =>
    exact ⟨hAB o hp.1, fun r => ihn r (hp.2.1 r), fun e => ihf e (hp.2.2 e)⟩

theorem Calls.bind {A : Op → Prop} {p : Prog Op Ret ε α} {f : α → Prog Op Ret ε β}
    (hp : p.Calls A) (hf : ∀ a, (f a).Calls A) : (p >>= f).Calls A := by
  induction p with
  | pure a => exact hf a
  | throw e => trivial
  | call o next fail ihn ihf =>
    exact ⟨hp.1, fun r => ihn r (hp.2.1 r), fun e => ihf e (hp.2.2 e)⟩

theorem Calls.tryCatch {A : Op → Prop} {p : Prog Op Ret ε α} {h : ε → Prog Op Ret ε α}
    (hp : p.Calls A) (hh : ∀ e, (h e).Calls A) : (p.tryCatch h).Calls A := by
  induction p with
  | pure a => trivial
  | throw e => exact hh e
  | call o next fail ihn ihf =>
    exact ⟨hp.1, fun r => ihn r (hp.2.1 r), fun e => ihf e (hp.2.2 e)⟩

theorem Calls.foldM {A : Op → Prop} {γ : Type} {p : β → γ → Prog Op Ret ε β}
    (hp : ∀ b x, (p b x).Calls A) {b : β} {xs : List γ} : (Prog.foldM p b xs).Calls A := by
  induction xs generalizing b with
  | nil => trivial
  | cons x xs ih => exact (hp b x).bind fun b => ih

/-- Along every path of the program, what has been learnt from the replies so far justifies the
next operation and the value returned. An exception teaches nothing. -/
def Justified {K : Type} (learn : (o : Op) → Ret o → K → K) (ok : K → Op → Prop)
    (fin : K → α → Prop) : K → Prog Op Ret ε α → Prop
  | k, .pure a => fin k a
  | _, .throw _ => True
  | k, .call o next fail => ok k o ∧ (∀ r, (next r).Justified learn ok fin (learn o r k)) ∧
      ∀ e, (fail e).Justified learn ok fin k

section Justified

variable {K : Type} {learn : (o : Op) → Ret o → K → K} {ok : K → Op → Prop}

theorem Justified.bind {fin : K → α → Prop} {fin' : K → β → Prop} {p : Prog Op Ret ε α}
    {f : α → Prog Op Ret ε β} {k : K} (hp : p.Justified learn ok fin k)
    (hf : ∀ k a, fin k a → (f a).Justified learn ok fin' k) :
    (p >>= f).Justified learn ok fin' k := by
  induction p generalizing k with
  | pure a => exact hf k a hp
  | throw e => trivial
  | call o next fail ihn ihf =>
    exact ⟨hp.1, fun r => ihn r (hp.2.1 r), fun e => ihf e (hp.2.2 e)⟩

theorem justified_ofExcept {fin : K → α → Prop} {k : K} {x : Except ε α}
    (h : ∀ a, x = .ok a → fin k a) : (ofExcept x : Prog Op Ret ε α).Justified learn ok fin k := by
  cases x with
  | ok a => exact h a rfl
  | error e => trivial

theorem justified_ofExcept_bind {fin : K → β → Prop} {k : K} {x : Except ε α}
    {f : α → Prog Op Ret ε β} (h : ∀ a, x = .ok a → (f a).Justified learn ok fin k) :
    (ofExcept x >>= f).Justified learn ok fin k := by
  cases x with
  | ok a => exact h a rfl
  | error e => trivial

/-- Operations that need no justification. -/
theorem Calls.justified {p : Prog Op Ret ε α} (hp : p.Calls fun o => ∀ k, ok k o) (k : K) :
    p.Justified learn ok (fun _ _ => True) k := by
  induction p generalizing k with
  | pure a => trivial
  | throw e => trivial
  | call o next fail ihn ihf =>
    exact ⟨hp.1 k, fun r => ihn r (hp.2.1 r) _, fun e => ihf e (hp.2.2 e) k⟩

end Justified

/-- If every operation the program calls preserves `J`, its execution does. -/
theorem exec_invariant {I : Interp Op Ret ε σ} {A : Op → Prop} {J : σ → Prop}
    (hI : ∀ o s, A o → J s → J (I o s).1) {p : Prog Op Ret ε α} (hp : p.Calls A) {s : σ}
    (hs : J s) : J (p.exec I s).1 := by
  induction p generalizing s with
  | pure a => exact hs
  | throw e => exact hs
  | call o next fail ihn ihf =>
    have hJ := hI o s hp.1 hs
    cases h : I o s with
    | mk s' r =>
      rw [h] at hJ
      cases r with
      | ok r => rw [exec_call_ok I h]; exact ihn r (hp.2.1 r) hJ
      | error e => rw [exec_call_error I h]; exact ihf e (hp.2.2 e) hJ

end Prog

/-! ### Sums of signatures -/

/-- The reply types of a sum of two signatures. -/
@[reducible] def SumRet {Op₁ Op₂ : Type} (Ret₁ : Op₁ → Type) (Ret₂ : Op₂ → Type) :
    Op₁ ⊕ Op₂ → Type
  | .inl o => Ret₁ o
  | .inr o => Ret₂ o

section Sum

variable {Op₁ Op₂ : Type} {Ret₁ : Op₁ → Type} {Ret₂ : Op₂ → Type} {ε σ₁ σ₂ α : Type}

/-- Two interpretations side by side, each on its component of the state. -/
def Interp.sum (I₁ : Interp Op₁ Ret₁ ε σ₁) (I₂ : Interp Op₂ Ret₂ ε σ₂) :
    Interp (Op₁ ⊕ Op₂) (SumRet Ret₁ Ret₂) ε (σ₁ × σ₂)
  | .inl o, s => (((I₁ o s.1).1, s.2), (I₁ o s.1).2)
  | .inr o, s => ((s.1, (I₂ o s.2).1), (I₂ o s.2).2)

namespace Prog

/-- A program over the first signature as a program over the sum. -/
def inl : Prog Op₁ Ret₁ ε α → Prog (Op₁ ⊕ Op₂) (SumRet Ret₁ Ret₂) ε α
  | .pure a => .pure a
  | .throw e => .throw e
  | .call o next fail => .call (.inl o) (fun r => (next r).inl) fun e => (fail e).inl

/-- A program over the second signature as a program over the sum. -/
def inr : Prog Op₂ Ret₂ ε α → Prog (Op₁ ⊕ Op₂) (SumRet Ret₁ Ret₂) ε α
  | .pure a => .pure a
  | .throw e => .throw e
  | .call o next fail => .call (.inr o) (fun r => (next r).inr) fun e => (fail e).inr

theorem calls_inr {A : Op₁ ⊕ Op₂ → Prop} {p : Prog Op₂ Ret₂ ε α}
    (hp : p.Calls fun o => A (.inr o)) :
    (p.inr : Prog (Op₁ ⊕ Op₂) (SumRet Ret₁ Ret₂) ε α).Calls A := by
  induction p with
  | pure a => trivial
  | throw e => trivial
  | call o next fail ihn ihf =>
    exact ⟨hp.1, fun r => ihn r (hp.2.1 r), fun e => ihf e (hp.2.2 e)⟩

theorem exec_inr (I₁ : Interp Op₁ Ret₁ ε σ₁) (I₂ : Interp Op₂ Ret₂ ε σ₂)
    (p : Prog Op₂ Ret₂ ε α) (s : σ₁ × σ₂) :
    (p.inr : Prog _ (SumRet Ret₁ Ret₂) ε α).exec (I₁.sum I₂) s =
      ((s.1, (p.exec I₂ s.2).1), (p.exec I₂ s.2).2) := by
  induction p generalizing s with
  | pure a => rfl
  | throw e => rfl
  | call o next fail ihn ihf =>
    simp only [inr, exec, Interp.sum]
    rcases I₂ o s.2 with ⟨s', e | r⟩
    · exact ihf e (s.1, s')
    · exact ihn r (s.1, s')

theorem Returns.inr {I₁ : Interp Op₁ Ret₁ ε σ₁} {I₂ : Interp Op₂ Ret₂ ε σ₂}
    {Q : α → σ₂ → Prop} {p : Prog Op₂ Ret₂ ε α} {s : σ₁ × σ₂} (h : p.Returns I₂ Q s.2) :
    (p.inr : Prog _ (SumRet Ret₁ Ret₂) ε α).Returns (I₁.sum I₂)
      (fun a t => t.1 = s.1 ∧ Q a t.2) s := by
  obtain ⟨t, a, hexec, hQ⟩ := h
  refine ⟨(s.1, t), a, ?_, rfl, hQ⟩
  rw [exec_inr, hexec]

end Prog

end Sum

end Stel
