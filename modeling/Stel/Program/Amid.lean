import Stel.Program.Interleaving

/-!
# A program amid the operations of others

One execution of one program, with any operations of others on the shared state before each of its
own. This is what a session of a pool goes through between the start and the end of a call.

## Main definitions

* `Prog.afterAll`: the state after a list of operations.
* `Prog.OwnStep`: an operation of the program, with the operations of others before it.
* `Prog.Amid`: the executions.

## Main results

* `Pool.amid_of_reaches`: a call of a session of a pool is such an execution.
-/

namespace Stel

variable {Op : Type} {Ret : Op → Type} {ε σ α : Type}

namespace Prog

/-- The state after the operations of a list, whatever they reply. -/
def afterAll (I : Interp Op Ret ε σ) (s : σ) (ops : List Op) : σ :=
  ops.foldl (fun s o => (I o s).1) s

/-- An operation that a program performs: the operations of others since the previous one, the
operation, and the state that it finds. -/
structure OwnStep (Op σ : Type) where
  foreign : List Op
  op : Op
  before : σ

/-- The executions of a program from a state, with the steps it takes and its result. A fault raises
one of some exceptions without an effect, and is no step. -/
def Amid (I : Interp Op Ret ε σ) (raises : ε → Prop) :
    Prog Op Ret ε α → σ → List (OwnStep Op σ) → Except ε α → Prop
  | .pure a, _, steps, x => steps = [] ∧ x = .ok a
  | .throw e, _, steps, x => steps = [] ∧ x = .error e
  | .call o next fail, s, steps, x => ∃ foreign,
      (∃ rest, steps = ⟨foreign, o, afterAll I s foreign⟩ :: rest ∧
        ((∃ t r, I o (afterAll I s foreign) = (t, .ok r) ∧ (next r).Amid I raises t rest x) ∨
          ∃ t e, I o (afterAll I s foreign) = (t, .error e) ∧ (fail e).Amid I raises t rest x)) ∨
      ∃ e, raises e ∧ (fail e).Amid I raises (afterAll I s foreign) steps x

/-- An operation of another one before an execution belongs to it. -/
theorem Amid.foreign {I : Interp Op Ret ε σ} {raises : ε → Prop} {p : Prog Op Ret ε α} {s : σ}
    {o : Op} {steps : List (OwnStep Op σ)} {x : Except ε α}
    (h : p.Amid I raises (I o s).1 steps x) : ∃ steps', p.Amid I raises s steps' x := by
  cases p with
  | pure a => exact ⟨steps, h⟩
  | throw e => exact ⟨steps, h⟩
  | call o' next fail =>
    obtain ⟨foreign, ⟨rest, rfl, hown⟩ | ⟨e, he, hfault⟩⟩ := h
    · exact ⟨_, o :: foreign, .inl ⟨rest, rfl, hown⟩⟩
    · exact ⟨steps, o :: foreign, .inr ⟨e, he, hfault⟩⟩

end Prog

namespace Pool

variable {ι κ : Type} [DecidableEq ι] {I : Interp Op Ret ε σ} {code : κ → Prog Op Ret ε α}
  {allowed : Pool ι Op Ret ε σ α → ι → Op → Prop}

/-- A step of a pool in which a session goes on with its call. If the session moves on without
performing an operation, it meets one of some exceptions. -/
def Continues (I : Interp Op Ret ε σ) (code : κ → Prog Op Ret ε α)
    (allowed : Pool ι Op Ret ε σ α → ι → Op → Prop) (raises : ε → Prop) (i : ι)
    (c d : Pool ι Op Ret ε σ α) : Prop :=
  Step I code allowed c d ∧ d.sessions i ≠ none ∧
    ∀ o next fail, c.sessions i = some (.call o next fail) → d.history = c.history →
      d.sessions i ≠ c.sessions i → ∃ e, raises e ∧ d = c.setSession i (some (fail e))

/-- The call of a session, from a program it is running to one that has ended, is an execution amid
the operations of the other sessions. -/
theorem amid_of_reaches {raises : ε → Prop} {i : ι} {c d : Pool ι Op Ret ε σ α}
    {p : Prog Op Ret ε α} {x : Except ε α}
    (h : Relation.ReflTransGen (Continues I code allowed raises i) c d)
    (hc : c.sessions i = some p) (hd : d.sessions i = some (.ofExcept x)) :
    ∃ steps, p.Amid I raises c.shared steps x := by
  induction h using Relation.ReflTransGen.head_induction_on generalizing p with
  | refl =>
    obtain rfl : p = .ofExcept x := Option.some.inj (hc.symm.trans hd)
    cases x with
    | ok a => exact ⟨[], rfl, rfl⟩
    | error e => exact ⟨[], rfl, rfl⟩
  | @head b _ hstep _ ih =>
    obtain ⟨hstep, hbusy, hfault⟩ := hstep
    cases hstep with
    | start j k idle =>
      have hj : i ≠ j := by
        rintro rfl
        rw [hc] at idle
        cases idle
      exact ih (by simpa [Pool.setSession, hj] using hc)
    | advance j o next fail running permitted =>
      by_cases hj : i = j
      · subst hj
        obtain rfl : p = .call o next fail := Option.some.inj (hc.symm.trans running)
        rcases hI : I o b.shared with ⟨t, e | r⟩
        · obtain ⟨steps, hsteps⟩ := @ih (fail e) (by simp [Pool.perform, hI, resume])
          have hshared : (b.perform I i o next fail).shared = t := by simp [Pool.perform, hI]
          rw [hshared] at hsteps
          exact ⟨_, [], .inl ⟨steps, rfl, .inr ⟨t, e, hI, hsteps⟩⟩⟩
        · obtain ⟨steps, hsteps⟩ := @ih (next r) (by simp [Pool.perform, hI, resume])
          have hshared : (b.perform I i o next fail).shared = t := by simp [Pool.perform, hI]
          rw [hshared] at hsteps
          exact ⟨_, [], .inl ⟨steps, rfl, .inl ⟨t, r, hI, hsteps⟩⟩⟩
      · obtain ⟨steps, hsteps⟩ := @ih p (by simpa [Pool.perform, hj] using hc)
        exact hsteps.foreign
    | fault j o next fail e running =>
      by_cases hj : i = j
      · subst hj
        obtain rfl : p = .call o next fail := Option.some.inj (hc.symm.trans running)
        by_cases hmoved : (b.setSession i (some (fail e))).sessions i = b.sessions i
        · exact ih (hmoved.trans hc)
        · obtain ⟨e', he', hset⟩ := hfault o next fail hc rfl hmoved
          obtain ⟨steps, hsteps⟩ := @ih (fail e') (by rw [hset]; simp [Pool.setSession])
          exact ⟨steps, [], .inr ⟨e', he', hsteps⟩⟩
      · exact ih (by simpa [Pool.setSession, hj] using hc)
    | finish j a ended =>
      have hj : i ≠ j := by
        rintro rfl
        simp [Pool.retire, Pool.setSession] at hbusy
      exact ih (by simpa [Pool.retire, Pool.setSession, hj] using hc)
    | crash j e ended =>
      have hj : i ≠ j := by
        rintro rfl
        simp [Pool.retire, Pool.setSession] at hbusy
      exact ih (by simpa [Pool.retire, Pool.setSession, hj] using hc)

end Pool

end Stel
