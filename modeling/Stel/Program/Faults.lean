import Stel.Program.Basic

/-!
# Executions with faults

An execution of a program may stop at any of its operations: the process dies, or an exception is
raised there, either before the operation takes effect or after it. Operations are atomic and
durable, so what a fault leaves behind is the state between two operations. `Prog.Ends` relates a
program and a state to everything such an execution can end with, and `Prog.Safe` is the
corresponding proof obligation: a crash condition that holds between any two operations, and a
postcondition for the executions that return.

## Main definitions

* `Prog.Ends`: the ways an execution with faults can end; `none` stands for a process that died.
* `Prog.Safe`: a crash condition with a postcondition.
* `Interp.ghost`: an interpretation that keeps a ghost component beside the state.

## Main results

* `Prog.Safe.sound`: a safe program ends with its crash condition, and with its postcondition if
  it returned.
* `Prog.Safe.bind`, `Prog.Safe.tryCatch`, `Prog.Safe.mono`, `Prog.safe_of_calls`: the rules.
-/

namespace Stel

namespace Prog

variable {Op : Type} {Ret : Op → Type} {ε σ α β : Type}

/-- `p.Ends I s t out`: started in `s`, the program can end in `t`, having returned or raised
`out`, or having died if `out` is `none`. -/
inductive Ends (I : Interp Op Ret ε σ) :
    Prog Op Ret ε α → σ → σ → Option (Except ε α) → Prop
  | pure (a : α) (s : σ) : Ends I (.pure a) s s (some (.ok a))
  | throw (e : ε) (s : σ) : Ends I (.throw e) s s (some (.error e))
  | die (p : Prog Op Ret ε α) (s : σ) : Ends I p s s none
  | replies {o : Op} {next fail} {s s' t : σ} {r : Ret o} {out}
      (hI : I o s = (s', .ok r)) (h : Ends I (next r) s' t out) :
      Ends I (.call o next fail) s t out
  | errors {o : Op} {next fail} {s s' t : σ} {e : ε} {out}
      (hI : I o s = (s', .error e)) (h : Ends I (fail e) s' t out) :
      Ends I (.call o next fail) s t out
  | raiseBefore {o : Op} {next fail} {s t : σ} (e : ε) {out}
      (h : Ends I (fail e) s t out) : Ends I (.call o next fail) s t out
  | raiseAfter {o : Op} {next fail} {s t : σ} (e : ε) {out}
      (h : Ends I (fail e) (I o s).1 t out) : Ends I (.call o next fail) s t out

/-- The uninterrupted execution is one of the executions with faults. -/
theorem ends_exec (I : Interp Op Ret ε σ) (p : Prog Op Ret ε α) (s : σ) :
    p.Ends I s (p.exec I s).1 (some (p.exec I s).2) := by
  induction p generalizing s with
  | pure a => exact .pure a s
  | throw e => exact .throw e s
  | call o next fail ihn ihf =>
    cases h : I o s with
    | mk s' r =>
      cases r with
      | ok r => rw [exec_call_ok I h]; exact .replies h (ihn r s')
      | error e => rw [exec_call_error I h]; exact .errors h (ihf e s')

/-- The crash condition `C` holds between any two operations of an execution from `s`, whatever
faults it meets, and `Q` holds of the value and state it returns with. -/
def Safe (I : Interp Op Ret ε σ) (C : σ → Prop) (Q : α → σ → Prop) :
    Prog Op Ret ε α → σ → Prop
  | .pure a, s => C s ∧ Q a s
  | .throw _, s => C s
  | .call o next fail, s => C s ∧
      (∀ s' r, I o s = (s', .ok r) → Safe I C Q (next r) s') ∧
      (∀ s' e, I o s = (s', .error e) → Safe I C Q (fail e) s') ∧
      (∀ e, Safe I C Q (fail e) s) ∧ ∀ e, Safe I C Q (fail e) (I o s).1

section Safe

variable {I : Interp Op Ret ε σ} {C : σ → Prop} {Q : α → σ → Prop}

theorem Safe.crash {p : Prog Op Ret ε α} {s : σ} (h : p.Safe I C Q s) : C s := by
  cases p with
  | pure a => exact h.1
  | throw e => exact h
  | call o next fail => exact h.1

/-- **Soundness of the crash condition.** However an execution of a safe program ends, the crash
condition holds, and if it returned then so does the postcondition. -/
theorem Safe.sound {p : Prog Op Ret ε α} {s t : σ} {out : Option (Except ε α)}
    (hp : p.Safe I C Q s) (h : p.Ends I s t out) :
    C t ∧ ∀ a, out = some (.ok a) → Q a t := by
  induction h with
  | pure a s =>
    refine ⟨hp.1, ?_⟩
    rintro _ ⟨⟩
    exact hp.2
  | throw e s => exact ⟨hp, by simp⟩
  | die p s => exact ⟨hp.crash, by simp⟩
  | replies hI _ ih => exact ih (hp.2.1 _ _ hI)
  | errors hI _ ih => exact ih (hp.2.2.1 _ _ hI)
  | raiseBefore e _ ih => exact ih (hp.2.2.2.1 e)
  | raiseAfter e _ ih => exact ih (hp.2.2.2.2 e)

theorem Safe.mono {C' : σ → Prop} {Q' : α → σ → Prop} {p : Prog Op Ret ε α} {s : σ}
    (h : p.Safe I C Q s) (hC : ∀ s, C s → C' s) (hQ : ∀ a s, C s → Q a s → Q' a s) :
    p.Safe I C' Q' s := by
  induction p generalizing s with
  | pure a => exact ⟨hC s h.1, hQ a s h.1 h.2⟩
  | throw e => exact hC s h
  | call o next fail ihn ihf =>
    obtain ⟨hs, hr, he, hb, ha⟩ := h
    exact ⟨hC s hs, fun s' r h => ihn r (hr s' r h), fun s' e h => ihf e (he s' e h),
      fun e => ihf e (hb e), fun e => ihf e (ha e)⟩

theorem Safe.bind {R : β → σ → Prop} {p : Prog Op Ret ε α} {f : α → Prog Op Ret ε β} {s : σ}
    (hp : p.Safe I C Q s) (hf : ∀ a t, C t → Q a t → (f a).Safe I C R t) :
    (p >>= f).Safe I C R s := by
  induction p generalizing s with
  | pure a => exact hf a s hp.1 hp.2
  | throw e => exact hp
  | call o next fail ihn ihf =>
    obtain ⟨hs, hr, he, hb, ha⟩ := hp
    exact ⟨hs, fun s' r h => ihn r (hr s' r h), fun s' e h => ihf e (he s' e h),
      fun e => ihf e (hb e), fun e => ihf e (ha e)⟩

theorem Safe.tryCatch {p : Prog Op Ret ε α} {h : ε → Prog Op Ret ε α} {s : σ}
    (hp : p.Safe I C Q s) (hh : ∀ e t, C t → (h e).Safe I C Q t) :
    (p.tryCatch h).Safe I C Q s := by
  induction p generalizing s with
  | pure a => exact hp
  | throw e => exact hh e s hp
  | call o next fail ihn ihf =>
    obtain ⟨hs, hr, he, hb, ha⟩ := hp
    exact ⟨hs, fun s' r h => ihn r (hr s' r h), fun s' e h => ihf e (he s' e h),
      fun e => ihf e (hb e), fun e => ihf e (ha e)⟩

/-- A body that keeps to a stronger crash condition, under which its handler starts. -/
theorem Safe.tryCatchWith {C' : σ → Prop} {p : Prog Op Ret ε α} {h : ε → Prog Op Ret ε α} {s : σ}
    (hp : p.Safe I C' Q s) (hC : ∀ t, C' t → C t) (hh : ∀ e t, C' t → (h e).Safe I C Q t) :
    (p.tryCatch h).Safe I C Q s := by
  induction p generalizing s with
  | pure a => exact ⟨hC s hp.1, hp.2⟩
  | throw e => exact hh e s hp
  | call o next fail ihn ihf =>
    obtain ⟨hs, hr, he, hb, ha⟩ := hp
    exact ⟨hC s hs, fun s' r h => ihn r (hr s' r h), fun s' e h => ihf e (he s' e h),
      fun e => ihf e (hb e), fun e => ihf e (ha e)⟩

theorem safe_ofExcept {x : Except ε α} {s : σ} (hs : C s) (h : ∀ a, x = .ok a → Q a s) :
    (ofExcept x : Prog Op Ret ε α).Safe I C Q s := by
  cases x with
  | ok a => exact ⟨hs, h a rfl⟩
  | error e => exact hs

/-- The rule for a program that goes on with the value of an `Except`. -/
theorem safe_ofExcept_bind {x : Except ε α} {f : α → Prog Op Ret ε β} {R : β → σ → Prop} {s : σ}
    (hs : C s) (h : ∀ a, x = .ok a → (f a).Safe I C R s) : (ofExcept x >>= f).Safe I C R s := by
  cases x with
  | ok a => exact h a rfl
  | error e => exact hs

/-- The rule for an operation that cannot raise by itself. -/
theorem Safe.call {o : Op} {next : Ret o → Prog Op Ret ε α} {s s' : σ} {r : Ret o}
    (hI : I o s = (s', .ok r)) (hs : C s) (h : (next r).Safe I C Q s') :
    (Prog.call o next .throw).Safe I C Q s := by
  refine ⟨hs, fun t r' h' => ?_, fun t e h' => ?_, fun _ => hs, fun _ => ?_⟩
  · rw [hI] at h'
    cases h'
    exact h
  · rw [hI] at h'
    cases h'
  · rw [hI]
    exact h.crash

/-- The rule for an operation that may raise by itself: only the crash condition is left to
show for the exception. -/
theorem Safe.callOrRaise {o : Op} {next : Ret o → Prog Op Ret ε α} {s : σ}
    (hs : C s) (hs' : C (I o s).1)
    (h : ∀ r, (I o s).2 = .ok r → (next r).Safe I C Q (I o s).1) :
    (Prog.call o next .throw).Safe I C Q s := by
  refine ⟨hs, fun t r h' => ?_, fun t e h' => ?_, fun _ => hs, fun _ => hs'⟩
  · rw [h'] at h
    exact h r rfl
  · rw [h'] at hs'
    exact hs'

/-- A loop is safe if every pass through its body keeps the loop invariant. -/
theorem Safe.forEach {γ : Type} {J : σ → Prop} {p : γ → Prog Op Ret ε PUnit} {xs : List γ} {s : σ}
    (hs : C s) (hJ : J s)
    (hp : ∀ x ∈ xs, ∀ t, C t → J t → (p x).Safe I C (fun _ t => J t) t) :
    (Prog.forEach p xs).Safe I C (fun _ t => J t) s := by
  induction xs generalizing s with
  | nil => exact ⟨hs, hJ⟩
  | cons x xs ih =>
    refine (hp x List.mem_cons_self s hs hJ).bind fun _ t ht hJt => ?_
    exact ih ht hJt fun y hy => hp y (List.mem_cons_of_mem x hy)

/-- A loop with an accumulator is safe if every pass through its body keeps the loop invariant,
which speaks about the entries done so far. -/
theorem Safe.foldM {γ : Type} (J : List γ → β → σ → Prop) {p : β → γ → Prog Op Ret ε β}
    {xs : List γ} {b : β} {s : σ} (hs : C s) (h : J [] b s)
    (hp : ∀ done x rest, done ++ x :: rest = xs → ∀ b t, C t → J done b t →
      (p b x).Safe I C (fun b t => J (done ++ [x]) b t) t) :
    (Prog.foldM p b xs).Safe I C (fun b t => J xs b t) s := by
  suffices hgen : ∀ rest done b s, done ++ rest = xs → C s → J done b s →
      (Prog.foldM p b rest).Safe I C (fun b t => J xs b t) s from hgen xs [] b s rfl hs h
  intro rest
  induction rest with
  | nil =>
    intro done b s hdone hs hJ
    rw [List.append_nil] at hdone
    subst hdone
    exact ⟨hs, hJ⟩
  | cons x rest ih =>
    intro done b s hdone hs hJ
    refine (hp done x rest hdone b s hs hJ).bind fun b t ht hJ => ?_
    exact ih (done ++ [x]) b t (by simpa using hdone) ht hJ

/-- A condition that every called operation preserves holds at every fault. -/
theorem safe_of_calls {A : Op → Prop} (hI : ∀ o s, A o → C s → C (I o s).1)
    {p : Prog Op Ret ε α} (hp : p.Calls A) {s : σ} (hs : C s) :
    p.Safe I C (fun _ _ => True) s := by
  induction p generalizing s with
  | pure a => exact ⟨hs, trivial⟩
  | throw e => exact hs
  | call o next fail ihn ihf =>
    have hs' := hI o s hp.1 hs
    refine ⟨hs, fun t r h => ?_, fun t e h => ?_, fun e => ihf e (hp.2.2 e) hs,
      fun e => ihf e (hp.2.2 e) hs'⟩
    · rw [h] at hs'
      exact ihn r (hp.2.1 r) hs'
    · rw [h] at hs'
      exact ihf e (hp.2.2 e) hs'

/-- A program whose operations leave the view `f` of the state alone does not disturb a condition
on that view. -/
theorem safe_frame {τ : Type} {f : σ → τ} {A : Op → Prop} (hI : ∀ o s, A o → f (I o s).1 = f s)
    {p : Prog Op Ret ε α} (hp : p.Calls A) {s : σ} (hC : ∀ t, f t = f s → C t) :
    p.Safe I C (fun _ t => f t = f s) s := by
  have h : p.Safe I (fun t => f t = f s) (fun _ _ => True) s :=
    safe_of_calls (fun o t ho ht => (hI o t ho).trans ht) hp rfl
  exact h.mono hC fun _ _ ht _ => ht

/-- An uninterrupted execution that returns satisfies the postcondition as well. -/
theorem Safe.returns {R : α → σ → Prop} {p : Prog Op Ret ε α} {s : σ} (hp : p.Safe I C Q s)
    (h : p.Returns I R s) : p.Returns I (fun a t => C t ∧ Q a t ∧ R a t) s := by
  obtain ⟨t, a, hexec, hR⟩ := h
  have hends := ends_exec I p s
  rw [hexec] at hends
  obtain ⟨hC, hQ⟩ := hp.sound hends
  exact ⟨t, a, hexec, hC, hQ a rfl, hR⟩

end Safe

/-- A program over the second signature at faults, beside a first component. -/
theorem Safe.inr {Op₁ Op₂ : Type} {Ret₁ : Op₁ → Type} {Ret₂ : Op₂ → Type} {σ₁ σ₂ : Type}
    {I₁ : Interp Op₁ Ret₁ ε σ₁} {I₂ : Interp Op₂ Ret₂ ε σ₂} {C : σ₂ → Prop}
    {Q : α → σ₂ → Prop} {p : Prog Op₂ Ret₂ ε α} {s : σ₁ × σ₂} (h : p.Safe I₂ C Q s.2) :
    (p.inr : Prog _ (SumRet Ret₁ Ret₂) ε α).Safe (I₁.sum I₂)
      (fun t => t.1 = s.1 ∧ C t.2) (fun a t => Q a t.2) s := by
  suffices hgen : ∀ (s₂ : σ₂), p.Safe I₂ C Q s₂ →
      (p.inr : Prog _ (SumRet Ret₁ Ret₂) ε α).Safe (I₁.sum I₂)
        (fun t => t.1 = s.1 ∧ C t.2) (fun a t => Q a t.2) (s.1, s₂) from hgen s.2 h
  clear h
  induction p with
  | pure a => exact fun s₂ h => ⟨⟨rfl, h.1⟩, h.2⟩
  | throw e => exact fun s₂ h => ⟨rfl, h⟩
  | call o next fail ihn ihf =>
    rintro s₂ ⟨hs, hr, he, hb, ha⟩
    refine ⟨⟨rfl, hs⟩, fun t r hexec => ?_, fun t e hexec => ?_, fun e => ihf e s₂ (hb e),
      fun e => ihf e _ (ha e)⟩
    · obtain ⟨rfl, hreply⟩ := Prod.mk.inj hexec
      exact ihn r _ (hr _ r (Prod.ext rfl hreply))
    · obtain ⟨rfl, hreply⟩ := Prod.mk.inj hexec
      exact ihf e _ (he _ e (Prod.ext rfl hreply))

end Prog

/-! ### Explicit crashes -/

namespace Prog

variable {Op : Type} {Ret : Op → Type} {ε σ α : Type}

/-- The state in which the process dies after `n` operations. -/
def crashAfter (I : Interp Op Ret ε σ) : ℕ → Prog Op Ret ε α → σ → σ
  | n + 1, .call o next fail, s =>
      match I o s with
      | (s', .ok r) => crashAfter I n (next r) s'
      | (s', .error e) => crashAfter I n (fail e) s'
  | _, _, s => s

theorem ends_crashAfter (I : Interp Op Ret ε σ) (n : ℕ) (p : Prog Op Ret ε α) (s : σ) :
    p.Ends I s (p.crashAfter I n s) none := by
  induction n generalizing p s with
  | zero => exact .die p s
  | succ n ih =>
    cases p with
    | pure a => exact .die _ s
    | throw e => exact .die _ s
    | call o next fail =>
      simp only [crashAfter]
      cases h : I o s with
      | mk s' r =>
        cases r with
        | ok r => exact .replies h (ih (next r) s')
        | error e => exact .errors h (ih (fail e) s')

end Prog

/-! ### Ghost components -/

/-- An interpretation that keeps a ghost component: `mark` sees each operation and the state
before it, and no operation reads what it records. -/
def Interp.ghost {Op : Type} {Ret : Op → Type} {ε σ γ : Type} (I : Interp Op Ret ε σ)
    (mark : Op → σ → γ → γ) : Interp Op Ret ε (σ × γ)
  | o, s => (((I o s.1).1, mark o s.1 s.2), (I o s.1).2)

namespace Prog

variable {Op : Type} {Ret : Op → Type} {ε σ γ α : Type}

/-- The ghost component does not influence an execution. -/
theorem exec_ghost (I : Interp Op Ret ε σ) (mark : Op → σ → γ → γ) (p : Prog Op Ret ε α)
    (s : σ × γ) :
    ((p.exec (I.ghost mark) s).1.1, (p.exec (I.ghost mark) s).2) =
      ((p.exec I s.1).1, (p.exec I s.1).2) := by
  induction p generalizing s with
  | pure a => rfl
  | throw e => rfl
  | call o next fail ihn ihf =>
    simp only [exec, Interp.ghost]
    rcases I o s.1 with ⟨s', e | r⟩
    · exact ihf e (s', _)
    · exact ihn r (s', _)

/-- Every execution with faults can keep a ghost component. -/
theorem Ends.ghost {I : Interp Op Ret ε σ} {p : Prog Op Ret ε α} {s t : σ}
    {out : Option (Except ε α)} (h : p.Ends I s t out) (mark : Op → σ → γ → γ) (g : γ) :
    ∃ g', p.Ends (I.ghost mark) (s, g) (t, g') out := by
  induction h generalizing g with
  | pure a s => exact ⟨g, .pure a _⟩
  | throw e s => exact ⟨g, .throw e _⟩
  | die p s => exact ⟨g, .die p _⟩
  | @replies o _ _ s s' t r out hI _ ih =>
    obtain ⟨g', h⟩ := ih (mark o s g)
    exact ⟨g', .replies (by simp only [Interp.ghost, hI]) h⟩
  | @errors o _ _ s s' t e out hI _ ih =>
    obtain ⟨g', h⟩ := ih (mark o s g)
    exact ⟨g', .errors (by simp only [Interp.ghost, hI]) h⟩
  | raiseBefore e _ ih =>
    obtain ⟨g', h⟩ := ih g
    exact ⟨g', .raiseBefore e h⟩
  | @raiseAfter o _ _ s t e out _ ih =>
    obtain ⟨g', h⟩ := ih (mark o s g)
    exact ⟨g', .raiseAfter e h⟩

/-- An execution with faults that keeps a ghost component is one of the program without it. -/
theorem Ends.of_ghost {I : Interp Op Ret ε σ} {mark : Op → σ → γ → γ} {p : Prog Op Ret ε α}
    {s t : σ × γ} {out : Option (Except ε α)} (h : p.Ends (I.ghost mark) s t out) :
    p.Ends I s.1 t.1 out := by
  induction h with
  | pure a s => exact .pure a s.1
  | throw e s => exact .throw e s.1
  | die p s => exact .die p s.1
  | replies hI _ ih =>
    obtain ⟨rfl, hr⟩ := Prod.mk.inj hI
    exact .replies (Prod.ext rfl hr) ih
  | errors hI _ ih =>
    obtain ⟨rfl, he⟩ := Prod.mk.inj hI
    exact .errors (Prod.ext rfl he) ih
  | raiseBefore e _ ih => exact .raiseBefore e ih
  | raiseAfter e _ ih => exact .raiseAfter e ih

theorem Returns.ghost {I : Interp Op Ret ε σ} {mark : Op → σ → γ → γ} {Q : α → σ → Prop}
    {p : Prog Op Ret ε α} {s : σ × γ} (h : p.Returns I Q s.1) :
    p.Returns (I.ghost mark) (fun a t => Q a t.1) s := by
  obtain ⟨t, a, hexec, hQ⟩ := h
  have heq := exec_ghost I mark p s
  rw [hexec] at heq
  obtain ⟨rfl, hreply⟩ := Prod.mk.inj heq
  exact ⟨_, a, Prod.ext rfl hreply, hQ⟩

end Prog

end Stel
