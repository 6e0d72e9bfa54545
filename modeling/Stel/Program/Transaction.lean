import Stel.Program.Basic

/-!
# Statements and transactions

A session with a database runs statements one after another. A statement takes effect as a whole, or
raises and has none. Outside of a transaction its effect stays; `ROLLBACK` goes back to the state
before `BEGIN`, and so does a `COMMIT` that raises. A statement can raise because of what it does, and
for any other reason: a fault at the point of the program where it is.

## Main definitions

* `Session`, `Statement`, `Session.interp`: sessions, with faults at points.
* `Script`: programs over statements, with `Script.statement`, `Script.query`, `Script.transaction`.

## Main results

* `Script.meets_transaction`: a transaction that raises leaves the session as it was.
* `Script.exec_transaction_ok`, `Script.exec_transaction_error`: transactions without faults.
-/

namespace Stel

/-- A session: the store that its statements see, and what `ROLLBACK` goes back to. -/
structure Session (σ : Type) where
  store : σ
  saved : Option σ

/-- The session after `ROLLBACK`. -/
def Session.restored {σ : Type} (s : Session σ) : Session σ := ⟨s.saved.getD s.store, none⟩

/-- A statement at a point of a program. -/
inductive Statement (P σ ε : Type)
  | effect (point : P) (run : σ → Except ε σ)
  | beginTransaction (point : P)
  | commit (point : P)
  | rollback (point : P)

/-- The statement is none about transactions. -/
def Statement.IsEffect {P σ ε : Type} : Statement P σ ε → Prop
  | .effect _ _ => True
  | _ => False

/-- Programs over statements. A statement replies with the store after it. -/
abbrev Script (P σ ε α : Type) : Type := Prog (Statement P σ ε) (fun _ => σ) ε α

variable {P σ ε α β : Type}

/-- The statements of a session with faults. -/
def Session.interp (fault : P → Option ε) :
    Interp (Statement P σ ε) (fun _ => σ) ε (Session σ)
  | .effect point run, s =>
    match fault point with
    | some e => (s, .error e)
    | none =>
      match run s.store with
      | .ok t => (⟨t, s.saved⟩, .ok t)
      | .error e => (s, .error e)
  | .beginTransaction point, s =>
    match fault point with
    | some e => (s, .error e)
    | none => (⟨s.store, some s.store⟩, .ok s.store)
  | .commit point, s =>
    match fault point with
    | some e => (s.restored, .error e)
    | none => (⟨s.store, none⟩, .ok s.store)
  | .rollback point, s =>
    (s.restored, match fault point with
      | some e => .error e
      | none => .ok s.restored.store)

namespace Script

/-- One statement. -/
def statement (point : P) (run : σ → Except ε σ) : Script P σ ε σ := .perform (.effect point run)

/-- A statement that reads. -/
def query (point : P) : Script P σ ε σ := statement point .ok

/-- `BEGIN`, a body, and `COMMIT`; `ROLLBACK` if the body raises. -/
def transaction (begins commits rollsBack : P) (body : Script P σ ε α) : Script P σ ε α := do
  let _ ← Prog.perform (.beginTransaction begins)
  let result ← body.tryCatch fun e => do
    let _ ← Prog.perform (.rollback rollsBack)
    .throw e
  let _ ← Prog.perform (.commit commits)
  return result

variable {fault : P → Option ε} {s : Session σ}

theorem meets_statement {point : P} {run : σ → Except ε σ} {Q : σ → Session σ → Prop}
    {E : ε → Session σ → Prop}
    (hok : ∀ t, fault point = none → run s.store = .ok t → Q t ⟨t, s.saved⟩)
    (herror : ∀ e, fault point = some e ∨ fault point = none ∧ run s.store = .error e → E e s) :
    (statement point run).Meets (Session.interp fault) Q E s := by
  refine Prog.meets_perform (fun t r h => ?_) fun t e h => ?_
  · simp only [Session.interp] at h
    split at h
    · cases h
    · rename_i hfault
      split at h
      · rename_i hrun
        cases h
        exact hok _ hfault hrun
      · cases h
  · simp only [Session.interp] at h
    split at h
    · rename_i hfault
      cases h
      exact herror e (.inl hfault)
    · rename_i hfault
      split at h
      · cases h
      · rename_i hrun
        cases h
        exact herror e (.inr ⟨hfault, hrun⟩)

theorem meets_query {point : P} {Q : σ → Session σ → Prop} {E : ε → Session σ → Prop}
    (hok : fault point = none → Q s.store s) (herror : ∀ e, fault point = some e → E e s) :
    (query point).Meets (Session.interp fault) Q E s := by
  refine meets_statement (fun t hfault hrun => ?_) fun e he => ?_
  · obtain rfl := Except.ok.inj hrun
    exact hok hfault
  · rcases he with hfault | ⟨-, hrun⟩
    · exact herror e hfault
    · cases hrun

/-- A program of effects neither begins nor ends a transaction. -/
theorem meets_saved {p : Script P σ ε α} (hp : p.Calls Statement.IsEffect)
    {Q : α → Session σ → Prop} {E : ε → Session σ → Prop}
    (h : p.Meets (Session.interp fault) Q E s) :
    p.Meets (Session.interp fault) (fun a t => t.saved = s.saved ∧ Q a t)
      (fun e t => t.saved = s.saved ∧ E e t) s := by
  have hsaved : (p.exec (Session.interp fault) s).1.saved = s.saved := by
    clear h
    induction p generalizing s with
    | pure a => rfl
    | throw e => rfl
    | call o next fail ihn ihf =>
      obtain ⟨ho, hnext, hfail⟩ := hp
      have hstep : (Session.interp fault o s).1.saved = s.saved := by
        cases o with
        | effect point run =>
          simp only [Session.interp]
          split
          · rfl
          · split <;> rfl
        | _ => exact ho.elim
      rcases hI : Session.interp fault o s with ⟨t, e | r⟩
      · rw [hI] at hstep
        rw [Prog.exec_call_error _ hI, ihf e (hfail e), hstep]
      · rw [hI] at hstep
        rw [Prog.exec_call_ok _ hI, ihn r (hnext r), hstep]
  rw [Prog.Meets] at h ⊢
  rcases hexec : p.exec (Session.interp fault) s with ⟨t, e | a⟩
  · rw [hexec] at h hsaved
    exact ⟨hsaved, h⟩
  · rw [hexec] at h hsaved
    exact ⟨hsaved, h⟩

/-- A transaction commits what its body does, or raises and leaves the session as it was. -/
theorem meets_transaction {begins commits rollsBack : P} {body : Script P σ ε α}
    {Q : α → σ → Prop} {E : ε → Prop} (hs : s.saved = none)
    (hcalls : body.Calls Statement.IsEffect)
    (hbody : fault begins = none → body.Meets (Session.interp fault) (fun a t => Q a t.store)
      (fun e _ => E e) ⟨s.store, some s.store⟩) :
    (transaction begins commits rollsBack body).Meets (Session.interp fault)
      (fun a t => t.saved = none ∧ Q a t.store ∧ fault begins = none ∧ fault commits = none)
      (fun _ t => t = s ∧ (fault begins ≠ none ∨ fault commits ≠ none ∨ ∃ e, E e)) s := by
  have hrestored : ∀ t : Session σ, t.saved = some s.store → t.restored = s := by
    rintro ⟨store, saved⟩ hsaved
    obtain rfl : saved = some s.store := hsaved
    cases s
    simp_all [Session.restored]
  refine Prog.Meets.bind (Q := fun _ t => t = ⟨s.store, some s.store⟩ ∧ fault begins = none)
    (Prog.meets_perform (fun t r h => ?_) fun t e h => ?_) ?_
  · simp only [Session.interp] at h
    split at h
    · cases h
    · rename_i hfault
      cases h
      exact ⟨rfl, hfault⟩
  · simp only [Session.interp] at h
    split at h
    · rename_i hfault
      cases h
      exact ⟨rfl, .inl (by simp [hfault])⟩
    · cases h
  rintro - t ⟨rfl, hbegins⟩
  refine Prog.Meets.bind (Q := fun a t => t.saved = some s.store ∧ Q a t.store)
    (Prog.Meets.tryCatch _ (meets_saved hcalls (hbody hbegins)) ?_) ?_
  · rintro e t ⟨hsaved, he⟩
    have hback := hrestored t hsaved
    refine Prog.Meets.bind (Q := fun _ t => t = s) (Prog.meets_perform (fun u r h => ?_)
      fun u e' h => ?_) ?_
    · obtain ⟨rfl, -⟩ := Prod.mk.inj h
      exact hback
    · obtain ⟨rfl, -⟩ := Prod.mk.inj h
      exact ⟨hback, .inr (.inr ⟨e, he⟩)⟩
    · rintro - u rfl
      exact Prog.meets_throw ⟨rfl, .inr (.inr ⟨e, he⟩)⟩
  · rintro a t ⟨hsaved, ha⟩
    refine Prog.Meets.bind (Q := fun _ u => u = ⟨t.store, none⟩ ∧ fault commits = none)
      (Prog.meets_perform (fun u r h => ?_) fun u e h => ?_) ?_
    · simp only [Session.interp] at h
      split at h
      · cases h
      · rename_i hfault
        cases h
        exact ⟨rfl, hfault⟩
    · simp only [Session.interp] at h
      split at h
      · rename_i hfault
        cases h
        exact ⟨hrestored t hsaved, .inr (.inl (by simp [hfault]))⟩
      · cases h
    · rintro - u ⟨rfl, hcommits⟩
      exact Prog.meets_pure ⟨rfl, ha, hbegins, hcommits⟩

/-! ### Transactions without faults -/

theorem exec_statement (point : P) (run : σ → Except ε σ) (s : Session σ) :
    (statement point run).exec (Session.interp fun _ => none) s =
      match run s.store with
      | .ok t => (⟨t, s.saved⟩, .ok t)
      | .error e => (s, .error e) := by
  rw [statement, Prog.exec_perform]
  rfl

theorem exec_transaction_ok {begins commits rollsBack : P} {body : Script P σ ε α} {store : σ}
    {t : Session σ} {a : α}
    (h : body.exec (Session.interp fun _ => none) ⟨store, some store⟩ = (t, .ok a)) :
    (transaction begins commits rollsBack body).exec (Session.interp fun _ => none) ⟨store, none⟩ =
      (⟨t.store, none⟩, .ok a) := by
  rw [transaction, Prog.exec_bind, Prog.exec_perform]
  simp only [Session.interp]
  rw [Prog.exec_bind, Prog.exec_tryCatch, h]
  rfl

/-- A transaction whose body raises leaves the store as it was. -/
theorem exec_transaction_error {begins commits rollsBack : P} {body : Script P σ ε α} {store : σ}
    {t : Session σ} {e : ε}
    (h : body.exec (Session.interp fun _ => none) ⟨store, some store⟩ = (t, .error e))
    (hsaved : t.saved = some store) :
    (transaction begins commits rollsBack body).exec (Session.interp fun _ => none) ⟨store, none⟩ =
      (⟨store, none⟩, .error e) := by
  rw [transaction, Prog.exec_bind, Prog.exec_perform]
  simp only [Session.interp]
  rw [Prog.exec_bind, Prog.exec_tryCatch, h]
  simp only [Prog.exec_bind, Prog.exec_perform, Session.interp, Session.restored, hsaved,
    Option.getD_some, Prog.exec_throw]

end Script

end Stel
