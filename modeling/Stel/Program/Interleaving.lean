import Stel.Program.Basic
import Mathlib.Logic.Function.Basic
import Mathlib.Logic.Relation

/-!
# Interleaved sessions

Any number of sessions run programs against one shared state. A step starts the program of a call
in an idle session, lets one session perform its next operation, lets an operation raise an
exception without taking effect, or retires a session whose program has ended. Operations are
atomic; nothing else is. A session that died is one that no later step of the run advances.

A pool remembers the operations performed, newest first and each with the shared state it found,
and what the ended calls returned, so that statements about the order of operations need no
instrumentation of the programs. Runs may be restricted by a condition `allowed` on the operations
performed.

## Main definitions

* `Pool`, `Pool.Event`: the shared state, the sessions, the history and the results.
* `Pool.Step`, `Pool.Reaches`: one step, and runs.
* `Pool.replay`: the run of an explicit schedule.

## Main results

* `Pool.Reaches.invariant`: an invariant of single steps holds along runs.
* `Pool.Reaches.shared_invariant`: an invariant that the called operations preserve holds of the
  shared state of every reachable pool.
* `Pool.reaches_of_replay`: a schedule that can be replayed is a run.
-/

namespace Stel

/-- One performed operation: the session, the operation, and the shared state it was applied to. -/
structure Event (ι Op σ : Type) where
  session : ι
  op : Op
  before : σ

/-- Sessions `ι` running programs against a shared state `σ`. -/
structure Pool (ι Op : Type) (Ret : Op → Type) (ε σ α : Type) where
  shared : σ
  sessions : ι → Option (Prog Op Ret ε α)
  history : List (Event ι Op σ)
  returned : List (ι × Except ε α)

namespace Pool

variable {ι Op : Type} {Ret : Op → Type} {ε σ α κ : Type} [DecidableEq ι]

/-- The pool with the shared state `s` in which no session runs anything. -/
def initial (s : σ) : Pool ι Op Ret ε σ α :=
  ⟨s, fun _ => none, [], []⟩

/-- The program after the operation replied or raised. -/
def resume {o : Op} (next : Ret o → Prog Op Ret ε α) (fail : ε → Prog Op Ret ε α) :
    Except ε (Ret o) → Prog Op Ret ε α
  | .ok r => next r
  | .error e => fail e

/-- Session `i` continues as `p`, or becomes idle. -/
def setSession (c : Pool ι Op Ret ε σ α) (i : ι) (p : Option (Prog Op Ret ε α)) :
    Pool ι Op Ret ε σ α :=
  { c with sessions := Function.update c.sessions i p }

/-- Session `i` performs the operation `o` on the shared state. -/
def perform (I : Interp Op Ret ε σ) (c : Pool ι Op Ret ε σ α) (i : ι) (o : Op)
    (next : Ret o → Prog Op Ret ε α) (fail : ε → Prog Op Ret ε α) : Pool ι Op Ret ε σ α where
  shared := (I o c.shared).1
  sessions := Function.update c.sessions i (some (resume next fail (I o c.shared).2))
  history := ⟨i, o, c.shared⟩ :: c.history
  returned := c.returned

/-- Session `i` ends its call with the result `r`. -/
def retire (c : Pool ι Op Ret ε σ α) (i : ι) (r : Except ε α) : Pool ι Op Ret ε σ α :=
  { c.setSession i none with returned := (i, r) :: c.returned }

/-- One step of the sessions, calls being started from `code`. An operation is performed only where
`allowed` permits it; faults and the local steps are always possible. -/
inductive Step (I : Interp Op Ret ε σ) (code : κ → Prog Op Ret ε α)
    (allowed : Pool ι Op Ret ε σ α → ι → Op → Prop) :
    Pool ι Op Ret ε σ α → Pool ι Op Ret ε σ α → Prop
  | start (c) (i : ι) (k : κ) (idle : c.sessions i = none) :
      Step I code allowed c (c.setSession i (some (code k)))
  | advance (c) (i : ι) (o : Op) (next fail)
      (running : c.sessions i = some (.call o next fail)) (permitted : allowed c i o) :
      Step I code allowed c (c.perform I i o next fail)
  | fault (c) (i : ι) (o : Op) (next fail) (e : ε)
      (running : c.sessions i = some (.call o next fail)) :
      Step I code allowed c (c.setSession i (some (fail e)))
  | finish (c) (i : ι) (a : α) (ended : c.sessions i = some (.pure a)) :
      Step I code allowed c (c.retire i (.ok a))
  | crash (c) (i : ι) (e : ε) (ended : c.sessions i = some (.throw e)) :
      Step I code allowed c (c.retire i (.error e))

/-- `c.Reaches I code allowed d`: some run leads from `c` to `d`. -/
def Reaches (I : Interp Op Ret ε σ) (code : κ → Prog Op Ret ε α)
    (allowed : Pool ι Op Ret ε σ α → ι → Op → Prop) (c d : Pool ι Op Ret ε σ α) : Prop :=
  Relation.ReflTransGen (Step I code allowed) c d

/-- The condition that permits every operation. -/
def anyOp : Pool ι Op Ret ε σ α → ι → Op → Prop := fun _ _ _ => True

section Invariants

variable {I : Interp Op Ret ε σ} {code : κ → Prog Op Ret ε α}
  {allowed : Pool ι Op Ret ε σ α → ι → Op → Prop}

/-- A property that holds of a pool and that every step keeps holds along every run. -/
theorem Reaches.invariant {J : Pool ι Op Ret ε σ α → Prop} {c d : Pool ι Op Ret ε σ α}
    (h : c.Reaches I code allowed d) (hc : J c)
    (hstep : ∀ c d, J c → Step I code allowed c d → J d) : J d := by
  induction h with
  | refl => exact hc
  | tail _ hs ih => exact hstep _ _ ih hs

/-- Every operation that some session can still call satisfies `A`. -/
def Calls (A : Op → Prop) (c : Pool ι Op Ret ε σ α) : Prop :=
  ∀ i p, c.sessions i = some p → p.Calls A

omit [DecidableEq ι] in
theorem calls_initial (A : Op → Prop) (s : σ) :
    (initial s : Pool ι Op Ret ε σ α).Calls A := by
  intro i p hp
  cases hp

theorem Calls.setSession {A : Op → Prop} {c : Pool ι Op Ret ε σ α} (hc : c.Calls A) (i : ι)
    {p : Option (Prog Op Ret ε α)} (hp : ∀ q, p = some q → q.Calls A) :
    (c.setSession i p).Calls A := by
  intro j q hq
  by_cases hj : j = i
  · subst hj
    exact hp q (by simpa [Pool.setSession] using hq)
  · exact hc j q (by simpa [Pool.setSession, hj] using hq)

theorem calls_resume {A : Op → Prop} {o : Op} {next : Ret o → Prog Op Ret ε α}
    {fail : ε → Prog Op Ret ε α} (h : (Prog.call o next fail).Calls A) (r : Except ε (Ret o)) :
    (resume next fail r).Calls A := by
  cases r with
  | ok r => exact h.2.1 r
  | error e => exact h.2.2 e

/-- The operations that sessions can still call keep satisfying what the started programs' do. -/
theorem Step.calls {A : Op → Prop} (hcode : ∀ k, (code k).Calls A) {c d : Pool ι Op Ret ε σ α}
    (hc : c.Calls A) (h : Step I code allowed c d) : d.Calls A := by
  cases h with
  | start i k idle =>
    refine hc.setSession i ?_
    rintro _ ⟨⟩
    exact hcode k
  | advance i o next fail running permitted =>
    refine hc.setSession i (p := some (resume next fail (I o c.shared).2)) ?_
    rintro _ ⟨⟩
    exact calls_resume (hc i _ running) _
  | fault i o next fail e running =>
    refine hc.setSession i ?_
    rintro _ ⟨⟩
    exact (hc i _ running).2.2 e
  | finish i a ended => exact hc.setSession i (by simp)
  | crash i e ended => exact hc.setSession i (by simp)

/-- **Invariants of the shared state.** If every operation of the started programs keeps `J`, then
`J` holds of the shared state in every reachable pool. -/
theorem Reaches.shared_invariant {A : Op → Prop} {J : σ → Prop}
    (hcode : ∀ k, (code k).Calls A) (hI : ∀ o s, A o → J s → J (I o s).1)
    {c d : Pool ι Op Ret ε σ α} (h : c.Reaches I code allowed d) (hc : c.Calls A)
    (hJ : J c.shared) : J d.shared ∧ d.Calls A := by
  refine h.invariant (J := fun d => J d.shared ∧ d.Calls A) ⟨hJ, hc⟩ ?_
  rintro c d ⟨hJ, hc⟩ hs
  refine ⟨?_, hs.calls hcode hc⟩
  cases hs with
  | start i k idle => exact hJ
  | advance i o next fail running permitted => exact hI o _ (hc i _ running).1 hJ
  | fault i o next fail e running => exact hJ
  | finish i a ended => exact hJ
  | crash i e ended => exact hJ

/-- A proof that sessions act on valid knowledge. `valid h i k` says that the knowledge `k` of
session `i` is right after the history `h`: at the start of a call, after what the session learnt
from a reply, and while operations teach the session nothing. `inv` is an invariant of the shared
state and the history that the justified operations keep, and `final` is what the values returned
on valid knowledge satisfy from then on. -/
structure KnowledgeProof {K : Type} (I : Interp Op Ret ε σ) (code : κ → Prog Op Ret ε α)
    (allowed : Pool ι Op Ret ε σ α → ι → Op → Prop) (learn : (o : Op) → Ret o → K → K)
    (ok : K → Op → Prop) (fin : K → α → Prop) where
  inv : σ → List (Event ι Op σ) → Prop
  valid : List (Event ι Op σ) → ι → K → Prop
  final : List (Event ι Op σ) → α → Prop
  start : ∀ h i k, ∃ known, valid h i known ∧ (code k).Justified learn ok fin known
  perform : ∀ c : Pool ι Op Ret ε σ α, ∀ i o known, inv c.shared c.history → allowed c i o →
    valid c.history i known → ok known o →
    inv (I o c.shared).1 (⟨i, o, c.shared⟩ :: c.history)
  learns : ∀ c : Pool ι Op Ret ε σ α, ∀ i o r known, inv c.shared c.history → allowed c i o →
    valid c.history i known → (I o c.shared).2 = .ok r →
    valid (⟨i, o, c.shared⟩ :: c.history) i (learn o r known)
  keeps : ∀ c : Pool ι Op Ret ε σ α, ∀ i j o known, inv c.shared c.history →
    (i = j → ∃ e, (I o c.shared).2 = .error e) → valid c.history i known →
    valid (⟨j, o, c.shared⟩ :: c.history) i known
  finishes : ∀ h i known a, valid h i known → fin known a → final h a
  lasts : ∀ h e a, final h a → final (e :: h) a

/-- The invariant holds, each running program is justified by some valid knowledge, and each
returned value is final. -/
def KnowledgeProof.Good {K : Type} {learn : (o : Op) → Ret o → K → K} {ok : K → Op → Prop}
    {fin : K → α → Prop} (P : KnowledgeProof I code allowed learn ok fin)
    (c : Pool ι Op Ret ε σ α) : Prop :=
  P.inv c.shared c.history ∧
    (∀ i p, c.sessions i = some p →
      ∃ known, P.valid c.history i known ∧ p.Justified learn ok fin known) ∧
    ∀ i (a : α), (i, .ok a) ∈ c.returned → P.final c.history a

/-- **What the sessions know.** Sessions that act on valid knowledge keep doing so. -/
theorem Reaches.knowledge {K : Type} {learn : (o : Op) → Ret o → K → K} {ok : K → Op → Prop}
    {fin : K → α → Prop} (P : KnowledgeProof I code allowed learn ok fin) {s : σ}
    {d : Pool ι Op Ret ε σ α} (h : (initial s).Reaches I code allowed d) (hs : P.inv s []) :
    P.Good d := by
  have hinit : P.Good (initial s) := by
    refine ⟨hs, ?_, ?_⟩
    · intro i p hp
      cases hp
    · intro i a ha
      cases ha
  refine h.invariant hinit ?_
  rintro c d ⟨hinv, hknow, hret⟩ hstep
  have hset : ∀ i (q : Option (Prog Op Ret ε α)), (∀ p, q = some p →
      ∃ known, P.valid c.history i known ∧ p.Justified learn ok fin known) → ∀ j p,
      Function.update c.sessions i q j = some p →
      ∃ known, P.valid c.history j known ∧ p.Justified learn ok fin known := by
    intro i q hq j p hp
    by_cases hj : j = i
    · subst hj
      exact hq p (by simpa using hp)
    · exact hknow j p (by simpa [hj] using hp)
  cases hstep with
  | start i k idle =>
    refine ⟨hinv, hset i _ ?_, hret⟩
    rintro _ ⟨⟩
    exact P.start _ i k
  | advance i o next fail running permitted =>
    obtain ⟨known, hvalid, hok, hnext, hfail⟩ := hknow i _ running
    refine ⟨P.perform c i o known hinv permitted hvalid hok, ?_,
      fun j a ha => P.lasts _ _ _ (hret j a ha)⟩
    intro j p hp
    by_cases hj : j = i
    · subst hj
      have hp : resume next fail (I o c.shared).2 = p := by
        simpa [Pool.perform] using hp
      subst hp
      cases hr : (I o c.shared).2 with
      | ok r => exact ⟨_, P.learns c j o r known hinv permitted hvalid hr, hnext r⟩
      | error e => exact ⟨known, P.keeps c j j o known hinv (fun _ => ⟨e, hr⟩) hvalid, hfail e⟩
    · obtain ⟨known', hvalid', hjust⟩ := hknow j p (by simpa [Pool.perform, hj] using hp)
      exact ⟨known', P.keeps c j i o known' hinv (fun h => absurd h hj) hvalid', hjust⟩
  | fault i o next fail e running =>
    obtain ⟨known, hvalid, -, -, hfail⟩ := hknow i _ running
    refine ⟨hinv, hset i _ ?_, hret⟩
    rintro _ ⟨⟩
    exact ⟨known, hvalid, hfail e⟩
  | finish i a ended =>
    obtain ⟨known, hvalid, hfin⟩ := hknow i _ ended
    refine ⟨hinv, hset i none (by simp), fun j b hb => ?_⟩
    rcases List.mem_cons.mp hb with hb | hb
    · cases hb
      exact P.finishes _ _ _ _ hvalid hfin
    · exact hret j b hb
  | crash i e ended =>
    refine ⟨hinv, hset i none (by simp), fun j b hb => ?_⟩
    rcases List.mem_cons.mp hb with hb | hb
    · cases hb
    · exact hret j b hb

end Invariants

/-! ### Explicit schedules -/

/-- One scheduling decision. -/
inductive Act (ι κ : Type)
  | start (i : ι) (k : κ)
  | advance (i : ι)
  | retire (i : ι)

instance (c : Pool ι Op Ret ε σ α) (i : ι) (o : Op) : Decidable (anyOp c i o) :=
  inferInstanceAs (Decidable True)

section Replay

variable (I : Interp Op Ret ε σ) (code : κ → Prog Op Ret ε α)
  (allowed : Pool ι Op Ret ε σ α → ι → Op → Prop) [∀ c i o, Decidable (allowed c i o)]

/-- Carries out one scheduling decision, if it is possible and permitted. -/
def act (c : Pool ι Op Ret ε σ α) : Act ι κ → Option (Pool ι Op Ret ε σ α)
  | .start i k =>
      match c.sessions i with
      | none => some (c.setSession i (some (code k)))
      | some _ => none
  | .advance i =>
      match c.sessions i with
      | some (.call o next fail) => if allowed c i o then some (c.perform I i o next fail) else none
      | _ => none
  | .retire i =>
      match c.sessions i with
      | some (.pure a) => some (c.retire i (.ok a))
      | some (.throw e) => some (c.retire i (.error e))
      | _ => none

/-- Carries out a schedule. -/
def replay : List (Act ι κ) → Pool ι Op Ret ε σ α → Option (Pool ι Op Ret ε σ α)
  | [], c => some c
  | a :: as, c => (act I code allowed c a).bind (replay as)

/-- Where a schedule leads; a schedule that cannot be carried out leads nowhere else. -/
def after (c : Pool ι Op Ret ε σ α) (as : List (Act ι κ)) : Pool ι Op Ret ε σ α :=
  (replay I code allowed as c).getD c

variable {I code allowed}

theorem step_of_act {c d : Pool ι Op Ret ε σ α} {a : Act ι κ}
    (h : act I code allowed c a = some d) : Step I code allowed c d := by
  cases a with
  | start i k =>
    simp only [act] at h
    split at h
    · cases h
      exact .start c i k ‹_›
    · cases h
  | advance i =>
    simp only [act] at h
    split at h
    · obtain ⟨hp, hd⟩ := Option.ite_none_right_eq_some.mp h
      cases hd
      exact .advance c i _ _ _ ‹_› hp
    · cases h
  | retire i =>
    simp only [act] at h
    split at h
    · cases h
      exact .finish c i _ ‹_›
    · cases h
      exact .crash c i _ ‹_›
    · cases h

/-- A schedule that can be carried out is a run. -/
theorem reaches_of_replay {as : List (Act ι κ)} {c d : Pool ι Op Ret ε σ α}
    (h : replay I code allowed as c = some d) : c.Reaches I code allowed d := by
  induction as generalizing c with
  | nil =>
    cases h
    exact .refl
  | cons a as ih =>
    obtain ⟨b, hb, h⟩ := Option.bind_eq_some_iff.mp h
    exact .head (step_of_act hb) (ih h)

theorem reaches_after (c : Pool ι Op Ret ε σ α) (as : List (Act ι κ)) :
    c.Reaches I code allowed (c.after I code allowed as) := by
  unfold after
  cases h : replay I code allowed as c with
  | none => exact .refl
  | some d => exact reaches_of_replay h

end Replay

end Pool

end Stel
