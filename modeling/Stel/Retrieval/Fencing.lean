import Stel.Retrieval.Exclusion

/-!
# Fencing tokens

A claim issues the token one above the token of the scope's single row, and a recovery issues one
above the largest token it read. Tokens increase as long as the ledger row of the scope is always
there to be read: a recovery that dies after deleting it, or one whose rebuilding `_ensure_row`
anticipates, restarts the tokens at zero.

## Main definitions

* `minted`, `mintedOn`: the tokens that an event, a history issues on a scope.
* `FencesIncrease`: tokens are never reused.
* `guarded`: the ledger row of a scope with issued tokens is there when it is read or replaced.
* `Fenced`: the invariant of the ledger and the history.

## Main results

* `Fenced.exec`: every guarded statement keeps the invariant.
* `fences_increase`: in guarded runs tokens are never reused.
* `fence_reused`: they are after a recovery that died.
-/

namespace Stel.Retrieval

open ServingDb

/-- The statements performed so far, newest first. -/
abbrev History : Type := List (Event ℕ Stmt ServingDb)

/-- The tokens that an event issues on a scope. -/
def minted (scope : StateScope) (e : Event ℕ Stmt ServingDb) : List ℕ :=
  match e.op with
  | .claim sc _ _ =>
      if sc = scope then
        (e.before.ledger.filter (e.before.Claimable scope)).map (·.fencingToken + 1)
      else []
  | .insertRecovered sc nextFence => if sc = scope then [nextFence] else []
  | _ => []

/-- The tokens that a history issues on a scope. -/
def mintedOn (scope : StateScope) (h : History) : List ℕ :=
  h.flatMap (minted scope)

/-- The event is the claim statement that issued the lease. -/
def ClaimOf (uuid : ℕ → String) (lease : PublishLease) (e : Event ℕ Stmt ServingDb) : Prop :=
  (∃ code config, e.op = .claim lease.scope code config) ∧
    lease.publicationId = uuid e.before.drawn ∧ lease.fencingToken ∈ minted lease.scope e

/-- Some call of `acquire_publish` returned the lease. -/
def Sessions.Returned (c : Sessions) (lease : PublishLease) : Prop :=
  ∃ i, (i, .ok (.publishLease lease)) ∈ c.returned

/-- Fencing tokens are never reused: the tokens of the returned leases increase in the order of
their claims, and a recovery issues a token above every token issued before. -/
structure FencesIncrease (uuid : ℕ → String) (c : Sessions) : Prop where
  leases : c.history.Pairwise fun newer older => ∀ lease' lease, Sessions.Returned c lease' →
    Sessions.Returned c lease → ClaimOf uuid lease' newer → ClaimOf uuid lease older →
    lease'.scope = lease.scope → lease.fencingToken < lease'.fencingToken
  recovered : c.history.Pairwise fun newer older => ∀ scope nextFence,
    newer.op = .insertRecovered scope nextFence → ∀ t ∈ minted scope older, t < nextFence

/-- The tokens issued on a scope since the session last read its largest token. -/
def mintedSince (i : ℕ) (scope : StateScope) (h : History) : List ℕ :=
  mintedOn scope
    (h.takeWhile fun e => ¬ (e.session = i ∧ e.op = .selectMaxFence scope))

/-- The condition on a statement under which tokens are not reused. `_ensure_row` creates a row
only for a scope on which no token was issued, a recovery reads the largest token while the scope
has a row, and it inserts the new row only if no token was issued since. -/
def guarded (c : Sessions) (i : ℕ) : Stmt → Prop
  | .insertRowIfAbsent scope =>
      c.shared.rowsOf scope = [] → mintedOn scope c.history = []
  | .selectMaxFence scope =>
      c.shared.rowsOf scope = [] → mintedOn scope c.history = []
  | .insertRecovered scope _ => mintedSince i scope c.history = []
  | _ => True

instance (c : Sessions) (i : ℕ) (o : Stmt) : Decidable (guarded c i o) := by
  cases o <;> simp only [guarded] <;> infer_instance

/-! ### The ledger and the history -/

/-- The invariant of the ledger and the history. -/
structure Fenced (uuid : ℕ → String) (db : ServingDb) (h : History) : Prop where
  /-- The claim that a row carries was issued with the row's token. -/
  carried : ∀ row ∈ db.ledger, ∀ p ∈ row.publicationId,
    ∃ e ∈ h, ClaimOf uuid ⟨row.scope, p, row.fencingToken⟩ e
  /-- An `unpublished` row has never been claimed. -/
  unpublished : ∀ row ∈ db.ledger, row.status = .unpublished → row.fencingToken = 0
  /-- A scope that has rows has one whose token bounds every token issued on it. -/
  above : ∀ row ∈ db.ledger, ∃ top ∈ db.ledger, top.scope = row.scope ∧
    ∀ t ∈ mintedOn row.scope h, t ≤ top.fencingToken
  positive : ∀ scope, ∀ t ∈ mintedOn scope h, 0 < t
  increasing : h.Pairwise fun newer older => ∀ scope, ∀ t' ∈ minted scope newer,
    ∀ t ∈ minted scope older, t < t'

theorem mintedOn_cons (scope : StateScope) (e : Event ℕ Stmt ServingDb) (h : History) :
    mintedOn scope (e :: h) = minted scope e ++ mintedOn scope h :=
  List.flatMap_cons

theorem minted_eq_nil {e : Event ℕ Stmt ServingDb} (hc : ∀ sc a b, e.op ≠ .claim sc a b)
    (hr : ∀ sc f, e.op ≠ .insertRecovered sc f) (scope : StateScope) : minted scope e = [] := by
  unfold minted
  split
  · exact absurd ‹_› (hc _ _ _)
  · exact absurd ‹_› (hr _ _)
  · rfl

/-- The row that a claim finds is the only row of its scope. -/
theorem eq_of_claimable {db : ServingDb} {scope : StateScope} {row r : LedgerRow}
    (hc : db.Claimable scope row) (hrow : row ∈ db.ledger) (hr : r ∈ db.ledger)
    (hs : r.scope = scope) : r = row := by
  obtain ⟨only, honly⟩ := List.length_eq_one_iff.mp hc.2.2.2
  have hmem : ∀ x ∈ db.ledger, x.scope = scope → x = only := by
    intro x hx hxs
    have : x ∈ db.rowsOf scope := List.mem_filter.mpr ⟨hx, by simpa using hxs⟩
    simpa [honly] using this
  rw [hmem r hr hs, hmem row hrow hc.1]

theorem mem_minted_claim {scope sc : StateScope} {a b : String} {i t : ℕ} {db : ServingDb} :
    t ∈ minted scope ⟨i, .claim sc a b, db⟩ ↔
      sc = scope ∧ ∃ row ∈ db.ledger, db.Claimable scope row ∧ t = row.fencingToken + 1 := by
  simp only [minted]
  split
  · rename_i hsc
    simp only [List.mem_map, List.mem_filter, decide_eq_true_eq, hsc, true_and]
    constructor
    · rintro ⟨row, ⟨hrow, hc⟩, rfl⟩
      exact ⟨row, hrow, hc, rfl⟩
    · rintro ⟨row, hrow, hc, rfl⟩
      exact ⟨row, ⟨hrow, hc⟩, rfl⟩
  · rename_i hsc
    simp [hsc]

namespace Fenced

variable {uuid : ℕ → String} {db db' : ServingDb} {h : History}

/-- The history grows by an event that issues larger tokens only. -/
theorem extend (hf : Fenced uuid db h) (e : Event ℕ Stmt ServingDb)
    (hfresh : ∀ scope, ∀ t ∈ minted scope e, 0 < t ∧ ∀ u ∈ mintedOn scope h, u < t)
    (carried : ∀ row ∈ db'.ledger, ∀ p ∈ row.publicationId,
      ∃ e' ∈ e :: h, ClaimOf uuid ⟨row.scope, p, row.fencingToken⟩ e')
    (unpublished : ∀ row ∈ db'.ledger, row.status = .unpublished → row.fencingToken = 0)
    (above : ∀ row ∈ db'.ledger, ∃ top ∈ db'.ledger, top.scope = row.scope ∧
      ∀ t ∈ mintedOn row.scope (e :: h), t ≤ top.fencingToken) :
    Fenced uuid db' (e :: h) where
  carried := carried
  unpublished := unpublished
  above := above
  positive scope t ht := by
    rw [mintedOn_cons] at ht
    rcases List.mem_append.mp ht with ht | ht
    · exact (hfresh scope t ht).1
    · exact hf.positive scope t ht
  increasing := by
    refine List.pairwise_cons.mpr ⟨fun older hold scope t' ht' t ht => ?_, hf.increasing⟩
    exact (hfresh scope t' ht').2 t (List.mem_flatMap.mpr ⟨older, hold, ht⟩)

/-- An event that issues no token, with a ledger whose rows have their claims and tokens from old
rows, and in which no scope lost the row that bounds its tokens. -/
theorem quiet (hf : Fenced uuid db h) (e : Event ℕ Stmt ServingDb)
    (hnone : ∀ scope, minted scope e = [])
    (hrow : ∀ row ∈ db'.ledger,
      (∀ p ∈ row.publicationId, ∃ old ∈ db.ledger, old.scope = row.scope ∧
        old.publicationId = some p ∧ old.fencingToken = row.fencingToken) ∧
      (row.status = .unpublished → row.fencingToken = 0) ∧
      ∃ top ∈ db'.ledger, top.scope = row.scope ∧
        ∀ t ∈ mintedOn row.scope h, t ≤ top.fencingToken) :
    Fenced uuid db' (e :: h) := by
  refine hf.extend e (fun scope t ht => ?_) (fun row hr p hp => ?_)
    (fun row hr => (hrow row hr).2.1) (fun row hr => ?_)
  · rw [hnone scope] at ht
    cases ht
  · obtain ⟨old, hold, hs, hid, ht⟩ := (hrow row hr).1 p hp
    obtain ⟨e', he', hclaim⟩ := hf.carried old hold p hid
    rw [hs, ht] at hclaim
    exact ⟨e', List.mem_cons_of_mem _ he', hclaim⟩
  · rw [mintedOn_cons, hnone, List.nil_append]
    exact (hrow row hr).2.2

/-- An event that issues no token and leaves the ledger alone. -/
theorem same (hf : Fenced uuid db h) (e : Event ℕ Stmt ServingDb)
    (hnone : ∀ scope, minted scope e = []) (hl : db'.ledger = db.ledger) :
    Fenced uuid db' (e :: h) := by
  refine hf.quiet e hnone fun row hr => ?_
  rw [hl] at hr ⊢
  exact ⟨fun p hp => ⟨row, hr, rfl, hp, rfl⟩, hf.unpublished row hr, hf.above row hr⟩

/-- A claim issues a token above all earlier ones. -/
theorem claim (hf : Fenced uuid db h) (i : ℕ) (scope : StateScope) (code config : String) :
    Fenced uuid (Stmt.exec uuid (.claim scope code config) db).1
      (⟨i, .claim scope code config, db⟩ :: h) := by
  set e : Event ℕ Stmt ServingDb := ⟨i, .claim scope code config, db⟩ with he
  set f : LedgerRow → LedgerRow := fun row =>
    if db.Claimable scope row then claimed row (uuid db.drawn) code config else row with hdef
  have hscope : ∀ row, (f row).scope = row.scope := by
    intro row
    simp only [hdef]
    split <;> rfl
  have htoken : ∀ row, row.fencingToken ≤ (f row).fencingToken := by
    intro row
    simp only [hdef]
    split
    · exact Nat.le_succ _
    · exact le_rfl
  have hbound : ∀ row ∈ db.ledger, db.Claimable scope row →
      ∀ t ∈ mintedOn scope h, t ≤ row.fencingToken := by
    intro row hrow hc t ht
    obtain ⟨top, htop, hs, hle⟩ := hf.above row hrow
    rw [hc.1] at hs hle
    rw [← eq_of_claimable hc hrow htop hs]
    exact hle t ht
  refine hf.extend e ?_ ?_ ?_ ?_
  · intro sc t ht
    obtain ⟨rfl, row, hrow, hc, rfl⟩ := mem_minted_claim.mp ht
    refine ⟨Nat.succ_pos _, fun u hu => ?_⟩
    have := hbound row hrow hc u hu
    omega
  · intro r hr p hp
    obtain ⟨row, hrow, rfl⟩ := List.mem_map.mp hr
    by_cases hc : db.Claimable scope row
    · rw [if_pos hc] at hp ⊢
      refine ⟨e, List.mem_cons_self, ⟨code, config, ?_⟩, ?_, ?_⟩
      · show Stmt.claim scope code config = .claim row.scope code config
        rw [hc.1]
      · simpa [claimed, eq_comm] using hp
      · exact mem_minted_claim.mpr ⟨hc.1.symm, row, hrow, hc.1 ▸ hc, rfl⟩
    · rw [if_neg hc] at hp ⊢
      obtain ⟨e', he', hclaim⟩ := hf.carried row hrow p hp
      exact ⟨e', List.mem_cons_of_mem _ he', hclaim⟩
  · intro r hr hs
    obtain ⟨row, hrow, rfl⟩ := List.mem_map.mp hr
    by_cases hc : db.Claimable scope row
    · rw [if_pos hc] at hs
      cases hs
    · rw [if_neg hc] at hs ⊢
      exact hf.unpublished row hrow hs
  · intro r hr
    obtain ⟨row, hrow, rfl⟩ := List.mem_map.mp hr
    obtain ⟨top, htop, hs, hle⟩ := hf.above row hrow
    refine ⟨f top, List.mem_map_of_mem htop, ?_, fun t ht => ?_⟩
    · show (f top).scope = (f row).scope
      rw [hscope, hscope, hs]
    · rw [show (if db.Claimable scope row then claimed row (uuid db.drawn) code config
        else row) = f row from rfl, hscope, mintedOn_cons] at ht
      rcases List.mem_append.mp ht with ht | ht
      · obtain ⟨hsc, r, hr, hc, rfl⟩ := mem_minted_claim.mp ht
        have heq : top = r := eq_of_claimable hc hr htop hs
        have hcs : db.Claimable scope r := by rwa [hsc]
        rw [heq, hdef]
        simp only [if_pos hcs]
        exact le_rfl
      · exact (hle t ht).trans (htoken top)

/-- A recovered row with a token above all issued ones. -/
theorem insertRecovered (hf : Fenced uuid db h) (i : ℕ) (scope : StateScope) {nextFence : ℕ}
    (hpos : 0 < nextFence) (hlt : ∀ t ∈ mintedOn scope h, t < nextFence) :
    Fenced uuid (Stmt.exec uuid (.insertRecovered scope nextFence) db).1
      (⟨i, .insertRecovered scope nextFence, db⟩ :: h) := by
  have hmint : ∀ sc t, t ∈ minted sc ⟨i, .insertRecovered scope nextFence, db⟩ →
      scope = sc ∧ t = nextFence := by
    intro sc t ht
    simp only [minted] at ht
    split at ht
    · exact ⟨‹_›, List.mem_singleton.mp ht⟩
    · cases ht
  refine hf.extend _ ?_ ?_ ?_ ?_
  · intro sc t ht
    obtain ⟨rfl, rfl⟩ := hmint sc t ht
    exact ⟨hpos, hlt⟩
  · intro r hr p hp
    rcases List.mem_append.mp hr with hr | hr
    · obtain ⟨e', he', hclaim⟩ := hf.carried r hr p hp
      exact ⟨e', List.mem_cons_of_mem _ he', hclaim⟩
    · rw [List.mem_singleton.mp hr] at hp
      cases hp
  · intro r hr hs
    rcases List.mem_append.mp hr with hr | hr
    · exact hf.unpublished r hr hs
    · rw [List.mem_singleton.mp hr] at hs
      cases hs
  · intro r hr
    have hnew : ∀ t ∈ mintedOn scope (⟨i, .insertRecovered scope nextFence, db⟩ :: h),
        t ≤ nextFence := by
      intro t ht
      rw [mintedOn_cons] at ht
      rcases List.mem_append.mp ht with ht | ht
      · exact (hmint scope t ht).2.le
      · exact (hlt t ht).le
    by_cases hs : r.scope = scope
    · rw [hs]
      exact ⟨_, List.mem_append_right _ List.mem_cons_self, rfl, hnew⟩
    · rcases List.mem_append.mp hr with hr | hr
      · obtain ⟨top, htop, hts, hle⟩ := hf.above r hr
        refine ⟨top, List.mem_append_left _ htop, hts, fun t ht => hle t ?_⟩
        rw [mintedOn_cons] at ht
        rcases List.mem_append.mp ht with ht | ht
        · exact absurd (hmint _ t ht).1.symm hs
        · exact ht
      · rw [List.mem_singleton.mp hr] at hs
        exact absurd rfl hs

/-- Every statement keeps the invariant if it creates rows only on scopes without tokens, and
recovers a scope with a token above those issued. -/
theorem exec (hf : Fenced uuid db h) (i : ℕ) (o : Stmt) (hc : o.Completes)
    (hins : ∀ scope, o = .insertRowIfAbsent scope → db.rowsOf scope = [] → mintedOn scope h = [])
    (hrec : ∀ scope nextFence, o = .insertRecovered scope nextFence →
      0 < nextFence ∧ ∀ t ∈ mintedOn scope h, t < nextFence) :
    Fenced uuid (o.exec uuid db).1 (⟨i, o, db⟩ :: h) := by
  cases o with
  | createTable | selectRows | countLeases | selectLease | selectMaxFence | deleteLease
  | deleteLeases =>
    exact hf.same _ (minted_eq_nil (by simp) (by simp)) rfl
  | insertLease scope t g c =>
    refine hf.same _ (minted_eq_nil (by simp) (by simp)) ?_
    simp only [Stmt.exec]
    split <;> rfl
  | claim scope code config => exact hf.claim i scope code config
  | insertRecovered scope t =>
    exact hf.insertRecovered i scope (hrec scope t rfl).1 (hrec scope t rfl).2
  | insertRowIfAbsent scope =>
    by_cases hnone : db.rowsOf scope = []
    · refine hf.quiet _ (minted_eq_nil (by simp) (by simp)) fun row hr => ?_
      simp only [Stmt.exec, if_pos hnone] at hr ⊢
      rcases List.mem_append.mp hr with hr | hr
      · refine ⟨fun p hp => ⟨row, hr, rfl, hp, rfl⟩, hf.unpublished row hr, ?_⟩
        obtain ⟨top, htop, hs, hle⟩ := hf.above row hr
        exact ⟨top, List.mem_append_left _ htop, hs, hle⟩
      · refine ⟨?_, ?_, row, List.mem_append_right _ hr, rfl, ?_⟩ <;>
          rw [List.mem_singleton.mp hr]
        · rintro p ⟨⟩
        · exact fun _ => rfl
        · rw [hins scope rfl hnone]
          rintro t ⟨⟩
    · refine hf.same _ (minted_eq_nil (by simp) (by simp)) ?_
      simp only [Stmt.exec, if_neg hnone]
  | deleteDuplicates scope =>
    refine hf.quiet _ (minted_eq_nil (by simp) (by simp)) fun row hr => ?_
    have hr' : row ∈ db.ledger := (List.mem_filter.mp hr).1
    refine ⟨fun p hp => ⟨row, hr', rfl, hp, rfl⟩, hf.unpublished row hr', ?_⟩
    obtain ⟨top, htop, hs, hle⟩ := hf.above row hr'
    by_cases hd : db.Duplicate scope top
    · -- The row that bounds the tokens is deleted only if there are none.
      have hzero := hf.unpublished top htop hd.2.1
      refine ⟨row, hr, rfl, fun t ht => ?_⟩
      have hpos := hf.positive row.scope t ht
      have hbound := hle t ht
      omega
    · exact ⟨top, List.mem_filter.mpr ⟨htop, by simpa using hd⟩, hs, hle⟩
  | deleteLedger scope =>
    refine hf.quiet _ (minted_eq_nil (by simp) (by simp)) fun row hr => ?_
    obtain ⟨hr', hne⟩ := List.mem_filter.mp hr
    refine ⟨fun p hp => ⟨row, hr', rfl, hp, rfl⟩, hf.unpublished row hr', ?_⟩
    obtain ⟨top, htop, hs, hle⟩ := hf.above row hr'
    exact ⟨top, List.mem_filter.mpr ⟨htop, by rwa [hs]⟩, hs, hle⟩
  | finish lease status generation errorCode counts =>
    refine hf.quiet _ (minted_eq_nil (by simp) (by simp)) fun r hr => ?_
    set f : LedgerRow → LedgerRow := fun row =>
      if Holds lease row then finished row status generation errorCode counts else row with hdef
    have hkept : ∀ row, (f row).scope = row.scope ∧ (f row).fencingToken = row.fencingToken := by
      intro row
      simp only [hdef]
      split <;> exact ⟨rfl, rfl⟩
    obtain ⟨row, hrow, rfl⟩ := List.mem_map.mp hr
    refine ⟨fun p hp => ?_, fun hs => ?_, ?_⟩
    · by_cases hh : Holds lease row
      · rw [if_pos hh] at hp
        cases hp
      · rw [if_neg hh] at hp ⊢
        exact ⟨row, hrow, rfl, hp, rfl⟩
    · by_cases hh : Holds lease row
      · rw [if_pos hh] at hs
        have hst : status = .unpublished := hs
        rcases hc with hc | hc <;> simp [hst] at hc
      · rw [if_neg hh] at hs ⊢
        exact hf.unpublished row hrow hs
    · obtain ⟨top, htop, hs, hle⟩ := hf.above row hrow
      refine ⟨f top, List.mem_map_of_mem htop, ?_, ?_⟩
      · exact (hkept top).1.trans (hs.trans (hkept row).1.symm)
      · rw [(hkept top).2]
        rw [show (if Holds lease row then finished row status generation errorCode counts
          else row) = f row from rfl, (hkept row).1]
        exact hle

end Fenced

/-! ### What a session knows -/

/-- What a session has learnt in its current call: the leases it read back, and for each scope the
tokens that a recovery may issue. -/
structure Knowledge where
  proven : PublishLease → Prop
  fence : StateScope → ℕ → Prop

/-- What a session learns from the reply of a statement. -/
def Knowledge.learn : (o : Stmt) → o.Ret → Knowledge → Knowledge
  | .selectRows scope, rows, k =>
      { k with
        proven := fun lease => k.proven lease ∨ lease.scope = scope ∧ ∃ row ∈ rows,
          row.publicationId = some lease.publicationId ∧
            row.fencingToken = lease.fencingToken }
  | .selectMaxFence scope, m, k =>
      { k with fence := fun sc t => if sc = scope then t = m + 1 else k.fence sc t }
  | _, _, k => k

/-- A recovery issues only a token that the session may issue. -/
def Knowledge.Permits (k : Knowledge) (o : Stmt) : Prop :=
  o.Completes ∧ ∀ scope t, o = .insertRecovered scope t → k.fence scope t

/-- A call returns only publication leases that it read back. -/
def Knowledge.Proves (k : Knowledge) (reply : Reply) : Prop :=
  ∀ lease, reply = .publishLease lease → k.proven lease

/-- At the start of a call a session knows nothing. -/
def Knowledge.nothing : Knowledge :=
  ⟨fun _ => False, fun _ _ => False⟩

/-- The statements that are permitted whatever the session knows. -/
def Stmt.Plain : Stmt → Prop
  | .finish _ status generation _ _ => status = .failed ∨ status = .ready ∧ generation.isSome
  | .insertRecovered _ _ => False
  | _ => True

theorem Knowledge.permits {o : Stmt} (k : Knowledge) (ho : o.Plain) : k.Permits o := by
  refine ⟨?_, ?_⟩
  · cases o <;> first | exact ho | trivial
  · rintro scope t rfl
    exact ho.elim

theorem justified_of_plain {α : Type} {p : Coord α} (hp : p.Calls Stmt.Plain) (k : Knowledge) :
    p.Justified Knowledge.learn Knowledge.Permits (fun _ _ => True) k :=
  (hp.mono fun _ ho k => k.permits ho).justified k

theorem mem_of_singleRow {rows : List LedgerRow} {row : LedgerRow}
    (h : ServingCoordinator.singleRow rows = .ok (some row)) : row ∈ rows := by
  match rows, h with
  | [_], rfl => exact List.mem_singleton_self _

theorem eq_of_proveClaim {scope : StateScope} {p : String} {row : Option LedgerRow}
    {lease : PublishLease} (h : ServingCoordinator.proveClaim scope p row = .ok lease) :
    ∃ r, row = some r ∧ r.publicationId = some p ∧ lease = ⟨scope, p, r.fencingToken⟩ := by
  cases row with
  | none => cases h
  | some r =>
    simp only [ServingCoordinator.proveClaim] at h
    split at h
    · cases h
      exact ⟨r, rfl, ‹_›, rfl⟩
    · split at h <;> cases h

/-- `acquire_publish` returns only a lease that it read back. -/
theorem justified_acquirePublish (scope : StateScope) (code config : String) (k : Knowledge) :
    (ServingCoordinator.acquirePublish scope code config).Justified Knowledge.learn
      Knowledge.Permits (fun k lease => k.proven lease) k := by
  refine ⟨Knowledge.permits _ trivial, fun _ => ⟨Knowledge.permits _ trivial, fun _ =>
    ⟨Knowledge.permits _ trivial, fun p => ⟨Knowledge.permits _ trivial, fun rows => ?_,
      fun _ => trivial⟩, fun _ => trivial⟩, fun _ => trivial⟩, fun _ => trivial⟩
  refine Prog.justified_ofExcept_bind fun row hrow => ?_
  refine Prog.justified_ofExcept fun lease hlease => ?_
  obtain ⟨r, rfl, hid, rfl⟩ := eq_of_proveClaim hlease
  exact .inr ⟨rfl, r, mem_of_singleRow hrow, hid, rfl⟩

/-- `recover` issues only the token one above the largest it read. -/
theorem justified_recover (scope : StateScope) (ownerTerminated : Bool) (k : Knowledge) :
    (ServingCoordinator.recover scope ownerTerminated).Justified Knowledge.learn
      Knowledge.Permits (fun _ _ => True) k := by
  cases ownerTerminated with
  | false => trivial
  | true =>
    refine ⟨k.permits trivial, fun _ => ⟨k.permits trivial, fun m =>
      ⟨Knowledge.permits _ trivial, fun _ => ⟨⟨trivial, ?_⟩, fun _ => ?_,
        fun _ => trivial⟩, fun _ => trivial⟩, fun _ => trivial⟩, fun _ => trivial⟩
    · rintro sc t ⟨⟩
      simp only [Knowledge.learn, if_pos]
    · exact justified_of_plain
        (ServingCoordinator.calls_status (A := Stmt.Plain) scope trivial trivial) _

open ServingCoordinator in
theorem Call.code_justified (call : Call) :
    call.code.Justified Knowledge.learn Knowledge.Permits Knowledge.Proves Knowledge.nothing := by
  have hdone : ∀ (k : Knowledge) (reply : Reply), (∀ lease, reply ≠ .publishLease lease) →
      (Prog.pure reply : Coord Reply).Justified Knowledge.learn Knowledge.Permits
        Knowledge.Proves k := fun k reply hr lease h => absurd h (hr lease)
  cases call with
  | acquirePublish scope code config =>
    refine (justified_acquirePublish scope code config _).bind fun k lease hk => ?_
    rintro _ ⟨⟩
    exact hk
  | verifyPublish lease =>
    exact (justified_of_plain (calls_verifyPublish (A := Stmt.Plain) lease trivial) _).bind
      fun k _ _ => hdone k _ (by simp)
  | markReady lease generation config counts =>
    exact (justified_of_plain (calls_markReady (A := Stmt.Plain) lease generation config counts
      trivial (.inr ⟨rfl, rfl⟩)) _).bind fun k _ _ => hdone k _ (by simp)
  | markFailed lease code counts =>
    exact (justified_of_plain (calls_markFailed (A := Stmt.Plain) lease code counts trivial
      fun _ => .inl rfl) _).bind fun k _ _ => hdone k _ (by simp)
  | acquireQuery scope =>
    exact (justified_of_plain (calls_acquireQuery (A := Stmt.Plain) scope trivial
      (fun _ _ _ => trivial) (fun _ => trivial) fun _ => trivial) _).bind
      fun k _ _ => hdone k _ (by simp)
  | validateQuery lease =>
    exact (justified_of_plain (calls_validateQuery (A := Stmt.Plain) lease trivial) _).bind
      fun k _ _ => hdone k _ (by simp)
  | releaseQuery lease =>
    exact ⟨Knowledge.permits _ trivial, fun _ => hdone _ _ (by simp), fun _ => trivial⟩
  | recover scope ownerTerminated =>
    exact (justified_recover scope ownerTerminated _).bind fun k _ _ => hdone k _ (by simp)

/-! ### Guarded runs -/

theorem mintedSince_cons {i : ℕ} {scope : StateScope} {e : Event ℕ Stmt ServingDb} {h : History}
    (he : ¬ (e.session = i ∧ e.op = .selectMaxFence scope)) :
    mintedSince i scope (e :: h) = minted scope e ++ mintedSince i scope h := by
  unfold mintedSince
  rw [List.takeWhile_cons_of_pos (by simpa only [decide_eq_true_eq] using he), mintedOn_cons]

/-- The token is above all issued ones, unless one was issued since the session's last read. -/
def Fresh (i : ℕ) (h : History) (scope : StateScope) (t : ℕ) : Prop :=
  mintedSince i scope h = [] → 0 < t ∧ ∀ u ∈ mintedOn scope h, u < t

theorem Fresh.cons {i : ℕ} {scope : StateScope} {t : ℕ} {e : Event ℕ Stmt ServingDb} {h : History}
    (hf : Fresh i h scope t) (he : ¬ (e.session = i ∧ e.op = .selectMaxFence scope)) :
    Fresh i (e :: h) scope t := by
  intro hnone
  rw [mintedSince_cons he] at hnone
  obtain ⟨hnew, hold⟩ := List.append_eq_nil_iff.mp hnone
  rw [mintedOn_cons, hnew, List.nil_append]
  exact hf hold

/-- The knowledge of a session is right after a history. -/
def Knowledge.Valid (uuid : ℕ → String) (h : History) (i : ℕ) (k : Knowledge) : Prop :=
  (∀ lease, k.proven lease → ∃ e ∈ h, ClaimOf uuid lease e) ∧
    ∀ scope t, k.fence scope t → Fresh i h scope t

theorem Knowledge.Valid.cons {uuid : ℕ → String} {h : History} {i : ℕ} {k : Knowledge}
    (hk : k.Valid uuid h i) {e : Event ℕ Stmt ServingDb}
    (he : ∀ scope, ¬ (e.session = i ∧ e.op = .selectMaxFence scope)) :
    k.Valid uuid (e :: h) i := by
  refine ⟨fun lease hl => ?_, fun scope t ht => (hk.2 scope t ht).cons (he scope)⟩
  obtain ⟨e', he', hclaim⟩ := hk.1 lease hl
  exact ⟨e', List.mem_cons_of_mem _ he', hclaim⟩

theorem le_maxFence {db : ServingDb} {row : LedgerRow} (hrow : row ∈ db.ledger) :
    row.fencingToken ≤ db.maxFence row.scope := by
  have hmem : row.fencingToken ∈ (db.rowsOf row.scope).map (·.fencingToken) :=
    List.mem_map_of_mem (List.mem_filter.mpr ⟨hrow, by simp⟩)
  exact List.le_max_of_le' 0 hmem le_rfl

/-- The largest token that a guarded recovery reads bounds every issued one. -/
theorem Fenced.le_maxFence {uuid : ℕ → String} {db : ServingDb} {h : History}
    (hf : Fenced uuid db h) {scope : StateScope}
    (hguard : db.rowsOf scope = [] → mintedOn scope h = []) :
    ∀ t ∈ mintedOn scope h, t ≤ db.maxFence scope := by
  intro t ht
  by_cases hnone : db.rowsOf scope = []
  · rw [hguard hnone] at ht
    cases ht
  · obtain ⟨row, hrow⟩ := List.exists_mem_of_ne_nil _ hnone
    obtain ⟨hmem, hs⟩ := List.mem_filter.mp hrow
    have hs : row.scope = scope := by simpa using hs
    obtain ⟨top, htop, hts, hle⟩ := hf.above row hmem
    rw [hs] at hts hle
    have := Stel.Retrieval.le_maxFence htop
    rw [hts] at this
    exact (hle t ht).trans this

/-- Guarded runs keep the invariant, and their sessions know what they act on. -/
def fenceProof (uuid : ℕ → String) :
    Pool.KnowledgeProof (Stmt.exec uuid) Call.code guarded Knowledge.learn Knowledge.Permits
      Knowledge.Proves where
  inv := Fenced uuid
  valid := fun h i k => k.Valid uuid h i
  final := fun h reply => ∀ lease, reply = .publishLease lease → ∃ e ∈ h, ClaimOf uuid lease e
  start h i call :=
    ⟨.nothing, ⟨fun _ hl => hl.elim, fun _ _ ht => ht.elim⟩, call.code_justified⟩
  perform c i o k hinv hguard hk hok := by
    refine hinv.exec i o hok.1 ?_ ?_
    · rintro scope rfl
      exact hguard
    · rintro scope t rfl
      exact hk.2 scope t (hok.2 scope t rfl) hguard
  learns c i o r k hinv hguard hk hr := by
    have hplain : (∀ scope, o ≠ .selectMaxFence scope) →
        k.Valid uuid (⟨i, o, c.shared⟩ :: c.history) i := fun ho =>
      hk.cons fun scope h => ho scope h.2
    cases o with
    | selectRows scope =>
      obtain ⟨hproven, hfence⟩ := hplain (by simp)
      refine ⟨fun lease hl => ?_, hfence⟩
      rcases hl with hl | ⟨hs, row, hrow, hid, ht⟩
      · exact hproven lease hl
      · cases hr
        obtain ⟨hmem, hrs⟩ := List.mem_filter.mp hrow
        have hrs : row.scope = scope := by simpa using hrs
        obtain ⟨e, he, hclaim⟩ := hinv.carried row hmem lease.publicationId hid
        rw [hrs, ← hs, ht] at hclaim
        exact ⟨e, List.mem_cons_of_mem _ he, hclaim⟩
    | selectMaxFence scope =>
      cases hr
      refine ⟨fun lease hl => ?_, fun sc t ht => ?_⟩
      · obtain ⟨e, he, hclaim⟩ := hk.1 lease hl
        exact ⟨e, List.mem_cons_of_mem _ he, hclaim⟩
      · simp only [Knowledge.learn] at ht
        split at ht
        · rename_i hsc
          subst hsc ht
          intro _
          refine ⟨Nat.succ_pos _, fun u hu => ?_⟩
          rw [mintedOn_cons, minted_eq_nil (by simp) (by simp), List.nil_append] at hu
          exact Nat.lt_succ_of_le (hinv.le_maxFence hguard u hu)
        · rename_i hsc
          exact (hk.2 sc t ht).cons fun h => hsc (Stmt.selectMaxFence.inj h.2).symm
    | _ => exact hplain (by simp)
  keeps c i j o k hinv hij hk := by
    refine hk.cons ?_
    rintro scope ⟨rfl, ho⟩
    obtain ⟨e, he⟩ := hij rfl
    have ho : o = .selectMaxFence scope := ho
    subst ho
    cases he
  finishes h i k reply hk hp lease hl := hk.1 lease (hp lease hl)
  lasts h e reply hf lease hl := by
    obtain ⟨e', he', hclaim⟩ := hf lease hl
    exact ⟨e', List.mem_cons_of_mem _ he', hclaim⟩

/-- **Fencing tokens are never reused in guarded runs.** Each lease that `acquire_publish` returned
was issued by a claim statement, the tokens of the leases increase in the order of the claims, and
a recovery issues a token above all earlier ones. -/
theorem fences_increase {uuid : ℕ → String} {c : Sessions}
    (hc : Pool.Reaches (Stmt.exec uuid) Call.code guarded (.initial {}) c) :
    FencesIncrease uuid c ∧ ∀ lease, Sessions.Returned c lease → ∃ e ∈ c.history, ClaimOf uuid lease e := by
  have hinit : (fenceProof uuid).inv {} [] :=
    ⟨by simp, by simp, by simp, by simp [mintedOn], List.Pairwise.nil⟩
  obtain ⟨hinv, -, hret⟩ := Pool.Reaches.knowledge (fenceProof uuid) hc hinit
  have hinv : Fenced uuid c.shared c.history := hinv
  refine ⟨⟨hinv.increasing.imp ?_, hinv.increasing.imp ?_⟩, ?_⟩
  · intro newer older hlt lease' lease _ _ hnew hold hs
    refine hlt lease.scope _ ?_ _ hold.2.2
    rw [← hs]
    exact hnew.2.2
  · intro newer older hlt scope t ho u hu
    exact hlt scope t (by simp [minted, ho]) u hu
  · rintro lease ⟨i, hi⟩
    exact hret i _ hi lease rfl

/-- A claim, a recovery and another claim. -/
def recoverySchedule : List (Pool.Act ℕ Call) :=
  claimSchedule ++ takeoverSchedule ++
    [.advance 1, .advance 1, .retire 1, .start 2 (.acquirePublish sampleScope "v1" "config"),
      .advance 2, .advance 2, .advance 2, .advance 2, .retire 2]

theorem fences_increase_recovery :
    let c : Sessions :=
      Pool.after (Stmt.exec sampleUuid) Call.code guarded (.initial {}) recoverySchedule
    Sessions.Returned c ⟨sampleScope, sampleUuid 1, 1⟩ ∧ Sessions.Returned c ⟨sampleScope, sampleUuid 4, 3⟩ ∧
      FencesIncrease sampleUuid c := by
  intro c
  have hfirst : (0, .ok (.publishLease ⟨sampleScope, sampleUuid 1, 1⟩)) ∈ c.returned := by decide
  have hsecond : (2, .ok (.publishLease ⟨sampleScope, sampleUuid 4, 3⟩)) ∈ c.returned := by decide
  exact ⟨⟨0, hfirst⟩, ⟨2, hsecond⟩, (fences_increase (Pool.reaches_after _ _)).1⟩

/-- A claim, a recovery that dies after deleting the ledger row, and another claim. -/
def diedRecoverySchedule : List (Pool.Act ℕ Call) :=
  claimSchedule ++
    [.start 1 (.recover sampleScope true), .advance 1, .advance 1, .advance 1,
      .start 2 (.acquirePublish sampleScope "v1" "config"), .advance 2, .advance 2, .advance 2,
      .advance 2, .retire 2]

/-- Without the condition tokens are reused: both claims return the token 1. -/
theorem fence_reused : ∃ c, Sessions.Reachable sampleUuid c ∧ ¬ FencesIncrease sampleUuid c := by
  refine ⟨Sessions.after sampleUuid diedRecoverySchedule, Pool.reaches_after _ _, fun h => ?_⟩
  have hlt : 1 < 1 := List.pairwise_iff_getElem.mp h.leases 1 8 (by decide) (by decide) (by decide)
    ⟨sampleScope, sampleUuid 3, 1⟩ ⟨sampleScope, sampleUuid 1, 1⟩ ⟨2, by decide⟩ ⟨0, by decide⟩
    ⟨⟨"v1", "config", by decide⟩, by decide, by decide⟩
    ⟨⟨"v1", "config", by decide⟩, by decide, by decide⟩ rfl
  exact absurd hlt (by decide)

end Stel.Retrieval
