import Stel.Retrieval.Coordinator
import Mathlib.Data.List.Pairwise

/-!
# Readers and publishers exclude each other

The serving tables keep an invariant under every single statement of the coordinator, so it holds
in every state that interleaved and dying sessions can reach. A publication claim and a query
lease of one scope never coexist, because a claim is conditional on the absence of leases, a lease
is conditional on a `ready` row, and a scope has at most one row that is `publishing` or `ready`.

## Main definitions

* `Exclusive`: the invariant of the serving tables.
* `Retired`: a publication lease that no ledger row carries any more.

## Main results

* `Exclusive.exec`, `Retired.exec`: every statement keeps them.
* `readers_and_publishers_exclude`: what holds in every reachable state.
-/

namespace Stel.Retrieval

open ServingDb

/-- A row that can admit readers or is being published. -/
def LedgerRow.Active (row : LedgerRow) : Prop :=
  row.status = .publishing ∨ row.status = .ready

/-- The invariant of the serving tables. -/
structure Exclusive (uuid : ℕ → String) (db : ServingDb) : Prop where
  /-- A claimed scope has no query lease. -/
  noLease : ∀ row ∈ db.ledger, row.publicationId.isSome → db.leasesOf row.scope = []
  /-- Exactly the claimed rows are `publishing`. -/
  publishing : ∀ row ∈ db.ledger, row.status = .publishing ↔ row.publicationId.isSome
  /-- A `ready` row names a generation. -/
  generation : ∀ row ∈ db.ledger, row.status = .ready → row.activeGeneration.isSome
  /-- Claims carry identifiers that have been drawn. -/
  issued : ∀ row ∈ db.ledger, ∀ p ∈ row.publicationId, ∃ n < db.drawn, p = uuid n
  /-- A scope has at most one active row. -/
  single : db.ledger.Pairwise fun r r' => r.scope = r'.scope → ¬ (r.Active ∧ r'.Active)

/-! ### The statements of the coordinator -/

/-- Completions are `failed`, or `ready` with a generation. -/
def Stmt.Completes : Stmt → Prop
  | .finish _ status generation _ _ => status = .failed ∨ status = .ready ∧ generation.isSome
  | _ => True

open ServingCoordinator in
/-- Every statement that a call can issue is a proper completion if it is a completion. -/
theorem Call.code_completes (k : Call) : k.code.Calls Stmt.Completes := by
  cases k with
  | acquirePublish scope code config =>
    exact (calls_acquirePublish scope code config trivial trivial trivial trivial).bind
      fun _ => trivial
  | verifyPublish lease => exact (calls_verifyPublish lease trivial).bind fun _ => trivial
  | markReady lease generation config counts =>
    exact (calls_markReady lease generation config counts trivial (.inr ⟨rfl, rfl⟩)).bind
      fun _ => trivial
  | markFailed lease code counts =>
    exact (calls_markFailed lease code counts trivial fun _ => .inl rfl).bind fun _ => trivial
  | acquireQuery scope =>
    exact (calls_acquireQuery scope trivial (fun _ _ _ => trivial) (fun _ => trivial)
      fun _ => trivial).bind fun _ => trivial
  | validateQuery lease => exact (calls_validateQuery lease trivial).bind fun _ => trivial
  | releaseQuery lease => exact ⟨trivial, fun _ => trivial, fun _ => trivial⟩
  | recover scope ownerTerminated =>
    exact (calls_recover scope ownerTerminated trivial trivial trivial trivial trivial
      fun _ => trivial).bind fun _ => trivial

/-! ### Statements keep the invariant -/

namespace Exclusive

variable {uuid : ℕ → String} {db : ServingDb}

/-- No invariant is lost by deleting rows of either table. -/
theorem sublist (h : Exclusive uuid db) {ledger : List LedgerRow} {leases : List LeaseRow}
    (hl : ledger.Sublist db.ledger) (hq : leases.Sublist db.leases) :
    Exclusive uuid { db with ledger := ledger, leases := leases } where
  noLease row hrow hp := by
    have hnone := h.noLease row (hl.mem hrow) hp
    exact List.sublist_nil.mp (hnone ▸ hq.filter _)
  publishing row hrow := h.publishing row (hl.mem hrow)
  generation row hrow := h.generation row (hl.mem hrow)
  issued row hrow := h.issued row (hl.mem hrow)
  single := h.single.sublist hl

/-- Drawing an identifier keeps the invariant. -/
theorem draw (h : Exclusive uuid db) : Exclusive uuid { db with drawn := db.drawn + 1 } where
  noLease := h.noLease
  publishing := h.publishing
  generation := h.generation
  issued row hrow p hp := by
    obtain ⟨n, hn, rfl⟩ := h.issued row hrow p hp
    exact ⟨n, by show n < db.drawn + 1; omega, rfl⟩
  single := h.single

/-- A row that is neither claimed nor active can be added. -/
theorem append (h : Exclusive uuid db) (row : LedgerRow) (hp : row.publicationId = none)
    (ha : ¬ row.Active) : Exclusive uuid { db with ledger := db.ledger ++ [row] } where
  noLease r hr hrp := by
    rcases List.mem_append.mp hr with hr | hr
    · exact h.noLease r hr hrp
    · rw [List.mem_singleton.mp hr, hp] at hrp
      cases hrp
  publishing r hr := by
    rcases List.mem_append.mp hr with hr | hr
    · exact h.publishing r hr
    · rw [List.mem_singleton.mp hr, hp]
      exact ⟨fun hs => absurd (.inl hs) ha, by simp⟩
  generation r hr hs := by
    rcases List.mem_append.mp hr with hr | hr
    · exact h.generation r hr hs
    · rw [List.mem_singleton.mp hr] at hs
      exact absurd (.inr hs) ha
  issued r hr p hrp := by
    rcases List.mem_append.mp hr with hr | hr
    · exact h.issued r hr p hrp
    · rw [List.mem_singleton.mp hr, hp] at hrp
      cases hrp
  single := by
    refine List.pairwise_append.mpr ⟨h.single, List.pairwise_singleton _ _, ?_⟩
    intro r _ r' hr' _ hact
    rw [List.mem_singleton.mp hr'] at hact
    exact ha hact.2

/-- Two rows of one scope cannot both be active unless they are one row. -/
theorem eq_of_active (h : Exclusive uuid db) {r r' : LedgerRow} (hr : r ∈ db.ledger)
    (hr' : r' ∈ db.ledger) (hs : r.scope = r'.scope) (ha : r.Active) (ha' : r'.Active) :
    r = r' := by
  by_contra hne
  have hsymm : Std.Symm fun r r' : LedgerRow =>
      r.scope = r'.scope → ¬ (r.Active ∧ r'.Active) :=
    ⟨fun a b hab hba hact => hab hba.symm hact.symm⟩
  exact h.single.forall hr hr' hne hs ⟨ha, ha'⟩

/-- A query lease is admitted only to a scope that no publisher owns. -/
theorem insertLease (h : Exclusive uuid db) (lease : LeaseRow) {row : LedgerRow}
    (hrow : row ∈ db.ledger) {t : ℕ} {g : String} (ha : Admits lease.scope t g row) :
    Exclusive uuid { db with leases := db.leases ++ [lease] } where
  noLease r hr hp := by
    obtain ⟨hscope, hready, hnone, -⟩ := ha
    have hpub : r.status = .publishing := (h.publishing r hr).mpr hp
    have hne : r.scope ≠ lease.scope := by
      intro hs
      have heq := h.eq_of_active hr hrow (hs.trans hscope.symm) (.inl hpub) (.inr hready)
      rw [heq, hnone] at hp
      cases hp
    have hold : db.leases.filter (·.scope = r.scope) = [] := h.noLease r hr hp
    show (db.leases ++ [lease]).filter (·.scope = r.scope) = []
    simp [List.filter_append, hold, hne.symm]
  publishing := h.publishing
  generation := h.generation
  issued := h.issued
  single := h.single

/-- A claimable scope has no two rows. -/
theorem pairwise_of_claimable {scope : StateScope} (h : (db.rowsOf scope).length = 1) :
    db.ledger.Pairwise fun r r' => ¬ (r.scope = scope ∧ r'.scope = scope) := by
  obtain ⟨row, hrow⟩ := List.length_eq_one_iff.mp h
  have hp : (db.rowsOf scope).Pairwise fun _ _ => False := by
    rw [hrow]
    exact List.pairwise_singleton _ _
  refine (List.pairwise_filter.mp hp).imp ?_
  rintro r r' hrr ⟨hr, hr'⟩
  exact hrr (by simpa using hr) (by simpa using hr')

/-- The claim keeps the invariant: it needs a scope without leases that has one row. -/
theorem claim (h : Exclusive uuid db) (scope : StateScope) (code config : String) :
    Exclusive uuid
      { db with
        ledger := db.ledger.map fun row =>
          if db.Claimable scope row then claimed row (uuid db.drawn) code config else row
        drawn := db.drawn + 1 } where
  noLease := by
    intro r hr hp
    obtain ⟨row, hrow, rfl⟩ := List.mem_map.mp hr
    by_cases hc : db.Claimable scope row
    · rw [if_pos hc]
      show db.leasesOf row.scope = []
      rw [hc.1]
      exact hc.2.2.1
    · rw [if_neg hc] at hp ⊢
      exact h.noLease row hrow hp
  publishing := by
    intro r hr
    obtain ⟨row, hrow, rfl⟩ := List.mem_map.mp hr
    split
    · simp [claimed]
    · exact h.publishing row hrow
  generation := by
    intro r hr hs
    obtain ⟨row, hrow, rfl⟩ := List.mem_map.mp hr
    by_cases hc : db.Claimable scope row
    · rw [if_pos hc] at hs
      cases hs
    · rw [if_neg hc] at hs ⊢
      exact h.generation row hrow hs
  issued := by
    intro r hr p hp
    obtain ⟨row, hrow, rfl⟩ := List.mem_map.mp hr
    split at hp
    · simp only [claimed, Option.mem_def, Option.some.injEq] at hp
      exact ⟨db.drawn, Nat.lt_succ_self _, hp.symm⟩
    · obtain ⟨n, hn, rfl⟩ := h.issued row hrow p hp
      exact ⟨n, Nat.lt_succ_of_lt hn, rfl⟩
  single := by
    rw [List.pairwise_map]
    by_cases hone : (db.rowsOf scope).length = 1
    · refine ((pairwise_of_claimable hone).and h.single).imp ?_
      rintro r r' ⟨honly, hsingle⟩
      have hscope : ∀ row : LedgerRow, (if db.Claimable scope row then
          claimed row (uuid db.drawn) code config else row).scope = row.scope := by
        intro row
        split <;> rfl
      rw [hscope, hscope]
      intro hs
      have hr : r.scope ≠ scope := fun hr => honly ⟨hr, hs ▸ hr⟩
      rw [if_neg fun hc : db.Claimable scope r => hr hc.1,
        if_neg fun hc : db.Claimable scope r' => hr (hs.trans hc.1)]
      exact hsingle hs
    · have hid : ∀ row, ¬ db.Claimable scope row := fun row hc => hone hc.2.2.2
      simpa only [if_neg (hid _)] using h.single

/-- A proper completion keeps the invariant. -/
theorem finish (h : Exclusive uuid db) (lease : PublishLease) {status : ServingStatus}
    {generation : Option String} (errorCode : Option String) (counts : Counts)
    (hf : status = .failed ∨ status = .ready ∧ generation.isSome) :
    Exclusive uuid
      { db with
        ledger := db.ledger.map fun row =>
          if Holds lease row then finished row status generation errorCode counts else row } where
  noLease := by
    intro r hr hp
    obtain ⟨row, hrow, rfl⟩ := List.mem_map.mp hr
    by_cases hh : Holds lease row
    · rw [if_pos hh] at hp
      cases hp
    · rw [if_neg hh] at hp ⊢
      exact h.noLease row hrow hp
  publishing := by
    intro r hr
    obtain ⟨row, hrow, rfl⟩ := List.mem_map.mp hr
    split
    · rcases hf with rfl | ⟨rfl, -⟩ <;> simp [finished]
    · exact h.publishing row hrow
  generation := by
    intro r hr hs
    obtain ⟨row, hrow, rfl⟩ := List.mem_map.mp hr
    by_cases hh : Holds lease row
    · rw [if_pos hh] at hs ⊢
      rcases hf with rfl | ⟨rfl, hg⟩
      · cases hs
      · exact hg
    · rw [if_neg hh] at hs ⊢
      exact h.generation row hrow hs
  issued := by
    intro r hr p hp
    obtain ⟨row, hrow, rfl⟩ := List.mem_map.mp hr
    split at hp
    · cases hp
    · exact h.issued row hrow p hp
  single := by
    rw [List.pairwise_map]
    have hact : ∀ row ∈ db.ledger, (if Holds lease row then
        finished row status generation errorCode counts else row).Active → row.Active := by
      intro row hrow hact
      by_cases hh : Holds lease row
      · exact .inl ((h.publishing row hrow).mpr (by rw [hh.2.1]; rfl))
      · rwa [if_neg hh] at hact
    have hscope : ∀ row : LedgerRow, (if Holds lease row then
        finished row status generation errorCode counts else row).scope = row.scope := by
      intro row
      split <;> rfl
    refine h.single.imp_of_mem ?_
    intro r r' hr hr' hsingle hs ha
    rw [hscope, hscope] at hs
    exact hsingle hs ⟨hact r hr ha.1, hact r' hr' ha.2⟩

/-- Every statement of a call keeps the invariant. -/
theorem exec (h : Exclusive uuid db) (o : Stmt) (ho : o.Completes) :
    Exclusive uuid (o.exec uuid db).1 := by
  cases o with
  | createTable | selectRows | countLeases | selectLease | selectMaxFence => exact h
  | insertRowIfAbsent scope =>
    simp only [Stmt.exec]
    split
    · exact (h.append _ rfl (by simp [LedgerRow.Active])).draw
    · exact h.draw
  | deleteDuplicates scope => exact h.sublist List.filter_sublist (List.Sublist.refl _)
  | claim scope code config => exact h.claim scope code config
  | finish lease status generation errorCode counts => exact h.finish lease errorCode counts ho
  | insertLease scope t g c =>
    simp only [Stmt.exec]
    split
    · rename_i hadm
      obtain ⟨row, hrow, ha⟩ := hadm
      exact (h.insertLease ⟨scope, _, t, g, c⟩ hrow ha).draw
    · exact h.draw
  | deleteLease leaseId => exact h.sublist (List.Sublist.refl _) List.filter_sublist
  | deleteLeases scope => exact h.sublist (List.Sublist.refl _) List.filter_sublist
  | deleteLedger scope => exact h.sublist List.filter_sublist (List.Sublist.refl _)
  | insertRecovered scope t => exact (h.append _ rfl (by simp [LedgerRow.Active])).draw

end Exclusive

/-! ### Reassigned publication leases -/

/-- The lease was issued and no ledger row carries it any more. -/
def Retired (uuid : ℕ → String) (lease : PublishLease) (db : ServingDb) : Prop :=
  (∃ n < db.drawn, lease.publicationId = uuid n) ∧ ∀ row ∈ db.ledger, ¬ Holds lease row

namespace Retired

variable {uuid : ℕ → String} {lease : PublishLease} {db : ServingDb}

theorem of_rows (h : Retired uuid lease db) {db' : ServingDb} (hd : db.drawn ≤ db'.drawn)
    (hrow : ∀ row ∈ db'.ledger, row ∈ db.ledger ∨ row.publicationId ≠ some lease.publicationId) :
    Retired uuid lease db' := by
  obtain ⟨⟨n, hn, hid⟩, hnone⟩ := h
  refine ⟨⟨n, by omega, hid⟩, fun row hr hh => ?_⟩
  rcases hrow row hr with hr | hr
  · exact hnone row hr hh
  · exact hr hh.2.1

/-- A retired lease stays retired: a claim uses an identifier that has not been drawn before. -/
theorem exec (hu : Function.Injective uuid) (h : Retired uuid lease db) (o : Stmt) :
    Retired uuid lease (o.exec uuid db).1 := by
  cases o with
  | createTable | selectRows | countLeases | selectLease | selectMaxFence => exact h
  | insertRowIfAbsent scope =>
    simp only [Stmt.exec]
    split
    · refine h.of_rows (Nat.le_succ _) fun row hr => ?_
      rcases List.mem_append.mp hr with hr | hr
      · exact .inl hr
      · rw [List.mem_singleton.mp hr]
        exact .inr (by simp)
    · exact h.of_rows (Nat.le_succ _) fun row hr => .inl hr
  | deleteDuplicates scope =>
    exact h.of_rows le_rfl fun row hr => .inl (List.mem_filter.mp hr).1
  | claim scope code config =>
    refine h.of_rows (Nat.le_succ _) fun row hr => ?_
    obtain ⟨old, hold, rfl⟩ := List.mem_map.mp hr
    split
    · obtain ⟨n, hn, hid⟩ := h.1
      refine .inr fun heq => ?_
      have hdrawn : uuid db.drawn = uuid n := by simpa [claimed, hid] using heq
      have := hu hdrawn
      omega
    · exact .inl hold
  | finish other status generation errorCode counts =>
    refine h.of_rows le_rfl fun row hr => ?_
    obtain ⟨old, hold, rfl⟩ := List.mem_map.mp hr
    split
    · exact .inr (by simp [finished])
    · exact .inl hold
  | insertLease scope t g c =>
    simp only [Stmt.exec]
    split <;> exact h.of_rows (Nat.le_succ _) fun row hr => .inl hr
  | deleteLease leaseId => exact h.of_rows le_rfl fun row hr => .inl hr
  | deleteLeases scope => exact h.of_rows le_rfl fun row hr => .inl hr
  | deleteLedger scope => exact h.of_rows le_rfl fun row hr => .inl (List.mem_filter.mp hr).1
  | insertRecovered scope t =>
    refine h.of_rows (Nat.le_succ _) fun row hr => ?_
    rcases List.mem_append.mp hr with hr | hr
    · exact .inl hr
    · rw [List.mem_singleton.mp hr]
      exact .inr (by simp)

/-- A completion with a retired lease changes no ledger row. -/
theorem finish_eq (h : Retired uuid lease db) (status : ServingStatus)
    (generation errorCode : Option String) (counts : Counts) :
    (Stmt.exec uuid (.finish lease status generation errorCode counts) db).1 = db := by
  have hid : db.ledger.map (fun row => if Holds lease row then
      finished row status generation errorCode counts else row) = db.ledger :=
    (List.map_congr_left fun row hr => if_neg (h.2 row hr)).trans (List.map_id' _)
  simp only [Stmt.exec, hid]

/-- A retired lease stays retired along every run. -/
theorem of_leads (hu : Function.Injective uuid) {c d : Sessions} (h : Sessions.Leads uuid c d)
    (hc : Retired uuid lease c.shared) : Retired uuid lease d.shared := by
  refine h.invariant (J := fun d => Retired uuid lease d.shared) hc fun c d hr hs => ?_
  cases hs with
  | advance i o next fail running permitted => exact hr.exec hu o
  | start | fault | finish | crash => exact hr

end Retired

/-! ### Reachable states -/

section Reachable

variable {uuid : ℕ → String} {c : Sessions}

/-- The invariant holds in every state that sessions can reach from empty tables. -/
theorem exclusive_of_reachable (h : Sessions.Reachable uuid c) : Exclusive uuid c.shared := by
  have hinit : Exclusive uuid {} := ⟨by simp, by simp, by simp, by simp, List.Pairwise.nil⟩
  exact (h.shared_invariant Call.code_completes (fun o _ ho hs => hs.exec o ho)
    (Pool.calls_initial _ _) hinit).1

/-- The drawn identifiers only grow. -/
theorem drawn_le_of_leads {d : Sessions} (h : Sessions.Leads uuid c d) :
    c.shared.drawn ≤ d.shared.drawn := by
  refine h.invariant (J := fun d => c.shared.drawn ≤ d.shared.drawn) le_rfl fun d e hd hs => ?_
  cases hs with
  | advance i o next fail running permitted =>
    refine hd.trans ?_
    show d.shared.drawn ≤ (o.exec uuid d.shared).1.drawn
    cases o with
    | insertRowIfAbsent | insertLease => simp only [Stmt.exec]; split <;> simp
    | claim | insertRecovered => exact Nat.le_succ _
    | _ => exact le_rfl
  | start | fault | finish | crash => exact hd

/-- A lease that some ledger row carried, and that none carries later on, is retired then. -/
theorem retired_of_leads (hc : Sessions.Reachable uuid c) {lease : PublishLease}
    (held : ∃ row ∈ c.shared.ledger, Holds lease row) {d : Sessions}
    (hd : Sessions.Leads uuid c d) (lost : ∀ row ∈ d.shared.ledger, ¬ Holds lease row) :
    Retired uuid lease d.shared := by
  obtain ⟨row, hrow, -, hid, -⟩ := held
  obtain ⟨n, hn, hp⟩ := (exclusive_of_reachable hc).issued row hrow lease.publicationId hid
  exact ⟨⟨n, hn.trans_le (drawn_le_of_leads hd), hp⟩, lost⟩

/-- **Readers and publishers exclude each other.** In every reachable state a claimed scope has no
query lease, exactly the claimed rows are `publishing`, and a `ready` row names a generation. Once
no ledger row carries a publication lease any more, no statement of a `mark_ready` or `mark_failed`
with that lease changes the ledger, in any later state. -/
theorem readers_and_publishers_exclude (hu : Function.Injective uuid)
    (hc : Sessions.Reachable uuid c) :
    (∀ row ∈ c.shared.ledger, row.publicationId.isSome →
      ∀ lease ∈ c.shared.leases, lease.scope ≠ row.scope) ∧
    (∀ row ∈ c.shared.ledger, row.status = .publishing ↔ row.publicationId.isSome) ∧
    (∀ row ∈ c.shared.ledger, row.status = .ready → row.activeGeneration.isSome) ∧
    ∀ lease : PublishLease, (∃ row ∈ c.shared.ledger, Holds lease row) →
      ∀ d, Sessions.Leads uuid c d → (∀ row ∈ d.shared.ledger, ¬ Holds lease row) →
      ∀ e, Sessions.Leads uuid d e →
        (∀ generation config counts,
          (ServingCoordinator.markReady lease generation config counts).Calls
            fun o => (o.exec uuid e.shared).1.ledger = e.shared.ledger) ∧
        (∀ code counts, (ServingCoordinator.markFailed lease code counts).Calls
            fun o => (o.exec uuid e.shared).1.ledger = e.shared.ledger) := by
  have hex := exclusive_of_reachable hc
  refine ⟨fun row hrow hp lease hl hs => ?_, hex.publishing, hex.generation, ?_⟩
  · have hmem : lease ∈ c.shared.leasesOf row.scope := List.mem_filter.mpr ⟨hl, by simpa using hs⟩
    rw [hex.noLease row hrow hp] at hmem
    cases hmem
  · intro lease held d hd lost e he
    have hret : Retired uuid lease e.shared := (retired_of_leads hc held hd lost).of_leads hu he
    have hfinish : ∀ status generation errorCode counts,
        (Stmt.exec uuid (.finish lease status generation errorCode counts) e.shared).1.ledger =
          e.shared.ledger := by
      intro status generation errorCode counts
      rw [hret.finish_eq]
    exact ⟨fun g f k => ServingCoordinator.calls_markReady lease g f k rfl (hfinish _ _ _ _),
      fun code k => ServingCoordinator.calls_markFailed lease code k rfl
        fun _ => hfinish _ _ _ _⟩

end Reachable

/-- The scope of the runs below. -/
def sampleScope : StateScope := ⟨"notes", "search", "duckdb"⟩

/-- A publisher claims the scope. -/
def claimSchedule : List (Pool.Act ℕ Call) :=
  [.start 0 (.acquirePublish sampleScope "v1" "config"), .advance 0, .advance 0, .advance 0,
    .advance 0, .retire 0]

/-- A recovery then takes the scope away from it. -/
def takeoverSchedule : List (Pool.Act ℕ Call) :=
  [.start 1 (.recover sampleScope true), .advance 1, .advance 1, .advance 1, .advance 1]

theorem readers_and_publishers_exclude_takeover :
    let c := Sessions.after sampleUuid claimSchedule
    let lease : PublishLease := ⟨sampleScope, sampleUuid 1, 1⟩
    let d := Pool.after (Stmt.exec sampleUuid) Call.code Pool.anyOp c takeoverSchedule
    (∃ row ∈ c.shared.ledger, Holds lease row) ∧ (∀ row ∈ d.shared.ledger, ¬ Holds lease row) ∧
      (ServingCoordinator.markReady lease "generation" "config" {}).Calls
        fun o => (o.exec sampleUuid d.shared).1.ledger = d.shared.ledger := by
  intro c lease d
  have held : ∃ row ∈ c.shared.ledger, Holds lease row := by decide
  have lost : ∀ row ∈ d.shared.ledger, ¬ Holds lease row := by decide
  refine ⟨held, lost, ?_⟩
  have hmain := readers_and_publishers_exclude sampleUuid_injective
    (c := c) (Pool.reaches_after _ _)
  exact (hmain.2.2.2 lease held d (Pool.reaches_after _ _) lost d .refl).1 _ _ _

end Stel.Retrieval
