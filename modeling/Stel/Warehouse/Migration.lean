import Stel.Program.Faults
import Stel.Data.Keyed
import Stel.Data.SortedSet
import Stel.Failure
import Mathlib.Data.String.Basic
import Mathlib.Logic.Relation

/-!
# The name migration

`plan_name_migration` and `apply_name_migration` of `adapters/migration.py` over the `rename_table` of
both adapters. DuckDB renames a table in one transaction. BigQuery copies it and deletes the original,
and an attempt that ends in between leaves the table under both names, which planning takes for a
conflict.

## Main definitions

* `planNameMigration`, `renameTable`, `applyNameMigration`, `migrate`: the code.
* `Attempts`: sequences of attempts, each of which may die or raise at any warehouse call.
* `Carried`: what attempts leave of every table.
* `HalfRenamed`: a table is present under both names.

## Main results

* `migration_resumes`: attempts lose nothing, and one more attempt completes the migration unless a
  table is half renamed, in which case it is refused.
* `half_renamed_refused`: an attempt on BigQuery can leave a half renamed table.
-/

namespace Stel.Warehouse

open Stel

/-! ### Planning -/

/-- `MIGRATED_TABLE_NAMES`. -/
def migratedTableNames : List (String × String) :=
  [("dbt_ml_state", "stel_state"), ("dbt_ml_serving_ledger", "stel_serving_ledger"),
    ("dbt_ml_serving_leases", "stel_serving_leases")]

/-- `MIGRATED_TABLE_PREFIXES`. -/
def migratedTablePrefixes : List (String × String) :=
  [("dbt_ml_test_failures__", "stel_test_failures__")]

/-- `current_prefix + name[len(legacy_prefix) :]` for a name that starts with the legacy prefix. -/
def replacePrefix (legacyPrefix currentPrefix name : String) : Option String :=
  (legacyPrefix.toList.isPrefixOf? name.toList).map fun rest =>
    currentPrefix ++ String.ofList rest

structure TableRename where
  old : String
  new : String
  deriving DecidableEq

/-- The exceptions of a migration: `MigrationConflictError`, and any other one with the notes that
were added to it. -/
inductive MigrationFailure
  | migrationConflictError (message : String)
  | raised (error : Failure) (notes : List String)
  deriving DecidableEq

/-- The tables under a legacy name with their current names, in the order of the two loops. -/
def legacyTables (present : List String) : List TableRename :=
  (migratedTableNames.filter fun names => names.1 ∈ present).map (fun names => ⟨names.1, names.2⟩) ++
    migratedTablePrefixes.flatMap fun prefixes => (sortedSet present).filterMap fun name =>
      (replacePrefix prefixes.1 prefixes.2 name).map fun target => ⟨name, target⟩

def conflictMessage (schema : String) (conflicts : List TableRename) : String :=
  s!"Schema '{schema}' holds both the old and new name for {conflicts.length} stel object(s): " ++
    ", ".intercalate (conflicts.map fun r => s!"'{r.old}' and '{r.new}'") ++
    ". That is an interrupted migration or a hand-made table, and stel will not choose which " ++
    "one holds the live rows. Inspect both, drop or rename the one you do not want, then re-run " ++
    "`stel migrate`."

/-- `plan_name_migration`, given `adapter.list_all_tables()`. -/
def planNameMigration (schema : String) (present : List String) :
    Except MigrationFailure (List TableRename) :=
  let conflicts := (legacyTables present).filter fun r => r.new ∈ present
  if conflicts ≠ [] then .error (.migrationConflictError (conflictMessage schema conflicts))
  else .ok ((legacyTables present).filter fun r => r.new ∉ present)

/-! ### Renaming -/

inductive Engine
  | duckdb
  | bigquery
  deriving DecidableEq

/-- The warehouse calls of a migration. DuckDB's `ALTER TABLE … RENAME TO` runs in a transaction. -/
inductive MigrationOp
  | listAllTables
  | alterRename (old new : String)
  | createCopy (new old : String)
  | deleteTable (name : String)

/-- What the calls reply. -/
abbrev MigrationOp.Ret : MigrationOp → Type
  | listAllTables => List String
  | _ => Unit

abbrev MigrationProg (α : Type) : Type := Prog MigrationOp MigrationOp.Ret MigrationFailure α

/-- The warehouse calls of `rename_table`. -/
def renameCalls : Engine → TableRename → MigrationProg Unit
  | .duckdb, r => .call (.alterRename r.old r.new) .pure .throw
  | .bigquery, r =>
      .call (.createCopy r.new r.old) (fun _ => .call (.deleteTable r.old) .pure .throw) .throw

def Engine.title : Engine → String
  | .duckdb => "DuckDB"
  | .bigquery => "BigQuery"

/-- `rename_table` of the two adapters. -/
def renameTable (engine : Engine) (r : TableRename) : MigrationProg Unit :=
  (renameCalls engine r).tryCatch fun _ =>
    .throw (.raised (.adapterError s!"{engine.title} could not rename '{r.old}' to '{r.new}'") [])

/-- `error.add_note(…)`, if any rename was applied before. -/
def addNote (done : List TableRename) : MigrationFailure → MigrationFailure
  | .raised error notes =>
      let completed := ", ".intercalate (done.map fun r => s!"{r.old} -> {r.new}")
      .raised error (if done = [] then notes else notes ++
        [s!"Renames already applied before this failure: {completed}. " ++
          "Re-running `stel migrate` resumes from here."])
  | error => error

/-- `apply_name_migration`. -/
def applyNameMigration (engine : Engine) (renames : List TableRename) :
    MigrationProg (List TableRename) :=
  Prog.foldM (fun done r =>
    ((renameTable engine r).tryCatch fun e => .throw (addNote done e)) >>= fun _ =>
      .pure (done ++ [r])) [] renames

/-- An attempt of `stel migrate`: planning, and the renames, of which there may be none. -/
def migrate (engine : Engine) (schema : String) : MigrationProg (List TableRename) :=
  .call .listAllTables (fun present =>
    Prog.ofExcept (planNameMigration schema present) >>= applyNameMigration engine) .throw

/-! ### The warehouse -/

section Tables

variable {ρ : Type}

/-- `adapter.list_all_tables()` on a schema, whose tables are known by name. -/
def listAllTables (tables : Keyed String ρ) : List String := sortedSet tables.keys

/-- The calls on a schema. A new name that is taken, or an old one that is missing, is refused;
a missing table is deleted in silence. -/
def schemaInterp (refusal : MigrationOp → MigrationFailure) :
    Interp MigrationOp MigrationOp.Ret MigrationFailure (Keyed String ρ)
  | .listAllTables, s => (s, .ok (listAllTables s))
  | .alterRename old new, s =>
      match s.lookup old, s.lookup new with
      | some rows, none => ((s.insert new rows).erase old, .ok ())
      | _, _ => (s, .error (refusal (.alterRename old new)))
  | .createCopy new old, s =>
      match s.lookup old, s.lookup new with
      | some rows, none => (s.insert new rows, .ok ())
      | _, _ => (s, .error (refusal (.createCopy new old)))
  | .deleteTable name, s => (s.erase name, .ok ())

/-- Sequences of attempts, each of which may end at any warehouse call. -/
def Attempts (engine : Engine) (schema : String) (refusal : MigrationOp → MigrationFailure) :
    Keyed String ρ → Keyed String ρ → Prop :=
  Relation.ReflTransGen fun s t => ∃ out, (migrate engine schema).Ends (schemaInterp refusal) s t out

/-- The current name of a table that the migration renames. -/
def currentName (name : String) : Option String :=
  match migratedTableNames.lookup name with
  | some current => some current
  | none => migratedTablePrefixes.findSome? fun prefixes =>
      replacePrefix prefixes.1 prefixes.2 name

/-- A table is present under its legacy and its current name. -/
def HalfRenamed (s : Keyed String ρ) : Prop :=
  ∃ old new, currentName old = some new ∧ old ∈ s ∧ new ∈ s

/-- A table of `before` has kept its name, has been copied, or has been renamed, with its rows. -/
def Moving (before s : Keyed String ρ) (old new : String) : Prop :=
  (s.lookup old = before.lookup old ∧ s.lookup new = none) ∨
    (s.lookup old = before.lookup old ∧ s.lookup new = before.lookup old) ∨
    (s.lookup old = none ∧ s.lookup new = before.lookup old)

/-- A name that is neither a legacy table of `before` nor the current name of one. -/
def Untouched (before : Keyed String ρ) (name : String) : Prop :=
  ∀ old new, currentName old = some new → old ∈ before → name ≠ old ∧ name ≠ new

/-- What attempts leave of the tables of `before`. -/
structure Carried (before s : Keyed String ρ) : Prop where
  tables : ∀ old new, currentName old = some new → old ∈ before → Moving before s old new
  others : ∀ name, Untouched before name → s.lookup name = before.lookup name

/-- Every legacy table of `before` has its current name only, with its rows, and no other table has
changed. -/
structure Migrated (before s : Keyed String ρ) : Prop where
  tables : ∀ old new, currentName old = some new → old ∈ before →
    s.lookup old = none ∧ s.lookup new = before.lookup old
  others : ∀ name, Untouched before name → s.lookup name = before.lookup name

end Tables

/-! ### The names -/

theorem replacePrefix_eq_some {legacyPrefix currentPrefix name target : String} :
    replacePrefix legacyPrefix currentPrefix name = some target ↔
      ∃ rest, name = legacyPrefix ++ rest ∧ target = currentPrefix ++ rest := by
  rw [replacePrefix, Option.map_eq_some_iff]
  constructor
  · rintro ⟨rest, hrest, rfl⟩
    refine ⟨String.ofList rest, ?_, rfl⟩
    apply String.toList_inj.mp
    rw [String.toList_append, String.toList_ofList]
    exact (List.isPrefixOf?_eq_some_iff_append_eq.mp hrest).symm
  · rintro ⟨rest, rfl, rfl⟩
    refine ⟨rest.toList, ?_, by rw [String.ofList_toList]⟩
    rw [String.toList_append]
    exact List.isPrefixOf?_eq_some_iff_append_eq.mpr rfl

theorem not_mem_migratedTableNames_of_prefix (rest current : String) :
    ("dbt_ml_test_failures__" ++ rest, current) ∉ migratedTableNames := by
  intro hmem
  have hname : "dbt_ml_test_failures__" ++ rest ∈ migratedTableNames.map Prod.fst :=
    List.mem_map_of_mem hmem
  have htake : ∀ name ∈ migratedTableNames.map Prod.fst,
      name.toList.take 8 ≠ "dbt_ml_t".toList := by decide
  exact htake _ hname (by rw [String.toList_append, List.take_append_of_le_length (by decide)]; rfl)

/-- The renamed tables are the three named ones and those with the prefix. -/
theorem currentName_eq_some {old new : String} : currentName old = some new ↔
    (old, new) ∈ migratedTableNames ∨ ∃ rest, old = "dbt_ml_test_failures__" ++ rest ∧
      new = "stel_test_failures__" ++ rest := by
  have hnamed : (old, new) ∈ migratedTableNames ↔ migratedTableNames.lookup old = some new :=
    mem_iff_lookup (by decide)
  have hprefixed : (migratedTablePrefixes.findSome? fun prefixes =>
      replacePrefix prefixes.1 prefixes.2 old) =
        replacePrefix "dbt_ml_test_failures__" "stel_test_failures__" old := by
    rw [migratedTablePrefixes, List.findSome?_cons]
    cases replacePrefix "dbt_ml_test_failures__" "stel_test_failures__" old <;> rfl
  rw [hnamed, currentName, ← replacePrefix_eq_some, hprefixed]
  cases hlookup : migratedTableNames.lookup old with
  | none => simp
  | some current =>
    have hmem : (old, current) ∈ migratedTableNames := (mem_iff_lookup (by decide)).mpr hlookup
    have hnone : replacePrefix "dbt_ml_test_failures__" "stel_test_failures__" old ≠ some new := by
      intro h
      obtain ⟨rest, rfl, -⟩ := replacePrefix_eq_some.mp h
      exact not_mem_migratedTableNames_of_prefix rest current hmem
    simp [hnone]

/-- A current name is not a legacy one. -/
theorem currentName_current {old new : String} (h : currentName old = some new) :
    currentName new = none := by
  have hlegacy : ∀ a b, currentName a = some b → a.toList.head? = some 'd' ∧
      b.toList.head? = some 's' := by
    intro a b hab
    rcases currentName_eq_some.mp hab with hmem | ⟨rest, rfl, rfl⟩
    · have hall : ∀ names ∈ migratedTableNames, names.1.toList.head? = some 'd' ∧
          names.2.toList.head? = some 's' := by decide
      exact hall _ hmem
    · simp only [String.toList_append]
      exact ⟨rfl, rfl⟩
  by_contra hnew
  obtain ⟨newer, hnewer⟩ := Option.ne_none_iff_exists'.mp hnew
  have hs := (hlegacy old new h).2
  rw [(hlegacy new newer hnewer).1] at hs
  exact absurd hs (by decide)

theorem currentName_injective {old old' new : String} (h : currentName old = some new)
    (h' : currentName old' = some new) : old = old' := by
  have hnamed : ∀ names ∈ migratedTableNames, ∀ names' ∈ migratedTableNames,
      names.2 = names'.2 → names.1 = names'.1 := by decide
  have hfailures : ∀ rest a, (a, "stel_test_failures__" ++ rest) ∉ migratedTableNames := by
    intro rest a hmem
    have htake : ∀ names ∈ migratedTableNames, names.2.toList.take 6 ≠ "stel_t".toList := by decide
    apply htake _ hmem
    rw [String.toList_append, List.take_append_of_le_length (by decide)]
    rfl
  rcases currentName_eq_some.mp h with hmem | ⟨rest, rfl, rfl⟩ <;>
    rcases currentName_eq_some.mp h' with hmem' | ⟨rest', rfl, hrest'⟩
  · exact hnamed _ hmem _ hmem' rfl
  · exact absurd (hrest' ▸ hmem) (hfailures rest' _)
  · exact absurd hmem' (hfailures rest _)
  · rw [String.append_right_inj] at hrest'
    rw [hrest']

theorem mem_legacyTables {present : List String} {r : TableRename} :
    r ∈ legacyTables present ↔ r.old ∈ present ∧ currentName r.old = some r.new := by
  obtain ⟨old, new⟩ := r
  rw [currentName_eq_some, legacyTables, List.mem_append, List.mem_map, migratedTablePrefixes,
    List.flatMap_singleton, List.mem_filterMap]
  constructor
  · rintro (⟨⟨a, b⟩, hmem, hr⟩ | ⟨name, hname, hr⟩)
    · cases hr
      rw [List.mem_filter, decide_eq_true_iff] at hmem
      exact ⟨hmem.2, .inl hmem.1⟩
    · obtain ⟨target, htarget, hr⟩ := Option.map_eq_some_iff.mp hr
      cases hr
      exact ⟨mem_sortedSet.mp hname, .inr (replacePrefix_eq_some.mp htarget)⟩
  · rintro ⟨hmem, hnamed | hprefixed⟩
    · exact .inl ⟨(old, new), List.mem_filter.mpr ⟨hnamed, decide_eq_true hmem⟩, rfl⟩
    · refine .inr ⟨old, mem_sortedSet.mpr hmem, ?_⟩
      rw [replacePrefix_eq_some.mpr hprefixed]
      rfl

theorem nodup_legacyTables (present : List String) :
    ((legacyTables present).map TableRename.old).Nodup := by
  have hlist : (legacyTables present).Nodup := by
    rw [legacyTables, migratedTablePrefixes, List.flatMap_singleton]
    refine List.Nodup.append ?_ ?_ ?_
    · have hnames : migratedTableNames.Nodup := by decide
      refine (hnames.filter _).map fun a b hab => ?_
      obtain ⟨hfst, hsnd⟩ := TableRename.mk.inj hab
      exact Prod.ext hfst hsnd
    · refine nodup_sortedSet.filterMap fun a b r ha hb => ?_
      obtain ⟨_, -, rfl⟩ := Option.map_eq_some_iff.mp ha
      obtain ⟨_, -, hr⟩ := Option.map_eq_some_iff.mp hb
      exact (TableRename.mk.inj hr).1.symm
    · intro r hnamed hprefixed
      obtain ⟨names, hmem, rfl⟩ := List.mem_map.mp hnamed
      obtain ⟨name, -, hr⟩ := List.mem_filterMap.mp hprefixed
      obtain ⟨target, htarget, hr⟩ := Option.map_eq_some_iff.mp hr
      obtain ⟨rest, rfl, -⟩ := replacePrefix_eq_some.mp htarget
      have hfirst : "dbt_ml_test_failures__" ++ rest = names.1 := (TableRename.mk.inj hr).1
      exact not_mem_migratedTableNames_of_prefix rest names.2
        (hfirst ▸ (List.mem_filter.mp hmem).1)
  refine List.Nodup.map_on (fun r hr r' hr' hold => ?_) hlist
  have hnew := (mem_legacyTables.mp hr).2
  rw [hold, (mem_legacyTables.mp hr').2] at hnew
  obtain ⟨old, new⟩ := r
  obtain ⟨old', new'⟩ := r'
  obtain rfl : old = old' := hold
  obtain rfl : new' = new := Option.some.inj hnew
  rfl

/-! ### Planning and renaming -/

section Runs

variable {ρ : Type} {before s t : Keyed String ρ} {old new : String} {rows : ρ}

theorem mem_listAllTables {name : String} : name ∈ listAllTables s ↔ name ∈ s := by
  rw [listAllTables, mem_sortedSet, AList.mem_keys]

theorem planNameMigration_of_not_half {schema : String} (h : ¬ HalfRenamed s) :
    planNameMigration schema (listAllTables s) = .ok (legacyTables (listAllTables s)) := by
  have hnew : ∀ r ∈ legacyTables (listAllTables s), r.new ∉ listAllTables s := by
    intro r hr hnew
    obtain ⟨hold, hcurrent⟩ := mem_legacyTables.mp hr
    exact h ⟨r.old, r.new, hcurrent, mem_listAllTables.mp hold, mem_listAllTables.mp hnew⟩
  have hconflicts : (legacyTables (listAllTables s)).filter (fun r => r.new ∈ listAllTables s) =
      [] := List.filter_eq_nil_iff.mpr fun r hr => by simpa using hnew r hr
  have hrenames : (legacyTables (listAllTables s)).filter (fun r => r.new ∉ listAllTables s) =
      legacyTables (listAllTables s) := List.filter_eq_self.mpr fun r hr => by simpa using hnew r hr
  rw [planNameMigration, hconflicts, hrenames]
  rfl

theorem planNameMigration_of_half (schema : String) (h : HalfRenamed s) :
    ∃ message, planNameMigration schema (listAllTables s) =
      .error (.migrationConflictError message) := by
  obtain ⟨old, new, hcurrent, hold, hnew⟩ := h
  have hmem : (⟨old, new⟩ : TableRename) ∈
      (legacyTables (listAllTables s)).filter fun r => r.new ∈ listAllTables s :=
    List.mem_filter.mpr ⟨mem_legacyTables.mpr ⟨mem_listAllTables.mpr hold, hcurrent⟩,
      decide_eq_true (mem_listAllTables.mpr hnew)⟩
  exact ⟨_, if_pos (List.ne_nil_of_mem hmem)⟩

/-- A table that the migration renames was there before any attempt. -/
theorem Carried.mem (h : Carried before s) (hcurrent : currentName old = some new)
    (hold : old ∈ s) : old ∈ before := by
  by_contra hmem
  have huntouched : Untouched before old := by
    intro a b hab ha
    refine ⟨fun heq => hmem (heq ▸ ha), fun heq => ?_⟩
    rw [heq, currentName_current hab] at hcurrent
    cases hcurrent
  have hlookup := h.others old huntouched
  rw [AList.lookup_eq_none.mpr hmem] at hlookup
  exact AList.lookup_eq_none.mp hlookup hold

theorem Carried.lookup (h : Carried before s) (hcurrent : currentName old = some new)
    (hold : old ∈ s) : s.lookup old = before.lookup old := by
  rcases h.tables old new hcurrent (h.mem hcurrent hold) with ⟨hrows, -⟩ | ⟨hrows, -⟩ | ⟨hnone, -⟩
  · exact hrows
  · exact hrows
  · exact absurd hold (AList.lookup_eq_none.mp hnone)

/-- A step that changes the current name of one legacy table only keeps what is known of the
others. -/
theorem Carried.of_lookup (h : Carried before s) (hcurrent : currentName old = some new)
    (hold : old ∈ before) (hmoving : Moving before t old new)
    (hother : ∀ name, name ≠ old → name ≠ new → t.lookup name = s.lookup name) :
    Carried before t := by
  constructor
  · intro a b hab ha
    by_cases haold : a = old
    · subst haold
      obtain rfl : b = new := Option.some.inj (hab.symm.trans hcurrent)
      exact hmoving
    · have hanew : a ≠ new := by
        rintro rfl
        rw [currentName_current hcurrent] at hab
        cases hab
      have hbold : b ≠ old := by
        rintro rfl
        rw [currentName_current hab] at hcurrent
        cases hcurrent
      have hbnew : b ≠ new := by
        rintro rfl
        exact haold (currentName_injective hab hcurrent)
      rw [Moving, hother a haold hanew, hother b hbold hbnew]
      exact h.tables a b hab ha
  · intro name hname
    obtain ⟨hne, hne'⟩ := hname old new hcurrent hold
    rw [hother name hne hne', h.others name hname]

theorem Carried.copy (h : Carried before s) (hcurrent : currentName old = some new)
    (hrows : s.lookup old = some rows) : Carried before (s.insert new rows) := by
  have hmem : old ∈ s := AList.lookup_isSome.mp (by rw [hrows]; rfl)
  have hne : old ≠ new := by
    rintro rfl
    rw [currentName_current hcurrent] at hcurrent
    cases hcurrent
  have hbefore := h.lookup hcurrent hmem
  refine h.of_lookup hcurrent (h.mem hcurrent hmem) ?_ fun name _ hnew =>
    AList.lookup_insert_ne hnew
  refine .inr (.inl ⟨?_, ?_⟩)
  · rw [AList.lookup_insert_ne hne, hbefore]
  · rw [AList.lookup_insert, ← hbefore, hrows]

theorem Carried.delete (h : Carried before s) (hcurrent : currentName old = some new)
    (hold : old ∈ before) (hrows : s.lookup new = before.lookup old) :
    Carried before (s.erase old) := by
  have hne : new ≠ old := by
    rintro rfl
    rw [currentName_current hcurrent] at hcurrent
    cases hcurrent
  refine h.of_lookup hcurrent hold ?_ fun name hne _ => AList.lookup_erase_ne hne
  exact .inr (.inr ⟨AList.lookup_erase _ _, by rw [AList.lookup_erase_ne hne, hrows]⟩)

/-- Copying and deleting a table whose current name is free. -/
theorem Carried.move (h : Carried before s) (hcurrent : currentName old = some new)
    (hrows : s.lookup old = some rows) :
    Carried before ((s.insert new rows).erase old) := by
  have hmem : old ∈ s := AList.lookup_isSome.mp (by rw [hrows]; rfl)
  refine (h.copy hcurrent hrows).delete hcurrent (h.mem hcurrent hmem) ?_
  rw [AList.lookup_insert, ← h.lookup hcurrent hmem, hrows]

theorem not_half_move (h : ¬ HalfRenamed s) (hcurrent : currentName old = some new) :
    ¬ HalfRenamed ((s.insert new rows).erase old) := by
  rintro ⟨a, b, hab, ha, hb⟩
  obtain ⟨haold, ha⟩ := AList.mem_erase.mp ha
  obtain ⟨-, hb⟩ := AList.mem_erase.mp hb
  have hanew : a ≠ new := by
    rintro rfl
    rw [currentName_current hcurrent] at hab
    cases hab
  have hbnew : b ≠ new := by
    rintro rfl
    exact haold (currentName_injective hab hcurrent)
  exact h ⟨a, b, hab, ((AList.mem_insert _).mp ha).resolve_left hanew,
    ((AList.mem_insert _).mp hb).resolve_left hbnew⟩

/-! ### Attempts -/

variable {engine : Engine} {schema : String} {refusal : MigrationOp → MigrationFailure}

/-- What holds between any two warehouse calls of an attempt. -/
def Kept (engine : Engine) (before s : Keyed String ρ) : Prop :=
  Carried before s ∧ (engine = .duckdb → ¬ HalfRenamed s)

theorem safe_renameCalls {r : TableRename} (hcurrent : currentName r.old = some r.new)
    (h : Kept engine before s) :
    (renameCalls engine r).Safe (schemaInterp refusal) (Kept engine before) (fun _ _ => True) s := by
  cases engine with
  | duckdb =>
    have hafter : Kept .duckdb before (schemaInterp refusal (.alterRename r.old r.new) s).1 := by
      simp only [schemaInterp]
      split
      · rename_i rows hrows _
        exact ⟨h.1.move hcurrent hrows, fun _ => not_half_move (h.2 rfl) hcurrent⟩
      · exact h
    exact .callOrRaise h hafter fun _ _ => ⟨hafter, trivial⟩
  | bigquery =>
    have hcopied : Kept .bigquery before (schemaInterp refusal (.createCopy r.new r.old) s).1 := by
      simp only [schemaInterp]
      split
      · rename_i rows hrows _
        exact ⟨h.1.copy hcurrent hrows, fun he => by cases he⟩
      · exact h
    refine .callOrRaise h hcopied fun _ hok => ?_
    simp only [schemaInterp] at hok hcopied ⊢
    split at hok
    · rename_i rows hrows hnew
      simp only [hrows, hnew] at hcopied ⊢
      have hmem : r.old ∈ s := AList.lookup_isSome.mp (by rw [hrows]; rfl)
      have hmoved := h.1.move hcurrent hrows
      refine .call rfl hcopied ?_
      exact ⟨⟨hmoved, fun he => by cases he⟩, trivial⟩
    · cases hok

theorem safe_migrate (h : Kept engine before s) :
    (migrate engine schema).Safe (schemaInterp refusal) (Kept engine before) (fun _ _ => True) s := by
  refine .call rfl h ?_
  refine Prog.Safe.bind (Q := fun renames _ => ∀ r ∈ renames, currentName r.old = some r.new)
    (Prog.safe_ofExcept h fun renames hrenames => ?_) fun renames t ht hrenames => ?_
  · intro r hr
    rw [planNameMigration] at hrenames
    split at hrenames
    · cases hrenames
    · obtain rfl := Except.ok.inj hrenames
      exact (mem_legacyTables.mp (List.mem_of_mem_filter hr)).2
  · refine (Prog.Safe.foldM (fun _ _ _ => True) ht trivial ?_).mono (fun _ h => h)
      fun _ _ _ _ => trivial
    intro done r rest hlist b u hu _
    have hr : r ∈ renames := hlist ▸ List.mem_append_right _ List.mem_cons_self
    have hrename : (renameTable engine r).Safe (schemaInterp refusal) (Kept engine before)
        (fun _ _ => True) u := by
      rw [renameTable]
      exact (safe_renameCalls (hrenames r hr) hu).tryCatch fun _ _ hv => hv
    refine Prog.Safe.bind (Q := fun _ _ => True) ?_ fun _ _ hv _ => ⟨hv, trivial⟩
    exact hrename.tryCatch fun _ _ hv => hv

theorem kept_of_attempts (h : Attempts engine schema refusal before s)
    (hbefore : ¬ HalfRenamed before) : Kept engine before s := by
  induction h with
  | refl =>
    refine ⟨⟨fun old new hcurrent hold => .inl ⟨rfl, ?_⟩, fun _ _ => rfl⟩, fun _ => hbefore⟩
    exact AList.lookup_eq_none.mpr fun hnew => hbefore ⟨old, new, hcurrent, hold, hnew⟩
  | tail _ hends ih =>
    obtain ⟨out, hends⟩ := hends
    exact ((safe_migrate ih).sound hends).1

theorem exec_renameTable {r : TableRename} (hrows : s.lookup r.old = some rows)
    (hnew : s.lookup r.new = none) :
    (renameTable engine r).exec (schemaInterp refusal) s =
      ((s.insert r.new rows).erase r.old, .ok ()) := by
  cases engine <;>
    simp [renameTable, renameCalls, Prog.exec, schemaInterp, hrows, hnew]

/-- The renames all land, one after another. -/
theorem exec_renames (engine : Engine) (refusal : MigrationOp → MigrationFailure)
    {renames : List TableRename} (hcarried : Carried before s)
    (hwhole : ¬ HalfRenamed s) (hnodup : (renames.map TableRename.old).Nodup)
    (hrenames : ∀ r ∈ renames, currentName r.old = some r.new ∧ r.old ∈ s)
    (done : List TableRename) :
    ∃ after, (Prog.foldM (fun done r =>
        ((renameTable engine r).tryCatch fun e => .throw (addNote done e)) >>= fun _ =>
          .pure (done ++ [r])) done renames).exec (schemaInterp refusal) s =
        (after, .ok (done ++ renames)) ∧ Carried before after ∧ ¬ HalfRenamed after ∧
      ∀ name, currentName name ≠ none → name ∈ after → name ∈ s ∧
        name ∉ renames.map TableRename.old := by
  induction renames generalizing s done with
  | nil => exact ⟨s, by rw [List.append_nil]; rfl, hcarried, hwhole, fun _ _ h => ⟨h, by simp⟩⟩
  | cons r renames ih =>
    obtain ⟨hcurrent, hold⟩ := hrenames r List.mem_cons_self
    obtain ⟨rows, hrows⟩ := Option.isSome_iff_exists.mp (AList.lookup_isSome.mpr hold)
    have hnew : s.lookup r.new = none :=
      AList.lookup_eq_none.mpr fun hnew => hwhole ⟨r.old, r.new, hcurrent, hold, hnew⟩
    obtain ⟨hfresh, hnodup⟩ := List.nodup_cons.mp hnodup
    have hleft : ∀ r' ∈ renames, currentName r'.old = some r'.new ∧
        r'.old ∈ (s.insert r.new rows).erase r.old := by
      intro r' hr'
      obtain ⟨hcurrent', hold'⟩ := hrenames r' (List.mem_cons_of_mem _ hr')
      refine ⟨hcurrent', AList.mem_erase.mpr ⟨?_, (AList.mem_insert _).mpr (.inr hold')⟩⟩
      exact fun heq => hfresh (heq ▸ List.mem_map_of_mem hr')
    obtain ⟨after, hexec, hcarried', hwhole', hnames⟩ := ih (hcarried.move hcurrent hrows)
      (not_half_move hwhole hcurrent) hnodup hleft (done ++ [r])
    refine ⟨after, ?_, hcarried', hwhole', fun name hname hmem => ?_⟩
    · rw [Prog.foldM, Prog.exec_bind, Prog.exec_bind, Prog.exec_tryCatch,
        exec_renameTable hrows hnew]
      simpa using hexec
    · obtain ⟨hmem, hnot⟩ := hnames name hname hmem
      obtain ⟨hne, hmem⟩ := AList.mem_erase.mp hmem
      have hnenew : name ≠ r.new := fun heq => hname (heq ▸ currentName_current hcurrent)
      refine ⟨((AList.mem_insert _).mp hmem).resolve_left hnenew, ?_⟩
      rw [List.map_cons, List.mem_cons, not_or]
      exact ⟨hne, hnot⟩

/-- **The migration resumes.** Attempts that end anywhere carry every table over or leave it, on
DuckDB under one name. If no table is half renamed, an undisturbed attempt then completes the
migration and nothing is left to plan; if one is, the attempt is refused and changes nothing. -/
theorem migration_resumes (hplan : (planNameMigration schema (listAllTables before)).isOk = true)
    (hattempts : Attempts engine schema refusal before s) :
    Carried before s ∧ (engine = .duckdb → ¬ HalfRenamed s) ∧
      (HalfRenamed s → ∃ message, (migrate engine schema).exec (schemaInterp refusal) s =
        (s, .error (.migrationConflictError message))) ∧
      (¬ HalfRenamed s → ∃ after done,
        (migrate engine schema).exec (schemaInterp refusal) s = (after, .ok done) ∧
          Migrated before after ∧ planNameMigration schema (listAllTables after) = .ok []) := by
  have hbefore : ¬ HalfRenamed before := by
    intro h
    obtain ⟨message, herror⟩ := planNameMigration_of_half schema h
    rw [herror] at hplan
    cases hplan
  obtain ⟨hcarried, hduckdb⟩ := kept_of_attempts hattempts hbefore
  refine ⟨hcarried, hduckdb, fun hhalf => ?_, fun hwhole => ?_⟩
  · obtain ⟨message, herror⟩ := planNameMigration_of_half schema hhalf
    refine ⟨message, ?_⟩
    rw [migrate, Prog.exec_call_ok _ rfl, herror]
    rfl
  · have hrenames : ∀ r ∈ legacyTables (listAllTables s), currentName r.old = some r.new ∧
        r.old ∈ s := fun r hr =>
      ⟨(mem_legacyTables.mp hr).2, mem_listAllTables.mp (mem_legacyTables.mp hr).1⟩
    obtain ⟨after, hexec, hafter, hwhole', hnames⟩ := exec_renames engine refusal
      hcarried hwhole (nodup_legacyTables _) hrenames []
    have hgone : ∀ old new, currentName old = some new → old ∉ after := by
      intro old new hcurrent hmem
      obtain ⟨hold, hnot⟩ := hnames old (by rw [hcurrent]; exact Option.some_ne_none _) hmem
      exact hnot (List.mem_map.mpr ⟨⟨old, new⟩,
        mem_legacyTables.mpr ⟨mem_listAllTables.mpr hold, hcurrent⟩, rfl⟩)
    refine ⟨after, legacyTables (listAllTables s), ?_,
      ⟨fun old new hcurrent hold => ?_, hafter.others⟩, ?_⟩
    · rw [migrate, Prog.exec_call_ok _ rfl, planNameMigration_of_not_half hwhole]
      exact hexec
    · have hnone := AList.lookup_eq_none.mpr (hgone old new hcurrent)
      obtain ⟨rows, hrows⟩ := Option.isSome_iff_exists.mp (AList.lookup_isSome.mpr hold)
      rcases hafter.tables old new hcurrent hold with ⟨h, -⟩ | ⟨h, -⟩ | h
      · rw [hnone, hrows] at h
        cases h
      · rw [hnone, hrows] at h
        cases h
      · exact h
    · rw [planNameMigration_of_not_half hwhole']
      congr 1
      rw [List.eq_nil_iff_forall_not_mem]
      intro r hr
      obtain ⟨hmem, hcurrent⟩ := mem_legacyTables.mp hr
      exact hgone r.old r.new hcurrent (mem_listAllTables.mp hmem)

end Runs

/-! ### Two interrupted attempts -/

/-- A schema with two tables of the old names. -/
def legacySchema : Keyed String ℕ :=
  .insert "docs" 3 (.insert "dbt_ml_serving_ledger" 2 (.insert "dbt_ml_state" 1 ∅))

/-- An error of the warehouse. -/
def refused : MigrationOp → MigrationFailure := fun _ => .raised (.other "refused") []

theorem legacySchema_plan : planNameMigration "main" (listAllTables legacySchema) =
    .ok [⟨"dbt_ml_state", "stel_state"⟩, ⟨"dbt_ml_serving_ledger", "stel_serving_ledger"⟩] := by
  rfl

/-- An attempt on BigQuery that dies after the first table was copied. -/
theorem attempt_copied : Attempts .bigquery "main" refused legacySchema
    (legacySchema.insert "stel_state" 1) := by
  refine .tail .refl ⟨none, .replies rfl ?_⟩
  rw [legacySchema_plan]
  exact .replies rfl (.die _ _)

/-- An attempt on BigQuery that dies before the second table is copied. -/
theorem attempt_moved : Attempts .bigquery "main" refused legacySchema
    ((legacySchema.insert "stel_state" 1).erase "dbt_ml_state") := by
  refine .tail .refl ⟨none, .replies rfl ?_⟩
  rw [legacySchema_plan]
  exact .replies rfl (.replies rfl (.die _ _))

theorem migration_resumes_moved : ∃ after done,
    (migrate .bigquery "main").exec (schemaInterp refused)
        ((legacySchema.insert "stel_state" 1).erase "dbt_ml_state") = (after, .ok done) ∧
      Migrated legacySchema after ∧ planNameMigration "main" (listAllTables after) = .ok [] := by
  obtain ⟨-, -, -, hresumes⟩ := migration_resumes (by rw [legacySchema_plan]; rfl) attempt_moved
  refine hresumes fun hhalf => ?_
  obtain ⟨message, herror⟩ := planNameMigration_of_half "main" hhalf
  have hplan : planNameMigration "main"
      (listAllTables ((legacySchema.insert "stel_state" 1).erase "dbt_ml_state")) =
      .ok [⟨"dbt_ml_serving_ledger", "stel_serving_ledger"⟩] := rfl
  rw [hplan] at herror
  cases herror

/-- The next attempt is refused, although planning reported no conflict at first. -/
theorem half_renamed_refused :
    (planNameMigration "main" (listAllTables legacySchema)).isOk = true ∧
      Attempts .bigquery "main" refused legacySchema (legacySchema.insert "stel_state" 1) ∧
      (migrate .bigquery "main").exec (schemaInterp refused) (legacySchema.insert "stel_state" 1) =
        (legacySchema.insert "stel_state" 1, .error (.migrationConflictError (conflictMessage "main"
          [⟨"dbt_ml_state", "stel_state"⟩]))) := by
  refine ⟨by rw [legacySchema_plan]; rfl, attempt_copied, ?_⟩
  rfl

end Stel.Warehouse
