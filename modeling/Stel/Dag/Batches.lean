import Stel.Data.TopologicalSorter
import Stel.Dag.Selection
import Mathlib.Data.List.Sort

/-!
# Running in batches

`parallel_batches` of `dag.py` groups the selected models into topological generations, and
`_run_in_batches` of `runner.py` runs the models of a batch concurrently before it turns to the next.

## Main definitions

* `ProjectDAG.parallelBatches`: the batches.
* `BatchRun`, `BatchRun.Step`: a run of the batches, where the futures of a batch complete in any
  order.
* `Batched`: what the batches promise.

## Main results

* `parallelBatches_batched`: the batches of any list of distinct models.
* `BatchRun.Reachable.started`: when a model starts, the models of all earlier batches have finished.
* `batches_respect_dependencies`: both together.
* `BatchRun.Reachable.exclusive`: a model and one that it depends on never run at the same time.
-/

namespace Stel

namespace ProjectDAG

variable (dag : ProjectDAG)

/-- The dependencies of a model among the given names. -/
def dependenciesIn (names : List String) (name : String) : List String :=
  (dag.predecessors name).filter (· ∈ names)

/-- `sorted(ready, key=lambda n: order_index[n])`. -/
def inGraphOrder (ready : List String) : List String :=
  ready.insertionSort fun a b => dag.sorted.idxOf a ≤ dag.sorted.idxOf b

/-- `parallel_batches`. -/
def parallelBatches (names : List String) : List (List String) :=
  Sorter.generations dag.inGraphOrder names.length ⟨names, dag.dependenciesIn names, [], []⟩

/-- The batches hold each name once and none is empty; the dependencies of a model among the names
are in earlier batches, one of them in the batch just before; within a batch the order is that of
the graph. -/
structure Batched (names : List String) (batches : List (List String)) : Prop where
  perm : batches.flatten.Perm names
  ne_nil : ∀ batch ∈ batches, batch ≠ []
  earlier : ∀ before batch after, batches = before ++ batch :: after → ∀ n ∈ batch,
    ∀ p ∈ dag.predecessors n, p ∈ names → p ∈ before.flatten
  adjacent : ∀ before batch next after, batches = before ++ batch :: next :: after → ∀ n ∈ next,
    ∃ p ∈ dag.predecessors n, p ∈ batch
  ordered : ∀ batch ∈ batches, batch.Pairwise fun a b => dag.sorted.idxOf a < dag.sorted.idxOf b

variable {dag}

/-- The batches of a list of distinct models. -/
theorem parallelBatches_batched {names : List String} (hnodup : names.Nodup)
    (hnames : ∀ n ∈ names, n ∈ dag.models.map ModelConfig.name) :
    dag.Batched names (dag.parallelBatches names) := by
  have hrank : ∀ n, ∀ p ∈ dag.dependenciesIn names n, dag.sorted.idxOf p < dag.sorted.idxOf n :=
    fun n p hp => dag.sorted_lt p n (mem_predecessors.mp (List.mem_of_mem_filter hp))
  have hnodes : ∀ n, ∀ p ∈ dag.dependenciesIn names n, p ∈ names := fun n p hp => by
    simpa using (List.mem_filter.mp hp).2
  have hlayered : Layered names (dag.dependenciesIn names) [] (dag.parallelBatches names) :=
    Sorter.layered_of_same (s := ⟨names, dag.dependenciesIn names, [], []⟩)
      (fun l => List.perm_insertionSort _ l) hnodup hnodes hrank (fun _ => Iff.rfl) rfl
      (List.length_filter_le _ _)
  refine ⟨hlayered.perm hnodup, hlayered.ne_nil, ?_, ?_, ?_⟩
  · intro before batch after hsplit n hn p hp hmem
    rw [hsplit] at hlayered
    have hbefore := hlayered.before hn p (List.mem_filter.mpr ⟨hp, by simpa using hmem⟩)
    simpa using hbefore
  · intro before batch next after hsplit n hn
    rw [hsplit] at hlayered
    obtain ⟨p, hp, hbatch⟩ := hlayered.adjacent hn
    exact ⟨p, List.mem_of_mem_filter hp, hbatch⟩
  · intro batch hbatch
    obtain ⟨ready, hready⟩ := Sorter.exists_of_mem_generations hbatch
    have hsorted : batch.Pairwise fun a b => dag.sorted.idxOf a ≤ dag.sorted.idxOf b := by
      rw [hready]
      exact List.pairwise_insertionSort _ _
    have hflat := (hlayered.perm hnodup).nodup_iff.mpr hnodup
    have hdistinct : batch.Nodup := (List.nodup_flatten.mp hflat).1 batch hbatch
    have hmem : ∀ n ∈ batch, n ∈ dag.sorted := fun n hn =>
      dag.sorted_perm.mem_iff.mpr (List.mem_append_right _ (hnames n
        ((hlayered.perm hnodup).mem_iff.mp (List.mem_flatten.mpr ⟨batch, hbatch, hn⟩))))
    refine (hsorted.and hdistinct).imp_of_mem fun ha _ hab => lt_of_le_of_ne hab.1 fun heq => ?_
    exact hab.2 ((List.idxOf_inj (hmem _ ha)).mp heq)

end ProjectDAG

/-! ### Running the batches -/

/-- A run of `_run_in_batches`: the batches to come, the models that are submitted and not started,
those that run, the number of workers, the results, and whether a model has raised. -/
structure BatchRun (R : Type) where
  later : List (List String)
  queued : List String := []
  running : List String := []
  workers : ℕ := 0
  results : List (String × R) := []
  raised : Bool := false

namespace BatchRun

variable {R : Type}

/-- What can happen in a run. -/
inductive Event (R : Type)
  | submit
  | start (name : String)
  | finish (name : String) (result : R)
  | raise (name : String)

/-- One step of a run. A batch is submitted when the one before it has completed without raising; a
single model runs on its own, and the pool of a larger batch has at most `threads` workers. Workers
take the submitted models in order, and these complete in any order. When a model raises, the pool
still completes what was submitted. -/
inductive Step (threads : ℕ) : BatchRun R → Event R → BatchRun R → Prop
  | submit (batch : List String) (later : List (List String)) (workers : ℕ)
      (results : List (String × R)) :
      Step threads ⟨batch :: later, [], [], workers, results, false⟩ .submit
        ⟨later, batch, [], if batch.length = 1 then 1 else min threads batch.length, results, false⟩
  | start (name : String) (queued running : List String) (later : List (List String))
      (workers : ℕ) (results : List (String × R)) (raised : Bool)
      (hworker : running.length < workers) :
      Step threads ⟨later, name :: queued, running, workers, results, raised⟩ (.start name)
        ⟨later, queued, name :: running, workers, results, raised⟩
  | finish (name : String) (result : R) (queued running : List String)
      (later : List (List String)) (workers : ℕ) (results : List (String × R)) (raised : Bool)
      (hrunning : name ∈ running) :
      Step threads ⟨later, queued, running, workers, results, raised⟩ (.finish name result)
        ⟨later, queued, running.erase name, workers, results ++ [(name, result)], raised⟩
  | raise (name : String) (queued running : List String) (later : List (List String))
      (workers : ℕ) (results : List (String × R)) (raised : Bool) (hrunning : name ∈ running) :
      Step threads ⟨later, queued, running, workers, results, raised⟩ (.raise name)
        ⟨later, queued, running.erase name, workers, results, true⟩

/-- A model has finished without raising. -/
def Finished (s : BatchRun R) (name : String) : Prop := ∃ result, (name, result) ∈ s.results

/-- The states that a run of the batches reaches. -/
def Reachable (threads : ℕ) (batches : List (List String)) (s : BatchRun R) : Prop :=
  Relation.ReflTransGen (fun s t => ∃ event, Step threads s event t) { later := batches } s

/-- Of the batches that were submitted, every model is submitted, runs, or has finished, if none has
raised, and a model that is not started belongs to the last batch, before which all have finished. -/
def InOrder (batches : List (List String)) (s : BatchRun R) : Prop :=
  ∃ past, batches = past ++ s.later ∧
    (s.raised = false → ∀ n ∈ past.flatten, n ∈ s.queued ∨ n ∈ s.running ∨ s.Finished n) ∧
    ∀ n ∈ s.queued, ∃ before batch, past = before ++ [batch] ∧ n ∈ batch ∧
      ∀ p ∈ before.flatten, s.Finished p

variable {threads : ℕ} {batches : List (List String)} {s t : BatchRun R}

theorem InOrder.step {event : Event R} (h : InOrder batches s) (hstep : Step threads s event t) :
    InOrder batches t := by
  obtain ⟨past, hsplit, hpast, hqueued⟩ := h
  cases hstep with
  | submit batch later workers results =>
    have hfinished : ∀ n ∈ past.flatten, ∃ result, (n, result) ∈ results := fun n hn => by
      rcases hpast rfl n hn with hn | hn | hn
      · cases hn
      · cases hn
      · exact hn
    refine ⟨past ++ [batch], by rw [hsplit, List.append_assoc]; rfl, fun _ n hn => ?_,
      fun n hn => ⟨past, batch, rfl, hn, hfinished⟩⟩
    rw [List.flatten_append, List.mem_append, List.flatten_singleton] at hn
    exact hn.elim (fun hn => .inr (.inr (hfinished n hn))) .inl
  | start name queued running later workers results raised hworker =>
    refine ⟨past, hsplit, fun hraised n hn => ?_, fun n hn => hqueued n (List.mem_cons_of_mem _ hn)⟩
    rcases hpast hraised n hn with hn | hn | hn
    · rcases List.mem_cons.mp hn with rfl | hn
      · exact .inr (.inl List.mem_cons_self)
      · exact .inl hn
    · exact .inr (.inl (List.mem_cons_of_mem _ hn))
    · exact .inr (.inr hn)
  | finish name result queued running later workers results raised hrunning =>
    have hkeep : ∀ n, (∃ result, (n, result) ∈ results) →
        ∃ result', (n, result') ∈ results ++ [(name, result)] := fun n ⟨r, hr⟩ =>
      ⟨r, List.mem_append_left _ hr⟩
    refine ⟨past, hsplit, fun hraised n hn => ?_, fun n hn => ?_⟩
    · rcases hpast hraised n hn with hn | hn | hn
      · exact .inl hn
      · by_cases hname : n = name
        · exact .inr (.inr ⟨result, by simp [hname]⟩)
        · exact .inr (.inl ((List.mem_erase_of_ne hname).mpr hn))
      · exact .inr (.inr (hkeep n hn))
    · obtain ⟨before, batch, hpastSplit, hmem, hbefore⟩ := hqueued n hn
      exact ⟨before, batch, hpastSplit, hmem, fun p hp => hkeep p (hbefore p hp)⟩
  | raise name queued running later workers results raised hrunning =>
    exact ⟨past, hsplit, nofun, hqueued⟩

theorem Reachable.inOrder (h : Reachable threads batches s) : InOrder batches s := by
  induction h with
  | refl =>
    exact ⟨[], rfl, fun _ n hn => absurd hn List.not_mem_nil,
      fun n hn => absurd hn List.not_mem_nil⟩
  | tail _ hstep ih =>
    obtain ⟨event, hstep⟩ := hstep
    exact ih.step hstep

/-- When a model starts, the models of all earlier batches have finished. -/
theorem Reachable.started {name : String} (h : Reachable threads batches s)
    (hstep : Step threads s (.start name) t) :
    ∃ before batch after, batches = before ++ batch :: after ∧ name ∈ batch ∧
      ∀ p ∈ before.flatten, s.Finished p := by
  obtain ⟨past, hsplit, -, hqueued⟩ := h.inOrder
  cases hstep with
  | start name queued running later workers results raised hworker =>
    obtain ⟨before, batch, hpast, hmem, hbefore⟩ := hqueued name List.mem_cons_self
    refine ⟨before, batch, later, ?_, hmem, hbefore⟩
    rw [hsplit, hpast, List.append_assoc]
    rfl

/-! ### Models that run at the same time -/

/-- The models of a run, each once: those of later batches, those that are submitted, those that run
and those that have finished. -/
def models (s : BatchRun R) : List String :=
  s.later.flatten ++ s.queued ++ s.running ++ s.results.map Prod.fst

theorem nodup_models_step {event : Event R} (h : s.models.Nodup) (hstep : Step threads s event t) :
    t.models.Nodup := by
  cases hstep with
  | submit batch later workers results =>
    refine (List.Perm.nodup_iff ?_).mp h
    simp only [models, List.flatten_cons, List.append_nil]
    exact List.perm_append_comm.append_right _
  | start name queued running later workers results raised hworker =>
    refine (List.Perm.nodup_iff ?_).mp h
    simp only [models, List.append_assoc]
    exact List.Perm.append_left _ List.perm_middle.symm
  | finish name result queued running later workers results raised hrunning =>
    refine (List.Perm.nodup_iff ?_).mp h
    simp only [models, List.map_append, List.map_cons, List.map_nil, List.append_assoc]
    refine List.Perm.append_left _ (List.Perm.append_left _ ?_)
    refine ((List.perm_cons_erase hrunning).append_right _).trans ?_
    rw [List.cons_append, ← List.append_assoc]
    exact List.perm_append_singleton _ _ |>.symm
  | raise name queued running later workers results raised hrunning =>
    refine h.sublist ?_
    exact ((List.erase_sublist).append_left _).append_right _

/-- In a run of distinct models, the dependencies of a model that runs have finished, if they belong
to the run, and so none of them runs. -/
theorem Reachable.exclusive {dag : ProjectDAG} {names : List String} (hnodup : names.Nodup)
    (hnames : ∀ n ∈ names, n ∈ dag.models.map ModelConfig.name)
    (h : Reachable threads (dag.parallelBatches names) s) :
    ∀ n ∈ s.running, ∀ p ∈ dag.predecessors n, p ∈ names → s.Finished p ∧ p ∉ s.running := by
  have hbatched := ProjectDAG.parallelBatches_batched hnodup hnames
  have hmodels : s.models.Nodup := by
    induction h with
    | refl =>
      simp only [models, List.map_nil, List.append_nil]
      exact hbatched.perm.nodup_iff.mpr hnodup
    | tail _ hstep ih =>
      obtain ⟨event, hstep⟩ := hstep
      exact nodup_models_step ih hstep
  have hfinished : ∀ n ∈ s.running, ∀ p ∈ dag.predecessors n, p ∈ names → s.Finished p := by
    clear hmodels
    induction h with
    | refl => exact fun n hn => absurd hn List.not_mem_nil
    | @tail u v hreach hstep ih =>
      obtain ⟨event, hstep⟩ := hstep
      have hstarted : ∀ name, event = .start name → ∀ p ∈ dag.predecessors name, p ∈ names →
          u.Finished p := by
        rintro name rfl p hp hmem
        obtain ⟨before, batch, after, hsplit, hname, hbefore⟩ :=
          Reachable.started hreach hstep
        exact hbefore p (hbatched.earlier before batch after hsplit name hname p hp hmem)
      cases hstep with
      | submit batch later workers results => exact fun n hn => absurd hn List.not_mem_nil
      | start name queued running later workers results raised hworker =>
        intro n hn p hp hmem
        rcases List.mem_cons.mp hn with rfl | hn
        · exact hstarted _ rfl p hp hmem
        · exact ih n hn p hp hmem
      | finish name result queued running later workers results raised hrunning =>
        intro n hn p hp hmem
        obtain ⟨r, hr⟩ := ih n (List.mem_of_mem_erase hn) p hp hmem
        exact ⟨r, List.mem_append_left _ hr⟩
      | raise name queued running later workers results raised hrunning =>
        exact fun n hn => ih n (List.mem_of_mem_erase hn)
  intro n hn p hp hmem
  have hp' := hfinished n hn p hp hmem
  refine ⟨hp', fun hrunning => ?_⟩
  obtain ⟨r, hr⟩ := hp'
  have hdisjoint := (List.nodup_append'.mp hmodels).2.2
  exact hdisjoint (List.mem_append_right _ hrunning) (List.mem_map_of_mem hr)

end BatchRun

/-- The batches of distinct models respect their dependencies, and in every run, whatever the order
in which the models of a batch complete, a model starts only after the selected models that it
depends on have finished without raising. -/
theorem batches_respect_dependencies (dag : ProjectDAG) {names : List String} (hnodup : names.Nodup)
    (hnames : ∀ n ∈ names, n ∈ dag.models.map ModelConfig.name) :
    dag.Batched names (dag.parallelBatches names) ∧
    ∀ (R : Type) (threads : ℕ) (s t : BatchRun R) (name : String),
      BatchRun.Reachable threads (dag.parallelBatches names) s →
      BatchRun.Step threads s (.start name) t →
      ∀ p ∈ dag.predecessors name, p ∈ names → s.Finished p := by
  have hbatched := ProjectDAG.parallelBatches_batched hnodup hnames
  refine ⟨hbatched, fun R threads s t name hreach hstep p hp hmem => ?_⟩
  obtain ⟨before, batch, after, hsplit, hname, hbefore⟩ := hreach.started hstep
  exact hbefore p (hbatched.earlier before batch after hsplit name hname p hp hmem)

theorem batches_respect_dependencies_notes :
    SelectableDAG.notesProject.parallelBatches ["vectors", "notes", "chunks"] =
        [["chunks", "notes"], ["vectors"]] ∧
      ∀ s t : BatchRun ℕ,
        BatchRun.Reachable 4 [["chunks", "notes"], ["vectors"]] s →
        BatchRun.Step 4 s (.start "vectors") t → s.Finished "chunks" := by
  have hbatches : SelectableDAG.notesProject.parallelBatches ["vectors", "notes", "chunks"] =
      [["chunks", "notes"], ["vectors"]] := by decide +kernel
  refine ⟨hbatches, fun s t hreach hstep => ?_⟩
  have hrun := (@batches_respect_dependencies SelectableDAG.notesProject.toProjectDAG
    ["vectors", "notes", "chunks"] (by decide) (by decide +kernel)).2 ℕ 4 s t "vectors"
  exact hrun (hbatches ▸ hreach) hstep "chunks" (by decide +kernel) (by decide)

end Stel
