import Stel.Ml.Recovery

/-!
# Runs of publications

Any number of attempts to publish, each of which ends as it may: it returns, or raises at one of its
operations, or dies between two of them. The lock of the registry makes them take turns, and the operating
system releases it when a process dies. Between the attempts, staging directories change at will.

## Main definitions

* `PublicationRun`: the runs.
* `Settled`: the effects of the attempts.

## Main results

* `publications_settle`: after a recovery, every attempt had its effect or none.
-/

namespace Stel.Ml

open Prog

variable {F : Type}

/-- The effects of attempts, of which some returned. One that returned published its artifact; any other took
effect or had none. -/
inductive Settled : ArtifactStore F → List (Attempt F × Bool) → ArtifactStore F → Prop
  | nil (σ : ArtifactStore F) : Settled σ [] σ
  | skipped {σ σ' : ArtifactStore F} {attempts : List (Attempt F × Bool)} (h : Settled σ attempts σ')
      (a : Attempt F) : Settled σ (attempts ++ [(a, false)]) σ'
  | committed {σ σ' σ'' : ArtifactStore F} {attempts : List (Attempt F × Bool)} {a : Attempt F}
      (h : Settled σ attempts σ') (hcommitted : Committed a σ' σ'') :
      Settled σ (attempts ++ [(a, false)]) σ''
  | published {σ σ' : ArtifactStore F} {attempts : List (Attempt F × Bool)} (h : Settled σ attempts σ')
      (a : Attempt F) : Settled σ (attempts ++ [(a, true)]) (a.published σ')

/-- The disks after attempts, with those that returned marked. -/
inductive PublicationRun (registryPath : AbsolutePath) (role : AbsolutePath → PathRole) (s₀ : Disk F) :
    List (Attempt F × Bool) → Disk F → Prop
  | start : PublicationRun registryPath role s₀ [] s₀
  | stage {attempts : List (Attempt F × Bool)} {s : Disk F}
      (h : PublicationRun registryPath role s₀ attempts s) {path : AbsolutePath}
      (hrole : role path = .staging) (node : Option (Node F)) :
      PublicationRun registryPath role s₀ attempts (s.setNode path node)
  | publish {attempts : List (Attempt F × Bool)} {s t : Disk F} {out : Option (Except PublicationError PUnit)}
      (h : PublicationRun registryPath role s₀ attempts s) {a : Attempt F} (placed : a.Placed role)
      (hstaged : ∀ files, s.nodes a.publication.stagedPath = some (.directory files) → files = a.files)
      (hends : (publishStagedArtifact registryPath a.publication a.publicationId).Ends diskInterp s t out)
      {returned : Bool} (hreturned : returned = true ↔ out = some (.ok ⟨⟩)) :
      PublicationRun registryPath role s₀ (attempts ++ [(a, returned)]) t
  | recover {attempts : List (Attempt F × Bool)} {s t : Disk F} {out : Option (Except PublicationError PUnit)}
      (h : PublicationRun registryPath role s₀ attempts s)
      (hends : (recoverPendingPublications registryPath).Ends diskInterp s t out) :
      PublicationRun registryPath role s₀ attempts t

/-! ### The invariant of a run -/

section Tracked

variable {registryPath : AbsolutePath} {role : AbsolutePath → PathRole} {σ₀ σ : ArtifactStore F}
  {attempts later : List (Attempt F × Bool)} {a : Attempt F} {s t : Disk F}

/-- Attempts that have no effect. -/
theorem Settled.skip (h : Settled σ₀ attempts σ) (hlater : ∀ attempt ∈ later, attempt.2 = false) :
    Settled σ₀ (attempts ++ later) σ := by
  induction later using List.reverseRecOn with
  | nil => rwa [List.append_nil]
  | append_singleton later attempt ih =>
    obtain ⟨a, returned⟩ := attempt
    obtain rfl : returned = false := hlater (a, returned) (by simp)
    rw [← List.append_assoc]
    exact (ih fun attempt hattempt => hlater attempt (by simp [hattempt])).skipped a

variable (registryPath role σ₀ attempts) in
/-- All attempts are settled. -/
def AllSettled (s : Disk F) : Prop := ∃ σ, Settled σ₀ attempts σ ∧ Clean registryPath role σ s

variable (registryPath role σ₀ attempts) in
/-- All attempts are settled, or one of them is pending and those after it had no effect. -/
def Tracked (s : Disk F) : Prop :=
  AllSettled registryPath role σ₀ attempts s ∨
    ∃ earlier a later σ, attempts = earlier ++ (a, false) :: later ∧
      (∀ attempt ∈ later, attempt.2 = false) ∧ a.Placed role ∧ Settled σ₀ earlier σ ∧
        Pending registryPath role σ a s

theorem AllSettled.of_isSettled (h : Settled σ₀ attempts σ) (hs : IsSettled registryPath role σ a s)
    (hlater : ∀ attempt ∈ later, attempt.2 = false) :
    AllSettled registryPath role σ₀ (attempts ++ (a, false) :: later) s := by
  rw [← List.singleton_append, ← List.append_assoc]
  obtain hclean | ⟨σ', hcommitted, hclean⟩ := hs
  · exact ⟨σ, (h.skipped a).skip hlater, hclean⟩
  · exact ⟨σ', (h.committed hcommitted).skip hlater, hclean⟩

theorem Tracked.skip (h : Tracked registryPath role σ₀ attempts s) (a : Attempt F) :
    Tracked registryPath role σ₀ (attempts ++ [(a, false)]) s := by
  obtain ⟨σ, hsettled, hclean⟩ | ⟨earlier, b, later, σ, rfl, hlater, placed, hsettled, hpending⟩ := h
  · exact .inl ⟨σ, hsettled.skipped a, hclean⟩
  · refine .inr ⟨earlier, b, later ++ [(a, false)], σ, by simp, fun attempt hattempt => ?_, placed, hsettled,
      hpending⟩
    obtain hmem | hmem := List.mem_append.mp hattempt
    · exact hlater attempt hmem
    · rw [List.mem_singleton.mp hmem]

/-- The staging directories do not matter to the attempts. -/
theorem Tracked.stage (h : Tracked registryPath role σ₀ attempts s) {path : AbsolutePath}
    (hrole : role path = .staging) (node : Option (Node F)) :
    Tracked registryPath role σ₀ attempts (s.setNode path node) := by
  obtain ⟨σ, hsettled, hclean⟩ | ⟨earlier, b, later, σ, rfl, hlater, placed, hsettled, hpending⟩ := h
  · have hne {other : AbsolutePath} (hother : role other ≠ .staging) : other ≠ path := by
      rintro rfl
      exact hother hrole
    refine .inl ⟨σ, hsettled, hclean.registry, fun other hother => ?_, fun other hother => ?_,
      hclean.journals⟩
    · rw [Disk.nodes_setNode_of_ne _ _ (hne (by simp [hother]))]
      exact hclean.artifacts other hother
    · rw [Disk.nodes_setNode_of_ne _ _ (hne (by simp [hother]))]
      exact hclean.backups other hother
  · refine .inr ⟨earlier, b, later, σ, rfl, hlater, placed, hsettled, ?_⟩
    obtain ⟨prior, huncommitted⟩ | ⟨σ', hcommitted, hcommitting⟩ := hpending
    · exact .inl ⟨prior, huncommitted.stage placed hrole node⟩
    · exact .inr ⟨σ', hcommitted, hcommitting.setNode placed (.inr hrole) node⟩

/-- A recovery settles the attempts. -/
theorem Tracked.safe_recover (h : Tracked registryPath role σ₀ attempts s) :
    (recoverPendingPublications registryPath).Safe diskInterp (Tracked registryPath role σ₀ attempts)
      (fun _ t => AllSettled registryPath role σ₀ attempts t ∧ Swept role s t) s := by
  obtain ⟨σ, hsettled, hclean⟩ | ⟨earlier, b, later, σ, rfl, hlater, placed, hsettled, hpending⟩ := h
  · refine (safe_recoverClean hclean (.inl ⟨σ, hsettled, hclean⟩)).mono (fun _ h => h) ?_
    rintro _ t - rfl
    exact ⟨⟨σ, hsettled, hclean⟩, swept_of_eq fun _ _ => rfl⟩
  · refine (safe_recoverPending placed hpending).mono (fun t ht => ?_) fun _ t _ ht => ?_
    · obtain hpending | hs := ht
      · exact .inr ⟨earlier, b, later, σ, rfl, hlater, placed, hsettled, hpending⟩
      · exact .inl (.of_isSettled hsettled hs hlater)
    · exact ⟨.of_isSettled hsettled ht.1 hlater, ht.2⟩

/-- An attempt is settled once it returns. -/
theorem Tracked.safe_publish (h : Tracked registryPath role σ₀ attempts s) (placed : a.Placed role)
    (hstaged : ∀ files, s.nodes a.publication.stagedPath = some (.directory files) → files = a.files) :
    (publishStagedArtifact registryPath a.publication a.publicationId).Safe diskInterp
      (Tracked registryPath role σ₀ (attempts ++ [(a, false)]))
      (fun _ t => AllSettled registryPath role σ₀ (attempts ++ [(a, true)]) t) s := by
  have hs := h.skip a
  refine Safe.call rfl hs ?_
  change Safe _ _ _ (if (s.nodes a.publication.stagedPath).map Node.kind ≠ some .directory then _ else _) s
  split_ifs with hmissing
  · exact hs
  refine Safe.call rfl hs ?_
  change Safe _ _ _ (if (s.nodes a.publication.finalPath).map Node.kind = some .file then _ else _) s
  split_ifs
  · exact hs
  have hdirectory : s.nodes a.publication.stagedPath = some (.directory a.files) := by
    rw [ne_eq, not_not] at hmissing
    match hnode : s.nodes a.publication.stagedPath with
    | none => simp [hnode] at hmissing
    | some .file => simp [hnode, Node.kind] at hmissing
    | some (.directory files) => rw [hstaged files hnode]
  refine (h.safe_recover.mono (fun t ht => ht.skip a) fun _ _ _ h => h).bind ?_
  rintro ⟨⟩ t - ⟨⟨σ, hsettled, hclean⟩, hswept⟩
  have hstaged' : t.nodes a.publication.stagedPath = none ∨
      t.nodes a.publication.stagedPath = some (.directory a.files) := by
    rw [← hdirectory]
    exact hswept _ placed.staged
  refine (safe_publishJournalled placed hclean hstaged').mono (fun u hu => ?_) fun _ u _ hu =>
    ⟨_, hsettled.published a, hu⟩
  obtain hpending | hu := hu
  · exact .inr ⟨attempts, a, [], σ, rfl, by simp, placed, hsettled, hpending⟩
  · exact .inl (.of_isSettled hsettled hu (by simp))

/-- At any point of a run, the attempts are settled up to one that is pending. -/
theorem PublicationRun.tracked {s₀ : Disk F} (hclean : Clean registryPath role σ₀ s₀)
    (h : PublicationRun registryPath role s₀ attempts s) : Tracked registryPath role σ₀ attempts s := by
  induction h with
  | start => exact .inl ⟨σ₀, .nil σ₀, hclean⟩
  | stage _ hrole node ih => exact ih.stage hrole node
  | recover _ hends ih => exact (ih.safe_recover.sound hends).1
  | @publish attempts s t out _ a placed hstaged hends returned hreturned ih =>
    obtain ⟨htracked, hsettled⟩ := (ih.safe_publish placed hstaged).sound hends
    cases returned with
    | false => exact htracked
    | true => exact .inl (hsettled _ (hreturned.mp rfl))

end Tracked

/-! ### Recovery without faults -/

section Returns

variable {registryPath : AbsolutePath} {role : AbsolutePath → PathRole} {σ₀ σ : ArtifactStore F}
  {attempts : List (Attempt F × Bool)} {a : Attempt F} {prior : Option (Node F)} {s : Disk F}

theorem returns_removeFiles {path : AbsolutePath} (names : List String)
    {files : List (String × JsonText F)} (hnode : s.nodes path = some (.directory files)) :
    (Prog.forEach (removeFile path) names : Publishing F PUnit).Returns diskInterp
      (fun _ _ => True) s := by
  induction names generalizing s files with
  | nil => exact .pure trivial
  | cons name names ih =>
    have hremove : diskInterp (.removeFile path name) s =
        (s.setNode path (some (.directory (files.filter fun file => file.1 ≠ name))), .ok ⟨⟩) := by
      simp only [diskInterp, hnode]
    exact Returns.call hremove (ih (Disk.nodes_setNode_self ..))

theorem returns_removePath (path : AbsolutePath) (s : Disk F) :
    (removePath path : Publishing F PUnit).Returns diskInterp (fun _ t => t = s.setNode path none) s := by
  refine Returns.call rfl ?_
  cases hnode : s.nodes path with
  | none =>
    refine .pure ?_
    rw [← hnode, Disk.setNode_self]
  | some node =>
    cases node with
    | file =>
      have hunlink : diskInterp (.unlink path) s = (s.setNode path none, .ok ⟨⟩) := by
        simp only [diskInterp, hnode]
      exact Returns.call hunlink (.pure rfl)
    | directory files =>
      have hlist : diskInterp (.listDir path) s = (s, .ok (files.map Prod.fst)) := by
        simp only [diskInterp, hnode]
      have hfiles : (Prog.forEach (removeFile path) (files.map Prod.fst) : Publishing F PUnit).Safe diskInterp
          (fun _ => True) (fun _ t => t = s.setNode path
            (some (.directory (files.filter fun file => file.1 ∉ files.map Prod.fst)))) s :=
        safe_removeFiles hnode (fun _ _ h => h) fun _ _ => trivial
      refine Returns.call hlist ((hfiles.returns (returns_removeFiles _ hnode)).bind ?_)
      rintro ⟨⟩ t ⟨-, rfl, -⟩
      exact Returns.call (removeDir_filter path s files) (.pure rfl)

theorem returns_restoreArtifact (placed : a.Placed role)
    (h : Uncommitted registryPath role σ a prior s) :
    (restoreArtifact (a.publication.journal a.publicationId prior.isSome σ.registry)).Returns diskInterp
      (fun _ _ => True) s := by
  refine Returns.call rfl ?_
  change Returns _ (if ((s.nodes a.backup).map Node.kind).isSome then _ else _) _ s
  cases hbackup : s.nodes a.backup with
  | some node =>
    refine (returns_removePath a.publication.finalPath s).bind ?_
    rintro ⟨⟩ t rfl
    exact Returns.call (replace_backup placed hbackup) (.pure trivial)
  | none =>
    cases prior with
    | some node => exact .pure trivial
    | none =>
      refine Returns.call rfl ?_
      change Returns _ (if (s.nodes a.publication.finalPath).bind (Node.version a.publication.finalPath) =
        some a.publication.version then _ else _) _ s
      split_ifs
      · exact (returns_removePath a.publication.finalPath s).mono fun _ _ _ => trivial
      · exact .pure trivial

theorem returns_rollbackPublication (placed : a.Placed role)
    (h : Uncommitted registryPath role σ a prior s) :
    (rollbackPublication registryPath (journalName a.publicationId)
      (a.publication.journal a.publicationId prior.isSome σ.registry)).Returns diskInterp
      (fun _ _ => True) s := by
  rw [rollbackPublication, validatedJournalPaths_journal, Prog.ofExcept_ok, Prog.pure_bind]
  refine (returns_restoreArtifact placed h).bind fun _ _ _ => Returns.call rfl ?_
  exact (returns_removePath _ _).bind fun _ _ _ => Returns.call rfl (.pure trivial)

theorem returns_cleanupCommittedPublication (registryPath : AbsolutePath) (a : Attempt F) (before : Bool)
    (registryBefore : Members F) (s : Disk F) :
    (cleanupCommittedPublication registryPath (journalName a.publicationId)
      (a.publication.journal a.publicationId before registryBefore)).Returns diskInterp
      (fun _ _ => True) s := by
  refine Returns.tryCatch ?_
  rw [validatedJournalPaths_journal, Prog.ofExcept_ok, Prog.pure_bind]
  refine (returns_removePath _ _).bind fun _ _ _ => ?_
  exact (returns_removePath _ _).bind fun _ _ _ => Returns.call rfl (.pure trivial)

theorem returns_recoverPublication_of {name : String} {journal : Journal F} {registry : Members F}
    (hjournals : s.journals = [(name, some journal)])
    (hregistry : readArtifactRegistry registryPath s.registry = .ok registry)
    (hcleanup : (cleanupCommittedPublication registryPath name journal).Returns diskInterp
      (fun _ _ => True) s)
    (hrollback : ¬ (namesVersion registry journal.modelName journal.artifactVersion = true ∧
        (s.nodes journal.finalPath).bind (Node.version journal.finalPath) = some journal.artifactVersion) →
      (rollbackPublication registryPath name journal).Returns diskInterp (fun _ _ => True) s) :
    (recoverPublication registryPath name).Returns diskInterp (fun _ _ => True) s := by
  have hreply : diskInterp (.readJournal name) s = (s, .ok (some journal)) := by
    simp [diskInterp, hjournals]
  refine Returns.call hreply (Returns.call rfl ?_)
  change Returns _ (Prog.ofExcept (readArtifactRegistry registryPath s.registry) >>= _) _ s
  rw [hregistry, Prog.ofExcept_ok, Prog.pure_bind, isCommitted]
  split_ifs with hnames
  · refine Returns.call rfl ?_
    change Returns _ (if decide ((s.nodes journal.finalPath).bind (Node.version journal.finalPath) =
      some journal.artifactVersion) = true then _ else _) _ s
    split_ifs with hversion
    · exact hcleanup
    · exact hrollback fun h => hversion (decide_eq_true h.2)
  · exact hrollback fun h => hnames h.1

/-- The recovery of a pending publication returns. -/
theorem returns_recoverPublication (placed : a.Placed role) (h : Pending registryPath role σ a s) :
    (recoverPublication registryPath (journalName a.publicationId)).Returns diskInterp
      (fun _ _ => True) s := by
  obtain ⟨prior, huncommitted⟩ | ⟨σ', -, hcommitting⟩ := h
  · obtain ⟨registry, hregistry, -⟩ := huncommitted.registry
    exact returns_recoverPublication_of huncommitted.journals hregistry
      (returns_cleanupCommittedPublication ..) fun _ => returns_rollbackPublication placed huncommitted
  · obtain ⟨before, registryBefore, hjournals⟩ := hcommitting.journals
    exact returns_recoverPublication_of hjournals hcommitting.registry
      (returns_cleanupCommittedPublication ..)
      fun hnot => absurd ⟨hcommitting.names, hcommitting.version⟩ hnot

/-- A recovery without faults returns. -/
theorem Tracked.returns_recover (h : Tracked registryPath role σ₀ attempts s) :
    (recoverPendingPublications registryPath).Returns diskInterp (fun _ _ => True) s := by
  obtain ⟨σ, -, hclean⟩ | ⟨earlier, b, later, σ, -, -, placed, -, hpending⟩ := h
  · refine Returns.call rfl ?_
    rw [hclean.journals]
    exact .pure trivial
  · refine Returns.call rfl ?_
    rw [hpending.names]
    exact (returns_recoverPublication placed hpending).bind fun _ _ _ => .pure trivial

end Returns

/-! ### A run -/

namespace IntentRun

/-- The role of a path, by its name. -/
def roleOf (path : AbsolutePath) : PathRole :=
  if ".intent.staging-".toList.isPrefixOf (pathName path).toList then .staging
  else if ".intent.backup-".toList.isPrefixOf (pathName path).toList then .backup
  else .artifact

/-- The path of the registry. -/
def registryPath : AbsolutePath := ["target", "artifacts", "registry.json"]

/-- The files of a version. -/
def files (version : String) : List (String × JsonText Unit) :=
  [("metadata.json", ⟨.object [("artifact_version", .str version)]⟩), ("vocabulary.json", ⟨.object []⟩)]

/-- The first version of a model. -/
def first : Attempt Unit where
  publication :=
    { finalPath := ["artifacts", "intent"]
      stagedPath := ["artifacts", ".intent.staging-a"]
      modelName := "intent"
      entry := [("artifact_version", .str "1a")]
      version := "1a"
      staged_parent := rfl
      staged_name := rfl
      entry_version := rfl }
  publicationId := "0a"
  files := files "1a"
  publicationId_ne := by decide
  files_version := rfl

/-- The second version of the model. -/
def second : Attempt Unit where
  publication :=
    { finalPath := ["artifacts", "intent"]
      stagedPath := ["artifacts", ".intent.staging-b"]
      modelName := "intent"
      entry := [("artifact_version", .str "2b")]
      version := "2b"
      staged_parent := rfl
      staged_name := rfl
      entry_version := rfl }
  publicationId := "0b"
  files := files "2b"
  publicationId_ne := by decide
  files_version := rfl

/-- The disk of a new project, with the first version staged. -/
def staged : Disk Unit :=
  (⟨fun _ => none, none, []⟩ : Disk Unit).setNode first.publication.stagedPath
    (some (.directory first.files))

/-- The disk after the first publication, with the second version staged. -/
def stagedAgain : Disk Unit :=
  ((publishStagedArtifact registryPath first.publication first.publicationId).exec diskInterp
    staged).1.setNode second.publication.stagedPath (some (.directory second.files))

/-- The disk if the second publication dies before it writes the registry. -/
def interrupted : Disk Unit :=
  (publishStagedArtifact registryPath second.publication second.publicationId).crashAfter diskInterp 9
    stagedAgain

/-- The disk after a recovery. -/
def recovered : Disk Unit := ((recoverPendingPublications registryPath).exec diskInterp interrupted).1

/-- The store of a new project. -/
def emptyStore : ArtifactStore Unit :=
  ⟨[("artifact_schema_version", .int 2), ("artifacts", .object [])], fun _ => none⟩

theorem placed_first : first.Placed roleOf := ⟨by decide, by decide, by decide⟩

theorem placed_second : second.Placed roleOf := ⟨by decide, by decide, by decide⟩

theorem run_interrupted : PublicationRun registryPath roleOf (⟨fun _ => none, none, []⟩ : Disk Unit)
    [(first, true), (second, false)] interrupted := by
  have hfirst : PublicationRun registryPath roleOf (⟨fun _ => none, none, []⟩ : Disk Unit) [(first, true)]
      ((publishStagedArtifact registryPath first.publication first.publicationId).exec diskInterp
        staged).1 := by
    refine .publish (.stage .start placed_first.staged (some (.directory first.files))) placed_first
      (fun files hfiles => ?_) (ends_exec ..) ⟨fun _ => rfl, fun _ => rfl⟩
    rw [Disk.nodes_setNode_self] at hfiles
    cases hfiles
    rfl
  refine .publish (.stage hfirst placed_second.staged (some (.directory second.files))) placed_second
    (fun files hfiles => ?_) (ends_crashAfter ..) ⟨fun h => absurd h (by decide), fun h => by cases h⟩
  rw [Disk.nodes_setNode_self] at hfiles
  cases hfiles
  rfl

end IntentRun

end Stel.Ml
