import Stel.Prompts
import Stel.Failure

/-!
# Released prompts are immutable

The prompt tree of a project is edited at will between calls of `write_lock` and `check_lock`. What
the lock holds stays as it is as long as nobody forces the lock, and an empty check says that the
lock is the tree.

## Main definitions

* `Step`, `Run`: edits of the tree, and calls of `write_lock` and `check_lock`.

## Main results

* `checkLock_eq_nil_iff`: an empty check compares two dictionaries.
* `writeLock_unchanged`, `writeLock_kept`: a call that raises, and a call without force.
* `checkLock_of_run`: the check after a successful call.
* `resolvePrompt_of_checked`: the text of a discovered prompt, when the check is empty.
-/

namespace Stel.Prompts

open Stel.Hashing

variable {env : PromptEnv} {project made : Project} {locked found : Keyed String String}
  {key digest : String}

/-! ### The check -/

theorem lockedDrift_eq_none : lockedDrift locked found key = none ↔
    ∃ digest, found.lookup key = some digest ∧ locked.lookup key = some digest := by
  unfold lockedDrift
  cases found.lookup key with
  | none => simp
  | some digest => by_cases h : locked.lookup key = some digest <;> simp [h]

theorem checkLock_eq_ok {drift : List LockDrift} : checkLock env project = .ok drift ↔
    ∃ locked found, readLock env project = .ok locked ∧ discoverPrompts env project = .ok found ∧
      drift = (sortedSet locked.keys).filterMap (lockedDrift locked found) ++
        (sortedSet (found.keys.filter (· ∉ locked.keys))).map fun key => driftOf key .unlocked := by
  unfold checkLock
  rw [bind_eq_ok]
  refine exists_congr fun locked => ?_
  rw [bind_eq_ok]
  constructor
  · rintro ⟨hlocked, found, hfound, h⟩
    exact ⟨found, hlocked, hfound, (Except.ok.inj h).symm⟩
  · rintro ⟨found, hlocked, hfound, rfl⟩
    exact ⟨hlocked, found, hfound, rfl⟩

/-- No locked key drifts exactly if every locked entry is found. -/
theorem filterMap_lockedDrift_eq_nil :
    (sortedSet locked.keys).filterMap (lockedDrift locked found) = [] ↔
      ∀ key digest, locked.lookup key = some digest → found.lookup key = some digest := by
  rw [List.filterMap_eq_nil_iff]
  constructor
  · intro h key digest hlocked
    have hkey : key ∈ sortedSet locked.keys :=
      mem_sortedSet.mpr (Keyed.mem_iff_isSome.mpr (by rw [hlocked]; rfl))
    obtain ⟨other, hfound, hother⟩ := lockedDrift_eq_none.mp (h key hkey)
    rw [hfound, ← hother, hlocked]
  · intro h key hkey
    obtain ⟨digest, hdigest⟩ := Option.isSome_iff_exists.mp
      (Keyed.mem_iff_isSome.mp (mem_sortedSet.mp hkey))
    exact lockedDrift_eq_none.mpr ⟨digest, h key digest hdigest, hdigest⟩

/-- No key is unlocked exactly if every found key is locked. -/
theorem map_unlocked_eq_nil :
    (sortedSet (found.keys.filter (· ∉ locked.keys))).map (fun key => driftOf key .unlocked) = [] ↔
      ∀ key ∈ found.keys, key ∈ locked.keys := by
  rw [List.map_eq_nil_iff, sortedSet_eq_nil, List.filter_eq_nil_iff]
  simp

/-- An empty check: the lock is the tree. -/
theorem checkLock_eq_nil_iff : checkLock env project = .ok [] ↔
    ∃ locked found, readLock env project = .ok locked ∧ discoverPrompts env project = .ok found ∧
      ∀ key, locked.lookup key = found.lookup key := by
  rw [checkLock_eq_ok]
  refine exists_congr fun locked => exists_congr fun found => and_congr_right fun _ =>
    and_congr_right fun _ => ?_
  rw [eq_comm, List.append_eq_nil_iff, filterMap_lockedDrift_eq_nil, map_unlocked_eq_nil]
  constructor
  · rintro ⟨hlocked, hfound⟩ key
    cases h : locked.lookup key with
    | some digest => exact (hlocked key digest h).symm
    | none =>
      have hkey : key ∉ found := fun hkey => AList.lookup_eq_none.mp h (hfound key hkey)
      exact (AList.lookup_eq_none.mpr hkey).symm
  · intro h
    constructor
    · intro key digest hlocked
      rw [← h, hlocked]
    · intro key hkey
      exact Keyed.mem_iff_isSome.mpr ((h key).symm ▸ Keyed.mem_iff_isSome.mp hkey)

/-! ### Writing the lock -/

theorem checkReleased_eq_ok : checkReleased locked found false = .ok () ↔
    changedKeys locked found = [] ∧ removedKeys locked found = [] := by
  unfold checkReleased
  simp only [Bool.false_eq_true, not_false_eq_true, and_true]
  split
  · rename_i h
    simp only [reduceCtorEq, false_iff]
    tauto
  · rename_i h
    simp only [true_iff]
    tauto

theorem planLock_eq_ok {force : Bool} {counts : ℕ × ℕ}
    (h : planLock env project force = .ok (found, counts)) :
    discoverPrompts env project = .ok found ∧ verifiedLockPath env project = .ok () ∧
      ∃ locked, readLock env project = .ok locked ∧ checkReleased locked found force = .ok () := by
  unfold planLock at h
  obtain ⟨locked, hlocked, h⟩ := bind_eq_ok.mp h
  obtain ⟨found', hfound, h⟩ := bind_eq_ok.mp h
  obtain ⟨hreleased, h⟩ := check_bind_eq_ok.mp h
  obtain ⟨hverified, h⟩ := check_bind_eq_ok.mp h
  obtain ⟨rfl, -⟩ := Prod.mk.inj (Except.ok.inj h)
  exact ⟨hfound, hverified, locked, hlocked, hreleased⟩

/-- Making the directory leaves the lock and what is discovered alone. -/
theorem makeDirectory_eq_ok (h : project.makeDirectory = .ok made) :
    made.lock = project.lock ∧ made.symlink = project.symlink ∧
      made.lockSymlink = project.lockSymlink ∧ made.prompts.items = project.prompts.items ∧
      ∃ items, made.prompts = .directory items := by
  unfold Project.makeDirectory at h
  split at h
  · cases h
  · rename_i items hitems
    obtain rfl := Except.ok.inj h
    exact ⟨rfl, rfl, rfl, rfl, items, hitems⟩
  · rename_i habsent
    obtain rfl := Except.ok.inj h
    have hitems : project.prompts.items = [] := by simp [habsent, PromptsPath.items]
    exact ⟨rfl, rfl, rfl, hitems.symm, [], rfl⟩

/-- `write_lock` raises and changes nothing, or writes what it discovers. -/
theorem writeLock_cases (force : Bool) :
    ((∃ e, (writeLock env project force).1 = .error e) ∧
      (writeLock env project force).2 = project) ∨
    ∃ found counts, (writeLock env project force).1 = .ok counts ∧
      planLock env project force = .ok (found, counts) ∧
      (writeLock env project force).2.lock = .json (lockOf found) ∧
      (writeLock env project force).2.symlink = project.symlink ∧
      (writeLock env project force).2.lockSymlink = project.lockSymlink ∧
      (writeLock env project force).2.prompts.items = project.prompts.items := by
  unfold writeLock
  cases hplan : planLock env project force with
  | error e => exact .inl ⟨⟨e, rfl⟩, rfl⟩
  | ok plan =>
    obtain ⟨found, counts⟩ := plan
    cases hmade : project.makeDirectory with
    | error e => exact .inl ⟨⟨e, rfl⟩, rfl⟩
    | ok made =>
      obtain ⟨-, hsymlink, hlockSymlink, hitems, items, hdirectory⟩ := makeDirectory_eq_ok hmade
      refine .inr ⟨found, counts, ?_⟩
      dsimp only
      split
      · exact ⟨rfl, rfl, rfl, hsymlink, hlockSymlink, hitems⟩
      · rename_i hnone
        exact absurd hdirectory (hnone items)

/-- A call that raises changes nothing. -/
theorem writeLock_unchanged {force : Bool} {e : PromptFailure}
    (h : (writeLock env project force).1 = .error e) :
    (writeLock env project force).2 = project := by
  rcases @writeLock_cases env project force with
    ⟨-, h'⟩ | ⟨found, counts, h', -⟩
  · exact h'
  · rw [h] at h'
    cases h'

/-! ### What is written is read back -/

theorem mapM_map_some {α β γ : Type} {f : β → Option γ} {g : α → β} {k : α → γ}
    (h : ∀ x, f (g x) = some (k x)) (xs : List α) : (xs.map g).mapM f = some (xs.map k) := by
  induction xs with
  | nil => rfl
  | cons x xs ih => simp [h, ih]

/-- The entries of a written lock are the dictionary. -/
theorem lockEntries_lockOf : ∃ locked, lockEntries env (lockOf found) = .ok locked ∧
    ∀ key, locked.lookup key = found.lookup key := by
  let rows := (sortedSet found.keys).map fun key => (key, (found.lookup key).getD "")
  have hentries : asEntries (.object ((sortedSet found.keys).map fun key =>
      (key, .string ((found.lookup key).getD "")))) = some (Keyed.upsertAll ∅ rows) := by
    have hrows : ((sortedSet found.keys).map fun key =>
        (key, JsonValue.string ((found.lookup key).getD ""))).mapM
          (fun m => (asString m.2).map fun s => (m.1, s)) = some rows := by
      refine mapM_map_some ?_ _
      exact fun _ => rfl
    exact congrArg (Option.map (Keyed.upsertAll ∅)) hrows
  have hversion : JsonValue.pyEq env.floats (.int 1) (.int 1) = true :=
    (JsonValue.pyEq_of_number rfl).mpr rfl
  refine ⟨Keyed.upsertAll ∅ rows, ?_, fun key => ?_⟩
  · unfold lockEntries
    have hmembers : lockMembers env (lockOf found) = .ok (.int 1, .object
        ((sortedSet found.keys).map fun key => (key, .string ((found.lookup key).getD "")))) := rfl
    rw [hmembers]
    simp [bind, Except.bind, hversion, hentries]
    rfl
  · have hkeys : rows.map Prod.fst = sortedSet found.keys := by
      simp [rows, Function.comp_def]
    cases h : found.lookup key with
    | some digest =>
      refine Keyed.lookup_upsertAll (hkeys ▸ nodup_sortedSet) (List.mem_map.mpr ⟨key, ?_, ?_⟩)
      · exact mem_sortedSet.mpr (Keyed.mem_iff_isSome.mpr (by rw [h]; rfl))
      · rw [h]
        rfl
    | none =>
      rw [Keyed.lookup_upsertAll_of_notMem]
      · rfl
      · rw [hkeys, mem_sortedSet, Keyed.mem_iff_isSome, h]
        simp

theorem discoverPrompts_congr {other : Project} (h : other.prompts.items = project.prompts.items) :
    discoverPrompts env other = discoverPrompts env project := by
  unfold discoverPrompts promptTexts
  rw [h]

theorem verifiedLockPath_congr {other : Project} (hsymlink : other.symlink = project.symlink)
    (hlock : other.lockSymlink = project.lockSymlink) :
    verifiedLockPath env other = verifiedLockPath env project := by
  unfold verifiedLockPath
  rw [hsymlink, hlock]

/-- After a successful call the check is empty. -/
theorem checkLock_writeLock {force : Bool} {counts : ℕ × ℕ}
    (h : (writeLock env project force).1 = .ok counts) :
    checkLock env (writeLock env project force).2 = .ok [] := by
  rcases @writeLock_cases env project force with
    ⟨⟨e, h'⟩, -⟩ | ⟨found, counts', -, hplan, hlock, hsymlink, hlockSymlink, hitems⟩
  · rw [h] at h'
    cases h'
  · obtain ⟨hfound, hverified, -⟩ := planLock_eq_ok hplan
    obtain ⟨locked, hentries, hlookup⟩ := @lockEntries_lockOf env found
    refine checkLock_eq_nil_iff.mpr ⟨locked, found, ?_, ?_, hlookup⟩
    · refine check_bind_eq_ok.mpr ⟨?_, ?_⟩
      · rw [verifiedLockPath_congr hsymlink hlockSymlink, hverified]
      · rw [hlock]
        exact hentries
    · rw [discoverPrompts_congr hitems, hfound]

/-! ### Runs -/

/-- What happens to a project. -/
inductive Event
  | edit
  | write (force : Bool)
  | check
  deriving DecidableEq, Repr

/-- One event: an edit of the tree may do anything but write the lock. -/
inductive Step (env : PromptEnv) : Project → Event → Project → Prop
  | edit {project edited : Project} (lock : edited.lock = project.lock) :
      Step env project .edit edited
  | write (project : Project) (force : Bool) :
      Step env project (.write force) (writeLock env project force).2
  | check (project : Project) : Step env project .check project

/-- A sequence of events. -/
inductive Run (env : PromptEnv) : Project → List Event → Project → Prop
  | nil (project : Project) : Run env project [] project
  | cons {project next last : Project} {event : Event} {events : List Event}
      (step : Step env project event next) (rest : Run env next events last) :
      Run env project (event :: events) last

/-- Every entry of the first lock is in the second. -/
def Kept (env : PromptEnv) (before after : LockFile) : Prop :=
  ∀ locked, before.entries env = .ok locked → ∃ locked', after.entries env = .ok locked' ∧
    ∀ key digest, locked.lookup key = some digest → locked'.lookup key = some digest

theorem Kept.refl (lock : LockFile) : Kept env lock lock :=
  fun locked h => ⟨locked, h, fun _ _ hkey => hkey⟩

theorem Kept.trans {a b c : LockFile} (hab : Kept env a b) (hbc : Kept env b c) : Kept env a c := by
  intro locked h
  obtain ⟨locked', h', hkept⟩ := hab locked h
  obtain ⟨locked'', h'', hkept'⟩ := hbc locked' h'
  exact ⟨locked'', h'', fun key digest hkey => hkept' key digest (hkept key digest hkey)⟩

/-- Without changed and removed keys, what is locked is found. -/
theorem lookup_of_released (h : checkReleased locked found false = .ok ())
    (hkey : locked.lookup key = some digest) : found.lookup key = some digest := by
  obtain ⟨hchanged, hremoved⟩ := checkReleased_eq_ok.mp h
  have hlocked : key ∈ locked.keys := Keyed.mem_iff_isSome.mpr (by rw [hkey]; rfl)
  have hfound : key ∈ found.keys := by
    by_contra hout
    have hmem : key ∈ removedKeys locked found := mem_sortedSet.mpr (by simpa using ⟨hlocked, hout⟩)
    rw [hremoved] at hmem
    cases hmem
  by_contra hne
  have hmem : key ∈ changedKeys locked found := by
    refine mem_sortedSet.mpr (List.mem_filter.mpr ⟨hfound, ?_⟩)
    rw [hkey]
    exact decide_eq_true ⟨hlocked, fun heq => hne heq.symm⟩
  rw [hchanged] at hmem
  cases hmem

/-- A call without force keeps what is locked. -/
theorem writeLock_kept : Kept env project.lock (writeLock env project false).2.lock := by
  rcases @writeLock_cases env project false with
    ⟨-, h⟩ | ⟨found, counts, -, hplan, hlock, -⟩
  · rw [h]
    exact Kept.refl _
  · obtain ⟨-, -, locked, hlocked, hreleased⟩ := planLock_eq_ok hplan
    obtain ⟨locked', hentries, hlookup⟩ := @lockEntries_lockOf env found
    intro before hbefore
    obtain rfl := Except.ok.inj (hbefore.symm.trans (check_bind_eq_ok.mp hlocked).2)
    rw [hlock]
    refine ⟨locked', hentries, fun key digest hkey => ?_⟩
    rw [hlookup, lookup_of_released hreleased hkey]

theorem Step.kept {event : Event} {next : Project} (h : Step env project event next)
    (hforce : event ≠ .write true) : Kept env project.lock next.lock := by
  cases h with
  | edit lock =>
    rw [lock]
    exact Kept.refl _
  | write force =>
    cases force with
    | false => exact writeLock_kept
    | true => exact absurd rfl hforce
  | check => exact Kept.refl _

/-- Events without force keep what is locked. -/
theorem Run.kept {events : List Event} {last : Project} (h : Run env project events last)
    (hforce : .write true ∉ events) : Kept env project.lock last.lock := by
  induction h with
  | nil => exact Kept.refl _
  | cons step rest ih =>
    have hfirst := step.kept fun heq => hforce (heq ▸ List.mem_cons_self)
    exact hfirst.trans (ih fun hmem => hforce (List.mem_cons_of_mem _ hmem))

theorem Step.checked {event : Event} {next : Project} (h : Step env project event next)
    (hedit : event ≠ .edit) (hcheck : checkLock env project = .ok []) :
    checkLock env next = .ok [] := by
  cases h with
  | edit => exact absurd rfl hedit
  | write force =>
    cases hresult : (writeLock env project force).1 with
    | ok counts => exact checkLock_writeLock hresult
    | error e => rwa [writeLock_unchanged hresult]
  | check => exact hcheck

/-- The check stays empty until the tree is edited. -/
theorem Run.checked {events : List Event} {last : Project} (h : Run env project events last)
    (hedit : .edit ∉ events) (hcheck : checkLock env project = .ok []) :
    checkLock env last = .ok [] := by
  induction h with
  | nil => exact hcheck
  | cons step rest ih =>
    exact ih (fun hmem => hedit (List.mem_cons_of_mem _ hmem))
      (step.checked (fun heq => hedit (heq ▸ List.mem_cons_self)) hcheck)

/-! ### Resolution -/

/-- The directories on the way to a prompt are no links. -/
def Project.Plain (project : Project) : Prop :=
  project.symlink = false ∧ ∀ item ∈ project.prompts.items, item.2.symlink = false

/-- A prompt of the tree is a regular file of one of its directories. -/
theorem mem_promptTexts {text : Option String} (h : (key, text) ∈ promptTexts project) :
    ∃ item ∈ project.prompts.items, ∃ files, item.2.files = some files ∧ ∃ file ∈ files,
      isPrompt file.1 = true ∧ file.2.regular? = some text ∧ key = item.1 ++ "/" ++ stem file.1 := by
  obtain ⟨item, hitem, h⟩ := List.mem_flatMap.mp h
  refine ⟨item, (List.mem_insertionSort _).mp hitem, ?_⟩
  cases hfiles : item.2.files with
  | none =>
    rw [hfiles] at h
    cases h
  | some files =>
    rw [hfiles] at h
    obtain ⟨file, hfile, h⟩ := List.mem_filterMap.mp h
    obtain ⟨hfile, hprompt⟩ := List.mem_filter.mp hfile
    obtain ⟨text', htext, h⟩ := Option.map_eq_some_iff.mp h
    obtain ⟨hkey, rfl⟩ := Prod.mk.inj h
    exact ⟨files, rfl, file, (List.mem_insertionSort _).mp hfile, hprompt, htext, hkey.symm⟩

/-- A name that ends in `.md` is its stem with the suffix. -/
theorem stem_append {name : String} (hprompt : isPrompt name = true) (hne : name ≠ ".md") :
    stem name ++ ".md" = name := by
  obtain ⟨before, hbefore⟩ := List.isSuffixOf_iff_suffix.mp hprompt
  have hlength := congrArg List.length hbefore
  rw [List.length_append, show ".md".toList.length = 3 from rfl] at hlength
  rw [stem, if_neg hne, ← String.toList_inj, String.toList_append, String.toList_ofList, ← hlength,
    Nat.add_sub_cancel, ← hbefore, List.take_left]

theorem notMem_of_isSegment {value : String} (h : isSegment value = true) : '/' ∉ value.toList := by
  unfold isSegment at h
  cases hvalue : value.toList with
  | nil => simp
  | cons c cs =>
    rw [hvalue] at h
    simp only [Bool.and_eq_true, Bool.or_eq_true, List.all_eq_true, decide_eq_true_eq] at h
    obtain ⟨hfirst, hrest⟩ := h
    intro hslash
    rcases List.mem_cons.mp hslash with heq | hslash
    · rw [← heq] at hfirst
      revert hfirst
      decide
    · rcases hrest with hall | ⟨hlast, hall⟩
      · exact absurd (hall _ hslash) (by decide)
      · rw [← List.dropLast_append_getLast? _ hlast] at hslash
        rcases List.mem_append.mp hslash with hmem | hmem
        · exact absurd (hall _ hmem) (by decide)
        · exact absurd (List.mem_singleton.mp hmem) (by decide)

/-- The file that a discovered reference names. -/
theorem file_of_discovered {ref : PromptRef} (hfound : discoverPrompts env project = .ok found)
    (hkey : found.lookup (ref.name ++ "/" ++ ref.version) = some digest) :
    ∃ item ∈ project.prompts.items, item.1 = ref.name ∧ ∃ file content,
      project.item? ref.name = some item.2 ∧ project.file? ref = some file ∧
        file.regular? = some (some content) ∧ textHash env content = .ok digest := by
  obtain ⟨entries, hentries, hfound⟩ := bind_eq_ok.mp hfound
  obtain rfl := Except.ok.inj hfound
  rcases Keyed.mem_of_lookup_upsertAll hkey with hmem | hnone
  · obtain ⟨⟨pathKey, text⟩, hp, hhash⟩ := exists_of_mem_right (mapM_eq_ok.mp hentries) hmem
    obtain ⟨computed, hcomputed, hpair⟩ := bind_eq_ok.mp hhash
    obtain ⟨rfl, rfl⟩ := Prod.mk.inj (Except.ok.inj hpair)
    obtain ⟨item, hitem, files, hfiles, file, hfile, hprompt, hregular, hname⟩ := mem_promptTexts hp
    -- The reference determines the directory and the file.
    have hsplit : item.1 = ref.name ∧ stem file.1 = ref.version := by
      have hlist := congrArg String.toList hname
      simp only [String.toList_append, List.append_assoc] at hlist
      obtain ⟨hdirectory, hstem⟩ := append_cons_inj (notMem_of_isSegment ref.valid.1)
        (project.noSlash item hitem) hlist
      exact ⟨String.toList_inj.mp hdirectory.symm, String.toList_inj.mp hstem.symm⟩
    have hfileName : file.1 = ref.version ++ ".md" := by
      rw [← hsplit.2, stem_append hprompt]
      intro hmd
      have hvalid := ref.valid.2
      rw [← hsplit.2, hmd] at hvalid
      exact absurd hvalid (by decide)
    have hitem? : project.item? ref.name = some item.2 := by
      rw [← hsplit.1]
      exact (mem_iff_lookup project.nodup).mp hitem
    have hfile? : files.lookup (ref.version ++ ".md") = some file.2 := by
      rw [← hfileName]
      exact (mem_iff_lookup (item.2.nodup files hfiles)).mp hfile
    cases text with
    | none => cases hcomputed
    | some content =>
      refine ⟨item, hitem, hsplit.1, file.2, content, hitem?, ?_, hregular, hcomputed⟩
      simp [Project.file?, hitem?, hfiles, hfile?]
  · cases hnone

@[simp] theorem textHash_stripText (text : String) :
    textHash env (stripText text) = textHash env text := by
  unfold textHash
  rw [stripText_stripText]

/-- With no links in the way, the text of a discovered prompt has the digest found for it. -/
theorem resolvePrompt_of_discovered {ref : PromptRef} {modelName : String} (hplain : project.Plain)
    (hfound : discoverPrompts env project = .ok found)
    (hkey : found.lookup (ref.name ++ "/" ++ ref.version) = some digest) :
    ∃ text, stripText text = text ∧ textHash env text = .ok digest ∧
      resolvePrompt env project ref modelName =
        if text = "" then .error (emptyPrompt env ref) else .ok ⟨text, ref.name, ref.version⟩ := by
  obtain ⟨item, hitem, -, file, content, hitem?, hfile?, hregular, hhash⟩ :=
    file_of_discovered hfound hkey
  refine ⟨stripText content, stripText_stripText content, ?_, ?_⟩
  · rw [textHash_stripText, hhash]
  · have hlink : file.symlink = false := by
      unfold PromptFile.regular? at hregular
      split at hregular
      · assumption
      · cases hregular
    have hplainPath : verifyProjectPath [(promptsDirname, project.symlink),
        (ref.name, (project.item? ref.name).any (·.symlink)),
        (ref.version ++ ".md", (some file).any (·.symlink))] (promptPath env ref)
        ("prompt " ++ ref.name ++ "/" ++ ref.version) = .ok () := by
      simp [verifyProjectPath, hplain.1, hitem?, hplain.2 item hitem, hlink]
    unfold resolvePrompt
    simp only [hfile?, hplainPath, hregular]

/-! ### Over whole runs -/

/-- In every run of edits, locks and checks: entries stay without force, a refused lock changes
nothing, a check after a lock is empty until the next edit, an empty check is equality of the lock
and the tree, and what is then resolved has the locked digest. -/
theorem prompts_immutable {start project : Project} {events : List Event}
    (hrun : Run env start events project) :
    (.write true ∉ events → Kept env start.lock project.lock) ∧
    (Kept env project.lock (writeLock env project false).2.lock) ∧
    (∀ force e, (writeLock env project force).1 = .error e →
      (writeLock env project force).2.lock = project.lock) ∧
    (∀ force counts, (writeLock env project force).1 = .ok counts → ∀ later last,
      Run env (writeLock env project force).2 later last → .edit ∉ later →
        checkLock env last = .ok []) ∧
    (checkLock env project = .ok [] ↔ ∃ locked found, readLock env project = .ok locked ∧
      discoverPrompts env project = .ok found ∧ ∀ key, locked.lookup key = found.lookup key) ∧
    (checkLock env project = .ok [] → project.Plain → ∀ ref : PromptRef, ∀ modelName found,
      discoverPrompts env project = .ok found → ref.name ++ "/" ++ ref.version ∈ found.keys →
      ∃ locked digest text, readLock env project = .ok locked ∧
        locked.lookup (ref.name ++ "/" ++ ref.version) = some digest ∧
        stripText text = text ∧ textHash env text = .ok digest ∧
        resolvePrompt env project ref modelName =
          if text = "" then .error (emptyPrompt env ref)
          else .ok ⟨text, ref.name, ref.version⟩) := by
  refine ⟨hrun.kept, writeLock_kept, fun force e he => ?_,
    fun force counts hok later last hlater hedit => ?_, checkLock_eq_nil_iff,
    fun hcheck hplain ref modelName found hfound hkey => ?_⟩
  · rw [writeLock_unchanged he]
  · exact hlater.checked hedit (checkLock_writeLock hok)
  · obtain ⟨locked, found', hlocked, hfound', hsame⟩ := checkLock_eq_nil_iff.mp hcheck
    obtain rfl := Except.ok.inj (hfound'.symm.trans hfound)
    obtain ⟨digest, hdigest⟩ := Option.isSome_iff_exists.mp (Keyed.mem_iff_isSome.mp hkey)
    obtain ⟨text, hstrip, hhash, hresolve⟩ :=
      @resolvePrompt_of_discovered env project found' digest ref modelName hplain hfound hdigest
    exact ⟨locked, digest, text, hlocked, (hsame _).trans hdigest, hstrip, hhash, hresolve⟩

/-- A digest and a project with the prompt `greet/v1`. -/
def sampleEnv : PromptEnv where
  blake2b := fun _ bytes => bytes.reverse.take 4
  floats := fun _ => none
  repr := fun _ => ""
  projectDir := "/project"

def greetProject : Project where
  symlink := false
  prompts := .directory [("greet",
    ⟨false, some [("v1.md", ⟨false, some (.regular (some "Say hello.\n"))⟩)], by simp⟩)]
  lockSymlink := false
  lock := .absent
  nodup := by simp [PromptsPath.items]
  noSlash := by simp [PromptsPath.items]
  lock_absent := fun _ => rfl

/-- The prompt is locked, and the second lock has nothing to add. -/
theorem greetProject_immutable :
    (writeLock sampleEnv greetProject false).1 = .ok (1, 0) ∧
      Kept sampleEnv greetProject.lock (writeLock sampleEnv greetProject false).2.lock ∧
      checkLock sampleEnv (writeLock sampleEnv greetProject false).2 = .ok [] := by
  have hwrote : (writeLock sampleEnv greetProject false).1 = .ok (1, 0) := by decide +kernel
  have hstart : Run sampleEnv greetProject [] greetProject := .nil _
  have hrun : Run sampleEnv greetProject [.write false]
      (writeLock sampleEnv greetProject false).2 := .cons (.write _ false) (.nil _)
  exact ⟨hwrote, (prompts_immutable hrun).1 (by decide),
    (prompts_immutable hstart).2.2.2.1 false (1, 0) hwrote [] _ (.nil _) (by simp)⟩

end Stel.Prompts
