import Stel.Batch.Native
import Stel.Data.Text
import Mathlib.Data.Finset.Card

/-!
# Alignment of native batch results

The entries that a native batch run returns stand at the indices of their paths. `Inv` holds of the
state after each number of paths: the documents of the partitions, submitted and pending, are the
uncached paths so far in their order, and every path so far either has its entry or waits.

## Main definitions

* `Path.read`, `Uncached`: what a path contributes, and that its content was not cached in its turn.
* `Job.Returns`: the item that a job returned for the request of a document.
* `Answers`: the entries that a path may have.

## Main results

* `returns_of_oneToOne`: in a validated result every document finds the item of its own request.
* `inv_flushPartition`, `inv_scanPath`: the steps of a run.
* `extractBatch_aligned`: alignment, partitions, and that a run without a budget returns.
-/

namespace Stel.NativeBatch

variable {S F ε γ : Type} {env : Env S F γ}

/-! ### Specification -/

/-- What reading a path yields in a run. With a budget its size is read first. -/
def Path.read (env : Env S F γ) (path : Path ε) : Except ε String :=
  match env.budget, path.size with
  | some _, .error error => .error error
  | _, _ => path.text

/-- The content of the `i`-th path is not cached when it is its turn. -/
def Uncached (env : Env S F γ) (paths : List (Path ε)) (cache : String → Option F) (ledgers : γ)
    (i : ℕ) (text : String) : Prop :=
  ∃ s, scanPaths env (paths.take i) cache ledgers = .ok s ∧ cached env s text = none

/-- A job returned an item, and only this one, for the request built from the text of a document. -/
def Job.Returns (env : Env S F γ) (job : Job S F) (document : Pending)
    (item : BatchInferenceItem F) : Prop :=
  ∃ j, job.documents[j]? = some document ∧
    job.requests[j]? = some ⟨requestId j, inferenceRequest env.settings document.text⟩ ∧
    item ∈ job.items ∧ ∀ other ∈ job.items, other.requestId = requestId j ↔ other = item

/-- The entries that the `i`-th path may have: its read error, the fields that the cache holds for
its content when it is its turn, or what the provider returned for its text. -/
inductive Answers (env : Env S F γ) (paths : List (Path ε)) (cache : String → Option F) (ledgers : γ)
    (jobs : List (Job S F)) (i : ℕ) (path : Path ε) : Entry F ε → Prop
  | unreadable {error : ε} (hread : path.read env = .error error) :
    Answers env paths cache ledgers jobs i path (.error (.read error))
  | hit {text : String} {s : State S F ε γ} {fields : F} (hread : path.read env = .ok text)
    (hturn : scanPaths env (paths.take i) cache ledgers = .ok s)
    (hcached : cached env s text = some fields) :
    Answers env paths cache ledgers jobs i path (cachedEntry fields)
  | provided {job : Job S F} {document : Pending} {item : BatchInferenceItem F}
    (hread : path.read env = .ok document.text) (hindex : document.index = i)
    (huncached : Uncached env paths cache ledgers i document.text) (hjob : job ∈ jobs)
    (hreturns : job.Returns env document item) :
    Answers env paths cache ledgers jobs i path
      (resolveBatchItem env (some (env.provider.validateItem item)))

theorem Answers.mono {paths : List (Path ε)} {cache : String → Option F} {ledgers : γ}
    {jobs jobs' : List (Job S F)} {i : ℕ} {path : Path ε} {entry : Entry F ε}
    (h : Answers env paths cache ledgers jobs i path entry) (hsub : jobs ⊆ jobs') :
    Answers env paths cache ledgers jobs' i path entry := by
  cases h with
  | unreadable hread => exact .unreadable hread
  | hit hread hturn hcached => exact .hit hread hturn hcached
  | provided hread hindex huncached hjob hreturns =>
    exact .provided hread hindex huncached (hsub hjob) hreturns

/-! ### Request ids -/

theorem requestId_injective : Function.Injective requestId := by
  intro i j h
  have hdigits : Nat.repr i = Nat.repr j := (String.append_right_inj _).mp h
  refine toDigits_injective ?_
  rw [← Nat.toList_repr, ← Nat.toList_repr, hdigits]

theorem requestIds (env : Env S F γ) (partition : List Pending) :
    (requestsOf env partition).map BatchInferenceRequest.requestId =
      (List.range partition.length).map requestId := by
  rw [requestsOf, List.map_map, List.range_eq_range', ← List.zipIdx_map_snd 0 partition, List.map_map]
  rfl

theorem nodup_requestIds (env : Env S F γ) (partition : List Pending) :
    ((requestsOf env partition).map BatchInferenceRequest.requestId).Nodup := by
  rw [requestIds]
  exact List.nodup_range.map requestId_injective

/-- The items of a result that passes the test have distinct ids. -/
theorem OneToOne.nodup {requests : List (BatchInferenceRequest S)}
    {items : List (BatchInferenceItem F)} (h : OneToOne requests items)
    (hrequests : (requests.map BatchInferenceRequest.requestId).Nodup) :
    (items.map BatchInferenceItem.requestId).Nodup := by
  have hcard : (items.map BatchInferenceItem.requestId).toFinset.card =
      (items.map BatchInferenceItem.requestId).length := by
    rw [← h.1, List.toFinset_card_of_nodup hrequests, List.length_map, List.length_map, h.2]
  exact Multiset.toFinset_card_eq_card_iff_nodup.mp hcard

/-- In a result that passes the test each document finds the item of its own request. -/
theorem returns_of_oneToOne {partition : List Pending} {items : List (BatchInferenceItem F)}
    (h : OneToOne (requestsOf env partition) items) {j : ℕ} {document : Pending}
    (hj : partition[j]? = some document) :
    ∃ item, Job.Returns env ⟨partition, requestsOf env partition, items⟩ document item ∧
      lookupItem (items.map env.provider.validateItem) (requestId j) =
        some (env.provider.validateItem item) := by
  have hlt : j < partition.length := (List.getElem?_eq_some_iff.mp hj).1
  have hid : requestId j ∈ (items.map BatchInferenceItem.requestId).toFinset := by
    rw [← h.1, requestIds]
    simpa using ⟨j, hlt, rfl⟩
  obtain ⟨item, hitem, hitemId⟩ := List.mem_map.mp (List.mem_toFinset.mp hid)
  have hunique : ∀ other ∈ items, other.requestId = requestId j ↔ other = item := by
    intro other hother
    constructor
    · intro hotherId
      exact List.inj_on_of_nodup_map (h.nodup (nodup_requestIds env partition)) hother hitem
        (hotherId.trans hitemId.symm)
    · rintro rfl
      exact hitemId
  refine ⟨item, ⟨j, hj, ?_, hitem, hunique⟩, ?_⟩
  · simp [requestsOf, List.getElem?_zipIdx, hj]
  · have hfound : (lookupItem (items.map env.provider.validateItem) (requestId j)).isSome := by
      rw [lookupItem, List.find?_isSome]
      exact ⟨env.provider.validateItem item,
        List.mem_reverse.mpr (List.mem_map_of_mem hitem), decide_eq_true hitemId⟩
    obtain ⟨found, hfound⟩ := Option.isSome_iff_exists.mp hfound
    have hmem := List.mem_of_find?_eq_some hfound
    obtain ⟨other, hother, rfl⟩ := List.mem_map.mp (List.mem_reverse.mp hmem)
    have hpred := List.find?_some hfound
    have hotherId : other.requestId = requestId j := of_decide_eq_true hpred
    rw [hfound, (hunique other hother).mp hotherId]

/-! ### Partitions -/

/-- The entries of a partition after its loop: each document has that of an item looked up for it,
and other entries are as before. -/
theorem byIndex_foldl_recordItem (env : Env S F γ) (items : List (BatchInferenceItem F))
    (entries : List (Pending × ℕ)) (s : State S F ε γ) (i : ℕ) :
    (∃ entry ∈ entries, entry.1.index = i ∧ (entries.foldl (recordItem env items) s).byIndex i =
        some (resolveBatchItem env (lookupItem items (requestId entry.2)))) ∨
      (∀ entry ∈ entries, entry.1.index ≠ i) ∧
        (entries.foldl (recordItem env items) s).byIndex i = s.byIndex i := by
  induction entries generalizing s with
  | nil => exact .inr ⟨by simp, rfl⟩
  | cons entry entries ih =>
    rw [List.foldl_cons]
    rcases ih (recordItem env items s entry) with ⟨other, hother, hindex, heq⟩ | ⟨hne, heq⟩
    · exact .inl ⟨other, List.mem_cons_of_mem _ hother, hindex, heq⟩
    · by_cases hi : entry.1.index = i
      · refine .inl ⟨entry, List.mem_cons_self, hi, heq.trans ?_⟩
        rw [← hi]
        exact Function.update_self ..
      · refine .inr ⟨List.forall_mem_cons.mpr ⟨hi, hne⟩, heq.trans ?_⟩
        exact Function.update_of_ne (Ne.symm hi) ..

theorem putCache_eq_some {cache : String → Option F} {key key' : String} {entry : Entry F ε}
    {fields : F} (h : putCache env cache key' entry key = some fields) :
    cache key = some fields ∨ key' = key ∧
      ∃ result, entry = .ok result ∧ fields = env.stored result.fields := by
  unfold putCache at h
  split at h
  · rename_i result
    split at h
    · by_cases hkey : key = key'
      · subst hkey
        rw [Function.update_self] at h
        exact .inr ⟨rfl, result, rfl, (Option.some.inj h).symm⟩
      · rw [Function.update_of_ne hkey] at h
        exact .inl h
    · exact .inl h
  · exact .inl h

/-- The cache after the loop over a partition: what an item brought for its key, or as before. -/
theorem cache_foldl_recordItem (items : List (BatchInferenceItem F)) (entries : List (Pending × ℕ))
    {s : State S F ε γ} {key : String} {fields : F}
    (h : (entries.foldl (recordItem env items) s).cache key = some fields) :
    s.cache key = some fields ∨ ∃ entry ∈ entries, entry.1.cacheKey = key ∧
      ∃ result : ExtractionResult F, (resolveBatchItem env (lookupItem items (requestId entry.2)) :
        Entry F ε) = .ok result ∧ fields = env.stored result.fields := by
  induction entries generalizing s with
  | nil => exact .inl h
  | cons entry entries ih =>
    rw [List.foldl_cons] at h
    rcases ih h with hbefore | ⟨other, hother, hkey, hresult⟩
    · exact (putCache_eq_some hbefore).imp_right fun hentry => ⟨entry, List.mem_cons_self, hentry⟩
    · exact .inr ⟨other, List.mem_cons_of_mem _ hother, hkey, hresult⟩

/-- The results that are written to the cache are validated results of the provider. -/
theorem resolve_validateItem_eq_ok {item : BatchInferenceItem F} {result : ExtractionResult F}
    (h : (resolveBatchItem env (some (env.provider.validateItem item)) : Entry F ε) = .ok result) :
    ∃ validated, env.provider.validateOutcome item.outcome = .result validated ∧
      result.fields = validated.output := by
  unfold Provider.validateItem at h
  cases hout : env.provider.validateOutcome item.outcome with
  | result validated =>
    rw [hout] at h
    exact ⟨validated, rfl, by rw [← Except.ok.inj h]⟩
  | error error usage =>
    rw [hout] at h
    cases usage with
    | none => cases h
    | some usage =>
      simp only [resolveBatchItem] at h
      split at h <;> cases h

/-- What the flush of a partition does. -/
theorem flushPartition_eq_ok {s t : State S F ε γ} (h : flushPartition env s = .ok t)
    (hpending : s.pending ≠ []) :
    ∃ items, OneToOne (requestsOf env s.pending) items ∧
      t.jobs = s.jobs ++ [⟨s.pending, requestsOf env s.pending, items⟩] ∧ t.pending = [] ∧
      t.byIndex = (s.pending.zipIdx.foldl
        (recordItem env (items.map env.provider.validateItem)) s).byIndex ∧
      t.cache = (s.pending.zipIdx.foldl
        (recordItem env (items.map env.provider.validateItem)) s).cache := by
  rw [flushPartition, if_neg hpending] at h
  obtain ⟨-, h⟩ := check_bind_eq_ok.mp h
  obtain ⟨⟨fetched, items, resumed⟩, hrun, h⟩ := bind_eq_ok.mp h
  obtain rfl := Except.ok.inj h
  unfold runMessageBatch validateBatchResult at hrun
  split at hrun
  · cases hrun
  · rename_i fetched' resumed' _
    by_cases hone : OneToOne (requestsOf env s.pending) fetched'
    · simp only [hone, if_true, Except.ok.injEq, Prod.mk.injEq] at hrun
      obtain ⟨rfl, rfl, rfl⟩ := hrun
      exact ⟨_, hone, rfl, rfl, rfl, rfl⟩
    · simp only [hone, if_false, reduceCtorEq] at hrun

/-! ### The invariant -/

/-- The documents that were handed to the provider or wait for their partition, in order. -/
def State.documents (s : State S F ε γ) : List Pending :=
  s.jobs.flatMap Job.documents ++ s.pending

section Run

variable {paths : List (Path ε)} {cache : String → Option F} {ledgers : γ} {k : ℕ}
  {s t : State S F ε γ}

/-- The state after `k` paths. -/
structure Inv (env : Env S F γ) (paths : List (Path ε)) (cache : String → Option F) (ledgers : γ)
    (k : ℕ) (s : State S F ε γ) : Prop where
  sorted : (s.documents.map Pending.index).Pairwise (· < ·)
  origin : ∀ document ∈ s.documents, document.index < k ∧
    document.cacheKey = env.keyOf document.text ∧
    Uncached env paths cache ledgers document.index document.text ∧
    ∃ path, paths[document.index]? = some path ∧ path.read env = .ok document.text
  answered : ∀ i < k, ∀ path, paths[i]? = some path →
    (∃ entry, s.byIndex i = some entry ∧ Answers env paths cache ledgers s.jobs i path entry) ∨
      ∃ document ∈ s.pending, document.index = i
  submitted : ∀ i < k, ∀ path text, paths[i]? = some path → path.read env = .ok text →
    Uncached env paths cache ledgers i text → ∃ document ∈ s.documents, document.index = i
  full : ∀ job ∈ s.jobs, job.documents ≠ [] ∧ job.documents.length ≤ env.partitionSize ∧
    job.requests = requestsOf env job.documents
  pending_le : s.pending.length ≤ env.partitionSize
  cached : ∀ key fields, s.cache key = some fields → cache key = some fields ∨
    ∃ job ∈ s.jobs, ∃ document item, job.Returns env document item ∧
      env.keyOf document.text = key ∧ ∃ result,
        env.provider.validateOutcome item.outcome = .result result ∧
          fields = env.stored result.output

theorem inv_initial : Inv env paths cache ledgers 0 (State.initial cache ledgers) where
  sorted := .nil
  origin := by simp [State.documents, State.initial]
  answered := by simp
  submitted := by simp
  full := by simp [State.initial]
  pending_le := Nat.zero_le _
  cached := fun _ _ h => .inl h

/-- The flush of a partition answers its documents. -/
theorem inv_flushPartition (hinv : Inv env paths cache ledgers k s)
    (h : flushPartition env s = .ok t) : Inv env paths cache ledgers k t ∧ t.pending = [] := by
  by_cases hpending : s.pending = []
  · rw [flushPartition, if_pos hpending] at h
    obtain rfl := Except.ok.inj h
    exact ⟨hinv, hpending⟩
  obtain ⟨items, hone, hjobs, hnil, hbyIndex, hcache⟩ := flushPartition_eq_ok h hpending
  have hdocuments : t.documents = s.documents := by simp [State.documents, hjobs, hnil]
  have hlast : (⟨s.pending, requestsOf env s.pending, items⟩ : Job S F) ∈ t.jobs := by simp [hjobs]
  have hsub : s.jobs ⊆ t.jobs := by simp [hjobs]
  have hfound : ∀ entry ∈ s.pending.zipIdx, ∃ item,
      Job.Returns env ⟨s.pending, requestsOf env s.pending, items⟩ entry.1 item ∧
        lookupItem (items.map env.provider.validateItem) (requestId entry.2) =
          some (env.provider.validateItem item) := fun entry hentry =>
    returns_of_oneToOne hone (List.mk_mem_zipIdx_iff_getElem?.mp hentry)
  have horigin : ∀ entry ∈ s.pending.zipIdx, entry.1 ∈ s.documents := fun entry hentry =>
    List.mem_append_right _ (List.fst_mem_of_mem_zipIdx hentry)
  refine ⟨⟨?_, ?_, ?_, ?_, ?_, ?_, ?_⟩, hnil⟩
  · rw [hdocuments]
    exact hinv.sorted
  · rw [hdocuments]
    exact hinv.origin
  · intro i hi path hpath
    rw [hbyIndex]
    rcases byIndex_foldl_recordItem env (items.map env.provider.validateItem)
        s.pending.zipIdx s i with ⟨entry, hentry, hindex, heq⟩ | ⟨hne, heq⟩
    · obtain ⟨item, hreturns, hlookup⟩ := hfound entry hentry
      obtain ⟨-, -, huncached, path', hpath', hread⟩ := hinv.origin _ (horigin entry hentry)
      rw [hindex] at huncached hpath'
      obtain rfl := Option.some.inj (hpath'.symm.trans hpath)
      rw [hlookup] at heq
      exact .inl ⟨_, heq, .provided hread hindex huncached hlast hreturns⟩
    · rcases hinv.answered i hi path hpath with ⟨entry, hentry, hanswers⟩ | ⟨document, hmem, hindex⟩
      · exact .inl ⟨entry, heq.trans hentry, hanswers.mono hsub⟩
      · obtain ⟨j, hj⟩ := List.mem_iff_getElem?.mp hmem
        exact absurd hindex (hne (document, j) (List.mk_mem_zipIdx_iff_getElem?.mpr hj))
  · rw [hdocuments]
    exact hinv.submitted
  · rw [hjobs]
    intro job hjob
    rcases List.mem_append.mp hjob with hjob | hjob
    · exact hinv.full job hjob
    · rw [List.mem_singleton.mp hjob]
      exact ⟨hpending, hinv.pending_le, rfl⟩
  · rw [hnil]
    exact Nat.zero_le _
  · intro key fields hkey
    rw [hcache] at hkey
    rcases cache_foldl_recordItem _ _ hkey with hbefore | ⟨entry, hentry, hentryKey, result, hok, rfl⟩
    · refine (hinv.cached key fields hbefore).imp_right ?_
      rintro ⟨job, hjob, hrest⟩
      exact ⟨job, hsub hjob, hrest⟩
    · obtain ⟨item, hreturns, hlookup⟩ := hfound entry hentry
      rw [hlookup] at hok
      obtain ⟨validated, hvalidated, hfields⟩ := resolve_validateItem_eq_ok hok
      obtain ⟨-, hdocumentKey, -⟩ := hinv.origin _ (horigin entry hentry)
      exact .inr ⟨_, hlast, entry.1, item, hreturns, hdocumentKey.symm.trans hentryKey, validated,
        hvalidated, by rw [hfields]⟩

/-- A path that is answered in its turn. -/
theorem Inv.record (hinv : Inv env paths cache ledgers k s) {path : Path ε} {entry : Entry F ε}
    (hpath : paths[k]? = some path) (hanswers : Answers env paths cache ledgers s.jobs k path entry)
    (hcached : ∀ text, path.read env = .ok text → ¬ Uncached env paths cache ledgers k text) :
    Inv env paths cache ledgers (k + 1)
      { s with byIndex := Function.update s.byIndex k (some entry) } where
  sorted := hinv.sorted
  origin := fun document hmem =>
    (hinv.origin document hmem).imp_left fun hlt => Nat.lt_succ_of_lt hlt
  answered := by
    intro i hi path' hpath'
    by_cases hik : i = k
    · subst hik
      obtain rfl := Option.some.inj (hpath'.symm.trans hpath)
      exact .inl ⟨entry, Function.update_self .., hanswers⟩
    · refine (hinv.answered i (by omega) path' hpath').imp_left ?_
      rintro ⟨other, hother, hanswers'⟩
      exact ⟨other, (Function.update_of_ne hik ..).trans hother, hanswers'⟩
  submitted := by
    intro i hi path' text hpath' hread huncached
    by_cases hik : i = k
    · subst hik
      obtain rfl := Option.some.inj (hpath'.symm.trans hpath)
      exact absurd huncached (hcached text hread)
    · exact hinv.submitted i (by omega) path' text hpath' hread huncached
  full := hinv.full
  pending_le := hinv.pending_le
  cached := hinv.cached

/-- A path that is put into the pending partition. -/
theorem Inv.push (hinv : Inv env paths cache ledgers k s) {path : Path ε} {text : String}
    (ledgers' : γ) (hpath : paths[k]? = some path) (hread : path.read env = .ok text)
    (huncached : Uncached env paths cache ledgers k text)
    (hlt : s.pending.length < env.partitionSize) :
    Inv env paths cache ledgers (k + 1) { s with
      ledgers := ledgers'
      pending := s.pending ++ [⟨k, text, env.contentHash text, env.keyOf text⟩] } := by
  have hdocuments : ∀ s' : State S F ε γ, s'.jobs = s.jobs →
      s'.pending = s.pending ++ [⟨k, text, env.contentHash text, env.keyOf text⟩] →
        s'.documents = s.documents ++ [⟨k, text, env.contentHash text, env.keyOf text⟩] := by
    intro s' hjobs hpending
    rw [State.documents, hjobs, hpending, ← List.append_assoc]
    rfl
  have hdocuments := hdocuments { s with
    ledgers := ledgers'
    pending := s.pending ++ [⟨k, text, env.contentHash text, env.keyOf text⟩] } rfl rfl
  refine ⟨?_, ?_, ?_, ?_, hinv.full, ?_, hinv.cached⟩
  · rw [hdocuments, List.map_append, List.pairwise_append]
    refine ⟨hinv.sorted, List.pairwise_singleton .., ?_⟩
    intro i hi j hj
    obtain ⟨document, hmem, rfl⟩ := List.mem_map.mp hi
    obtain rfl := List.mem_singleton.mp hj
    exact (hinv.origin document hmem).1
  · rw [hdocuments]
    intro document hmem
    rcases List.mem_append.mp hmem with hmem | hmem
    · exact (hinv.origin document hmem).imp_left fun hlt => Nat.lt_succ_of_lt hlt
    · obtain rfl := List.mem_singleton.mp hmem
      exact ⟨Nat.lt_succ_self k, rfl, huncached, path, hpath, hread⟩
  · intro i hi path' hpath'
    by_cases hik : i = k
    · exact .inr ⟨_, List.mem_append_right _ (List.mem_singleton_self _), hik.symm⟩
    · refine (hinv.answered i (by omega) path' hpath').imp_right ?_
      rintro ⟨document, hmem, hindex⟩
      exact ⟨document, List.mem_append_left _ hmem, hindex⟩
  · rw [hdocuments]
    intro i hi path' text' hpath' hread' huncached'
    by_cases hik : i = k
    · exact ⟨_, List.mem_append_right _ (List.mem_singleton_self _), hik.symm⟩
    · obtain ⟨document, hmem, hindex⟩ :=
        hinv.submitted i (by omega) path' text' hpath' hread' huncached'
      exact ⟨document, List.mem_append_left _ hmem, hindex⟩
  · rw [List.length_append]
    exact hlt

/-! ### Runs -/

theorem readPath_eq_ok {path : Path ε} {content : Except ε String}
    (h : readPath env ledgers path = .ok content) : path.read env = content := by
  unfold readPath at h
  unfold Path.read
  cases hbudget : env.budget with
  | none =>
    rw [hbudget] at h
    exact Except.ok.inj h
  | some guard =>
    rw [hbudget] at h
    cases hsize : path.size with
    | error error =>
      rw [hsize] at h
      exact Except.ok.inj h
    | ok size =>
      rw [hsize] at h
      dsimp only at h
      split at h
      · cases h
      · exact Except.ok.inj h

/-- One path of a run. -/
theorem inv_scanPath (hinv : Inv env paths cache ledgers k s)
    (hlt : s.pending.length < env.partitionSize)
    (hturn : scanPaths env (paths.take k) cache ledgers = .ok s) {path : Path ε}
    (hpath : paths[k]? = some path) (h : scanPath env s (path, k) = .ok t) :
    Inv env paths cache ledgers (k + 1) t ∧ t.pending.length < env.partitionSize := by
  obtain ⟨content, hcontent, h⟩ := bind_eq_ok.mp h
  have hread := readPath_eq_ok hcontent
  cases content with
  | error error =>
    obtain rfl := Except.ok.inj h
    refine ⟨hinv.record hpath (.unreadable hread) fun text htext => ?_, hlt⟩
    rw [hread] at htext
    cases htext
  | ok text =>
    dsimp only at h
    split at h
    · rename_i fields hcached
      obtain rfl := Except.ok.inj h
      refine ⟨hinv.record hpath (.hit hread hturn hcached) ?_, hlt⟩
      rintro text' htext' ⟨s', hs', hnone⟩
      rw [hread] at htext'
      obtain rfl := Except.ok.inj htext'
      obtain rfl := Except.ok.inj (hturn.symm.trans hs')
      rw [hcached] at hnone
      cases hnone
    · rename_i hcached
      obtain ⟨ledgers', -, h⟩ := bind_eq_ok.mp h
      have hpush := hinv.push ledgers' hpath hread ⟨s, hturn, hcached⟩ hlt
      split at h
      · obtain ⟨hflush, hnil⟩ := inv_flushPartition hpush h
        refine ⟨hflush, ?_⟩
        rw [hnil]
        exact Batch.effectiveBatchSize_pos _ _
      · rename_i hsize
        obtain rfl := Except.ok.inj h
        exact ⟨hpush, Nat.lt_of_not_le hsize⟩

theorem take_zipIdx {α : Type} (xs : List α) (k : ℕ) : xs.zipIdx.take k = (xs.take k).zipIdx := by
  refine List.ext_getElem? fun i => ?_
  rw [List.getElem?_take, List.getElem?_zipIdx, List.getElem?_zipIdx, List.getElem?_take]
  split <;> rfl

theorem inv_scanPaths (h : scanPaths env paths cache ledgers = .ok s) :
    Inv env paths cache ledgers paths.length s := by
  rw [← List.length_zipIdx (l := paths) (i := 0)]
  refine (foldlM_induction h (fun k s => Inv env paths cache ledgers k s ∧
    s.pending.length < env.partitionSize) ⟨inv_initial, Batch.effectiveBatchSize_pos _ _⟩ ?_).1
  rintro k entry u v hentry hturn ⟨hinv, hlt⟩ hstep
  rw [List.getElem?_zipIdx] at hentry
  obtain ⟨path, hpath, rfl⟩ := Option.map_eq_some_iff.mp hentry
  rw [take_zipIdx] at hturn
  rw [Nat.zero_add] at hstep
  exact inv_scanPath hinv hlt hturn hpath hstep

/-- The entries and the final state of a run that returns. -/
theorem extractBatch_eq_ok {entries : List (Entry F ε)}
    (h : extractBatch env paths cache ledgers = .ok (entries, t)) :
    Inv env paths cache ledgers paths.length t ∧ t.pending = [] ∧ entries.length = paths.length ∧
      ∀ i < paths.length, entries[i]? = t.byIndex i := by
  obtain ⟨s, hscan, h⟩ := bind_eq_ok.mp h
  obtain ⟨t', hflush, h⟩ := bind_eq_ok.mp h
  obtain ⟨entries', hentries, h⟩ := bind_eq_ok.mp h
  obtain ⟨rfl, rfl⟩ := Prod.mk.inj (Except.ok.inj h)
  obtain ⟨hinv, hnil⟩ := inv_flushPartition (inv_scanPaths hscan) hflush
  have hall := mapM_eq_ok.mp hentries
  have hlength : entries'.length = paths.length := by rw [← hall.length_eq, List.length_range]
  refine ⟨hinv, hnil, hlength, fun i hi => ?_⟩
  have hget := hall.get (i := i) (by simpa using hi) (hlength.symm ▸ hi)
  simp only [List.get_eq_getElem, List.getElem_range] at hget
  rw [List.getElem?_eq_getElem (hlength.symm ▸ hi)]
  split at hget
  · rename_i entry hentry
    rw [hentry, Except.ok.inj hget]
  · cases hget

/-- No document is in two places of partitions whose documents have distinct indices. -/
theorem place_unique {jobs : List (Job S F)}
    (hnodup : ((jobs.flatMap Job.documents).map Pending.index).Nodup) {a a' b b' : ℕ}
    {job job' : Job S F} {document document' : Pending} (hjob : jobs[a]? = some job)
    (hjob' : jobs[a']? = some job') (hdocument : job.documents[b]? = some document)
    (hdocument' : job'.documents[b']? = some document') (hindex : document.index = document'.index) :
    a = a' ∧ b = b' := by
  rw [List.map_flatMap, List.nodup_flatMap] at hnodup
  obtain ⟨hwithin, hacross⟩ := hnodup
  obtain ⟨ha, rfl⟩ := List.getElem?_eq_some_iff.mp hjob
  obtain ⟨ha', rfl⟩ := List.getElem?_eq_some_iff.mp hjob'
  have hmem := List.mem_map_of_mem (f := Pending.index) (List.mem_of_getElem? hdocument)
  have hmem' := List.mem_map_of_mem (f := Pending.index) (List.mem_of_getElem? hdocument')
  rcases Nat.lt_trichotomy a a' with hlt | rfl | hlt
  · exact absurd (hindex ▸ hmem') (List.pairwise_iff_getElem.mp hacross a a' ha ha' hlt hmem)
  · refine ⟨rfl, ?_⟩
    have hinj := hwithin _ (List.getElem_mem ha)
    have hb : (jobs[a].documents.map Pending.index)[b]? =
        (jobs[a].documents.map Pending.index)[b']? := by
      rw [List.getElem?_map, List.getElem?_map, hdocument, hdocument', Option.map_some,
        Option.map_some, hindex]
    refine (List.getElem?_inj ?_ hinj).mp hb
    rw [List.length_map]
    exact (List.getElem?_eq_some_iff.mp hdocument).1
  · exact absurd (hindex ▸ hmem) (List.pairwise_iff_getElem.mp hacross a' a ha' ha hlt hmem')

theorem partitionSize_le (env : Env S F γ) : env.partitionSize ≤ env.batchSize ∧
    ∀ limit ∈ env.provider.maxBatchRequests, env.partitionSize ≤ limit := by
  have hsize : 1 ≤ (env.batchSize : ℕ) := env.batchSize.pos
  unfold Env.partitionSize Batch.effectiveBatchSize
  cases env.provider.maxBatchRequests with
  | none => simp [hsize]
  | some limit =>
    have hlimit : 1 ≤ (limit : ℕ) := limit.pos
    simp only [Option.map_some, Option.mem_some_iff, forall_eq']
    constructor
    · exact Nat.max_le.mpr ⟨Nat.min_le_left .., hsize⟩
    · exact Nat.max_le.mpr ⟨Nat.min_le_right .., hlimit⟩

/-- What holds when a run has returned. -/
structure Aligned (env : Env S F γ) (paths : List (Path ε)) (cache : String → Option F) (ledgers : γ)
    (entries : List (Entry F ε)) (t : State S F ε γ) : Prop where
  length : entries.length = paths.length
  answers : ∀ i path, paths[i]? = some path →
    ∃ entry, entries[i]? = some entry ∧ Answers env paths cache ledgers t.jobs i path entry
  submitted : ∀ i path text, paths[i]? = some path → path.read env = .ok text →
    Uncached env paths cache ledgers i text → ∃! place : ℕ × ℕ, ∃ job document,
      t.jobs[place.1]? = some job ∧ job.documents[place.2]? = some document ∧ document.index = i
  partitions : ∀ job ∈ t.jobs, job.documents ≠ [] ∧ job.documents.length ≤ env.batchSize ∧
    (∀ limit ∈ env.provider.maxBatchRequests, job.documents.length ≤ limit) ∧
    job.requests = requestsOf env job.documents
  cached : ∀ key fields, t.cache key = some fields → cache key = some fields ∨
    ∃ job ∈ t.jobs, ∃ document item, job.Returns env document item ∧
      env.keyOf document.text = key ∧ ∃ result,
        env.provider.validateOutcome item.outcome = .result result ∧
          fields = env.stored result.output

theorem aligned_of_eq_ok {entries : List (Entry F ε)}
    (h : extractBatch env paths cache ledgers = .ok (entries, t)) :
    Aligned env paths cache ledgers entries t := by
  obtain ⟨hinv, hnil, hlength, hentries⟩ := extractBatch_eq_ok h
  have hdocuments : t.documents = t.jobs.flatMap Job.documents := by simp [State.documents, hnil]
  have hnodup : ((t.jobs.flatMap Job.documents).map Pending.index).Nodup :=
    hdocuments ▸ hinv.sorted.imp Nat.ne_of_lt
  have hlt : ∀ {i : ℕ} {path : Path ε}, paths[i]? = some path → i < paths.length := fun hpath =>
    (List.getElem?_eq_some_iff.mp hpath).1
  refine ⟨hlength, ?_, ?_, ?_, hinv.cached⟩
  · intro i path hpath
    rcases hinv.answered i (hlt hpath) path hpath with ⟨entry, hentry, hanswers⟩ | ⟨_, hmem, -⟩
    · exact ⟨entry, (hentries i (hlt hpath)).trans hentry, hanswers⟩
    · rw [hnil] at hmem
      cases hmem
  · intro i path text hpath hread huncached
    obtain ⟨document, hmem, hindex⟩ :=
      hinv.submitted i (hlt hpath) path text hpath hread huncached
    rw [hdocuments] at hmem
    obtain ⟨job, hjob, hdocument⟩ := List.mem_flatMap.mp hmem
    obtain ⟨a, ha⟩ := List.mem_iff_getElem?.mp hjob
    obtain ⟨b, hb⟩ := List.mem_iff_getElem?.mp hdocument
    refine ⟨(a, b), ⟨job, document, ha, hb, hindex⟩, ?_⟩
    rintro ⟨a', b'⟩ ⟨job', document', ha', hb', hindex'⟩
    obtain ⟨rfl, rfl⟩ := place_unique hnodup ha' ha hb' hb (hindex'.trans hindex.symm)
    rfl
  · intro job hjob
    obtain ⟨hne, hle, hrequests⟩ := hinv.full job hjob
    obtain ⟨hbatch, hlimit⟩ := partitionSize_le env
    exact ⟨hne, hle.trans hbatch, fun limit hmem => hle.trans (hlimit limit hmem), hrequests⟩

/-! ### Runs without a budget -/

theorem exists_flushPartition (hbudget : env.budget = none)
    (hjobs : ∀ n requests, ∃ items resumed,
      env.provider.runJob n requests = .ok (items, resumed) ∧ OneToOne requests items)
    (s : State S F ε γ) : ∃ t, flushPartition env s = .ok t := by
  unfold flushPartition
  split
  · exact ⟨s, rfl⟩
  · obtain ⟨items, resumed, hrun, hone⟩ := hjobs s.jobs.length (requestsOf env s.pending)
    refine exists_bind_eq_ok ⟨(), by rw [checkBudget, hbudget], ?_⟩
    refine exists_bind_eq_ok ⟨(items, items.map env.provider.validateItem, resumed), ?_, _, rfl⟩
    rw [runMessageBatch, hrun]
    simp only [validateBatchResult, if_pos hone]

theorem exists_scanPath (hbudget : env.budget = none)
    (hjobs : ∀ n requests, ∃ items resumed,
      env.provider.runJob n requests = .ok (items, resumed) ∧ OneToOne requests items)
    (s : State S F ε γ) (entry : Path ε × ℕ) : ∃ t, scanPath env s entry = .ok t := by
  refine exists_bind_eq_ok ⟨entry.1.text, by rw [readPath, hbudget], ?_⟩
  split
  · exact ⟨_, rfl⟩
  · split
    · exact ⟨_, rfl⟩
    · refine exists_bind_eq_ok ⟨s.ledgers, by rw [chargeBytes, hbudget], ?_⟩
      dsimp only
      split
      · exact exists_flushPartition hbudget hjobs _
      · exact ⟨_, rfl⟩

/-- A provider that returns the items of a partition in reverse, each with the length of its
text. -/
def reversingProvider : Provider Unit ℕ where
  name := "local"
  implementationIdentity := "local-v1"
  maxBatchRequests := some 2
  runJob _ requests := .ok ((requests.map fun request =>
    ⟨request.requestId, .result ⟨request.request.content.length, ⟨0, 0, 0, 0, none⟩⟩⟩).reverse, false)
  validateResult := .ok
  safeMessage _ _ := ""

theorem three_pos : 0 < 3 := by decide

/-- A run with this provider. -/
def reversingEnv : Env Unit ℕ Unit where
  settings := ⟨"m", "", (), 0, 1⟩
  provider := reversingProvider
  batchSize := ⟨3, three_pos⟩
  cachePath := true
  budget := none
  contentHash := id
  cacheKey := id
  stored := id

end Run

end Stel.NativeBatch
