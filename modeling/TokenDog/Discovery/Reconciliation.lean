import TokenDog.Discovery.Uniqueness
import Mathlib.Data.List.Nodup

/-!
# One reconciliation pass

A pass drops what is tracked and not live, then feeds what is live, healthy and not tracked to the
event handler. Where the listed pods have distinct names the handler evicts nothing, so the order of
the two loops does not matter and a second pass has nothing to do. Where they share names it evicts
live pods.
-/

namespace TokenDog

/-- A listed pod that counts as live, and what is extracted from it. -/
def LiveAs (config : ServiceDiscoveryConfig) (pod : Pod) (info : PodInfo) : Prop :=
  PodInfo.shouldInclude pod config = true ∧ pod.metadata.deletionTimestamp.isSome = false ∧
    PodInfo.fromPod pod (some config) = some info

variable {config : ServiceDiscoveryConfig} {podList : List Pod}

theorem name_of_fromPod {pod : Pod} {config : Option ServiceDiscoveryConfig} {info : PodInfo}
    (h : PodInfo.fromPod pod config = some info) : pod.metadata.name = some info.name := by
  simp only [PodInfo.fromPod, Option.bind_eq_bind, Option.bind_eq_some_iff] at h
  obtain ⟨name, hname, uid, -, status, -, ip, -, h⟩ := h
  obtain rfl := Option.some.inj h
  exact hname

/-- One turn of the loop of `build_live_pod_set`. -/
def insertLive (config : ServiceDiscoveryConfig) (live : PodSet) (pod : Pod) : PodSet :=
  if !PodInfo.shouldInclude pod config then live
  else if pod.metadata.deletionTimestamp.isSome then live
  else match PodInfo.fromPod pod (some config) with
    | some info => live.insert info
    | none => live

theorem buildLivePodSet_eq (podList : List Pod) (config : ServiceDiscoveryConfig) :
    buildLivePodSet podList config = podList.foldl (insertLive config) PodSet.empty := rfl

theorem insertLive_of_liveAs {pod : Pod} {info : PodInfo} (h : LiveAs config pod info)
    (live : PodSet) : insertLive config live pod = live.insert info := by
  obtain ⟨hincluded, hpresent, hinfo⟩ := h
  simp [insertLive, hincluded, hpresent, hinfo]

theorem insertLive_of_not_liveAs {pod : Pod} (h : ∀ info, ¬LiveAs config pod info) (live : PodSet) :
    insertLive config live pod = live := by
  unfold insertLive
  split
  · rfl
  · rename_i hincluded
    split
    · rfl
    · rename_i hpresent
      cases hinfo : PodInfo.fromPod pod (some config) with
      | none => rfl
      | some info => exact absurd ⟨by simpa using hincluded, by simpa using hpresent, hinfo⟩ (h info)

theorem mem_foldl_insertLive {live : PodSet} {info : PodInfo}
    (hinfo : info ∈ podList.foldl (insertLive config) live) :
    info ∈ live ∨ ∃ pod ∈ podList, LiveAs config pod info := by
  induction podList generalizing live with
  | nil => exact Or.inl hinfo
  | cons pod rest ih =>
      rcases ih hinfo with hinfo | ⟨other, hother, hlive⟩
      · by_cases hpod : ∃ new, LiveAs config pod new
        · obtain ⟨new, hnew⟩ := hpod
          rw [insertLive_of_liveAs hnew] at hinfo
          cases hknown : live.contains new with
          | true =>
              rw [PodSet.insert_of_contains hknown] at hinfo
              exact Or.inl hinfo
          | false =>
              rcases (PodSet.mem_insert_of_not_contains hknown).mp hinfo with hinfo | rfl
              · exact Or.inl hinfo
              · exact Or.inr ⟨pod, List.mem_cons_self, hnew⟩
        · rw [insertLive_of_not_liveAs (not_exists.mp hpod)] at hinfo
          exact Or.inl hinfo
      · exact Or.inr ⟨other, List.mem_cons_of_mem _ hother, hlive⟩

theorem contains_foldl_insertLive {live : PodSet} {info : PodInfo} :
    (podList.foldl (insertLive config) live).contains info = true ↔
      live.contains info = true ∨ ∃ pod ∈ podList, ∃ found, LiveAs config pod found ∧
        found.key = info.key := by
  induction podList generalizing live with
  | nil => simp
  | cons pod rest ih =>
      rw [List.foldl_cons, ih]
      simp only [List.exists_mem_cons_iff]
      rw [← or_assoc]
      apply or_congr_left
      by_cases hpod : ∃ new, LiveAs config pod new
      · obtain ⟨new, hnew⟩ := hpod
        rw [insertLive_of_liveAs hnew, PodSet.contains_insert, Bool.or_eq_true, beq_iff_eq]
        apply or_congr_right
        constructor
        · intro hkey
          exact ⟨new, hnew, hkey⟩
        · rintro ⟨found, hfound, hkey⟩
          rw [← hkey, Option.some.inj (hnew.2.2.symm.trans hfound.2.2)]
      · rw [insertLive_of_not_liveAs (not_exists.mp hpod)]
        refine (or_iff_left ?_).symm
        rintro ⟨found, hfound, -⟩
        exact hpod ⟨found, hfound⟩

theorem mem_buildLivePodSet {info : PodInfo} (hinfo : info ∈ buildLivePodSet podList config) :
    ∃ pod ∈ podList, LiveAs config pod info := by
  rcases mem_foldl_insertLive hinfo with hempty | hlive
  · cases hempty
  · exact hlive

theorem contains_buildLivePodSet {info : PodInfo} :
    (buildLivePodSet podList config).contains info = true ↔
      ∃ pod ∈ podList, ∃ found, LiveAs config pod found ∧ found.key = info.key := by
  rw [buildLivePodSet_eq, contains_foldl_insertLive]
  exact or_iff_right Bool.false_ne_true

theorem onePerName_buildLivePodSet (hnames : (podList.filterMap (·.metadata.name)).Nodup) :
    (buildLivePodSet podList config).OnePerName := by
  intro info hinfo other hother hname
  obtain ⟨pod, hpod, -, -, hfrom⟩ := mem_buildLivePodSet hinfo
  obtain ⟨otherPod, hotherPod, -, -, hotherFrom⟩ := mem_buildLivePodSet hother
  have hsame : pod = otherPod := by
    by_contra hne
    rw [List.Nodup, List.pairwise_filterMap] at hnames
    have hsymm : Std.Symm fun pod other : Pod => ∀ name, pod.metadata.name = some name →
        ∀ otherName, other.metadata.name = some otherName → name ≠ otherName :=
      ⟨fun _ _ h name hname other hother heq => h other hother name hname heq.symm⟩
    have hdistinct := hnames.forall hpod hotherPod hne
    exact hdistinct _ (name_of_fromPod hfrom) _ (name_of_fromPod hotherFrom) hname
  subst hsame
  exact Option.some.inj (hfrom.symm.trans hotherFrom)

namespace Discovery

variable {env : DiscoveryEnv} {s : Discovery} {live : PodSet}

/-! ### The two loops -/

/-- One event for each pod. A pod's event may traverse the tracker in an order of its own. -/
def handleEvents (env : DiscoveryEnv) (orders : PodInfo → HashOrder) (pods : List PodInfo)
    (s : Discovery) : Discovery :=
  pods.foldl (fun s pod => handlePodEvent env (orders pod) pod s) s

theorem handleEvents_cons (orders : PodInfo → HashOrder) (pod : PodInfo) (rest : List PodInfo)
    (s : Discovery) :
    handleEvents env orders (pod :: rest) s =
      handleEvents env orders rest (handlePodEvent env (orders pod) pod s) := rfl

theorem handleEvents_append (orders : PodInfo → HashOrder) (before after : List PodInfo)
    (s : Discovery) :
    handleEvents env orders (before ++ after) s =
      handleEvents env orders after (handleEvents env orders before s) :=
  List.foldl_append

def applyDiff (env : DiscoveryEnv) (order : HashOrder) (diff : List PodInfo × List PodInfo)
    (s : Discovery) : Discovery :=
  handleEvents env (fun _ => order) diff.2 (diff.1.foldl (removeStale env) s)

/-- The early return on an empty diff leaves nothing out. -/
theorem reconcileWith_eq (env : DiscoveryEnv) (order : HashOrder) (live : PodSet) (s : Discovery) :
    reconcileWith env order live s =
      applyDiff env order (computeReconciliationDiff order s.tracked live) s := by
  unfold reconcileWith applyDiff handleEvents
  obtain ⟨stale, missing⟩ := computeReconciliationDiff order s.tracked live
  dsimp only
  split
  · rename_i hempty
    rw [Bool.and_eq_true, List.isEmpty_iff, List.isEmpty_iff] at hempty
    obtain ⟨rfl, rfl⟩ := hempty
    rfl
  · rfl

/-- What an event of a healthy pod does that is not tracked. -/
theorem handlePodEvent_cases {order : HashOrder} {pod : PodInfo} (hhealthy : pod.isHealthy = true)
    (hnew : s.tracked.contains pod = false) :
    (restarted order s.tracked pod = none ∧
      (∀ entry, entry ∈ (handlePodEvent env order pod s).tracked ↔
        entry ∈ s.tracked ∨ entry = pod) ∧
      (handlePodEvent env order pod s).urls = insert (env.view pod) s.urls) ∨
    ∃ old, restarted order s.tracked pod = some old ∧
      (∀ entry, entry ∈ (handlePodEvent env order pod s).tracked ↔
        entry ∈ s.tracked ∧ entry.key ≠ old.key ∨ entry = pod) ∧
      (handlePodEvent env order pod s).urls =
        insert (env.view pod) (s.urls \ {(env.selectPool pod, env.workerUrl old)}) := by
  cases hold : restarted order s.tracked pod with
  | none =>
      left
      rw [handlePodEvent_of_new hhealthy hnew hold]
      refine ⟨rfl, fun entry => PodSet.mem_insert_of_not_contains hnew, ?_⟩
      rw [urls_addUrl, urls_with_tracked]
      rfl
  | some old =>
      right
      have hremoved : (s.tracked.remove old).contains pod = false := by
        rw [PodSet.contains_remove, hnew]
        rfl
      rw [handlePodEvent_of_restart hhealthy hnew hold]
      refine ⟨old, rfl, fun entry => ?_, ?_⟩
      · rw [tracked_addUrl, tracked_removeUrl, PodSet.mem_insert_of_not_contains hremoved,
          PodSet.mem_remove]
      · rw [urls_addUrl, urls_removeUrl, urls_with_tracked]
        rfl

theorem handlePodEvent_of_fresh {order : HashOrder} {pod : PodInfo}
    (hhealthy : pod.isHealthy = true) (hname : ∀ entry ∈ s.tracked, entry.name ≠ pod.name) :
    (∀ entry, entry ∈ (handlePodEvent env order pod s).tracked ↔ entry ∈ s.tracked ∨ entry = pod) ∧
      (handlePodEvent env order pod s).urls = insert (env.view pod) s.urls := by
  have hnew : s.tracked.contains pod = false := by
    rw [PodSet.contains_eq_false_iff]
    intro entry hentry hkey
    exact hname entry hentry (congrArg Prod.fst hkey)
  rcases @handlePodEvent_cases env s order pod hhealthy hnew with ⟨-, h⟩ | ⟨old, hold, -⟩
  · exact h
  · obtain ⟨hmem, holdName, -⟩ := restarted_spec hold
    exact absurd holdName (hname old hmem)

theorem handleEvents_of_fresh (orders : PodInfo → HashOrder) {pods : List PodInfo}
    (hhealthy : ∀ pod ∈ pods, pod.isHealthy = true) (hnames : (pods.map PodInfo.name).Nodup)
    (hfresh : ∀ pod ∈ pods, ∀ entry ∈ s.tracked, entry.name ≠ pod.name) :
    (∀ entry, entry ∈ (handleEvents env orders pods s).tracked ↔
      entry ∈ s.tracked ∨ entry ∈ pods) ∧
    (handleEvents env orders pods s).urls = s.urls ∪ env.view '' {pod | pod ∈ pods} := by
  induction pods generalizing s with
  | nil => simp [handleEvents]
  | cons pod rest ih =>
      obtain ⟨hpodName, hrestNames⟩ := List.nodup_cons.mp hnames
      have hpodFresh := hfresh pod List.mem_cons_self
      obtain ⟨htracked, hurls⟩ := @handlePodEvent_of_fresh env s (orders pod) pod
        (hhealthy pod List.mem_cons_self) hpodFresh
      have hrestFresh : ∀ next ∈ rest, ∀ entry ∈ (handlePodEvent env (orders pod) pod s).tracked,
          entry.name ≠ next.name := by
        intro next hnext entry hentry
        rcases (htracked entry).mp hentry with hentry | rfl
        · exact hfresh next (List.mem_cons_of_mem _ hnext) entry hentry
        · intro hname
          exact hpodName (List.mem_map.mpr ⟨next, hnext, hname.symm⟩)
      obtain ⟨hrestTracked, hrestUrls⟩ := ih
        (fun next hnext => hhealthy next (List.mem_cons_of_mem _ hnext)) hrestNames hrestFresh
      rw [handleEvents_cons]
      constructor
      · intro entry
        rw [hrestTracked, htracked, List.mem_cons, or_assoc]
      · rw [hrestUrls, hurls]
        have hset : {next | next ∈ pod :: rest} = insert pod {next | next ∈ rest} := by
          ext next
          exact List.mem_cons
        rw [hset, Set.image_insert_eq, Set.insert_union, Set.union_insert]

def stalePods (s : Discovery) (live : PodSet) : Set PodInfo :=
  {pod | pod ∈ s.tracked ∧ live.contains pod = false}

def missingPods (s : Discovery) (live : PodSet) : Set PodInfo :=
  {pod | pod ∈ live ∧ s.tracked.contains pod = false ∧ pod.isHealthy = true}

theorem nodup_names_missing (hlive : live.OnePerName) (order : HashOrder) (tracked : PodSet) :
    ((computeReconciliationDiff order tracked live).2.map PodInfo.name).Nodup := by
  apply List.Nodup.map_on
  · intro pod hpod other hother hname
    exact hlive pod (mem_missing.mp hpod).1 other (mem_missing.mp hother).1 hname
  · apply (order.perm _).nodup_iff.mpr
    apply List.Nodup.filter
    apply List.Nodup.filter
    exact live.nodup.of_map

theorem applyDiff_of_onePerName (hlive : live.OnePerName) (env : DiscoveryEnv) (order : HashOrder)
    (s : Discovery) :
    (∀ entry, entry ∈ (applyDiff env order (computeReconciliationDiff order s.tracked live)
        s).tracked ↔
      entry ∈ s.tracked ∧ live.contains entry = true ∨ entry ∈ missingPods s live) ∧
    (applyDiff env order (computeReconciliationDiff order s.tracked live) s).urls =
      (s.urls \ env.view '' stalePods s live) ∪ env.view '' missingPods s live := by
  obtain ⟨hkept, hkeptUrls⟩ := foldl_stale env order live s
  have hfresh : ∀ pod ∈ (computeReconciliationDiff order s.tracked live).2,
      ∀ entry ∈ ((computeReconciliationDiff order s.tracked live).1.foldl (removeStale env)
        s).tracked, entry.name ≠ pod.name := by
    -- what is left of the tracker is live, and a live pod of that name is the missing one itself
    intro pod hpod entry hentry hname
    obtain ⟨hpodLive, habsent, -⟩ := mem_missing.mp hpod
    obtain ⟨hentry, hentryLive⟩ := (hkept entry).mp hentry
    obtain ⟨found, hfound, hkey⟩ := PodSet.contains_iff.mp hentryLive
    have hsame : found = pod :=
      hlive found hfound pod hpodLive ((congrArg Prod.fst hkey).trans hname)
    rw [hsame] at hkey
    exact PodSet.contains_eq_false_iff.mp habsent entry hentry hkey.symm
  obtain ⟨htracked, hurls⟩ := @handleEvents_of_fresh env _ (fun _ => order) _
    (fun pod hpod => (mem_missing.mp hpod).2.2) (nodup_names_missing hlive order s.tracked) hfresh
  constructor
  · intro entry
    rw [applyDiff, htracked, hkept]
    exact or_congr_right mem_missing
  · rw [applyDiff, hurls, hkeptUrls]
    have hset : {pod | pod ∈ (computeReconciliationDiff order s.tracked live).2} =
        missingPods s live := by
      ext pod
      exact mem_missing
    rw [hset]
    rfl

theorem computeReconciliationDiff_eq_nil_iff {order : HashOrder} {tracked : PodSet} :
    computeReconciliationDiff order tracked live = ([], []) ↔
      (∀ entry ∈ tracked, live.contains entry = true) ∧
        ∀ pod ∈ live, pod.isHealthy = true → tracked.contains pod = true := by
  rw [Prod.ext_iff, List.eq_nil_iff_forall_not_mem, List.eq_nil_iff_forall_not_mem]
  apply and_congr
  · simp [mem_stale]
  · constructor
    · intro h pod hpod hhealthy
      by_contra habsent
      exact h pod (mem_missing.mpr ⟨hpod, Bool.eq_false_iff.mpr habsent, hhealthy⟩)
    · intro h pod hpod
      obtain ⟨hlive, habsent, hhealthy⟩ := mem_missing.mp hpod
      rw [h pod hlive hhealthy] at habsent
      exact Bool.noConfusion habsent

theorem reconcileWith_of_diff_nil {order : HashOrder}
    (h : computeReconciliationDiff order s.tracked live = ([], [])) :
    reconcileWith env order live s = s := by
  rw [reconcileWith_eq, h]
  rfl

theorem contains_reconcileWith_iff (hlive : live.OnePerName) (env : DiscoveryEnv)
    (order : HashOrder) (s : Discovery) (pod : PodInfo) :
    (reconcileWith env order live s).tracked.contains pod = true ↔
      (s.tracked.contains pod = true ∧ live.contains pod = true) ∨
        ∃ info ∈ live, info.isHealthy = true ∧ info.key = pod.key := by
  have htracked := (applyDiff_of_onePerName hlive env order s).1
  rw [← reconcileWith_eq] at htracked
  constructor
  · intro h
    obtain ⟨entry, hentry, hkey⟩ := PodSet.contains_iff.mp h
    rcases (htracked entry).mp hentry with ⟨hentry, hentryLive⟩ | ⟨hentry, -, hhealthy⟩
    · left
      refine ⟨PodSet.contains_iff.mpr ⟨entry, hentry, hkey⟩, ?_⟩
      rwa [← PodSet.contains_congr hkey]
    · right
      exact ⟨entry, hentry, hhealthy, hkey⟩
  · rintro (⟨hold, hpodLive⟩ | ⟨info, hinfo, hhealthy, hkey⟩)
    · obtain ⟨entry, hentry, hkey⟩ := PodSet.contains_iff.mp hold
      rw [← PodSet.contains_congr hkey] at hpodLive
      exact PodSet.contains_iff.mpr ⟨entry, (htracked entry).mpr (.inl ⟨hentry, hpodLive⟩), hkey⟩
    · cases hold : s.tracked.contains info with
      | false =>
          have hmissing : info ∈ missingPods s live := ⟨hinfo, hold, hhealthy⟩
          exact PodSet.contains_iff.mpr ⟨info, (htracked info).mpr (.inr hmissing), hkey⟩
      | true =>
          obtain ⟨entry, hentry, hentryKey⟩ := PodSet.contains_iff.mp hold
          have hentryLive : live.contains entry = true :=
            PodSet.contains_iff.mpr ⟨info, hinfo, hentryKey.symm⟩
          exact PodSet.contains_iff.mpr
            ⟨entry, (htracked entry).mpr (.inl ⟨hentry, hentryLive⟩), hentryKey.trans hkey⟩

/-- On a list of distinct names a pass reaches, whatever the order of its loops, the state in which
the tracked pods are the live ones that were tracked or are healthy, and a second pass stays there. -/
theorem reconcilePods_fixedPoint (hnames : (podList.filterMap (·.metadata.name)).Nodup)
    (env : DiscoveryEnv) (order : HashOrder) (s : Discovery) :
    (∀ pod, (reconcilePods env order (some podList) s).tracked.contains pod = true ↔
      (s.tracked.contains pod = true ∧
          (buildLivePodSet podList env.config).contains pod = true) ∨
        ∃ info ∈ buildLivePodSet podList env.config, info.isHealthy = true ∧
          info.key = pod.key) ∧
    (reconcilePods env order (some podList) s).urls =
      (s.urls \ env.view '' stalePods s (buildLivePodSet podList env.config)) ∪
        env.view '' missingPods s (buildLivePodSet podList env.config) ∧
    ∀ again : HashOrder,
      computeReconciliationDiff again (reconcilePods env order (some podList) s).tracked
        (buildLivePodSet podList env.config) = ([], []) ∧
      reconcilePods env again (some podList) (reconcilePods env order (some podList) s) =
        reconcilePods env order (some podList) s := by
  have hlive : (buildLivePodSet podList env.config).OnePerName := onePerName_buildLivePodSet hnames
  simp only [reconcilePods]
  generalize buildLivePodSet podList env.config = live at hlive
  obtain ⟨htracked, hurls⟩ := applyDiff_of_onePerName hlive env order s
  rw [← reconcileWith_eq] at htracked hurls
  have hcontains := contains_reconcileWith_iff hlive env order s
  refine ⟨hcontains, hurls, fun again => ?_⟩
  have hnil : computeReconciliationDiff again (reconcileWith env order live s).tracked live =
      ([], []) := by
    rw [computeReconciliationDiff_eq_nil_iff]
    constructor
    · intro entry hentry
      rcases (htracked entry).mp hentry with ⟨-, hentryLive⟩ | ⟨hentryLive, -, -⟩
      · exact hentryLive
      · exact PodSet.contains_iff.mpr ⟨entry, hentryLive, rfl⟩
    · intro pod hpod hhealthy
      exact (hcontains pod).mpr (.inr ⟨pod, hpod, hhealthy, rfl⟩)
  exact ⟨hnil, reconcileWith_of_diff_nil hnil⟩

def listedPod (name uid ip : String) : Pod where
  metadata := ⟨some name, some uid, some [("app", "sglang")], none⟩
  status := some ⟨some ip, some "Running", some [⟨"Ready", "True"⟩]⟩

theorem liveAs_listedPod (name uid ip : String) :
    LiveAs regularEnv.config (listedPod name uid ip) (runningPod name uid ip) := ⟨rfl, rfl, rfl⟩

/-- The state after worker-0 was seen once; it restarts and the watcher misses it. -/
def beforeRestart : Discovery :=
  handlePodEvent regularEnv insertionOrder (runningPod "worker-0" "uid-0" "10.0.0.1") empty

theorem reconcilePods_fixedPoint_restart :
    reconcilePods regularEnv insertionOrder (some [listedPod "worker-0" "uid-1" "10.0.0.2"])
        (reconcilePods regularEnv insertionOrder
          (some [listedPod "worker-0" "uid-1" "10.0.0.2"]) beforeRestart) =
      reconcilePods regularEnv insertionOrder (some [listedPod "worker-0" "uid-1" "10.0.0.2"])
        beforeRestart := by
  have hnames : ([listedPod "worker-0" "uid-1" "10.0.0.2"].filterMap (·.metadata.name)).Nodup :=
    List.nodup_singleton "worker-0"
  exact ((reconcilePods_fixedPoint hnames regularEnv insertionOrder beforeRestart).2.2
    insertionOrder).2

/-! ### Shared names -/

theorem tracked_handlePodEvent (order : HashOrder) (pod : PodInfo) (s : Discovery) :
    (handlePodEvent env order pod s).tracked =
      if pod.isHealthy then (trackEvent order s.tracked pod).1 else s.tracked := by
  unfold handlePodEvent
  split
  · obtain ⟨tracked, shouldAdd, old⟩ := trackEvent order s.tracked pod
    cases old <;> cases shouldAdd <;> rfl
  · rfl

theorem onePerName_handlePodEvent (hs : s.tracked.OnePerName) (order : HashOrder) (pod : PodInfo) :
    (handlePodEvent env order pod s).tracked.OnePerName := by
  rw [tracked_handlePodEvent]
  split
  · exact onePerName_trackEvent hs order pod
  · exact hs

theorem onePerName_handleEvents (hs : s.tracked.OnePerName) (orders : PodInfo → HashOrder)
    (pods : List PodInfo) :
    (handleEvents env orders pods s).tracked.OnePerName := by
  induction pods generalizing s with
  | nil => exact hs
  | cons pod rest ih => exact ih (onePerName_handlePodEvent hs (orders pod) pod)

/-- The list has exactly these pods, and all of them count as live. -/
structure Lists (config : ServiceDiscoveryConfig) (podList : List Pod) (pods : List PodInfo) : Prop
    where
  complete : ∀ info ∈ pods, ∃ pod ∈ podList, LiveAs config pod info
  sound : ∀ pod ∈ podList, ∃ info ∈ pods, LiveAs config pod info

/-- Every pod is tracked, those with distinct IPs are in their pools, and a pass over exactly these
pods changes nothing. -/
structure Survive (env : DiscoveryEnv) (podList : List Pod) (pods : List PodInfo) (s : Discovery) :
    Prop where
  tracked : ∀ pod ∈ pods, s.tracked.contains pod = true
  pooled : (pods.map PodInfo.ip).Nodup → ∀ pod ∈ pods, env.view pod ∈ s.urls
  settled : ∀ order, reconcilePods env order (some podList) s = s

theorem nodup_names_of_contains {tracked : PodSet} (hone : tracked.OnePerName)
    {pods : List PodInfo} (huids : (pods.map PodInfo.uid).Nodup)
    (hall : ∀ pod ∈ pods, tracked.contains pod = true) : (pods.map PodInfo.name).Nodup := by
  apply List.Nodup.map_on _ huids.of_map
  intro pod hpod other hother hname
  obtain ⟨entry, hentry, hkey⟩ := PodSet.contains_iff.mp (hall pod hpod)
  obtain ⟨otherEntry, hotherEntry, hotherKey⟩ := PodSet.contains_iff.mp (hall other hother)
  have hentryName : entry.name = otherEntry.name := by
    calc
      entry.name = pod.name := congrArg Prod.fst hkey
      _ = other.name := hname
      _ = otherEntry.name := (congrArg Prod.fst hotherKey).symm
  have hsame : entry = otherEntry := hone entry hentry otherEntry hotherEntry hentryName
  apply List.inj_on_of_nodup_map huids hpod hother
  calc
    pod.uid = entry.uid := (congrArg Prod.snd hkey).symm
    _ = otherEntry.uid := congrArg PodInfo.uid hsame
    _ = other.uid := congrArg Prod.snd hotherKey

/-- A tracker that holds exactly the listed pods has nothing to reconcile. -/
theorem reconcilePods_of_lists {podList : List Pod} {pods : List PodInfo}
    (hlists : Lists env.config podList pods)
    (htracked : ∀ entry, entry ∈ s.tracked ↔ entry ∈ pods) (order : HashOrder) :
    reconcilePods env order (some podList) s = s := by
  apply reconcileWith_of_diff_nil
  rw [computeReconciliationDiff_eq_nil_iff]
  constructor
  · intro entry hentry
    obtain ⟨pod, hpod, hlive⟩ := hlists.complete entry ((htracked entry).mp hentry)
    exact contains_buildLivePodSet.mpr ⟨pod, hpod, entry, hlive, rfl⟩
  · intro info hinfo _
    obtain ⟨pod, hpod, hlive⟩ := mem_buildLivePodSet hinfo
    obtain ⟨other, hother, hotherLive⟩ := hlists.sound pod hpod
    rw [Option.some.inj (hlive.2.2.symm.trans hotherLive.2.2)]
    exact PodSet.contains_iff.mpr ⟨other, (htracked other).mpr hother, rfl⟩

/-- Of live pods with distinct uids, each seen once by the event handler, all survive exactly if
their names are distinct. -/
theorem survive_iff_names_nodup {podList : List Pod} {pods events : List PodInfo}
    (hlists : Lists env.config podList pods)
    (hhealthy : ∀ pod ∈ pods, pod.isHealthy = true) (huids : (pods.map PodInfo.uid).Nodup)
    (hevents : events.Perm pods) (hs : s.tracked = PodSet.empty) (orders : PodInfo → HashOrder) :
    Survive env podList pods (handleEvents env orders events s) ↔
      (pods.map PodInfo.name).Nodup := by
  constructor
  · intro hsurvive
    have hone : s.tracked.OnePerName := by
      rw [hs]
      exact PodSet.onePerName_empty
    exact nodup_names_of_contains (onePerName_handleEvents hone orders events) huids
      hsurvive.tracked
  · intro hnames
    have hempty : ∀ entry, entry ∉ s.tracked := by
      intro entry hentry
      rw [hs] at hentry
      cases hentry
    obtain ⟨htracked, hurls⟩ := @handleEvents_of_fresh env s orders events
      (fun pod hpod => hhealthy pod (hevents.mem_iff.mp hpod))
      ((hevents.map PodInfo.name).nodup_iff.mpr hnames)
      fun _ _ entry hentry => absurd hentry (hempty entry)
    have hexact : ∀ entry, entry ∈ (handleEvents env orders events s).tracked ↔ entry ∈ pods := by
      intro entry
      rw [htracked, hevents.mem_iff, or_iff_right (hempty entry)]
    refine ⟨?_, ?_, ?_⟩
    · intro pod hpod
      exact PodSet.contains_iff.mpr ⟨pod, (hexact pod).mpr hpod, rfl⟩
    · intro _ pod hpod
      rw [hurls]
      exact Or.inr ⟨pod, hevents.mem_iff.mpr hpod, rfl⟩
    · exact reconcilePods_of_lists hlists hexact

/-- Two pods with names of their own. -/
theorem survive_of_two_names :
    Survive regularEnv
      [listedPod "worker-0" "uid-0" "10.0.0.1", listedPod "worker-1" "uid-1" "10.0.0.2"]
      [runningPod "worker-0" "uid-0" "10.0.0.1", runningPod "worker-1" "uid-1" "10.0.0.2"]
      (handleEvents regularEnv (fun _ => insertionOrder)
        [runningPod "worker-1" "uid-1" "10.0.0.2", runningPod "worker-0" "uid-0" "10.0.0.1"]
        empty) := by
  refine (survive_iff_names_nodup ⟨?_, ?_⟩ ?_ (by simp [runningPod]) (List.Perm.swap _ _ _) rfl
    fun _ => insertionOrder).mpr (by simp [runningPod])
  · simp [liveAs_listedPod]
  · simp [liveAs_listedPod]
  · simp [runningPod, PodInfo.isHealthy]

/-- Two pods of one name, as in two namespaces: the second evicts the first. -/
theorem not_survive_of_shared_name :
    ¬∀ (env : DiscoveryEnv) (podList : List Pod) (pods events : List PodInfo),
      Lists env.config podList pods → (∀ pod ∈ pods, pod.isHealthy = true) →
      (pods.map PodInfo.uid).Nodup → events.Perm pods →
      Survive env podList pods (handleEvents env (fun _ => insertionOrder) events empty) := by
  intro h
  have hsurvive := h regularEnv
    [listedPod "worker-0" "uid-0" "10.0.0.1", listedPod "worker-0" "uid-1" "10.0.0.2"]
    [runningPod "worker-0" "uid-0" "10.0.0.1", runningPod "worker-0" "uid-1" "10.0.0.2"]
    [runningPod "worker-0" "uid-0" "10.0.0.1", runningPod "worker-0" "uid-1" "10.0.0.2"]
    ⟨by simp [liveAs_listedPod], by simp [liveAs_listedPod]⟩ (by simp [runningPod, PodInfo.isHealthy])
    (by simp [runningPod]) (List.Perm.refl _)
  have hfirst := hsurvive.tracked (runningPod "worker-0" "uid-0" "10.0.0.1") List.mem_cons_self
  cases hfirst

end Discovery

end TokenDog
