import TokenDog.Discovery.Handlers
import TokenDog.Lib.Runs
import TokenDog.Lib.SetUpdate

/-!
# Tracker and pools after sequential histories

The pools should hold the URLs of the tracked pods. A pod's view is the pool it is assigned to and
its URL; the views of different pods may coincide, and a handler that removes one pod's URL removes
it for all. Each call keeps the agreement exactly under a condition on the pods whose views meet.
-/

namespace TokenDog

namespace DiscoveryEnv

/-- The pool a pod is assigned to and its URL there. -/
def view (env : DiscoveryEnv) (pod : PodInfo) : Pool × String :=
  (env.selectPool pod, env.workerUrl pod)

def views (env : DiscoveryEnv) (tracked : PodSet) : Set (Pool × String) :=
  env.view '' {pod | pod ∈ tracked}

end DiscoveryEnv

namespace Discovery

/-- Every pool holds the URLs of the tracked pods assigned to it, and no other URL. -/
def Agreement (env : DiscoveryEnv) (s : Discovery) : Prop := s.urls = env.views s.tracked

/-- One completed call of the watcher or of the reconciliation task. -/
inductive Call where
  | event (order : HashOrder) (pod : PodInfo)
  | deletion (pod : PodInfo)
  | reconcile (order : HashOrder) (listed : Option (List Pod))

def perform (env : DiscoveryEnv) : Call → Discovery → Discovery
  | .event order pod => handlePodEvent env order pod
  | .deletion pod => handlePodDeletion env pod
  | .reconcile order listed => reconcilePods env order listed

/-- An event of an untracked pod that replaces a tracked one. The replaced pod must have been in the
pool of the new one, or another tracked pod must still have its URL in its pool; and no other
tracked pod of the new pod's pool may have the old URL, unless it is the new URL as well. -/
def EventKeeps (env : DiscoveryEnv) (order : HashOrder) (s : Discovery) (pod : PodInfo) : Prop :=
  pod.isHealthy = true → s.tracked.contains pod = false →
    ∀ old, restarted order s.tracked pod = some old →
      (env.selectPool old = env.selectPool pod ∨
        env.view old ∈ env.views (s.tracked.remove old)) ∧
      (env.workerUrl old = env.workerUrl pod ∨
        (env.selectPool pod, env.workerUrl old) ∉ env.views (s.tracked.remove old))

/-- A deletion of a tracked pod. No other tracked pod may have the URL of the event in the pool of
the event, and the entry must have been there too, unless another tracked pod has its pool and
URL. -/
def DeletionKeeps (env : DiscoveryEnv) (s : Discovery) (pod : PodInfo) : Prop :=
  ∀ entry ∈ s.tracked, entry.key = pod.key →
    env.view pod ∉ env.views (s.tracked.remove entry) ∧
      (env.view entry = env.view pod ∨ env.view entry ∈ env.views (s.tracked.remove entry))

/-- The events of a list, one after the other, each in the state the earlier ones left. -/
def EventsKeep (env : DiscoveryEnv) (order : HashOrder) : Discovery → List PodInfo → Prop
  | _, [] => True
  | s, pod :: rest =>
      EventKeeps env order s pod ∧ EventsKeep env order (handlePodEvent env order pod s) rest

/-- A reconciliation. No stale pod may share pool and URL with a tracked pod that stays, and the
missing pods are events in the state without the stale ones. -/
def ReconcileKeeps (env : DiscoveryEnv) (order : HashOrder) (s : Discovery) (live : PodSet) : Prop :=
  (∀ stale ∈ s.tracked, live.contains stale = false → ∀ kept ∈ s.tracked,
      live.contains kept = true → env.view kept ≠ env.view stale) ∧
    EventsKeep env order
      ((computeReconciliationDiff order s.tracked live).1.foldl (removeStale env) s)
      (computeReconciliationDiff order s.tracked live).2

def Keeps (env : DiscoveryEnv) (s : Discovery) : Call → Prop
  | .event order pod => EventKeeps env order s pod
  | .deletion pod => DeletionKeeps env s pod
  | .reconcile order listed =>
      ∀ podList ∈ listed, ReconcileKeeps env order s (buildLivePodSet podList env.config)

variable {env : DiscoveryEnv} {s : Discovery}

theorem views_insert {tracked : PodSet} {pod : PodInfo} (hnew : tracked.contains pod = false) :
    env.views (tracked.insert pod) = insert (env.view pod) (env.views tracked) := by
  have hset : {entry | entry ∈ tracked.insert pod} = insert pod {entry | entry ∈ tracked} := by
    ext entry
    exact (PodSet.mem_insert_of_not_contains hnew).trans or_comm
  rw [DiscoveryEnv.views, hset, Set.image_insert_eq]
  rfl

theorem views_eq_insert_remove {tracked : PodSet} {pod : PodInfo} (hpod : pod ∈ tracked) :
    env.views tracked = insert (env.view pod) (env.views (tracked.remove pod)) := by
  have hset : {entry | entry ∈ tracked} = insert pod {entry | entry ∈ tracked.remove pod} := by
    ext entry
    simp only [Set.mem_ofPred_eq, Set.mem_insert_iff, PodSet.mem_remove]
    constructor
    · intro hentry
      by_cases hkey : entry.key = pod.key
      · exact Or.inl (PodSet.eq_of_key_eq hentry hpod hkey)
      · exact Or.inr ⟨hentry, hkey⟩
    · rintro (rfl | ⟨hentry, -⟩)
      · exact hpod
      · exact hentry
  rw [DiscoveryEnv.views, hset, Set.image_insert_eq]
  rfl

theorem restarted_mem {order : HashOrder} {tracked : PodSet} {pod old : PodInfo}
    (h : restarted order tracked pod = some old) : old ∈ tracked :=
  (order.perm _).mem_iff.mp (List.mem_of_find?_eq_some h)

theorem handlePodEvent_of_ignored {order : HashOrder} {pod : PodInfo}
    (h : pod.isHealthy = false ∨ s.tracked.contains pod = true) :
    handlePodEvent env order pod s = s := by
  unfold handlePodEvent trackEvent
  rcases h with h | h <;> simp [h]

theorem handlePodEvent_of_new {order : HashOrder} {pod : PodInfo} (hhealthy : pod.isHealthy = true)
    (hnew : s.tracked.contains pod = false) (hold : restarted order s.tracked pod = none) :
    handlePodEvent env order pod s =
      Discovery.addUrl { s with tracked := s.tracked.insert pod } (env.selectPool pod)
        (env.workerUrl pod) := by
  simp [handlePodEvent, trackEvent, hhealthy, hnew, hold]

theorem handlePodEvent_of_restart {order : HashOrder} {pod old : PodInfo}
    (hhealthy : pod.isHealthy = true) (hnew : s.tracked.contains pod = false)
    (hold : restarted order s.tracked pod = some old) :
    handlePodEvent env order pod s =
      (Discovery.removeUrl { s with tracked := (s.tracked.remove old).insert pod }
        (env.selectPool pod) (env.workerUrl old)).addUrl (env.selectPool pod)
          (env.workerUrl pod) := by
  simp [handlePodEvent, trackEvent, hhealthy, hnew, hold]

theorem agreement_handlePodEvent_iff (hs : Agreement env s) (order : HashOrder) (pod : PodInfo) :
    Agreement env (handlePodEvent env order pod s) ↔ EventKeeps env order s pod := by
  by_cases hignored : pod.isHealthy = false ∨ s.tracked.contains pod = true
  · rw [handlePodEvent_of_ignored hignored]
    refine ⟨fun _ hhealthy hnew => ?_, fun _ => hs⟩
    simp [hhealthy, hnew] at hignored
  · rw [not_or, Bool.not_eq_false, Bool.not_eq_true] at hignored
    obtain ⟨hhealthy, hnew⟩ := hignored
    simp only [EventKeeps, hhealthy, hnew, true_imp_iff]
    cases hold : restarted order s.tracked pod with
    | none =>
        rw [handlePodEvent_of_new hhealthy hnew hold]
        refine ⟨fun _ old hsome => (Option.some_ne_none old hsome.symm).elim, fun _ => ?_⟩
        rw [Agreement, urls_addUrl, urls_with_tracked, hs, tracked_addUrl, views_insert hnew]
        rfl
    | some old =>
        rw [handlePodEvent_of_restart hhealthy hnew hold]
        have hmem := restarted_mem hold
        have hremoved : (s.tracked.remove old).contains pod = false :=
          PodSet.contains_eq_false_iff.mpr fun entry hentry =>
            PodSet.contains_eq_false_iff.mp hnew entry (PodSet.mem_remove.mp hentry).1
        have hurls : s.urls = insert (env.view old) (env.views (s.tracked.remove old)) :=
          hs.trans (views_eq_insert_remove hmem)
        have hview : env.view old = env.view pod →
            env.view old = (env.selectPool pod, env.workerUrl old) := fun h =>
          Prod.ext (show env.selectPool old = env.selectPool pod from congrArg Prod.fst h) rfl
        rw [Agreement, urls_addUrl, urls_removeUrl, urls_with_tracked, hurls, tracked_addUrl,
          tracked_removeUrl, views_insert hremoved]
        refine (SetUpdate.insert_insert_sdiff_eq_iff hview).trans ?_
        simp [DiscoveryEnv.view]

theorem agreement_handlePodDeletion_iff (hs : Agreement env s) (pod : PodInfo) :
    Agreement env (handlePodDeletion env pod s) ↔ DeletionKeeps env s pod := by
  cases hcontains : s.tracked.contains pod with
  | false =>
      have hother := PodSet.contains_eq_false_iff.mp hcontains
      have hsame : env.views (s.tracked.remove pod) = env.views s.tracked := by
        refine congrArg (env.view '' ·) (Set.ext fun entry => ?_)
        exact PodSet.mem_remove.trans (and_iff_left_of_imp (hother entry))
      simp only [handlePodDeletion, hcontains, Bool.false_eq_true, if_false]
      refine ⟨fun _ entry hentry hkey => absurd hkey (hother entry hentry), fun _ => ?_⟩
      rw [Agreement, urls_untrack, tracked_untrack, hsame]
      exact hs
  | true =>
      obtain ⟨entry, hentry, hkey⟩ := PodSet.contains_iff.mp hcontains
      have hurls : s.urls = insert (env.view entry) (env.views (s.tracked.remove entry)) :=
        hs.trans (views_eq_insert_remove hentry)
      simp only [handlePodDeletion, hcontains, if_true]
      rw [Agreement, urls_removeUrl, urls_untrack, tracked_removeUrl, tracked_untrack,
        PodSet.remove_congr hkey.symm, hurls]
      refine SetUpdate.insert_sdiff_eq_iff.trans ⟨fun h other hother hotherKey => ?_, fun h => ?_⟩
      · rw [PodSet.eq_of_key_eq hother hentry (hotherKey.trans hkey.symm)]
        exact h
      · exact h entry hentry hkey

theorem agreement_foldl_events {order : HashOrder} {missing : List PodInfo} (hs : Agreement env s)
    (hkeeps : EventsKeep env order s missing) :
    Agreement env (missing.foldl (fun s pod => handlePodEvent env order pod s) s) := by
  induction missing generalizing s with
  | nil => exact hs
  | cons pod rest ih =>
      exact ih ((agreement_handlePodEvent_iff hs order pod).mpr hkeeps.1) hkeeps.2

theorem foldl_removeStale (env : DiscoveryEnv) (stale : List PodInfo) (s : Discovery) :
    (∀ entry, entry ∈ (stale.foldl (removeStale env) s).tracked ↔
      entry ∈ s.tracked ∧ ∀ pod ∈ stale, entry.key ≠ pod.key) ∧
    (stale.foldl (removeStale env) s).urls = s.urls \ env.view '' {pod | pod ∈ stale} := by
  induction stale generalizing s with
  | nil => simp
  | cons pod rest ih =>
      obtain ⟨htracked, hurls⟩ := ih (removeStale env s pod)
      rw [List.foldl_cons]
      constructor
      · intro entry
        rw [htracked, removeStale, tracked_untrack, tracked_removeUrl, PodSet.mem_remove,
          List.forall_mem_cons, and_assoc]
      · rw [hurls, removeStale, urls_untrack, urls_removeUrl]
        ext view
        simp [DiscoveryEnv.view, and_assoc, not_or, eq_comm]

/-- After the loop over stale pods the tracked pods are live, and only views of stale pods are gone. -/
theorem foldl_stale (env : DiscoveryEnv) (order : HashOrder) (live : PodSet) (s : Discovery) :
    (∀ entry, entry ∈ ((computeReconciliationDiff order s.tracked live).1.foldl (removeStale env)
        s).tracked ↔ entry ∈ s.tracked ∧ live.contains entry = true) ∧
    ((computeReconciliationDiff order s.tracked live).1.foldl (removeStale env) s).urls =
      s.urls \ env.view '' {pod | pod ∈ s.tracked ∧ live.contains pod = false} := by
  obtain ⟨htracked, hurls⟩ :=
    foldl_removeStale env (computeReconciliationDiff order s.tracked live).1 s
  constructor
  · intro entry
    rw [htracked]
    refine and_congr_right fun hentry => ⟨fun h => ?_, fun h pod hpod hkey => ?_⟩
    · by_contra hdead
      exact h entry (mem_stale.mpr ⟨hentry, Bool.eq_false_iff.mpr hdead⟩) rfl
    · have hpod := mem_stale.mp hpod
      rw [← PodSet.eq_of_key_eq hentry hpod.1 hkey, h] at hpod
      exact Bool.noConfusion hpod.2
  · rw [hurls]
    have hset : {pod | pod ∈ (computeReconciliationDiff order s.tracked live).1} =
        {pod | pod ∈ s.tracked ∧ live.contains pod = false} := by
      ext pod
      exact mem_stale
    rw [hset]

theorem agreement_reconcileWith {order : HashOrder} {live : PodSet} (hs : Agreement env s)
    (hkeeps : ReconcileKeeps env order s live) : Agreement env (reconcileWith env order live s) := by
  obtain ⟨hstale, hmissing⟩ := hkeeps
  obtain ⟨hlive, hurls⟩ := foldl_stale env order live s
  simp only [reconcileWith]
  split
  · exact hs
  · refine agreement_foldl_events ?_ hmissing
    -- what stays tracked is what is live, and no view of it was removed
    rw [Agreement, hurls, hs]
    ext view
    constructor
    · rintro ⟨⟨entry, hentry, rfl⟩, hstays⟩
      refine ⟨entry, (hlive entry).mpr ⟨hentry, ?_⟩, rfl⟩
      by_contra hdead
      exact hstays ⟨entry, ⟨hentry, Bool.eq_false_iff.mpr hdead⟩, rfl⟩
    · rintro ⟨entry, hentry, rfl⟩
      obtain ⟨hentry, hcontains⟩ := (hlive entry).mp hentry
      refine ⟨⟨entry, hentry, rfl⟩, ?_⟩
      rintro ⟨pod, ⟨hpod, hdead⟩, hview⟩
      exact hstale pod hpod hdead entry hentry hcontains hview.symm

theorem agreement_empty : Agreement env empty := by
  ext view
  simp [urls, empty, DiscoveryEnv.views, PodSet.mem_def, PodSet.empty]

/-- In a history whose calls all keep the agreement, tracker and pools agree after every call. -/
theorem agreement_of_keeping
    (hs : Runs.Reachable (· = empty) (fun s t => ∃ call, Keeps env s call ∧ t = perform env call s)
      s) : Agreement env s := by
  refine hs.invariant (Agreement env) (by rintro _ rfl; exact agreement_empty) ?_
  · rintro s t - hs ⟨call, hkeeps, rfl⟩
    cases call with
    | event order pod => exact (agreement_handlePodEvent_iff hs order pod).mpr hkeeps
    | deletion pod => exact (agreement_handlePodDeletion_iff hs pod).mpr hkeeps
    | reconcile order listed =>
        cases listed with
        | none => exact hs
        | some podList => exact agreement_reconcileWith hs (hkeeps podList rfl)

/-- The order in which the entries were added. -/
def insertionOrder : HashOrder := ⟨id, fun _ => .refl _⟩

/-- Regular mode on port 8000. -/
def regularEnv : DiscoveryEnv :=
  ⟨⟨[("app", "sglang")], 8000, false, [], []⟩, false, false⟩

def runningPod (name uid ip : String) : PodInfo := ⟨name, uid, ip, "Running", true, some .regular⟩

/-- A pod restarts under a new uid and address: the old address leaves the pool. -/
theorem agreement_after_restart :
    Agreement regularEnv
      (perform regularEnv (.event insertionOrder (runningPod "worker-0" "uid-2" "10.0.0.2"))
        (perform regularEnv (.event insertionOrder (runningPod "worker-0" "uid-1" "10.0.0.1"))
          empty)) := by
  refine agreement_of_keeping (Runs.Reachable.tail (Runs.Reachable.tail (.of_start rfl)
    ⟨_, ?_, rfl⟩) ⟨_, ?_, rfl⟩)
  · intro _ _ old hold
    cases hold
  · intro _ _ old hold
    cases hold
    refine ⟨Or.inl rfl, Or.inr ?_⟩
    rintro ⟨entry, hentry, -⟩
    cases hentry

/-- A new pod gets the address of an old one whose deletion comes later: the deletion takes the
address out of the pool although the new pod is tracked. -/
theorem not_agreement_after_address_reuse :
    ¬Agreement regularEnv
      (perform regularEnv (.deletion (runningPod "worker-0" "uid-0" "10.0.0.1"))
        (perform regularEnv (.event insertionOrder (runningPod "worker-1" "uid-1" "10.0.0.1"))
          (perform regularEnv (.event insertionOrder (runningPod "worker-0" "uid-0" "10.0.0.1"))
            empty))) := by
  have hempty : Agreement regularEnv empty := agreement_empty
  have hbefore : Agreement regularEnv
      (perform regularEnv (.event insertionOrder (runningPod "worker-1" "uid-1" "10.0.0.1"))
        (perform regularEnv (.event insertionOrder (runningPod "worker-0" "uid-0" "10.0.0.1"))
          empty)) := by
    have hfirst := (agreement_handlePodEvent_iff hempty insertionOrder
      (runningPod "worker-0" "uid-0" "10.0.0.1")).mpr (fun _ _ old hold => by cases hold)
    exact (agreement_handlePodEvent_iff hfirst insertionOrder
      (runningPod "worker-1" "uid-1" "10.0.0.1")).mpr (fun _ _ old hold => by cases hold)
  intro hafter
  have hkeeps := (agreement_handlePodDeletion_iff hbefore
    (runningPod "worker-0" "uid-0" "10.0.0.1")).mp hafter
  refine (hkeeps (runningPod "worker-0" "uid-0" "10.0.0.1") ?_ rfl).1
    ⟨runningPod "worker-1" "uid-1" "10.0.0.1", ?_, rfl⟩
  · exact List.mem_of_getElem? (i := 0) rfl
  · exact List.mem_of_getElem? (i := 0) rfl

end Discovery

end TokenDog
