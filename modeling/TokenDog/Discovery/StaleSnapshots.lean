import TokenDog.Discovery.Reconciliation

/-!
# A pass over an old list

`reconcile_pods` waits for the API server's list without the lock and then compares it with a
tracker that the watcher has moved on. What the pass undoes of the watcher's work, and under which
traversal orders, is decided here exactly.
-/

namespace TokenDog

namespace HashOrder

def byRank (rank : PodInfo → Nat) : HashOrder :=
  ⟨fun pods => pods.mergeSort fun a b => rank a ≤ rank b, fun pods => List.mergeSort_perm pods _⟩

theorem sorted_byRank (rank : PodInfo → Nat) (pods : List PodInfo) :
    ((byRank rank).enumerate pods).Pairwise fun a b => rank a ≤ rank b := by
  have hsorted : ((byRank rank).enumerate pods).Pairwise fun a b =>
      decide (rank a ≤ rank b) = true := by
    apply List.pairwise_mergeSort
    · intro a b c hab hbc
      exact decide_eq_true ((of_decide_eq_true hab).trans (of_decide_eq_true hbc))
    · intro a b
      simpa using Nat.le_total (rank a) (rank b)
  exact hsorted.imp of_decide_eq_true

theorem split_byRank (rank : PodInfo → Nat) {pods : List PodInfo} {pod : PodInfo}
    (hpod : pod ∈ pods) :
    ∃ before after, (byRank rank).enumerate pods = before ++ pod :: after ∧
      (∀ other ∈ before, rank other ≤ rank pod) ∧ ∀ other ∈ after, rank pod ≤ rank other := by
  have hmem : pod ∈ (byRank rank).enumerate pods := ((byRank rank).perm pods).mem_iff.mpr hpod
  obtain ⟨before, after, heq⟩ := List.append_of_mem hmem
  have hsorted := sorted_byRank rank pods
  rw [heq, List.pairwise_append, List.pairwise_cons] at hsorted
  refine ⟨before, after, heq, ?_, hsorted.2.1.1⟩
  intro other hother
  exact hsorted.2.2 other hother pod List.mem_cons_self

end HashOrder

namespace Discovery

variable {env : DiscoveryEnv} {s : Discovery} {live : PodSet} {orders : PodInfo → HashOrder}

theorem restarted_byRank (rank : PodInfo → Nat) {tracked : PodSet} {pod entry : PodInfo}
    (hentry : entry ∈ tracked) (hname : entry.name = pod.name)
    (hnew : tracked.contains pod = false) :
    ∃ old, restarted (.byRank rank) tracked pod = some old ∧ rank old ≤ rank entry := by
  have huid : entry.uid ≠ pod.uid := by
    intro huid
    exact PodSet.contains_eq_false_iff.mp hnew entry hentry (Prod.ext hname huid)
  cases hold : restarted (.byRank rank) tracked pod with
  | none => exact absurd (restarted_eq_none_iff.mp hold entry hentry hname) huid
  | some old =>
      refine ⟨old, rfl, ?_⟩
      obtain ⟨before, after, heq, hskipped⟩ := (List.find?_eq_some_iff_append.mp hold).2
      have hsorted := HashOrder.sorted_byRank rank tracked.pods
      have hmem := ((HashOrder.byRank rank).perm tracked.pods).mem_iff.mpr hentry
      rw [heq] at hsorted hmem
      rcases List.mem_append.mp hmem with hbefore | hafter
      · have hnot := hskipped entry hbefore
        simp [hname, huid] at hnot
      · rcases List.mem_cons.mp hafter with rfl | hafter
        · exact Nat.le_refl _
        · exact (List.pairwise_cons.mp (List.pairwise_append.mp hsorted).2.1).1 entry hafter

/-- Healthy pods, each with an identity of its own that is not tracked. -/
structure Fresh (s : Discovery) (pods : List PodInfo) : Prop where
  healthy : ∀ pod ∈ pods, pod.isHealthy = true
  nodup : (pods.map PodInfo.key).Nodup
  untracked : ∀ pod ∈ pods, s.tracked.contains pod = false

theorem handlePodEvent_subset (env : DiscoveryEnv) (order : HashOrder) (pod : PodInfo)
    (s : Discovery) :
    (∀ entry ∈ (handlePodEvent env order pod s).tracked, entry ∈ s.tracked ∨ entry = pod) ∧
      ∀ view ∈ (handlePodEvent env order pod s).urls, view ∈ s.urls ∨ view = env.view pod := by
  by_cases hignored : pod.isHealthy = false ∨ s.tracked.contains pod = true
  · rw [handlePodEvent_of_ignored hignored]
    exact ⟨fun _ => Or.inl, fun _ => Or.inl⟩
  · rw [not_or, Bool.not_eq_false, Bool.not_eq_true] at hignored
    rcases @handlePodEvent_cases env s order pod hignored.1 hignored.2 with
      ⟨-, htracked, hurls⟩ | ⟨old, -, htracked, hurls⟩
    · constructor
      · intro entry hentry
        exact (htracked entry).mp hentry
      · intro view hview
        rw [hurls] at hview
        exact hview.symm
    · constructor
      · intro entry hentry
        exact ((htracked entry).mp hentry).imp_left And.left
      · intro view hview
        rw [hurls] at hview
        exact hview.symm.imp_left And.left

theorem present_handlePodEvent {order : HashOrder} {pod : PodInfo}
    (hhealthy : pod.isHealthy = true) (hnew : s.tracked.contains pod = false) :
    pod ∈ (handlePodEvent env order pod s).tracked ∧
      env.view pod ∈ (handlePodEvent env order pod s).urls := by
  rcases @handlePodEvent_cases env s order pod hhealthy hnew with
    ⟨-, htracked, hurls⟩ | ⟨old, -, htracked, hurls⟩
  · rw [htracked, hurls]
    exact ⟨Or.inr rfl, Set.mem_insert _ _⟩
  · rw [htracked, hurls]
    exact ⟨Or.inr rfl, Set.mem_insert _ _⟩

theorem mem_handlePodEvent_of_name_ne {order : HashOrder} {event pod : PodInfo}
    (hhealthy : event.isHealthy = true) (hnew : s.tracked.contains event = false)
    (hpod : pod ∈ s.tracked) (hname : event.name ≠ pod.name) :
    pod ∈ (handlePodEvent env order event s).tracked := by
  rcases @handlePodEvent_cases env s order event hhealthy hnew with
    ⟨-, htracked, -⟩ | ⟨old, hold, htracked, -⟩
  · exact (htracked pod).mpr (.inl hpod)
  · apply (htracked pod).mpr
    refine Or.inl ⟨hpod, fun hkey => hname ?_⟩
    calc
      event.name = old.name := (restarted_spec hold).2.1.symm
      _ = pod.name := (congrArg Prod.fst hkey).symm

/-- A view stays, or is brought back, unless the event evicts an entry that has it. -/
theorem view_mem_handlePodEvent {order : HashOrder} {event : PodInfo}
    (hhealthy : event.isHealthy = true) (hnew : s.tracked.contains event = false)
    {view : Pool × String} (hview : view ∈ s.urls)
    (hevict : ∀ old ∈ s.tracked, old.name = event.name → old.key ≠ event.key →
      (env.selectPool event, env.workerUrl old) = view → env.view event = view) :
    view ∈ (handlePodEvent env order event s).urls := by
  rcases @handlePodEvent_cases env s order event hhealthy hnew with
    ⟨-, -, hurls⟩ | ⟨old, hold, -, hurls⟩
  · rw [hurls]
    exact Set.mem_insert_of_mem _ hview
  · obtain ⟨hmem, hname, huid⟩ := restarted_spec hold
    rw [hurls]
    by_cases hremoved : (env.selectPool event, env.workerUrl old) = view
    · left
      exact (hevict old hmem hname (fun hkey => huid (congrArg Prod.snd hkey)) hremoved).symm
    · exact Or.inr ⟨hview, fun heq => hremoved heq.symm⟩

theorem handleEvents_subset (env : DiscoveryEnv) (orders : PodInfo → HashOrder)
    (pods : List PodInfo) (s : Discovery) :
    (∀ entry ∈ (handleEvents env orders pods s).tracked, entry ∈ s.tracked ∨ entry ∈ pods) ∧
      ∀ view ∈ (handleEvents env orders pods s).urls,
        view ∈ s.urls ∨ ∃ pod ∈ pods, env.view pod = view := by
  induction pods generalizing s with
  | nil => exact ⟨fun _ => Or.inl, fun _ => Or.inl⟩
  | cons pod rest ih =>
      obtain ⟨htracked, hurls⟩ := ih (handlePodEvent env (orders pod) pod s)
      obtain ⟨hpodTracked, hpodUrls⟩ := handlePodEvent_subset env (orders pod) pod s
      rw [handleEvents_cons]
      constructor
      · intro entry hentry
        rcases htracked entry hentry with hentry | hentry
        · rcases hpodTracked entry hentry with hentry | rfl
          · exact Or.inl hentry
          · exact Or.inr List.mem_cons_self
        · exact Or.inr (List.mem_cons_of_mem _ hentry)
      · intro view hview
        rcases hurls view hview with hview | ⟨next, hnext, hview⟩
        · rcases hpodUrls view hview with hview | rfl
          · exact Or.inl hview
          · exact Or.inr ⟨pod, List.mem_cons_self, rfl⟩
        · exact Or.inr ⟨next, List.mem_cons_of_mem _ hnext, hview⟩

theorem Fresh.tail {pod : PodInfo} {rest : List PodInfo} (hfresh : Fresh s (pod :: rest))
    (order : HashOrder) : Fresh (handlePodEvent env order pod s) rest := by
  obtain ⟨hpodKey, hrestKeys⟩ := List.nodup_cons.mp hfresh.nodup
  refine ⟨fun next hnext => hfresh.healthy next (List.mem_cons_of_mem _ hnext), hrestKeys, ?_⟩
  intro next hnext
  rw [PodSet.contains_eq_false_iff]
  intro entry hentry hkey
  rcases (handlePodEvent_subset env order pod s).1 entry hentry with hentry | rfl
  · have huntracked := hfresh.untracked next (List.mem_cons_of_mem _ hnext)
    exact PodSet.contains_eq_false_iff.mp huntracked entry hentry hkey
  · apply hpodKey
    rw [hkey]
    exact List.mem_map_of_mem hnext

theorem Fresh.drop {before after : List PodInfo} (hfresh : Fresh s (before ++ after)) :
    Fresh (handleEvents env orders before s) after := by
  induction before generalizing s with
  | nil => exact hfresh
  | cons pod rest ih => exact ih (hfresh.tail (orders pod))

/-! ### What the pass must leave in place -/

def Present (env : DiscoveryEnv) (s : Discovery) (pod : PodInfo) : Prop :=
  pod ∈ s.tracked ∧ env.view pod ∈ s.urls

def Absent (env : DiscoveryEnv) (s : Discovery) (pod : PodInfo) : Prop :=
  s.tracked.contains pod = false ∧ env.view pod ∉ s.urls

/-- Some missing pod evicts from the pod's pool, in passing, the URL the pod has as well. -/
def CrossEviction (env : DiscoveryEnv) (s : Discovery) (live : PodSet) (pod : PodInfo) : Prop :=
  ∃ missing ∈ missingPods s live, ∃ old,
    (old ∈ s.tracked ∧ live.contains old = true ∨ old ∈ missingPods s live) ∧
      old.name = missing.name ∧ old.key ≠ missing.key ∧
      (env.selectPool missing, env.workerUrl old) = env.view pod ∧ env.view missing ≠ env.view pod

/-- A present pod that the list has, whose name no missing pod has, whose view is not that of a stale
pod alone, and whose URL no missing pod evicts. -/
def StaysIn (env : DiscoveryEnv) (live : PodSet) (s : Discovery) (pod : PodInfo) : Prop :=
  live.contains pod = true ∧ (∀ missing ∈ missingPods s live, missing.name ≠ pod.name) ∧
    (env.view pod ∈ env.view '' stalePods s live → env.view pod ∈ env.view '' missingPods s live) ∧
    ¬CrossEviction env s live pod

/-- No missing pod has the identity or the view of the absent one. -/
def StaysOut (env : DiscoveryEnv) (live : PodSet) (s : Discovery) (pod : PodInfo) : Prop :=
  ∀ missing ∈ missingPods s live, missing.key ≠ pod.key ∧ env.view missing ≠ env.view pod

/-- The events that come leave a tracked pod of another name in place. Its view is there, or one of
them brings it back. -/
theorem present_handleEvents {pods : List PodInfo} (hfresh : Fresh s pods) {pod : PodInfo}
    (hpod : pod ∈ s.tracked) (hnames : ∀ event ∈ pods, event.name ≠ pod.name)
    (hview : env.view pod ∈ s.urls ∨ ∃ event ∈ pods, env.view event = env.view pod)
    (hevict : ∀ event ∈ pods, ∀ old, old ∈ s.tracked ∨ old ∈ pods → old.name = event.name →
      old.key ≠ event.key → (env.selectPool event, env.workerUrl old) = env.view pod →
      env.view event = env.view pod) : Present env (handleEvents env orders pods s) pod := by
  induction pods generalizing s with
  | nil =>
      refine ⟨hpod, hview.resolve_right ?_⟩
      rintro ⟨event, hevent, -⟩
      cases hevent
  | cons event rest ih =>
      have hself : event ∈ event :: rest := List.mem_cons_self
      have hhealthy := hfresh.healthy event hself
      have huntracked := hfresh.untracked event hself
      have hsubset := (handlePodEvent_subset env (orders event) event s).1
      rw [handleEvents_cons]
      apply ih (hfresh.tail (orders event))
      · exact mem_handlePodEvent_of_name_ne hhealthy huntracked hpod (hnames event hself)
      · exact fun next hnext => hnames next (List.mem_cons_of_mem _ hnext)
      · rcases hview with hview | ⟨next, hnext, hnextView⟩
        · left
          apply view_mem_handlePodEvent hhealthy huntracked hview
          exact fun old hold => hevict event hself old (.inl hold)
        · rcases List.mem_cons.mp hnext with rfl | hnext
          · left
            rw [← hnextView]
            exact (present_handlePodEvent hhealthy huntracked).2
          · exact Or.inr ⟨next, hnext, hnextView⟩
      · intro next hnext old hold
        apply hevict next (List.mem_cons_of_mem _ hnext) old
        rcases hold with hold | hold
        · rcases hsubset old hold with hold | rfl
          · exact Or.inl hold
          · exact Or.inr hself
        · exact Or.inr (List.mem_cons_of_mem _ hold)

/-- A pod of lowest rank is evicted by the first event of its name. -/
theorem not_mem_handleEvents_of_shared_name {pods : List PodInfo} (hfresh : Fresh s pods)
    {pod event : PodInfo} (hevent : event ∈ pods) (hname : event.name = pod.name)
    (hpod : pod ∉ pods) {rank : PodInfo → Nat} (hrank : ∀ other, rank other ≤ rank pod → other = pod) :
    pod ∉ (handleEvents env (fun _ => .byRank rank) pods s).tracked := by
  obtain ⟨before, after, rfl⟩ := List.append_of_mem hevent
  rw [List.mem_append, List.mem_cons, not_or, not_or] at hpod
  rw [handleEvents_append, handleEvents_cons]
  have hfresh : Fresh (handleEvents env (fun _ => .byRank rank) before s) (event :: after) :=
    hfresh.drop
  generalize handleEvents env (fun _ => .byRank rank) before s = t at hfresh
  intro hmem
  rcases (handleEvents_subset env _ after _).1 pod hmem with hmem | hmem
  · have huntracked := hfresh.untracked event List.mem_cons_self
    rcases (handlePodEvent_subset env _ event t).1 pod hmem with hbefore | rfl
    · obtain ⟨old, hold, holdRank⟩ := restarted_byRank rank hbefore hname.symm huntracked
      obtain rfl := hrank old holdRank
      rcases @handlePodEvent_cases env t (.byRank rank) event
        (hfresh.healthy event List.mem_cons_self) huntracked with
        ⟨hnone, -⟩ | ⟨other, hother, htracked, -⟩
      · rw [hold] at hnone
        cases hnone
      · rw [hold, Option.some.injEq] at hother
        subst hother
        rcases (htracked old).mp hmem with ⟨-, hkey⟩ | heq
        · exact hkey rfl
        · exact hpod.2.1 heq
    · exact hpod.2.1 rfl
  · exact hpod.2.2 hmem

theorem exists_mem_handleEvents_of_url {pods : List PodInfo} (hfresh : Fresh s pods) {url : String}
    (hurls : ∀ event ∈ pods, env.workerUrl event = url) {old : PodInfo}
    (hold : old ∈ s.tracked ∨ old ∈ pods) (holdUrl : env.workerUrl old = url) :
    ∃ entry ∈ (handleEvents env orders pods s).tracked, entry.name = old.name ∧
      env.workerUrl entry = url := by
  induction pods generalizing s old with
  | nil =>
      rcases hold with hold | hold
      · exact ⟨old, hold, rfl, holdUrl⟩
      · cases hold
  | cons event rest ih =>
      have hself : event ∈ event :: rest := List.mem_cons_self
      have hrestUrls := fun next hnext => hurls next (List.mem_cons_of_mem _ hnext)
      rw [handleEvents_cons]
      have hentry : ∃ entry, (entry ∈ (handlePodEvent env (orders event) event s).tracked ∨
          entry ∈ rest) ∧ entry.name = old.name ∧ env.workerUrl entry = url := by
        rcases @handlePodEvent_cases env s (orders event) event (hfresh.healthy event hself)
          (hfresh.untracked event hself) with ⟨-, htracked, -⟩ | ⟨evicted, hevicted, htracked, -⟩
        · rcases hold with hold | hold
          · exact ⟨old, .inl ((htracked old).mpr (.inl hold)), rfl, holdUrl⟩
          · rcases List.mem_cons.mp hold with rfl | hold
            · exact ⟨old, .inl ((htracked old).mpr (.inr rfl)), rfl, holdUrl⟩
            · exact ⟨old, .inr hold, rfl, holdUrl⟩
        · rcases hold with hold | hold
          · by_cases hkey : old.key = evicted.key
            · refine ⟨event, .inl ((htracked event).mpr (.inr rfl)), ?_, hurls event hself⟩
              calc
                event.name = evicted.name := (restarted_spec hevicted).2.1.symm
                _ = old.name := (congrArg Prod.fst hkey).symm
            · exact ⟨old, .inl ((htracked old).mpr (.inl ⟨hold, hkey⟩)), rfl, holdUrl⟩
          · rcases List.mem_cons.mp hold with rfl | hold
            · exact ⟨old, .inl ((htracked old).mpr (.inr rfl)), rfl, holdUrl⟩
            · exact ⟨old, .inr hold, rfl, holdUrl⟩
      obtain ⟨entry, hentry, hname, hentryUrl⟩ := hentry
      obtain ⟨found, hfound, hfoundName, hfoundUrl⟩ :=
        ih (hfresh.tail (orders event)) hrestUrls hentry hentryUrl
      exact ⟨found, hfound, hfoundName.trans hname, hfoundUrl⟩

/-- The order that takes the pods of one URL first, then one pod of another, then the rest. -/
def urlFirst (env : DiscoveryEnv) (url : String) (next other : PodInfo) : Nat :=
  if env.workerUrl other = url then 0 else if other = next then 1 else 2

/-- In that order the one pod evicts the URL, and nothing after it brings it back. -/
theorem not_mem_urls_handleEvents {before after : List PodInfo} {event old : PodInfo}
    (hfresh : Fresh s (before ++ event :: after)) {url : String}
    (hbefore : ∀ other ∈ before, env.workerUrl other = url)
    (hafter : ∀ other ∈ after, env.workerUrl other ≠ url) (heventUrl : env.workerUrl event ≠ url)
    (hold : old ∈ s.tracked ∨ old ∈ before) (hname : old.name = event.name)
    (holdUrl : env.workerUrl old = url) :
    (env.selectPool event, url) ∉ (handleEvents env (fun _ => .byRank (urlFirst env url event))
      (before ++ event :: after) s).urls := by
  have hbeforeFresh : Fresh s before := by
    refine ⟨fun pod hpod => hfresh.healthy pod (List.mem_append_left _ hpod), ?_,
      fun pod hpod => hfresh.untracked pod (List.mem_append_left _ hpod)⟩
    exact hfresh.nodup.sublist ((List.sublist_append_left before _).map PodInfo.key)
  obtain ⟨entry, hentry, hentryName, hentryUrl⟩ := @exists_mem_handleEvents_of_url env s
    (fun _ => .byRank (urlFirst env url event)) before hbeforeFresh url hbefore old hold holdUrl
  have hrestFresh : Fresh (handleEvents env (fun _ => .byRank (urlFirst env url event)) before s)
      (event :: after) := hfresh.drop
  rw [handleEvents_append, handleEvents_cons]
  generalize handleEvents env (fun _ => .byRank (urlFirst env url event)) before s = t at *
  have huntracked := hrestFresh.untracked event List.mem_cons_self
  obtain ⟨evicted, hevicted, hrank⟩ := restarted_byRank (urlFirst env url event) hentry
    (hentryName.trans hname) huntracked
  -- the evicted pod has rank zero, so it has the URL
  have hevictedUrl : env.workerUrl evicted = url := by
    by_contra hne
    simp only [urlFirst, hentryUrl, hne, if_true, if_false] at hrank
    split at hrank <;> omega
  intro hmem
  rcases (handleEvents_subset env _ after _).2 _ hmem with hmem | ⟨other, hother, hview⟩
  · rcases @handlePodEvent_cases env t (.byRank (urlFirst env url event)) event
      (hrestFresh.healthy event List.mem_cons_self) huntracked with
      ⟨hnone, -⟩ | ⟨found, hfound, -, hurls⟩
    · rw [hevicted] at hnone
      cases hnone
    · rw [hevicted, Option.some.injEq] at hfound
      subst hfound
      rw [hurls, hevictedUrl] at hmem
      rcases hmem with heq | ⟨-, hne⟩
      · exact heventUrl (congrArg Prod.snd heq).symm
      · exact hne rfl
  · exact hafter other hother (congrArg Prod.snd hview)

/-! ### The pass -/

def withoutStale (env : DiscoveryEnv) (order : HashOrder) (live : PodSet) (s : Discovery) :
    Discovery :=
  (computeReconciliationDiff order s.tracked live).1.foldl (removeStale env) s

theorem reconcileWith_eq_handleEvents (env : DiscoveryEnv) (order : HashOrder) (live : PodSet)
    (s : Discovery) :
    reconcileWith env order live s =
      handleEvents env (fun _ => order) (computeReconciliationDiff order s.tracked live).2
        (withoutStale env order live s) :=
  reconcileWith_eq env order live s

theorem nodup_keys_missing (order : HashOrder) (tracked live : PodSet) :
    ((computeReconciliationDiff order tracked live).2.map PodInfo.key).Nodup := by
  have hnodup : (((live.difference tracked).filter PodInfo.isHealthy).map PodInfo.key).Nodup :=
    live.nodup.sublist ((List.filter_sublist.trans List.filter_sublist).map PodInfo.key)
  exact ((order.perm _).map PodInfo.key).nodup_iff.mpr hnodup

theorem fresh_missing (env : DiscoveryEnv) (order : HashOrder) (live : PodSet) (s : Discovery) :
    Fresh (withoutStale env order live s) (computeReconciliationDiff order s.tracked live).2 := by
  refine ⟨fun pod hpod => (mem_missing.mp hpod).2.2, nodup_keys_missing order s.tracked live, ?_⟩
  intro pod hpod
  rw [PodSet.contains_eq_false_iff]
  intro entry hentry
  obtain ⟨hentry, -⟩ := ((foldl_stale env order live s).1 entry).mp hentry
  exact PodSet.contains_eq_false_iff.mp (mem_missing.mp hpod).2.1 entry hentry

theorem not_mem_missing_of_mem {order : HashOrder} {pod : PodInfo} (hpod : pod ∈ s.tracked) :
    pod ∉ (computeReconciliationDiff order s.tracked live).2 := by
  intro hmissing
  exact PodSet.contains_eq_false_iff.mp (mem_missing.mp hmissing).2.1 pod hpod rfl

theorem split_missing (rank : PodInfo → Nat) {missing : PodInfo}
    (hmissing : missing ∈ missingPods s live) :
    ∃ before after, (computeReconciliationDiff (.byRank rank) s.tracked live).2 =
        before ++ missing :: after ∧
      (∀ other ∈ before, rank other ≤ rank missing ∧ other ≠ missing) ∧
      ∀ other ∈ after, rank missing ≤ rank other ∧ other ≠ missing := by
  have hmem : missing ∈ (live.difference s.tracked).filter PodInfo.isHealthy := by
    rw [List.mem_filter, PodSet.mem_difference, and_assoc]
    exact hmissing
  obtain ⟨before, after, heq, hbefore, hafter⟩ := HashOrder.split_byRank rank hmem
  have hnodup := (nodup_keys_missing (.byRank rank) s.tracked live).of_map
  have hlist : (computeReconciliationDiff (.byRank rank) s.tracked live).2 =
      before ++ missing :: after := heq
  rw [hlist, List.nodup_middle, List.nodup_cons, List.mem_append, not_or] at hnodup
  refine ⟨before, after, hlist, ?_, ?_⟩
  · intro other hother
    exact ⟨hbefore other hother, fun heq => hnodup.1.1 (heq ▸ hother)⟩
  · intro other hother
    exact ⟨hafter other hother, fun heq => hnodup.1.2 (heq ▸ hother)⟩

theorem present_reconcileWith {pod : PodInfo} (hpresent : Present env s pod)
    (hstays : StaysIn env live s pod) (order : HashOrder) :
    Present env (reconcileWith env order live s) pod := by
  obtain ⟨hlive, hnames, hview, hcross⟩ := hstays
  obtain ⟨htracked, hurls⟩ := foldl_stale env order live s
  rw [reconcileWith_eq_handleEvents]
  apply present_handleEvents (fresh_missing env order live s)
  · exact (htracked pod).mpr ⟨hpresent.1, hlive⟩
  · intro event hevent
    exact hnames event (mem_missing.mp hevent)
  · by_cases hstale : env.view pod ∈ env.view '' stalePods s live
    · obtain ⟨event, hevent, heq⟩ := hview hstale
      exact Or.inr ⟨event, mem_missing.mpr hevent, heq⟩
    · left
      unfold withoutStale
      rw [hurls]
      exact ⟨hpresent.2, hstale⟩
  · intro event hevent old hold hname hkey hremoved
    by_contra hother
    apply hcross
    refine ⟨event, mem_missing.mp hevent, old, ?_, hname, hkey, hremoved, hother⟩
    exact hold.imp (htracked old).mp mem_missing.mp

/-- Under some order a cross eviction takes the view away. -/
theorem not_crossEviction_of_present {pod : PodInfo}
    (hafter : ∀ order, Present env (reconcileWith env order live s) pod) :
    ¬CrossEviction env s live pod := by
  rintro ⟨event, hevent, old, hold, hname, hkey, hremoved, hother⟩
  have hurl : env.workerUrl old = env.workerUrl pod := congrArg Prod.snd hremoved
  have hpool : env.selectPool event = env.selectPool pod := congrArg Prod.fst hremoved
  have heventUrl : env.workerUrl event ≠ env.workerUrl pod := fun h => hother (Prod.ext hpool h)
  let order := HashOrder.byRank (urlFirst env (env.workerUrl pod) event)
  obtain ⟨before, after, hlist, hbefore, hafterEvent⟩ :=
    split_missing (urlFirst env (env.workerUrl pod) event) hevent
  have hfresh := fresh_missing env order live s
  rw [hlist] at hfresh
  have hview := (hafter order).2
  rw [reconcileWith_eq_handleEvents, hlist] at hview
  have hbeforeUrl : ∀ other ∈ before, env.workerUrl other = env.workerUrl pod := by
    intro other hmem
    obtain ⟨hrank, hne⟩ := hbefore other hmem
    by_contra hotherUrl
    simp [urlFirst, heventUrl, hotherUrl, hne] at hrank
  have hafterUrl : ∀ other ∈ after, env.workerUrl other ≠ env.workerUrl pod := by
    intro other hmem hotherUrl
    obtain ⟨hrank, -⟩ := hafterEvent other hmem
    simp [urlFirst, heventUrl, hotherUrl] at hrank
  have holdThere : old ∈ (withoutStale env order live s).tracked ∨ old ∈ before := by
    rcases hold with hold | hold
    · exact Or.inl (((foldl_stale env order live s).1 old).mpr hold)
    · right
      have hmem : old ∈ before ++ event :: after := hlist ▸ mem_missing.mpr hold
      rcases List.mem_append.mp hmem with hmem | hmem
      · exact hmem
      · rcases List.mem_cons.mp hmem with rfl | hmem
        · exact absurd rfl hkey
        · exact absurd hurl (hafterUrl old hmem)
  apply not_mem_urls_handleEvents hfresh hbeforeUrl hafterUrl heventUrl holdThere hname hurl
  rw [hpool]
  exact hview

theorem staysIn_of_present {pod : PodInfo} (hpresent : Present env s pod)
    (hafter : ∀ order, Present env (reconcileWith env order live s) pod) :
    StaysIn env live s pod := by
  refine ⟨?_, ?_, ?_, ?_⟩
  · -- a stale pod is dropped in any order
    have hpod := (hafter insertionOrder).1
    rw [reconcileWith_eq_handleEvents] at hpod
    rcases (handleEvents_subset env _ _ _).1 pod hpod with hpod | hpod
    · exact (((foldl_stale env insertionOrder live s).1 pod).mp hpod).2
    · exact absurd hpod (not_mem_missing_of_mem hpresent.1)
  · intro event hevent hname
    have hrank : ∀ other, (if other = pod then 0 else 1) ≤ (if pod = pod then 0 else 1) →
        other = pod := by
      intro other hle
      by_contra hne
      simp [hne] at hle
    have hpod := (hafter (.byRank fun other => if other = pod then 0 else 1)).1
    rw [reconcileWith_eq_handleEvents] at hpod
    exact not_mem_handleEvents_of_shared_name (fresh_missing env _ live s)
      (mem_missing.mpr hevent) hname (not_mem_missing_of_mem hpresent.1) hrank hpod
  · intro hstale
    have hview := (hafter insertionOrder).2
    rw [reconcileWith_eq_handleEvents] at hview
    rcases (handleEvents_subset env _ _ _).2 _ hview with hview | ⟨event, hevent, hview⟩
    · unfold withoutStale at hview
      rw [(foldl_stale env insertionOrder live s).2] at hview
      exact absurd hstale hview.2
    · exact ⟨event, mem_missing.mp hevent, hview⟩
  · exact not_crossEviction_of_present hafter

/-- A present pod stays whatever the traversal orders exactly if it is in no one's way. -/
theorem present_iff_staysIn {pod : PodInfo} (hpresent : Present env s pod) :
    (∀ order, Present env (reconcileWith env order live s) pod) ↔ StaysIn env live s pod :=
  ⟨staysIn_of_present hpresent, present_reconcileWith hpresent⟩

theorem present_last_event {before : List PodInfo} {event : PodInfo}
    (hfresh : Fresh s (before ++ [event])) :
    Present env (handleEvents env orders (before ++ [event]) s) event := by
  have hlast : Fresh (handleEvents env orders before s) [event] := hfresh.drop
  rw [handleEvents_append]
  exact present_handlePodEvent (hlast.healthy event List.mem_cons_self)
    (hlast.untracked event List.mem_cons_self)

theorem exists_present_of_missing {missing : PodInfo} (hmissing : missing ∈ missingPods s live) :
    ∃ order, Present env (reconcileWith env order live s) missing := by
  obtain ⟨before, after, hlist, -, hafter⟩ :=
    split_missing (fun other => if other = missing then 1 else 0) hmissing
  have hnil : after = [] := by
    rw [List.eq_nil_iff_forall_not_mem]
    intro other hother
    obtain ⟨hrank, hne⟩ := hafter other hother
    simp [hne] at hrank
  subst hnil
  refine ⟨.byRank fun other => if other = missing then 1 else 0, ?_⟩
  have hfresh := fresh_missing env (.byRank fun other => if other = missing then 1 else 0) live s
  rw [reconcileWith_eq_handleEvents]
  rw [hlist] at hfresh ⊢
  exact present_last_event hfresh

/-- The pass brings back an absent pod, or its view, exactly if a missing pod has it. -/
theorem absent_iff_staysOut {pod : PodInfo} (habsent : Absent env s pod) :
    (∀ order, Absent env (reconcileWith env order live s) pod) ↔ StaysOut env live s pod := by
  constructor
  · intro hafter missing hmissing
    obtain ⟨order, hmem, hview⟩ := @exists_present_of_missing env s live missing hmissing
    obtain ⟨huntracked, hgone⟩ := hafter order
    constructor
    · exact PodSet.contains_eq_false_iff.mp huntracked missing hmem
    · intro heq
      exact hgone (heq ▸ hview)
  · intro hout order
    rw [reconcileWith_eq_handleEvents]
    obtain ⟨hsubset, hurls⟩ := handleEvents_subset env (fun _ => order)
      (computeReconciliationDiff order s.tracked live).2 (withoutStale env order live s)
    obtain ⟨htracked, hkeptUrls⟩ := foldl_stale env order live s
    constructor
    · rw [PodSet.contains_eq_false_iff]
      intro entry hentry
      rcases hsubset entry hentry with hentry | hentry
      · exact PodSet.contains_eq_false_iff.mp habsent.1 entry ((htracked entry).mp hentry).1
      · exact (hout entry (mem_missing.mp hentry)).1
    · intro hview
      rcases hurls _ hview with hview | ⟨event, hevent, hview⟩
      · unfold withoutStale at hview
        rw [hkeptUrls] at hview
        exact habsent.2 hview.1
      · exact (hout event (mem_missing.mp hevent)).2 hview

/-- A completed call of the watcher. -/
inductive WatcherCall where
  | event (order : HashOrder) (pod : PodInfo)
  | deletion (pod : PodInfo)

def WatcherCall.perform (env : DiscoveryEnv) : WatcherCall → Discovery → Discovery
  | .event order pod => handlePodEvent env order pod
  | .deletion pod => handlePodDeletion env pod

def afterWindow (env : DiscoveryEnv) (window : List WatcherCall) (s : Discovery) : Discovery :=
  window.foldl (fun s call => call.perform env s) s

def AddedIn (env : DiscoveryEnv) (window : List WatcherCall) (s : Discovery) (pod : PodInfo) :
    Prop :=
  ∃ before call after, window = before ++ call :: after ∧
    (afterWindow env before s).tracked.contains pod = false ∧
    pod ∈ (call.perform env (afterWindow env before s)).tracked

def RemovedIn (env : DiscoveryEnv) (window : List WatcherCall) (s : Discovery) (pod : PodInfo) :
    Prop :=
  ∃ before call after, window = before ++ call :: after ∧
    pod ∈ (afterWindow env before s).tracked ∧
    (call.perform env (afterWindow env before s)).tracked.contains pod = false

/-- What the watcher added and not removed again stays, and what it removed and not added again stays
away, when the pass applies its diff against the old list. -/
def WindowKept (env : DiscoveryEnv) (podList : List Pod) (window : List WatcherCall)
    (s : Discovery) : Prop :=
  ∀ order pod,
    (AddedIn env window s pod → Present env (afterWindow env window s) pod →
      Present env (reconcilePods env order (some podList) (afterWindow env window s)) pod) ∧
    (RemovedIn env window s pod → Absent env (afterWindow env window s) pod →
      Absent env (reconcilePods env order (some podList) (afterWindow env window s)) pod)

/-- The pass undoes none of the window exactly if nothing on the old list is in the way. -/
theorem windowKept_iff (env : DiscoveryEnv) (podList : List Pod) (window : List WatcherCall)
    (s : Discovery) :
    WindowKept env podList window s ↔ ∀ pod,
      (AddedIn env window s pod → Present env (afterWindow env window s) pod →
        StaysIn env (buildLivePodSet podList env.config) (afterWindow env window s) pod) ∧
      (RemovedIn env window s pod → Absent env (afterWindow env window s) pod →
        StaysOut env (buildLivePodSet podList env.config) (afterWindow env window s) pod) := by
  constructor
  · intro hkept pod
    constructor
    · intro hadded hpresent
      rw [← present_iff_staysIn hpresent]
      intro order
      exact (hkept order pod).1 hadded hpresent
    · intro hremoved habsent
      rw [← absent_iff_staysOut habsent]
      intro order
      exact (hkept order pod).2 hremoved habsent
  · intro hstays order pod
    constructor
    · intro hadded hpresent
      exact (present_iff_staysIn hpresent).mpr ((hstays pod).1 hadded hpresent) order
    · intro hremoved habsent
      exact (absent_iff_staysOut habsent).mpr ((hstays pod).2 hremoved habsent) order

/-- A pod is created after an empty list was obtained: the pass drops it as stale. -/
theorem not_windowKept_of_created_pod :
    ¬∀ (env : DiscoveryEnv) (podList : List Pod) (window : List WatcherCall) (s : Discovery),
      WindowKept env podList window s := by
  intro h
  have hkept := h regularEnv [] [.event insertionOrder (runningPod "worker-0" "uid-0" "10.0.0.1")]
    empty insertionOrder (runningPod "worker-0" "uid-0" "10.0.0.1")
  obtain ⟨hmem, -⟩ := hkept.1 ⟨[], _, [], rfl, rfl, List.mem_of_getElem? (i := 0) rfl⟩
    ⟨List.mem_of_getElem? (i := 0) rfl, List.mem_of_getElem? (i := 0) rfl⟩
  cases hmem

end Discovery

end TokenDog
