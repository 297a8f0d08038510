import TokenDog.Gateway

/-!
# A pod that stays

A worker is there as long as its pod is. While the API server goes on reporting the pod, and nothing
else under its name or its address, neither task of service discovery touches its worker, whatever
they do about other pods and however their sections interleave.
-/

namespace TokenDog

open Discovery (PodSection watchObject restarted restarted_spec)

namespace PodInfo

/-- Another pod, with neither the name nor the address of `home`. -/
def Apart (home pod : PodInfo) : Prop := pod.name ≠ home.name ∧ pod.ip ≠ home.ip

/-- `home` itself, in whatever state, or a pod apart from it. -/
def Spares (home pod : PodInfo) : Prop := pod.key = home.key ∨ home.Apart pod

variable {home pod : PodInfo}

theorem Apart.key_ne (h : home.Apart pod) : home.key ≠ pod.key := fun hkey =>
  h.1 (congrArg Prod.fst hkey).symm

theorem Apart.workerUrl_ne (h : home.Apart pod) (port : Nat) :
    pod.workerUrl port ≠ home.workerUrl port := by
  intro hurl
  simp only [PodInfo.workerUrl, String.append_left_inj] at hurl
  exact h.2 hurl

theorem Spares.apart (h : home.Spares pod) (hkey : pod.key ≠ home.key) : home.Apart pod :=
  h.resolve_left hkey

end PodInfo

/-- The report is of `home`, which is not being deleted, or of a pod apart from it. -/
def Pod.Spares (config : ServiceDiscoveryConfig) (home : PodInfo) (pod : Pod) : Prop :=
  ∀ info, PodInfo.shouldInclude pod config = true → PodInfo.fromPod pod (some config) = some info →
    home.Apart info ∨ info.key = home.key ∧ pod.metadata.deletionTimestamp.isSome = false

/-- `home` is on the list. -/
def PodInfo.ListedOn (home : PodInfo) (config : ServiceDiscoveryConfig) (podList : List Pod) : Prop :=
  ∃ pod ∈ podList, ∃ info, LiveAs config pod info ∧ info.key = home.key

theorem Pod.Spares.of_liveAs {config : ServiceDiscoveryConfig} {home info : PodInfo} {pod : Pod}
    (h : pod.Spares config home) (hlive : LiveAs config pod info) : home.Spares info :=
  (h info hlive.1 hlive.2.2).symm.imp And.left id

/-- `home` is tracked, and no other pod with its name or its address. -/
structure PodSet.Houses (home : PodInfo) (tracked : PodSet) : Prop where
  mem : home ∈ tracked
  others : ∀ pod ∈ tracked, home.Spares pod

namespace PodSet.Houses

variable {home pod old : PodInfo} {tracked : PodSet}

theorem remove (h : tracked.Houses home) (hapart : home.Apart pod) :
    (tracked.remove pod).Houses home where
  mem := PodSet.mem_remove.mpr ⟨h.mem, hapart.key_ne⟩
  others entry hentry := h.others entry (PodSet.mem_remove.mp hentry).1

theorem insert (h : tracked.Houses home) (hspares : home.Spares pod) :
    (tracked.insert pod).Houses home := by
  refine ⟨?_, PodSet.forall_mem_insert h.others hspares⟩
  cases hnew : tracked.contains pod with
  | true =>
      rw [PodSet.insert_of_contains hnew]
      exact h.mem
  | false => exact (PodSet.mem_insert_of_not_contains hnew).mpr (Or.inl h.mem)

/-- A pod that is not tracked is apart from `home`, and so is the one that it replaces. -/
theorem apart_of_restarted (h : tracked.Houses home) {order : HashOrder} (hspares : home.Spares pod)
    (hnew : tracked.contains pod = false) (hold : restarted order tracked pod = some old) :
    home.Apart old := by
  obtain ⟨hmem, hname, -⟩ := restarted_spec hold
  have hapart : home.Apart pod :=
    hspares.apart fun hkey => PodSet.contains_eq_false_iff.mp hnew home h.mem hkey.symm
  apply (h.others old hmem).apart
  intro hkey
  exact hapart.1 (hname.symm.trans (congrArg Prod.fst hkey))

end PodSet.Houses

namespace Discovery.PodSection

def Spares (config : ServiceDiscoveryConfig) (home : PodInfo) : PodSection → Prop
  | .track _ pod => home.Spares pod
  | .add _ => True
  | .evict _ pod | .delete pod | .remove pod | .dropStale pod | .untrackStale pod => home.Apart pod
  | .diff _ podList => home.ListedOn config podList ∧ ∀ pod ∈ podList, pod.Spares config home

variable {env : DiscoveryEnv} {home : PodInfo}

theorem spares_watchObject (order : HashOrder) {pod : Pod} (h : pod.Spares env.config home) :
    ∀ sec ∈ watchObject env order pod, sec.Spares env.config home := by
  intro sec hmem
  unfold watchObject at hmem
  split at hmem
  · rename_i hincluded
    split at hmem
    · rename_i info hinfo
      split at hmem
      · rename_i hdeleted
        obtain rfl := List.mem_singleton.mp hmem
        -- a pod that is being deleted is not `home`
        rcases h info hincluded hinfo with hapart | ⟨-, hkept⟩
        · exact hapart
        · cases hdeleted.symm.trans hkept
      · obtain rfl := List.mem_singleton.mp hmem
        exact (h info hincluded hinfo).symm.imp And.left id
    · exact (List.not_mem_nil hmem).elim
  · exact (List.not_mem_nil hmem).elim

/-- A section that spares `home` leaves it tracked, and what it leaves to do spares it too. -/
theorem Spares.run {sec : PodSection} (h : sec.Spares env.config home) {s : Discovery}
    (hhome : s.tracked.Houses home) :
    (sec.run env s).1.tracked.Houses home ∧
      ∀ next ∈ (sec.run env s).2, next.Spares env.config home := by
  cases sec with
  | track order pod =>
      rcases run_track env order pod s with
        hrun | ⟨-, hnew, hrun | ⟨old, hold, hrun⟩⟩ <;> rw [hrun]
      · exact ⟨hhome, fun _ hnext => (List.not_mem_nil hnext).elim⟩
      · exact ⟨hhome.insert h, List.forall_mem_singleton.mpr trivial⟩
      · have hapart := hhome.apart_of_restarted h hnew hold
        refine ⟨(hhome.remove hapart).insert h, fun next hnext => ?_⟩
        rcases List.mem_cons.mp hnext with rfl | hnext
        · exact hapart
        · obtain rfl := List.mem_singleton.mp hnext
          exact trivial
  | evict pod old => exact ⟨hhome, fun _ hnext => (List.not_mem_nil hnext).elim⟩
  | add pod => exact ⟨hhome, fun _ hnext => (List.not_mem_nil hnext).elim⟩
  | delete pod =>
      refine ⟨hhome.remove h, fun next hnext => ?_⟩
      change next ∈ (if s.tracked.contains pod then [PodSection.remove pod] else []) at hnext
      split at hnext
      · obtain rfl := List.mem_singleton.mp hnext
        exact h
      · exact (List.not_mem_nil hnext).elim
  | remove pod => exact ⟨hhome, fun _ hnext => (List.not_mem_nil hnext).elim⟩
  | dropStale pod =>
      refine ⟨hhome, fun next hnext => ?_⟩
      obtain rfl := List.mem_singleton.mp hnext
      exact h
  | untrackStale pod => exact ⟨hhome.remove h, fun _ hnext => (List.not_mem_nil hnext).elim⟩
  | diff order podList =>
      refine ⟨hhome, fun next hnext => ?_⟩
      rcases List.mem_append.mp hnext with hnext | hnext
      · obtain ⟨pod, hmem, rfl⟩ := List.mem_map.mp hnext
        obtain ⟨htracked, hstale⟩ := mem_stale.mp hmem
        -- `home` is on the list, so it is not stale
        apply (hhome.others pod htracked).apart
        intro hkey
        rw [PodSet.contains_congr hkey, contains_buildLivePodSet.mpr h.1] at hstale
        cases hstale
      · obtain ⟨pod, hmissing, rfl⟩ := List.mem_map.mp hnext
        obtain ⟨object, hobject, hlive⟩ := mem_buildLivePodSet (mem_missing.mp hmissing).1
        exact (h.2 object hobject).of_liveAs hlive

/-- The URL of `home` is not removed. -/
theorem Spares.write_remove {sec : PodSection} (h : sec.Spares env.config home) {pool : Pool}
    {url : String} (hwrite : sec.write env = some (.remove pool url)) : url ≠ env.workerUrl home := by
  cases sec with
  | evict pod old =>
      cases hwrite
      exact PodInfo.Apart.workerUrl_ne h _
  | remove pod =>
      cases hwrite
      exact PodInfo.Apart.workerUrl_ne h _
  | dropStale pod =>
      cases hwrite
      exact PodInfo.Apart.workerUrl_ne h _
  | track order pod => cases hwrite
  | add pod => cases hwrite
  | delete pod => cases hwrite
  | untrackStale pod => cases hwrite
  | diff order podList => cases hwrite

end Discovery.PodSection

/-- The object is in the pool, under the URL. -/
structure Fleet.Lists (fleet : Fleet) (pool : Pool) (url : String) (ref : Nat) : Prop where
  mem : ref ∈ fleet.pools pool
  url : (fleet.worker ref).url = url

namespace Fleet.Lists

variable {fleet : Fleet} {pool other : Pool} {url otherUrl : String} {ref : Nat}

theorem addWorker (h : fleet.Lists pool url ref) (other : Pool) (otherUrl : String) :
    (fleet.addWorker other otherUrl).Lists pool url ref := by
  have href := fleet.allocated pool ref h.mem
  refine ⟨?_, by rw [fleet.worker_addWorker other otherUrl ref href, h.url]⟩
  unfold Fleet.addWorker
  split
  · exact h.mem
  · rw [fleet.pools_push]
    by_cases hpool : pool = other
    · subst hpool
      rw [Function.update_self]
      exact List.mem_append_left _ h.mem
    · rw [Function.update_of_ne hpool]
      exact h.mem

theorem removeWorker (h : fleet.Lists pool url ref) (other : Pool) (hurl : otherUrl ≠ url) :
    (fleet.removeWorker other otherUrl).Lists pool url ref := by
  refine ⟨?_, h.url⟩
  rw [fleet.pools_removeWorker]
  by_cases hpool : pool = other
  · subst hpool
    rw [Function.update_self, List.mem_filter, bne_iff_ne, h.url]
    exact ⟨h.mem, hurl.symm⟩
  · rw [Function.update_of_ne hpool]
    exact h.mem

theorem unmoved {s t : Monitor} (h : s.fleet.Lists pool url ref) (hkept : Monitor.Unmoved s t) :
    t.fleet.Lists pool url ref where
  mem := by rw [hkept.pools]; exact h.mem
  url := (hkept.urls ref).trans h.url

end Fleet.Lists

namespace Gateway

/-- The pod is tracked and its worker is in its pool, and nothing is going on that concerns it. -/
structure Houses (config : Config) (home : PodInfo) (ref : Nat) (g : Gateway) : Prop where
  tracked : g.tracked.Houses home
  lists : g.deployment.monitor.fleet.Lists (config.discoveryEnv.selectPool home)
    (config.discoveryEnv.workerUrl home) ref
  watcher : ∀ sec ∈ g.watcher, sec.Spares config.discoveryConfig home
  reconciler : ∀ sec ∈ g.reconciler, sec.Spares config.discoveryConfig home

/-- What the API server reports in a step spares `home`, and a list that it gives has `home` on it. -/
def Undisturbed (config : Config) (home : PodInfo) (g g' : Gateway) : Prop :=
  (∀ reported, g'.seen = reported ++ g.seen →
    ∀ pod ∈ reported, pod.Spares config.discoveryConfig home) ∧
  ∀ order podList, g.reconciler = [] → g'.reconciler = [.diff order podList] →
    home.ListedOn config.discoveryConfig podList

/-- A step of the gateway that leaves the pod undisturbed. -/
def QuietStep {ι α : Type} (config : Config) (body : ι → Handler α) (home : PodInfo)
    (s t : Programs.System router Gateway ι α) : Prop :=
  Programs.Step (machine config) body s t ∧ Undisturbed config home s.shared t.shared

variable {config : Config} {home : PodInfo} {ref : Nat} {g g' : Gateway}

theorem Houses.runSection (h : g.Houses config home ref) {sec : PodSection}
    (hsec : sec.Spares config.discoveryConfig home) :
    (g.runSection config.discoveryEnv sec).1.tracked.Houses home ∧
      (g.runSection config.discoveryEnv sec).1.deployment.monitor.fleet.Lists
        (config.discoveryEnv.selectPool home) (config.discoveryEnv.workerUrl home) ref ∧
      ∀ next ∈ (g.runSection config.discoveryEnv sec).2,
        next.Spares config.discoveryConfig home := by
  have hspares : sec.Spares config.discoveryEnv.config home := hsec
  obtain ⟨htracked, hnext⟩ := hspares.run (s := g.discovery) h.tracked
  refine ⟨htracked, ?_, hnext⟩
  change (g.deployment.after (sec.write config.discoveryEnv)).monitor.fleet.Lists _ _ ref
  cases hwrite : sec.write config.discoveryEnv with
  | none => exact h.lists
  | some write =>
      cases write with
      | add pool url => exact h.lists.addWorker pool url
      | remove pool url => exact h.lists.removeWorker pool (hsec.write_remove hwrite)

theorem Houses.moves (h : g.Houses config home ref) (hmoves : Moves config g g')
    (hquiet : Undisturbed config home g g') : g'.Houses config home ref := by
  cases hmoves with
  | health hstep => exact ⟨h.tracked, h.lists.unmoved hstep.unmoved, h.watcher, h.reconciler⟩
  | watch hk8s hidle order pod =>
      have hpod := hquiet.1 [pod] rfl pod List.mem_cons_self
      exact ⟨h.tracked, h.lists, PodSection.spares_watchObject order hpod, h.reconciler⟩
  | list hk8s hidle order podList =>
      have hlisted := hquiet.2 order podList hidle rfl
      refine ⟨h.tracked, h.lists, h.watcher, List.forall_mem_singleton.mpr ⟨hlisted, ?_⟩⟩
      exact hquiet.1 podList rfl
  | @watcher sec rest htask =>
      have hall := h.watcher
      rw [htask, List.forall_mem_cons] at hall
      obtain ⟨htracked, hlists, hnext⟩ := h.runSection hall.1
      exact ⟨htracked, hlists, List.forall_mem_append.mpr ⟨hnext, hall.2⟩, h.reconciler⟩
  | @reconciler sec rest htask =>
      have hall := h.reconciler
      rw [htask, List.forall_mem_cons] at hall
      obtain ⟨htracked, hlists, hnext⟩ := h.runSection hall.1
      exact ⟨htracked, hlists, h.watcher, List.forall_mem_append.mpr ⟨hnext, hall.2⟩⟩

theorem Houses.exec (h : g.Houses config home ref) {op : RouterOp} {result : op.Result}
    (hexec : (machine config).exec op g result g') : g'.Houses config home ref := by
  obtain ⟨s, ⟨-, hmonitor⟩, rfl⟩ := hexec
  refine ⟨h.tracked, ?_, h.watcher, h.reconciler⟩
  change s.monitor.fleet.Lists _ _ ref
  rw [hmonitor]
  exact h.lists

variable {ι α : Type} {body : ι → Handler α} {app : AppState}
  {s t : Programs.System router Gateway ι α}

/-- As long as the API server goes on reporting a pod, and no other one under its name or address, the
pod is tracked and its worker stays in its pool, the same object all the time. So a selection returns
none only if the last probe of this very worker has failed. -/
theorem houses_while_undisturbed (hbuild : config.buildState = .ok app)
    (hs : Runs.Reachable (· = .start (start config app)) (Programs.Step (machine config) body) s)
    (h : s.shared.Houses config home ref)
    (hrun : Relation.ReflTransGen (QuietStep config body home) s t) :
    home ∈ t.shared.tracked ∧
      ref ∈ t.shared.deployment.monitor.fleet.pools (config.discoveryEnv.selectPool home) ∧
      (t.shared.deployment.monitor.fleet.worker ref).url = config.discoveryEnv.workerUrl home ∧
      ∀ ctx g', (machine config).exec (.next (config.discoveryEnv.selectPool home) ctx)
          t.shared none g' →
        ∃ probe, t.shared.deployment.monitor.lastProbe ref = some probe ∧
          probe.healthy = false := by
  have hhouses : t.shared.Houses config home ref := by
    induction hrun with
    | refl => exact h
    | tail _ hlast ih =>
        exact Programs.shared_of_step hlast.1 ih (fun hmoves => ih.moves hmoves hlast.2)
          fun _ _ _ _ h hexec => h.exec hexec
  refine ⟨hhouses.tracked.mem, hhouses.lists.mem, hhouses.lists.url, fun ctx g' hexec => ?_⟩
  obtain ⟨u, hnext, -⟩ := hexec
  have hreachable := hs.append (Relation.ReflTransGen.mono (fun _ _ hstep => hstep.1) _ _ hrun)
  exact (Deployment.checked_of_reachable hbuild (refines.reachable (.start hbuild) hreachable).1
    ).failed_of_next hnext ref hhouses.lists.mem

theorem QuietStep.list (hk8s : config.hasK8sEnabled = true) (hidle : s.shared.reconciler = [])
    (order : HashOrder) {podList : List Pod}
    (hspares : ∀ pod ∈ podList, pod.Spares config.discoveryConfig home)
    (hlisted : home.ListedOn config.discoveryConfig podList) :
    QuietStep config body home s
      { s with
        shared :=
          { s.shared with reconciler := [.diff order podList], seen := podList ++ s.shared.seen } } := by
  refine ⟨.moves (.list hk8s hidle order podList), fun reported hseen => ?_, fun other otherList => ?_⟩
  · rwa [← List.append_cancel_right hseen]
  · intro _ hdiff
    obtain ⟨-, rfl⟩ := PodSection.diff.inj (List.singleton_inj.mp hdiff)
    exact hlisted

theorem QuietStep.reconciler {sec : PodSection} {rest : List PodSection}
    (htask : s.shared.reconciler = sec :: rest) :
    QuietStep config body home s
      { s with
        shared :=
          { (s.shared.runSection config.discoveryEnv sec).1 with
            reconciler := (s.shared.runSection config.discoveryEnv sec).2 ++ rest } } := by
  refine ⟨.moves (.reconciler htask), fun reported hseen pod hmem => ?_, fun _ _ hidle => ?_⟩
  · rw [List.self_eq_append_left.mp hseen] at hmem
    exact (List.not_mem_nil hmem).elim
  · cases htask.symm.trans hidle

/-- The pod is on the list of a reconciliation, which finds nothing to do. -/
theorem houses_while_undisturbed_listed :
    ∃ t : Programs.System router Gateway Unit Unit,
      t.shared.seen = [readyPod, readyPod] ∧ t.shared.reconciler = [] ∧
      readyInfo ∈ t.shared.tracked ∧ 0 ∈ t.shared.deployment.monitor.fleet.pools .regular := by
  obtain ⟨app, hbuild⟩ : ∃ app, podConfig.buildState = .ok app := ⟨_, rfl⟩
  have hstart : Runs.Reachable (· = .start (start podConfig app))
      (Programs.Step (machine podConfig) fun _ : Unit => (pure () : Handler Unit))
        (.start (start podConfig app)) := .of_start rfl
  have hwatched := hstart.tail (.moves (.watch rfl rfl listOrder readyPod))
  have htracked := hwatched.tail (.moves (.watcher watchObject_readyPod))
  have hadded := htracked.tail (.moves (.watcher rfl))
  have hlive : LiveAs podConfig.discoveryConfig readyPod readyInfo := by
    refine ⟨?_, rfl, rfl⟩
    decide +kernel
  have hspares : readyPod.Spares podConfig.discoveryConfig readyInfo := by
    intro info hincluded hinfo
    obtain rfl := Option.some.inj (hlive.2.2.symm.trans hinfo)
    exact Or.inr ⟨rfl, rfl⟩
  have hlisted : readyInfo.ListedOn podConfig.discoveryConfig [readyPod] :=
    ⟨readyPod, List.mem_cons_self, readyInfo, hlive, rfl⟩
  obtain ⟨hmem, hpool, -, -⟩ := houses_while_undisturbed hbuild hadded
    ⟨⟨List.mem_cons_self, List.forall_mem_singleton.mpr (Or.inl rfl)⟩,
      ⟨show 0 ∈ _ from List.mem_cons_self, rfl⟩, fun _ hsec => (List.not_mem_nil hsec).elim,
      fun _ hsec => (List.not_mem_nil hsec).elim⟩
    (.tail (.single (.list rfl rfl listOrder (List.forall_mem_singleton.mpr hspares) hlisted))
      (.reconciler rfl))
  exact ⟨_, rfl, rfl, hmem, hpool⟩

end Gateway

end TokenDog
