import TokenDog.Discovery.Watcher
import TokenDog.Health.Reports

/-!
# The gateway

Everything that runs at once over one application state: the handlers, the health check task, and the
two tasks of service discovery. A run of the gateway is a run of its deployment, in which the updates
of the pools are the sections of those two tasks.
-/

namespace TokenDog

open Discovery (PodSection PoolWrite Admitted Included watchObject)

namespace Deployment

def write (s : Deployment) : PoolWrite → Deployment
  | .add pool url =>
      ⟨s.app.updatePool pool (addWorkerToPool · url), s.monitor.addWorker pool url⟩
  | .remove pool url =>
      ⟨s.app.updatePool pool (removeWorkerFromPool · url), s.monitor.removeWorker pool url⟩

def after (s : Deployment) (write : Option PoolWrite) : Deployment := (write.map s.write).getD s

theorem view_write (s : Deployment) (write : PoolWrite) :
    (s.write write).monitor.fleet.view = write.perform s.monitor.fleet.view := by
  cases write with
  | add pool url => exact Fleet.view_addWorker _ pool url
  | remove pool url => exact Fleet.view_removeWorker _ pool url

end Deployment

/-- A deployment with the two tasks of service discovery. The pods that the API server has reported
are kept as a history. -/
structure Gateway where
  deployment : Deployment
  tracked : PodSet
  watcher : List PodSection
  reconciler : List PodSection
  seen : List Pod

namespace Gateway

/-- What service discovery reads and writes. -/
def discovery (g : Gateway) : Discovery := ⟨g.tracked, g.deployment.monitor.fleet.view⟩

def runSection (env : DiscoveryEnv) (g : Gateway) (sec : PodSection) : Gateway × List PodSection :=
  let (s, next) := sec.run env g.discovery
  ({ g with deployment := g.deployment.after (sec.write env), tracked := s.tracked }, next)

/-- A section does to the gateway what it does to service discovery alone. -/
theorem discovery_runSection (env : DiscoveryEnv) (g : Gateway) (sec : PodSection) :
    (g.runSection env sec).1.discovery = (sec.run env g.discovery).1 := by
  have hpools := PodSection.pools_run env sec g.discovery
  have hview : (g.deployment.after (sec.write env)).monitor.fleet.view =
      (sec.run env g.discovery).1.pools := by
    rw [hpools]
    cases hwrite : sec.write env with
    | none => rfl
    | some write => exact Deployment.view_write _ write
  exact congrArg (Discovery.mk (sec.run env g.discovery).1.tracked) hview

inductive Moves (config : Config) : Gateway → Gateway → Prop where
  | health {g : Gateway} {monitor : Monitor}
      (h : Monitor.TaskStep g.deployment.monitor monitor) :
      Moves config g
        { g with deployment := ⟨g.deployment.app.setHealth monitor.fleet.flags, monitor⟩ }
  /-- The watcher takes up the next object of its stream. -/
  | watch {g : Gateway} (hk8s : config.hasK8sEnabled = true) (hidle : g.watcher = [])
      (order : HashOrder) (pod : Pod) :
      Moves config g
        { g with watcher := watchObject config.discoveryEnv order pod, seen := pod :: g.seen }
  /-- The API server answers the list call of a reconciliation. -/
  | list {g : Gateway} (hk8s : config.hasK8sEnabled = true) (hidle : g.reconciler = [])
      (order : HashOrder) (podList : List Pod) :
      Moves config g { g with reconciler := [.diff order podList], seen := podList ++ g.seen }
  | watcher {g : Gateway} {sec : PodSection} {rest : List PodSection}
      (htask : g.watcher = sec :: rest) :
      Moves config g
        { (g.runSection config.discoveryEnv sec).1 with
          watcher := (g.runSection config.discoveryEnv sec).2 ++ rest }
  | reconciler {g : Gateway} {sec : PodSection} {rest : List PodSection}
      (htask : g.reconciler = sec :: rest) :
      Moves config g
        { (g.runSection config.discoveryEnv sec).1 with
          reconciler := (g.runSection config.discoveryEnv sec).2 ++ rest }

def machine (config : Config) : Programs.Machine router Gateway where
  exec op g result g' :=
    ∃ s, Deployment.machine.exec op g.deployment result s ∧ g' = { g with deployment := s }
  panics op g := Deployment.machine.panics op g.deployment
  moves := Moves config

def start (config : Config) (app : AppState) : Gateway :=
  ⟨.start config app, .empty, [], [], []⟩

/-- A pool that discovery fills exists, and nothing else does. -/
def Equipped (config : Config) (app : AppState) : Prop :=
  app.k8sMode = true ∧ ∀ pool, (app.workersOf pool).isSome = true ↔
    (pool = .regular ↔ config.pdMode = none)

/-- A worker of the pool stands for a pod that was admitted to it. -/
def Placed (config : Config) (seen : List Pod) (pool : Pool) (url : String) : Prop :=
  ∃ info, Admitted config.discoveryConfig seen info ∧
    config.discoveryEnv.selectPool info = pool ∧ config.discoveryEnv.workerUrl info = url

structure Discovering (config : Config) (g : Gateway) : Prop where
  equipped : config.hasK8sEnabled = true → Equipped config g.deployment.app
  idle : config.hasK8sEnabled = false → g.watcher = [] ∧ g.reconciler = []
  tracked : ∀ pod ∈ g.tracked, Admitted config.discoveryConfig g.seen pod
  watcher : ∀ sec ∈ g.watcher, sec.Sourced config.discoveryConfig g.seen
  reconciler : ∀ sec ∈ g.reconciler, sec.Sourced config.discoveryConfig g.seen
  placed : config.hasK8sEnabled = true → ∀ pool, ∀ worker ∈ g.discovery.pools pool,
    Placed config g.seen pool worker.url

variable {config : Config} {g g' : Gateway}

theorem Placed.mono {seen seen' : List Pod} {pool : Pool} {url : String}
    (h : Placed config seen pool url) (hsub : seen ⊆ seen') : Placed config seen' pool url := by
  obtain ⟨info, hadmitted, hplace⟩ := h
  exact ⟨info, hadmitted.mono hsub, hplace⟩

/-- An included pod goes to a pool of the mode. -/
theorem selectPool_of_included {seen : List Pod} {info : PodInfo}
    (h : Included config.discoveryConfig seen info) :
    config.discoveryEnv.selectPool info = .regular ↔ config.pdMode = none := by
  obtain ⟨pod, -, hincluded, hinfo⟩ := h
  cases hmode : config.pdMode with
  | none =>
      have hpd : config.discoveryConfig.pdMode = false := by
        rw [Config.discoveryConfig, hmode]
      simp [DiscoveryEnv.selectPool, Config.discoveryEnv, hpd]
  | some pdMode =>
      have hpd : config.discoveryConfig.pdMode = true := by
        rw [Config.discoveryConfig, hmode]
      have hpools : config.pdMode.isSome = true := by rw [hmode]; rfl
      have htype := ServiceDiscoveryConfig.podType_of_fromPod hpd hincluded hinfo
      have hplace : config.discoveryEnv.selectPool info = _ :=
        ServiceDiscoveryConfig.selectPool_of_podType hpd hpools hpools htype
      rw [hplace]
      refine iff_of_false ?_ (by simp)
      split <;> exact Pool.noConfusion

namespace Equipped

variable {app app' : AppState}

theorem of_exec (h : Equipped config app) {op : RouterOp} {result : op.Result}
    (hexec : TokenDog.machine.exec op app result app') : Equipped config app' := by
  have hsame := AppState.SameWorkers.of_exec hexec
  refine ⟨hsame.k8sMode_eq.trans h.1, ?_⟩
  rw [hsame.workersOf_eq]
  exact h.2

theorem setHealth (h : Equipped config app) (flags : Pool → Nat → Bool) :
    Equipped config (app.setHealth flags) := by
  refine ⟨h.1, fun pool => ?_⟩
  rw [AppState.workersOf_setHealth h.1, Option.isSome_map]
  exact h.2 pool

theorem updatePool (h : Equipped config app) (pool : Pool) (f : List Worker → List Worker) :
    Equipped config (app.updatePool pool f) := by
  refine ⟨(AppState.k8sMode_updatePool app pool f).trans h.1, fun other => ?_⟩
  rw [AppState.workersOf_updatePool h.1]
  by_cases hother : other = pool
  · subst hother
    rw [Function.update_self, Option.isSome_map]
    exact h.2 other
  · rw [Function.update_of_ne hother]
    exact h.2 other

theorem after {s : Deployment} (h : Equipped config s.app) (write : Option PoolWrite) :
    Equipped config (s.after write).app := by
  cases write with
  | none => exact h
  | some write =>
      cases write with
      | add pool url => exact h.updatePool pool _
      | remove pool url => exact h.updatePool pool _

/-- The pools of included pods are there to be written. -/
theorem dynamic (h : Equipped config app) {seen : List Pod} {info : PodInfo}
    (hinfo : Included config.discoveryConfig seen info) :
    app.Dynamic (config.discoveryEnv.selectPool info) :=
  ⟨h.1, (h.2 _).mpr (selectPool_of_included hinfo)⟩

theorem start {app : AppState} (hk8s : config.hasK8sEnabled = true)
    (hbuild : config.buildState = .ok app) : Equipped config app := by
  rw [Config.buildState, if_pos hk8s] at hbuild
  split at hbuild
  · rename_i pdMode hmode
    simp only [AppState.newK8sPd, bind_eq_ok] at hbuild
    obtain ⟨prefill, -, decode, -, hnew⟩ := hbuild
    cases hnew
    exact ⟨rfl, fun pool => by cases pool <;> simp [AppState.workersOf, hmode]⟩
  · rename_i hmode
    simp only [AppState.newK8s, bind_eq_ok] at hbuild
    obtain ⟨fallback, -, balancer, -, hnew⟩ := hbuild
    cases hnew
    exact ⟨rfl, fun pool => by cases pool <;> simp [AppState.workersOf, hmode]⟩

end Equipped

/-- What the tasks leave to do stays sourced when a section has run. -/
theorem Discovering.runSection (h : g.Discovering config) {sec : PodSection}
    (hsec : sec.Sourced config.discoveryConfig g.seen) :
    (∀ pod ∈ (g.runSection config.discoveryEnv sec).1.tracked,
        Admitted config.discoveryConfig g.seen pod) ∧
      (∀ next ∈ (g.runSection config.discoveryEnv sec).2,
        next.Sourced config.discoveryConfig g.seen) ∧
      (config.hasK8sEnabled = true →
        Equipped config (g.runSection config.discoveryEnv sec).1.deployment.app ∧
        ∀ pool, ∀ worker ∈ (g.runSection config.discoveryEnv sec).1.discovery.pools pool,
          Placed config g.seen pool worker.url) := by
  obtain ⟨htracked, hnext⟩ :=
    PodSection.Sourced.run config.discoveryEnv (s := g.discovery) hsec h.tracked
  refine ⟨htracked, hnext, fun hk8s => ⟨(h.equipped hk8s).after _, fun pool worker hmem => ?_⟩⟩
  rw [discovery_runSection, PodSection.pools_run] at hmem
  cases hwrite : sec.write config.discoveryEnv with
  | none =>
      rw [hwrite] at hmem
      exact h.placed hk8s pool worker hmem
  | some write =>
      rw [hwrite, Option.map_some, Option.getD_some] at hmem
      cases write with
      | add target url =>
          by_cases hpool : pool = target
          · subst hpool
            rw [PoolWrite.perform, Function.update_self] at hmem
            have hurl := mem_urls_addWorkerToPool.mp (List.mem_map_of_mem (f := Worker.url) hmem)
            rcases hurl with hold | hnew
            · obtain ⟨other, hother, hsame⟩ := List.mem_map.mp hold
              rw [← hsame]
              exact h.placed hk8s pool other hother
            · rw [hnew]
              exact PodSection.Sourced.write_add config.discoveryEnv hsec hwrite
          · rw [PoolWrite.perform, Function.update_of_ne hpool] at hmem
            exact h.placed hk8s pool worker hmem
      | remove target url =>
          by_cases hpool : pool = target
          · subst hpool
            rw [PoolWrite.perform, Function.update_self] at hmem
            exact h.placed hk8s pool worker (List.mem_of_mem_filter hmem)
          · rw [PoolWrite.perform, Function.update_of_ne hpool] at hmem
            exact h.placed hk8s pool worker hmem

theorem Discovering.start {app : AppState} (hbuild : config.buildState = .ok app) :
    (start config app).Discovering config where
  equipped hk8s := .start hk8s hbuild
  idle _ := ⟨rfl, rfl⟩
  tracked _ hpod := (List.not_mem_nil hpod).elim
  watcher _ hsec := (List.not_mem_nil hsec).elim
  reconciler _ hsec := (List.not_mem_nil hsec).elim
  placed hk8s pool worker hmem := by
    have hempty : config.fleet = .empty := if_pos hk8s
    change worker ∈ config.fleet.view pool at hmem
    rw [hempty] at hmem
    exact (List.not_mem_nil hmem).elim

theorem Discovering.with_deployment (h : g.Discovering config) {s : Deployment}
    (hequipped : config.hasK8sEnabled = true → Equipped config s.app)
    (hurls : ∀ pool, (s.monitor.fleet.view pool).map Worker.url =
      (g.deployment.monitor.fleet.view pool).map Worker.url) :
    Discovering config { g with deployment := s } where
  equipped := hequipped
  idle := h.idle
  tracked := h.tracked
  watcher := h.watcher
  reconciler := h.reconciler
  placed hk8s pool worker hmem := by
    have hurl : worker.url ∈ (g.deployment.monitor.fleet.view pool).map Worker.url := by
      rw [← hurls]
      exact List.mem_map_of_mem hmem
    obtain ⟨other, hother, hsame⟩ := List.mem_map.mp hurl
    rw [← hsame]
    exact h.placed hk8s pool other hother

theorem moves_after (h : g.Discovering config) (hk8s : config.hasK8sEnabled = true)
    {sec : PodSection} (hsec : sec.Sourced config.discoveryConfig g.seen) :
    g.deployment.after (sec.write config.discoveryEnv) = g.deployment ∨
      Deployment.Moves g.deployment (g.deployment.after (sec.write config.discoveryEnv)) := by
  cases hwrite : sec.write config.discoveryEnv with
  | none => exact Or.inl rfl
  | some write =>
      obtain ⟨info, hinfo, hplace⟩ :=
        PodSection.Sourced.write_pool config.discoveryEnv hsec hwrite
      have hdynamic := (h.equipped hk8s).dynamic hinfo
      rcases hplace with rfl | ⟨url, rfl⟩
      · exact Or.inr (.add hdynamic _)
      · exact Or.inr (.remove hdynamic _)

theorem Discovering.of_section (h : g.Discovering config) (hk8s : config.hasK8sEnabled = true)
    {sec : PodSection} (hsec : sec.Sourced config.discoveryConfig g.seen)
    {watcher reconciler : List PodSection}
    (hwatcher : ∀ next ∈ watcher, next.Sourced config.discoveryConfig g.seen)
    (hreconciler : ∀ next ∈ reconciler, next.Sourced config.discoveryConfig g.seen) :
    Discovering config
      { (g.runSection config.discoveryEnv sec).1 with watcher, reconciler } := by
  obtain ⟨htracked, -, hpools⟩ := h.runSection hsec
  obtain ⟨hequipped, hplaced⟩ := hpools hk8s
  refine ⟨fun _ => hequipped, fun hdisabled => ?_, htracked, hwatcher, hreconciler, fun _ => hplaced⟩
  cases hk8s.symm.trans hdisabled

/-- Without service discovery its tasks have nothing to run. -/
theorem Discovering.enabled (h : g.Discovering config) {sec : PodSection} {rest : List PodSection}
    (htask : g.watcher = sec :: rest ∨ g.reconciler = sec :: rest) : config.hasK8sEnabled = true := by
  cases hk8s : config.hasK8sEnabled with
  | true => rfl
  | false =>
      obtain ⟨hwatcher, hreconciler⟩ := h.idle hk8s
      rcases htask with htask | htask
      · cases hwatcher.symm.trans htask
      · cases hreconciler.symm.trans htask

theorem Discovering.moves (h : g.Discovering config) (hmoves : Moves config g g') :
    (g'.deployment = g.deployment ∨ Deployment.Moves g.deployment g'.deployment) ∧
      g'.Discovering config := by
  cases hmoves with
  | @health monitor hstep =>
      refine ⟨Or.inr (.health hstep), h.with_deployment (fun hk8s => ?_) fun pool => ?_⟩
      · exact (h.equipped hk8s).setHealth _
      · rw [Fleet.view, Fleet.view, List.map_map, List.map_map]
        cases hstep with
        | probe htask reply =>
            exact List.map_congr_left fun ref _ => Fleet.url_setHealthy _ _ _ ref
        | _ => rfl
  | watch hk8s hidle order pod =>
      have hsub : g.seen ⊆ pod :: g.seen := List.subset_cons_self _ _
      refine ⟨Or.inl rfl, h.equipped, fun hdisabled => ?_, ?_, ?_, ?_, ?_⟩
      · cases hk8s.symm.trans hdisabled
      · exact fun entry hentry => (h.tracked entry hentry).mono hsub
      · exact PodSection.sourced_watchObject config.discoveryEnv order pod
      · exact fun sec hsec => (h.reconciler sec hsec).mono hsub
      · exact fun hk8s pool worker hmem => (h.placed hk8s pool worker hmem).mono hsub
  | list hk8s hidle order podList =>
      have hsub : g.seen ⊆ podList ++ g.seen := List.subset_append_right _ _
      refine ⟨Or.inl rfl, h.equipped, fun hdisabled => ?_, ?_, ?_, ?_, ?_⟩
      · cases hk8s.symm.trans hdisabled
      · exact fun entry hentry => (h.tracked entry hentry).mono hsub
      · exact fun sec hsec => (h.watcher sec hsec).mono hsub
      · exact List.forall_mem_singleton.mpr (List.subset_append_left _ _)
      · exact fun hk8s pool worker hmem => (h.placed hk8s pool worker hmem).mono hsub
  | @watcher sec rest htask =>
      have hk8s := h.enabled (Or.inl htask)
      have hall := h.watcher
      rw [htask, List.forall_mem_cons] at hall
      refine ⟨moves_after h hk8s hall.1, h.of_section hk8s hall.1 ?_ h.reconciler⟩
      exact List.forall_mem_append.mpr ⟨(h.runSection hall.1).2.1, hall.2⟩
  | @reconciler sec rest htask =>
      have hk8s := h.enabled (Or.inr htask)
      have hall := h.reconciler
      rw [htask, List.forall_mem_cons] at hall
      refine ⟨moves_after h hk8s hall.1, h.of_section hk8s hall.1 h.watcher ?_⟩
      exact List.forall_mem_append.mpr ⟨(h.runSection hall.1).2.1, hall.2⟩

theorem refines : Programs.Refines (machine config) Deployment.machine Gateway.deployment
    (Discovering config) where
  exec op result g g' h hexec := by
    obtain ⟨s, hs, rfl⟩ := hexec
    refine ⟨hs, h.with_deployment (fun hk8s => (h.equipped hk8s).of_exec hs.1) fun pool => ?_⟩
    rw [hs.2]
  panics _ _ _ hpanics := hpanics
  moves _ _ h hmoves := h.moves hmoves

/-- Every run of the gateway is a run of its deployment, and service discovery holds only what
stands for pods that the API server has reported. -/
theorem deployment_of_reachable {ι α : Type} {body : ι → Handler α} {app : AppState}
    {s : Programs.System router Gateway ι α} (hbuild : config.buildState = .ok app)
    (hs : Runs.Reachable (· = .start (start config app)) (Programs.Step (machine config) body) s) :
    Runs.Reachable (· = .start (Deployment.start config app))
        (Programs.Step Deployment.machine body) (s.map Gateway.deployment) ∧
      s.shared.Discovering config :=
  refines.reachable (.start hbuild) hs

def podConfig : Config where
  workerUrls := []
  policy := .roundRobin
  pdMode := none
  prefillUrls := []
  decodeUrls := []
  logFile := none
  k8sSelector := ["app=vllm"]
  k8sPrefillSelector := []
  k8sDecodeSelector := []
  k8sPort := 8000

def readyPod : Pod where
  metadata := ⟨some "vllm-0", some "1", some [("app", "vllm")], none⟩
  status := some ⟨some "10.0.0.1", some "Running", some [⟨"Ready", "True"⟩]⟩

def readyInfo : PodInfo := ⟨"vllm-0", "1", "10.0.0.1", "Running", true, some .regular⟩

def listOrder : HashOrder := ⟨id, fun pods => .refl pods⟩

theorem watchObject_readyPod : watchObject podConfig.discoveryEnv listOrder readyPod =
    [.track listOrder readyInfo] := by
  have hincluded : PodInfo.shouldInclude readyPod podConfig.discoveryEnv.config = true := by
    decide +kernel
  rw [watchObject, if_pos hincluded]
  rfl

theorem exists_discovered_worker {ι α : Type} (body : ι → Handler α) :
    ∃ app, podConfig.buildState = .ok app ∧
      ∃ g g', Runs.Reachable (· = .start (start podConfig app))
          (Programs.Step (machine podConfig) body) (.start g) ∧
        g.seen = [readyPod] ∧
        (machine podConfig).exec (.next .regular ⟨"default", "default"⟩) g
          (some (0, podConfig.discoveryEnv.workerUrl readyInfo)) g' := by
  obtain ⟨app, hbuild⟩ : ∃ app, podConfig.buildState = .ok app := ⟨_, rfl⟩
  refine ⟨app, hbuild, ?_⟩
  have hfirst : Runs.Reachable (· = .start (start podConfig app))
      (Programs.Step (machine podConfig) body) (.start (start podConfig app)) := .of_start rfl
  cases hbuild
  have hwatched := hfirst.tail (.moves (.watch rfl rfl listOrder readyPod))
  have htracked := hwatched.tail (.moves (.watcher watchObject_readyPod))
  have hadded := htracked.tail (.moves (.watcher rfl))
  exact ⟨_, _, hadded, rfl, ⟨_, _⟩, ⟨⟨⟨fun _ => 0, 0⟩, rfl⟩, rfl⟩, rfl⟩

theorem deployment_of_reachable_readyPod :
    ∃ app, ∃ g : Gateway, podConfig.buildState = .ok app ∧ g.seen = [readyPod] ∧
      Runs.Reachable (· = .start (Deployment.start podConfig app))
        (Programs.Step Deployment.machine fun _ : Unit => (pure () : Handler Unit))
        (.start g.deployment) ∧ g.Discovering podConfig := by
  obtain ⟨app, hbuild, g, -, hs, hseen, -⟩ :=
    exists_discovered_worker fun _ : Unit => (pure () : Handler Unit)
  exact ⟨app, g, hbuild, hseen, deployment_of_reachable hbuild hs⟩

end Gateway

end TokenDog
