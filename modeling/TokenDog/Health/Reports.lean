import TokenDog.Config.Auth
import TokenDog.Health.Selections

/-!
# Finished rounds and the health endpoint

What a finished round has done to every worker, and what `GET /health` says about it. The endpoint
reads the fixed workers of the regular mode only: prefill workers and discovered ones are not in its
answer.
-/

namespace TokenDog

/-- The workers a static deployment was configured with. -/
def Config.urlsOf (config : Config) (pool : Pool) : List String :=
  match config.pdMode with
  | some _ => if pool = .prefill then config.prefillUrls else config.decodeUrls
  | none => if pool = .regular then config.workerUrls else []

theorem Config.urls_fleet {config : Config} (hk8s : config.hasK8sEnabled = false) (pool : Pool) :
    (config.fleet.pools pool).map (fun ref => (config.fleet.worker ref).url) = config.urlsOf pool := by
  have hview : (config.fleet.pools pool).map (fun ref => (config.fleet.worker ref).url) =
      (config.fleet.view pool).map Worker.url := (List.map_map ..).symm
  have hurls : ∀ urls, (Worker.fromUrls urls).map Worker.url = urls := fun urls => by
    rw [Worker.fromUrls, List.map_map]
    exact List.map_id urls
  rw [hview, Config.fleet, hk8s, if_neg Bool.false_ne_true, Config.urlsOf]
  cases config.pdMode with
  | some pdMode =>
      cases pool with
      | prefill => exact (congrArg _ (Fleet.view_staticPd_prefill _ _)).trans (hurls _)
      | regular => exact (congrArg _ (Fleet.view_staticPd_decode _ _)).trans (hurls _)
      | decode => exact (congrArg _ (Fleet.view_staticPd_decode _ _)).trans (hurls _)
  | none =>
      cases pool with
      | regular => exact (congrArg _ (Fleet.map_range_new _)).trans (hurls _)
      | prefill => rfl
      | decode => rfl

namespace AppState

variable {app app' : AppState}

@[simp]
theorem workers_setBalancer (app : AppState) (pool : Pool) (balancer : Balancer) :
    (app.setBalancer pool balancer).workers = app.workers := by
  cases pool <;> cases h : app.k8sMode <;> simp [setBalancer, h]

@[simp]
theorem workers_updatePool (app : AppState) (pool : Pool) (f : List Worker → List Worker) :
    (app.updatePool pool f).workers = app.workers := by
  cases pool <;> rfl

theorem workers_of_exec {op : RouterOp} {result : op.Result}
    (h : machine.exec op app result app') : app'.workers = app.workers := by
  rcases stored_of_exec h with ⟨rfl, -⟩ | ⟨pool, -, balancer, -, -, -, rfl⟩
  · rfl
  · exact workers_setBalancer app pool balancer

theorem K8sStart.workers (h : app.K8sStart) : app.workers = [] := by
  cases h with
  | regular hnew =>
      simp only [newK8s, bind_eq_ok] at hnew
      obtain ⟨fallback, -, balancer, -, hnew⟩ := hnew
      cases hnew
      rfl
  | pd hnew =>
      simp only [newK8sPd, bind_eq_ok] at hnew
      obtain ⟨prefill, -, decode, -, hnew⟩ := hnew
      cases hnew
      rfl

theorem StaticStart.k8sMode {allowed : Policy → Prop} (h : app.StaticStart allowed) :
    app.k8sMode = false := by
  cases h with
  | regular _ _ hnew =>
      unfold AppState.new at hnew
      split at hnew <;> cases hnew
      rfl
  | pd _ _ _ _ hnew =>
      unfold AppState.newPd at hnew
      split at hnew <;> [cases hnew; split at hnew] <;> cases hnew
      rfl

end AppState

namespace Deployment

/-- The workers of a static deployment stay where they are; a Kubernetes deployment has no workers of
its own. -/
structure Settled (config : Config) (s : Deployment) : Prop where
  k8sMode : s.app.k8sMode = config.hasK8sEnabled
  idle : config.hasK8sEnabled = true → s.app.workers = []
  pools : config.hasK8sEnabled = false → s.monitor.fleet.pools = config.fleet.pools
  urls : config.hasK8sEnabled = false →
    ∀ ref, (s.monitor.fleet.worker ref).url = (config.fleet.worker ref).url

variable {config : Config} {s t : Deployment}

theorem Settled.exec (h : s.Settled config) {op : RouterOp} {result : op.Result}
    (hexec : machine.exec op s result t) : t.Settled config where
  k8sMode := (AppState.SameWorkers.of_exec hexec.1).k8sMode_eq.trans h.k8sMode
  idle hk8s := (AppState.workers_of_exec hexec.1).trans (h.idle hk8s)
  pools hk8s := by rw [hexec.2]; exact h.pools hk8s
  urls hk8s := by rw [hexec.2]; exact h.urls hk8s

theorem Settled.moves (h : s.Settled config) (hmoves : Moves s t) : t.Settled config := by
  cases hmoves with
  | health hstep =>
      refine ⟨h.k8sMode, fun hk8s => ?_, fun hk8s => ?_, fun hk8s ref => ?_⟩
      · change setFlags _ s.app.workers = []
        rw [h.idle hk8s]
        rfl
      · exact hstep.unmoved.pools.trans (h.pools hk8s)
      · exact (hstep.unmoved.urls ref).trans (h.urls hk8s ref)
  | add hdynamic url =>
      have henabled : config.hasK8sEnabled = true := h.k8sMode.symm.trans hdynamic.1
      refine ⟨?_, fun hk8s => ?_, fun hk8s => ?_, fun hk8s => ?_⟩
      · exact (AppState.k8sMode_updatePool _ _ _).trans h.k8sMode
      · exact (AppState.workers_updatePool _ _ _).trans (h.idle hk8s)
      all_goals cases hk8s.symm.trans henabled
  | remove hdynamic url =>
      have henabled : config.hasK8sEnabled = true := h.k8sMode.symm.trans hdynamic.1
      refine ⟨?_, fun hk8s => ?_, fun hk8s => ?_, fun hk8s => ?_⟩
      · exact (AppState.k8sMode_updatePool _ _ _).trans h.k8sMode
      · exact (AppState.workers_updatePool _ _ _).trans (h.idle hk8s)
      all_goals cases hk8s.symm.trans henabled

theorem Settled.start {app : AppState} (hbuild : config.buildState = .ok app) :
    (Deployment.start config app).Settled config := by
  refine ⟨?_, fun hk8s => ?_, fun _ => rfl, fun _ _ => rfl⟩
  · rcases Config.starts_of_buildState hbuild with ⟨hk8s, hstart⟩ | ⟨hk8s, hstart⟩
    · rw [hk8s]
      exact hstart.paired.1
    · rw [hk8s]
      exact hstart.k8sMode
  · rcases Config.starts_of_buildState hbuild with ⟨-, hstart⟩ | ⟨hdisabled, -⟩
    · exact hstart.workers
    · cases hk8s.symm.trans hdisabled

section Runs

variable {ι α : Type} {body : ι → Handler α} {app : AppState}
  {s : Programs.System router Deployment ι α}

theorem settled_of_reachable (hbuild : config.buildState = .ok app)
    (hs : Runs.Reachable (· = .start (start config app)) (Programs.Step machine body) s) :
    s.shared.Settled config :=
  Programs.shared_of_reachable (fun _ _ h hmoves => h.moves hmoves)
    (fun _ _ _ _ h hexec => h.exec hexec) (.start hbuild) hs

/-- When a round is over, every worker that was in a pool before it began and still is has been asked
in it, under its own health URL, and carries the outcome of the last time it was asked. -/
theorem probed_of_sleeping (hbuild : config.buildState = .ok app)
    (hs : Runs.Reachable (· = .start (start config app)) (Programs.Step machine body) s)
    (htask : s.shared.monitor.task = .sleeping) {pool : Pool} {ref : Nat}
    (hmem : ref ∈ s.shared.monitor.fleet.pools pool) (hbegun : ref < s.shared.monitor.begun) :
    ∃ probe ∈ s.shared.monitor.round, s.shared.monitor.lastProbe ref = some probe ∧
      probe.url = healthUrl (s.shared.monitor.fleet.worker ref).url ∧
        s.shared.monitor.fleet.isHealthy ref = probe.healthy := by
  obtain ⟨-, hsound⟩ := checked_of_reachable hbuild hs
  obtain ⟨probe, hround, hlast, hflag⟩ := hsound.of_sleeping htask hmem hbegun
  have hself : probe.ref = ref := by
    have hfound := List.find?_some hlast
    exact beq_iff_eq.mp hfound
  have hurl := (hsound.probed probe (List.mem_append_left _ hround)).2
  exact ⟨probe, hround, hlast, by rw [hurl, hself], hflag⟩

theorem orderly_of_reachable (hbuild : config.buildState = .ok app)
    (hk8s : config.hasK8sEnabled = false)
    (hs : Runs.Reachable (· = .start (start config app)) (Programs.Step machine body) s) :
    s.shared.monitor.Orderly config.fleet.pools := by
  refine (Programs.shared_of_reachable (P := fun t =>
    t.Settled config ∧ t.monitor.Orderly config.fleet.pools) ?_ ?_ ⟨.start hbuild, .start _⟩ hs).2
  · rintro s t ⟨hsettled, horderly⟩ hmoves
    refine ⟨hsettled.moves hmoves, ?_⟩
    cases hmoves with
    | health hstep => exact horderly.taskStep hstep
    | add hdynamic url => cases hk8s.symm.trans (hsettled.k8sMode.symm.trans hdynamic.1)
    | remove hdynamic url => cases hk8s.symm.trans (hsettled.k8sMode.symm.trans hdynamic.1)
  · rintro op result s t ⟨hsettled, horderly⟩ hexec
    exact ⟨hsettled.exec hexec, hexec.2 ▸ horderly⟩

/-- `GET /health` lists the workers of the regular pool of a static deployment as configured, each
with the outcome of the last time it was asked, and no worker in Kubernetes mode. Between two rounds,
all workers of a static deployment have been asked in the order of the pools. -/
theorem health_reports_last_probe (hbuild : config.buildState = .ok app)
    (hs : Runs.Reachable (· = .start (start config app)) (Programs.Step machine body) s) :
    (config.hasK8sEnabled = true → healthHandler s.shared.app.workers = healthHandler []) ∧
      (config.hasK8sEnabled = false →
        healthHandler s.shared.app.workers =
            healthHandler (List.zipWith Worker.mk (config.urlsOf .regular)
              ((config.fleet.pools .regular).map s.shared.monitor.verdict)) ∧
          (s.shared.monitor.task = .sleeping → s.shared.monitor.round ≠ [] →
            (s.shared.monitor.round.map Probe.url).reverse =
              (Monitor.poolsInOrder.flatMap config.urlsOf).map healthUrl)) := by
  have hsettled := settled_of_reachable hbuild hs
  obtain ⟨hshows, hsound⟩ := checked_of_reachable hbuild hs
  refine ⟨fun hk8s => ?_, fun hk8s => ⟨?_, fun htask hround => ?_⟩⟩
  · rw [hsettled.idle hk8s]
  · have hworkers : s.shared.app.workers = s.shared.monitor.fleet.view .regular := by
      have hview := hshows.views .regular
      have hmode : s.shared.app.k8sMode = false := hsettled.k8sMode.trans hk8s
      simpa [AppState.workersOf, hmode] using hview
    rw [hworkers, Fleet.view, hsettled.pools hk8s, ← config.urls_fleet hk8s, List.zipWith_map,
      List.zipWith_self]
    congr 1
    refine List.map_congr_left fun ref hmem => ?_
    rw [← hsettled.urls hk8s ref]
    rw [← hsettled.pools hk8s] at hmem
    rw [← hsound.flags ref (s.shared.monitor.fleet.allocated .regular ref hmem)]
    rfl
  · have horderly := (orderly_of_reachable hbuild hk8s hs).round
    rw [htask] at horderly
    have hrefs : (s.shared.monitor.round.map Probe.ref).reverse =
        Monitor.probesOf config.fleet.pools := horderly.resolve_left fun h => hround h.1
    calc (s.shared.monitor.round.map Probe.url).reverse
      _ = (s.shared.monitor.round.map Probe.ref).reverse.map
            fun ref => healthUrl (config.fleet.worker ref).url := by
          rw [← List.map_reverse, ← List.map_reverse, List.map_map]
          refine List.map_congr_left fun probe hmem => ?_
          have hprobed := (hsound.probed probe
            (List.mem_append_left _ (List.mem_reverse.mp hmem))).2
          rw [hprobed, hsettled.urls hk8s]
          rfl
      _ = (Monitor.poolsInOrder.flatMap config.urlsOf).map healthUrl := by
          rw [hrefs, Monitor.probesOf, List.map_flatMap, List.map_flatMap]
          congr 1
          funext pool
          rw [← config.urls_fleet hk8s pool, List.map_map]
          rfl

end Runs

theorem probed_of_sleeping_failed_round :
    ∃ s : Deployment, s.monitor.task = .sleeping ∧
      ∃ probe ∈ s.monitor.round, s.monitor.lastProbe 0 = some probe ∧
        probe.url = healthUrl (s.monitor.fleet.worker 0).url ∧
          s.monitor.fleet.isHealthy 0 = probe.healthy := by
  obtain ⟨app, hbuild, s, hs, htask, hbegun, hpools, -⟩ :=
    exists_failed_round fun _ : Unit => (pure () : Handler Unit)
  refine ⟨s, htask, @probed_of_sleeping _ _ _ _ _ _ hbuild hs htask .regular 0 ?_ ?_⟩
  · change 0 ∈ s.monitor.fleet.pools .regular
    rw [hpools]
    exact List.mem_cons_self
  · change 0 < s.monitor.begun
    rw [hbegun]
    exact Nat.two_pos

theorem health_reports_last_probe_failed_round :
    ∃ s : Deployment, healthHandler s.app.workers =
        healthHandler [⟨"http://a:8000", false⟩, ⟨"http://b:8000", true⟩] ∧
      (s.monitor.round.map Probe.url).reverse =
        (Monitor.poolsInOrder.flatMap pairConfig.urlsOf).map healthUrl := by
  obtain ⟨app, hbuild, s, hs, htask, -, -, hround, hflags, -⟩ :=
    exists_failed_round fun _ : Unit => (pure () : Handler Unit)
  obtain ⟨hreport, hprobes⟩ := (health_reports_last_probe hbuild hs).2 rfl
  refine ⟨s, ?_, hprobes htask fun hempty => ?_⟩
  · refine hreport.trans ?_
    change healthHandler (List.zipWith Worker.mk (pairConfig.urlsOf .regular)
      [s.monitor.verdict 0, s.monitor.verdict 1]) = _
    rw [hflags.1, hflags.2]
    rfl
  · change s.monitor.round = [] at hempty
    rw [hempty] at hround
    cases hround

end Deployment

end TokenDog
