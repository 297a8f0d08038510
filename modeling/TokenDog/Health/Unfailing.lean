import TokenDog.Health.Reports

/-!
# Static pools while no probe fails

As long as no probe of its workers has failed, a pool of a static deployment is the pool it was
configured with, all healthy, so that its policy chooses among the configured workers themselves.
-/

namespace TokenDog

/-- The policy a static deployment starts a pool with. The fallback pool of the PD mode has a round
robin of its own. -/
def Config.policyOf (config : Config) (pool : Pool) : Option Policy :=
  match config.pdMode with
  | some _ => if pool = .regular then some .roundRobin else some config.policy
  | none => if pool = .regular then some config.policy else none

/-- The policies of a deployment at start-up are new. -/
theorem Config.balancerOf_buildState {config : Config} {app : AppState}
    (hk8s : config.hasK8sEnabled = false) (h : config.buildState = .ok app) (pool : Pool) :
    (config.policyOf pool = none ∧ app.balancerOf pool = none) ∨
      ∃ kind n balancer, config.policyOf pool = some kind ∧
        Balancer.makePolicy kind n = .ok balancer ∧ app.balancerOf pool = some balancer := by
  unfold Config.buildState at h
  rw [hk8s, if_neg Bool.false_ne_true] at h
  unfold Config.policyOf
  cases hmode : config.pdMode with
  | some pdMode =>
      right
      simp only [hmode] at h
      split at h
      · cases h
      split at h
      · cases h
      simp only [bind_eq_ok] at h
      obtain ⟨prefillPolicy, hprefill, decodePolicy, hdecode, hnew⟩ := h
      unfold AppState.newPd at hnew
      split at hnew <;> [cases hnew; split at hnew] <;> cases hnew
      cases pool with
      | regular => exact ⟨.roundRobin, 0, .roundRobin .new, rfl, rfl, rfl⟩
      | prefill => exact ⟨config.policy, _, prefillPolicy, rfl, hprefill, rfl⟩
      | decode => exact ⟨config.policy, _, decodePolicy, rfl, hdecode, rfl⟩
  | none =>
      simp only [hmode, bind_eq_ok] at h
      obtain ⟨balancer, hpolicy, hnew⟩ := h
      unfold AppState.new at hnew
      split at hnew <;> cases hnew
      cases pool with
      | regular => exact Or.inr ⟨config.policy, _, balancer, rfl, hpolicy, rfl⟩
      | prefill => exact Or.inl ⟨rfl, rfl⟩
      | decode => exact Or.inl ⟨rfl, rfl⟩

theorem Config.policyOf_buildState {config : Config} {app : AppState}
    (hk8s : config.hasK8sEnabled = false) (h : config.buildState = .ok app) (pool : Pool) :
    app.policyOf pool = config.policyOf pool := by
  rcases config.balancerOf_buildState hk8s h pool with
    ⟨hnone, hbalancer⟩ | ⟨kind, n, balancer, hkind, hmake, hbalancer⟩
  · rw [AppState.policyOf, hbalancer, hnone, Option.map_none]
  · rw [AppState.policyOf, hbalancer, hkind, Option.map_some, Balancer.policy_of_makePolicy hmake]

namespace Monitor

/-- No probe of a worker of the pool has failed. -/
def Unfailing (s : Monitor) (pool : Pool) : Prop :=
  ∀ probe ∈ s.round ++ s.earlier, probe.ref ∈ s.fleet.pools pool → probe.healthy = true

variable {s t : Monitor} {pool : Pool}

theorem Unfailing.verdict (h : s.Unfailing pool) {ref : Nat} (hmem : ref ∈ s.fleet.pools pool) :
    s.verdict ref = true := by
  unfold Monitor.verdict
  cases hlast : s.lastProbe ref with
  | none => rfl
  | some probe =>
      have hfound := List.find?_some hlast
      have hself : probe.ref = ref := beq_iff_eq.mp hfound
      exact h probe (List.mem_of_find?_eq_some hlast) (hself ▸ hmem)

/-- The task forgets no probe. -/
theorem TaskStep.probes_subset (h : TaskStep s t) :
    s.round ++ s.earlier ⊆ t.round ++ t.earlier := by
  cases h with
  | probe htask reply => exact List.subset_cons_self _ _
  | _ => exact List.Subset.refl _

theorem Unfailing.of_taskStep (h : t.Unfailing pool) (hstep : TaskStep s t) : s.Unfailing pool :=
  fun probe hmem hpool => h probe (hstep.probes_subset hmem) (hstep.unmoved.pools ▸ hpool)

end Monitor

theorem healthyWorkerUrls_fromUrls (urls : List String) (k : Nat) :
    (healthyWorkerUrls (Worker.fromUrls urls))[k]? = urls[k]?.map fun url => (k, url) := by
  have hhealthy : ∀ worker ∈ Worker.fromUrls urls, worker.healthy = true :=
    List.forall_mem_map.mpr fun _ _ => rfl
  rw [getElem?_healthyWorkerUrls_of_forall hhealthy, Worker.fromUrls, List.getElem?_map,
    Option.map_map]
  rfl

theorem map_snd_healthyWorkerUrls_fromUrls (urls : List String) :
    (healthyWorkerUrls (Worker.fromUrls urls)).map Prod.snd = urls := by
  apply List.ext_getElem?
  intro k
  rw [List.getElem?_map, healthyWorkerUrls_fromUrls, Option.map_map]
  exact Option.map_id_apply

namespace Deployment

variable {config : Config} {s t : Deployment} {pool : Pool}

/-- A static deployment in a state of a run. -/
structure Steady (config : Config) (s : Deployment) : Prop where
  checked : s.Checked
  settled : s.Settled config
  policies : s.app.policyOf = config.policyOf

theorem balancerOf_of_moves (hmoves : Moves s t) : t.app.balancerOf = s.app.balancerOf := by
  cases hmoves with
  | health hstep => exact funext fun pool => AppState.balancerOf_setHealth _ _ pool
  | add hdynamic url => exact funext fun pool => AppState.balancerOf_updatePool _ _ pool _
  | remove hdynamic url => exact funext fun pool => AppState.balancerOf_updatePool _ _ pool _

theorem policyOf_of_moves (hmoves : Moves s t) : t.app.policyOf = s.app.policyOf :=
  funext fun pool => by rw [AppState.policyOf, AppState.policyOf, balancerOf_of_moves hmoves]

theorem Steady.moves (h : s.Steady config) (hmoves : Moves s t) : t.Steady config :=
  ⟨h.checked.moves hmoves, h.settled.moves hmoves, (policyOf_of_moves hmoves).trans h.policies⟩

theorem Steady.exec (h : s.Steady config) {op : RouterOp} {result : op.Result}
    (hexec : machine.exec op s result t) : t.Steady config :=
  ⟨h.checked.exec hexec, h.settled.exec hexec,
    (AppState.policyOf_of_exec hexec.1).trans h.policies⟩

theorem Steady.start {app : AppState} (hk8s : config.hasK8sEnabled = false)
    (hbuild : config.buildState = .ok app) : (Deployment.start config app).Steady config :=
  ⟨.start hbuild, .start hbuild, funext (config.policyOf_buildState hk8s hbuild)⟩

theorem Steady.unfailing_of_moves (h : s.Steady config) (hk8s : config.hasK8sEnabled = false)
    (hmoves : Moves s t) (hunfailing : t.monitor.Unfailing pool) : s.monitor.Unfailing pool := by
  cases hmoves with
  | health hstep => exact hunfailing.of_taskStep hstep
  | add hdynamic url => cases hk8s.symm.trans (h.settled.k8sMode.symm.trans hdynamic.1)
  | remove hdynamic url => cases hk8s.symm.trans (h.settled.k8sMode.symm.trans hdynamic.1)

theorem Steady.view_eq (h : s.Steady config) (hk8s : config.hasK8sEnabled = false)
    (hunfailing : s.monitor.Unfailing pool) :
    s.monitor.fleet.view pool = Worker.fromUrls (config.urlsOf pool) := by
  have hhealthy : ∀ ref ∈ s.monitor.fleet.pools pool,
      s.monitor.fleet.worker ref = .new (s.monitor.fleet.worker ref).url := by
    intro ref hmem
    have hflag := h.checked.sound.flags ref (s.monitor.fleet.allocated pool ref hmem)
    rw [hunfailing.verdict hmem] at hflag
    exact congrArg (Worker.mk (s.monitor.fleet.worker ref).url) hflag
  rw [Fleet.view, List.map_congr_left hhealthy, Worker.fromUrls, ← config.urls_fleet hk8s pool,
    List.map_map, h.settled.pools hk8s]
  exact List.map_congr_left fun ref _ => congrArg Worker.new (h.settled.urls hk8s ref)

/-- The policy of the pool has chosen worker `i` of the configured ones. -/
structure Chosen (config : Config) (s : Deployment) (pool : Pool) (ctx : RequestContext) (i : Nat)
    (url : String) (t : Deployment) : Prop where
  entry : (config.urlsOf pool)[i]? = some url
  select : ∃ balancer selected counted ambient, s.app.balancerOf pool = some balancer ∧
    config.policyOf pool = some balancer.policy ∧
      balancer.selectWithContext (config.urlsOf pool) ctx ambient = .ok (i, selected) ∧
        selected.onRequestStart i = .ok counted ∧ t.app = s.app.setBalancer pool counted

/-- While no probe of the pool has failed, a selection is the choice of the policy among the
configured workers. -/
theorem Steady.chosen (h : s.Steady config) (hk8s : config.hasK8sEnabled = false)
    (hunfailing : s.monitor.Unfailing pool) {ctx : RequestContext} {i : Nat} {url : String}
    (hexec : machine.exec (.next pool ctx) s (some (i, url)) t) :
    Chosen config s pool ctx i url t := by
  obtain ⟨⟨ambient, hnext⟩, -⟩ := hexec
  have hview := h.checked.shows.views pool
  rw [h.view_eq hk8s hunfailing] at hview
  rw [AppState.next_eq] at hnext
  split at hnext
  · rename_i workers balancer hworkers hbalancer
    rw [hworkers, Option.getD_some] at hview
    subst hview
    cases hselect : AppState.selectFrom (Worker.fromUrls (config.urlsOf pool)) balancer ctx ambient with
    | error panic => rw [hselect] at hnext; cases hnext
    | ok result =>
        obtain ⟨result, counted⟩ := result
        simp only [hselect, Except.map, Except.ok.injEq, Prod.mk.injEq] at hnext
        obtain ⟨rfl, happ⟩ := hnext
        obtain ⟨k, selected, hchosen, hentry, hcount⟩ := AppState.selectFrom_eq_some_iff.mp hselect
        rw [map_snd_healthyWorkerUrls_fromUrls] at hchosen
        rw [healthyWorkerUrls_fromUrls, Option.map_eq_some_iff] at hentry
        obtain ⟨url, hentry, hpair⟩ := hentry
        cases hpair
        have hpolicy : config.policyOf pool = some balancer.policy := by
          rw [← h.policies, AppState.policyOf, hbalancer, Option.map_some]
        exact ⟨hentry, balancer, selected, counted, ambient, hbalancer, hpolicy, hchosen, hcount,
          happ.symm⟩
  · cases hnext

end Deployment

end TokenDog
