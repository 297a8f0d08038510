import TokenDog.PolicyRuns

/-!
# Load over whole runs

The counters that policies compare count the handlers in flight. While no probe of a pool has failed,
least loaded and prefix affinity therefore place the requests of interleaved handlers by the requests
that are in flight.
-/

namespace TokenDog

namespace Balancer

/-- The threshold of a prefix affinity. -/
def threshold? : Balancer → Option Nat
  | prefixAffinity policy => some policy.threshold
  | _ => none

theorem threshold?_mapActive (f : Counters → Counters) (balancer : Balancer) :
    (balancer.mapActive f).threshold? = balancer.threshold? := by
  cases balancer <;> rfl

theorem threshold?_of_policy {balancer : Balancer} (h : balancer.policy ≠ .prefixAffinity) :
    balancer.threshold? = none := by
  cases balancer <;> first | rfl | exact absurd rfl h

theorem threshold?_of_selectWithContext {balancer selected : Balancer} {workers : List String}
    {ctx : RequestContext} {ambient : Ambient} {i : Nat}
    (h : balancer.selectWithContext workers ctx ambient = .ok (i, selected)) :
    selected.threshold? = balancer.threshold? := by
  have hpolicy := (kept_of_selectWithContext h).1
  by_cases hkind : balancer.policy = .prefixAffinity
  · simp only [selectWithContext, bind_eq_ok, pure_eq_ok, Except.ok.injEq, Prod.mk.injEq] at h
    obtain ⟨⟨k, policy'⟩, hselect, -, rfl⟩ := h
    cases balancer <;> cases hkind
    cases PrefixAffinity.policy_of_selectWithContext hselect
    rfl
  · rw [threshold?_of_policy hkind, threshold?_of_policy (hpolicy ▸ hkind)]

theorem Makes.threshold?_eq {balancer stored : Balancer} {op : RouterOp}
    (h : balancer.Makes op stored) : stored.threshold? = balancer.threshold? := by
  cases h with
  | keep pool ctx => rfl
  | select h i => rw [threshold?_mapActive, threshold?_of_selectWithContext h]
  | finish pool i => exact threshold?_mapActive _ balancer
  | record pool ctx i ambient => cases balancer <;> rfl

end Balancer

namespace AppState

def thresholdOf (app : AppState) (pool : Pool) : Option Nat :=
  ((app.balancerOf pool).map Balancer.threshold?).join

theorem thresholdOf_of_exec {app app' : AppState} {op : RouterOp} {result : op.Result}
    (h : machine.exec op app result app') (pool : Pool) :
    app'.thresholdOf pool = app.thresholdOf pool :=
  congrArg Option.join
    (map_balancerOf_of_exec Balancer.threshold? (fun hmakes => hmakes.threshold?_eq) h pool)

end AppState

namespace Deployment

variable {config : Config} {s t : Deployment} {pool : Pool}

/-- A prefix affinity keeps the threshold it was made with. -/
theorem threshold_of_reachable {ι α : Type} {body : ι → Handler α} {app : AppState}
    {s : Programs.System router Deployment ι α} (hbuild : config.buildState = .ok app)
    (hk8s : config.hasK8sEnabled = false) (hpolicy : config.policyOf pool = some .prefixAffinity)
    (hs : Runs.Reachable (· = .start (start config app)) (Programs.Step machine body) s) :
    s.shared.app.thresholdOf pool = some 10 := by
  refine Programs.shared_of_reachable (P := fun t => t.app.thresholdOf pool = some 10) ?_ ?_ ?_ hs
  · intro s t h hmoves
    rwa [AppState.thresholdOf, balancerOf_of_moves hmoves]
  · intro op result s t h hexec
    rwa [AppState.thresholdOf_of_exec hexec.1]
  · rcases config.balancerOf_buildState hk8s hbuild pool with
      ⟨hnone, -⟩ | ⟨kind, n, balancer, hkind, hmake, hbalancer⟩
    · cases hnone.symm.trans hpolicy
    · cases hkind.symm.trans hpolicy
      simp only [Balancer.makePolicy, PrefixAffinity.new, PrefixAffinity.withThreshold,
        bind_eq_ok] at hmake
      obtain ⟨policy, hnew, hbox⟩ := hmake
      split at hnew <;> cases hnew
      cases hbox
      change ((app.balancerOf pool).map Balancer.threshold?).join = some 10
      rw [hbalancer]
      rfl

/-- A static deployment is the application state with writes to its flags in between. -/
theorem refines_app (hk8s : config.hasK8sEnabled = false) :
    Programs.Refines machine TokenDog.machine Deployment.app (Steady config) where
  exec _ _ _ _ h hexec := ⟨hexec.1, h.exec hexec⟩
  panics _ _ _ hpanics := hpanics
  moves s t h hmoves := by
    refine ⟨Or.inr ?_, h.moves hmoves⟩
    cases hmoves with
    | @health monitor hstep => exact ⟨monitor.fleet.flags, rfl⟩
    | add hdynamic url => cases hk8s.symm.trans (h.settled.k8sMode.symm.trans hdynamic.1)
    | remove hdynamic url => cases hk8s.symm.trans (h.settled.k8sMode.symm.trans hdynamic.1)

theorem Steady.length_le (h : s.Steady config) (hk8s : config.hasK8sEnabled = false)
    (hunfailing : s.monitor.Unfailing pool) (hcovered : s.app.Covered pool) {active : Counters}
    (hactive : s.app.countersOf pool = some active) :
    (config.urlsOf pool).length ≤ active.length := by
  have hview := h.checked.shows.views pool
  rw [h.view_eq hk8s hunfailing] at hview
  have hlength := congrArg List.length hview
  rw [Worker.fromUrls, List.length_map] at hlength
  cases hworkers : s.app.workersOf pool with
  | none =>
      rw [hworkers] at hlength
      exact hlength ▸ Nat.zero_le _
  | some workers =>
      rw [hworkers] at hlength
      exact hlength ▸ hcovered workers active hworkers hactive

/-- Least loaded takes a worker with a smallest counter, unless the first worker has one. -/
theorem Chosen.least {ctx : RequestContext} {i : Nat} {url : String}
    (h : Chosen config s pool ctx i url t) (hpolicy : config.policyOf pool = some .leastLoaded) :
    ∃ active, s.app.countersOf pool = some active ∧
      ((config.urlsOf pool).length ≤ active.length →
        (∀ j < (config.urlsOf pool).length, active.inFlight i ≤ active.inFlight j) ∨
          ∀ j < (config.urlsOf pool).length, active.inFlight 0 ≤ active.inFlight j) := by
  obtain ⟨balancer, selected, counted, ambient, hbalancer, hkind, hselect, -⟩ := h.select
  rw [hpolicy, Option.some.injEq] at hkind
  cases balancer <;> cases hkind
  rename_i policy
  refine ⟨policy.active, by rw [AppState.countersOf, hbalancer]; rfl, fun hfit => ?_⟩
  rw [Balancer.selectWithContext_leastLoaded ctx ambient h.ne_nil policy hfit] at hselect
  cases hselect
  by_cases hlt : ∃ j < (config.urlsOf pool).length,
      policy.active.inFlight j < policy.active.inFlight 0
  · exact Or.inl (LeastLoaded.choice_firstMin hlt).le
  · exact Or.inr fun j hj => Nat.not_lt.mp fun hbelow => hlt ⟨j, hj, hbelow⟩

/-- Prefix affinity takes the worker of the prefix below the threshold, and otherwise one with a
smallest counter. -/
theorem Chosen.preferred {ctx : RequestContext} {i : Nat} {url : String}
    (h : Chosen config s pool ctx i url t)
    (hpolicy : config.policyOf pool = some .prefixAffinity) :
    ∃ active threshold, s.app.countersOf pool = some active ∧
      s.app.thresholdOf pool = some threshold ∧ ((config.urlsOf pool).length ≤ active.length →
        i = PrefixAffinity.preferred ctx (config.urlsOf pool).length ∨
          threshold ≤
              active.inFlight (PrefixAffinity.preferred ctx (config.urlsOf pool).length) ∧
            ∀ j < (config.urlsOf pool).length, active.inFlight i ≤ active.inFlight j) := by
  obtain ⟨balancer, selected, counted, ambient, hbalancer, hkind, hselect, -⟩ := h.select
  rw [hpolicy, Option.some.injEq] at hkind
  cases balancer <;> cases hkind
  rename_i policy
  refine ⟨policy.active, policy.threshold, by rw [AppState.countersOf, hbalancer]; rfl,
    by rw [AppState.thresholdOf, hbalancer]; rfl, fun hfit => ?_⟩
  by_cases hbelow : (config.urlsOf pool).length = 1 ∨ policy.active.inFlight
      (PrefixAffinity.preferred ctx (config.urlsOf pool).length) < policy.threshold
  · rw [Balancer.selectWithContext_prefixAffinity_preferred ctx ambient h.ne_nil policy hfit
      hbelow] at hselect
    cases hselect
    exact Or.inl rfl
  · obtain ⟨hone, habove⟩ := not_or.mp hbelow
    rw [Balancer.selectWithContext_prefixAffinity_fallback ctx ambient h.ne_nil policy hfit hone
      (Nat.not_lt.mp habove)] at hselect
    cases hpick : pickFrom (shortestQueues policy.active (config.urlsOf pool).length)
        (ambient.draw 0) with
    | error panic => rw [hpick] at hselect; cases hselect
    | ok k =>
        rw [hpick] at hselect
        cases hselect
        obtain ⟨-, hmin⟩ := mem_shortestQueues.mp (mem_of_pickFrom hpick)
        refine Or.inr ⟨Nat.not_lt.mp habove, fun j hj => ?_⟩
        rw [hmin]
        exact minQueue_le (hj.trans_le hfit)

end Deployment

namespace Gateway

open Accounting (held leaked)

section Runs

variable {crates : Crates} {config : Config} {app : AppState} {pool : Pool}
  {s : Programs.System router Gateway Parts (Response WorkerId)}

/-- The requests to a worker that the live handlers hold and that ended ones have left behind. -/
def loadOf (s : Programs.System router Gateway Parts (Response WorkerId)) (worker : WorkerId) : Nat :=
  (s.live.map fun run => (held run.trace).count worker).sum +
    (s.ended.map fun run => (leaked run).count worker).sum

theorem covered_of_reachable (hbuild : config.buildState = .ok app)
    (hk8s : config.hasK8sEnabled = false)
    (hs : Runs.Reachable (· = .start (start config app))
      (Programs.Step (machine config) (pdProxyHandler crates config.pdMode)) s) (pool : Pool) :
    s.shared.deployment.app.Covered pool := by
  have happ := ((Deployment.refines_app hk8s).reachable (.start hk8s hbuild)
    (refines.reachable (.start hbuild) hs).1).1
  rcases Config.starts_of_buildState hbuild with ⟨henabled, -⟩ | ⟨-, hstart⟩
  · cases hk8s.symm.trans henabled
  · exact (hstart.covered pool).of_alike (Accounting.alike_of_reachable happ)

/-- What the choice of a policy and the counters it compares are in a state of a run. -/
theorem chosen_of_reachable (hbuild : config.buildState = .ok app)
    (hk8s : config.hasK8sEnabled = false)
    (hs : Runs.Reachable (· = .start (start config app))
      (Programs.Step (machine config) (pdProxyHandler crates config.pdMode)) s)
    (hunfailing : s.shared.deployment.monitor.Unfailing pool) {ctx : RequestContext} {i : Nat}
    {url : String} {g : Gateway}
    (hexec : (machine config).exec (.next pool ctx) s.shared (some (i, url)) g) :
    Deployment.Chosen config s.shared.deployment pool ctx i url g.deployment ∧
      ∀ active, s.shared.deployment.app.countersOf pool = some active →
        (config.urlsOf pool).length ≤ active.length ∧
          ∀ j, active.inFlight j = loadOf s (pool, j) := by
  have hdeployment := (refines.reachable (.start hbuild) hs).1
  have hsteady : s.shared.deployment.Steady config :=
    Programs.shared_of_reachable (fun _ _ h hmoves => Deployment.Steady.moves h hmoves)
      (fun _ _ _ _ h hexec => Deployment.Steady.exec h hexec) (.start hk8s hbuild) hdeployment
  obtain ⟨t, hexec, rfl⟩ := hexec
  refine ⟨hsteady.chosen hk8s hunfailing hexec, fun active hactive => ⟨?_, fun j => ?_⟩⟩
  · exact hsteady.length_le hk8s hunfailing (covered_of_reachable hbuild hk8s hs pool) hactive
  · exact Accounting.inFlight_eq_sum hbuild hs hactive j

/-- Least loaded takes a worker of the pool with the fewest requests in flight, by the handlers that
hold them, unless the first worker of the pool is one of these. -/
theorem least_loaded_compares_handlers (hbuild : config.buildState = .ok app)
    (hk8s : config.hasK8sEnabled = false) (hpolicy : config.policyOf pool = some .leastLoaded)
    (hs : Runs.Reachable (· = .start (start config app))
      (Programs.Step (machine config) (pdProxyHandler crates config.pdMode)) s)
    (hunfailing : s.shared.deployment.monitor.Unfailing pool) {ctx : RequestContext} {i : Nat}
    {url : String} {g : Gateway}
    (hexec : (machine config).exec (.next pool ctx) s.shared (some (i, url)) g) :
    (∀ j < (config.urlsOf pool).length, loadOf s (pool, i) ≤ loadOf s (pool, j)) ∨
      ∀ j < (config.urlsOf pool).length, loadOf s (pool, 0) ≤ loadOf s (pool, j) := by
  obtain ⟨hchosen, hcounters⟩ := chosen_of_reachable hbuild hk8s hs hunfailing hexec
  obtain ⟨active, hactive, hleast⟩ := hchosen.least hpolicy
  obtain ⟨hfit, hload⟩ := hcounters active hactive
  simpa only [hload] using hleast hfit

/-- With prefix affinity a request leaves the worker of its prefix only when that worker has ten
requests in flight, and then it goes to a worker with the fewest. -/
theorem prefix_affinity_spills_over (hbuild : config.buildState = .ok app)
    (hk8s : config.hasK8sEnabled = false) (hpolicy : config.policyOf pool = some .prefixAffinity)
    (hs : Runs.Reachable (· = .start (start config app))
      (Programs.Step (machine config) (pdProxyHandler crates config.pdMode)) s)
    (hunfailing : s.shared.deployment.monitor.Unfailing pool) {ctx : RequestContext} {i : Nat}
    {url : String} {g : Gateway}
    (hexec : (machine config).exec (.next pool ctx) s.shared (some (i, url)) g) :
    i = PrefixAffinity.preferred ctx (config.urlsOf pool).length ∨
      10 ≤ loadOf s (pool, PrefixAffinity.preferred ctx (config.urlsOf pool).length) ∧
        ∀ j < (config.urlsOf pool).length, loadOf s (pool, i) ≤ loadOf s (pool, j) := by
  obtain ⟨hchosen, hcounters⟩ := chosen_of_reachable hbuild hk8s hs hunfailing hexec
  obtain ⟨active, threshold, hactive, hthreshold, hpreferred⟩ := hchosen.preferred hpolicy
  obtain ⟨hfit, hload⟩ := hcounters active hactive
  have hten := Deployment.threshold_of_reachable hbuild hk8s hpolicy
    (refines.reachable (.start hbuild) hs).1
  cases hthreshold.symm.trans hten
  simpa only [hload] using hpreferred hfit

end Runs

theorem loadOf_of_request {s t : Programs.System router Gateway Parts (Response WorkerId)}
    {run : Programs.Live router Parts (Response WorkerId)} {ctx : RequestContext} {i : Nat}
    {url : String} {request : Outgoing} {reply : RouterCall.Reply (.send .regular request)}
    (hlive : t.live = run ::ₘ s.live) (hended : t.ended = s.ended)
    (htrace : run.trace = [.replied (.send .regular request) reply,
      .ran (.next .regular ctx) (some (i, url)), .replied .collect (.ok ByteArray.empty)])
    (j : Nat) : loadOf t (.regular, j) = (if j = i then 1 else 0) + loadOf s (.regular, j) := by
  have hheld : held run.trace = {(.regular, i)} := by
    rw [htrace]
    rfl
  rw [loadOf, hlive, hended, Multiset.map_cons, Multiset.sum_cons, hheld, loadOf, add_assoc,
    Multiset.count_singleton]
  simp only [Prod.mk.injEq, true_and]

open Accounting (modelsRequest)

/-- The second worker is idle while the first one holds a request. -/
theorem least_loaded_compares_handlers_second :
    ∃ s : Programs.System router Gateway Parts (Response WorkerId),
      loadOf s (.regular, 0) = 1 ∧
        ((∀ j < 2, loadOf s (.regular, 1) ≤ loadOf s (.regular, j)) ∨
          ∀ j < 2, loadOf s (.regular, 0) ≤ loadOf s (.regular, j)) := by
  obtain ⟨app, hbuild⟩ : ∃ app, (policyConfig .leastLoaded).buildState = .ok app := ⟨_, rfl⟩
  obtain ⟨g, g', hexec, hnext, hunfailing⟩ : ∃ g g', (machine (policyConfig .leastLoaded)).exec
      (.next .regular ⟨"default", "default"⟩) (start (policyConfig .leastLoaded) app)
        (some (0, "http://a:8000")) g ∧
      (machine (policyConfig .leastLoaded)).exec (.next .regular ⟨"default", "default"⟩) g
        (some (1, "http://b:8000")) g' ∧ g.deployment.monitor.Unfailing .regular := by
    cases hbuild
    exact ⟨_, _, ⟨⟨_, _⟩, ⟨⟨⟨fun _ => 0, 0⟩, rfl⟩, rfl⟩, rfl⟩,
      ⟨⟨_, _⟩, ⟨⟨⟨fun _ => 0, 0⟩, rfl⟩, rfl⟩, rfl⟩, unfailing_start _ _ _⟩
  obtain ⟨s, run, hs, rfl, hlive, hended, -, _, _, htrace⟩ :=
    @exists_request _ _ _ modelsRequest _ _ _ _ rfl (.of_start rfl) hexec
  refine ⟨s, ?_, least_loaded_compares_handlers hbuild rfl rfl hs hunfailing hnext⟩
  rw [loadOf_of_request hlive hended htrace, if_pos rfl]
  rfl

def twoUrls : List String := ["http://a:8000", "http://b:8000"]

theorem preferred_default : PrefixAffinity.preferred ⟨"default", "default"⟩ 2 = 0 := by
  decide +kernel

theorem selectFrom_preferred {n : Nat} (hbelow : n < 10) :
    AppState.selectFrom (Worker.fromUrls twoUrls) (.prefixAffinity ⟨[n, 0], 10⟩)
        ⟨"default", "default"⟩ ⟨fun _ => 0, 0⟩ =
      .ok (some (0, "http://a:8000"), .prefixAffinity ⟨[n + 1, 0], 10⟩) := by
  have hselect := Balancer.selectWithContext_prefixAffinity_preferred ⟨"default", "default"⟩
    ⟨fun _ => 0, 0⟩ (List.cons_ne_nil "http://a:8000" ["http://b:8000"]) ⟨[n, 0], 10⟩ le_rfl
    (Or.inr (by rw [List.length_cons, List.length_singleton, preferred_default]; exact hbelow))
  refine AppState.selectFrom_eq_some_iff.mpr ⟨_, _, hselect, ?_, rfl⟩
  change (healthyWorkerUrls _)[PrefixAffinity.preferred _ 2]? = _
  rw [preferred_default]
  rfl

theorem selectFrom_spilled :
    AppState.selectFrom (Worker.fromUrls twoUrls) (.prefixAffinity ⟨[10, 0], 10⟩)
        ⟨"default", "default"⟩ ⟨fun _ => 0, 0⟩ =
      .ok (some (1, "http://b:8000"), .prefixAffinity ⟨[10, 1], 10⟩) := by
  have hselect := Balancer.selectWithContext_prefixAffinity_fallback ⟨"default", "default"⟩
    ⟨fun _ => 0, 0⟩ (List.cons_ne_nil "http://a:8000" ["http://b:8000"]) ⟨[10, 0], 10⟩ le_rfl
    (by decide) (by rw [List.length_cons, List.length_singleton, preferred_default]; exact le_rfl)
  exact AppState.selectFrom_eq_some_iff.mpr ⟨1, _, hselect, rfl, rfl⟩

/-- Both workers are up, and the first one has `n` requests. -/
structure Holding (n : Nat) (g : Gateway) : Prop where
  workers : g.deployment.app.workersOf .regular = some (Worker.fromUrls twoUrls)
  balancer : g.deployment.app.balancerOf .regular = some (.prefixAffinity ⟨[n, 0], 10⟩)
  unfailing : g.deployment.monitor.Unfailing .regular

theorem Holding.exec {n : Nat} {g : Gateway} (h : Holding n g) {i : Nat} {url : String}
    {policy : Balancer} (hselect : AppState.selectFrom (Worker.fromUrls twoUrls)
      (.prefixAffinity ⟨[n, 0], 10⟩) ⟨"default", "default"⟩ ⟨fun _ => 0, 0⟩ =
        .ok (some (i, url), policy)) :
    (machine (policyConfig .prefixAffinity)).exec (.next .regular ⟨"default", "default"⟩) g
      (some (i, url))
      { g with
        deployment :=
          { g.deployment with app := g.deployment.app.setBalancer .regular policy } } :=
  ⟨{ g.deployment with app := g.deployment.app.setBalancer .regular policy },
    ⟨⟨_, AppState.next_of_selectFrom h.workers h.balancer hselect⟩, rfl⟩, rfl⟩

/-- Up to the threshold all requests of the prefix go to its worker. -/
theorem exists_holding {app : AppState}
    (hbuild : (policyConfig .prefixAffinity).buildState = .ok app) {n : Nat} (hn : n ≤ 10) :
    ∃ s, Runs.Reachable (· = .start (start (policyConfig .prefixAffinity) app))
        (Programs.Step (machine (policyConfig .prefixAffinity)) (pdProxyHandler plainCrates none))
        s ∧ Holding n s.shared ∧ loadOf s (.regular, 0) = n ∧ loadOf s (.regular, 1) = 0 := by
  induction n with
  | zero =>
      refine ⟨_, .of_start rfl, ?_, rfl, rfl⟩
      cases hbuild
      exact ⟨rfl, rfl, unfailing_start _ _ _⟩
  | succ n ih =>
      obtain ⟨s, hs, hholding, hfirst, hsecond⟩ := ih (Nat.le_of_succ_le hn)
      obtain ⟨t, run, ht, hshared, hlive, hended, -, _, _, htrace⟩ :=
        @exists_request _ _ _ modelsRequest _ _ _ _ rfl hs
          (hholding.exec (selectFrom_preferred hn))
      refine ⟨t, ht, ?_, ?_, ?_⟩
      · rw [hshared]
        exact ⟨(AppState.workersOf_setBalancer _ _ _ _).trans hholding.workers,
          AppState.balancerOf_setBalancer_self s.shared.deployment.app .regular _,
          hholding.unfailing⟩
      · rw [loadOf_of_request hlive hended htrace, if_pos rfl, hfirst, Nat.add_comm]
      · rw [loadOf_of_request hlive hended htrace, if_neg Nat.one_ne_zero, hsecond]

/-- The eleventh request of one prefix spills over to the idle worker. -/
theorem prefix_affinity_spills_over_eleventh :
    ∃ s : Programs.System router Gateway Parts (Response WorkerId),
      loadOf s (.regular, 0) = 10 ∧
        (1 = PrefixAffinity.preferred ⟨"default", "default"⟩ 2 ∨
          10 ≤ loadOf s (.regular, PrefixAffinity.preferred ⟨"default", "default"⟩ 2) ∧
            ∀ j < 2, loadOf s (.regular, 1) ≤ loadOf s (.regular, j)) := by
  obtain ⟨app, hbuild⟩ : ∃ app, (policyConfig .prefixAffinity).buildState = .ok app := ⟨_, rfl⟩
  obtain ⟨s, hs, hholding, hload, -⟩ := exists_holding hbuild le_rfl
  exact ⟨s, hload, prefix_affinity_spills_over hbuild rfl rfl hs hholding.unfailing
    (hholding.exec selectFrom_spilled)⟩

end Gateway

end TokenDog
