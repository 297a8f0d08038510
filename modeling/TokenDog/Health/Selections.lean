import TokenDog.Accounting
import TokenDog.Config.Settings
import TokenDog.Health.Rounds
import TokenDog.ModeSimulation

/-!
# Selections among checked workers

Handlers, the health check task and pool updates interleave over one application state. Its worker
lists are the views of the fleet, so that each write of the task is a health update of the state, and
a selection returns a worker whose own last probe, if there was one, succeeded.
-/

namespace TokenDog

/-- The flags of a pool, by position. -/
def Fleet.flags (fleet : Fleet) (pool : Pool) (i : Nat) : Bool :=
  ((fleet.view pool)[i]?.map Worker.healthy).getD true

/-- The worker objects of a deployment at start-up. -/
def Config.fleet (config : Config) : Fleet :=
  if config.hasK8sEnabled then .empty
  else
    match config.pdMode with
    | some _ => .staticPd config.prefillUrls config.decodeUrls
    | none => .static config.workerUrls

/-- The pool that an operation is about. -/
def RouterOp.pool : RouterOp → Option Pool
  | .next pool _ => some pool
  | .finish pool _ => some pool
  | .record pool _ _ => some pool
  | .random => none

/-- What an operation can make of the policy of its pool. -/
inductive Balancer.Makes (balancer : Balancer) : RouterOp → Balancer → Prop
  | keep (pool : Pool) (ctx : RequestContext) : Makes balancer (.next pool ctx) balancer
  | select {pool : Pool} {workers : List String} {ctx : RequestContext} {ambient : Ambient}
      {k : Nat} {selected : Balancer}
      (h : balancer.selectWithContext workers ctx ambient = .ok (k, selected)) (i : Nat) :
      Makes balancer (.next pool ctx) (selected.mapActive (·.modify i (· + 1)))
  | finish (pool : Pool) (i : Nat) :
      Makes balancer (.finish pool i) (balancer.mapActive (·.modify i Counters.decrement))
  | record (pool : Pool) (ctx : RequestContext) (i : Nat) (ambient : Ambient) :
      Makes balancer (.record pool ctx i) (balancer.record ctx i ambient)

theorem Balancer.Makes.policy_eq {balancer stored : Balancer} {op : RouterOp}
    (h : balancer.Makes op stored) : stored.policy = balancer.policy := by
  cases h with
  | keep pool ctx => rfl
  | select h i => rw [policy_mapActive, (kept_of_selectWithContext h).1]
  | finish pool i => exact policy_mapActive _ _
  | record pool ctx i ambient => exact policy_record _ _ _ _

/-! ### The application state over a fleet -/

namespace AppState

/-- The pools that service discovery updates. -/
def Dynamic (app : AppState) (pool : Pool) : Prop :=
  app.k8sMode = true ∧ (app.workersOf pool).isSome

/-- The state reads its pools through the fleet. A pool without a policy is empty and stays so, and
the fallback workers of the static PD mode are the decode workers. -/
structure Shows (app : AppState) (fleet : Fleet) : Prop where
  views : ∀ pool, (app.workersOf pool).getD [] = fleet.view pool
  shared : app.k8sMode = false → app.pdMode.isSome → fleet.pools .regular = fleet.pools .decode
  equipped : ∀ pool, app.policyOf pool = none → ¬app.Dynamic pool ∧ fleet.pools pool = []

variable {app app' : AppState} {fleet fleet' : Fleet}

/-- A write to the flags of a fleet rewrites the flags of its views. -/
theorem setFlags_view (hpools : fleet'.pools = fleet.pools)
    (hurl : ∀ ref, (fleet'.worker ref).url = (fleet.worker ref).url) (pool : Pool) :
    setFlags (fleet'.flags pool) (fleet.view pool) = fleet'.view pool := by
  apply List.ext_getElem?
  intro i
  rw [getElem?_setFlags, Fleet.flags, Fleet.view, Fleet.view, hpools, List.getElem?_map,
    List.getElem?_map]
  cases (fleet.pools pool)[i]? with
  | none => rfl
  | some ref =>
      simp only [Option.map_some, Option.getD_some, ← hurl ref]

theorem Shows.setHealth (h : app.Shows fleet) (hpools : fleet'.pools = fleet.pools)
    (hurl : ∀ ref, (fleet'.worker ref).url = (fleet.worker ref).url) :
    (app.setHealth fleet'.flags).Shows fleet' where
  views pool := by
    have hflags := setFlags_view hpools hurl pool
    rw [← h.views pool] at hflags
    rw [← hflags]
    cases hmode : app.k8sMode with
    | true =>
        rw [workersOf_setHealth hmode]
        cases app.workersOf pool <;> rfl
    | false =>
        by_cases hpool : pool = .regular → app.pdMode = none
        · rw [workersOf_setHealth_static hmode fleet'.flags hpool]
          cases app.workersOf pool <;> rfl
        · rw [Classical.not_imp] at hpool
          obtain ⟨rfl, hpd⟩ := hpool
          have hpd : app.pdMode.isSome := Option.isSome_iff_ne_none.mpr hpd
          have hsame : fleet'.flags .regular = fleet'.flags .decode := by
            funext i
            rw [Fleet.flags, Fleet.flags, Fleet.view, Fleet.view, hpools, h.shared hmode hpd]
          simp [workersOf, AppState.setHealth, hmode, hpd, hsame]
  shared hmode hpd := by
    rw [hpools]
    exact h.shared hmode hpd
  equipped pool hnone := by
    obtain ⟨hfixed, hempty⟩ := h.equipped pool (by rwa [policyOf_setHealth] at hnone)
    refine ⟨fun hdynamic => hfixed ⟨hdynamic.1, ?_⟩, by rwa [hpools]⟩
    have hsome := hdynamic.2
    rwa [@workersOf_setHealth app hdynamic.1, Option.isSome_map] at hsome

/-- Nothing that a selection reads of the workers has changed. -/
structure SameWorkers (app app' : AppState) : Prop where
  workersOf_eq : app'.workersOf = app.workersOf
  policyOf_eq : app'.policyOf = app.policyOf
  k8sMode_eq : app'.k8sMode = app.k8sMode
  pdMode_eq : app'.pdMode = app.pdMode

theorem Shows.of_sameWorkers (h : app.Shows fleet) (hsame : SameWorkers app app') :
    app'.Shows fleet where
  views pool := by rw [hsame.workersOf_eq]; exact h.views pool
  shared hmode hpd := h.shared (hsame.k8sMode_eq ▸ hmode) (hsame.pdMode_eq ▸ hpd)
  equipped pool hnone := by
    rw [Dynamic, hsame.k8sMode_eq, hsame.workersOf_eq]
    exact h.equipped pool (hsame.policyOf_eq ▸ hnone)

theorem makes_of_next {pool : Pool} {balancer : Balancer} {ctx : RequestContext} {ambient : Ambient}
    {result : Option (Nat × String)} (hbalancer : app.balancerOf pool = some balancer)
    (h : app.next pool ctx ambient = .ok (result, app')) :
    ∃ stored, balancer.Makes (.next pool ctx) stored ∧ app' = app.setBalancer pool stored := by
  rcases next_eq_ok h with ⟨-, rfl⟩ | ⟨i, url, rfl, -⟩
  · exact ⟨balancer, .keep pool ctx, (setBalancer_self hbalancer).symm⟩
  rw [next_eq, hbalancer] at h
  cases hworkers : app.workersOf pool with
  | none => rw [hworkers] at h; cases h
  | some workers =>
      rw [hworkers] at h
      change (selectFrom workers balancer ctx ambient).map _ = _ at h
      cases hselect : selectFrom workers balancer ctx ambient with
      | error panic => rw [hselect] at h; cases h
      | ok chosen =>
          obtain ⟨entry, counted⟩ := chosen
          rw [hselect] at h
          cases h
          obtain ⟨k, selected, hchosen, -, hcount⟩ := selectFrom_eq_some_iff.mp hselect
          obtain ⟨-, rfl⟩ := Balancer.onRequestStart_eq_ok_iff.mp hcount
          exact ⟨_, .select hchosen i, rfl⟩

/-- An operation stores the policy of its own pool back, if the pool has one. -/
theorem stored_of_exec {op : RouterOp} {result : op.Result}
    (h : machine.exec op app result app') :
    (app' = app ∧ ∀ pool, op.pool = some pool → app.balancerOf pool = none) ∨
      ∃ pool balancer stored, op.pool = some pool ∧ app.balancerOf pool = some balancer ∧
        balancer.Makes op stored ∧ app' = app.setBalancer pool stored := by
  cases op with
  | next pool ctx =>
      obtain ⟨ambient, hnext⟩ := h
      cases hbalancer : app.balancerOf pool with
      | none =>
          rw [next_eq, hbalancer] at hnext
          refine Or.inl ⟨?_, ?_⟩
          · cases hworkers : app.workersOf pool <;> rw [hworkers] at hnext <;> cases hnext <;> rfl
          · rintro _ ⟨⟩
            exact hbalancer
      | some balancer =>
          obtain ⟨stored, hmakes, happ⟩ := makes_of_next hbalancer hnext
          exact Or.inr ⟨pool, balancer, stored, rfl, hbalancer, hmakes, happ⟩
  | finish pool i =>
      have hfinish : app.finish pool i = .ok app' := h
      rw [finish_eq] at hfinish
      split at hfinish
      · rename_i balancer hbalancer
        cases hend : balancer.onRequestEnd i with
        | error panic => rw [hend] at hfinish; cases hfinish
        | ok balancer' =>
            rw [hend] at hfinish
            cases hfinish
            obtain ⟨-, rfl⟩ := Balancer.onRequestEnd_eq_ok_iff.mp hend
            exact Or.inr ⟨pool, balancer, _, rfl, hbalancer, .finish pool i, rfl⟩
      · rename_i hbalancer
        cases hfinish
        refine Or.inl ⟨rfl, ?_⟩
        rintro _ ⟨⟩
        exact hbalancer
  | record pool ctx i =>
      obtain ⟨ambient, rfl⟩ := h
      rw [record_eq]
      split
      · rename_i balancer hbalancer
        exact Or.inr ⟨pool, balancer, _, rfl, hbalancer, .record pool ctx i ambient, rfl⟩
      · rename_i hbalancer
        refine Or.inl ⟨rfl, ?_⟩
        rintro _ ⟨⟩
        exact hbalancer
  | random =>
      obtain ⟨rfl, -⟩ := h
      refine Or.inl ⟨rfl, ?_⟩
      rintro _ ⟨⟩

theorem balancerOf_of_exec {op : RouterOp} {result : op.Result}
    (h : machine.exec op app result app') {pool : Pool} (hpool : op.pool ≠ some pool) :
    app'.balancerOf pool = app.balancerOf pool := by
  rcases stored_of_exec h with ⟨rfl, -⟩ | ⟨own, balancer, stored, hown, -, -, rfl⟩
  · rfl
  · refine balancerOf_setBalancer_of_ne app stored ?_
    rintro rfl
    exact hpool hown

/-- What no operation changes of a policy stays the same of every pool's. -/
theorem map_balancerOf_of_exec {β : Type} (read : Balancer → β)
    (hread : ∀ {balancer stored : Balancer} {op : RouterOp}, balancer.Makes op stored →
      read stored = read balancer) {op : RouterOp} {result : op.Result}
    (h : machine.exec op app result app') (pool : Pool) :
    (app'.balancerOf pool).map read = (app.balancerOf pool).map read := by
  rcases stored_of_exec h with ⟨rfl, -⟩ | ⟨own, balancer, stored, -, hbalancer, hmakes, rfl⟩
  · rfl
  · by_cases hpool : pool = own
    · subst hpool
      rw [balancerOf_setBalancer_self, hbalancer, Option.map_some, Option.map_some, hread hmakes]
    · rw [balancerOf_setBalancer_of_ne app stored hpool]

theorem policyOf_of_exec {op : RouterOp} {result : op.Result}
    (h : machine.exec op app result app') : app'.policyOf = app.policyOf :=
  funext fun pool => map_balancerOf_of_exec Balancer.policy (fun hmakes => hmakes.policy_eq) h pool

theorem SameWorkers.of_exec {op : RouterOp} {result : op.Result}
    (h : machine.exec op app result app') : SameWorkers app app' := by
  have hpolicy := policyOf_of_exec h
  rcases stored_of_exec h with ⟨rfl, -⟩ | ⟨pool, -, balancer, -, -, -, rfl⟩
  · exact ⟨rfl, rfl, rfl, rfl⟩
  · exact ⟨funext fun other => workersOf_setBalancer app pool other balancer, hpolicy,
      k8sMode_setBalancer app pool balancer, pdMode_setBalancer app pool balancer⟩

theorem Shows.updatePool (h : app.Shows fleet) {pool : Pool} (hdynamic : app.Dynamic pool)
    {f : List Worker → List Worker} (hview : fleet'.view = Function.update fleet.view pool
      (f (fleet.view pool)))
    (hempties : ∀ other, other ≠ pool → fleet.pools other = [] → fleet'.pools other = []) :
    (app.updatePool pool f).Shows fleet' where
  views other := by
    rw [workersOf_updatePool hdynamic.1, hview]
    by_cases hother : other = pool
    · subst hother
      obtain ⟨workers, hworkers⟩ := Option.isSome_iff_exists.mp hdynamic.2
      have hshown := h.views other
      rw [hworkers, Option.getD_some] at hshown
      rw [Function.update_self, Function.update_self, hworkers, Option.map_some, Option.getD_some,
        hshown]
    · rw [Function.update_of_ne hother, Function.update_of_ne hother]
      exact h.views other
  shared hmode := by
    rw [k8sMode_updatePool, hdynamic.1] at hmode
    cases hmode
  equipped other hnone := by
    rw [policyOf_updatePool] at hnone
    obtain ⟨hfixed, hempty⟩ := h.equipped other hnone
    have hother : other ≠ pool := by
      rintro rfl
      exact hfixed hdynamic
    refine ⟨fun hdynamic' => hfixed ⟨hdynamic.1, ?_⟩, hempties other hother hempty⟩
    have hsome := hdynamic'.2
    rwa [workersOf_updatePool hdynamic.1, Function.update_of_ne hother] at hsome

/-- A selection finds no worker only when none is healthy. -/
theorem Shows.unhealthy_of_next (h : app.Shows fleet) {pool : Pool} {ctx : RequestContext}
    {ambient : Ambient} (hnext : app.next pool ctx ambient = .ok (none, app')) :
    ∀ ref ∈ fleet.pools pool, (fleet.worker ref).healthy = false := by
  intro ref hmem
  have hview := h.views pool
  rw [next_eq] at hnext
  cases hworkers : app.workersOf pool with
  | none =>
      rw [hworkers, Option.getD_none, Fleet.view, eq_comm, List.map_eq_nil_iff] at hview
      exact (List.not_mem_nil (hview ▸ hmem)).elim
  | some workers =>
      cases hbalancer : app.balancerOf pool with
      | none =>
          have hempty := (h.equipped pool (by rw [policyOf, hbalancer, Option.map_none])).2
          exact (List.not_mem_nil (hempty ▸ hmem)).elim
      | some balancer =>
          rw [hworkers, hbalancer] at hnext
          cases hselect : selectFrom workers balancer ctx ambient with
          | error panic => simp [hselect, Except.map] at hnext
          | ok selected =>
              obtain ⟨result, balancer'⟩ := selected
              simp only [hselect, Except.map, Except.ok.injEq, Prod.mk.injEq] at hnext
              obtain ⟨rfl, -⟩ := hnext
              have hunhealthy := healthyWorkerUrls_eq_nil_iff.mp (selectFrom_eq_none hselect).1
              rw [hworkers, Option.getD_some] at hview
              exact hunhealthy _ (hview ▸ List.mem_map_of_mem hmem)

/-- A selection returns a worker that is healthy. -/
theorem Shows.healthy_of_next (h : app.Shows fleet) {pool : Pool} {ctx : RequestContext}
    {ambient : Ambient} {i : Nat} {url : String}
    (hnext : app.next pool ctx ambient = .ok (some (i, url), app')) :
    ∃ ref, (fleet.pools pool)[i]? = some ref ∧ fleet.worker ref = ⟨url, true⟩ := by
  rcases next_eq_ok hnext with ⟨hnone, -⟩ | ⟨j, other, hsome, hdispatched⟩
  · cases hnone
  · cases hsome
    obtain ⟨workers, hworkers, hentry⟩ := hdispatched.entry
    have hview := h.views pool
    rw [hworkers, Option.getD_some] at hview
    rwa [hview, Fleet.view, List.getElem?_map, Option.map_eq_some_iff] at hentry

end AppState

/-- A deployment with its health check task. -/
structure Deployment where
  app : AppState
  monitor : Monitor

namespace Deployment

/-- A step of the health check task, or a pool update of service discovery. -/
inductive Moves : Deployment → Deployment → Prop where
  | health {s : Deployment} {monitor : Monitor} (h : Monitor.TaskStep s.monitor monitor) :
      Moves s ⟨s.app.setHealth monitor.fleet.flags, monitor⟩
  | add {s : Deployment} {pool : Pool} (hdynamic : s.app.Dynamic pool) (url : String) :
      Moves s ⟨s.app.updatePool pool (addWorkerToPool · url), s.monitor.addWorker pool url⟩
  | remove {s : Deployment} {pool : Pool} (hdynamic : s.app.Dynamic pool) (url : String) :
      Moves s ⟨s.app.updatePool pool (removeWorkerFromPool · url), s.monitor.removeWorker pool url⟩

/-- The operations of handlers, with the moves of a deployment in between. -/
def machine : Programs.Machine router Deployment where
  exec op s result t := TokenDog.machine.exec op s.app result t.app ∧ t.monitor = s.monitor
  panics op s := TokenDog.machine.panics op s.app
  moves := Moves

def start (config : Config) (app : AppState) : Deployment := ⟨app, .start config.fleet⟩

/-- What holds of a deployment in every state of a run. -/
structure Checked (s : Deployment) : Prop where
  shows : s.app.Shows s.monitor.fleet
  sound : s.monitor.Sound

theorem Checked.moves {s t : Deployment} (h : s.Checked) (hmoves : Moves s t) : t.Checked := by
  cases hmoves with
  | @health monitor hstep =>
      have hkept := hstep.unmoved
      exact ⟨h.shows.setHealth hkept.pools hkept.urls, h.sound.taskStep hstep⟩
  | @add pool hdynamic url =>
      refine ⟨h.shows.updatePool hdynamic (Fleet.view_addWorker _ _ _) fun other hother hempty => ?_,
        h.sound.addWorker pool url⟩
      rw [← hempty]
      exact Fleet.pools_addWorker_of_ne _ pool url hother
  | @remove pool hdynamic url =>
      refine ⟨h.shows.updatePool hdynamic (Fleet.view_removeWorker _ _ _)
        fun other hother hempty => ?_, h.sound.removeWorker pool url⟩
      rw [← hempty]
      exact Function.update_of_ne hother _ _

end Deployment

namespace Fleet

theorem view_ofUrls {urls : List String} {pools : Pool → List Nat}
    {h : ∀ pool, ∀ ref ∈ pools pool, ref < urls.length} (pool : Pool) :
    (ofUrls urls pools h).view pool = (pools pool).map fun ref => .new (urls.getD ref "") := rfl

theorem map_range_new (urls : List String) :
    (List.range urls.length).map (fun ref => Worker.new (urls.getD ref "")) =
      Worker.fromUrls urls := by
  apply List.ext_getElem
  · simp [Worker.fromUrls]
  · intro i hi _
    simp only [List.length_map, List.length_range] at hi
    simp [Worker.fromUrls, hi]

theorem view_staticPd_prefill (prefillUrls decodeUrls : List String) :
    (staticPd prefillUrls decodeUrls).view .prefill = Worker.fromUrls prefillUrls := by
  rw [staticPd, view_ofUrls]
  apply List.ext_getElem
  · simp [Worker.fromUrls]
  · intro i hi _
    simp only [if_true, List.length_map, List.length_range] at hi
    simp [Worker.fromUrls, hi, List.getElem?_append_left]

theorem view_staticPd_decode (prefillUrls decodeUrls : List String) :
    (staticPd prefillUrls decodeUrls).view .decode = Worker.fromUrls decodeUrls := by
  rw [staticPd, view_ofUrls]
  apply List.ext_getElem
  · simp [Worker.fromUrls]
  · intro i hi _
    simp only [reduceCtorEq, if_false, List.length_map, List.length_range'] at hi
    simp [Worker.fromUrls, hi]

end Fleet

theorem Config.isHealthy_fleet (config : Config) (ref : Nat) : config.fleet.isHealthy ref = true := by
  unfold Config.fleet
  split
  · rfl
  · split <;> rfl

theorem Config.shows_fleet {config : Config} {app : AppState} (h : config.buildState = .ok app) :
    app.Shows config.fleet := by
  unfold Config.buildState at h
  unfold Config.fleet
  split at h
  · rename_i hk8s
    rw [if_pos hk8s]
    -- the pools of the Kubernetes modes start empty
    split at h
    · simp only [AppState.newK8sPd, bind_eq_ok] at h
      obtain ⟨prefill, -, decode, -, hnew⟩ := h
      cases hnew
      refine ⟨fun pool => by cases pool <;> rfl, fun hmode => (by cases hmode), fun pool hnone => ?_⟩
      cases pool with
      | regular => exact ⟨fun hdynamic => (by cases hdynamic.2), rfl⟩
      | prefill => cases hnone
      | decode => cases hnone
    · simp only [AppState.newK8s, bind_eq_ok] at h
      obtain ⟨fallback, -, balancer, -, hnew⟩ := h
      cases hnew
      refine ⟨fun pool => by cases pool <;> rfl, fun hmode => (by cases hmode), fun pool hnone => ?_⟩
      cases pool with
      | regular => cases hnone
      | prefill => exact ⟨fun hdynamic => (by cases hdynamic.2), rfl⟩
      | decode => exact ⟨fun hdynamic => (by cases hdynamic.2), rfl⟩
  · rename_i hk8s
    rw [if_neg hk8s]
    cases hmode : config.pdMode with
    | some pdMode =>
        simp only [hmode] at h
        change app.Shows (Fleet.staticPd config.prefillUrls config.decodeUrls)
        split at h
        · cases h
        split at h
        · cases h
        simp only [bind_eq_ok] at h
        obtain ⟨prefillPolicy, -, decodePolicy, -, hnew⟩ := h
        unfold AppState.newPd at hnew
        split at hnew <;> [cases hnew; split at hnew] <;> cases hnew
        have hprefill := Fleet.view_staticPd_prefill config.prefillUrls config.decodeUrls
        have hdecode := Fleet.view_staticPd_decode config.prefillUrls config.decodeUrls
        refine ⟨fun pool => ?_, fun _ _ => rfl, fun pool hnone => (by cases pool <;> cases hnone)⟩
        cases pool with
        | regular => exact hdecode.symm
        | prefill => exact hprefill.symm
        | decode => exact hdecode.symm
    | none =>
        simp only [hmode, bind_eq_ok] at h
        change app.Shows (Fleet.static config.workerUrls)
        obtain ⟨balancer, -, hnew⟩ := h
        unfold AppState.new at hnew
        split at hnew <;> cases hnew
        refine ⟨fun pool => ?_, fun _ hpd => (by cases hpd), fun pool hnone => ?_⟩
        · cases pool with
          | regular => exact (Fleet.map_range_new config.workerUrls).symm
          | prefill => rfl
          | decode => rfl
        · cases pool with
          | regular => cases hnone
          | prefill => exact ⟨fun hdynamic => (by cases hdynamic.1), rfl⟩
          | decode => exact ⟨fun hdynamic => (by cases hdynamic.1), rfl⟩

namespace Deployment

theorem Checked.exec {s t : Deployment} (h : s.Checked) {op : RouterOp} {result : op.Result}
    (hexec : machine.exec op s result t) : t.Checked := by
  obtain ⟨hexec, hmonitor⟩ := hexec
  refine ⟨?_, hmonitor ▸ h.sound⟩
  rw [hmonitor]
  exact h.shows.of_sameWorkers (.of_exec hexec)

theorem Checked.start {config : Config} {app : AppState} (hbuild : config.buildState = .ok app) :
    (Deployment.start config app).Checked :=
  ⟨config.shows_fleet hbuild, .start fun ref _ => config.isHealthy_fleet ref⟩

theorem Checked.flag_of_mem {s : Deployment} (h : s.Checked) {pool : Pool} {ref : Nat}
    (hmem : ref ∈ s.monitor.fleet.pools pool) :
    (s.monitor.fleet.worker ref).healthy = s.monitor.verdict ref :=
  h.sound.flags ref (s.monitor.fleet.allocated pool ref hmem)

theorem Checked.failed_of_next {s t : Deployment} (h : s.Checked) {pool : Pool}
    {ctx : RequestContext} (hexec : machine.exec (.next pool ctx) s none t) :
    ∀ ref ∈ s.monitor.fleet.pools pool,
      ∃ probe, s.monitor.lastProbe ref = some probe ∧ probe.healthy = false := by
  obtain ⟨⟨ambient, hnext⟩, -⟩ := hexec
  intro ref hmem
  have hverdict := (h.flag_of_mem hmem).symm.trans (h.shows.unhealthy_of_next hnext ref hmem)
  rw [Monitor.verdict] at hverdict
  cases hlast : s.monitor.lastProbe ref with
  | none =>
      rw [hlast] at hverdict
      cases hverdict
  | some probe =>
      rw [hlast] at hverdict
      exact ⟨probe, rfl, hverdict⟩

section Runs

variable {ι α : Type} {body : ι → Handler α} {config : Config} {app : AppState}
  {s : Programs.System router Deployment ι α}

theorem checked_of_reachable (hbuild : config.buildState = .ok app)
    (hs : Runs.Reachable (· = .start (start config app)) (Programs.Step machine body) s) :
    s.shared.Checked :=
  Programs.shared_of_reachable (fun _ _ h hmoves => h.moves hmoves)
    (fun _ _ _ _ h hexec => h.exec hexec) (.start hbuild) hs

/-- A selection returns a worker that no probe has been finished for or whose last probe succeeded.
It returns none only when the last probe of every worker of the pool has failed. -/
theorem selected_by_last_probe (hbuild : config.buildState = .ok app)
    (hs : Runs.Reachable (· = .start (start config app)) (Programs.Step machine body) s)
    {pool : Pool} {ctx : RequestContext} {result : Option (Nat × String)} {t : Deployment}
    (hexec : machine.exec (.next pool ctx) s.shared result t) :
    (∀ i url, result = some (i, url) → ∃ ref,
      (s.shared.monitor.fleet.pools pool)[i]? = some ref ∧
        (s.shared.monitor.fleet.worker ref).url = url ∧
          ∀ probe, s.shared.monitor.lastProbe ref = some probe → probe.healthy = true) ∧
      (result = none → ∀ ref ∈ s.shared.monitor.fleet.pools pool,
        ∃ probe, s.shared.monitor.lastProbe ref = some probe ∧ probe.healthy = false) := by
  have hchecked := checked_of_reachable hbuild hs
  constructor
  · rintro i url rfl
    obtain ⟨⟨ambient, hnext⟩, -⟩ := hexec
    obtain ⟨ref, href, hworker⟩ := hchecked.shows.healthy_of_next hnext
    refine ⟨ref, href, by rw [hworker], fun probe hprobe => ?_⟩
    have hverdict := hchecked.flag_of_mem (List.mem_of_getElem? href)
    rw [hworker, Monitor.verdict, hprobe] at hverdict
    exact hverdict.symm
  · rintro rfl
    exact hchecked.failed_of_next hexec

end Runs

def pairConfig : Config where
  workerUrls := ["http://a:8000", "http://b:8000"]
  policy := .leastLoaded
  pdMode := none
  prefillUrls := []
  decodeUrls := []
  logFile := none
  k8sSelector := []
  k8sPrefillSelector := []
  k8sDecodeSelector := []
  k8sPort := 8000

theorem health_tail {ι α : Type} {body : ι → Handler α} {first s : Deployment}
    (hs : Runs.Reachable (· = .start first) (Programs.Step machine body) (.start s))
    {monitor : Monitor} (hmonitor : Monitor.TaskStep s.monitor monitor) :
    Runs.Reachable (· = .start first) (Programs.Step machine body)
      (.start ⟨s.app.setHealth monitor.fleet.flags, monitor⟩) :=
  hs.tail (.moves (.health hmonitor))

/-- The state after a round in which the first of two workers could not be reached. -/
theorem exists_failed_round {ι α : Type} (body : ι → Handler α) :
    ∃ app, pairConfig.buildState = .ok app ∧
      ∃ s, Runs.Reachable (· = .start (start pairConfig app)) (Programs.Step machine body)
          (.start s) ∧
        s.monitor.task = .sleeping ∧ s.monitor.begun = 2 ∧
          s.monitor.fleet.pools = pairConfig.fleet.pools ∧
        s.monitor.round.map Probe.healthy = [true, false] ∧
        (s.monitor.verdict 0 = false ∧ s.monitor.verdict 1 = true) ∧
        ∃ t, machine.exec (.next .regular ⟨"", ""⟩) s (some (1, "http://b:8000")) t := by
  obtain ⟨app, hbuild⟩ : ∃ app, pairConfig.buildState = .ok app := ⟨_, rfl⟩
  refine ⟨app, hbuild, ?_⟩
  have hstart : Runs.Reachable (· = .start (start pairConfig app)) (Programs.Step machine body)
      (.start (start pairConfig app)) := .of_start rfl
  cases hbuild
  have hwake := health_tail hstart (.wake rfl)
  have hregular := health_tail hwake (.snapshot rfl)
  have hprefill := health_tail hregular (.snapshot rfl)
  have hdecode := health_tail hprefill (.snapshot rfl)
  have hcheck := health_tail hdecode (.check rfl)
  have hfirst := health_tail hcheck (.probe rfl (.error ⟨false, true, "connection refused"⟩))
  have hsecond := health_tail hfirst (.probe rfl (.ok ⟨200, []⟩))
  have hsleep := health_tail hsecond (.sleep rfl)
  exact ⟨_, hsleep, rfl, rfl, rfl, rfl, ⟨rfl, rfl⟩, ⟨_, _⟩, ⟨⟨fun _ => 0, 0⟩, rfl⟩, rfl⟩

theorem selected_by_last_probe_failed_round :
    ∃ s : Deployment, s.monitor.round.map Probe.healthy = [true, false] ∧
      ∃ ref, (s.monitor.fleet.pools .regular)[1]? = some ref ∧
        (s.monitor.fleet.worker ref).url = "http://b:8000" ∧
          ∀ probe, s.monitor.lastProbe ref = some probe → probe.healthy = true := by
  obtain ⟨app, hbuild, s, hs, -, -, -, hround, -, t, hexec⟩ :=
    exists_failed_round fun _ : Unit => (pure () : Handler Unit)
  exact ⟨s, hround, (selected_by_last_probe hbuild hs hexec).1 1 _ rfl⟩

end Deployment

end TokenDog
