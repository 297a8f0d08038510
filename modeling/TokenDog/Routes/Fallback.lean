import TokenDog.Routes.PdHandler
import TokenDog.K8sRuns

/-!
# Requests outside the pipeline

In PD mode a request that is for no inference endpoint goes to the regular handler, and so to the
workers of the regular pool. Static mode keeps the decode workers there, behind a round robin;
Kubernetes mode keeps no regular pool.
-/

namespace TokenDog

theorem pdProxyHandler_of_not_inference (crates : Crates) (pdMode : Option PdMode) {parts : Parts}
    (hpath : isInferencePath parts.path = false) :
    pdProxyHandler crates pdMode parts = pdProxyHandler crates none parts := by
  cases pdMode with
  | none => rfl
  | some mode =>
      unfold pdProxyHandler
      rw [hpath]

namespace AppState

/-- The regular selection returns a healthy one of the workers. -/
def Serves (app : AppState) (workers : List Worker) (ctx : RequestContext) (ambient : Ambient) :
    Prop :=
  ∃ i url app', app.next .regular ctx ambient = .ok (some (i, url), app') ∧
    workers[i]? = some ⟨url, true⟩

theorem stored_of_next {app app' : AppState} {pool : Pool} {ctx : RequestContext}
    {ambient : Ambient} {result : Option (Nat × String)}
    (h : app.next pool ctx ambient = .ok (result, app')) :
    app' = app ∨ ∃ balancer, app' = app.setBalancer pool balancer := by
  rw [next_eq] at h
  split at h
  · rename_i workers balancer hworkers hbalancer
    cases hselect : selectFrom workers balancer ctx ambient with
    | error panic =>
        rw [hselect] at h
        cases h
    | ok selected =>
        rw [hselect] at h
        cases h
        exact Or.inr ⟨_, rfl⟩
  · cases h
    exact Or.inl rfl

theorem stored_of_finish {app app' : AppState} {pool : Pool} {i : Nat}
    (h : app.finish pool i = .ok app') :
    app' = app ∨ ∃ balancer, app' = app.setBalancer pool balancer := by
  rw [finish_eq] at h
  split at h
  · rename_i balancer hbalancer
    cases hend : balancer.onRequestEnd i with
    | error panic =>
        rw [hend] at h
        cases h
    | ok balancer' =>
        rw [hend] at h
        cases h
        exact Or.inr ⟨_, rfl⟩
  · cases h
    exact Or.inl rfl

theorem stored_of_record (app : AppState) (pool : Pool) (ctx : RequestContext) (i : Nat)
    (ambient : Ambient) : app.record pool ctx i ambient = app ∨
      ∃ balancer, app.record pool ctx i ambient = app.setBalancer pool balancer := by
  rw [record_eq]
  split
  · exact Or.inr ⟨_, rfl⟩
  · exact Or.inl rfl

/-- A static PD deployment whose regular workers are its decode workers. -/
structure FallsBack (app : AppState) : Prop where
  k8sMode : app.k8sMode = false
  pdMode : app.pdMode.isSome = true
  workers_eq : app.workersOf .regular = app.workersOf .decode
  policy : app.policyOf .regular = some .roundRobin

theorem fallsBack_newPd {pdMode : PdMode} {prefillWorkers decodeWorkers : List Worker}
    {prefillPolicy decodePolicy : Balancer} {app : AppState}
    (hnew : newPd pdMode prefillWorkers decodeWorkers prefillPolicy decodePolicy = .ok app) :
    app.FallsBack := by
  unfold newPd at hnew
  split at hnew <;> [cases hnew; split at hnew] <;> cases hnew
  exact ⟨rfl, rfl, rfl, rfl⟩

theorem FallsBack.serves {app : AppState} (h : app.FallsBack) {workers : List Worker}
    (hworkers : app.workersOf .decode = some workers)
    (hhealthy : ∃ worker ∈ workers, worker.healthy = true) (ctx : RequestContext)
    (ambient : Ambient) : app.Serves workers ctx ambient := by
  have hregular := h.workers_eq.trans hworkers
  have hpolicy := h.policy
  rw [policyOf, Option.map_eq_some_iff] at hpolicy
  obtain ⟨balancer, hbalancer, hpolicy⟩ := hpolicy
  have hactive : balancer.active? = none := by
    cases balancer <;> cases hpolicy
    rfl
  have hfits : balancer.Fits workers.length := by
    intro active hmem
    rw [hactive] at hmem
    cases hmem
  obtain ⟨i, url, balancer', hselect, hpicked⟩ := selectFrom_total ctx ambient (by simp [hpolicy])
    hfits (healthyWorkerUrls_ne_nil_iff.mpr hhealthy)
  exact ⟨i, url, _, next_of_selectFrom hregular hbalancer hselect, hpicked.entry⟩

theorem not_serves_of_no_pool {app : AppState} (hnone : app.workersOf .regular = none)
    (workers : List Worker) (ctx : RequestContext) (ambient : Ambient) :
    ¬app.Serves workers ctx ambient := by
  rintro ⟨i, url, app', hnext, -⟩
  rw [next_eq, hnone] at hnext
  cases hnext

theorem workersOf_updatePool_eq_none {app : AppState} (hmode : app.k8sMode = true) {pool : Pool}
    (hnone : app.workersOf pool = none) (other : Pool) (edit : List Worker → List Worker) :
    (app.updatePool other edit).workersOf pool = none := by
  rw [workersOf_updatePool hmode]
  by_cases hpool : pool = other
  · rw [← hpool, Function.update_self, hnone, Option.map_none]
  · rw [Function.update_of_ne hpool, hnone]

end AppState

namespace Session

open AppState

theorem Step.fallsBack {s t : Session} (hstep : Step s t) (h : s.app.FallsBack) :
    t.app.FallsBack := by
  have hpolicy : t.app.policyOf .regular = some .roundRobin := by
    rw [hstep.alike.policyOf_eq, h.policy]
  have hmode : t.app.k8sMode = false := hstep.alike.k8sMode_eq.trans h.k8sMode
  have hstored : ∀ {app' : AppState} {pool : Pool},
      (app' = s.app ∨ ∃ balancer, app' = s.app.setBalancer pool balancer) →
      app'.pdMode.isSome = true ∧ app'.workersOf .regular = app'.workersOf .decode := by
    rintro app' pool (rfl | ⟨balancer, rfl⟩)
    · exact ⟨h.pdMode, h.workers_eq⟩
    · rw [pdMode_setBalancer, workersOf_setBalancer, workersOf_setBalancer]
      exact ⟨h.pdMode, h.workers_eq⟩
  cases hstep with
  | health flags =>
      refine ⟨hmode, h.pdMode, ?_, hpolicy⟩
      -- in PD mode the fallback workers are written with the flags of the decode workers
      have hworkers := h.workers_eq
      simp only [workersOf, h.k8sMode, Bool.false_eq_true, if_false, Option.some.injEq] at hworkers
      simp only [workersOf, setHealth, h.k8sMode, h.pdMode, Bool.false_eq_true, if_false, if_true,
        hworkers]
  | next hnext =>
      obtain ⟨hpd, hworkers⟩ := hstored (stored_of_next hnext)
      exact ⟨hmode, hpd, hworkers, hpolicy⟩
  | finish _ hfinish =>
      obtain ⟨hpd, hworkers⟩ := hstored (stored_of_finish hfinish)
      exact ⟨hmode, hpd, hworkers, hpolicy⟩
  | record pool ctx i ambient =>
      obtain ⟨hpd, hworkers⟩ := hstored (stored_of_record s.app pool ctx i ambient)
      exact ⟨hmode, hpd, hworkers, hpolicy⟩

theorem K8sStep.no_pool {s t : Session} (hstep : K8sStep s t) (hmode : s.app.k8sMode = true)
    (hnone : s.app.workersOf .regular = none) : t.app.workersOf .regular = none := by
  cases hstep with
  | serve hserve =>
      have hurls := hserve.alike.urls .regular
      rw [hnone, Option.map_none, Option.map_eq_none_iff] at hurls
      exact hurls
  | add pool url => exact workersOf_updatePool_eq_none hmode hnone _ _
  | remove pool url => exact workersOf_updatePool_eq_none hmode hnone _ _

theorem no_pool_of_reachable {pdMode : PdMode} {policyType : Policy}
    {prefillPool decodePool : List Worker} {app : AppState}
    (hnew : newK8sPd pdMode policyType prefillPool decodePool = .ok app) {s : Session}
    (hs : Runs.Reachable (· = start app) K8sStep s) : s.app.workersOf .regular = none := by
  refine (hs.invariant
    (fun s => s.app.k8sMode = true ∧ s.app.workersOf .regular = none) ?_ ?_).2
  · rintro _ rfl
    simp only [newK8sPd, bind_eq_ok] at hnew
    obtain ⟨prefill, -, decode, -, hnew⟩ := hnew
    cases hnew
    exact ⟨rfl, rfl⟩
  · rintro s t - ⟨hmode, hnone⟩ hstep
    exact ⟨hstep.samePolicies.k8sMode_eq.trans hmode, hstep.no_pool hmode hnone⟩

/-- A request for no inference endpoint goes to the regular selection. With the same decode workers
in both modes, one of them healthy, it is served in every state of a static deployment and in none
of a Kubernetes deployment. -/
theorem served_in_static_only (crates : Crates) {pdMode : PdMode} {parts : Parts}
    (hpath : isInferencePath parts.path = false)
    {prefillWorkers decodeWorkers : List Worker} {prefillPolicy decodePolicy : Balancer}
    {static : AppState}
    (hstatic : newPd pdMode prefillWorkers decodeWorkers prefillPolicy decodePolicy = .ok static)
    {policyType : Policy} {prefillPool decodePool : List Worker} {k8s : AppState}
    (hk8s : newK8sPd pdMode policyType prefillPool decodePool = .ok k8s) {s t : Session}
    (hs : Runs.Reachable (· = start static) Step s)
    (ht : Runs.Reachable (· = start k8s) K8sStep t) {workers : List Worker}
    (hworkers : s.app.workersOf .decode = some workers)
    (hhealthy : ∃ worker ∈ workers, worker.healthy = true) (ctx : RequestContext)
    (ambient : Ambient) :
    pdProxyHandler crates (some pdMode) parts = pdProxyHandler crates none parts ∧
      s.app.Serves workers ctx ambient ∧ ∀ discovered, ¬t.app.Serves discovered ctx ambient := by
  have hfallsBack : s.app.FallsBack :=
    hs.invariant (fun s => s.app.FallsBack) (by rintro _ rfl; exact fallsBack_newPd hstatic)
      fun _ _ _ h hstep => hstep.fallsBack h
  exact ⟨pdProxyHandler_of_not_inference crates (some pdMode) hpath,
    hfallsBack.serves hworkers hhealthy ctx ambient,
    fun discovered => not_serves_of_no_pool (no_pool_of_reachable hk8s ht) discovered ctx ambient⟩

theorem roundRobin_of_one_worker :
    ∃ app, newPd .vllm [.new "10.0.0.1:8000"] [.new "10.0.0.2:8000"] (.roundRobin .new)
        (.roundRobin .new) = .ok app ∧
      app.workersOf .decode = some [.new "10.0.0.2:8000"] ∧
      app.Serves [.new "10.0.0.2:8000"] ⟨"", ""⟩ ⟨fun _ => 0, 0⟩ :=
  ⟨_, rfl, rfl, 0, "10.0.0.2:8000", _, rfl, rfl⟩

theorem isInferencePath_models : isInferencePath "/v1/models" = false := by
  simp [isInferencePath, containsText_of_longer]

/-- The same two workers behind the same policies, found in the cluster. -/
theorem not_served_in_both_modes :
    ∃ static k8s, newPd .vllm [.new "10.0.0.1:8000"] [.new "10.0.0.2:8000"] (.roundRobin .new)
        (.roundRobin .new) = .ok static ∧
      newK8sPd .vllm .roundRobin [.new "10.0.0.1:8000"] [.new "10.0.0.2:8000"] = .ok k8s ∧
      static.workersOf .decode = k8s.workersOf .decode ∧
      isInferencePath "/v1/models" = false ∧
      ¬(static.Serves [.new "10.0.0.2:8000"] ⟨"", ""⟩ ⟨fun _ => 0, 0⟩ ∧
        k8s.Serves [.new "10.0.0.2:8000"] ⟨"", ""⟩ ⟨fun _ => 0, 0⟩) :=
  ⟨_, _, rfl, rfl, rfl, isInferencePath_models, fun h => not_serves_of_no_pool rfl _ _ _ h.2⟩

theorem models_served_in_static_only :
    ∃ static k8s : AppState, pdProxyHandler plainCrates (some .vllm) ⟨"GET", "/v1/models", none, []⟩ =
        pdProxyHandler plainCrates none ⟨"GET", "/v1/models", none, []⟩ ∧
      static.Serves [.new "10.0.0.2:8000"] ⟨"", ""⟩ ⟨fun _ => 0, 0⟩ ∧
      ∀ discovered, ¬k8s.Serves discovered ⟨"", ""⟩ ⟨fun _ => 0, 0⟩ := by
  obtain ⟨static, hstatic, hworkers, -⟩ := roundRobin_of_one_worker
  obtain ⟨k8s, hk8s⟩ : ∃ k8s, newK8sPd .vllm .roundRobin [.new "10.0.0.1:8000"]
      [.new "10.0.0.2:8000"] = .ok k8s := ⟨_, rfl⟩
  have hpath : isInferencePath (Parts.path ⟨"GET", "/v1/models", none, []⟩) = false :=
    isInferencePath_models
  exact ⟨static, k8s, served_in_static_only plainCrates hpath hstatic hk8s (.of_start rfl)
    (.of_start rfl) hworkers ⟨_, List.mem_singleton_self _, rfl⟩ ⟨"", ""⟩ ⟨fun _ => 0, 0⟩⟩

end Session

end TokenDog
