import TokenDog.StaticRuns
import TokenDog.Discovery.Pools
import Mathlib

/-!
# Runs in Kubernetes mode

The operations of a session interleaved with the pool updates of service discovery. The counters are
made once, at start-up; no step changes their number, while the pools grow without bound.
-/

namespace TokenDog

namespace AppState

def updatePool (app : AppState) (pool : Pool) (f : List Worker → List Worker) : AppState :=
  match pool with
  | .regular => { app with k8sWorkersPool := app.k8sWorkersPool.map f }
  | .prefill => { app with k8sPrefillPool := app.k8sPrefillPool.map f }
  | .decode => { app with k8sDecodePool := app.k8sDecodePool.map f }

theorem workersOf_setHealth {app : AppState} (hmode : app.k8sMode = true)
    (flags : Pool → Nat → Bool) (pool : Pool) :
    (app.setHealth flags).workersOf pool = (app.workersOf pool).map (setFlags (flags pool)) := by
  cases pool <;> simp [workersOf, setHealth, hmode]

@[simp]
theorem balancerOf_updatePool (app : AppState) (pool other : Pool) (f : List Worker → List Worker) :
    (app.updatePool pool f).balancerOf other = app.balancerOf other := by
  cases pool <;> cases other <;> rfl

@[simp]
theorem k8sMode_updatePool (app : AppState) (pool : Pool) (f : List Worker → List Worker) :
    (app.updatePool pool f).k8sMode = app.k8sMode := by
  cases pool <;> rfl

@[simp]
theorem countersOf_updatePool (app : AppState) (pool : Pool) (f : List Worker → List Worker) :
    (app.updatePool pool f).countersOf = app.countersOf :=
  funext fun other => by simp [countersOf]

@[simp]
theorem policyOf_updatePool (app : AppState) (pool : Pool) (f : List Worker → List Worker) :
    (app.updatePool pool f).policyOf = app.policyOf :=
  funext fun other => by simp [policyOf]

theorem workersOf_updatePool {app : AppState} (hmode : app.k8sMode = true) (pool : Pool)
    (f : List Worker → List Worker) :
    (app.updatePool pool f).workersOf =
      Function.update app.workersOf pool ((app.workersOf pool).map f) := by
  funext other
  cases pool <;> cases other <;> simp [workersOf, updatePool, hmode]

/-- A Kubernetes deployment over the given pools. -/
inductive K8sStart : AppState → Prop
  | regular {policyType : Policy} {workersPool : List Worker} {app : AppState}
      (hnew : newK8s policyType workersPool = .ok app) : K8sStart app
  | pd {pdMode : PdMode} {policyType : Policy} {prefillPool decodePool : List Worker}
      {app : AppState} (hnew : newK8sPd pdMode policyType prefillPool decodePool = .ok app) :
      K8sStart app

/-- A pool that exists has a policy. -/
def Paired (app : AppState) : Prop :=
  app.k8sMode = true ∧ ∀ pool, (app.workersOf pool).isSome → (app.balancerOf pool).isSome

theorem K8sStart.paired {app : AppState} (h : K8sStart app) : app.Paired := by
  cases h with
  | regular hnew =>
      simp only [newK8s, bind_eq_ok] at hnew
      obtain ⟨fallback, -, balancer, -, hnew⟩ := hnew
      cases hnew
      exact ⟨rfl, fun pool => by cases pool <;> simp [workersOf, balancerOf]⟩
  | pd hnew =>
      simp only [newK8sPd, bind_eq_ok] at hnew
      obtain ⟨prefill, -, decode, -, hnew⟩ := hnew
      cases hnew
      exact ⟨rfl, fun pool => by cases pool <;> simp [workersOf, balancerOf]⟩

theorem exists_newK8s (policyType : Policy) (workersPool : List Worker) :
    ∃ app, newK8s policyType workersPool = .ok app := by
  have hpolicy : ∀ n, ∃ balancer, makePolicy policyType n = .ok balancer := fun n =>
    Balancer.exists_makePolicy (by omega) policyType
  obtain ⟨fallback, hfallback⟩ := hpolicy (max workersPool.length 1)
  obtain ⟨balancer, hbalancer⟩ := hpolicy (capacity workersPool.length)
  simp only [newK8s, hfallback, hbalancer, ok_bind]
  exact ⟨_, rfl⟩

end AppState

namespace Session

/-- A step of a Kubernetes deployment: an operation of the session, or a pool update. -/
inductive K8sStep : Session → Session → Prop
  | serve {s t : Session} (h : Step s t) : K8sStep s t
  | add (s : Session) (pool : Pool) (url : String) :
      K8sStep s ⟨s.app.updatePool pool (addWorkerToPool · url), s.outstanding⟩
  | remove (s : Session) (pool : Pool) (url : String) :
      K8sStep s ⟨s.app.updatePool pool (removeWorkerFromPool · url), s.outstanding⟩

theorem K8sStep.samePolicies {s t : Session} (h : K8sStep s t) : s.app.SamePolicies t.app := by
  cases h with
  | serve h => exact h.alike.toSamePolicies
  | add pool url =>
      exact .of_countersOf_eq (by simp) (by simp) (by simp)
  | remove pool url =>
      exact .of_countersOf_eq (by simp) (by simp) (by simp)

theorem samePolicies_of_run {s t : Session} (h : Relation.ReflTransGen K8sStep s t) :
    s.app.SamePolicies t.app := by
  induction h with
  | refl => exact .refl s.app
  | tail _ hlast ih => exact ih.trans hlast.samePolicies

theorem samePolicies_of_reachable {app : AppState} {s : Session}
    (hs : Runs.Reachable (· = start app) K8sStep s) : app.SamePolicies s.app := by
  obtain ⟨_, rfl, hrun⟩ := hs
  exact samePolicies_of_run hrun

theorem K8sStep.paired {s t : Session} (h : K8sStep s t) (hpaired : s.app.Paired) :
    t.app.Paired := by
  obtain ⟨hmode, hpair⟩ := hpaired
  have hsame := h.samePolicies
  refine ⟨hsame.k8sMode_eq.trans hmode, fun pool hworkers => ?_⟩
  have hpolicy : (t.app.balancerOf pool).isSome = (s.app.balancerOf pool).isSome := by
    have := congrArg Option.isSome (congrFun hsame.policyOf_eq pool)
    simpa [AppState.policyOf] using this
  rw [hpolicy]
  apply hpair
  rw [← hworkers]
  cases h with
  | serve h =>
      have := congrArg Option.isSome (h.alike.urls pool)
      simpa using this.symm
  | add other url =>
      rw [AppState.workersOf_updatePool hmode]
      by_cases hpool : pool = other
      · subst hpool
        simp
      · simp [hpool]
  | remove other url =>
      rw [AppState.workersOf_updatePool hmode]
      by_cases hpool : pool = other
      · subst hpool
        simp
      · simp [hpool]

theorem paired_of_reachable {app : AppState} {s : Session} (hstart : app.K8sStart)
    (hs : Runs.Reachable (· = start app) K8sStep s) : s.app.Paired :=
  hs.invariant (fun s => s.app.Paired) (by rintro _ rfl; exact hstart.paired)
    fun _ _ _ hpaired hstep => hstep.paired hpaired

/-- Every selection with a healthy worker, whatever the flags, the request and the draws, returns a
healthy entry of the pool, and completing that request is in range in every later state. -/
def Safe (s : Session) (pool : Pool) : Prop :=
  ∀ flags ctx ambient workers, (s.app.setHealth flags).workersOf pool = some workers →
    (∃ worker ∈ workers, worker.healthy = true) →
    ∃ i url app', (s.app.setHealth flags).next pool ctx ambient = .ok (some (i, url), app') ∧
      workers[i]? = some ⟨url, true⟩ ∧
      ∀ t, Relation.ReflTransGen K8sStep ⟨app', (pool, i) :: s.outstanding⟩ t →
        ∃ app'', t.app.finish pool i = .ok app''

/-- There is a counter for every worker, and `PrefixAffinity`, for each number `k` of healthy workers
and each prefix, has an idle enough preferred worker or a candidate with the smallest counter of
all. -/
structure InBounds (app : AppState) (pool : Pool) : Prop where
  covered : app.Covered pool
  prefixAffinity : ∀ policy workers ctx k, app.balancerOf pool = some (.prefixAffinity policy) →
    app.workersOf pool = some workers → 1 < k → k ≤ workers.length →
    policy.active.inFlight (PrefixAffinity.preferred ctx k) < policy.threshold ∨
      ∃ i < k, policy.active.inFlight i = minQueue policy.active

theorem Safe.covered {s : Session} {pool : Pool} (hpaired : s.app.Paired) (hsafe : s.Safe pool) :
    s.app.Covered pool := by
  intro workers active hworkers hactive
  by_contra hlength
  rw [Nat.not_le] at hlength
  let flags : Pool → Nat → Bool := fun _ i => decide (i = active.length)
  have hflagged : (s.app.setHealth flags).workersOf pool = some (setFlags (flags pool) workers) := by
    rw [AppState.workersOf_setHealth hpaired.1, hworkers, Option.map_some]
  obtain ⟨worker, hworker⟩ : ∃ worker, workers[active.length]? = some worker :=
    ⟨_, List.getElem?_eq_getElem hlength⟩
  have hhealthy : ∃ worker ∈ setFlags (flags pool) workers, worker.healthy = true := by
    refine ⟨⟨worker.url, true⟩, List.mem_of_getElem? (i := active.length) ?_, rfl⟩
    rw [getElem?_setFlags, hworker]
    simp [flags]
  obtain ⟨i, url, app', hnext, hentry, -⟩ := hsafe flags ⟨"", ""⟩ ⟨fun _ => 0, 0⟩ _ hflagged hhealthy
  have hi : i = active.length := by
    rw [getElem?_setFlags, Option.map_eq_some_iff] at hentry
    obtain ⟨worker, -, hworker⟩ := hentry
    simpa [flags] using congrArg Worker.healthy hworker
  rcases AppState.next_eq_ok hnext with ⟨hnone, -⟩ | ⟨j, url', hsome, hdispatched⟩
  · cases hnone
  · cases hsome
    have hlt := hdispatched.lt active (by rw [AppState.countersOf_setHealth]; exact hactive)
    omega

theorem Safe.inBounds {s : Session} {pool : Pool} (hpaired : s.app.Paired) (hsafe : s.Safe pool) :
    InBounds s.app pool where
  covered := hsafe.covered hpaired
  prefixAffinity := by
    intro policy workers ctx k hbalancer hworkers hk hlength
    by_contra hfar
    rw [not_or, Nat.not_lt, not_exists] at hfar
    obtain ⟨habove, hties⟩ := hfar
    have hfit : workers.length ≤ policy.active.length :=
      (hsafe.covered hpaired).fits hworkers hbalancer policy.active rfl
    let flags : Pool → Nat → Bool := fun _ i => decide (i < k)
    have hflagged : (s.app.setHealth flags).workersOf pool =
        some (setFlags (flags pool) workers) := by
      rw [AppState.workersOf_setHealth hpaired.1, hworkers, Option.map_some]
    have hcount : (healthyWorkerUrls (setFlags (flags pool) workers)).length = k :=
      length_healthyWorkerUrls_setFlags hlength
    have hne : healthyWorkerUrls (setFlags (flags pool) workers) ≠ [] :=
      List.ne_nil_of_length_pos (by omega)
    have hpanic : AppState.selectFrom (setFlags (flags pool) workers) (.prefixAffinity policy) ctx
        ⟨fun _ => 0, 0⟩ = .error .emptyRange := by
      apply AppState.selectFrom_of_panic hne
      have hurls : ((healthyWorkerUrls (setFlags (flags pool) workers)).map Prod.snd).length = k := by
        rw [List.length_map, hcount]
      rw [Balancer.selectWithContext_prefixAffinity_fallback ctx _ (by simpa using hne) policy
        (by omega) (by omega) (by rw [hurls]; exact habove), hurls]
      have hnil : shortestQueues policy.active k = [] := by
        rw [List.eq_nil_iff_forall_not_mem]
        exact fun i hi => hties i (mem_shortestQueues.mp hi)
      rw [hnil]
      rfl
    obtain ⟨i, url, app', hnext, -⟩ := hsafe flags ctx ⟨fun _ => 0, 0⟩ _ hflagged
      (healthyWorkerUrls_ne_nil_iff.mp hne)
    rw [AppState.next_eq, hflagged, AppState.balancerOf_setHealth, hbalancer] at hnext
    simp only [hpanic] at hnext
    cases hnext

theorem InBounds.exists_selectFrom {app : AppState} {pool : Pool} (h : InBounds app pool)
    {workers : List Worker} {balancer : Balancer} (hworkers : app.workersOf pool = some workers)
    (hbalancer : app.balancerOf pool = some balancer) (flags : Nat → Bool) (ctx : RequestContext)
    (ambient : Ambient) (hne : healthyWorkerUrls (setFlags flags workers) ≠ []) :
    ∃ i url balancer', AppState.selectFrom (setFlags flags workers) balancer ctx ambient =
      .ok (some (i, url), balancer') := by
  have hlength : (setFlags flags workers).length = workers.length := List.length_mapIdx
  have hfits : balancer.Fits (setFlags flags workers).length := by
    rw [hlength]
    exact h.covered.fits hworkers hbalancer
  by_cases hpolicy : balancer.policy = .prefixAffinity
  · cases balancer <;> simp only [Balancer.policy, reduceCtorEq] at hpolicy
    case prefixAffinity policy =>
      have hurls : ((healthyWorkerUrls (setFlags flags workers)).map Prod.snd).length =
          (healthyWorkerUrls (setFlags flags workers)).length := List.length_map _
      have hle := length_healthyWorkerUrls_le (setFlags flags workers)
      have hpos := List.length_pos_of_ne_nil hne
      have hfit := hfits policy.active rfl
      rcases Balancer.selectWithContext_prefixAffinity ctx ambient (by simpa using hne)
        ((hurls.trans_le hle).trans hfit) with ⟨k, hselect, hk⟩ | ⟨hone, habove, hnil, -⟩
      · obtain ⟨⟨i, url⟩, hentry⟩ :
            ∃ entry, (healthyWorkerUrls (setFlags flags workers))[k]? = some entry :=
          ⟨_, List.getElem?_eq_getElem (hk.trans_eq hurls)⟩
        obtain ⟨balancer', hok⟩ := AppState.exists_selectFrom_of_select hfits hselect hentry
        exact ⟨i, url, balancer', hok⟩
      · rw [hurls] at hone habove hnil
        rcases h.prefixAffinity policy workers ctx _ hbalancer hworkers (by omega)
          (hle.trans_eq hlength) with hbelow | ⟨i, hi, hmin⟩
        · omega
        · exact absurd (mem_shortestQueues.mpr ⟨hi, hmin⟩) (by simp [hnil])
  · obtain ⟨i, url, balancer', hok, -⟩ :=
      AppState.selectFrom_total ctx ambient hpolicy hfits hne
    exact ⟨i, url, balancer', hok⟩

theorem InBounds.safe {s : Session} {pool : Pool} (hpaired : s.app.Paired)
    (h : InBounds s.app pool) : s.Safe pool := by
  intro flags ctx ambient flagged hflagged hhealthy
  have hworkers := hflagged
  rw [AppState.workersOf_setHealth hpaired.1, Option.map_eq_some_iff] at hworkers
  obtain ⟨workers, hworkers, rfl⟩ := hworkers
  obtain ⟨balancer, hbalancer⟩ := Option.isSome_iff_exists.mp
    (hpaired.2 pool (by rw [hworkers]; rfl))
  obtain ⟨i, url, balancer', hselect⟩ := h.exists_selectFrom hworkers hbalancer (flags pool) ctx
    ambient (healthyWorkerUrls_ne_nil_iff.mpr hhealthy)
  have hnext := AppState.next_of_selectFrom hflagged
    ((AppState.balancerOf_setHealth s.app flags pool).trans hbalancer) hselect
  refine ⟨i, url, _, hnext, (AppState.Picked.of_selectFrom hselect).entry, fun t hrun => ?_⟩
  rcases AppState.next_eq_ok hnext with ⟨hnone, -⟩ | ⟨j, url', hsome, hdispatched⟩
  · cases hnone
  · cases hsome
    -- the counters never change their number, neither in the selection nor in the run behind it
    have hsame := (AppState.Alike.of_counted hdispatched.toCounted).toSamePolicies.trans
      (samePolicies_of_run hrun)
    exact AppState.exists_finish _ (hsame.lt hdispatched.lt)

/-- In every reachable state, a pool is safe to select from exactly when it is in bounds. -/
theorem safe_iff_inBounds {app : AppState} {s : Session} (hstart : app.K8sStart)
    (hs : Runs.Reachable (· = start app) K8sStep s) (pool : Pool) :
    s.Safe pool ↔ InBounds s.app pool :=
  ⟨Safe.inBounds (paired_of_reachable hstart hs), InBounds.safe (paired_of_reachable hstart hs)⟩

theorem safe_of_two_workers :
    ∃ app, AppState.newK8s .leastLoaded [⟨"10.0.0.1:8000", true⟩, ⟨"10.0.0.2:8000", true⟩] =
      .ok app ∧ (start app).Safe .regular := by
  obtain ⟨app, hnew⟩ := AppState.exists_newK8s .leastLoaded
    [⟨"10.0.0.1:8000", true⟩, ⟨"10.0.0.2:8000", true⟩]
  refine ⟨app, hnew, (safe_iff_inBounds (.regular hnew) (.of_start rfl) .regular).mpr ?_⟩
  cases hnew
  refine ⟨fun workers active hworkers hactive => ?_, fun policy workers ctx k hbalancer => ?_⟩
  · cases hworkers
    cases hactive
    simp [AppState.capacity, LeastLoaded.new]
  · cases hbalancer

def podUrl (i : Nat) : String :=
  "10.0." ++ (if i < 200 then "0." ++ Nat.repr i else "1." ++ Nat.repr (i - 200)) ++ ":8000"

theorem podUrl_injective : Function.Injective podUrl := by
  intro i j h
  simp only [podUrl, String.append_left_inj, String.append_right_inj] at h
  split at h <;> split at h
  · exact Nat.repr_injective ((String.append_right_inj _).mp h)
  · have := congrArg String.toList h
    simp at this
  · have := congrArg String.toList h
    simp at this
  · have := Nat.repr_injective ((String.append_right_inj _).mp h)
    omega

theorem exists_grown {app : AppState} (hmode : app.k8sMode = true)
    (hempty : app.workersOf .regular = some []) (n : Nat) :
    ∃ s, Runs.Reachable (· = start app) K8sStep s ∧
      s.app.workersOf .regular = some ((List.range n).map fun i => Worker.new (podUrl i)) := by
  induction n with
  | zero => exact ⟨start app, .of_start rfl, hempty⟩
  | succ n ih =>
      obtain ⟨s, hs, hworkers⟩ := ih
      have hnew : podUrl n ∉ ((List.range n).map fun i => Worker.new (podUrl i)).map Worker.url := by
        simp only [List.map_map, List.mem_map, List.mem_range, Function.comp_apply, not_exists,
          not_and]
        intro i hi heq
        exact absurd (podUrl_injective heq) (Nat.ne_of_lt hi)
      refine ⟨_, hs.tail (.add s .regular (podUrl n)), ?_⟩
      rw [AppState.workersOf_updatePool ((samePolicies_of_reachable hs).k8sMode_eq.trans hmode),
        Function.update_self, hworkers, Option.map_some, addWorkerToPool_of_not_mem hnew,
        List.range_succ, List.map_append]
      rfl

/-- With 257 pods behind 256 counters, a pool whose last worker is the only healthy one panics. -/
theorem not_safe_of_257_workers :
    ∃ app s, AppState.newK8s .leastLoaded [] = .ok app ∧
      Runs.Reachable (· = start app) K8sStep s ∧
      s.app.workersOf .regular = some ((List.range 257).map fun i => Worker.new (podUrl i)) ∧
      ¬s.Safe .regular := by
  obtain ⟨app, hnew⟩ := AppState.exists_newK8s .leastLoaded []
  have hstart : app.K8sStart := .regular hnew
  have hfacts : app.workersOf .regular = some [] ∧
      app.countersOf .regular = some (Counters.zeros 256) := by
    cases hnew
    exact ⟨rfl, rfl⟩
  obtain ⟨s, hs, hworkers⟩ := exists_grown hstart.paired.1 hfacts.1 257
  refine ⟨app, s, hnew, hs, hworkers, fun hsafe => ?_⟩
  have hlengths := (samePolicies_of_reachable hs).lengths .regular
  rw [hfacts.2, Option.map_some, Counters.length_zeros, Option.map_eq_some_iff] at hlengths
  obtain ⟨active, hactive, hlength⟩ := hlengths
  have := hsafe.covered (paired_of_reachable hstart hs) _ active hworkers hactive
  rw [List.length_map, List.length_range, hlength] at this
  omega

end Session

end TokenDog
