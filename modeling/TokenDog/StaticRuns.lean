import TokenDog.Selection
import TokenDog.Lib.Runs

/-!
# Runs in static mode

Selections, completions of outstanding requests, records and health checks in any order, from a
state built by `AppState.new` or `AppState.new_pd`. The pools keep their workers and the policies
their kind and their number of counters, so that every index a call computes stays in range.
-/

namespace TokenDog

namespace AppState

/-- A static deployment whose policies, made by `make_policy` for their pools, are all `allowed`. -/
inductive StaticStart (allowed : Policy → Prop) : AppState → Prop
  | regular {workers : List Worker} {policy : Policy} {balancer : Balancer} {app : AppState}
      (hallowed : allowed policy)
      (hpolicy : Balancer.makePolicy policy workers.length = .ok balancer)
      (hnew : AppState.new workers balancer = .ok app) : StaticStart allowed app
  | pd {pdMode : PdMode} {prefillWorkers decodeWorkers : List Worker}
      {prefillKind decodeKind : Policy} {prefillPolicy decodePolicy : Balancer} {app : AppState}
      (hprefillAllowed : allowed prefillKind) (hdecodeAllowed : allowed decodeKind)
      (hprefill : Balancer.makePolicy prefillKind prefillWorkers.length = .ok prefillPolicy)
      (hdecode : Balancer.makePolicy decodeKind decodeWorkers.length = .ok decodePolicy)
      (hnew : newPd pdMode prefillWorkers decodeWorkers prefillPolicy decodePolicy = .ok app) :
      StaticStart allowed app

/-- Two states with the same mode, the same kinds of policies and equally many counters in every
pool. Counts may differ. -/
structure SamePolicies (app app' : AppState) : Prop where
  k8sMode_eq : app'.k8sMode = app.k8sMode
  policyOf_eq : app'.policyOf = app.policyOf
  lengths : ∀ pool, (app'.countersOf pool).map List.length = (app.countersOf pool).map List.length

/-- Two states of one deployment, with the same workers as well. Health flags may differ. -/
structure Alike (app app' : AppState) : Prop extends SamePolicies app app' where
  urls : ∀ pool, (app'.workersOf pool).map (List.map Worker.url) =
    (app.workersOf pool).map (List.map Worker.url)

theorem SamePolicies.refl (app : AppState) : SamePolicies app app := ⟨rfl, rfl, fun _ => rfl⟩

theorem SamePolicies.trans {first second third : AppState} (h : SamePolicies first second)
    (h' : SamePolicies second third) : SamePolicies first third :=
  ⟨h'.k8sMode_eq.trans h.k8sMode_eq, h'.policyOf_eq.trans h.policyOf_eq,
    fun pool => (h'.lengths pool).trans (h.lengths pool)⟩

theorem SamePolicies.of_countersOf_eq {app app' : AppState} (hmode : app'.k8sMode = app.k8sMode)
    (hpolicy : app'.policyOf = app.policyOf) (hcounters : app'.countersOf = app.countersOf) :
    SamePolicies app app' :=
  ⟨hmode, hpolicy, fun pool => by rw [hcounters]⟩

theorem SamePolicies.lt {app app' : AppState} (h : SamePolicies app app') {pool : Pool} {i : Nat}
    (hlt : ∀ active ∈ app.countersOf pool, i < active.length) :
    ∀ active ∈ app'.countersOf pool, i < active.length := by
  intro active' hactive'
  have hlengths := h.lengths pool
  rw [hactive', Option.map_some, eq_comm, Option.map_eq_some_iff] at hlengths
  obtain ⟨active, hactive, hlength⟩ := hlengths
  exact hlength ▸ hlt active hactive

namespace Alike

theorem refl (app : AppState) : Alike app app := ⟨.refl app, fun _ => rfl⟩

theorem trans {first second third : AppState} (h : Alike first second) (h' : Alike second third) :
    Alike first third :=
  ⟨h.toSamePolicies.trans h'.toSamePolicies, fun pool => (h'.urls pool).trans (h.urls pool)⟩

theorem of_counted {app app' : AppState} {pool : Pool} {i : Nat} {f : Nat → Nat}
    (h : app.Counted pool i f app') : Alike app app' where
  urls other := by rw [h.workersOf_eq]
  k8sMode_eq := h.k8sMode_eq
  policyOf_eq := h.policyOf_eq
  lengths other := by
    rw [h.countersOf_eq]
    by_cases hother : other = pool
    · subst hother
      simp [Function.comp_def]
    · simp [hother]

theorem of_record (app : AppState) (pool : Pool) (ctx : RequestContext) (i : Nat)
    (ambient : Ambient) : Alike app (app.record pool ctx i ambient) where
  urls other := by rw [workersOf_record]
  toSamePolicies := .of_countersOf_eq (k8sMode_record app pool ctx i ambient)
    (policyOf_record app pool ctx i ambient) (countersOf_record app pool ctx i ambient)

theorem of_setHealth (app : AppState) (flags : Pool → Nat → Bool) :
    Alike app (app.setHealth flags) where
  urls := urls_setHealth app flags
  toSamePolicies := .of_countersOf_eq rfl (policyOf_setHealth app flags)
    (countersOf_setHealth app flags)

theorem of_next {app app' : AppState} {pool : Pool} {ctx : RequestContext} {ambient : Ambient}
    {result : Option (Nat × String)} (h : app.next pool ctx ambient = .ok (result, app')) :
    Alike app app' := by
  rcases next_eq_ok h with ⟨-, rfl⟩ | ⟨i, url, -, hdispatched⟩
  · exact refl app'
  · exact of_counted hdispatched.toCounted

theorem of_finish {app app' : AppState} {pool : Pool} {i : Nat} (h : app.finish pool i = .ok app') :
    Alike app app' := by
  rcases finish_eq_ok h with ⟨-, rfl⟩ | hcounted
  · exact refl app'
  · exact of_counted hcounted

end Alike

/-- The pool has a counter for every worker, if its policy keeps counters. -/
def Covered (app : AppState) (pool : Pool) : Prop :=
  ∀ workers active, app.workersOf pool = some workers → app.countersOf pool = some active →
    workers.length ≤ active.length

theorem Covered.of_alike {app app' : AppState} {pool : Pool} (h : app.Covered pool)
    (halike : Alike app app') : app'.Covered pool := by
  intro workers' active' hworkers' hactive'
  have hurls := halike.urls pool
  have hlengths := halike.lengths pool
  rw [hworkers', Option.map_some, eq_comm, Option.map_eq_some_iff] at hurls
  rw [hactive', Option.map_some, eq_comm, Option.map_eq_some_iff] at hlengths
  obtain ⟨workers, hworkers, hurls⟩ := hurls
  obtain ⟨active, hactive, hlength⟩ := hlengths
  have hworkersLength : workers.length = workers'.length := by
    simpa using congrArg List.length hurls
  rw [← hworkersLength, ← hlength]
  exact h workers active hworkers hactive

theorem Covered.fits {app : AppState} {pool : Pool} (h : app.Covered pool) {workers : List Worker}
    {balancer : Balancer} (hworkers : app.workersOf pool = some workers)
    (hbalancer : app.balancerOf pool = some balancer) : balancer.Fits workers.length := by
  intro active hactive
  exact h workers active hworkers (by simpa [countersOf, hbalancer] using hactive)

theorem StaticStart.counters {allowed : Policy → Prop} {app : AppState}
    (h : StaticStart allowed app) {pool : Pool} {workers : List Worker} {active : Counters}
    (hworkers : app.workersOf pool = some workers) (hactive : app.countersOf pool = some active) :
    active = Counters.zeros workers.length := by
  cases h with
  | regular hallowed hpolicy hnew =>
      unfold AppState.new at hnew
      split at hnew <;> cases hnew
      cases pool <;> simp [workersOf, countersOf, balancerOf] at hworkers hactive
      subst hworkers
      exact Balancer.active?_of_makePolicy hpolicy active hactive
  | pd hprefillAllowed hdecodeAllowed hprefill hdecode hnew =>
      unfold newPd at hnew
      split at hnew <;> [cases hnew; split at hnew] <;> cases hnew
      cases pool <;> simp [workersOf, countersOf, balancerOf, Balancer.active?] at hworkers hactive
      · subst hworkers
        exact Balancer.active?_of_makePolicy hprefill active hactive
      · subst hworkers
        exact Balancer.active?_of_makePolicy hdecode active hactive

theorem StaticStart.exists_workersOf {allowed : Policy → Prop} {app : AppState}
    (h : StaticStart allowed app) (pool : Pool) : ∃ workers, app.workersOf pool = some workers := by
  cases h with
  | regular hallowed hpolicy hnew =>
      unfold AppState.new at hnew
      split at hnew <;> cases hnew
      cases pool <;> exact ⟨_, rfl⟩
  | pd hprefillAllowed hdecodeAllowed hprefill hdecode hnew =>
      unfold newPd at hnew
      split at hnew <;> [cases hnew; split at hnew] <;> cases hnew
      cases pool <;> exact ⟨_, rfl⟩

theorem StaticStart.covered {allowed : Policy → Prop} {app : AppState}
    (h : StaticStart allowed app) (pool : Pool) : app.Covered pool := by
  intro workers active hworkers hactive
  rw [h.counters hworkers hactive, Counters.length_zeros]

theorem StaticStart.workersOf_of_no_policy {allowed : Policy → Prop} {app : AppState}
    (h : StaticStart allowed app) {pool : Pool} (hnone : app.balancerOf pool = none) :
    app.workersOf pool = some [] := by
  cases h with
  | regular hallowed hpolicy hnew =>
      unfold AppState.new at hnew
      split at hnew <;> cases hnew
      cases pool
      · cases hnone
      · rfl
      · rfl
  | pd hprefillAllowed hdecodeAllowed hprefill hdecode hnew =>
      unfold newPd at hnew
      split at hnew <;> [cases hnew; split at hnew] <;> cases hnew
      cases pool <;> cases hnone

theorem StaticStart.policyOf {allowed : Policy → Prop} {app : AppState}
    (h : StaticStart allowed app) (hfallback : allowed .roundRobin) {pool : Pool} {kind : Policy}
    (hkind : app.policyOf pool = some kind) : allowed kind := by
  cases h with
  | regular hallowed hpolicy hnew =>
      unfold AppState.new at hnew
      split at hnew <;> cases hnew
      cases pool <;> simp [AppState.policyOf, balancerOf, Balancer.policy_of_makePolicy hpolicy] at hkind
      exact hkind ▸ hallowed
  | pd hprefillAllowed hdecodeAllowed hprefill hdecode hnew =>
      unfold newPd at hnew
      split at hnew <;> [cases hnew; split at hnew] <;> cases hnew
      cases pool <;> simp [AppState.policyOf, balancerOf, Balancer.policy_of_makePolicy hprefill,
        Balancer.policy_of_makePolicy hdecode] at hkind
      · exact hkind ▸ hfallback
      · exact hkind ▸ hprefillAllowed
      · exact hkind ▸ hdecodeAllowed

end AppState

/-- A running router and the requests that were dispatched and have not completed. -/
structure Session where
  app : AppState
  outstanding : List (Pool × Nat)

namespace Session

inductive Step : Session → Session → Prop
  | health (s : Session) (flags : Pool → Nat → Bool) :
      Step s ⟨s.app.setHealth flags, s.outstanding⟩
  | next {s : Session} {pool : Pool} {ctx : RequestContext} {ambient : Ambient}
      {result : Option (Nat × String)} {app' : AppState}
      (h : s.app.next pool ctx ambient = .ok (result, app')) :
      Step s ⟨app', (result.map fun entry => (pool, entry.1)).toList ++ s.outstanding⟩
  | finish {s : Session} {pool : Pool} {i : Nat} {app' : AppState}
      (hmem : (pool, i) ∈ s.outstanding) (h : s.app.finish pool i = .ok app') :
      Step s ⟨app', s.outstanding.erase (pool, i)⟩
  | record (s : Session) (pool : Pool) (ctx : RequestContext) (i : Nat) (ambient : Ambient) :
      Step s ⟨s.app.record pool ctx i ambient, s.outstanding⟩

def start (app : AppState) : Session := ⟨app, []⟩

theorem Step.alike {s t : Session} (h : Step s t) : s.app.Alike t.app := by
  cases h with
  | health flags => exact .of_setHealth s.app flags
  | next h => exact .of_next h
  | finish _ h => exact .of_finish h
  | record pool ctx i ambient => exact .of_record s.app pool ctx i ambient

theorem alike_of_reachable {app : AppState} {s : Session}
    (h : Runs.Reachable (· = start app) Step s) : app.Alike s.app :=
  h.invariant (fun s => app.Alike s.app) (by rintro _ rfl; exact .refl app)
    fun _ _ _ halike hstep => halike.trans hstep.alike

/-- A selection in any reachable state returns. It returns `None` exactly when no worker of the pool
is healthy, and then changes nothing. Otherwise it returns a worker of the pool that is healthy at
the scan, and adds one to the counter of that worker and to no other counter of any pool. -/
theorem next_total {app : AppState} {s : Session} {pool : Pool} {workers : List Worker}
    (hstart : AppState.StaticStart (· ≠ .prefixAffinity) app)
    (hs : Runs.Reachable (· = start app) Step s) (hworkers : app.workersOf pool = some workers)
    (ctx : RequestContext) (ambient : Ambient) :
    ∃ result app' now, s.app.next pool ctx ambient = .ok (result, app') ∧
      s.app.workersOf pool = some now ∧ now.map Worker.url = workers.map Worker.url ∧
      (result = none ↔ ∀ worker ∈ now, worker.healthy = false) ∧
      (result = none → app' = s.app) ∧
      ∀ i url, result = some (i, url) →
        i < workers.length ∧ now[i]? = some ⟨url, true⟩ ∧ workers[i]?.map Worker.url = some url ∧
        (∀ active, s.app.countersOf pool = some active →
          i < active.length ∧ app'.countersOf pool = some (active.modify i (· + 1))) ∧
        ∀ other, other ≠ pool → app'.countersOf other = s.app.countersOf other := by
  have halike := alike_of_reachable hs
  have hurls := halike.urls pool
  rw [hworkers, Option.map_some, Option.map_eq_some_iff] at hurls
  obtain ⟨now, hnow, hurls⟩ := hurls
  by_cases hnone : healthyWorkerUrls now = []
  · have hnext : s.app.next pool ctx ambient = .ok (none, s.app) := by
      refine AppState.next_of_none_healthy ctx ambient fun workers' hworkers' => ?_
      rw [hnow, Option.some.injEq] at hworkers'
      rw [← hworkers', hnone]
    refine ⟨none, s.app, now, hnext, hnow, hurls, ?_, fun _ => rfl, by simp⟩
    exact ⟨fun _ => healthyWorkerUrls_eq_nil_iff.mp hnone, fun _ => rfl⟩
  · have hbalancer : s.app.balancerOf pool ≠ none := by
      intro hmissing
      have hkind : app.balancerOf pool = none := by
        have := congrFun halike.policyOf_eq pool
        simpa [AppState.policyOf, hmissing] using this
      rw [hstart.workersOf_of_no_policy hkind, Option.some.injEq] at hworkers
      subst hworkers
      exact hnone (by rw [List.map_eq_nil_iff.mp hurls]; rfl)
    obtain ⟨balancer, hbalancer⟩ := Option.ne_none_iff_exists'.mp hbalancer
    have hpolicy : balancer.policy ≠ .prefixAffinity := by
      have hkind : app.policyOf pool = some balancer.policy := by
        rw [← halike.policyOf_eq, AppState.policyOf, hbalancer, Option.map_some]
      exact hstart.policyOf (by decide) hkind
    have hfits := ((hstart.covered pool).of_alike halike).fits hnow hbalancer
    obtain ⟨i, url, balancer', hselect, hpicked⟩ :=
      AppState.selectFrom_total ctx ambient hpolicy hfits hnone
    have hnext := AppState.next_of_selectFrom hnow hbalancer hselect
    refine ⟨some (i, url), _, now, hnext, hnow, hurls, ?_, by simp, ?_⟩
    · rw [← healthyWorkerUrls_eq_nil_iff]
      simp [hnone]
    · rcases AppState.next_eq_ok hnext with ⟨hsome, -⟩ | ⟨i, url, hsome, hdispatched⟩
      · cases hsome
      · cases hsome
        intro j url' hsome
        cases hsome
        have hurl : workers[i]?.map Worker.url = some url := by
          rw [← List.getElem?_map, ← hurls, List.getElem?_map, hpicked.entry, Option.map_some]
        refine ⟨?_, hpicked.entry, hurl, fun active hactive => ?_, fun other hother => ?_⟩
        · obtain ⟨worker, hworker, -⟩ := Option.map_eq_some_iff.mp hurl
          exact (List.getElem?_eq_some_iff.mp hworker).1
        · exact ⟨hdispatched.lt active hactive, hdispatched.countersOf_self hactive⟩
        · exact hdispatched.countersOf_of_ne hother

def twoWorkers : List Worker := [⟨"http://a:8000", true⟩, ⟨"http://b:8000", false⟩]

/-- The probes find the first worker down and the second one up, which is then selected. -/
theorem next_total_twoWorkers :
    ∃ app s, AppState.new twoWorkers (.leastLoaded (.new 2)) = .ok app ∧
      Runs.Reachable (· = start app) Step s ∧
      s.app.workersOf .regular = some [⟨"http://a:8000", false⟩, ⟨"http://b:8000", true⟩] ∧
      ∃ app', s.app.next .regular ⟨"", ""⟩ ⟨fun _ => 0, 0⟩ = .ok (some (1, "http://b:8000"), app') := by
  obtain ⟨app, hnew⟩ : ∃ app, AppState.new twoWorkers (.leastLoaded (.new 2)) = .ok app := ⟨_, rfl⟩
  have hstart : AppState.StaticStart (· ≠ .prefixAffinity) app :=
    @AppState.StaticStart.regular _ twoWorkers .leastLoaded _ _ (by decide) rfl hnew
  have hfirst : Runs.Reachable (· = start app) Step (start app) := .of_start rfl
  have hprobed := hfirst.tail (.health _ fun _ i => i = 1)
  have hworkers : app.workersOf .regular = some twoWorkers := by
    cases hnew
    rfl
  have hflags : (app.setHealth fun _ i => i = 1).workersOf .regular =
      some [⟨"http://a:8000", false⟩, ⟨"http://b:8000", true⟩] := by
    cases hnew
    rfl
  obtain ⟨result, app', now, hnext, hnow, -, hnone, -, hsome⟩ :=
    next_total hstart hprobed hworkers ⟨"", ""⟩ ⟨fun _ => 0, 0⟩
  cases hflags.symm.trans hnow
  cases result with
  | none => cases hnone.mp rfl ⟨"http://b:8000", true⟩ (List.mem_cons_of_mem _ List.mem_cons_self)
  | some selected =>
      obtain ⟨i, url⟩ := selected
      obtain ⟨hlt, hentry, -⟩ := hsome i url rfl
      match i with
      | 0 => cases hentry
      | 1 =>
          cases hentry
          exact ⟨app, _, hnew, hprobed, hflags, app', hnext⟩
      | i + 2 => exact absurd hlt (Nat.not_lt.mpr (Nat.le_add_left 2 i))

end Session

end TokenDog
