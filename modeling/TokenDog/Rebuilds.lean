import TokenDog.K8sRuns
import TokenDog.Accounting
import TokenDog.Policies.Rules

/-!
# Rebuilding the policies

`rebuild_policy` puts a fresh policy, with zero counters and as many of them as there are workers,
behind every discovered pool. Requests that are in flight then complete against counters that do not
count them: a counter is decremented at zero exactly when as many requests completed as were selected
since the counters were made.
-/

namespace TokenDog

namespace AppState

def rebuilt (policyType : Policy) (pool : Option (List Worker)) (balancer : Option Balancer) :
    Except Panic (Option Balancer) :=
  match pool, balancer with
  | some workers, some _ => do return some (← makePolicy policyType (max workers.length 1))
  | _, balancer => .ok balancer

def rebuildPolicy (app : AppState) : Except Panic AppState :=
  match app.policyType with
  | none => .ok app
  | some policyType => do
      let k8sBalancer ← rebuilt policyType app.k8sWorkersPool app.k8sBalancer
      let k8sPrefillBalancer ← rebuilt policyType app.k8sPrefillPool app.k8sPrefillBalancer
      let k8sDecodeBalancer ← rebuilt policyType app.k8sDecodePool app.k8sDecodeBalancer
      return { app with k8sBalancer, k8sPrefillBalancer, k8sDecodeBalancer }

/-- `fetch_add` on counter `i` of a pool wraps around, as an atomic of 64 bits does. Only a counter
that was decremented at zero can be that large. -/
def wrap (app : AppState) (pool : Pool) (i : Nat) : AppState :=
  match app.balancerOf pool with
  | some balancer => app.setBalancer pool (balancer.mapActive (·.modify i (· % 2 ^ 64)))
  | none => app

/-- The policy of every pool is a counting one of the given kind. -/
structure Counting (app : AppState) (policyType : Policy) : Prop where
  k8sMode : app.k8sMode = true
  policyType_eq : app.policyType = some policyType
  tracksLoad : policyType.tracksLoad = true
  policyOf : ∀ pool, app.policyOf pool = (app.workersOf pool).map fun _ => policyType

section Counting

variable {app app' : AppState} {policyType : Policy}

theorem Counting.policy_eq (h : app.Counting policyType) {pool : Pool} {balancer : Balancer}
    (hbalancer : app.balancerOf pool = some balancer) : balancer.policy = policyType := by
  have hpolicy := h.policyOf pool
  rw [AppState.policyOf, hbalancer, Option.map_some, eq_comm, Option.map_eq_some_iff] at hpolicy
  obtain ⟨-, -, hpolicy⟩ := hpolicy
  exact hpolicy.symm

theorem Counting.exists_active? (h : app.Counting policyType) {pool : Pool} {balancer : Balancer}
    (hbalancer : app.balancerOf pool = some balancer) : ∃ active, balancer.active? = some active := by
  rw [← Option.isSome_iff_exists, balancer.isSome_active?, h.policy_eq hbalancer, h.tracksLoad]

theorem Counting.exists_balancerOf (h : app.Counting policyType) {pool : Pool}
    {workers : List Worker} (hworkers : app.workersOf pool = some workers) :
    ∃ balancer, app.balancerOf pool = some balancer := by
  have hpolicy := h.policyOf pool
  rw [hworkers, Option.map_some, AppState.policyOf, Option.map_eq_some_iff] at hpolicy
  obtain ⟨balancer, hbalancer, -⟩ := hpolicy
  exact ⟨balancer, hbalancer⟩

theorem Counting.of_eq (h : app.Counting policyType) (hmode : app'.k8sMode = app.k8sMode)
    (hkind : app'.policyType = app.policyType) (hpolicy : app'.policyOf = app.policyOf)
    (hworkers : ∀ pool, (app'.workersOf pool).isSome = (app.workersOf pool).isSome) :
    app'.Counting policyType where
  k8sMode := hmode.trans h.k8sMode
  policyType_eq := hkind.trans h.policyType_eq
  tracksLoad := h.tracksLoad
  policyOf pool := by
    rw [hpolicy, h.policyOf pool]
    have hsome := hworkers pool
    cases hbefore : app.workersOf pool <;> cases hafter : app'.workersOf pool <;> simp_all

theorem Counting.counted (h : app.Counting policyType) {pool : Pool} {i : Nat} {f : Nat → Nat}
    (hcounted : app.Counted pool i f app') : app'.Counting policyType :=
  h.of_eq hcounted.k8sMode_eq hcounted.policyType_eq hcounted.policyOf_eq fun other => by
    rw [hcounted.workersOf_eq]

end Counting

theorem counted_wrap {app : AppState} {pool : Pool} {balancer : Balancer} {i : Nat}
    (hbalancer : app.balancerOf pool = some balancer)
    (hlt : ∀ active ∈ app.countersOf pool, i < active.length) :
    app.Counted pool i (· % 2 ^ 64) (app.wrap pool i) := by
  have hfits : balancer.Fits (i + 1) := fun active hactive =>
    hlt active (by rw [countersOf, hbalancer, Option.bind_some]; exact hactive)
  rw [wrap, hbalancer]
  exact .of_setBalancer hbalancer (Balancer.policy_mapActive _ _) hfits
    (Balancer.active?_mapActive _ _)

theorem active?_of_makePolicy {policyType : Policy} {n : Nat} {balancer : Balancer}
    (htracks : policyType.tracksLoad = true) (h : makePolicy policyType n = .ok balancer) :
    balancer.active? = some (Counters.zeros (max n 1)) := by
  obtain ⟨active, hactive⟩ : ∃ active, balancer.active? = some active := by
    rw [← Option.isSome_iff_exists, balancer.isSome_active?, Balancer.policy_of_makePolicy h, htracks]
  rw [hactive, Balancer.active?_of_makePolicy h active hactive]

/-- Every pool has a new policy of the same kind, with a zero counter for each of its workers. -/
structure Rebuilt (app : AppState) (policyType : Policy) (app' : AppState) : Prop where
  counting : app'.Counting policyType
  workersOf_eq : app'.workersOf = app.workersOf
  countersOf_eq : ∀ pool, app'.countersOf pool =
    (app.workersOf pool).map fun workers => Counters.zeros (max workers.length 1)

theorem exists_rebuilt {app : AppState} {policyType : Policy} (hcounting : app.Counting policyType)
    (pool : Pool) :
    ∃ balancer, rebuilt policyType (app.workersOf pool) (app.balancerOf pool) = .ok balancer ∧
      balancer.map Balancer.policy = (app.workersOf pool).map (fun _ => policyType) ∧
      balancer.bind Balancer.active? =
        (app.workersOf pool).map fun workers => Counters.zeros (max workers.length 1) := by
  have hpolicy := hcounting.policyOf pool
  cases hworkers : app.workersOf pool with
  | none =>
      rw [hworkers, Option.map_none, AppState.policyOf, Option.map_eq_none_iff] at hpolicy
      exact ⟨none, by rw [hpolicy]; rfl, rfl, rfl⟩
  | some workers =>
      rw [hworkers, Option.map_some, AppState.policyOf, Option.map_eq_some_iff] at hpolicy
      obtain ⟨balancer, hbalancer, -⟩ := hpolicy
      obtain ⟨fresh, hfresh⟩ : ∃ fresh, makePolicy policyType (max workers.length 1) = .ok fresh :=
        Balancer.exists_makePolicy (by omega) policyType
      refine ⟨some fresh, by rw [hbalancer, rebuilt, hfresh]; rfl, ?_, ?_⟩
      · rw [Option.map_some, Option.map_some, Balancer.policy_of_makePolicy hfresh]
      · rw [Option.bind_some, active?_of_makePolicy hcounting.tracksLoad hfresh, Option.map_some,
          max_assoc, max_self]

/-- A rebuild returns, and leaves every pool with zero counters. -/
theorem rebuildPolicy_total {app : AppState} {policyType : Policy}
    (hcounting : app.Counting policyType) :
    ∃ app', app.rebuildPolicy = .ok app' ∧ app.Rebuilt policyType app' := by
  have hmode := hcounting.k8sMode
  obtain ⟨regular, hregular, hregularPolicy, hregularActive⟩ := exists_rebuilt hcounting .regular
  obtain ⟨prefill, hprefill, hprefillPolicy, hprefillActive⟩ := exists_rebuilt hcounting .prefill
  obtain ⟨decode, hdecode, hdecodePolicy, hdecodeActive⟩ := exists_rebuilt hcounting .decode
  simp only [workersOf, balancerOf, hmode, if_true] at hregular hprefill hdecode
  refine ⟨{ app with
    k8sBalancer := regular, k8sPrefillBalancer := prefill, k8sDecodeBalancer := decode }, ?_, ?_⟩
  · simp only [rebuildPolicy, hcounting.policyType_eq, hregular, hprefill, hdecode, ok_bind,
      pure_eq_ok]
  · refine ⟨⟨hmode, hcounting.policyType_eq, hcounting.tracksLoad, fun pool => ?_⟩, ?_, fun pool => ?_⟩
    · cases pool <;> simp only [policyOf, balancerOf, workersOf, hmode, if_true] at *
      · exact hregularPolicy
      · exact hprefillPolicy
      · exact hdecodePolicy
    · funext pool
      cases pool <;> rfl
    · cases pool <;> simp only [countersOf, balancerOf, workersOf, hmode, if_true] at *
      · exact hregularActive
      · exact hprefillActive
      · exact hdecodeActive

end AppState

/-- What handlers, health checks and service discovery call. -/
inductive StateCall where
  | health (flags : Pool → Nat → Bool)
  | next (pool : Pool) (ctx : RequestContext) (ambient : Ambient)
  | finish (pool : Pool) (i : Nat)
  | record (pool : Pool) (ctx : RequestContext) (i : Nat) (ambient : Ambient)
  | add (pool : Pool) (url : String)
  | remove (pool : Pool) (url : String)
  | rebuild

/-- A session and what has happened to its counters since they were made, at the start or by the last
rebuild: how many there are, and what was selected and completed. -/
structure Epoch extends Session where
  made : Pool → Nat
  selected : Multiset WorkerId
  completed : Multiset WorkerId

namespace Epoch

open Accounting (heldAt heldAt_cons_self heldAt_cons_of_ne count_heldAt)

/-- The counters of a pool are made from its length. -/
def opened (app : AppState) (outstanding : List WorkerId) (capacity : Nat → Nat) : Epoch where
  app := app
  outstanding := outstanding
  made pool := capacity ((app.workersOf pool).getD []).length
  selected := 0
  completed := 0

def start (app : AppState) : Epoch := opened app [] AppState.capacity

/-- A call. One that panics ends its task and leaves the counters alone; a request whose completion
panics is over as well. -/
def exec (s : Epoch) : StateCall → Epoch
  | .health flags => { s with app := s.app.setHealth flags }
  | .next pool ctx ambient =>
      match s.app.next pool ctx ambient with
      | .ok (some (i, _), app) =>
          { s with
            app := app.wrap pool i
            outstanding := (pool, i) :: s.outstanding
            selected := (pool, i) ::ₘ s.selected }
      | .ok (none, app) => { s with app }
      | .error _ => s
  | .finish pool i =>
      match s.app.finish pool i with
      | .ok app =>
          { s with
            app
            outstanding := s.outstanding.erase (pool, i)
            completed := (pool, i) ::ₘ s.completed }
      | .error _ => { s with outstanding := s.outstanding.erase (pool, i) }
  | .record pool ctx i ambient => { s with app := s.app.record pool ctx i ambient }
  | .add pool url => { s with app := s.app.updatePool pool (addWorkerToPool · url) }
  | .remove pool url => { s with app := s.app.updatePool pool (removeWorkerFromPool · url) }
  | .rebuild =>
      match s.app.rebuildPolicy with
      | .ok app => opened app s.outstanding (max · 1)
      | .error _ => s

/-- Only outstanding requests are finished. -/
def Allows (s : Epoch) : StateCall → Prop
  | .finish pool i => (pool, i) ∈ s.outstanding
  | _ => True

def Step (s t : Epoch) : Prop := ∃ call, s.Allows call ∧ t = s.exec call

/-- The policy is notified of indices that it has a counter for, and of no end at a zero counter. -/
def Safely (s : Epoch) : StateCall → Prop
  | .next pool ctx ambient => ∀ workers balancer k selected i url,
      s.app.workersOf pool = some workers → s.app.balancerOf pool = some balancer →
      balancer.selectWithContext ((healthyWorkerUrls workers).map Prod.snd) ctx ambient =
        .ok (k, selected) →
      (healthyWorkerUrls workers)[k]? = some (i, url) →
      ∀ active ∈ selected.active?, i < active.length
  | .finish pool i => ∀ active ∈ s.app.countersOf pool, i < active.length ∧ 0 < active.inFlight i
  | _ => True

/-- The healthy worker that the rule of the policy takes is among the first of the pool, as many as
counters were made; and of the worker that a request completes at, not as many requests completed as
were selected since then. -/
def Backed (s : Epoch) : StateCall → Prop
  | .next pool ctx ambient => ∀ workers balancer k i url,
      s.app.workersOf pool = some workers → s.app.balancerOf pool = some balancer →
      balancer.Takes ctx ambient (healthyWorkerUrls workers).length k →
      (healthyWorkerUrls workers)[k]? = some (i, url) → i < s.made pool
  | .finish pool i =>
      ¬s.selected.count (pool, i) ≡ s.completed.count (pool, i) [MOD 2 ^ 64]
  | _ => True

/-- What every run keeps: the counters are as many as were made, and count what was selected less
what completed since then. -/
structure Books (policyType : Policy) (s : Epoch) : Prop where
  counting : s.app.Counting policyType
  length : ∀ pool active, s.app.countersOf pool = some active → active.length = s.made pool
  wrapped : ∀ pool active, s.app.countersOf pool = some active →
    Ledger.Wrapped (2 ^ 64) active.inFlight (heldAt pool s.selected) (heldAt pool s.completed)
  pooled : ∀ worker ∈ s.outstanding, (s.app.workersOf worker.1).isSome = true

section Books

variable {policyType : Policy} {s : Epoch} {app' : AppState}

theorem Books.opened {app : AppState} {outstanding : List WorkerId} {capacity : Nat → Nat}
    (hcounting : app.Counting policyType)
    (hzeros : ∀ pool, app.countersOf pool =
      (app.workersOf pool).map fun workers => Counters.zeros (capacity workers.length))
    (hpooled : ∀ worker ∈ outstanding, (app.workersOf worker.1).isSome = true) :
    Books policyType (opened app outstanding capacity) where
  counting := hcounting
  length pool active hactive := by
    have hmade := (hzeros pool).symm.trans hactive
    rw [Option.map_eq_some_iff] at hmade
    obtain ⟨workers, hworkers, rfl⟩ := hmade
    simp [Epoch.opened, hworkers]
  wrapped pool active hactive := by
    have hmade := (hzeros pool).symm.trans hactive
    rw [Option.map_eq_some_iff] at hmade
    obtain ⟨workers, -, rfl⟩ := hmade
    exact .empty (by norm_num) (Counters.inFlight_zeros _)
  pooled := hpooled

/-- A call that moves no counter. -/
theorem Books.of_countersOf_eq (h : s.Books policyType) (hcounting : app'.Counting policyType)
    (hcounters : app'.countersOf = s.app.countersOf)
    (hworkers : ∀ pool, (app'.workersOf pool).isSome = (s.app.workersOf pool).isSome) :
    Books policyType { s with app := app' } where
  counting := hcounting
  length pool active hactive := h.length pool active (by rw [← hcounters]; exact hactive)
  wrapped pool active hactive := h.wrapped pool active (by rw [← hcounters]; exact hactive)
  pooled worker hmem := (hworkers worker.1).trans (h.pooled worker hmem)

theorem Books.updatePool (h : s.Books policyType) (pool : Pool) (f : List Worker → List Worker) :
    Books policyType { s with app := s.app.updatePool pool f } := by
  have hworkers : ∀ other, ((s.app.updatePool pool f).workersOf other).isSome =
      (s.app.workersOf other).isSome := by
    intro other
    rw [AppState.workersOf_updatePool h.counting.k8sMode]
    by_cases hother : other = pool
    · subst hother
      rw [Function.update_self, Option.isSome_map]
    · rw [Function.update_of_ne hother]
  refine h.of_countersOf_eq (h.counting.of_eq (by simp) ?_ (by simp) hworkers) (by simp) hworkers
  cases pool <;> rfl

/-- A call that rewrites counter `i`, with what it adds to the history. -/
theorem Books.counted (h : s.Books policyType) {pool : Pool} {i : Nat} {f : Nat → Nat}
    (hcounted : s.app.Counted pool i f app') {outstanding : List WorkerId}
    {selected completed : Multiset WorkerId}
    (hsub : ∀ worker ∈ outstanding, worker = (pool, i) ∨ worker ∈ s.outstanding)
    (hpool : (s.app.workersOf pool).isSome = true)
    (hself : ∀ counts, Ledger.Wrapped (2 ^ 64) counts (heldAt pool s.selected)
        (heldAt pool s.completed) →
      Ledger.Wrapped (2 ^ 64) (Function.update counts i (f (counts i))) (heldAt pool selected)
        (heldAt pool completed))
    (hothers : ∀ other, other ≠ pool → heldAt other selected = heldAt other s.selected ∧
      heldAt other completed = heldAt other s.completed) :
    Books policyType ⟨⟨app', outstanding⟩, s.made, selected, completed⟩ where
  counting := h.counting.counted hcounted
  length other active' hactive' := by
    by_cases hother : other = pool
    · subst hother
      change app'.countersOf other = _ at hactive'
      rw [hcounted.countersOf_eq, Function.update_self, Option.map_eq_some_iff] at hactive'
      obtain ⟨active, hactive, rfl⟩ := hactive'
      rw [List.length_modify]
      exact h.length other active hactive
    · exact h.length other active' ((hcounted.countersOf_of_ne hother).symm.trans hactive')
  wrapped other active' hactive' := by
    by_cases hother : other = pool
    · subst hother
      change app'.countersOf other = _ at hactive'
      rw [hcounted.countersOf_eq, Function.update_self, Option.map_eq_some_iff] at hactive'
      obtain ⟨active, hactive, rfl⟩ := hactive'
      rw [Counters.inFlight_modify_eq_update (hcounted.lt active hactive)]
      exact hself _ (h.wrapped other active hactive)
    · obtain ⟨hselected, hcompleted⟩ := hothers other hother
      change Ledger.Wrapped _ _ (heldAt other selected) (heldAt other completed)
      rw [hselected, hcompleted]
      exact h.wrapped other active' ((hcounted.countersOf_of_ne hother).symm.trans hactive')
  pooled worker hmem := by
    change (app'.workersOf worker.1).isSome = true
    rw [hcounted.workersOf_eq]
    rcases hsub worker hmem with rfl | hold
    · exact hpool
    · exact h.pooled worker hold

theorem Books.next (h : s.Books policyType) (pool : Pool) (ctx : RequestContext)
    (ambient : Ambient) : (s.exec (.next pool ctx ambient)).Books policyType := by
  cases hnext : s.app.next pool ctx ambient with
  | error panic =>
      simp only [exec, hnext]
      exact h
  | ok answer =>
      obtain ⟨result, app'⟩ := answer
      rcases AppState.next_eq_ok hnext with ⟨rfl, rfl⟩ | ⟨i, url, rfl, hdispatched⟩
      · simp only [exec, hnext]
        exact h
      · simp only [exec, hnext]
        obtain ⟨workers, hworkers, -⟩ := hdispatched.entry
        have hpool : (s.app.workersOf pool).isSome = true := by rw [hworkers, Option.isSome_some]
        have hcounting := h.counting.counted hdispatched.toCounted
        obtain ⟨balancer, hbalancer⟩ := hcounting.exists_balancerOf
          (show app'.workersOf pool = some workers by rw [hdispatched.workersOf_eq, hworkers])
        have hlt := (AppState.Alike.of_counted hdispatched.toCounted).lt hdispatched.lt
        have hcounted := hdispatched.toCounted.trans (AppState.counted_wrap hbalancer hlt)
        refine h.counted hcounted ?_ hpool ?_ ?_
        · intro worker hmem
          exact List.mem_cons.mp hmem
        · intro counts hwrapped
          rw [heldAt_cons_self]
          exact hwrapped.acquire i
        · intro other hother
          exact ⟨heldAt_cons_of_ne hother i s.selected, rfl⟩

theorem Books.finish (h : s.Books policyType) {pool : Pool} {i : Nat}
    (hmem : (pool, i) ∈ s.outstanding) : (s.exec (.finish pool i)).Books policyType := by
  have hpool := h.pooled _ hmem
  cases hfinish : s.app.finish pool i with
  | error panic =>
      simp only [exec, hfinish]
      exact
        { counting := h.counting
          length := h.length
          wrapped := h.wrapped
          pooled := fun worker hworker => h.pooled worker (List.mem_of_mem_erase hworker) }
  | ok app' =>
      simp only [exec, hfinish]
      rcases AppState.finish_eq_ok hfinish with ⟨hnone, -⟩ | hcounted
      · obtain ⟨workers, hworkers⟩ := Option.isSome_iff_exists.mp hpool
        obtain ⟨balancer, hbalancer⟩ := h.counting.exists_balancerOf hworkers
        rw [hnone] at hbalancer
        cases hbalancer
      · refine h.counted hcounted ?_ hpool ?_ ?_
        · intro worker hworker
          exact Or.inr (List.mem_of_mem_erase hworker)
        · intro counts hwrapped
          rw [heldAt_cons_self]
          exact hwrapped.release i
        · intro other hother
          exact ⟨rfl, heldAt_cons_of_ne hother i s.completed⟩

theorem Books.rebuild (h : s.Books policyType) : (s.exec .rebuild).Books policyType := by
  obtain ⟨app', hrebuild, hrebuilt⟩ := AppState.rebuildPolicy_total h.counting
  simp only [exec, hrebuild]
  refine .opened hrebuilt.counting (fun pool => ?_) fun worker hmem => ?_
  · rw [hrebuilt.countersOf_eq, hrebuilt.workersOf_eq]
  · rw [hrebuilt.workersOf_eq]
    exact h.pooled worker hmem

theorem Books.exec (h : s.Books policyType) {call : StateCall} (hallows : s.Allows call) :
    (s.exec call).Books policyType := by
  cases call with
  | health flags =>
      have hworkers : ∀ pool, ((s.app.setHealth flags).workersOf pool).isSome =
          (s.app.workersOf pool).isSome := by
        intro pool
        rw [AppState.workersOf_setHealth h.counting.k8sMode, Option.isSome_map]
      exact h.of_countersOf_eq (h.counting.of_eq rfl rfl (by simp) hworkers) (by simp) hworkers
  | next pool ctx ambient => exact h.next pool ctx ambient
  | finish pool i => exact h.finish hallows
  | record pool ctx i ambient =>
      have hworkers : ∀ other, ((s.app.record pool ctx i ambient).workersOf other).isSome =
          (s.app.workersOf other).isSome := by
        intro other
        rw [AppState.workersOf_record]
      refine h.of_countersOf_eq (h.counting.of_eq ?_ ?_ ?_ hworkers) ?_ hworkers
      · exact AppState.k8sMode_record s.app pool ctx i ambient
      · rw [AppState.record_eq]
        split
        · exact AppState.policyType_setBalancer _ _ _
        · rfl
      · exact AppState.policyOf_record s.app pool ctx i ambient
      · exact AppState.countersOf_record s.app pool ctx i ambient
  | add pool url => exact h.updatePool pool _
  | remove pool url => exact h.updatePool pool _
  | rebuild => exact h.rebuild

end Books

theorem active?_of_capacity {policyType : Policy} {n : Nat} {balancer : Balancer}
    (htracks : policyType.tracksLoad = true)
    (h : AppState.makePolicy policyType (AppState.capacity n) = .ok balancer) :
    balancer.active? = some (Counters.zeros (AppState.capacity n)) := by
  have hpos : 1 ≤ AppState.capacity n := (show 1 ≤ 256 by decide).trans (Nat.le_max_right n 256)
  rw [AppState.active?_of_makePolicy htracks h, max_eq_left hpos]

theorem books_start {app : AppState} (hstart : app.K8sStart) {policyType : Policy}
    (hkind : app.policyType = some policyType) (htracks : policyType.tracksLoad = true) :
    (start app).Books policyType := by
  cases hstart with
  | regular hnew =>
      simp only [AppState.newK8s, bind_eq_ok] at hnew
      obtain ⟨fallback, -, balancer, hmake, hnew⟩ := hnew
      cases hnew
      cases hkind
      have hpolicy := Balancer.policy_of_makePolicy hmake
      have hactive := active?_of_capacity htracks hmake
      refine .opened ⟨rfl, rfl, htracks, fun pool => ?_⟩ (fun pool => ?_) (by simp)
      · cases pool <;> simp [AppState.policyOf, AppState.balancerOf, AppState.workersOf, hpolicy]
      · cases pool <;> simp [AppState.countersOf, AppState.balancerOf, AppState.workersOf, hactive]
  | pd hnew =>
      simp only [AppState.newK8sPd, bind_eq_ok] at hnew
      obtain ⟨prefill, hprefill, decode, hdecode, hnew⟩ := hnew
      cases hnew
      cases hkind
      have hprefillPolicy := Balancer.policy_of_makePolicy hprefill
      have hdecodePolicy := Balancer.policy_of_makePolicy hdecode
      have hprefillActive := active?_of_capacity htracks hprefill
      have hdecodeActive := active?_of_capacity htracks hdecode
      refine .opened ⟨rfl, rfl, htracks, fun pool => ?_⟩ (fun pool => ?_) (by simp)
      · cases pool <;> simp [AppState.policyOf, AppState.balancerOf, AppState.workersOf,
          hprefillPolicy, hdecodePolicy]
      · cases pool <;> simp [AppState.countersOf, AppState.balancerOf, AppState.workersOf,
          hprefillActive, hdecodeActive]

theorem books_of_reachable {app : AppState} {policyType : Policy} (hstart : app.K8sStart)
    (hkind : app.policyType = some policyType) (htracks : policyType.tracksLoad = true) {s : Epoch}
    (hs : Runs.Reachable (· = start app) Step s) : s.Books policyType := by
  refine hs.invariant (Books policyType) ?_ ?_
  · rintro _ rfl
    exact books_start hstart hkind htracks
  · rintro s _ - hbooks ⟨call, hallows, rfl⟩
    exact hbooks.exec hallows

theorem Books.safely_next_iff {policyType : Policy} {s : Epoch} (h : s.Books policyType)
    (pool : Pool) (ctx : RequestContext) (ambient : Ambient) :
    s.Safely (.next pool ctx ambient) ↔ s.Backed (.next pool ctx ambient) := by
  have htakes : ∀ {workers : List Worker} {balancer : Balancer} {k i : Nat} {url : String},
      s.app.balancerOf pool = some balancer → (healthyWorkerUrls workers)[k]? = some (i, url) →
      ((∃ selected, balancer.selectWithContext ((healthyWorkerUrls workers).map Prod.snd) ctx
          ambient = .ok (k, selected)) ↔
        balancer.Takes ctx ambient (healthyWorkerUrls workers).length k) := by
    intro workers balancer k i url hbalancer hentry
    have hne : (healthyWorkerUrls workers).map Prod.snd ≠ [] := by
      intro hnil
      rw [List.map_eq_nil_iff.mp hnil] at hentry
      cases hentry
    have htracks : balancer.policy.tracksLoad = true := by
      rw [h.counting.policy_eq hbalancer, h.counting.tracksLoad]
    have hrule := @Balancer.exists_selectWithContext_iff balancer _ ctx ambient k htracks hne
    rwa [List.length_map] at hrule
  constructor
  · intro hsafely workers balancer k i url hworkers hbalancer hrule hentry
    obtain ⟨selected, hselect⟩ := (htakes hbalancer hentry).mpr hrule
    obtain ⟨active, hactive⟩ := h.counting.exists_active? hbalancer
    have hmade : active.length = s.made pool :=
      h.length pool active (by rw [AppState.countersOf, hbalancer, Option.bind_some, hactive])
    have hlt := hsafely workers balancer k selected i url hworkers hbalancer hselect hentry active
      (by rw [(Balancer.kept_of_selectWithContext hselect).2, hactive]; rfl)
    exact hmade ▸ hlt
  · intro hbacked workers balancer k selected i url hworkers hbalancer hselect hentry active hactive
    rw [(Balancer.kept_of_selectWithContext hselect).2] at hactive
    have hmade : active.length = s.made pool :=
      h.length pool active (by rw [AppState.countersOf, hbalancer, Option.bind_some]; exact hactive)
    rw [hmade]
    exact hbacked workers balancer k i url hworkers hbalancer
      ((htakes hbalancer hentry).mp ⟨selected, hselect⟩) hentry

theorem Books.safely_finish_iff {policyType : Policy} {s : Epoch} (h : s.Books policyType)
    {pool : Pool} {i : Nat} (hmem : (pool, i) ∈ s.outstanding) :
    s.Safely (.finish pool i) ↔ s.Backed (.finish pool i) := by
  obtain ⟨workers, hworkers⟩ := Option.isSome_iff_exists.mp (h.pooled _ hmem)
  obtain ⟨balancer, hbalancer⟩ := h.counting.exists_balancerOf hworkers
  obtain ⟨active, hactive⟩ := h.counting.exists_active? hbalancer
  have hcounters : s.app.countersOf pool = some active := by
    rw [AppState.countersOf, hbalancer, Option.bind_some, hactive]
  have hpos := (h.wrapped pool active hcounters).pos_iff i
  rw [count_heldAt, count_heldAt] at hpos
  simp only [Safely, hcounters, Option.mem_some_iff, forall_eq']
  exact ⟨fun hsafe => hpos.mp hsafe.2, fun hbacked =>
    ⟨Counters.lt_length_of_inFlight_pos (hpos.mpr hbacked), hpos.mpr hbacked⟩⟩

/-- A rebuild makes the completion of whatever is in flight unsafe. -/
theorem not_safely_of_rebuild {app : AppState} {policyType : Policy} (hstart : app.K8sStart)
    (hkind : app.policyType = some policyType) (htracks : policyType.tracksLoad = true) {s : Epoch}
    (hs : Runs.Reachable (· = start app) Step s) {pool : Pool} {i : Nat}
    (hmem : (pool, i) ∈ s.outstanding) :
    (s.exec .rebuild).Allows (.finish pool i) ∧ ¬(s.exec .rebuild).Safely (.finish pool i) := by
  have hbooks := books_of_reachable hstart hkind htracks hs
  obtain ⟨app', hrebuild, -⟩ := AppState.rebuildPolicy_total hbooks.counting
  have hafter : s.exec .rebuild = opened app' s.outstanding (max · 1) := by
    simp only [exec, hrebuild]
  have hallows : (s.exec .rebuild).Allows (.finish pool i) := by
    rw [hafter]
    exact hmem
  refine ⟨hallows, fun hsafely => ?_⟩
  have hbacked := (hbooks.rebuild.safely_finish_iff hallows).mp hsafely
  rw [hafter] at hbacked
  exact hbacked (Nat.ModEq.refl _)

/-- The calls of one deployment: a request is dispatched to the only worker, another worker is found,
the policy is rebuilt, and a second request is drawn to the new worker. -/
def secondWorkerCalls : List StateCall :=
  [.next .regular ⟨"", ""⟩ ⟨fun _ => 0, 0⟩, .add .regular "10.0.0.2:8000", .rebuild,
    .next .regular ⟨"", ""⟩ ⟨fun _ => 1, 0⟩]

theorem reachable_foldl {app : AppState} {s : Epoch} (hs : Runs.Reachable (· = start app) Step s)
    {calls : List StateCall} (hcalls : ∀ call ∈ calls, ∀ s : Epoch, s.Allows call) :
    Runs.Reachable (· = start app) Step (calls.foldl exec s) := by
  induction calls generalizing s with
  | nil => exact hs
  | cons call calls ih =>
      exact ih (hs.tail ⟨call, hcalls call List.mem_cons_self s, rfl⟩)
        fun later hlater => hcalls later (List.mem_cons_of_mem call hlater)

set_option maxRecDepth 8000 in
theorem exists_second_worker :
    ∃ app s, AppState.newK8s .leastLoaded [.new "10.0.0.1:8000"] = .ok app ∧
      app.policyType = some .leastLoaded ∧
      Runs.Reachable (· = start app) Step s ∧ s.outstanding = [(.regular, 1), (.regular, 0)] ∧
      s.selected = {(.regular, 1)} ∧ s.completed = 0 := by
  obtain ⟨app, hnew⟩ : ∃ app, AppState.newK8s .leastLoaded [.new "10.0.0.1:8000"] = .ok app :=
    ⟨_, rfl⟩
  refine ⟨app, secondWorkerCalls.foldl exec (start app), hnew, ?_, ?_, ?_, ?_, ?_⟩
  · cases hnew
    rfl
  · refine reachable_foldl (.of_start rfl) fun call hcall s => ?_
    fin_cases hcall <;> trivial
  all_goals
    cases hnew
    rfl

end Epoch

end TokenDog
