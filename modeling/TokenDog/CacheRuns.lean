import TokenDog.LoadRuns
import TokenDog.Policies.CacheScores
import TokenDog.Routes.Serving

/-!
# Cached prefixes over whole runs

The directory of a load and cache aware policy holds what the handlers have recorded, and they record
a worker only once it has served. While no probe of a pool has failed, a request therefore goes to a
worker that has served its prefix or its session if there is one, and otherwise to a worker with the
fewest requests in flight.
-/

namespace TokenDog

namespace CacheDirectory

/-- The entry names a position that was recorded, if one was. -/
def Attests (entry : Option (Nat × Nat)) (recorded : Nat → Prop) : Prop :=
  match entry with
  | some (i, _) => recorded i
  | none => ∀ i, ¬recorded i

/-- For every prefix and every session, the directory names a position that was recorded for it. -/
structure Remembers (cache : CacheDirectory) (records : RequestContext → Nat → Prop) : Prop where
  prefixMap : ∀ key, Attests (cache.prefixMap key) fun i => ∃ ctx, records ctx i ∧ ctx.prefixKey = key
  sessionMap : ∀ id, Attests (cache.sessionMap id) fun i => ∃ ctx, records ctx i ∧ ctx.sessionId = id

variable {cache : CacheDirectory} {records : RequestContext → Nat → Prop}

theorem remembers_new (staleness : Nat) : (new staleness).Remembers fun _ _ => False where
  prefixMap _ := fun _ ⟨_, hrecord, _⟩ => hrecord
  sessionMap _ := fun _ ⟨_, hrecord, _⟩ => hrecord

theorem attests_update {entries : String → Option (Nat × Nat)} {read : RequestContext → String}
    (h : ∀ key, Attests (entries key) fun i => ∃ ctx, records ctx i ∧ read ctx = key)
    (ctx : RequestContext) (i now : Nat) (key : String) :
    Attests (Function.update entries (read ctx) (some (i, now)) key)
      fun j => ∃ other, (other = ctx ∧ j = i ∨ records other j) ∧ read other = key := by
  by_cases hkey : key = read ctx
  · subst hkey
    rw [Function.update_self]
    exact ⟨ctx, Or.inl ⟨rfl, rfl⟩, rfl⟩
  · rw [Function.update_of_ne hkey]
    have hentry := h key
    cases hread : entries key with
    | none =>
        rw [hread] at hentry
        rintro j ⟨other, ⟨rfl, rfl⟩ | hrecord, hother⟩
        · exact hkey hother.symm
        · exact hentry j ⟨other, hrecord, hother⟩
    | some entry =>
        rw [hread] at hentry
        obtain ⟨other, hrecord, hother⟩ := hentry
        exact ⟨other, Or.inr hrecord, hother⟩

theorem Remembers.record (h : cache.Remembers records) (ctx : RequestContext) (i now : Nat) :
    (cache.record ctx.prefixKey ctx.sessionId i now).Remembers
      fun other j => other = ctx ∧ j = i ∨ records other j where
  prefixMap := attests_update h.prefixMap ctx i now
  sessionMap := attests_update h.sessionMap ctx i now

theorem holder_of_no_staleness (hstaleness : cache.staleness = 0) (now : Nat)
    (entry : Option (Nat × Nat)) : holder (cache.fresh now) entry = entry.map Prod.fst := by
  cases entry <;> simp [holder, fresh, hstaleness]

end CacheDirectory

namespace LoadCacheAware

/-- The weights and the staleness of `make_policy`. -/
structure Standard (policy : LoadCacheAware) : Prop where
  alpha : policy.alpha = 7 / 10
  beta : policy.beta = 3 / 10
  staleness : policy.cacheDir.staleness = 0

variable {policy : LoadCacheAware} {records : RequestContext → Nat → Prop} {ctx : RequestContext}
  {n now i : Nat}

theorem Standard.affinity_eq (h : policy.Standard) {j : Nat} (hj : j < n) :
    policy.affinity ctx n now j =
      if (policy.cacheDir.sessionMap ctx.sessionId).map Prod.fst = some j then 1 / 2
      else if (policy.cacheDir.prefixMap ctx.prefixKey).map Prod.fst = some j then 1
      else 0 := by
  rw [affinity, CacheDirectory.getD_getAffinity _ _ _ now hj, CacheDirectory.sessionHolder,
    CacheDirectory.prefixHolder, CacheDirectory.holder_of_no_staleness h.staleness,
    CacheDirectory.holder_of_no_staleness h.staleness]

theorem Preferred.affinity_le (h : policy.Preferred ctx n now i) {j : Nat} (hj : j < n) :
    policy.affinity ctx n now j ≤ policy.affinity ctx n now i :=
  (h.best j hj).elim le_of_lt fun hsame => hsame.1.le

/-- The position of the prefix is preferred, whether the session names it as well or another one. -/
theorem Preferred.of_prefix (h : policy.Preferred ctx n now i) (hstandard : policy.Standard)
    {a ts : Nat} (ha : a < n) (hentry : policy.cacheDir.prefixMap ctx.prefixKey = some (a, ts)) :
    i = a := by
  by_contra hother
  have hle := h.affinity_le ha
  have hkeyed : ¬(policy.cacheDir.prefixMap ctx.prefixKey).map Prod.fst = some i := by
    simpa [hentry] using Ne.symm hother
  rw [hstandard.affinity_eq ha, hstandard.affinity_eq h.lt, if_neg hkeyed] at hle
  by_cases hsession : (policy.cacheDir.sessionMap ctx.sessionId).map Prod.fst = some a
  · have hapart : ¬(policy.cacheDir.sessionMap ctx.sessionId).map Prod.fst = some i := by
      simpa [hsession] using Ne.symm hother
    rw [if_pos hsession, if_neg hapart] at hle
    norm_num at hle
  · rw [if_neg hsession, hentry, Option.map_some, if_pos rfl] at hle
    split at hle <;> norm_num at hle

/-- Without an entry for the prefix, the position of the session is. -/
theorem Preferred.of_session (h : policy.Preferred ctx n now i) (hstandard : policy.Standard)
    {b ts : Nat} (hb : b < n) (hnone : policy.cacheDir.prefixMap ctx.prefixKey = none)
    (hentry : policy.cacheDir.sessionMap ctx.sessionId = some (b, ts)) : i = b := by
  by_contra hother
  have hle := h.affinity_le hb
  have hsession : ¬(policy.cacheDir.sessionMap ctx.sessionId).map Prod.fst = some i := by
    simpa [hentry] using Ne.symm hother
  rw [hstandard.affinity_eq hb, hstandard.affinity_eq h.lt, if_neg hsession, hentry,
    Option.map_some, if_pos rfl, hnone, Option.map_none, if_neg (Option.some_ne_none i).symm] at hle
  norm_num at hle

theorem Preferred.least (h : policy.Preferred ctx n now i) (hstandard : policy.Standard)
    (hkeyed : policy.cacheDir.prefixMap ctx.prefixKey = none)
    (hsession : policy.cacheDir.sessionMap ctx.sessionId = none) {j : Nat} (hj : j < n) :
    policy.active.inFlight i ≤ policy.active.inFlight j := by
  have hzero : ∀ k < n, policy.affinity ctx n now k = 0 := fun k hk => by
    rw [hstandard.affinity_eq hk, hkeyed, hsession]
    rfl
  rcases h.best j hj with hbelow | ⟨-, hload⟩
  · rw [hzero j hj, hzero i h.lt] at hbelow
    exact absurd hbelow (lt_irrefl 0)
  · exact hload

/-- A position recorded for the prefix comes first, one recorded for the session second, and the
load decides where neither was recorded. -/
theorem Preferred.follows (h : policy.Preferred ctx n now i) (hstandard : policy.Standard)
    (hremembers : policy.cacheDir.Remembers records) (hrange : ∀ other j, records other j → j < n) :
    (∃ other, records other i ∧ other.prefixKey = ctx.prefixKey) ∨
      (∀ j, ¬∃ other, records other j ∧ other.prefixKey = ctx.prefixKey) ∧
        ((∃ other, records other i ∧ other.sessionId = ctx.sessionId) ∨
          (∀ j, ¬∃ other, records other j ∧ other.sessionId = ctx.sessionId) ∧
            ∀ j < n, policy.active.inFlight i ≤ policy.active.inFlight j) := by
  have hattests := hremembers.prefixMap ctx.prefixKey
  cases hkeyed : policy.cacheDir.prefixMap ctx.prefixKey with
  | some entry =>
      rw [hkeyed] at hattests
      have hserved := hattests
      obtain ⟨other, hrecord, -⟩ := hserved
      obtain rfl := h.of_prefix hstandard (hrange other _ hrecord) hkeyed
      exact Or.inl hattests
  | none =>
      rw [hkeyed] at hattests
      refine Or.inr ⟨hattests, ?_⟩
      have hattests := hremembers.sessionMap ctx.sessionId
      cases hsession : policy.cacheDir.sessionMap ctx.sessionId with
      | some entry =>
          rw [hsession] at hattests
          have hserved := hattests
          obtain ⟨other, hrecord, -⟩ := hserved
          obtain rfl := h.of_session hstandard (hrange other _ hrecord) hkeyed hsession
          exact Or.inl hattests
      | none =>
          rw [hsession] at hattests
          exact Or.inr ⟨hattests, fun j hj => h.least hstandard hkeyed hsession hj⟩

end LoadCacheAware

def recordedBy : Programs.Event router → Multiset (Pool × RequestContext × Nat)
  | .ran (.record pool ctx i) _ => {(pool, ctx, i)}
  | _ => 0

theorem mem_recorded {trace : Programs.Trace router} {pool : Pool} {ctx : RequestContext} {i : Nat} :
    (pool, ctx, i) ∈ (trace.map recordedBy).sum ↔
      .ran (.record pool ctx i) () ∈ trace := by
  induction trace with
  | nil => simp
  | cons event trace ih =>
      rw [List.map_cons, List.sum_cons, Multiset.mem_add, List.mem_cons, ih]
      refine or_congr_left ?_
      cases event with
      | ran op result =>
          cases op with
          | record other ctx' j => simp [recordedBy]
          | _ => simp [recordedBy]
      | _ => simp [recordedBy]

/-- The pool is behind a load and cache aware policy that holds what was recorded. -/
def AppState.Remembers (app : AppState) (pool : Pool)
    (records : Multiset (Pool × RequestContext × Nat)) : Prop :=
  ∃ policy, app.balancerOf pool = some (.loadCacheAware policy) ∧ policy.Standard ∧
    policy.cacheDir.Remembers fun ctx i => (pool, ctx, i) ∈ records

section Remembers

variable {app app' : AppState} {pool : Pool} {records : Multiset (Pool × RequestContext × Nat)}

theorem AppState.Remembers.of_balancerOf_eq (h : app.Remembers pool records)
    (hsame : app'.balancerOf pool = app.balancerOf pool) : app'.Remembers pool records := by
  rwa [AppState.Remembers, hsame]

/-- Records of other pools are not in the directory. -/
theorem AppState.Remembers.of_mem_iff {records' : Multiset (Pool × RequestContext × Nat)}
    (h : app.Remembers pool records)
    (hsame : ∀ ctx i, (pool, ctx, i) ∈ records' ↔ (pool, ctx, i) ∈ records) :
    app.Remembers pool records' := by
  simpa only [AppState.Remembers, hsame] using h

theorem Balancer.Makes.remembers {policy : LoadCacheAware} {stored : Balancer} {op : RouterOp}
    (h : (loadCacheAware policy).Makes op stored) (hpool : op.pool = some pool)
    (hstandard : policy.Standard)
    (hremembers : policy.cacheDir.Remembers fun ctx i => (pool, ctx, i) ∈ records)
    (result : op.Result) : ∃ policy', stored = loadCacheAware policy' ∧ policy'.Standard ∧
      policy'.cacheDir.Remembers fun ctx i =>
        (pool, ctx, i) ∈ recordedBy (.ran op result) + records := by
  obtain ⟨halpha, hbeta, hstaleness⟩ := hstandard
  have hsilent : recordedBy (.ran op result) = 0 → policy.cacheDir.Remembers fun ctx i =>
      (pool, ctx, i) ∈ recordedBy (.ran op result) + records := by
    intro hzero
    rwa [hzero, zero_add]
  cases h with
  | keep other ctx => exact ⟨policy, rfl, ⟨halpha, hbeta, hstaleness⟩, hsilent rfl⟩
  | select h i =>
      simp only [selectWithContext, bind_eq_ok, pure_eq_ok, Except.ok.injEq, Prod.mk.injEq] at h
      obtain ⟨⟨k, policy'⟩, hselect, -, rfl⟩ := h
      cases LoadCacheAware.policy_of_selectWithContext hselect
      exact ⟨_, rfl, ⟨halpha, hbeta, hstaleness⟩, hsilent rfl⟩
  | finish other i => exact ⟨_, rfl, ⟨halpha, hbeta, hstaleness⟩, hsilent rfl⟩
  | record other ctx i ambient =>
      obtain rfl : other = pool := Option.some.inj hpool
      refine ⟨_, rfl, ⟨halpha, hbeta, hstaleness⟩, ?_⟩
      have hmem : ∀ last j, (other, last, j) ∈ recordedBy (.ran (.record other ctx i) result) +
          records ↔ last = ctx ∧ j = i ∨ (other, last, j) ∈ records := by
        simp [recordedBy]
      simp only [hmem]
      exact hremembers.record ctx i ambient.now

/-- The directory stays in step with what is recorded. -/
theorem AppState.Remembers.exec (h : app.Remembers pool records) {op : RouterOp}
    {result : op.Result} (hexec : machine.exec op app result app') :
    app'.Remembers pool (recordedBy (.ran op result) + records) := by
  by_cases hpool : op.pool = some pool
  · obtain ⟨policy, hbalancer, hstandard, hremembers⟩ := h
    rcases AppState.stored_of_exec hexec with
      ⟨-, hnone⟩ | ⟨own, balancer, stored, hown, hsame, hmakes, rfl⟩
    · cases hbalancer.symm.trans (hnone pool hpool)
    · obtain rfl : own = pool := Option.some.inj (hown.symm.trans hpool)
      cases hsame.symm.trans hbalancer
      obtain ⟨policy', rfl, hpolicy'⟩ := hmakes.remembers hpool hstandard hremembers result
      exact ⟨policy', AppState.balancerOf_setBalancer_self .., hpolicy'⟩
  · refine (h.of_balancerOf_eq (AppState.balancerOf_of_exec hexec hpool)).of_mem_iff fun ctx i => ?_
    rw [Multiset.mem_add, or_iff_right]
    cases op with
    | record other ctx' j =>
        intro hmem
        cases Multiset.mem_singleton.mp hmem
        exact hpool rfl
    | _ => exact Multiset.notMem_zero _

end Remembers

namespace Deployment

variable {config : Config} {pool : Pool}

theorem remembers_start {app : AppState} (hk8s : config.hasK8sEnabled = false)
    (hbuild : config.buildState = .ok app) (hpolicy : config.policyOf pool = some .loadCacheAware) :
    app.Remembers pool 0 := by
  rcases config.balancerOf_buildState hk8s hbuild pool with
    ⟨hnone, -⟩ | ⟨kind, n, balancer, hkind, hmake, hbalancer⟩
  · cases hnone.symm.trans hpolicy
  · cases hkind.symm.trans hpolicy
    simp only [Balancer.makePolicy, LoadCacheAware.new, LoadCacheAware.withParams,
      bind_eq_ok] at hmake
    obtain ⟨policy, hnew, hbox⟩ := hmake
    split at hnew <;> cases hnew
    cases hbox
    refine ⟨_, hbalancer, ⟨rfl, rfl, rfl⟩, ?_⟩
    simpa using CacheDirectory.remembers_new 0

/-- All records of a run, by the live handlers and by the ended ones. -/
def records (pool : Pool) :
    Programs.Accounts router Deployment (Multiset (Pool × RequestContext × Nat)) :=
  .ofEvents recordedBy fun s => s.app.Remembers pool

theorem records_conserves : (records pool).Conserves machine
    (Accounting.gatewaySpec config.pdMode) (Accounting.gatewayPost config.pdMode) := by
  refine Programs.Accounts.ofEvents_conserves ?_ ?_ ?_ ?_
  · intro event hother
    cases event with
    | ran op result => exact (hother op result rfl).elim
    | _ => rfl
  · exact fun op result s t held hexec hcounts => hcounts.exec hexec.1
  · intro parts trace deferred hends op hop result
    obtain ⟨pool, i, rfl⟩ := (Accounting.settled_of_ends hends).2 op hop
    rfl
  · exact fun s t held hmoves hcounts =>
      hcounts.of_balancerOf_eq (congrFun (balancerOf_of_moves hmoves) pool)

/-- The choice of the policy is the preferred one, by its own counters and directory. -/
theorem Chosen.preferred_of_remembers {s t : Deployment} {ctx : RequestContext} {i : Nat}
    {url : String} (h : Chosen config s pool ctx i url t)
    {records : Multiset (Pool × RequestContext × Nat)} (hremembers : s.app.Remembers pool records) :
    ∃ (policy : LoadCacheAware) (now : Nat), s.app.countersOf pool = some policy.active ∧
      policy.Standard ∧ (policy.cacheDir.Remembers fun ctx i => (pool, ctx, i) ∈ records) ∧
        ((config.urlsOf pool).length ≤ policy.active.length →
          policy.Preferred ctx (config.urlsOf pool).length now i) := by
  obtain ⟨policy, hpolicy, hstandard, hdirectory⟩ := hremembers
  obtain ⟨balancer, selected, counted, ambient, hbalancer, -, hselect, -⟩ := h.select
  cases hbalancer.symm.trans hpolicy
  refine ⟨policy, ambient.now, by rw [AppState.countersOf, hpolicy]; rfl, hstandard, hdirectory,
    fun hfit => ?_⟩
  simp only [Balancer.selectWithContext, bind_eq_ok, pure_eq_ok, Except.ok.injEq,
    Prod.mk.injEq] at hselect
  obtain ⟨⟨k, policy'⟩, hchosen, rfl, -⟩ := hselect
  rw [← LoadCacheAware.mem_best_iff_preferred hstandard.alpha hstandard.beta,
    ← LoadCacheAware.exists_selectWithContext_eq h.ne_nil hfit]
  exact ⟨ambient.draw, policy', hchosen⟩

end Deployment

namespace Gateway

section Runs

variable {crates : Crates} {config : Config} {app : AppState} {pool : Pool}
  {s : Programs.System router Gateway Parts (Response WorkerId)}

/-- A handler with such routing keys has recorded the position, which had served it. -/
def ServedFor (s : Programs.System router Gateway Parts (Response WorkerId)) (pool : Pool)
    (alike : RequestContext → Prop) (i : Nat) : Prop :=
  ∃ history ∈ s.histories, ∃ other, alike other ∧ .ran (.record pool other i) () ∈ history.2 ∧
    Protocol.Served history.2 pool other i

/-- The records of all handlers. -/
def records (s : Programs.System router Gateway Parts (Response WorkerId)) :
    Multiset (Pool × RequestContext × Nat) :=
  (s.histories.map fun history => (history.2.map recordedBy).sum).sum

theorem mem_records {other : RequestContext} {i : Nat} : (pool, other, i) ∈ records s ↔
    ∃ history ∈ s.histories, .ran (.record pool other i) () ∈ history.2 := by
  refine Multiset.mem_join.trans ?_
  simp only [Multiset.mem_map, exists_exists_and_eq_and, mem_recorded]

theorem servedFor_iff
    (hs : Runs.Reachable (· = .start (start config app))
      (Programs.Step (machine config) (pdProxyHandler crates config.pdMode)) s)
    (alike : RequestContext → Prop) (i : Nat) : ServedFor s pool alike i ↔
      ∃ other, (pool, other, i) ∈ records s ∧ alike other := by
  simp only [mem_records]
  constructor
  · rintro ⟨history, hhistory, other, halike, hrecord, -⟩
    exact ⟨other, ⟨history, hhistory, hrecord⟩, halike⟩
  · rintro ⟨other, ⟨history, hhistory, hrecord⟩, halike⟩
    exact ⟨history, hhistory, other, halike, hrecord,
      Protocol.served_of_reachable hs history hhistory _ _ _ _ hrecord⟩

/-- With the load and cache aware policy a request goes to a worker that has served its prefix if
there is one, next to one that has served its session, and if there is none to a worker with the
fewest requests in flight. -/
theorem cache_follows_service (hbuild : config.buildState = .ok app)
    (hk8s : config.hasK8sEnabled = false) (hpolicy : config.policyOf pool = some .loadCacheAware)
    (hs : Runs.Reachable (· = .start (start config app))
      (Programs.Step (machine config) (pdProxyHandler crates config.pdMode)) s)
    (hunfailing : s.shared.deployment.monitor.Unfailing pool) {ctx : RequestContext} {i : Nat}
    {url : String} {g : Gateway}
    (hexec : (machine config).exec (.next pool ctx) s.shared (some (i, url)) g) :
    ServedFor s pool (fun other => other.prefixKey = ctx.prefixKey) i ∨
      (∀ j, ¬ServedFor s pool (fun other => other.prefixKey = ctx.prefixKey) j) ∧
        (ServedFor s pool (fun other => other.sessionId = ctx.sessionId) i ∨
          (∀ j, ¬ServedFor s pool (fun other => other.sessionId = ctx.sessionId) j) ∧
            ∀ j < (config.urlsOf pool).length, loadOf s (pool, i) ≤ loadOf s (pool, j)) := by
  have hdeployment := (refines.reachable (.start hbuild) hs).1
  have hremembers := Deployment.records_conserves.counts_of_reachable
    (Accounting.wp_gateway crates config.pdMode) (Deployment.remembers_start hk8s hbuild hpolicy)
    hdeployment
  rw [Deployment.records, Programs.Accounts.total_ofEvents] at hremembers
  change s.shared.deployment.app.Remembers pool (records s) at hremembers
  obtain ⟨hchosen, hcounters⟩ := chosen_of_reachable hbuild hk8s hs hunfailing hexec
  obtain ⟨policy, now, hactive, hstandard, hdirectory, hpreferred⟩ :=
    hchosen.preferred_of_remembers hremembers
  obtain ⟨hfit, hload⟩ := hcounters policy.active hactive
  have hrange : ∀ other j, (pool, other, j) ∈ records s → j < (config.urlsOf pool).length := by
    intro other j hrecord
    obtain ⟨history, hhistory, hmem⟩ := mem_records.mp hrecord
    obtain ⟨url, hselected⟩ :=
      (Protocol.served_of_reachable hs history hhistory _ _ _ _ hmem).selected
    have hentry := Deployment.obeys_of_reachable (fun h => h.entry) hbuild hk8s hdeployment history
      hhistory _ hselected rfl hunfailing
    exact (List.getElem?_eq_some_iff.mp hentry).1
  simp only [servedFor_iff hs, ← hload]
  exact (hpreferred hfit).follows hstandard hdirectory hrange

end Runs

theorem selectFrom_first {policy : LoadCacheAware} (hstandard : policy.Standard)
    (hlength : policy.active.length = 2) {ctx : RequestContext} {now : Nat}
    (h : policy.Preferred ctx 2 now 0) :
    ∃ draw, AppState.selectFrom (Worker.fromUrls ["http://a:8000", "http://b:8000"])
        (.loadCacheAware policy) ctx ⟨draw, now⟩ =
      .ok (some (0, "http://a:8000"),
        .loadCacheAware { policy with active := policy.active.modify 0 (· + 1) }) := by
  obtain ⟨draw, policy', hchosen⟩ := (LoadCacheAware.exists_selectWithContext_eq
    (List.cons_ne_nil "http://a:8000" ["http://b:8000"]) hlength.ge).mpr
      ((LoadCacheAware.mem_best_iff_preferred hstandard.alpha hstandard.beta _ _ _ _).mpr h)
  cases LoadCacheAware.policy_of_selectWithContext hchosen
  refine ⟨draw, AppState.selectFrom_eq_some_iff.mpr ⟨0, .loadCacheAware policy, ?_, rfl, ?_⟩⟩
  · simp only [Balancer.selectWithContext, bind_eq_ok, pure_eq_ok, Except.ok.injEq, Prod.mk.injEq]
    exact ⟨(0, policy), hchosen, rfl, rfl⟩
  · refine Balancer.onRequestStart_eq_ok_iff.mpr ⟨fun counters hcounters => ?_, rfl⟩
    cases hcounters
    exact hlength.ge.trans' Nat.one_lt_two.le

/-- Nothing is recorded yet, and then the first worker for both keys. -/
theorem preferred_first (active : Counters) (hactive : active.inFlight 0 ≤ active.inFlight 1) :
    (LoadCacheAware.mk active (.new 0) (7 / 10) (3 / 10)).Preferred
      ⟨"default", "default"⟩ 2 0 0 := by
  refine ⟨Nat.two_pos, fun j hj => Or.inr ⟨?_, ?_⟩⟩
  · rw [LoadCacheAware.Standard.affinity_eq ⟨rfl, rfl, rfl⟩ hj,
      LoadCacheAware.Standard.affinity_eq ⟨rfl, rfl, rfl⟩ Nat.two_pos]
    rfl
  · rcases Nat.le_one_iff_eq_zero_or_eq_one.mp (Nat.le_of_lt_succ hj) with rfl | rfl
    · exact le_rfl
    · exact hactive

theorem preferred_recorded (active : Counters) :
    (LoadCacheAware.mk active ((CacheDirectory.new 0).record "default" "default" 0 0) (7 / 10)
      (3 / 10)).Preferred ⟨"default", "default"⟩ 2 0 0 := by
  refine ⟨Nat.two_pos, fun j hj => ?_⟩
  rw [LoadCacheAware.Standard.affinity_eq ⟨rfl, rfl, rfl⟩ hj,
    LoadCacheAware.Standard.affinity_eq ⟨rfl, rfl, rfl⟩ Nat.two_pos]
  rcases Nat.le_one_iff_eq_zero_or_eq_one.mp (Nat.le_of_lt_succ hj) with rfl | rfl
  · exact Or.inr ⟨rfl, le_rfl⟩
  · left
    simp [CacheDirectory.record]

open Accounting (modelsRequest)

theorem cache_follows_service_second :
    ∃ s : Programs.System router Gateway Parts (Response WorkerId),
      records s = {(.regular, ⟨"default", "default"⟩, 0)} ∧
        (ServedFor s .regular (fun other => other.prefixKey = "default") 0 ∨
          (∀ j, ¬ServedFor s .regular (fun other => other.prefixKey = "default") j) ∧
            (ServedFor s .regular (fun other => other.sessionId = "default") 0 ∨
              (∀ j, ¬ServedFor s .regular (fun other => other.sessionId = "default") j) ∧
                ∀ j < 2, loadOf s (.regular, 0) ≤ loadOf s (.regular, j))) := by
  obtain ⟨app, hbuild⟩ : ∃ app, (policyConfig .loadCacheAware).buildState = .ok app := ⟨_, rfl⟩
  obtain ⟨g, g₁, g₂, hexec, hrecord, hnext, hunfailing⟩ : ∃ g g₁ g₂,
      (machine (policyConfig .loadCacheAware)).exec (.next .regular ⟨"default", "default"⟩)
        (start (policyConfig .loadCacheAware) app) (some (0, "http://a:8000")) g ∧
      (machine (policyConfig .loadCacheAware)).exec
        (.record .regular ⟨"default", "default"⟩ 0) g () g₁ ∧
      (machine (policyConfig .loadCacheAware)).exec (.next .regular ⟨"default", "default"⟩) g₁
        (some (0, "http://a:8000")) g₂ ∧ g₁.deployment.monitor.Unfailing .regular := by
    cases hbuild
    obtain ⟨draw, hfirst⟩ := selectFrom_first ⟨rfl, rfl, rfl⟩ rfl (preferred_first [0, 0] le_rfl)
    obtain ⟨later, hsecond⟩ := selectFrom_first ⟨rfl, rfl, rfl⟩ rfl (preferred_recorded [1, 0])
    exact ⟨_, _, _, ⟨⟨_, _⟩, ⟨⟨_, AppState.next_of_selectFrom rfl rfl hfirst⟩, rfl⟩, rfl⟩,
      ⟨⟨_, _⟩, ⟨⟨⟨fun _ => 0, 0⟩, rfl⟩, rfl⟩, rfl⟩,
      ⟨⟨_, _⟩, ⟨⟨_, AppState.next_of_selectFrom rfl rfl hsecond⟩, rfl⟩, rfl⟩,
      unfailing_start _ _ _⟩
  have hs : Runs.Reachable (· = .start (start (policyConfig .loadCacheAware) app))
      (Programs.Step (machine (policyConfig .loadCacheAware))
        (pdProxyHandler plainCrates (policyConfig .loadCacheAware).pdMode)) (.start (start _ app)) :=
    .of_start rfl
  have hcollected := (hs.tail (.start _ modelsRequest)).tail
    (@Programs.Step.reply router _ _ _ _ _ _ 0 _ .collect _ [] [] rfl (.ok ByteArray.empty))
  have hselected := hcollected.tail
    (@Programs.Step.perform router _ _ _ _ _ _ 0 _ (.next .regular ⟨"default", "default"⟩) _ _ []
      (some (0, "http://a:8000")) _ rfl hexec)
  have hguarded := hselected.tail
    (@Programs.Step.defer router _ _ _ _ _ _ 0 _ (.finish .regular 0) _ _ [] rfl)
  have hanswered := hguarded.tail
    (@Programs.Step.reply router _ _ _ _ _ _ 0 _ (.send .regular _) _ _ _ rfl (.ok ⟨200, []⟩))
  have hrecorded := hanswered.tail
    (@Programs.Step.perform router _ _ _ _ _ _ 0 _ (.record .regular ⟨"default", "default"⟩ 0)
      _ _ _ () _ rfl hrecord)
  exact ⟨_, rfl, cache_follows_service hbuild rfl rfl hrecorded hunfailing hnext⟩

end Gateway

end TokenDog
