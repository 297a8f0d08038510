import TokenDog.Selection
import TokenDog.Lib.Runs

/-!
# Who is credited for a cached prefix

`record_request` stores a position of the full pool, the affinity vector has one element for each
healthy worker. A run with the requests recorded so far tells which worker served a prefix last; the
position it was recorded under is read back as the position of a candidate, and the two agree only
while every worker before it is healthy.
-/

namespace TokenDog

/-- A healthy worker has the same number among the candidates as in the pool exactly when every
worker before it is healthy. -/
theorem candidate_at_position_iff {workers : List Worker} {w : Nat} {url : String}
    (hentry : workers[w]? = some ⟨url, true⟩) :
    (healthyWorkerUrls workers)[w]? = some (w, url) ↔
      ∀ worker ∈ workers.take w, worker.healthy = true := by
  have hrank := getElem?_healthyWorkerUrls_count hentry
  have hlength : (workers.take w).length = w :=
    List.length_take_of_le (List.getElem?_eq_some_iff.mp hentry).1.le
  rw [← List.countP_eq_length, hlength]
  constructor
  · intro hposition
    exact candidate_unique hrank hposition
  · intro hcount
    rw [hcount] at hrank
    exact hrank

namespace CacheDirectory

/-- The affinity vector once the prefix entry is written, before the session entry is. -/
def prefixAffinity (cache : CacheDirectory) (prefixKey : String) (nWorkers : Nat) : List ℚ :=
  mark (cache.prefixMap prefixKey) (fun _ts => true) 1 (List.replicate nWorkers 0)

theorem getAffinity_of_no_staleness {cache : CacheDirectory} (hstaleness : cache.staleness = 0)
    (prefixKey sessionId : String) (nWorkers now : Nat) :
    cache.getAffinity prefixKey sessionId nWorkers now =
      mark (cache.sessionMap sessionId) (fun _ts => true) (1 / 2)
        (cache.prefixAffinity prefixKey nWorkers) :=
  if_pos hstaleness

theorem getElem?_mark {entry : Option (Nat × Nat)} {value : ℚ} {scores : List ℚ} {k : Nat}
    (hk : k < scores.length) :
    (mark entry (fun _ts => true) value scores)[k]? =
      if entry.map Prod.fst = some k then some value else scores[k]? := by
  cases entry with
  | none => rfl
  | some recorded =>
      obtain ⟨idx, ts⟩ := recorded
      simp only [mark, Option.map_some, Option.some.injEq, and_true]
      by_cases hidx : idx = k
      · subst hidx
        simp [hk]
      · split <;> simp [hidx]

theorem prefixAffinity_eq_one_iff {cache : CacheDirectory} {prefixKey : String} {nWorkers k : Nat} :
    (cache.prefixAffinity prefixKey nWorkers)[k]? = some 1 ↔
      k < nWorkers ∧ (cache.prefixMap prefixKey).map Prod.fst = some k := by
  have hlength : (cache.prefixAffinity prefixKey nWorkers).length = nWorkers := by
    rw [prefixAffinity, length_mark, List.length_replicate]
  by_cases hk : k < nWorkers
  · rw [prefixAffinity, getElem?_mark (by simpa using hk)]
    split <;> simp [*]
  · rw [List.getElem?_eq_none (by omega)]
    simp [hk]

theorem getAffinity_eq_one_iff {cache : CacheDirectory} (hstaleness : cache.staleness = 0)
    {prefixKey sessionId : String} {nWorkers now k : Nat} :
    (cache.getAffinity prefixKey sessionId nWorkers now)[k]? = some 1 ↔
      (cache.prefixAffinity prefixKey nWorkers)[k]? = some 1 ∧
        (cache.sessionMap sessionId).map Prod.fst ≠ some k := by
  have hlength : (cache.prefixAffinity prefixKey nWorkers).length = nWorkers := by
    rw [prefixAffinity, length_mark, List.length_replicate]
  rw [getAffinity_of_no_staleness hstaleness]
  by_cases hk : k < nWorkers
  · rw [getElem?_mark (hk.trans_eq hlength.symm)]
    split <;> simp [*]
  · have hnone : (cache.prefixAffinity prefixKey nWorkers)[k]? = none :=
      List.getElem?_eq_none (by omega)
    rw [hnone, List.getElem?_eq_none (by rw [length_mark]; omega)]
    simp

end CacheDirectory

/-- A router in static mode and the `record_request` calls made so far, the last one first. -/
structure Recorded where
  app : AppState
  records : List (RequestContext × Nat)

namespace Recorded

def lastForPrefix (s : Recorded) (prefixKey : String) : Option Nat :=
  (s.records.map fun record => (record.1.prefixKey, record.2)).lookup prefixKey

def lastForSession (s : Recorded) (sessionId : String) : Option Nat :=
  (s.records.map fun record => (record.1.sessionId, record.2)).lookup sessionId

/-- Completions need not be of outstanding requests, nor records of requests that were served. -/
inductive Step : Recorded → Recorded → Prop where
  | health (s : Recorded) (flags : Pool → Nat → Bool) : Step s ⟨s.app.setHealth flags, s.records⟩
  | next {s : Recorded} {ctx : RequestContext} {ambient : Ambient}
      {result : Option (Nat × String)} {app' : AppState}
      (h : s.app.nextWorkerWithContext ctx ambient = .ok (result, app')) : Step s ⟨app', s.records⟩
  | finish {s : Recorded} {i : Nat} {app' : AppState} (h : s.app.finishRequest i = .ok app') :
      Step s ⟨app', s.records⟩
  | record (s : Recorded) (ctx : RequestContext) (i : Nat) (ambient : Ambient) :
      Step s ⟨s.app.recordRequest ctx i ambient, (ctx, i) :: s.records⟩

/-- A static deployment behind `LoadCacheAware` with staleness disabled. -/
def Starts (workers : List Worker) (alpha beta : ℚ) (s : Recorded) : Prop :=
  ∃ policy, LoadCacheAware.withParams workers.length alpha beta 0 = .ok policy ∧
    AppState.new workers (.loadCacheAware policy) = .ok s.app ∧ s.records = []

/-- The directory holds what was recorded last, for every prefix and every session. -/
structure Remembers (s : Recorded) (policy : LoadCacheAware) : Prop where
  k8sMode : s.app.k8sMode = false
  balancer : s.app.balancer = .loadCacheAware policy
  staleness : policy.cacheDir.staleness = 0
  prefixMap : ∀ key, (policy.cacheDir.prefixMap key).map Prod.fst = s.lastForPrefix key
  sessionMap : ∀ id, (policy.cacheDir.sessionMap id).map Prod.fst = s.lastForSession id

theorem remembers_of_starts {workers : List Worker} {alpha beta : ℚ} {s : Recorded}
    (hs : Starts workers alpha beta s) : ∃ policy, s.Remembers policy := by
  obtain ⟨policy, hpolicy, hnew, hrecords⟩ := hs
  obtain ⟨app, records⟩ := s
  obtain rfl : records = [] := hrecords
  unfold LoadCacheAware.withParams at hpolicy
  unfold AppState.new at hnew
  split at hpolicy <;> cases hpolicy
  split at hnew <;> cases hnew
  exact ⟨_, rfl, rfl, rfl, fun _ => rfl, fun _ => rfl⟩

theorem Remembers.of_cacheDir_eq {s : Recorded} {policy policy' : LoadCacheAware} {app' : AppState}
    (h : s.Remembers policy) (hmode : app'.k8sMode = false)
    (hbalancer : app'.balancer = .loadCacheAware policy')
    (hcache : policy'.cacheDir = policy.cacheDir) : Remembers ⟨app', s.records⟩ policy' where
  k8sMode := hmode
  balancer := hbalancer
  staleness := hcache ▸ h.staleness
  prefixMap := hcache ▸ h.prefixMap
  sessionMap := hcache ▸ h.sessionMap

theorem cacheDir_of_selectFrom {workers : List Worker} {policy : LoadCacheAware}
    {balancer' : Balancer} {ctx : RequestContext} {ambient : Ambient}
    {result : Option (Nat × String)}
    (h : AppState.selectFrom workers (.loadCacheAware policy) ctx ambient = .ok (result, balancer')) :
    ∃ policy', balancer' = .loadCacheAware policy' ∧ policy'.cacheDir = policy.cacheDir := by
  cases result with
  | none =>
      obtain ⟨-, rfl⟩ := AppState.selectFrom_eq_none h
      exact ⟨policy, rfl, rfl⟩
  | some entry =>
      obtain ⟨i, url⟩ := entry
      obtain ⟨k, selected, hselect, -, hstart⟩ := AppState.selectFrom_eq_some_iff.mp h
      simp only [Balancer.selectWithContext, bind_eq_ok, pure_eq_ok, Except.ok.injEq,
        Prod.mk.injEq] at hselect
      obtain ⟨⟨j, policy'⟩, hpolicy, -, rfl⟩ := hselect
      cases LoadCacheAware.policy_of_selectWithContext hpolicy
      obtain ⟨-, rfl⟩ := Balancer.onRequestStart_eq_ok_iff.mp hstart
      exact ⟨_, rfl, rfl⟩

theorem fst_update_eq_lookup {entries : String → Option (Nat × Nat)} {log : List (String × Nat)}
    (h : ∀ key, (entries key).map Prod.fst = log.lookup key) (written : String) (i now : Nat)
    (key : String) :
    (Function.update entries written (some (i, now)) key).map Prod.fst =
      ((written, i) :: log).lookup key := by
  rw [List.lookup_cons]
  by_cases hkey : key = written
  · rw [hkey, Function.update_self, beq_self_eq_true]
    rfl
  · rw [Function.update_of_ne hkey, beq_eq_false_iff_ne.mpr hkey]
    exact h key

theorem Step.remembers {s t : Recorded} (hstep : Step s t) {policy : LoadCacheAware}
    (h : s.Remembers policy) : ∃ policy', t.Remembers policy' := by
  have hmode := h.k8sMode
  cases hstep with
  | health flags => exact ⟨policy, h.of_cacheDir_eq hmode h.balancer rfl⟩
  | next hnext =>
      simp only [AppState.nextWorkerWithContext, hmode, Bool.false_eq_true, if_false, h.balancer,
        bind_eq_ok] at hnext
      obtain ⟨⟨result, balancer'⟩, hselect, happ⟩ := hnext
      obtain ⟨policy', rfl, hcache⟩ := cacheDir_of_selectFrom hselect
      cases happ
      exact ⟨policy', h.of_cacheDir_eq rfl rfl hcache⟩
  | finish hfinish =>
      simp only [AppState.finishRequest, hmode, Bool.false_eq_true, if_false, h.balancer,
        bind_eq_ok] at hfinish
      obtain ⟨balancer', hend, happ⟩ := hfinish
      obtain ⟨-, rfl⟩ := Balancer.onRequestEnd_eq_ok_iff.mp hend
      cases happ
      exact ⟨_, h.of_cacheDir_eq rfl rfl rfl⟩
  | record ctx i ambient =>
      have happ : s.app.recordRequest ctx i ambient =
          { s.app with balancer := s.app.balancer.record ctx i ambient } := by
        simp [AppState.recordRequest, hmode]
      rw [happ, h.balancer]
      exact ⟨_, hmode, rfl, h.staleness, fst_update_eq_lookup h.prefixMap ctx.prefixKey i ambient.now,
        fst_update_eq_lookup h.sessionMap ctx.sessionId i ambient.now⟩

theorem exists_remembers {workers : List Worker} {alpha beta : ℚ} {s : Recorded}
    (hs : Runs.Reachable (Starts workers alpha beta) Step s) : ∃ policy, s.Remembers policy := by
  apply hs.invariant (fun s => ∃ policy, s.Remembers policy) fun _ => remembers_of_starts
  intro s t _ hs hstep
  obtain ⟨policy, hpolicy⟩ := hs
  exact hstep.remembers hpolicy

/-- The entry of the pool whose candidate has affinity `1`. -/
def Credited (workers : List Worker) (affinity : List ℚ) (entry : Nat × String) : Prop :=
  ∃ k : Nat, (healthyWorkerUrls workers)[k]? = some entry ∧ affinity[k]? = some 1

/-- With one candidate the policy returns before it asks for affinities. Otherwise `entry` is
credited and no other entry is. -/
def CreditsOnly (workers : List Worker) (affinity : List ℚ) (entry : Nat × String) : Prop :=
  (healthyWorkerUrls workers).length ≠ 1 → ∀ other, Credited workers affinity other ↔ other = entry

/-- No other worker is healthy, or every worker before `w` is. -/
def InPlace (workers : List Worker) (w : Nat) : Prop :=
  (healthyWorkerUrls workers).length = 1 ∨ ∀ worker ∈ workers.take w, worker.healthy = true

theorem credited_prefixAffinity_iff {workers : List Worker} {cache : CacheDirectory} {key : String}
    {w : Nat} (hlast : (cache.prefixMap key).map Prod.fst = some w) {entry : Nat × String} :
    Credited workers (cache.prefixAffinity key (healthyWorkerUrls workers).length) entry ↔
      (healthyWorkerUrls workers)[w]? = some entry := by
  simp only [Credited, CacheDirectory.prefixAffinity_eq_one_iff, hlast, Option.some.injEq]
  constructor
  · rintro ⟨k, hk, -, rfl⟩
    exact hk
  · intro hw
    exact ⟨w, hw, (List.getElem?_eq_some_iff.mp hw).1, rfl⟩

theorem credited_getAffinity_iff {workers : List Worker} {cache : CacheDirectory}
    (hstaleness : cache.staleness = 0) {key id : String} {now w : Nat}
    (hlast : (cache.prefixMap key).map Prod.fst = some w) {entry : Nat × String} :
    Credited workers (cache.getAffinity key id (healthyWorkerUrls workers).length now) entry ↔
      (healthyWorkerUrls workers)[w]? = some entry ∧
        (cache.sessionMap id).map Prod.fst ≠ some w := by
  simp only [Credited, CacheDirectory.getAffinity_eq_one_iff hstaleness,
    CacheDirectory.prefixAffinity_eq_one_iff, hlast, Option.some.injEq]
  constructor
  · rintro ⟨k, hk, ⟨-, rfl⟩, hsession⟩
    exact ⟨hk, hsession⟩
  · rintro ⟨hw, hsession⟩
    exact ⟨w, hw, ⟨(List.getElem?_eq_some_iff.mp hw).1, rfl⟩, hsession⟩

/-- What is credited is one candidate at most, so that it is `w` alone when it is `w`. -/
theorem creditsOnly_iff_of_credited {workers : List Worker} {affinity : List ℚ} {w : Nat}
    {url : String} (hhealthy : workers[w]? = some ⟨url, true⟩) {extra : Prop}
    (hcredited : ∀ entry, Credited workers affinity entry ↔
      (healthyWorkerUrls workers)[w]? = some entry ∧ extra) :
    CreditsOnly workers affinity (w, url) ↔ (healthyWorkerUrls workers).length = 1 ∨
      (∀ worker ∈ workers.take w, worker.healthy = true) ∧ extra := by
  rw [← candidate_at_position_iff hhealthy, ← hcredited]
  constructor
  · intro honly
    by_cases hone : (healthyWorkerUrls workers).length = 1
    · exact Or.inl hone
    · exact Or.inr ((honly hone (w, url)).mpr rfl)
  · rintro (hone | hself) hmany other
    · exact absurd hone hmany
    · constructor
      · intro hother
        exact Option.some.inj (((hcredited other).mp hother).1.symm.trans ((hcredited _).mp hself).1)
      · rintro rfl
        exact hself

/-- Whatever happened since the worker was recorded, the prefix affinity goes to `w` alone exactly
when `w` is in place. The session entry is written after it: in the vector that is scored, `w` keeps
the prefix affinity only if the session was not recorded at `w` as well. -/
theorem creditsOnly_iff {workers : List Worker} {alpha beta : ℚ} {s : Recorded}
    (hs : Runs.Reachable (Starts workers alpha beta) Step s) {ctx : RequestContext} {w : Nat}
    {url : String} (hlast : s.lastForPrefix ctx.prefixKey = some w)
    (hhealthy : s.app.workers[w]? = some ⟨url, true⟩) (now : Nat) :
    ∃ policy, s.app.balancer = .loadCacheAware policy ∧
      (CreditsOnly s.app.workers (policy.cacheDir.prefixAffinity ctx.prefixKey
          (healthyWorkerUrls s.app.workers).length) (w, url) ↔ InPlace s.app.workers w) ∧
      (CreditsOnly s.app.workers (policy.cacheDir.getAffinity ctx.prefixKey ctx.sessionId
          (healthyWorkerUrls s.app.workers).length now) (w, url) ↔
        (healthyWorkerUrls s.app.workers).length = 1 ∨
          (∀ worker ∈ s.app.workers.take w, worker.healthy = true) ∧
            s.lastForSession ctx.sessionId ≠ some w) := by
  obtain ⟨policy, hpolicy⟩ := exists_remembers hs
  have hprefix := (hpolicy.prefixMap ctx.prefixKey).trans hlast
  refine ⟨policy, hpolicy.balancer, ?_, ?_⟩
  · have hiff := @creditsOnly_iff_of_credited _ _ _ _ hhealthy True fun entry => by
      rw [and_true]
      exact credited_prefixAffinity_iff hprefix
    rw [hiff, and_true, InPlace]
  · apply creditsOnly_iff_of_credited hhealthy
    intro entry
    rw [← hpolicy.sessionMap]
    exact credited_getAffinity_iff hpolicy.staleness hprefix

def threeWorkers : List Worker :=
  [⟨"http://a:8000", true⟩, ⟨"http://b:8000", true⟩, ⟨"http://c:8000", true⟩]

theorem exists_recorded (flags : Pool → Nat → Bool) :
    ∃ s policy, Runs.Reachable (Starts threeWorkers (7 / 10) (3 / 10)) Step s ∧
      s.Remembers policy ∧ s.lastForPrefix "prompt" = some 1 ∧ s.lastForSession "second" = none ∧
      s.app.workers = setFlags (flags .regular) threeWorkers := by
  obtain ⟨app, hnew⟩ : ∃ app, AppState.new threeWorkers
      (.loadCacheAware ⟨Counters.zeros 3, .new 0, 7 / 10, 3 / 10⟩) = .ok app := ⟨_, rfl⟩
  have hstart : Starts threeWorkers (7 / 10) (3 / 10) ⟨app, []⟩ := ⟨_, rfl, hnew, rfl⟩
  have hrecorded := (Runs.Reachable.of_start hstart).tail
    (Step.record _ ⟨"first", "prompt"⟩ 1 ⟨fun _ => 0, 0⟩)
  have hflagged := hrecorded.tail (Step.health _ flags)
  obtain ⟨policy, hpolicy⟩ := exists_remembers hflagged
  refine ⟨_, policy, hflagged, hpolicy, rfl, rfl, ?_⟩
  cases hnew
  rfl

/-- Once `a` is down, `c` is credited for the prompt that `b` served. -/
theorem not_credited_after_failure :
    ∃ s policy, Runs.Reachable (Starts threeWorkers (7 / 10) (3 / 10)) Step s ∧
      s.app.balancer = .loadCacheAware policy ∧
      s.lastForPrefix "prompt" = some 1 ∧ s.lastForSession "second" = none ∧
      s.app.workers[1]? = some ⟨"http://b:8000", true⟩ ∧
      Credited s.app.workers (policy.cacheDir.getAffinity "prompt" "second"
        (healthyWorkerUrls s.app.workers).length 0) (2, "http://c:8000") ∧
      ¬Credited s.app.workers (policy.cacheDir.getAffinity "prompt" "second"
        (healthyWorkerUrls s.app.workers).length 0) (1, "http://b:8000") := by
  obtain ⟨s, policy, hs, hpolicy, hprefix, hsession, hworkers⟩ :=
    exists_recorded fun _ i => decide (i ≠ 0)
  refine ⟨s, policy, hs, hpolicy.balancer, hprefix, hsession, by rw [hworkers]; rfl, ?_, ?_⟩
  · rw [credited_getAffinity_iff hpolicy.staleness ((hpolicy.prefixMap _).trans hprefix),
      hpolicy.sessionMap, hsession, hworkers]
    decide
  · rw [credited_getAffinity_iff hpolicy.staleness ((hpolicy.prefixMap _).trans hprefix), hworkers]
    rintro ⟨hcandidate, -⟩
    revert hcandidate
    decide

/-- While all three are healthy, `b` is. -/
theorem creditsOnly_before_failure :
    ∃ s policy, Runs.Reachable (Starts threeWorkers (7 / 10) (3 / 10)) Step s ∧
      s.app.balancer = .loadCacheAware policy ∧
      CreditsOnly s.app.workers (policy.cacheDir.getAffinity "prompt" "second"
        (healthyWorkerUrls s.app.workers).length 0) (1, "http://b:8000") := by
  obtain ⟨s, -, hs, -, hprefix, hsession, hworkers⟩ := exists_recorded fun _ _ => true
  have hhealthy : s.app.workers[1]? = some ⟨"http://b:8000", true⟩ := by rw [hworkers]; rfl
  obtain ⟨policy, hbalancer, -, hfinal⟩ :=
    @creditsOnly_iff _ _ _ _ hs ⟨"second", "prompt"⟩ _ _ hprefix hhealthy 0
  refine ⟨s, policy, hs, hbalancer, hfinal.mpr (Or.inr ⟨?_, ?_⟩)⟩
  · rw [hworkers]
    decide
  · rw [hsession]
    decide

end Recorded

end TokenDog
