import TokenDog.Selection

/-!
# Where a session goes when health changes

`SessionAffinity` takes the hash of the session modulo the number of healthy workers, as a position
among them. Both the modulus and the positions change with every health transition.
-/

namespace TokenDog

theorem map_healthy_setFlags (flags : Nat → Bool) (workers : List Worker) :
    (setFlags flags workers).map Worker.healthy = (List.range workers.length).map flags := by
  apply List.ext_getElem?
  intro i
  rw [List.getElem?_map, getElem?_setFlags, List.getElem?_map]
  by_cases hi : i < workers.length
  · simp [hi]
  · simp [Nat.not_lt.mp hi]

theorem countP_healthy (workers : List Worker) :
    workers.countP Worker.healthy = (workers.map Worker.healthy).countP id := by
  rw [List.countP_map]
  rfl

theorem countP_take_setFlags (flags : Nat → Bool) {workers : List Worker} {i : Nat}
    (hi : i ≤ workers.length) :
    ((setFlags flags workers).take i).countP Worker.healthy = (List.range i).countP flags := by
  rw [countP_healthy, List.map_take, map_healthy_setFlags, ← List.map_take, List.take_range,
    Nat.min_eq_left hi, List.countP_map]
  rfl

theorem countP_setFlags (flags : Nat → Bool) (workers : List Worker) :
    (setFlags flags workers).countP Worker.healthy =
      (List.range workers.length).countP flags := by
  have hlength : (setFlags flags workers).length = workers.length := List.length_mapIdx
  have htake := countP_take_setFlags flags (le_refl workers.length)
  rw [← hlength, List.take_length, hlength] at htake
  exact htake

namespace AppState

/-- Whatever the draws, the next regular selection returns the entry. -/
def Selects (app : AppState) (ctx : RequestContext) (entry : Nat × String) : Prop :=
  ∀ ambient, ∃ app', app.next .regular ctx ambient = .ok (some entry, app')

theorem selectFrom_sessionAffinity {workers : List Worker} (policy : SessionAffinity)
    (ctx : RequestContext) (ambient : Ambient) {entry : Nat × String}
    (hentry : (healthyWorkerUrls workers)[(stableHash ctx.sessionId).toNat %
      (healthyWorkerUrls workers).length]? = some entry) :
    selectFrom workers (.sessionAffinity policy) ctx ambient =
      .ok (some entry, .sessionAffinity policy) := by
  have hne : (healthyWorkerUrls workers).map Prod.snd ≠ [] := by
    intro hnil
    rw [List.map_eq_nil_iff.mp hnil] at hentry
    cases hentry
  have hselect := Balancer.selectWithContext_sessionAffinity ctx ambient hne policy
  rw [List.length_map] at hselect
  rw [selectFrom_of_select hselect hentry]
  rfl

variable {app : AppState} {workers : List Worker} {policy : SessionAffinity}

theorem selects_iff {ctx : RequestContext} {i : Nat} {url : String}
    (hworkers : app.workersOf .regular = some workers)
    (hbalancer : app.balancerOf .regular = some (.sessionAffinity policy))
    (hentry : workers[i]? = some ⟨url, true⟩) :
    app.Selects ctx (i, url) ↔ (workers.take i).countP Worker.healthy =
      (stableHash ctx.sessionId).toNat % workers.countP Worker.healthy := by
  have hrank := getElem?_healthyWorkerUrls_count hentry
  have hpos : 0 < (healthyWorkerUrls workers).length :=
    (Nat.zero_le _).trans_lt (List.getElem?_eq_some_iff.mp hrank).1
  obtain ⟨chosen, hchosen⟩ : ∃ chosen, (healthyWorkerUrls workers)[(stableHash
      ctx.sessionId).toNat % (healthyWorkerUrls workers).length]? = some chosen :=
    ⟨_, List.getElem?_eq_getElem (Nat.mod_lt _ hpos)⟩
  have hnext : ∀ ambient, app.next .regular ctx ambient = .ok (some chosen, _) := fun ambient =>
    next_of_selectFrom hworkers hbalancer (selectFrom_sessionAffinity policy ctx ambient hchosen)
  rw [← length_healthyWorkerUrls workers]
  constructor
  · intro hselects
    obtain ⟨app', hsome⟩ := hselects ⟨fun _ => 0, 0⟩
    rw [hnext] at hsome
    cases hsome
    exact candidate_unique hrank hchosen
  · intro heq ambient
    rw [heq, hchosen] at hrank
    cases hrank
    exact ⟨_, hnext ambient⟩

theorem workersOf_setHealth_regular (hworkers : app.workersOf .regular = some workers)
    (flags : Nat → Bool) :
    (app.setHealth fun _ => flags).workersOf .regular = some (setFlags flags workers) := by
  cases hmode : app.k8sMode <;> simp_all [workersOf, setHealth]

theorem getElem?_setFlags_eq_healthy_iff {flags : Nat → Bool} {i : Nat} {url : String} :
    (setFlags flags workers)[i]? = some ⟨url, true⟩ ↔
      ∃ hi : i < workers.length, workers[i].url = url ∧ flags i = true := by
  rw [getElem?_setFlags, Option.map_eq_some_iff]
  constructor
  · rintro ⟨worker, hworker, hflagged⟩
    obtain ⟨hi, rfl⟩ := List.getElem?_eq_some_iff.mp hworker
    exact ⟨hi, congrArg Worker.url hflagged, congrArg Worker.healthy hflagged⟩
  · rintro ⟨hi, rfl, hflag⟩
    exact ⟨_, List.getElem?_eq_getElem hi, by rw [hflag]⟩

theorem selects_setHealth_iff (hworkers : app.workersOf .regular = some workers)
    (hbalancer : app.balancerOf .regular = some (.sessionAffinity policy)) (flags : Nat → Bool)
    {ctx : RequestContext} {i : Nat} {url : String}
    (hentry : (setFlags flags workers)[i]? = some ⟨url, true⟩) :
    (app.setHealth fun _ => flags).Selects ctx (i, url) ↔
      (List.range i).countP flags = (stableHash ctx.sessionId).toNat %
        (List.range workers.length).countP flags := by
  obtain ⟨hi, -⟩ := getElem?_setFlags_eq_healthy_iff.mp hentry
  rw [selects_iff (workersOf_setHealth_regular hworkers flags)
    ((balancerOf_setHealth app _ _).trans hbalancer) hentry, countP_take_setFlags flags hi.le,
    countP_setFlags]

/-- A session keeps its worker from one health assignment to another exactly if for each worker that
is healthy in both and is the session's, because the hash modulo the number of healthy workers is
the number of those before it, the same is true after the change. -/
theorem session_stays_iff (hworkers : app.workersOf .regular = some workers)
    (hbalancer : app.balancerOf .regular = some (.sessionAffinity policy))
    (before after : Nat → Bool) (ctx : RequestContext) :
    (∀ i url, (app.setHealth fun _ => before).Selects ctx (i, url) →
        (setFlags after workers)[i]? = some ⟨url, true⟩ →
        (app.setHealth fun _ => after).Selects ctx (i, url)) ↔
      ∀ i < workers.length, before i = true → after i = true →
        (List.range i).countP before = (stableHash ctx.sessionId).toNat %
          (List.range workers.length).countP before →
        (List.range i).countP after = (stableHash ctx.sessionId).toNat %
          (List.range workers.length).countP after := by
  constructor
  · intro hstays i hi hbefore hafter hrank
    have hentryBefore := getElem?_setFlags_eq_healthy_iff.mpr ⟨hi, rfl, hbefore⟩
    have hentryAfter := getElem?_setFlags_eq_healthy_iff.mpr ⟨hi, rfl, hafter⟩
    have hselects := (selects_setHealth_iff hworkers hbalancer before hentryBefore).mpr hrank
    exact (selects_setHealth_iff hworkers hbalancer after hentryAfter).mp
      (hstays i _ hselects hentryAfter)
  · intro hranks i url hselected hentryAfter
    obtain ⟨app', hnext⟩ := hselected ⟨fun _ => 0, 0⟩
    rcases next_eq_ok hnext with ⟨hnone, -⟩ | ⟨i, url, hsome, hdispatched⟩
    · cases hnone
    · cases hsome
      obtain ⟨flagged, hflagged, hentryBefore⟩ := hdispatched.entry
      rw [workersOf_setHealth_regular hworkers, Option.some.injEq] at hflagged
      subst hflagged
      obtain ⟨hi, -, hbefore⟩ := getElem?_setFlags_eq_healthy_iff.mp hentryBefore
      obtain ⟨-, -, hafter⟩ := getElem?_setFlags_eq_healthy_iff.mp hentryAfter
      have hrank := (selects_setHealth_iff hworkers hbalancer before hentryBefore).mp hselected
      exact (selects_setHealth_iff hworkers hbalancer after hentryAfter).mpr
        (hranks i hi hbefore hafter hrank)

def threeSessionWorkers : Except Panic AppState :=
  AppState.new (Worker.fromUrls ["http://a:8000", "http://b:8000", "http://c:8000"])
    (.sessionAffinity {})

theorem hash_empty_session : (stableHash "").toNat = 14695981039346656037 := by decide

/-- The session with the empty id is at `b` while `c` is down and moves to `c` when it comes back. -/
theorem not_session_stays_of_recovery :
    ∃ app, threeSessionWorkers = .ok app ∧
      (app.setHealth fun _ i => i != 2).Selects ⟨"", ""⟩ (1, "http://b:8000") ∧
      ¬(app.setHealth fun _ _ => true).Selects ⟨"", ""⟩ (1, "http://b:8000") := by
  obtain ⟨app, hnew⟩ : ∃ app, threeSessionWorkers = .ok app := ⟨_, rfl⟩
  have hbalancer : app.balancerOf .regular = some (.sessionAffinity {}) := by
    cases hnew
    rfl
  have hworkers : ∀ flags, (app.setHealth fun _ => flags).workersOf .regular = some
      (setFlags flags (Worker.fromUrls ["http://a:8000", "http://b:8000", "http://c:8000"])) := by
    cases hnew
    exact fun flags => rfl
  refine ⟨app, hnew, ?_, ?_⟩
  · rw [selects_iff (hworkers fun i => i != 2) hbalancer rfl, hash_empty_session]
    decide
  · rw [selects_iff (hworkers fun _ => true) hbalancer rfl, hash_empty_session]
    decide

/-- The same session stays at `c` when `a` goes down. -/
theorem session_stays_of_failure :
    ∃ app, threeSessionWorkers = .ok app ∧ ∀ i url,
      (app.setHealth fun _ _ => true).Selects ⟨"", ""⟩ (i, url) →
        (setFlags (fun i => i != 0) (Worker.fromUrls
          ["http://a:8000", "http://b:8000", "http://c:8000"]))[i]? = some ⟨url, true⟩ →
        (app.setHealth fun _ i => i != 0).Selects ⟨"", ""⟩ (i, url) := by
  obtain ⟨app, hnew⟩ : ∃ app, threeSessionWorkers = .ok app := ⟨_, rfl⟩
  have hbalancer : app.balancerOf .regular = some (.sessionAffinity {}) := by
    cases hnew
    rfl
  have hworkers : app.workersOf .regular = some
      (Worker.fromUrls ["http://a:8000", "http://b:8000", "http://c:8000"]) := by
    cases hnew
    rfl
  refine ⟨app, hnew, (session_stays_iff hworkers hbalancer (fun _ => true) (fun i => i != 0)
    ⟨"", ""⟩).mpr ?_⟩
  rw [hash_empty_session]
  decide

end AppState

end TokenDog
