import TokenDog.Selection
import Mathlib.Data.Set.Image

/-!
# Health filtering and load

A selection over a pool with unhealthy workers, compared with a selection over the pool of its
healthy workers alone. A policy sees the filtered list, so candidate `k` is the `k`-th healthy
worker; it reads counter `k`, while the notifications write the counter of the worker's position in
the full pool. The two selections agree exactly under the conditions of `CommutesWhen`.
-/

namespace TokenDog

open Counters

def healthyPositions (workers : List Worker) : List Nat :=
  (healthyWorkerUrls workers).map Prod.fst

def healthyOnly (workers : List Worker) : List Worker := workers.filter Worker.healthy

/-- The counters of the healthy workers, each taken from the worker's own position. -/
def ownCounters (workers : List Worker) (active : Counters) : Counters :=
  (healthyPositions workers).map active.inFlight

/-- The policy of the given kind as `make_policy` builds it, with its counters set to `active`. -/
def withCounters (kind : Policy) (active : Counters) : Balancer :=
  match kind with
  | .leastLoaded => .leastLoaded ⟨active⟩
  | .powerOfTwo => .powerOfTwo ⟨active⟩
  | .random => .random {}
  | .roundRobin => .roundRobin RoundRobin.new
  | .sessionAffinity => .sessionAffinity {}
  | .prefixAffinity => .prefixAffinity ⟨active, 10⟩
  | .loadCacheAware => .loadCacheAware ⟨active, CacheDirectory.new 0, 7 / 10, 3 / 10⟩

/-- What `next_worker_with_context` may return over the random draws. -/
def mayReturn (workers : List Worker) (balancer : Balancer) (ctx : RequestContext) :
    Set (Nat × String) :=
  {entry | ∃ app ambient app', AppState.new workers balancer = .ok app ∧
    app.nextWorkerWithContext ctx ambient = .ok (some entry, app')}

/-- The selection over the pool and the one over its healthy workers alone may return the same
workers, where position `k` of the healthy pool is read as the position it came from. -/
def FilteringCommutes (kind : Policy) (workers : List Worker) (active : Counters)
    (ctx : RequestContext) : Prop :=
  mayReturn workers (withCounters kind active) ctx =
    (fun entry => ((healthyPositions workers).getD entry.1 0, entry.2)) ''
      mayReturn (healthyOnly workers) (withCounters kind (ownCounters workers active)) ctx

/-- Position 0 attains the minimum of the first `n` counters. -/
def HeadMin (active : Counters) (n : Nat) : Prop := ∀ j < n, active.inFlight 0 ≤ active.inFlight j

instance (active : Counters) (n : Nat) : Decidable (HeadMin active n) :=
  inferInstanceAs (Decidable (∀ j < n, active.inFlight 0 ≤ active.inFlight j))

/-- Position `k` attains the minimum of the first `n` counters. -/
def ArgMin (active : Counters) (n k : Nat) : Prop := ∀ j < n, active.inFlight k ≤ active.inFlight j

/-- Position `k` attains the minimum of all counters. -/
def AttainsMin (active : Counters) (k : Nat) : Prop := active.inFlight k = minQueue active

/-- When the counters a policy reads decide as the counters of the workers would: `read` are the
counters of the full pool, `own` those of the `n` healthy workers. -/
def CommutesWhen (kind : Policy) (read own : Counters) (n : Nat) (ctx : RequestContext) : Prop :=
  match kind with
  | .leastLoaded =>
      (HeadMin read n ∧ HeadMin own n) ∨
        (¬HeadMin read n ∧ ¬HeadMin own n ∧
          ∃ k, Scan.FirstMin read.inFlight n k ∧ Scan.FirstMin own.inFlight n k)
  | .prefixAffinity =>
      let p := PrefixAffinity.preferred ctx n
      n = 1 ∨
        (read.inFlight p < 10 ∧ own.inFlight p < 10) ∨
        (read.inFlight p < 10 ∧ 10 ≤ own.inFlight p ∧ ∀ k < n, AttainsMin own k ↔ k = p) ∨
        (10 ≤ read.inFlight p ∧ own.inFlight p < 10 ∧ ∀ k < n, AttainsMin read k ↔ k = p) ∨
        (10 ≤ read.inFlight p ∧ 10 ≤ own.inFlight p ∧
          ∀ k < n, AttainsMin read k ↔ AttainsMin own k)
  | .loadCacheAware => ∀ k < n, ArgMin read n k ↔ ArgMin own n k
  | _ => True

def emptyCache (active : Counters) : LoadCacheAware :=
  ⟨active, CacheDirectory.new 0, 7 / 10, 3 / 10⟩

theorem score_emptyCache {active : Counters} {ctx : RequestContext} {n i : Nat} (now : Nat) (hi : i < n) :
    (emptyCache active).score ctx n now i =
      -(3 / 10) * (active.inFlight i / LoadCacheAware.maxLoad active) := by
  have haffinity : ((emptyCache active).cacheDir.getAffinity ctx.prefixKey ctx.sessionId n now).getD
      i 0 = 0 := by
    rw [show (emptyCache active).cacheDir = CacheDirectory.new 0 from rfl,
      CacheDirectory.getAffinity_new]
    simp [List.getD, hi]
  rw [LoadCacheAware.score, haffinity]
  simp only [emptyCache]
  ring

theorem mem_best_emptyCache {active : Counters} (ctx : RequestContext) {n k : Nat} (now : Nat) :
    k ∈ (emptyCache active).best ctx n now ↔ k < n ∧ ArgMin active n k := by
  rw [LoadCacheAware.mem_best]
  refine and_congr_right fun hk => forall₂_congr fun j hj => ?_
  have hmax : (0 : ℚ) < LoadCacheAware.maxLoad active := by
    exact_mod_cast Nat.lt_of_lt_of_le Nat.zero_lt_one (Nat.le_max_right _ 1)
  rw [score_emptyCache now hj, score_emptyCache now hk, neg_mul, neg_mul, neg_le_neg_iff,
    mul_le_mul_iff_of_pos_left (by norm_num), div_le_div_iff_of_pos_right hmax, Nat.cast_le]

/-- The candidates a policy may choose among the given URLs, over the random draws and the clock. -/
def MayChoose (balancer : Balancer) (urls : List String) (ctx : RequestContext) (k : Nat) : Prop :=
  ∃ ambient balancer', balancer.selectWithContext urls ctx ambient = .ok (k, balancer')

theorem mayChoose_of_pickFrom {balancer : Balancer} {urls : List String} {ctx : RequestContext}
    {k : Nat} (best : Nat → List Nat)
    (hselect : ∀ ambient, balancer.selectWithContext urls ctx ambient =
      (pickFrom (best ambient.now) (ambient.draw 0)).map fun i => (i, balancer))
    (hbest : ∀ now, k ∈ best now ↔ k ∈ best 0) :
    MayChoose balancer urls ctx k ↔ k ∈ best 0 := by
  constructor
  · rintro ⟨ambient, balancer', h⟩
    rw [hselect] at h
    cases hpick : pickFrom (best ambient.now) (ambient.draw 0) with
    | error panic => rw [hpick] at h; cases h
    | ok i =>
        rw [hpick] at h
        cases h
        exact (hbest ambient.now).mp (mem_of_pickFrom hpick)
  · intro hk
    obtain ⟨raw, hpick⟩ := exists_pickFrom_eq hk
    refine ⟨⟨fun _ => raw, 0⟩, balancer, ?_⟩
    rw [hselect, hpick]
    rfl

section Choices

variable {active : Counters} {urls : List String} (ctx : RequestContext) (hne : urls ≠ [])
  (hfit : urls.length ≤ active.length)

include hne hfit

theorem mayChoose_leastLoaded (k : Nat) :
    MayChoose (withCounters .leastLoaded active) urls ctx k ↔
      (HeadMin active urls.length ∧ k < urls.length) ∨
        (¬HeadMin active urls.length ∧ Scan.FirstMin active.inFlight urls.length k) := by
  have hselect := fun ambient =>
    Balancer.selectWithContext_leastLoaded ctx ambient hne ⟨active⟩ hfit
  by_cases hhead : HeadMin active urls.length
  · simp only [hhead, true_and, not_true_eq_false, false_and, or_false]
    constructor
    · rintro ⟨ambient, balancer', h⟩
      cases (hselect ambient).symm.trans h
      exact LeastLoaded.choice_lt (List.length_pos_of_ne_nil hne)
    · intro hk
      refine ⟨⟨fun _ => k, 0⟩, .leastLoaded ⟨active⟩, (hselect _).trans ?_⟩
      rw [LeastLoaded.choice_eq_draw hhead, Nat.mod_eq_of_lt hk]
  · have hfirst : ∀ draw, Scan.FirstMin active.inFlight urls.length
        (LeastLoaded.choice active urls.length draw) := by
      intro draw
      simp only [HeadMin, not_forall, Nat.not_le] at hhead
      obtain ⟨j, hj, hlt⟩ := hhead
      exact LeastLoaded.choice_firstMin ⟨j, hj, hlt⟩
    simp only [hhead, false_and, false_or, not_false_eq_true, true_and]
    constructor
    · rintro ⟨ambient, balancer', h⟩
      cases (hselect ambient).symm.trans h
      exact hfirst _
    · intro hk
      refine ⟨⟨fun _ => 0, 0⟩, .leastLoaded ⟨active⟩, (hselect _).trans ?_⟩
      rw [(hfirst 0).unique hk]

/-- Two equal draws return the candidate drawn, so that every candidate can be chosen. -/
theorem mayChoose_powerOfTwo (k : Nat) :
    MayChoose (withCounters .powerOfTwo active) urls ctx k ↔ k < urls.length := by
  have hselect := fun ambient =>
    Balancer.selectWithContext_powerOfTwo ctx ambient hne ⟨active⟩ hfit
  constructor
  · rintro ⟨ambient, balancer', h⟩
    cases (hselect ambient).symm.trans h
    exact PowerOfTwo.choice_lt (List.length_pos_of_ne_nil hne)
  · intro hk
    refine ⟨⟨fun _ => k, 0⟩, .powerOfTwo ⟨active⟩, (hselect _).trans ?_⟩
    rw [PowerOfTwo.choice, ite_self, Nat.mod_eq_of_lt hk]

theorem mayChoose_prefixAffinity (k : Nat) :
    MayChoose (withCounters .prefixAffinity active) urls ctx k ↔
      if urls.length = 1 ∨ active.inFlight (PrefixAffinity.preferred ctx urls.length) < 10 then
        k = PrefixAffinity.preferred ctx urls.length
      else k < urls.length ∧ AttainsMin active k := by
  split
  · rename_i hbelow
    have hselect := fun ambient =>
      Balancer.selectWithContext_prefixAffinity_preferred ctx ambient hne ⟨active, 10⟩ hfit hbelow
    constructor
    · rintro ⟨ambient, balancer', h⟩
      cases (hselect ambient).symm.trans h
      rfl
    · rintro rfl
      exact ⟨⟨fun _ => 0, 0⟩, _, hselect _⟩
  · rename_i habove
    simp only [not_or, Nat.not_lt] at habove
    have hselect := fun ambient => Balancer.selectWithContext_prefixAffinity_fallback ctx ambient hne
      ⟨active, 10⟩ hfit habove.1 habove.2
    rw [AttainsMin, ← mem_shortestQueues]
    exact mayChoose_of_pickFrom (fun _ => shortestQueues active urls.length) hselect fun _ => Iff.rfl

theorem mayChoose_loadCacheAware (k : Nat) :
    MayChoose (withCounters .loadCacheAware active) urls ctx k ↔
      k < urls.length ∧ ArgMin active urls.length k := by
  have hselect := fun ambient =>
    Balancer.selectWithContext_loadCacheAware ctx ambient hne (emptyCache active) hfit
  rw [← mem_best_emptyCache ctx 0]
  refine mayChoose_of_pickFrom _ hselect fun now => ?_
  rw [mem_best_emptyCache, mem_best_emptyCache]

end Choices

theorem mem_mayReturn {workers : List Worker} {balancer : Balancer} {ctx : RequestContext}
    {entry : Nat × String} (hfits : balancer.Fits workers.length) :
    entry ∈ mayReturn workers balancer ctx ↔
      ∃ k, MayChoose balancer ((healthyWorkerUrls workers).map Prod.snd) ctx k ∧
        (healthyWorkerUrls workers)[k]? = some entry := by
  obtain ⟨i, url⟩ := entry
  constructor
  · rintro ⟨app, ambient, app', hnew, hnext⟩
    unfold AppState.new at hnew
    split at hnew <;> cases hnew
    simp only [AppState.nextWorkerWithContext, Bool.false_eq_true, if_false, bind_eq_ok, pure_eq_ok,
      Except.ok.injEq, Prod.mk.injEq] at hnext
    obtain ⟨⟨result, balancer'⟩, hselect, rfl, -⟩ := hnext
    obtain ⟨k, selected, hchoice, hentry, -⟩ := AppState.selectFrom_eq_some_iff.mp hselect
    exact ⟨k, ⟨ambient, selected, hchoice⟩, hentry⟩
  · rintro ⟨k, ⟨ambient, selected, hchoice⟩, hentry⟩
    have hi := lt_length_of_mem_healthyWorkerUrls (List.mem_of_getElem? hentry)
    have hnew : ∃ app, AppState.new workers balancer = .ok app := by
      rw [AppState.new, if_neg (by simp [List.ne_nil_of_length_pos (Nat.zero_lt_of_lt hi)])]
      exact ⟨_, rfl⟩
    obtain ⟨app, hnew⟩ := hnew
    obtain ⟨balancer', hselect⟩ := AppState.exists_selectFrom_of_select hfits hchoice hentry
    refine ⟨app, ambient, { app with balancer := balancer' }, hnew, ?_⟩
    unfold AppState.new at hnew
    split at hnew <;> cases hnew
    simp only [AppState.nextWorkerWithContext, Bool.false_eq_true, if_false, hselect]
    rfl

theorem healthy_of_mem_healthyOnly {workers : List Worker} :
    ∀ worker ∈ healthyOnly workers, worker.healthy = true := fun _ hmem =>
  (List.mem_filter.mp hmem).2

theorem map_snd_healthyOnly (workers : List Worker) :
    (healthyWorkerUrls (healthyOnly workers)).map Prod.snd =
      (healthyWorkerUrls workers).map Prod.snd := by
  rw [map_snd_healthyWorkerUrls, map_snd_healthyWorkerUrls,
    List.filter_eq_self.mpr healthy_of_mem_healthyOnly]
  rfl

/-- Candidate `k` of the healthy pool is candidate `k` of the full pool, at position `k`. -/
theorem getElem?_healthyOnly (workers : List Worker) (k : Nat) :
    (healthyWorkerUrls (healthyOnly workers))[k]? =
      (healthyWorkerUrls workers)[k]?.map fun entry => (k, entry.2) := by
  have hurl : (healthyOnly workers)[k]?.map Worker.url =
      (healthyWorkerUrls workers)[k]?.map Prod.snd := by
    rw [← List.getElem?_map, ← List.getElem?_map, map_snd_healthyWorkerUrls]
    rfl
  rw [getElem?_healthyWorkerUrls_of_forall healthy_of_mem_healthyOnly]
  have hpair := congrArg (Option.map fun url => (k, url)) hurl
  simpa [Function.comp_def] using hpair

theorem length_healthyOnly (workers : List Worker) :
    (healthyOnly workers).length = (healthyWorkerUrls workers).length := by
  simpa [healthyOnly] using (congrArg List.length (map_snd_healthyWorkerUrls workers)).symm

theorem mem_image_mayReturn {workers : List Worker} {balancer : Balancer} {ctx : RequestContext}
    {entry : Nat × String} (hfits : balancer.Fits (healthyOnly workers).length) :
    entry ∈ (fun entry => ((healthyPositions workers).getD entry.1 0, entry.2)) ''
        mayReturn (healthyOnly workers) balancer ctx ↔
      ∃ k, MayChoose balancer ((healthyWorkerUrls workers).map Prod.snd) ctx k ∧
        (healthyWorkerUrls workers)[k]? = some entry := by
  have hposition : ∀ k old, (healthyWorkerUrls workers)[k]? = some old →
      (healthyPositions workers).getD k 0 = old.1 := by
    intro k old hold
    simp [healthyPositions, List.getD, hold]
  simp only [Set.mem_image, mem_mayReturn hfits, map_snd_healthyOnly, getElem?_healthyOnly,
    Option.map_eq_some_iff]
  constructor
  · rintro ⟨_, ⟨k, hchoice, old, hold, rfl⟩, rfl⟩
    refine ⟨k, hchoice, ?_⟩
    rw [hposition k old hold]
    exact hold
  · rintro ⟨k, hchoice, hold⟩
    refine ⟨(k, entry.2), ⟨k, hchoice, entry, hold, rfl⟩, ?_⟩
    rw [hposition k entry hold]

/-- The two selections may return the same workers exactly when the policy may choose the same
candidates from the two counter vectors. -/
theorem filteringCommutes_iff {kind : Policy} {workers : List Worker} {active : Counters}
    {ctx : RequestContext} (hfits : (withCounters kind active).Fits workers.length)
    (hown : (withCounters kind (ownCounters workers active)).Fits (healthyOnly workers).length) :
    FilteringCommutes kind workers active ctx ↔
      ∀ k < (healthyWorkerUrls workers).length,
        MayChoose (withCounters kind active) ((healthyWorkerUrls workers).map Prod.snd) ctx k ↔
          MayChoose (withCounters kind (ownCounters workers active))
            ((healthyWorkerUrls workers).map Prod.snd) ctx k := by
  simp only [FilteringCommutes, Set.ext_iff, mem_mayReturn hfits, mem_image_mayReturn hown]
  have hinj : ∀ {j k : Nat} {entry : Nat × String}, (healthyWorkerUrls workers)[j]? = some entry →
      (healthyWorkerUrls workers)[k]? = some entry → j = k := by
    intro j k entry hj hk
    have hnodup : (healthyWorkerUrls workers).Nodup := (nodup_healthyWorkerUrls workers).of_map _
    exact (List.getElem?_inj (List.getElem?_eq_some_iff.mp hj).1 hnodup).mp (hj.trans hk.symm)
  constructor
  · intro h k hk
    have hentry := List.getElem?_eq_getElem hk
    constructor
    · intro hchoice
      obtain ⟨j, hj, hjentry⟩ := (h _).mp ⟨k, hchoice, hentry⟩
      rwa [← hinj hjentry hentry]
    · intro hchoice
      obtain ⟨j, hj, hjentry⟩ := (h _).mpr ⟨k, hchoice, hentry⟩
      rwa [← hinj hjentry hentry]
  · intro h entry
    constructor
    · rintro ⟨k, hchoice, hentry⟩
      exact ⟨k, (h k (List.getElem?_eq_some_iff.mp hentry).1).mp hchoice, hentry⟩
    · rintro ⟨k, hchoice, hentry⟩
      exact ⟨k, (h k (List.getElem?_eq_some_iff.mp hentry).1).mpr hchoice, hentry⟩

theorem not_firstMin_zero {active : Counters} {n : Nat} (hhead : ¬HeadMin active n) :
    ¬Scan.FirstMin active.inFlight n 0 :=
  fun hfirst => hhead hfirst.le

theorem exists_firstMin {active : Counters} {n : Nat} (hhead : ¬HeadMin active n) :
    ∃ k, Scan.FirstMin active.inFlight n k := by
  simp only [HeadMin, not_forall, Nat.not_le] at hhead
  obtain ⟨j, hj, hlt⟩ := hhead
  exact ⟨_, @LeastLoaded.choice_firstMin active n 0 ⟨j, hj, hlt⟩⟩

theorem commutesWhen_leastLoaded {read own : Counters} {n : Nat} (ctx : RequestContext)
    (hn : 0 < n) :
    (∀ k < n, ((HeadMin read n ∧ k < n) ∨ (¬HeadMin read n ∧ Scan.FirstMin read.inFlight n k)) ↔
        ((HeadMin own n ∧ k < n) ∨ (¬HeadMin own n ∧ Scan.FirstMin own.inFlight n k))) ↔
      CommutesWhen .leastLoaded read own n ctx := by
  by_cases hread : HeadMin read n <;> by_cases hown : HeadMin own n <;>
    simp only [CommutesWhen, hread, hown, true_and, false_and, not_true_eq_false,
      not_false_eq_true, or_false, false_or, and_false, iff_false, iff_true]
  · simp
  · intro h
    exact not_firstMin_zero hown ((h 0 hn).mp hn)
  · intro h
    exact not_firstMin_zero hread ((h 0 hn).mpr hn)
  · constructor
    · intro h
      obtain ⟨k, hk⟩ := exists_firstMin hread
      exact ⟨k, hk, (h k hk.lt).mp hk⟩
    · rintro ⟨first, hfirstRead, hfirstOwn⟩ k -
      exact ⟨fun hk => hk.unique hfirstRead ▸ hfirstOwn, fun hk => hk.unique hfirstOwn ▸ hfirstRead⟩

theorem commutesWhen_prefixAffinity {read own : Counters} {n : Nat} (ctx : RequestContext) :
    (∀ k < n,
        (if n = 1 ∨ read.inFlight (PrefixAffinity.preferred ctx n) < 10 then
            k = PrefixAffinity.preferred ctx n else k < n ∧ AttainsMin read k) ↔
          (if n = 1 ∨ own.inFlight (PrefixAffinity.preferred ctx n) < 10 then
            k = PrefixAffinity.preferred ctx n else k < n ∧ AttainsMin own k)) ↔
      CommutesWhen .prefixAffinity read own n ctx := by
  by_cases hone : n = 1
  · simp [CommutesWhen, hone]
  · simp only [CommutesWhen, hone, false_or]
    generalize PrefixAffinity.preferred ctx n = p
    rcases Nat.lt_or_ge (read.inFlight p) 10 with hread | hread <;>
      rcases Nat.lt_or_ge (own.inFlight p) 10 with hown | hown
    · simp [hread, hown, Nat.not_le.mpr]
    · simp only [hread, hown, Nat.not_lt.mpr hown, Nat.not_le.mpr hread, if_true, if_false, true_and,
        false_and, and_false, or_false, false_or]
      exact forall₂_congr fun k hk => (by rw [and_iff_right hk]; exact Iff.comm)
    · simp only [hread, hown, Nat.not_lt.mpr hread, Nat.not_le.mpr hown, if_true, if_false, true_and,
        false_and, and_false, or_false, false_or]
      exact forall₂_congr fun k hk => by rw [and_iff_right hk]
    · simp only [hread, hown, Nat.not_lt.mpr hread, Nat.not_lt.mpr hown, if_false, true_and,
        false_and, and_false, false_or]
      exact forall₂_congr fun k hk => by rw [and_iff_right hk, and_iff_right hk]

/-- Filtering commutes with selection exactly when the counters the policy reads decide as the
counters of the healthy workers would. -/
theorem filteringCommutes_iff_commutesWhen {kind : Policy} {workers : List Worker}
    {active : Counters}
    (hkind : kind ∈ [.leastLoaded, .powerOfTwo, .prefixAffinity, .loadCacheAware])
    (hlength : active.length = workers.length)
    (hhealthy : ∃ worker ∈ workers, worker.healthy = true) (ctx : RequestContext) :
    FilteringCommutes kind workers active ctx ↔
      CommutesWhen kind active (ownCounters workers active)
        (healthyWorkerUrls workers).length ctx := by
  have hne : (healthyWorkerUrls workers).map Prod.snd ≠ [] := by
    rw [Ne, List.map_eq_nil_iff, healthyWorkerUrls_eq_nil_iff]
    obtain ⟨worker, hmem, hhealthy⟩ := hhealthy
    exact fun h => by simp [h worker hmem] at hhealthy
  have hurls : ((healthyWorkerUrls workers).map Prod.snd).length =
      (healthyWorkerUrls workers).length := List.length_map _
  have hread : ((healthyWorkerUrls workers).map Prod.snd).length ≤ active.length := by
    rw [hurls, hlength]
    exact length_healthyWorkerUrls_le workers
  have hown : ((healthyWorkerUrls workers).map Prod.snd).length ≤
      (ownCounters workers active).length := by
    simp [ownCounters, healthyPositions]
  have hfits : ∀ balancerActive ∈ (withCounters kind active).active?, balancerActive = active := by
    cases kind <;> simp [withCounters, Balancer.active?]
  have hfitsOwn : ∀ balancerActive ∈ (withCounters kind (ownCounters workers active)).active?,
      balancerActive = ownCounters workers active := by
    cases kind <;> simp [withCounters, Balancer.active?]
  rw [filteringCommutes_iff
    (fun _ hmem => by rw [hfits _ hmem, hlength])
    (fun _ hmem => by rw [hfitsOwn _ hmem, length_healthyOnly, ← hurls]; exact hown)]
  have hpos : 0 < (healthyWorkerUrls workers).length := hurls ▸ List.length_pos_of_ne_nil hne
  simp only [List.mem_cons, List.not_mem_nil, or_false] at hkind
  rcases hkind with rfl | rfl | rfl | rfl
  · simp only [mayChoose_leastLoaded ctx hne hread, mayChoose_leastLoaded ctx hne hown, hurls]
    exact commutesWhen_leastLoaded ctx hpos
  · simp only [mayChoose_powerOfTwo ctx hne hread, mayChoose_powerOfTwo ctx hne hown, CommutesWhen,
      implies_true]
  · simp only [mayChoose_prefixAffinity ctx hne hread, mayChoose_prefixAffinity ctx hne hown, hurls]
    exact commutesWhen_prefixAffinity ctx
  · simp only [mayChoose_loadCacheAware ctx hne hread, mayChoose_loadCacheAware ctx hne hown, hurls,
      CommutesWhen]
    exact forall₂_congr fun k hk => by simp only [hk, true_and]

/-- The unhealthy worker comes last, so candidates and positions coincide. -/
theorem filteringCommutes_unhealthy_last :
    FilteringCommutes .leastLoaded
      [⟨"http://a:8000", true⟩, ⟨"http://b:8000", true⟩, ⟨"http://c:8000", false⟩] [2, 1, 0]
      ⟨"", ""⟩ := by
  refine (filteringCommutes_iff_commutesWhen (by decide) rfl (by decide) ⟨"", ""⟩).mpr ?_
  exact Or.inr ⟨by decide, by decide, 1, ⟨by decide, by decide, by decide⟩,
    ⟨by decide, by decide, by decide⟩⟩

/-- The unhealthy worker comes first: candidate `b` is judged by the idle counter of `a`, so it can
be returned although `c` has fewer requests in flight. -/
theorem not_filteringCommutes_unhealthy_first :
    ¬FilteringCommutes .leastLoaded
      [⟨"http://a:8000", false⟩, ⟨"http://b:8000", true⟩, ⟨"http://c:8000", true⟩] [0, 5, 1]
      ⟨"", ""⟩ := by
  intro h
  rw [filteringCommutes_iff (fun _ hmem => by cases hmem; decide)
    (fun _ hmem => by cases hmem; decide)] at h
  have hchoice := (mayChoose_leastLoaded ⟨"", ""⟩ (by decide) (by decide) 0).mp
    ((h 0 (by decide)).mp ((mayChoose_leastLoaded ⟨"", ""⟩ (by decide) (by decide) 0).mpr
      (Or.inl (by decide))))
  rcases hchoice with ⟨hhead, -⟩ | ⟨-, hfirst⟩
  · exact absurd hhead (by decide)
  · exact absurd (hfirst.le 1 (by decide)) (by decide)

end TokenDog
