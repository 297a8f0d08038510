import TokenDog.Policies.LoadCacheAware

/-!
# Cache affinity and load

What the affinity vector says about each worker, and how `LoadCacheAware` weighs it against load with
the default weights.
-/

namespace TokenDog

open Counters

namespace CacheDirectory

/-- Staleness zero means that an entry is never stale. -/
def fresh (cache : CacheDirectory) (now ts : Nat) : Bool :=
  cache.staleness = 0 || now - ts < cache.staleness

/-- The worker an entry names, unless `fresh` rejects its time. -/
def holder (fresh : Nat → Bool) (entry : Option (Nat × Nat)) : Option Nat :=
  entry.bind fun (idx, ts) => if fresh ts then some idx else none

def prefixHolder (cache : CacheDirectory) (prefixKey : String) (now : Nat) : Option Nat :=
  holder (cache.fresh now) (cache.prefixMap prefixKey)

def sessionHolder (cache : CacheDirectory) (sessionId : String) (now : Nat) : Option Nat :=
  holder (cache.fresh now) (cache.sessionMap sessionId)

theorem getD_mark (entry : Option (Nat × Nat)) (fresh : Nat → Bool) (value : ℚ) {scores : List ℚ}
    {i : Nat} (hi : i < scores.length) :
    (mark entry fresh value scores).getD i 0 =
      if holder fresh entry = some i then value else scores.getD i 0 := by
  cases entry with
  | none => simp [mark, holder]
  | some entry =>
      obtain ⟨idx, ts⟩ := entry
      simp only [mark, holder, Option.bind_some]
      cases hfresh : fresh ts with
      | false => simp
      | true =>
          by_cases hidx : idx = i
          · subst hidx
            simp [hi]
          · have hne : ¬some idx = some i := by simpa using hidx
            rw [if_pos rfl, if_neg hne]
            split
            · simp [List.getD, hidx]
            · rfl

theorem getAffinity_eq_mark (cache : CacheDirectory) (prefixKey sessionId : String)
    (nWorkers now : Nat) :
    cache.getAffinity prefixKey sessionId nWorkers now =
      mark (cache.sessionMap sessionId) (cache.fresh now) (1 / 2)
        (mark (cache.prefixMap prefixKey) (cache.fresh now) 1 (List.replicate nWorkers 0)) := by
  unfold getAffinity
  by_cases hstale : cache.staleness = 0
  · have hfresh : cache.fresh now = fun _ts => true := by
      funext ts
      simp [fresh, hstale]
    rw [if_pos hstale, hfresh]
  · have hfresh : cache.fresh now = fun ts => decide (now - ts < cache.staleness) := by
      funext ts
      simp [fresh, hstale]
    rw [if_neg hstale, hfresh]

theorem getD_getAffinity (cache : CacheDirectory) (prefixKey sessionId : String)
    {nWorkers i : Nat} (now : Nat) (hi : i < nWorkers) :
    (cache.getAffinity prefixKey sessionId nWorkers now).getD i 0 =
      if cache.sessionHolder sessionId now = some i then 1 / 2
      else if cache.prefixHolder prefixKey now = some i then 1
      else 0 := by
  have hzero : (List.replicate nWorkers (0 : ℚ)).getD i 0 = 0 := by simp [List.getD, hi]
  have hheld := getD_mark (cache.prefixMap prefixKey) (cache.fresh now) 1
    (show i < (List.replicate nWorkers (0 : ℚ)).length by rw [List.length_replicate]; exact hi)
  rw [getAffinity_eq_mark, getD_mark _ _ _ (by rw [length_mark, List.length_replicate]; exact hi),
    hheld, hzero, prefixHolder, sessionHolder]

def documentedAffinity (cache : CacheDirectory) (prefixKey sessionId : String) (now i : Nat) : ℚ :=
  if cache.prefixHolder prefixKey now = some i then 1
  else if cache.sessionHolder sessionId now = some i then 1 / 2
  else 0

/-- The session entry is written over the prefix entry of the same worker. -/
theorem getAffinity_ne_documented {cache : CacheDirectory} {prefixKey sessionId : String}
    {nWorkers now i : Nat} (hi : i < nWorkers)
    (hheld : cache.prefixHolder prefixKey now = some i)
    (hsession : cache.sessionHolder sessionId now = some i) :
    cache.getAffinity prefixKey sessionId nWorkers now ≠
      (List.range nWorkers).map (cache.documentedAffinity prefixKey sessionId now) := by
  intro hdoc
  have hentry := cache.getD_getAffinity prefixKey sessionId now hi
  have hone : ((List.range nWorkers).map
      (cache.documentedAffinity prefixKey sessionId now)).getD i 0 = 1 := by
    simp [List.getD, hi, documentedAffinity, hheld]
  have hhalf : (1 : ℚ) = 1 / 2 := by
    calc (1 : ℚ)
        = ((List.range nWorkers).map
            (cache.documentedAffinity prefixKey sessionId now)).getD i 0 := hone.symm
      _ = (cache.getAffinity prefixKey sessionId nWorkers now).getD i 0 := by rw [hdoc]
      _ = 1 / 2 := by rw [hentry, if_pos hsession]
  norm_num at hhalf

/-- The vector is the documented one unless some worker holds both the prefix and the session. -/
theorem getAffinity_documented_iff (cache : CacheDirectory) (prefixKey sessionId : String)
    (nWorkers now : Nat) :
    cache.getAffinity prefixKey sessionId nWorkers now =
        (List.range nWorkers).map (cache.documentedAffinity prefixKey sessionId now) ↔
      ¬∃ i < nWorkers, cache.prefixHolder prefixKey now = some i ∧
        cache.sessionHolder sessionId now = some i := by
  have hlength := cache.length_getAffinity prefixKey sessionId nWorkers now
  constructor
  · rintro hdoc ⟨i, hi, hheld, hsession⟩
    exact getAffinity_ne_documented hi hheld hsession hdoc
  · intro hapart
    apply List.ext_getElem
    · rw [hlength, List.length_map, List.length_range]
    · intro i hi _
      rw [hlength] at hi
      have hentry := cache.getD_getAffinity prefixKey sessionId now hi
      have hget : (cache.getAffinity prefixKey sessionId nWorkers now).getD i 0 =
          (cache.getAffinity prefixKey sessionId nWorkers now)[i] := by
        simp [List.getD, List.getElem?_eq_getElem (hlength.symm ▸ hi)]
      rw [← hget, hentry, List.getElem_map, List.getElem_range, documentedAffinity]
      by_cases hheld : cache.prefixHolder prefixKey now = some i
      · have hsession : ¬cache.sessionHolder sessionId now = some i := fun hsession =>
          hapart ⟨i, hi, hheld, hsession⟩
        rw [if_neg hsession, if_pos hheld, if_pos hheld]
      · rw [if_neg hheld, if_neg hheld]

/-- The directory after a sequence of calls, each with its prefix, session, worker and time. -/
def recordAll (staleness : Nat) (calls : List (String × String × Nat × Nat)) : CacheDirectory :=
  calls.foldl (fun cache (prefixKey, sessionId, workerIdx, now) =>
    cache.record prefixKey sessionId workerIdx now) (new staleness)

theorem holders_record (cache : CacheDirectory) (prefixKey sessionId : String) (workerIdx : Nat)
    {ts now : Nat} (hfresh : cache.fresh now ts = true) :
    (cache.record prefixKey sessionId workerIdx ts).prefixHolder prefixKey now = some workerIdx ∧
      (cache.record prefixKey sessionId workerIdx ts).sessionHolder sessionId now =
        some workerIdx := by
  have hsame : (cache.record prefixKey sessionId workerIdx ts).fresh now ts = true := hfresh
  have hheld : (cache.record prefixKey sessionId workerIdx ts).prefixMap prefixKey =
      some (workerIdx, ts) := Function.update_self ..
  have hsession : (cache.record prefixKey sessionId workerIdx ts).sessionMap sessionId =
      some (workerIdx, ts) := Function.update_self ..
  constructor
  · rw [prefixHolder, hheld]
    exact if_pos hsame
  · rw [sessionHolder, hsession]
    exact if_pos hsame

/-- The worker that served the prefix and the session a moment ago. -/
theorem getAffinity_ne_documented_after_record :
    ¬(recordAll 0 [("prompt", "session", 0, 0)]).getAffinity "prompt" "session" 2 1 =
      (List.range 2).map
        ((recordAll 0 [("prompt", "session", 0, 0)]).documentedAffinity "prompt" "session" 1) := by
  obtain ⟨hheld, hsession⟩ := (new 0).holders_record "prompt" "session" 0
    (show (new 0).fresh 1 0 = true from rfl)
  exact getAffinity_ne_documented Nat.two_pos hheld hsession

end CacheDirectory

namespace LoadCacheAware

theorem inFlight_le_maxLoad (active : Counters) (i : Nat) : active.inFlight i ≤ maxLoad active := by
  by_cases hi : i < active.length
  · rw [inFlight_eq_getElem hi, maxLoad]
    obtain ⟨m, hm⟩ := Option.isSome_iff_exists.mp
      (List.isSome_max?_of_mem (List.getElem_mem hi))
    rw [hm]
    exact ((List.max?_eq_some_iff.mp hm).2 _ (List.getElem_mem hi)).trans (le_max_left _ _)
  · have hzero : active.inFlight i = 0 := by
      simp [inFlight, List.getElem?_eq_none (Nat.not_lt.mp hi)]
    rw [hzero]
    exact Nat.zero_le _

theorem maxLoad_pos (active : Counters) : (0 : ℚ) < maxLoad active :=
  Nat.cast_pos.mpr (lt_max_of_lt_right Nat.one_pos)

/-- The normaliser is taken over every counter, so no normalised load exceeds one. -/
theorem normalised_mem (active : Counters) (i : Nat) :
    (0 : ℚ) ≤ active.inFlight i / maxLoad active ∧
      (active.inFlight i / maxLoad active : ℚ) ≤ 1 := by
  have hpos := maxLoad_pos active
  constructor
  · positivity
  · rw [div_le_one hpos]
    exact Nat.cast_le.mpr (inFlight_le_maxLoad active i)

theorem normalised_le_iff (active : Counters) (i j : Nat) :
    (active.inFlight i / maxLoad active : ℚ) ≤ active.inFlight j / maxLoad active ↔
      active.inFlight i ≤ active.inFlight j := by
  rw [div_le_div_iff_of_pos_right (maxLoad_pos active), Nat.cast_le]

def affinity (policy : LoadCacheAware) (ctx : RequestContext) (n now i : Nat) : ℚ :=
  (policy.cacheDir.getAffinity ctx.prefixKey ctx.sessionId n now).getD i 0

theorem affinity_values (policy : LoadCacheAware) (ctx : RequestContext) {n i : Nat} (now : Nat)
    (hi : i < n) :
    policy.affinity ctx n now i = 0 ∨ policy.affinity ctx n now i = 1 / 2 ∨
      policy.affinity ctx n now i = 1 := by
  rw [affinity, CacheDirectory.getD_getAffinity _ _ _ now hi]
  split
  · exact Or.inr (Or.inl rfl)
  · split
    · exact Or.inr (Or.inr rfl)
    · exact Or.inl rfl

theorem half_le_affinity_sub {policy : LoadCacheAware} {ctx : RequestContext} {n now i j : Nat}
    (hi : i < n) (hj : j < n) (hlt : policy.affinity ctx n now i < policy.affinity ctx n now j) :
    1 / 2 ≤ policy.affinity ctx n now j - policy.affinity ctx n now i := by
  rcases policy.affinity_values ctx now hi with hvalue | hvalue | hvalue <;>
    rcases policy.affinity_values ctx now hj with hvalue' | hvalue' | hvalue' <;>
      linarith

/-- Candidate `i` has the greatest affinity, and the smallest counter of those that have it. -/
structure Preferred (policy : LoadCacheAware) (ctx : RequestContext) (n now i : Nat) : Prop where
  lt : i < n
  best : ∀ j < n, policy.affinity ctx n now j < policy.affinity ctx n now i ∨
    policy.affinity ctx n now j = policy.affinity ctx n now i ∧
      policy.active.inFlight i ≤ policy.active.inFlight j

theorem exists_selectWithContext_eq {policy : LoadCacheAware} {workers : List String}
    {ctx : RequestContext} {now i : Nat} (hne : workers ≠ [])
    (hfit : workers.length ≤ policy.active.length) :
    (∃ draw policy', policy.selectWithContext workers ctx ⟨draw, now⟩ = .ok (i, policy')) ↔
      i ∈ policy.best ctx workers.length now := by
  have hpos := List.length_pos_of_ne_nil hne
  by_cases hone : workers.length = 1
  · -- the only candidate is returned without being scored
    have hzero : i ∈ policy.best ctx workers.length now ↔ i = 0 := by
      rw [mem_best, hone]
      constructor
      · rintro ⟨hi, -⟩
        omega
      · rintro rfl
        refine ⟨Nat.one_pos, fun j hj => ?_⟩
        obtain rfl : j = 0 := by omega
        exact le_rfl
    rw [hzero]
    constructor
    · rintro ⟨draw, policy', hselect⟩
      rw [selectWithContext_one policy ctx _ hone] at hselect
      cases hselect
      rfl
    · rintro rfl
      exact ⟨fun _ => 0, policy, selectWithContext_one policy ctx _ hone⟩
  · constructor
    · rintro ⟨draw, policy', hselect⟩
      rw [selectWithContext_eq policy ctx _ hone hfit] at hselect
      obtain ⟨j, hpick, hj⟩ := bind_eq_ok.mp hselect
      cases hj
      exact mem_of_pickFrom hpick
    · intro hi
      obtain ⟨raw, hpick⟩ := exists_pickFrom_eq hi
      refine ⟨fun _ => raw, policy, ?_⟩
      rw [selectWithContext_eq policy ctx _ hone hfit]
      dsimp only
      rw [hpick]
      rfl

theorem mem_best_iff_preferred {policy : LoadCacheAware} (halpha : policy.alpha = 7 / 10)
    (hbeta : policy.beta = 3 / 10) (ctx : RequestContext) (n now i : Nat) :
    i ∈ policy.best ctx n now ↔ policy.Preferred ctx n now i := by
  have hscore : i < n → ∀ j < n, policy.score ctx n now j ≤ policy.score ctx n now i ↔
      policy.affinity ctx n now j < policy.affinity ctx n now i ∨
        policy.affinity ctx n now j = policy.affinity ctx n now i ∧
          policy.active.inFlight i ≤ policy.active.inFlight j := by
    intro hi j hj
    rw [← normalised_le_iff policy.active i j, score, score, halpha, hbeta]
    exact Scan.weighted_le_iff (1 / 2) (by norm_num) (by norm_num) (by norm_num)
      (half_le_affinity_sub hj hi) (half_le_affinity_sub hi hj)
      (normalised_mem policy.active j) (normalised_mem policy.active i)
  rw [mem_best]
  constructor
  · rintro ⟨hi, hmax⟩
    exact ⟨hi, fun j hj => (hscore hi j hj).mp (hmax j hj)⟩
  · rintro ⟨hi, hbest⟩
    exact ⟨hi, fun j hj => (hscore hi j hj).mpr (hbest j hj)⟩

/-- Over the random draws, `select_with_context` returns the preferred candidates and no others, so
a worker with less affinity than another one is never chosen, whatever the counters. -/
theorem selectWithContext_preferred (policy : LoadCacheAware) (halpha : policy.alpha = 7 / 10)
    (hbeta : policy.beta = 3 / 10) (workers : List String) (ctx : RequestContext) (now : Nat)
    (hne : workers ≠ []) (hfit : workers.length ≤ policy.active.length) :
    (∀ i, (∃ draw policy', policy.selectWithContext workers ctx ⟨draw, now⟩ = .ok (i, policy')) ↔
        policy.Preferred ctx workers.length now i) ∧
      ∀ i < workers.length, ∀ j < workers.length,
        policy.affinity ctx workers.length now j < policy.affinity ctx workers.length now i →
          ∀ draw policy', policy.selectWithContext workers ctx ⟨draw, now⟩ ≠ .ok (j, policy') := by
  have hreturned : ∀ i,
      (∃ draw policy', policy.selectWithContext workers ctx ⟨draw, now⟩ = .ok (i, policy')) ↔
        policy.Preferred ctx workers.length now i := by
    intro i
    rw [← mem_best_iff_preferred halpha hbeta]
    exact exists_selectWithContext_eq hne hfit
  refine ⟨hreturned, fun i hi j hj hlt draw policy' hselect => ?_⟩
  have hpreferred := (hreturned j).mp ⟨draw, policy', hselect⟩
  rcases hpreferred.best i hi with habove | ⟨heq, -⟩
  · exact absurd habove hlt.not_gt
  · exact absurd heq hlt.ne'

/-- The second worker holds the prompt and is the busier one. -/
theorem selectWithContext_preferred_holder :
    ∃ draw policy', (LoadCacheAware.mk [0, 9]
      (CacheDirectory.recordAll 0 [("prompt", "session", 1, 0)]) (7 / 10) (3 / 10)).selectWithContext
        ["http://a:8000", "http://b:8000"] ⟨"session", "prompt"⟩ ⟨draw, 1⟩ = .ok (1, policy') := by
  have hreturned := (selectWithContext_preferred
    ⟨[0, 9], CacheDirectory.recordAll 0 [("prompt", "session", 1, 0)], 7 / 10, 3 / 10⟩ rfl rfl
    ["http://a:8000", "http://b:8000"] ⟨"session", "prompt"⟩ 1 (by decide) le_rfl).1 1
  obtain ⟨hheld, hsession⟩ := (CacheDirectory.new 0).holders_record "prompt" "session" 1
    (show (CacheDirectory.new 0).fresh 1 0 = true from rfl)
  have hidle := CacheDirectory.getD_getAffinity ((CacheDirectory.new 0).record "prompt" "session" 1 0)
    "prompt" "session" 1 Nat.two_pos
  have hbusy := CacheDirectory.getD_getAffinity ((CacheDirectory.new 0).record "prompt" "session" 1 0)
    "prompt" "session" 1 Nat.one_lt_two
  rw [hheld, hsession] at hidle hbusy
  refine hreturned.mpr ⟨Nat.one_lt_two, fun j hj => ?_⟩
  rcases Nat.lt_succ_iff_lt_or_eq.mp hj with hzero | rfl
  · obtain rfl := Nat.lt_one_iff.mp hzero
    left
    change List.getD _ 0 0 < List.getD _ 1 0
    calc _ = (0 : ℚ) := hidle
      _ < 1 / 2 := by norm_num
      _ = _ := hbusy.symm
  · exact Or.inr ⟨rfl, le_rfl⟩

end LoadCacheAware

end TokenDog
