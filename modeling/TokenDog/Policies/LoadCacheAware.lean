import TokenDog.Lib.Scan
import TokenDog.Policies.Affinity
import Mathlib.Data.Rat.Cast.Order
import Mathlib.Algebra.Order.Ring.Rat
import Mathlib.Tactic.Ring
import Mathlib.Tactic.Linarith
import Mathlib.Tactic.Positivity
import Mathlib.Tactic.NormNum

/-!
# Load and cache aware scoring

`LoadCacheAware` scores each candidate by `alpha * affinity - beta * load`, where the affinity comes
from a directory of the workers that last served a prefix and a session. Scores, which the code
computes in `f64`, are exact rationals here; instants and durations are nanoseconds.
-/

namespace TokenDog

open Counters

/-- Which worker last served each prefix and each session, and when. -/
structure CacheDirectory where
  prefixMap : String → Option (Nat × Nat)
  sessionMap : String → Option (Nat × Nat)
  staleness : Nat

namespace CacheDirectory

def new (staleness : Nat) : CacheDirectory := ⟨fun _ => none, fun _ => none, staleness⟩

/-- Write `value` at the worker an entry names, when it is in range and `fresh` accepts its time. -/
def mark (entry : Option (Nat × Nat)) (fresh : Nat → Bool) (value : ℚ) (scores : List ℚ) : List ℚ :=
  match entry with
  | some (idx, ts) => if idx < scores.length ∧ fresh ts then scores.set idx value else scores
  | none => scores

/-- The per-worker affinity vector. The session entry is written after the prefix entry, over it
when both name the same worker. -/
def getAffinity (cache : CacheDirectory) (prefixKey sessionId : String) (nWorkers now : Nat) :
    List ℚ :=
  let scores := List.replicate nWorkers 0
  if cache.staleness = 0 then
    let scores := mark (cache.prefixMap prefixKey) (fun _ts => true) 1 scores
    mark (cache.sessionMap sessionId) (fun _ts => true) (1 / 2) scores
  else
    let scores := mark (cache.prefixMap prefixKey) (fun ts => now - ts < cache.staleness) 1 scores
    mark (cache.sessionMap sessionId) (fun ts => now - ts < cache.staleness) (1 / 2) scores

def record (cache : CacheDirectory) (prefixKey sessionId : String) (workerIdx now : Nat) :
    CacheDirectory :=
  { cache with
    prefixMap := Function.update cache.prefixMap prefixKey (some (workerIdx, now))
    sessionMap := Function.update cache.sessionMap sessionId (some (workerIdx, now)) }

theorem length_mark (entry : Option (Nat × Nat)) (fresh : Nat → Bool) (value : ℚ)
    (scores : List ℚ) : (mark entry fresh value scores).length = scores.length := by
  unfold mark
  split
  · split <;> simp
  · rfl

theorem length_getAffinity (cache : CacheDirectory) (prefixKey sessionId : String)
    (nWorkers now : Nat) : (cache.getAffinity prefixKey sessionId nWorkers now).length = nWorkers := by
  unfold getAffinity
  split <;> simp [length_mark]

theorem getAffinity_new (staleness : Nat) (prefixKey sessionId : String) (nWorkers now : Nat) :
    (new staleness).getAffinity prefixKey sessionId nWorkers now = List.replicate nWorkers 0 := by
  unfold getAffinity
  split <;> rfl

end CacheDirectory

/-- Counters, directory and the two weights. -/
structure LoadCacheAware where
  active : Counters
  cacheDir : CacheDirectory
  alpha : ℚ
  beta : ℚ

namespace LoadCacheAware

def withParams (workerCount : Nat) (alpha beta : ℚ) (staleness : Nat) :
    Except Panic LoadCacheAware :=
  if 0 < workerCount then .ok ⟨zeros workerCount, CacheDirectory.new staleness, alpha, beta⟩
  else .error .assertion

def new (workerCount : Nat) : Except Panic LoadCacheAware :=
  withParams workerCount (7 / 10) (3 / 10) 0

/-- Without context, join shortest queue. -/
def select (policy : LoadCacheAware) (workers : List String) (ambient : Ambient) :
    Except Panic (Nat × LoadCacheAware) :=
  if workers.length = 1 then .ok (0, policy)
  else do return (← jsqFallback policy.active workers.length ambient, policy)

/-- `loads.iter().max().copied().unwrap_or(1).max(1)`, over every counter of the vector. -/
def maxLoad (active : Counters) : Nat := max (active.max?.getD 1) 1

/-- One turn of the scoring loop: the state is `(best_score, best_indices)`, and the best score
starts at minus infinity. -/
def scoreStep (policy : LoadCacheAware) (affinity : List ℚ) (state : WithBot ℚ × List Nat) (i : Nat) :
    Except Panic (WithBot ℚ × List Nat) := do
  let load ← policy.active.load i
  match affinity[i]? with
  | none => .error .indexOutOfBounds
  | some affinityI =>
      let loadScore : ℚ := load / maxLoad policy.active
      let score := policy.alpha * affinityI - policy.beta * loadScore
      if state.1 < score then return (score, [i])
      else if (score : WithBot ℚ) = state.1 then return (state.1, state.2 ++ [i])
      else return state

def selectWithContext (policy : LoadCacheAware) (workers : List String) (ctx : RequestContext)
    (ambient : Ambient) : Except Panic (Nat × LoadCacheAware) :=
  let n := workers.length
  if n = 1 then .ok (0, policy)
  else do
    let affinity := policy.cacheDir.getAffinity ctx.prefixKey ctx.sessionId n ambient.now
    let (_bestScore, bestIndices) ← (List.range n).foldlM (policy.scoreStep affinity) (⊥, [])
    return (← pickFrom bestIndices (ambient.draw 0), policy)

instance : LoadBalancer LoadCacheAware where
  select := select
  selectWithContext := selectWithContext
  onRequestStart policy workerIdx := do
    return { policy with active := ← policy.active.fetchAdd workerIdx }
  onRequestEnd policy workerIdx := do
    return { policy with active := ← policy.active.fetchSub workerIdx }
  record policy ctx workerIdx ambient :=
    { policy with
      cacheDir := policy.cacheDir.record ctx.prefixKey ctx.sessionId workerIdx ambient.now }

def score (policy : LoadCacheAware) (ctx : RequestContext) (n now i : Nat) : ℚ :=
  policy.alpha * (policy.cacheDir.getAffinity ctx.prefixKey ctx.sessionId n now).getD i 0 -
    policy.beta * (policy.active.inFlight i / maxLoad policy.active)

def best (policy : LoadCacheAware) (ctx : RequestContext) (n now : Nat) : List Nat :=
  ((List.range n).foldl (Scan.tieStep (policy.score ctx n now)) (⊥, [])).2

theorem selectWithContext_one (policy : LoadCacheAware) {workers : List String}
    (ctx : RequestContext) (ambient : Ambient) (hone : workers.length = 1) :
    policy.selectWithContext workers ctx ambient = .ok (0, policy) :=
  if_pos hone

theorem policy_of_selectWithContext {policy policy' : LoadCacheAware} {workers : List String}
    {ctx : RequestContext} {ambient : Ambient} {i : Nat}
    (h : policy.selectWithContext workers ctx ambient = .ok (i, policy')) : policy' = policy := by
  simp only [selectWithContext] at h
  split at h
  · cases h
    rfl
  · simp only [bind_eq_ok, pure_eq_ok, Except.ok.injEq, Prod.mk.injEq] at h
    obtain ⟨_, -, _, -, -, rfl⟩ := h
    rfl

theorem scoreStep_eq_ok (policy : LoadCacheAware) (ctx : RequestContext) {n : Nat} (now : Nat)
    {i : Nat} (state : WithBot ℚ × List Nat) (hi : i < n) (hfit : n ≤ policy.active.length) :
    policy.scoreStep (policy.cacheDir.getAffinity ctx.prefixKey ctx.sessionId n now) state i =
      .ok (Scan.tieStep (policy.score ctx n now) state i) := by
  have hlen := policy.cacheDir.length_getAffinity ctx.prefixKey ctx.sessionId n now
  have haffinity : (policy.cacheDir.getAffinity ctx.prefixKey ctx.sessionId n now)[i]? =
      some ((policy.cacheDir.getAffinity ctx.prefixKey ctx.sessionId n now).getD i 0) := by
    simp [List.getD, List.getElem?_eq_getElem (hi.trans_eq hlen.symm)]
  rw [scoreStep, load_eq_ok (hi.trans_le hfit), ok_bind, haffinity]
  change (if state.1 < (policy.score ctx n now i : WithBot ℚ) then _ else _) = _
  by_cases hlt : state.1 < (policy.score ctx n now i : WithBot ℚ)
  · rw [Scan.tieStep, if_pos hlt, if_pos hlt]
    rfl
  · rw [Scan.tieStep, if_neg hlt, if_neg hlt]
    change (if (policy.score ctx n now i : WithBot ℚ) = state.1 then _ else _) = _
    by_cases heq : (policy.score ctx n now i : WithBot ℚ) = state.1
    · rw [if_pos heq, if_pos heq]
      rfl
    · rw [if_neg heq, if_neg heq]
      rfl

theorem selectWithContext_eq (policy : LoadCacheAware) {workers : List String}
    (ctx : RequestContext) (ambient : Ambient) (hone : workers.length ≠ 1)
    (hfit : workers.length ≤ policy.active.length) :
    policy.selectWithContext workers ctx ambient = do
      return (← pickFrom (policy.best ctx workers.length ambient.now) (ambient.draw 0), policy) := by
  have hscan := Scan.foldlM_eq_ok (List.range workers.length) (⊥, [])
    fun state i hi => policy.scoreStep_eq_ok ctx ambient.now state
      (List.mem_range.mp hi) hfit
  simp only [selectWithContext]
  rw [if_neg hone, hscan]
  rfl

theorem mem_best {policy : LoadCacheAware} {ctx : RequestContext} {n now i : Nat} :
    i ∈ policy.best ctx n now ↔
      i < n ∧ ∀ j < n, policy.score ctx n now j ≤ policy.score ctx n now i := by
  rw [best, Scan.mem_foldl_tieStep]
  simp

theorem best_ne_nil (policy : LoadCacheAware) (ctx : RequestContext) {n : Nat} (now : Nat)
    (hn : 0 < n) :
    policy.best ctx n now ≠ [] :=
  Scan.foldl_tieStep_ne_nil (by simp [hn.ne'])

end LoadCacheAware

end TokenDog
