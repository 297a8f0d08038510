import TokenDog.Policies.Basic

/-!
# Affinity by hash

`SessionAffinity` hashes the session, `PrefixAffinity` hashes the prompt prefix and falls back to
join-shortest-queue. The fallback takes its minimum over every counter of the vector but looks for
ties among the candidates only, so it panics when no candidate attains the minimum.
-/

namespace TokenDog

open Counters

/-- Routes by a hash of the session id. -/
structure SessionAffinity where

namespace SessionAffinity

def select (policy : SessionAffinity) (workers : List String) (ambient : Ambient) :
    Except Panic (Nat × SessionAffinity) :=
  if workers.length = 1 then .ok (0, policy)
  else if workers.length = 0 then .error .remainderByZero
  else .ok (ambient.draw 0 % workers.length, policy)

def selectWithContext (policy : SessionAffinity) (workers : List String) (ctx : RequestContext)
    (_ambient : Ambient) : Except Panic (Nat × SessionAffinity) :=
  if workers.length = 0 then .error .remainderByZero
  else .ok ((stableHash ctx.sessionId).toNat % workers.length, policy)

instance : LoadBalancer SessionAffinity where
  select := select
  selectWithContext := selectWithContext

theorem selectWithContext_eq (policy : SessionAffinity) {workers : List String}
    (ctx : RequestContext) (ambient : Ambient) (hne : workers ≠ []) :
    policy.selectWithContext workers ctx ambient =
      .ok ((stableHash ctx.sessionId).toNat % workers.length, policy) :=
  if_neg (fun h => hne (List.eq_nil_of_length_eq_zero h))

end SessionAffinity

def minQueue (active : Counters) : Nat := active.min?.getD 0

def tiedAt (active : Counters) (minQ : Nat) : List Nat → Except Panic (List Nat)
  | [] => .ok []
  | i :: rest => do
      let load ← active.load i
      let tied ← tiedAt active minQ rest
      return if load = minQ then i :: tied else tied

def pickFrom (indices : List Nat) (raw : Nat) : Except Panic Nat := do
  let k ← genRange raw indices.length
  match indices[k]? with
  | some i => .ok i
  | none => .error .indexOutOfBounds

/-- `jsq_fallback`: the worker with the fewest active requests, ties broken at random. -/
def jsqFallback (active : Counters) (n : Nat) (ambient : Ambient) : Except Panic Nat := do
  let minQ := minQueue active
  let tied ← tiedAt active minQ (List.range n)
  pickFrom tied (ambient.draw 0)

def shortestQueues (active : Counters) (n : Nat) : List Nat :=
  (List.range n).filter fun i => active.inFlight i = minQueue active

theorem tiedAt_eq_ok {active : Counters} (minQ : Nat) {candidates : List Nat}
    (hfit : ∀ i ∈ candidates, i < active.length) :
    tiedAt active minQ candidates =
      .ok (candidates.filter fun i => active.inFlight i = minQ) := by
  induction candidates with
  | nil => rfl
  | cons i rest ih =>
      rw [tiedAt, load_eq_ok (hfit i (List.mem_cons_self ..)), ok_bind,
        ih fun j hj => hfit j (List.mem_cons_of_mem _ hj), ok_bind, List.filter_cons]
      by_cases heq : active.inFlight i = minQ <;> simp [heq]

theorem pickFrom_eq_ok {indices : List Nat} (raw : Nat) (hne : indices ≠ []) :
    ∃ i ∈ indices, pickFrom indices raw = .ok i := by
  have hlt : raw % indices.length < indices.length :=
    Nat.mod_lt raw (List.length_pos_of_ne_nil hne)
  refine ⟨indices[raw % indices.length], List.getElem_mem hlt, ?_⟩
  rw [pickFrom, genRange_eq_ok (List.length_pos_of_ne_nil hne), ok_bind, List.getElem?_eq_getElem hlt]

theorem exists_pickFrom_eq {indices : List Nat} {i : Nat} (hi : i ∈ indices) :
    ∃ raw, pickFrom indices raw = .ok i := by
  obtain ⟨k, hk, rfl⟩ := List.getElem_of_mem hi
  refine ⟨k, ?_⟩
  rw [pickFrom, genRange_eq_ok (by omega), ok_bind, Nat.mod_eq_of_lt hk, List.getElem?_eq_getElem hk]

theorem pickFrom_nil (raw : Nat) : pickFrom [] raw = .error .emptyRange := rfl

theorem mem_of_pickFrom {indices : List Nat} {raw i : Nat} (h : pickFrom indices raw = .ok i) :
    i ∈ indices := by
  have hne : indices ≠ [] := by
    rintro rfl
    rw [pickFrom_nil] at h
    cases h
  obtain ⟨j, hj, hpick⟩ := pickFrom_eq_ok raw hne
  rw [hpick] at h
  cases h
  exact hj

theorem jsqFallback_eq {active : Counters} {n : Nat} (ambient : Ambient) (hfit : n ≤ active.length) :
    jsqFallback active n ambient = pickFrom (shortestQueues active n) (ambient.draw 0) := by
  have hbound : ∀ i ∈ List.range n, i < active.length := fun i hi =>
    (List.mem_range.mp hi).trans_le hfit
  have htied := tiedAt_eq_ok (minQueue active) hbound
  rw [jsqFallback, htied]
  rfl

theorem minQueue_le {active : Counters} {i : Nat} (hi : i < active.length) :
    minQueue active ≤ active.inFlight i := by
  rw [inFlight_eq_getElem hi]
  obtain ⟨m, hm⟩ := Option.isSome_iff_exists.mp
    (List.isSome_min?_of_mem (List.getElem_mem hi))
  rw [minQueue, hm]
  exact (List.min?_eq_some_iff.mp hm).2 _ (List.getElem_mem hi)

theorem minQueue_attained {active : Counters} (hne : 0 < active.length) :
    ∃ i < active.length, active.inFlight i = minQueue active := by
  obtain ⟨m, hm⟩ := Option.isSome_iff_exists.mp
    (List.isSome_min?_of_mem (List.getElem_mem hne))
  obtain ⟨i, hi, hget⟩ := List.getElem_of_mem (List.min?_mem hm)
  exact ⟨i, hi, by rw [inFlight_eq_getElem hi, hget, minQueue, hm]; rfl⟩

theorem mem_shortestQueues {active : Counters} {n i : Nat} :
    i ∈ shortestQueues active n ↔ i < n ∧ active.inFlight i = minQueue active := by
  simp [shortestQueues]

/-- Routes by prefix hash while the preferred worker is below the threshold. -/
structure PrefixAffinity where
  active : Counters
  threshold : Nat

namespace PrefixAffinity

def withThreshold (workerCount threshold : Nat) : Except Panic PrefixAffinity :=
  if 0 < workerCount then .ok ⟨zeros workerCount, threshold⟩ else .error .assertion

def new (workerCount : Nat) : Except Panic PrefixAffinity := withThreshold workerCount 10

def select (policy : PrefixAffinity) (workers : List String) (ambient : Ambient) :
    Except Panic (Nat × PrefixAffinity) :=
  if workers.length = 1 then .ok (0, policy)
  else do return (← jsqFallback policy.active workers.length ambient, policy)

def preferred (ctx : RequestContext) (n : Nat) : Nat := (stableHash ctx.prefixKey).toNat % n

def selectWithContext (policy : PrefixAffinity) (workers : List String) (ctx : RequestContext)
    (ambient : Ambient) : Except Panic (Nat × PrefixAffinity) :=
  let n := workers.length
  if n = 1 then .ok (0, policy)
  else if n = 0 then .error .remainderByZero
  else do
    let load ← policy.active.load (preferred ctx n)
    if load < policy.threshold then
      return (preferred ctx n, policy)
    else
      return (← jsqFallback policy.active n ambient, policy)

instance : LoadBalancer PrefixAffinity where
  select := select
  selectWithContext := selectWithContext
  onRequestStart policy workerIdx := do
    return { policy with active := ← policy.active.fetchAdd workerIdx }
  onRequestEnd policy workerIdx := do
    return { policy with active := ← policy.active.fetchSub workerIdx }

theorem preferred_lt (ctx : RequestContext) {n : Nat} (hn : 0 < n) : preferred ctx n < n :=
  Nat.mod_lt _ hn

theorem selectWithContext_one (policy : PrefixAffinity) {workers : List String}
    (ctx : RequestContext) (ambient : Ambient) (hone : workers.length = 1) :
    policy.selectWithContext workers ctx ambient = .ok (0, policy) :=
  if_pos hone

theorem policy_of_selectWithContext {policy policy' : PrefixAffinity} {workers : List String}
    {ctx : RequestContext} {ambient : Ambient} {i : Nat}
    (h : policy.selectWithContext workers ctx ambient = .ok (i, policy')) : policy' = policy := by
  simp only [selectWithContext] at h
  split at h
  · cases h
    rfl
  · split at h
    · cases h
    · simp only [bind_eq_ok] at h
      obtain ⟨load, -, h⟩ := h
      split at h
      · cases h
        rfl
      · simp only [bind_eq_ok, pure_eq_ok, Except.ok.injEq, Prod.mk.injEq] at h
        obtain ⟨_, -, -, rfl⟩ := h
        rfl

theorem selectWithContext_below (policy : PrefixAffinity) {workers : List String}
    (ctx : RequestContext) (ambient : Ambient) (hmany : 1 < workers.length)
    (hfit : workers.length ≤ policy.active.length)
    (hbelow : policy.active.inFlight (preferred ctx workers.length) < policy.threshold) :
    policy.selectWithContext workers ctx ambient =
      .ok (preferred ctx workers.length, policy) := by
  have hlt := preferred_lt ctx (n := workers.length) (by omega)
  simp only [selectWithContext]
  rw [if_neg (by omega), if_neg (by omega), load_eq_ok (by omega), ok_bind, if_pos hbelow]
  rfl

theorem selectWithContext_above (policy : PrefixAffinity) {workers : List String}
    (ctx : RequestContext) (ambient : Ambient) (hmany : 1 < workers.length)
    (hfit : workers.length ≤ policy.active.length)
    (habove : policy.threshold ≤ policy.active.inFlight (preferred ctx workers.length)) :
    policy.selectWithContext workers ctx ambient = do
      return (← pickFrom (shortestQueues policy.active workers.length) (ambient.draw 0), policy) := by
  have hlt := preferred_lt ctx (n := workers.length) (by omega)
  simp only [selectWithContext]
  rw [if_neg (by omega), if_neg (by omega), load_eq_ok (by omega), ok_bind,
    if_neg (Nat.not_lt.mpr habove), jsqFallback_eq ambient hfit]

end PrefixAffinity

end TokenDog
