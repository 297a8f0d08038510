import TokenDog.Policies.LoadOnly
import TokenDog.Policies.LoadCacheAware

/-!
# The boxed load balancer

`Box<dyn LoadBalancer>` as a sum of the seven policies, its dynamic dispatch, and what every policy
guarantees of a selection: the index is one of the candidates and no counter moves.
-/

namespace TokenDog

open Counters

inductive Policy where
  | leastLoaded
  | powerOfTwo
  | random
  | roundRobin
  | sessionAffinity
  | prefixAffinity
  | loadCacheAware
  deriving DecidableEq, Repr

/-- The policies that count the requests in flight on each worker. -/
def Policy.tracksLoad : Policy → Bool
  | .leastLoaded | .powerOfTwo | .prefixAffinity | .loadCacheAware => true
  | .random | .roundRobin | .sessionAffinity => false

/-- `Box<dyn LoadBalancer>`. -/
inductive Balancer where
  | leastLoaded (policy : LeastLoaded)
  | powerOfTwo (policy : PowerOfTwo)
  | random (policy : Random)
  | roundRobin (policy : RoundRobin)
  | sessionAffinity (policy : SessionAffinity)
  | prefixAffinity (policy : PrefixAffinity)
  | loadCacheAware (policy : LoadCacheAware)

namespace Balancer

/-- The policy behind a box, with the methods of its type and the way back into the box. -/
structure Unboxed where
  P : Type
  methods : LoadBalancer P
  policy : P
  box : P → Balancer

def unbox : Balancer → Unboxed
  | leastLoaded policy => ⟨LeastLoaded, inferInstance, policy, leastLoaded⟩
  | powerOfTwo policy => ⟨PowerOfTwo, inferInstance, policy, powerOfTwo⟩
  | random policy => ⟨Random, inferInstance, policy, random⟩
  | roundRobin policy => ⟨RoundRobin, inferInstance, policy, roundRobin⟩
  | sessionAffinity policy => ⟨SessionAffinity, inferInstance, policy, sessionAffinity⟩
  | prefixAffinity policy => ⟨PrefixAffinity, inferInstance, policy, prefixAffinity⟩
  | loadCacheAware policy => ⟨LoadCacheAware, inferInstance, policy, loadCacheAware⟩

def select (balancer : Balancer) (workers : List String) (ambient : Ambient) :
    Except Panic (Nat × Balancer) := do
  let inner := balancer.unbox
  let (i, policy) ← inner.methods.select inner.policy workers ambient
  return (i, inner.box policy)

def selectWithContext (balancer : Balancer) (workers : List String) (ctx : RequestContext)
    (ambient : Ambient) : Except Panic (Nat × Balancer) := do
  let inner := balancer.unbox
  let (i, policy) ← inner.methods.selectWithContext inner.policy workers ctx ambient
  return (i, inner.box policy)

def onRequestStart (balancer : Balancer) (workerIdx : Nat) : Except Panic Balancer := do
  let inner := balancer.unbox
  return inner.box (← inner.methods.onRequestStart inner.policy workerIdx)

def onRequestEnd (balancer : Balancer) (workerIdx : Nat) : Except Panic Balancer := do
  let inner := balancer.unbox
  return inner.box (← inner.methods.onRequestEnd inner.policy workerIdx)

def record (balancer : Balancer) (ctx : RequestContext) (workerIdx : Nat) (ambient : Ambient) :
    Balancer :=
  let inner := balancer.unbox
  inner.box (inner.methods.record inner.policy ctx workerIdx ambient)

/-- `make_policy` of the binary. -/
def makePolicy (policy : Policy) (n : Nat) : Except Panic Balancer :=
  match policy with
  | .leastLoaded => .ok (leastLoaded (LeastLoaded.new n))
  | .powerOfTwo => .ok (powerOfTwo (PowerOfTwo.new n))
  | .random => .ok (random {})
  | .roundRobin => .ok (roundRobin RoundRobin.new)
  | .sessionAffinity => .ok (sessionAffinity {})
  | .prefixAffinity => do return prefixAffinity (← PrefixAffinity.new n)
  | .loadCacheAware => do return loadCacheAware (← LoadCacheAware.new n)

/-- The in-flight counters of a policy that keeps them. -/
def active? : Balancer → Option Counters
  | leastLoaded policy => some policy.active
  | powerOfTwo policy => some policy.active
  | random _ => none
  | roundRobin _ => none
  | sessionAffinity _ => none
  | prefixAffinity policy => some policy.active
  | loadCacheAware policy => some policy.active

/-- The policy with its counters, if it keeps any, rewritten by `f`. -/
def mapActive (f : Counters → Counters) : Balancer → Balancer
  | leastLoaded policy => leastLoaded ⟨f policy.active⟩
  | powerOfTwo policy => powerOfTwo ⟨f policy.active⟩
  | random policy => random policy
  | roundRobin policy => roundRobin policy
  | sessionAffinity policy => sessionAffinity policy
  | prefixAffinity policy => prefixAffinity { policy with active := f policy.active }
  | loadCacheAware policy => loadCacheAware { policy with active := f policy.active }

/-- Every counter below `n` exists. -/
def Fits (balancer : Balancer) (n : Nat) : Prop := ∀ active ∈ balancer.active?, n ≤ active.length

@[simp]
theorem active?_mapActive (f : Counters → Counters) (balancer : Balancer) :
    (balancer.mapActive f).active? = balancer.active?.map f := by
  cases balancer <;> rfl

theorem Fits.of_active?_eq {balancer balancer' : Balancer} {n : Nat} (hfits : balancer.Fits n)
    (hactive : balancer'.active? = balancer.active?) : balancer'.Fits n := by
  intro active hmem
  exact hfits active (hactive ▸ hmem)

theorem Fits.mono {balancer : Balancer} {m n : Nat} (hfits : balancer.Fits n) (hmn : m ≤ n) :
    balancer.Fits m :=
  fun active hmem => hmn.trans (hfits active hmem)

theorem Fits.mapActive_modify {balancer : Balancer} {n : Nat} (hfits : balancer.Fits n)
    (i : Nat) (f : Nat → Nat) : (balancer.mapActive (·.modify i f)).Fits n := by
  intro active hmem
  rw [active?_mapActive, Option.mem_map] at hmem
  obtain ⟨before, hbefore, rfl⟩ := hmem
  rw [List.length_modify]
  exact hfits before hbefore

theorem mapActive_congr {f g : Counters → Counters} {balancer : Balancer}
    (h : ∀ active ∈ balancer.active?, f active = g active) :
    balancer.mapActive f = balancer.mapActive g := by
  cases balancer <;> simp_all [mapActive, active?]

theorem mapActive_of_none {balancer : Balancer} (h : balancer.active? = none)
    (f : Counters → Counters) : balancer.mapActive f = balancer := by
  cases balancer <;> simp_all [mapActive, active?]

theorem bind_box {P : Type} (result : Except Panic Counters) (store : Counters → P)
    (box : P → Balancer) :
    ((result >>= fun active => pure (store active)) >>= fun policy => pure (box policy)) =
      result.map fun active => box (store active) := by
  cases result <;> rfl

theorem onRequestStart_eq (balancer : Balancer) (i : Nat) :
    balancer.onRequestStart i =
      match balancer.active? with
      | some active => (active.fetchAdd i).map fun active' => balancer.mapActive fun _ => active'
      | none => .ok balancer := by
  cases balancer with
  | leastLoaded policy => exact bind_box (policy.active.fetchAdd i) _ leastLoaded
  | powerOfTwo policy => exact bind_box (policy.active.fetchAdd i) _ powerOfTwo
  | random policy => rfl
  | roundRobin policy => rfl
  | sessionAffinity policy => rfl
  | prefixAffinity policy => exact bind_box (policy.active.fetchAdd i) _ prefixAffinity
  | loadCacheAware policy => exact bind_box (policy.active.fetchAdd i) _ loadCacheAware

theorem onRequestEnd_eq (balancer : Balancer) (i : Nat) :
    balancer.onRequestEnd i =
      match balancer.active? with
      | some active => (active.fetchSub i).map fun active' => balancer.mapActive fun _ => active'
      | none => .ok balancer := by
  cases balancer with
  | leastLoaded policy => exact bind_box (policy.active.fetchSub i) _ leastLoaded
  | powerOfTwo policy => exact bind_box (policy.active.fetchSub i) _ powerOfTwo
  | random policy => rfl
  | roundRobin policy => rfl
  | sessionAffinity policy => rfl
  | prefixAffinity policy => exact bind_box (policy.active.fetchSub i) _ prefixAffinity
  | loadCacheAware policy => exact bind_box (policy.active.fetchSub i) _ loadCacheAware

theorem map_active_eq_ok_iff {balancer balancer' : Balancer} {i : Nat} {f : Nat → Nat}
    {update : Counters → Except Panic Counters}
    (hupdate : ∀ active : Counters, update active =
      if i < active.length then .ok (active.modify i f) else .error .indexOutOfBounds) :
    (match balancer.active? with
      | some active => (update active).map fun active' => balancer.mapActive fun _ => active'
      | none => .ok balancer) = .ok balancer' ↔
      balancer.Fits (i + 1) ∧ balancer' = balancer.mapActive (·.modify i f) := by
  cases hactive : balancer.active? with
  | none => simp [Fits, hactive, mapActive_of_none hactive, eq_comm]
  | some active =>
      have hcongr : balancer.mapActive (fun _ => active.modify i f) =
          balancer.mapActive (·.modify i f) :=
        mapActive_congr (by simp [hactive])
      have hfits : balancer.Fits (i + 1) ↔ i < active.length := by
        refine ⟨fun h => h active hactive, fun hi other hother => ?_⟩
        cases hactive.symm.trans hother
        exact hi
      rw [hfits]
      by_cases hi : i < active.length
      · simp [hupdate, hi, Except.map, hcongr, eq_comm]
      · simp [hupdate, hi, Except.map]

theorem onRequestStart_eq_ok_iff {balancer balancer' : Balancer} {i : Nat} :
    balancer.onRequestStart i = .ok balancer' ↔
      balancer.Fits (i + 1) ∧ balancer' = balancer.mapActive (·.modify i (· + 1)) := by
  rw [onRequestStart_eq]
  exact map_active_eq_ok_iff fun _ => rfl

theorem onRequestEnd_eq_ok_iff {balancer balancer' : Balancer} {i : Nat} :
    balancer.onRequestEnd i = .ok balancer' ↔
      balancer.Fits (i + 1) ∧ balancer' = balancer.mapActive (·.modify i decrement) := by
  rw [onRequestEnd_eq]
  exact map_active_eq_ok_iff fun _ => rfl

@[simp]
theorem active?_record (balancer : Balancer) (ctx : RequestContext) (workerIdx : Nat)
    (ambient : Ambient) : (balancer.record ctx workerIdx ambient).active? = balancer.active? := by
  cases balancer <;> rfl

def policy : Balancer → Policy
  | leastLoaded _ => .leastLoaded
  | powerOfTwo _ => .powerOfTwo
  | random _ => .random
  | roundRobin _ => .roundRobin
  | sessionAffinity _ => .sessionAffinity
  | prefixAffinity _ => .prefixAffinity
  | loadCacheAware _ => .loadCacheAware

theorem isSome_active? (balancer : Balancer) :
    balancer.active?.isSome = balancer.policy.tracksLoad := by
  cases balancer <;> rfl

@[simp]
theorem policy_mapActive (f : Counters → Counters) (balancer : Balancer) :
    (balancer.mapActive f).policy = balancer.policy := by
  cases balancer <;> rfl

@[simp]
theorem policy_record (balancer : Balancer) (ctx : RequestContext) (workerIdx : Nat)
    (ambient : Ambient) : (balancer.record ctx workerIdx ambient).policy = balancer.policy := by
  cases balancer <;> rfl

theorem policy_of_makePolicy {policy : Policy} {n : Nat} {balancer : Balancer}
    (h : makePolicy policy n = .ok balancer) : balancer.policy = policy := by
  cases policy <;> simp only [makePolicy, bind_eq_ok, pure_eq_ok, Except.ok.injEq] at h
  case prefixAffinity | loadCacheAware =>
    obtain ⟨inner, -, rfl⟩ := h
    rfl
  all_goals
    subst h
    rfl

theorem active?_of_makePolicy {policy : Policy} {n : Nat} {balancer : Balancer}
    (h : makePolicy policy n = .ok balancer) :
    ∀ active ∈ balancer.active?, active = zeros n := by
  cases policy <;> simp only [makePolicy, bind_eq_ok, pure_eq_ok, Except.ok.injEq] at h
  case prefixAffinity =>
    obtain ⟨inner, hinner, rfl⟩ := h
    unfold PrefixAffinity.new PrefixAffinity.withThreshold at hinner
    split at hinner
    · cases hinner
      simp [active?]
    · cases hinner
  case loadCacheAware =>
    obtain ⟨inner, hinner, rfl⟩ := h
    unfold LoadCacheAware.new LoadCacheAware.withParams at hinner
    split at hinner
    · cases hinner
      simp [active?]
    · cases hinner
  all_goals
    subst h
    simp [active?, LeastLoaded.new, PowerOfTwo.new]

theorem exists_makePolicy {n : Nat} (hn : 0 < n) (policy : Policy) :
    ∃ balancer, makePolicy policy n = .ok balancer := by
  cases policy <;>
    simp [makePolicy, PrefixAffinity.new, PrefixAffinity.withThreshold,
      LoadCacheAware.new, LoadCacheAware.withParams, hn]

section Dispatch

variable {workers : List String} (ctx : RequestContext) (ambient : Ambient) (hne : workers ≠ [])

include hne

theorem selectWithContext_leastLoaded (policy : LeastLoaded)
    (hfit : workers.length ≤ policy.active.length) :
    (leastLoaded policy).selectWithContext workers ctx ambient =
      .ok (LeastLoaded.choice policy.active workers.length (ambient.draw 0), leastLoaded policy) := by
  change (policy.select workers ambient >>= _) = _
  rw [policy.select_eq ambient hne hfit]
  rfl

theorem selectWithContext_powerOfTwo (policy : PowerOfTwo)
    (hfit : workers.length ≤ policy.active.length) :
    (powerOfTwo policy).selectWithContext workers ctx ambient =
      .ok (PowerOfTwo.choice policy.active workers.length (ambient.draw 0) (ambient.draw 1),
        powerOfTwo policy) := by
  change (policy.select workers ambient >>= _) = _
  rw [policy.select_eq ambient hne hfit]
  rfl

theorem selectWithContext_random (policy : Random) :
    (random policy).selectWithContext workers ctx ambient =
      .ok (ambient.draw 0 % workers.length, random policy) := by
  change (policy.select workers ambient >>= _) = _
  rw [policy.select_eq ambient hne]
  rfl

theorem selectWithContext_roundRobin (policy : RoundRobin) :
    (roundRobin policy).selectWithContext workers ctx ambient =
      .ok (policy.counter % workers.length, roundRobin ⟨(policy.counter + 1) % 2 ^ 64⟩) := by
  change (policy.select workers ambient >>= _) = _
  rw [policy.select_eq ambient hne]
  rfl

theorem selectWithContext_sessionAffinity (policy : SessionAffinity) :
    (sessionAffinity policy).selectWithContext workers ctx ambient =
      .ok ((stableHash ctx.sessionId).toNat % workers.length, sessionAffinity policy) := by
  change (policy.selectWithContext workers ctx ambient >>= _) = _
  rw [policy.selectWithContext_eq ctx ambient hne]
  rfl

/-- Below the threshold, and with a single candidate, `PrefixAffinity` has one answer. -/
theorem selectWithContext_prefixAffinity_preferred (policy : PrefixAffinity)
    (hfit : workers.length ≤ policy.active.length)
    (hbelow : workers.length = 1 ∨
      policy.active.inFlight (PrefixAffinity.preferred ctx workers.length) < policy.threshold) :
    (prefixAffinity policy).selectWithContext workers ctx ambient =
      .ok (PrefixAffinity.preferred ctx workers.length, prefixAffinity policy) := by
  change (policy.selectWithContext workers ctx ambient >>= _) = _
  by_cases hone : workers.length = 1
  · rw [policy.selectWithContext_one ctx ambient hone, PrefixAffinity.preferred, hone, Nat.mod_one]
    rfl
  · have hmany : 1 < workers.length := by
      have := List.length_pos_of_ne_nil hne
      omega
    rw [policy.selectWithContext_below ctx ambient hmany hfit (hbelow.resolve_left hone)]
    rfl

/-- Otherwise it draws among the candidates that attain the minimum of the whole vector. -/
theorem selectWithContext_prefixAffinity_fallback (policy : PrefixAffinity)
    (hfit : workers.length ≤ policy.active.length) (hone : workers.length ≠ 1)
    (habove : policy.threshold ≤
      policy.active.inFlight (PrefixAffinity.preferred ctx workers.length)) :
    (prefixAffinity policy).selectWithContext workers ctx ambient =
      (pickFrom (shortestQueues policy.active workers.length) (ambient.draw 0)).map
        fun i => (i, prefixAffinity policy) := by
  have hmany : 1 < workers.length := by
    have := List.length_pos_of_ne_nil hne
    omega
  change (policy.selectWithContext workers ctx ambient >>= _) = _
  rw [policy.selectWithContext_above ctx ambient hmany hfit habove]
  cases pickFrom (shortestQueues policy.active workers.length) (ambient.draw 0) <;> rfl

/-- `LoadCacheAware` draws among the candidates with the greatest score, also when there is one. -/
theorem selectWithContext_loadCacheAware (policy : LoadCacheAware)
    (hfit : workers.length ≤ policy.active.length) :
    (loadCacheAware policy).selectWithContext workers ctx ambient =
      (pickFrom (policy.best ctx workers.length ambient.now) (ambient.draw 0)).map
        fun i => (i, loadCacheAware policy) := by
  change (policy.selectWithContext workers ctx ambient >>= _) = _
  by_cases hone : workers.length = 1
  · obtain ⟨i, hi, hpick⟩ := pickFrom_eq_ok (ambient.draw 0)
      (policy.best_ne_nil ctx ambient.now (List.length_pos_of_ne_nil hne))
    have hzero : i = 0 := by
      have := (LoadCacheAware.mem_best.mp hi).1
      omega
    rw [policy.selectWithContext_one ctx ambient hone, hpick, hzero]
    rfl
  · rw [policy.selectWithContext_eq ctx ambient hone hfit]
    cases pickFrom (policy.best ctx workers.length ambient.now) (ambient.draw 0) <;> rfl

end Dispatch

/-- A selection returned `i`: a candidate, with the same policy and the same counters left behind. -/
structure Selected (balancer : Balancer) (n i : Nat) (balancer' : Balancer) : Prop where
  lt : i < n
  policy_eq : balancer'.policy = balancer.policy
  active?_eq : balancer'.active? = balancer.active?

theorem selectWithContext_total {balancer : Balancer} {workers : List String}
    (ctx : RequestContext) (ambient : Ambient) (hpolicy : balancer.policy ≠ .prefixAffinity)
    (hne : workers ≠ []) (hfits : balancer.Fits workers.length) :
    ∃ i balancer', balancer.selectWithContext workers ctx ambient = .ok (i, balancer') ∧
      Selected balancer workers.length i balancer' := by
  have hpos : 0 < workers.length := List.length_pos_of_ne_nil hne
  cases balancer with
  | leastLoaded policy =>
      exact ⟨_, _, selectWithContext_leastLoaded ctx ambient hne policy (hfits _ rfl),
        LeastLoaded.choice_lt hpos, rfl, rfl⟩
  | powerOfTwo policy =>
      exact ⟨_, _, selectWithContext_powerOfTwo ctx ambient hne policy (hfits _ rfl),
        PowerOfTwo.choice_lt hpos, rfl, rfl⟩
  | random policy =>
      exact ⟨_, _, selectWithContext_random ctx ambient hne policy, Nat.mod_lt _ hpos, rfl, rfl⟩
  | roundRobin policy =>
      exact ⟨_, _, selectWithContext_roundRobin ctx ambient hne policy, Nat.mod_lt _ hpos, rfl, rfl⟩
  | sessionAffinity policy =>
      exact ⟨_, _, selectWithContext_sessionAffinity ctx ambient hne policy, Nat.mod_lt _ hpos,
        rfl, rfl⟩
  | prefixAffinity policy => exact absurd rfl hpolicy
  | loadCacheAware policy =>
      obtain ⟨i, hi, hpick⟩ := pickFrom_eq_ok (ambient.draw 0)
        (policy.best_ne_nil ctx ambient.now hpos)
      rw [selectWithContext_loadCacheAware ctx ambient hne policy (hfits _ rfl), hpick]
      exact ⟨i, _, rfl, (LoadCacheAware.mem_best.mp hi).1, rfl, rfl⟩

/-- `PrefixAffinity` returns unless there are several candidates, its preferred worker is overloaded
and no candidate attains the minimum of the whole counter vector. -/
theorem selectWithContext_prefixAffinity {policy : PrefixAffinity} {workers : List String}
    (ctx : RequestContext) (ambient : Ambient) (hne : workers ≠ [])
    (hfit : workers.length ≤ policy.active.length) :
    (∃ i, (prefixAffinity policy).selectWithContext workers ctx ambient =
        .ok (i, prefixAffinity policy) ∧ i < workers.length) ∨
      (workers.length ≠ 1 ∧
        policy.threshold ≤ policy.active.inFlight (PrefixAffinity.preferred ctx workers.length) ∧
        shortestQueues policy.active workers.length = [] ∧
        (prefixAffinity policy).selectWithContext workers ctx ambient = .error .emptyRange) := by
  by_cases hbelow : workers.length = 1 ∨
      policy.active.inFlight (PrefixAffinity.preferred ctx workers.length) < policy.threshold
  · exact Or.inl ⟨_, selectWithContext_prefixAffinity_preferred ctx ambient hne policy hfit hbelow,
      PrefixAffinity.preferred_lt ctx (List.length_pos_of_ne_nil hne)⟩
  · push Not at hbelow
    obtain ⟨hone, habove⟩ := hbelow
    rw [selectWithContext_prefixAffinity_fallback ctx ambient hne policy hfit hone habove]
    by_cases hnil : shortestQueues policy.active workers.length = []
    · exact Or.inr ⟨hone, habove, hnil, by rw [hnil]; rfl⟩
    · obtain ⟨i, hi, hpick⟩ := pickFrom_eq_ok (ambient.draw 0) hnil
      exact Or.inl ⟨i, by rw [hpick]; rfl, (mem_shortestQueues.mp hi).1⟩

/-- No selection moves a counter or leaves another policy behind. -/
theorem kept_of_selectWithContext {balancer balancer' : Balancer} {workers : List String}
    {ctx : RequestContext} {ambient : Ambient} {i : Nat}
    (h : balancer.selectWithContext workers ctx ambient = .ok (i, balancer')) :
    balancer'.policy = balancer.policy ∧ balancer'.active? = balancer.active? := by
  simp only [selectWithContext, bind_eq_ok, pure_eq_ok, Except.ok.injEq, Prod.mk.injEq] at h
  obtain ⟨⟨k, policy'⟩, hselect, -, rfl⟩ := h
  cases balancer with
  | leastLoaded policy =>
      cases LeastLoaded.policy_of_select hselect
      exact ⟨rfl, rfl⟩
  | powerOfTwo policy =>
      cases PowerOfTwo.policy_of_select hselect
      exact ⟨rfl, rfl⟩
  | random policy => exact ⟨rfl, rfl⟩
  | roundRobin policy => exact ⟨rfl, rfl⟩
  | sessionAffinity policy => exact ⟨rfl, rfl⟩
  | prefixAffinity policy =>
      cases PrefixAffinity.policy_of_selectWithContext hselect
      exact ⟨rfl, rfl⟩
  | loadCacheAware policy =>
      cases LoadCacheAware.policy_of_selectWithContext hselect
      exact ⟨rfl, rfl⟩

end Balancer

end TokenDog
