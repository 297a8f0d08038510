import TokenDog.Policies.Balancer

/-!
# Counters for workers that do not exist

Kubernetes mode makes its policies with more counters than there are workers. Counters behind the
last worker stay at zero, and no policy but `PrefixAffinity` can tell that they are there: loads are
read one by one, and the greatest load is compared with one anyway.
-/

namespace TokenDog

open Counters

namespace Counters

theorem zeros_add (n m : Nat) : zeros (n + m) = zeros n ++ zeros m :=
  List.replicate_add ..

theorem inFlight_append_zeros (active : Counters) (m : Nat) :
    inFlight (active ++ zeros m) = inFlight active := by
  funext i
  simp only [inFlight, List.getElem?_append]
  split
  · rfl
  · rename_i hi
    rw [List.getElem?_eq_none (Nat.not_lt.mp hi)]
    exact inFlight_zeros m _

theorem modify_append_zeros {active : Counters} (f : Nat → Nat) {i : Nat} (m : Nat)
    (hi : i < active.length) :
    (active ++ zeros m).modify i f = active.modify i f ++ zeros m := by
  apply List.ext_getElem?
  intro j
  simp only [List.getElem?_modify, List.getElem?_append, List.length_modify]
  by_cases hj : j < active.length
  · simp [hj]
  · have hne : i ≠ j := by omega
    simp [hj, hne]

end Counters

namespace LoadCacheAware

theorem maxLoad_eq_foldl (active : Counters) : maxLoad active = active.foldl max 1 := by
  rw [List.foldl_max, Nat.max_comm]
  rfl

theorem maxLoad_append_zeros (active : Counters) (m : Nat) :
    maxLoad (active ++ zeros m) = maxLoad active := by
  have hzeros : ∀ load, (zeros m).foldl max load = load := by
    intro load
    induction m with
    | zero => rfl
    | succ m ih =>
        rw [Nat.add_comm, zeros_add, List.foldl_append]
        change (zeros m).foldl max (max load 0) = load
        rw [Nat.max_zero, ih]
  calc
    maxLoad (active ++ zeros m) = (zeros m).foldl max (active.foldl max 1) := by
      rw [maxLoad_eq_foldl, List.foldl_append]
    _ = maxLoad active := by rw [hzeros, maxLoad_eq_foldl]

theorem best_append_zeros (policy : LoadCacheAware) (ctx : RequestContext) (n now m : Nat) :
    best { policy with active := policy.active ++ zeros m } ctx n now = policy.best ctx n now := by
  have hscore : score { policy with active := policy.active ++ zeros m } ctx n now =
      policy.score ctx n now := by
    funext i
    simp only [score, inFlight_append_zeros, maxLoad_append_zeros]
  rw [best, best, hscore]

end LoadCacheAware

namespace Balancer

def pad (m : Nat) (balancer : Balancer) : Balancer := balancer.mapActive (· ++ zeros m)

@[simp]
theorem policy_pad (m : Nat) (balancer : Balancer) : (balancer.pad m).policy = balancer.policy :=
  policy_mapActive _ _

theorem mapActive_mapActive (f g : Counters → Counters) (balancer : Balancer) :
    (balancer.mapActive f).mapActive g = balancer.mapActive fun active => g (f active) := by
  cases balancer <;> rfl

theorem Fits.pad {balancer : Balancer} {n : Nat} (hfits : balancer.Fits n) (m : Nat) :
    (balancer.pad m).Fits n := by
  intro active hactive
  rw [Balancer.pad, active?_mapActive, Option.mem_map] at hactive
  obtain ⟨before, hbefore, rfl⟩ := hactive
  rw [List.length_append]
  exact (hfits before hbefore).trans (Nat.le_add_right _ _)

theorem makePolicy_add {policy : Policy} {n : Nat} {balancer : Balancer}
    (h : makePolicy policy n = .ok balancer) (m : Nat) :
    makePolicy policy (n + m) = .ok (balancer.pad m) := by
  cases policy <;> simp only [makePolicy, bind_eq_ok, pure_eq_ok, Except.ok.injEq] at h
  case leastLoaded | powerOfTwo =>
    subst h
    simp only [makePolicy, LeastLoaded.new, PowerOfTwo.new, zeros_add]
    rfl
  case random | roundRobin | sessionAffinity =>
    subst h
    rfl
  case prefixAffinity =>
    obtain ⟨inner, hinner, rfl⟩ := h
    unfold PrefixAffinity.new PrefixAffinity.withThreshold at hinner
    split at hinner <;> cases hinner
    rename_i hpos
    simp only [makePolicy, PrefixAffinity.new, PrefixAffinity.withThreshold, Nat.add_pos_left hpos m,
      if_true, zeros_add]
    rfl
  case loadCacheAware =>
    obtain ⟨inner, hinner, rfl⟩ := h
    unfold LoadCacheAware.new LoadCacheAware.withParams at hinner
    split at hinner <;> cases hinner
    rename_i hpos
    simp only [makePolicy, LoadCacheAware.new, LoadCacheAware.withParams, Nat.add_pos_left hpos m,
      if_true, zeros_add]
    rfl

theorem record_pad (m : Nat) (balancer : Balancer) (ctx : RequestContext) (i : Nat)
    (ambient : Ambient) :
    (balancer.pad m).record ctx i ambient = (balancer.record ctx i ambient).pad m := by
  cases balancer <;> rfl

theorem mapActive_modify_pad {balancer : Balancer} {i : Nat} (f : Nat → Nat) (m : Nat)
    (hfits : balancer.Fits (i + 1)) :
    (balancer.pad m).mapActive (·.modify i f) = (balancer.mapActive (·.modify i f)).pad m := by
  rw [pad, pad, mapActive_mapActive, mapActive_mapActive]
  apply mapActive_congr
  intro active hactive
  exact modify_append_zeros f m (hfits active hactive)

theorem onRequestStart_pad {balancer : Balancer} {i : Nat} (m : Nat)
    (hfits : balancer.Fits (i + 1)) :
    (balancer.pad m).onRequestStart i = .ok ((balancer.mapActive (·.modify i (· + 1))).pad m) :=
  onRequestStart_eq_ok_iff.mpr ⟨hfits.pad m, (mapActive_modify_pad _ m hfits).symm⟩

theorem onRequestEnd_pad {balancer : Balancer} {i : Nat} (m : Nat) (hfits : balancer.Fits (i + 1)) :
    (balancer.pad m).onRequestEnd i = .ok ((balancer.mapActive (·.modify i decrement)).pad m) :=
  onRequestEnd_eq_ok_iff.mpr ⟨hfits.pad m, (mapActive_modify_pad _ m hfits).symm⟩

theorem selectWithContext_pad {balancer : Balancer} {workers : List String} (m : Nat)
    (ctx : RequestContext) (ambient : Ambient) (hpolicy : balancer.policy ≠ .prefixAffinity)
    (hne : workers ≠ []) (hfits : balancer.Fits workers.length) :
    (balancer.pad m).selectWithContext workers ctx ambient =
      (balancer.selectWithContext workers ctx ambient).map fun selected =>
        (selected.1, selected.2.pad m) := by
  have hpadded := hfits.pad m
  cases balancer with
  | leastLoaded policy =>
      rw [selectWithContext_leastLoaded ctx ambient hne policy (hfits _ rfl)]
      change (leastLoaded ⟨policy.active ++ zeros m⟩).selectWithContext workers ctx ambient = _
      rw [selectWithContext_leastLoaded ctx ambient hne _ (hpadded _ rfl), LeastLoaded.choice,
        inFlight_append_zeros]
      rfl
  | powerOfTwo policy =>
      rw [selectWithContext_powerOfTwo ctx ambient hne policy (hfits _ rfl)]
      change (powerOfTwo ⟨policy.active ++ zeros m⟩).selectWithContext workers ctx ambient = _
      rw [selectWithContext_powerOfTwo ctx ambient hne _ (hpadded _ rfl), PowerOfTwo.choice,
        inFlight_append_zeros]
      rfl
  | random policy =>
      change (random policy).selectWithContext workers ctx ambient = _
      rw [selectWithContext_random ctx ambient hne policy]
      rfl
  | roundRobin policy =>
      change (roundRobin policy).selectWithContext workers ctx ambient = _
      rw [selectWithContext_roundRobin ctx ambient hne policy]
      rfl
  | sessionAffinity policy =>
      change (sessionAffinity policy).selectWithContext workers ctx ambient = _
      rw [selectWithContext_sessionAffinity ctx ambient hne policy]
      rfl
  | prefixAffinity policy => exact absurd rfl hpolicy
  | loadCacheAware policy =>
      rw [selectWithContext_loadCacheAware ctx ambient hne policy (hfits _ rfl)]
      change (loadCacheAware { policy with active := policy.active ++ zeros m }).selectWithContext
        workers ctx ambient = _
      rw [selectWithContext_loadCacheAware ctx ambient hne _ (hpadded _ rfl),
        LoadCacheAware.best_append_zeros]
      cases pickFrom (policy.best ctx workers.length ambient.now) (ambient.draw 0) <;> rfl

end Balancer

end TokenDog
