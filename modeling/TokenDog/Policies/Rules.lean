import TokenDog.Policies.Balancer

/-!
# What a counting policy takes

The candidate that each of the counting policies takes, as a rule about its counters, the request and
the draws. The rules also cover selections among more candidates than there are counters: those read
a counter that does not exist, unless the policy looks at few of them.
-/

namespace TokenDog

open Counters

theorem Counters.lt_length_of_load {active : Counters} {i count : Nat}
    (h : active.load i = .ok count) : i < active.length ∧ count = active.inFlight i := by
  by_cases hi : i < active.length
  · rw [load_eq_ok hi, Except.ok.injEq] at h
    exact ⟨hi, h.symm⟩
  · rw [load, List.getElem?_eq_none (Nat.not_lt.mp hi)] at h
    cases h

theorem lt_length_of_tiedAt {active : Counters} {minQ : Nat} {candidates tied : List Nat}
    (h : tiedAt active minQ candidates = .ok tied) : ∀ i ∈ candidates, i < active.length := by
  induction candidates generalizing tied with
  | nil => simp
  | cons head rest ih =>
      simp only [tiedAt, bind_eq_ok] at h
      obtain ⟨load, hload, others, hothers, -⟩ := h
      intro i hi
      rcases List.mem_cons.mp hi with rfl | hi
      · exact (lt_length_of_load hload).1
      · exact ih hothers i hi

/-- The draw falls on `i`. -/
def DrawnFrom (indices : List Nat) (raw i : Nat) : Prop := indices[raw % indices.length]? = some i

theorem pickFrom_eq_ok_iff {indices : List Nat} {raw i : Nat} :
    pickFrom indices raw = .ok i ↔ DrawnFrom indices raw i := by
  by_cases hne : indices = []
  · subst hne
    exact iff_of_false (by rw [pickFrom_nil]; nofun) (by simp [DrawnFrom])
  · rw [pickFrom, genRange_eq_ok (List.length_pos_of_ne_nil hne), ok_bind, DrawnFrom]
    cases indices[raw % indices.length]? <;> simp

theorem LeastLoaded.select_eq_ok_iff {policy : LeastLoaded} {workers : List String}
    {ambient : Ambient} {k : Nat} (hne : workers ≠ []) :
    policy.select workers ambient = .ok (k, policy) ↔
      workers.length ≤ policy.active.length ∧
        if ∀ j < workers.length, policy.active.inFlight 0 ≤ policy.active.inFlight j then
          k = ambient.draw 0 % workers.length
        else Scan.FirstMin policy.active.inFlight workers.length k := by
  have hfit : policy.select workers ambient = .ok (k, policy) →
      workers.length ≤ policy.active.length := by
    intro h
    simp only [select, bind_eq_ok] at h
    obtain ⟨best, -, least, hleast, scanned, hscan, -⟩ := h
    have hzero := (lt_length_of_load hleast).1
    by_contra hlong
    obtain ⟨s, t, hstep⟩ := Scan.exists_of_foldlM_eq_ok hscan policy.active.length
      (by rw [List.mem_range'_1]; omega)
    simp only [scanStep, bind_eq_ok] at hstep
    obtain ⟨load, hload, -⟩ := hstep
    exact absurd (lt_length_of_load hload).1 (Nat.lt_irrefl _)
  by_cases hlength : workers.length ≤ policy.active.length
  · rw [select_eq policy ambient hne hlength]
    simp only [hlength, true_and, Except.ok.injEq, Prod.mk.injEq, and_true]
    split
    · rename_i hmin
      rw [choice_eq_draw hmin, eq_comm]
    · rename_i hmin
      push Not at hmin
      have hfirst := @choice_firstMin policy.active workers.length (ambient.draw 0) hmin
      exact ⟨fun h => h ▸ hfirst, fun h => hfirst.unique h⟩
  · exact iff_of_false (fun h => hlength (hfit h)) fun h => hlength h.1

theorem PowerOfTwo.select_eq_ok_iff {policy : PowerOfTwo} {workers : List String}
    {ambient : Ambient} {k : Nat} (hne : workers ≠ []) :
    policy.select workers ambient = .ok (k, policy) ↔
      ambient.draw 0 % workers.length < policy.active.length ∧
        ambient.draw 1 % workers.length < policy.active.length ∧
        k = choice policy.active workers.length (ambient.draw 0) (ambient.draw 1) := by
  have hpos := List.length_pos_of_ne_nil hne
  simp only [select, genRange_eq_ok hpos, ok_bind, bind_eq_ok, pure_eq_ok, Except.ok.injEq,
    Prod.mk.injEq, and_true]
  constructor
  · rintro ⟨loadA, hloadA, loadB, hloadB, rfl⟩
    obtain ⟨ha, rfl⟩ := lt_length_of_load hloadA
    obtain ⟨hb, rfl⟩ := lt_length_of_load hloadB
    exact ⟨ha, hb, rfl⟩
  · rintro ⟨ha, hb, rfl⟩
    exact ⟨_, load_eq_ok ha, _, load_eq_ok hb, rfl⟩

theorem PrefixAffinity.selectWithContext_eq_ok_iff {policy : PrefixAffinity}
    {workers : List String} {ctx : RequestContext} {ambient : Ambient} {k : Nat}
    (hmany : 1 < workers.length) :
    policy.selectWithContext workers ctx ambient = .ok (k, policy) ↔
      preferred ctx workers.length < policy.active.length ∧
        if policy.active.inFlight (preferred ctx workers.length) < policy.threshold then
          k = preferred ctx workers.length
        else
          workers.length ≤ policy.active.length ∧
            DrawnFrom (shortestQueues policy.active workers.length) (ambient.draw 0) k := by
  simp only [selectWithContext, if_neg hmany.ne', if_neg (Nat.ne_zero_of_lt hmany), bind_eq_ok]
  have hfallback : ∀ i, jsqFallback policy.active workers.length ambient = .ok i ↔
      workers.length ≤ policy.active.length ∧
        DrawnFrom (shortestQueues policy.active workers.length) (ambient.draw 0) i := by
    intro i
    by_cases hlength : workers.length ≤ policy.active.length
    · rw [jsqFallback_eq ambient hlength, pickFrom_eq_ok_iff]
      simp only [hlength, true_and]
    · refine iff_of_false (fun h => hlength ?_) fun h => hlength h.1
      simp only [jsqFallback, bind_eq_ok] at h
      obtain ⟨tied, htied, -⟩ := h
      have := lt_length_of_tiedAt htied (workers.length - 1) (List.mem_range.mpr (by omega))
      omega
  constructor
  · rintro ⟨load, hload, h⟩
    obtain ⟨hp, rfl⟩ := lt_length_of_load hload
    refine ⟨hp, ?_⟩
    split at h
    · rename_i hbelow
      cases h
      rw [if_pos hbelow]
    · rename_i habove
      simp only [bind_eq_ok, pure_eq_ok, Except.ok.injEq, Prod.mk.injEq, and_true] at h
      obtain ⟨i, hi, rfl⟩ := h
      rw [if_neg habove]
      exact (hfallback i).mp hi
  · rintro ⟨hp, h⟩
    refine ⟨_, load_eq_ok hp, ?_⟩
    split at h
    · rename_i hbelow
      rw [if_pos hbelow, h]
      rfl
    · rename_i habove
      rw [if_neg habove, (hfallback k).mpr h]
      rfl

theorem LoadCacheAware.selectWithContext_eq_ok_iff {policy : LoadCacheAware}
    {workers : List String} {ctx : RequestContext} {ambient : Ambient} {k : Nat}
    (hmany : 1 < workers.length) :
    policy.selectWithContext workers ctx ambient = .ok (k, policy) ↔
      workers.length ≤ policy.active.length ∧
        DrawnFrom (policy.best ctx workers.length ambient.now) (ambient.draw 0) k := by
  by_cases hlength : workers.length ≤ policy.active.length
  · rw [selectWithContext_eq policy ctx ambient hmany.ne' hlength, ← pickFrom_eq_ok_iff]
    simp [hlength, bind_eq_ok]
  · refine iff_of_false (fun h => hlength ?_) fun h => hlength h.1
    simp only [selectWithContext, if_neg hmany.ne', bind_eq_ok] at h
    obtain ⟨scanned, hscan, -⟩ := h
    obtain ⟨s, t, hstep⟩ := Scan.exists_of_foldlM_eq_ok hscan (workers.length - 1)
      (List.mem_range.mpr (by omega))
    simp only [scoreStep, bind_eq_ok] at hstep
    obtain ⟨load, hload, -⟩ := hstep
    have := (lt_length_of_load hload).1
    omega

namespace Balancer

/-- The rule by which a counting policy takes candidate `k` of `n`, for a request and its draws. A
selection that reads a counter which is not there takes none. -/
def Takes (balancer : Balancer) (ctx : RequestContext) (ambient : Ambient) (n k : Nat) : Prop :=
  match balancer with
  | .leastLoaded policy =>
      n ≤ policy.active.length ∧
        -- worker 0 keeps the draw, and any smaller counter replaces it
        if ∀ j < n, policy.active.inFlight 0 ≤ policy.active.inFlight j then k = ambient.draw 0 % n
        else Scan.FirstMin policy.active.inFlight n k
  | .powerOfTwo policy =>
      ambient.draw 0 % n < policy.active.length ∧ ambient.draw 1 % n < policy.active.length ∧
        k = PowerOfTwo.choice policy.active n (ambient.draw 0) (ambient.draw 1)
  | .prefixAffinity policy =>
      if n = 1 then k = 0
      else
        PrefixAffinity.preferred ctx n < policy.active.length ∧
          if policy.active.inFlight (PrefixAffinity.preferred ctx n) < policy.threshold then
            k = PrefixAffinity.preferred ctx n
          else
            n ≤ policy.active.length ∧
              DrawnFrom (shortestQueues policy.active n) (ambient.draw 0) k
  | .loadCacheAware policy =>
      if n = 1 then k = 0
      else
        n ≤ policy.active.length ∧
          DrawnFrom (policy.best ctx n ambient.now) (ambient.draw 0) k
  | .random _ | .roundRobin _ | .sessionAffinity _ => False

theorem bind_box_eq_ok {P : Type} {result : Except Panic (Nat × P)} {policy : P} {k : Nat}
    (box : P → Balancer) (hkeep : ∀ i policy', result = .ok (i, policy') → policy' = policy) :
    (∃ selected, (do let (i, policy') ← result; return (i, box policy')) = .ok (k, selected)) ↔
      result = .ok (k, policy) := by
  constructor
  · rintro ⟨selected, h⟩
    simp only [bind_eq_ok, pure_eq_ok, Except.ok.injEq, Prod.mk.injEq] at h
    obtain ⟨⟨i, policy'⟩, hresult, rfl, -⟩ := h
    rw [← hkeep i policy' hresult]
    exact hresult
  · intro h
    exact ⟨box policy, by rw [h]; rfl⟩

/-- A counting policy takes what its rule says. -/
theorem exists_selectWithContext_iff {balancer : Balancer} {workers : List String}
    {ctx : RequestContext} {ambient : Ambient} {k : Nat}
    (htracks : balancer.policy.tracksLoad = true) (hne : workers ≠ []) :
    (∃ selected, balancer.selectWithContext workers ctx ambient = .ok (k, selected)) ↔
      balancer.Takes ctx ambient workers.length k := by
  cases balancer with
  | leastLoaded policy =>
      exact (bind_box_eq_ok leastLoaded fun i policy' h => LeastLoaded.policy_of_select h).trans
        (LeastLoaded.select_eq_ok_iff hne)
  | powerOfTwo policy =>
      exact (bind_box_eq_ok powerOfTwo fun i policy' h => PowerOfTwo.policy_of_select h).trans
        (PowerOfTwo.select_eq_ok_iff hne)
  | prefixAffinity policy =>
      refine (bind_box_eq_ok prefixAffinity fun i policy' h =>
        PrefixAffinity.policy_of_selectWithContext h).trans ?_
      change policy.selectWithContext workers ctx ambient = .ok (k, policy) ↔ _
      by_cases hone : workers.length = 1
      · rw [policy.selectWithContext_one ctx ambient hone]
        simp [Takes, hone, eq_comm]
      · have hpos := List.length_pos_of_ne_nil hne
        rw [PrefixAffinity.selectWithContext_eq_ok_iff (by omega)]
        simp only [Takes, hone, if_false]
  | loadCacheAware policy =>
      refine (bind_box_eq_ok loadCacheAware fun i policy' h =>
        LoadCacheAware.policy_of_selectWithContext h).trans ?_
      change policy.selectWithContext workers ctx ambient = .ok (k, policy) ↔ _
      by_cases hone : workers.length = 1
      · rw [policy.selectWithContext_one ctx ambient hone]
        simp [Takes, hone, eq_comm]
      · have hpos := List.length_pos_of_ne_nil hne
        rw [LoadCacheAware.selectWithContext_eq_ok_iff (by omega)]
        simp only [Takes, hone, if_false]
  | random policy | roundRobin policy | sessionAffinity policy => cases htracks

end Balancer

end TokenDog
