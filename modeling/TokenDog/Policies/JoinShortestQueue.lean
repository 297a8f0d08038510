import TokenDog.Policies.LoadCacheAware

/-!
# When the fallback finds a shortest queue

`PrefixAffinity` and `LoadCacheAware` share a fallback that compares every counter of the vector with
its minimum but looks for the minimum among the candidates only. The vector is longer than the list of
candidates whenever a worker is unhealthy or the counters were made with room to spare.
-/

namespace TokenDog

open Counters

/-- Some candidate has the smallest counter of the whole vector. -/
def ShortestIsCandidate (active : Counters) (n : Nat) : Prop :=
  ∃ i < n, active.inFlight i = minQueue active

theorem shortestQueues_eq_nil_iff {active : Counters} {n : Nat} :
    shortestQueues active n = [] ↔ ¬ShortestIsCandidate active n := by
  constructor
  · rintro hnil ⟨i, hi, hmin⟩
    have hmem : i ∈ shortestQueues active n := mem_shortestQueues.mpr ⟨hi, hmin⟩
    rw [hnil] at hmem
    exact List.not_mem_nil hmem
  · intro hnone
    apply List.eq_nil_iff_forall_not_mem.mpr
    intro i hi
    exact hnone ⟨i, mem_shortestQueues.mp hi⟩

theorem jsqFallback_least_iff {active : Counters} {n : Nat} (ambient : Ambient)
    (hfit : n ≤ active.length) :
    (∃ i, jsqFallback active n ambient = .ok i ∧ active.Least n i) ↔
      ShortestIsCandidate active n := by
  rw [jsqFallback_eq ambient hfit]
  constructor
  · rintro ⟨i, hpick, -⟩
    exact ⟨i, mem_shortestQueues.mp (mem_of_pickFrom hpick)⟩
  · intro hcandidate
    have hne : shortestQueues active n ≠ [] := fun hnil =>
      shortestQueues_eq_nil_iff.mp hnil hcandidate
    obtain ⟨i, hmem, hpick⟩ := pickFrom_eq_ok (ambient.draw 0) hne
    obtain ⟨hi, hmin⟩ := mem_shortestQueues.mp hmem
    refine ⟨i, hpick, hi, fun j hj => ?_⟩
    rw [hmin]
    exact minQueue_le (hj.trans_le hfit)

/-- A selection over `n` candidates that returns a least-loaded one and leaves the policy alone. -/
def SelectsLeast {P : Type} (policy : P) (active : Counters) (n : Nat)
    (selection : Except Panic (Nat × P)) : Prop :=
  ∃ i, selection = .ok (i, policy) ∧ active.Least n i

/-- Both policies select without context in this way: a single candidate at once, and otherwise what
the fallback finds. -/
theorem selectsLeast_iff {P : Type} (policy : P) {active : Counters} {n : Nat} (ambient : Ambient)
    (hpos : 0 < n) (hfit : n ≤ active.length) :
    SelectsLeast policy active n
        (if n = 1 then .ok (0, policy) else do return (← jsqFallback active n ambient, policy)) ↔
      n = 1 ∨ ShortestIsCandidate active n := by
  by_cases hone : n = 1
  · have hleast : active.Least n 0 := by
      refine ⟨hpos, fun j hj => ?_⟩
      rw [show j = 0 by omega]
    rw [if_pos hone]
    exact ⟨fun _ => Or.inl hone, fun _ => ⟨0, rfl, hleast⟩⟩
  · rw [if_neg hone, ← jsqFallback_least_iff ambient hfit]
    constructor
    · rintro ⟨i, hok, hleast⟩
      simp only [bind_eq_ok, pure_eq_ok, Except.ok.injEq, Prod.mk.injEq] at hok
      obtain ⟨k, hfallback, rfl, -⟩ := hok
      exact Or.inr ⟨k, hfallback, hleast⟩
    · intro h
      obtain ⟨i, hfallback, hleast⟩ := h.resolve_left hone
      exact ⟨i, by rw [hfallback]; rfl, hleast⟩

namespace PrefixAffinity

/-- A single candidate is selected, and a preferred worker below the threshold. -/
def Prefers (policy : PrefixAffinity) (ctx : RequestContext) (n : Nat) : Prop :=
  n = 1 ∨ policy.active.inFlight (preferred ctx n) < policy.threshold

/-- The preferred worker where the policy prefers one, and otherwise a least-loaded one. -/
def SelectsByPrefix (policy : PrefixAffinity) (workers : List String) (ctx : RequestContext)
    (ambient : Ambient) : Prop :=
  ∃ i, policy.selectWithContext workers ctx ambient = .ok (i, policy) ∧
    (policy.Prefers ctx workers.length → i = preferred ctx workers.length) ∧
      (¬policy.Prefers ctx workers.length → policy.active.Least workers.length i)

theorem selectsByPrefix_iff (policy : PrefixAffinity) {workers : List String}
    (ctx : RequestContext) (ambient : Ambient) (hne : workers ≠ [])
    (hfit : workers.length ≤ policy.active.length) :
    policy.SelectsByPrefix workers ctx ambient ↔
      policy.Prefers ctx workers.length ∨ ShortestIsCandidate policy.active workers.length := by
  have hpos : 0 < workers.length := List.length_pos_of_ne_nil hne
  by_cases hprefers : policy.Prefers ctx workers.length
  · have hselect : policy.selectWithContext workers ctx ambient =
        .ok (preferred ctx workers.length, policy) := by
      by_cases hone : workers.length = 1
      · have hpreferred := preferred_lt ctx hpos
        rw [selectWithContext_one policy ctx ambient hone,
          show preferred ctx workers.length = 0 by omega]
      · exact selectWithContext_below policy ctx ambient (by omega) hfit
          (hprefers.resolve_left hone)
    exact ⟨fun _ => Or.inl hprefers,
      fun _ => ⟨_, hselect, fun _ => rfl, fun hnot => (hnot hprefers).elim⟩⟩
  · obtain ⟨hone, habove⟩ := not_or.mp hprefers
    have hfallback := selectsLeast_iff policy ambient hpos hfit
    rw [if_neg hone, jsqFallback_eq ambient hfit] at hfallback
    unfold SelectsByPrefix
    rw [selectWithContext_above policy ctx ambient (by omega) hfit (Nat.not_lt.mp habove)]
    constructor
    · rintro ⟨i, hok, -, hleast⟩
      exact Or.inr ((hfallback.mp ⟨i, hok, hleast hprefers⟩).resolve_left hone)
    · intro h
      obtain ⟨i, hok, hleast⟩ := hfallback.mpr (Or.inr (h.resolve_left hprefers))
      exact ⟨i, hok, fun hyes => (hprefers hyes).elim, fun _ => hleast⟩

/-- With context the selection meets its specification exactly if there is one candidate, the
preferred worker is below the threshold or the fallback has a candidate to find; without context, if
there is one candidate or the fallback has one to find. -/
theorem meets_specification_iff (policy : PrefixAffinity) (cacheAware : LoadCacheAware)
    {workers : List String} (ctx : RequestContext) (ambient : Ambient) (hne : workers ≠ [])
    (hfit : workers.length ≤ policy.active.length)
    (hfitCacheAware : workers.length ≤ cacheAware.active.length) :
    (policy.SelectsByPrefix workers ctx ambient ↔
        policy.Prefers ctx workers.length ∨ ShortestIsCandidate policy.active workers.length) ∧
      (SelectsLeast policy policy.active workers.length (policy.select workers ambient) ↔
        workers.length = 1 ∨ ShortestIsCandidate policy.active workers.length) ∧
        (SelectsLeast cacheAware cacheAware.active workers.length
            (cacheAware.select workers ambient) ↔
          workers.length = 1 ∨ ShortestIsCandidate cacheAware.active workers.length) :=
  ⟨selectsByPrefix_iff policy ctx ambient hne hfit,
    selectsLeast_iff policy ambient (List.length_pos_of_ne_nil hne) hfit,
    selectsLeast_iff cacheAware ambient (List.length_pos_of_ne_nil hne) hfitCacheAware⟩

/-- Two workers with a request each, and a third one that is idle and unhealthy: every selection among
the two panics. -/
theorem not_meets_specification_of_idle_slot :
    (PrefixAffinity.mk [1, 1, 0] 1).selectWithContext ["http://a:8000", "http://b:8000"] ⟨"", ""⟩
        ⟨fun _ => 0, 0⟩ = .error .emptyRange ∧
      (PrefixAffinity.mk [1, 1, 0] 1).select ["http://a:8000", "http://b:8000"] ⟨fun _ => 0, 0⟩ =
        .error .emptyRange ∧
      (LoadCacheAware.mk [1, 1, 0] (.new 0) 1 0).select ["http://a:8000", "http://b:8000"]
        ⟨fun _ => 0, 0⟩ = .error .emptyRange := by
  refine ⟨?_, rfl, rfl⟩
  have hmany : 1 < ["http://a:8000", "http://b:8000"].length := by decide
  rw [selectWithContext_above _ _ _ hmany (by decide)]
  · rfl
  · have hlt := preferred_lt ⟨"", ""⟩ Nat.two_pos
    change 1 ≤ inFlight [1, 1, 0] (preferred ⟨"", ""⟩ 2)
    rcases Nat.lt_succ_iff_lt_or_eq.mp hlt with hfirst | hsecond
    · rw [Nat.lt_one_iff.mp hfirst]
      decide
    · rw [hsecond]
      decide

/-- With the third worker busier than the others, they all return. -/
theorem meets_specification_of_busy_slot :
    (PrefixAffinity.mk [1, 1, 2] 1).SelectsByPrefix ["http://a:8000", "http://b:8000"] ⟨"", ""⟩
        ⟨fun _ => 0, 0⟩ ∧
      SelectsLeast (PrefixAffinity.mk [1, 1, 2] 1) [1, 1, 2] 2
        ((PrefixAffinity.mk [1, 1, 2] 1).select ["http://a:8000", "http://b:8000"]
          ⟨fun _ => 0, 0⟩) := by
  have hcandidate : ShortestIsCandidate [1, 1, 2] 2 := ⟨0, by decide, by decide⟩
  have hne : ["http://a:8000", "http://b:8000"] ≠ [] := by decide
  obtain ⟨hcontext, hselect, -⟩ := meets_specification_iff (.mk [1, 1, 2] 1)
    (.mk [1, 1, 2] (.new 0) 1 0) ⟨"", ""⟩ ⟨fun _ => 0, 0⟩ hne (by decide) (by decide)
  exact ⟨hcontext.mpr (Or.inr hcandidate), hselect.mpr (Or.inr hcandidate)⟩

end PrefixAffinity

end TokenDog
