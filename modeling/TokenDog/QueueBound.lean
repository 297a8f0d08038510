import TokenDog.Policies.Affinity
import TokenDog.Lib.Ledger
import TokenDog.Lib.Runs
import Mathlib.Algebra.BigOperators.Group.Finset.Basic
import Mathlib.Algebra.Order.BigOperators.Group.Finset

/-!
# Queues under prefix affinity

Requests are dispatched by prefix and complete in any order. A worker is given a request only while
its queue is below the threshold or no longer than any other. The second case bounds the queue by
the average of what was in flight at one time.
-/

namespace TokenDog

open Counters

namespace PrefixAffinity

/-- The policy, the workers of the outstanding requests, and the largest number of requests that were
outstanding at one time. -/
structure Queues where
  policy : PrefixAffinity
  outstanding : Multiset Nat
  peak : Nat

/-- A selection that is counted at once, or the end of an outstanding request. -/
inductive Queues.Step (workers : List String) : Queues → Queues → Prop where
  | dispatch {s : Queues} {ctx : RequestContext} {ambient : Ambient} {i : Nat}
      {selected started : PrefixAffinity}
      (hselect : LoadBalancer.selectWithContext s.policy workers ctx ambient = .ok (i, selected))
      (hstart : LoadBalancer.onRequestStart selected i = .ok started) :
      Step workers s ⟨started, i ::ₘ s.outstanding, max s.peak (s.outstanding.card + 1)⟩
  | complete {s : Queues} {i : Nat} {ended : PrefixAffinity} (hmem : i ∈ s.outstanding)
      (hend : LoadBalancer.onRequestEnd s.policy i = .ok ended) :
      Step workers s ⟨ended, s.outstanding.erase i, s.peak⟩

/-- A new policy with a counter for each worker, and nothing outstanding. -/
def Queues.Starts (workers : List String) (threshold : Nat) (s : Queues) : Prop :=
  withThreshold workers.length threshold = .ok s.policy ∧ s.outstanding = 0 ∧ s.peak = 0

/-- A shortest queue is no longer than the average. -/
theorem mul_le_card {n load : Nat} {active : Counters} {outstanding : Multiset Nat}
    (hbalanced : Ledger.Balanced active.inFlight outstanding) (hrange : ∀ i ∈ outstanding, i < n)
    (hmin : ∀ i < n, load ≤ active.inFlight i) : n * load ≤ outstanding.card := by
  calc
    n * load = ∑ _i ∈ Finset.range n, load := by
      rw [Finset.sum_const_nat fun _ _ => rfl, Finset.card_range]
    _ ≤ ∑ i ∈ Finset.range n, outstanding.count i := by
      apply Finset.sum_le_sum
      intro i hi
      rw [← hbalanced i]
      exact hmin i (Finset.mem_range.mp hi)
    _ = outstanding.card := by
      apply Multiset.sum_count_eq_card
      intro i hi
      exact Finset.mem_range.mpr (hrange i hi)

theorem succ_le_ceil {n load peak : Nat} (hn : 0 < n) (h : n * load < peak) :
    load + 1 ≤ (peak + n - 1) / n := by
  rw [Nat.le_div_iff_mul_le hn, Nat.add_mul, Nat.mul_comm load n]
  omega

/-- The worker that is selected has a queue below the threshold, or a shortest one. -/
theorem selected_below_or_shortest {policy selected : PrefixAffinity} {workers : List String}
    {ctx : RequestContext} {ambient : Ambient} {i : Nat} (hne : workers ≠ [])
    (hlength : policy.active.length = workers.length)
    (hselect : policy.selectWithContext workers ctx ambient = .ok (i, selected)) :
    i < workers.length ∧ (policy.active.inFlight i < policy.threshold ∨
      ∀ j < workers.length, policy.active.inFlight i ≤ policy.active.inFlight j) := by
  have hpos : 0 < workers.length := List.length_pos_of_ne_nil hne
  by_cases hone : workers.length = 1
  · rw [policy.selectWithContext_one ctx ambient hone] at hselect
    cases hselect
    refine ⟨hpos, Or.inr fun j hj => ?_⟩
    have hzero : j = 0 := by omega
    rw [hzero]
  · have hmany : 1 < workers.length := by omega
    by_cases hbelow : policy.active.inFlight (preferred ctx workers.length) < policy.threshold
    · rw [policy.selectWithContext_below ctx ambient hmany hlength.ge hbelow] at hselect
      cases hselect
      exact ⟨preferred_lt ctx hpos, Or.inl hbelow⟩
    · rw [policy.selectWithContext_above ctx ambient hmany hlength.ge (Nat.not_lt.mp hbelow),
        bind_eq_ok] at hselect
      obtain ⟨k, hpick, hk⟩ := hselect
      cases hk
      obtain ⟨hlt, hmin⟩ := mem_shortestQueues.mp (mem_of_pickFrom hpick)
      refine ⟨hlt, Or.inr fun j hj => ?_⟩
      rw [hmin]
      exact minQueue_le (hj.trans_eq hlength.symm)

/-- One counter for each worker, which counts its outstanding requests and keeps the bound. -/
structure Queues.Bounded (n threshold : Nat) (s : Queues) : Prop where
  length : s.policy.active.length = n
  threshold_eq : s.policy.threshold = threshold
  balanced : Ledger.Balanced s.policy.active.inFlight s.outstanding
  range : ∀ i ∈ s.outstanding, i < n
  card_le : s.outstanding.card ≤ s.peak
  load_le : ∀ i, s.policy.active.inFlight i ≤ max threshold ((s.peak + n - 1) / n)

theorem Queues.bounded_of_starts {workers : List String} {threshold : Nat} {s : Queues}
    (hs : Starts workers threshold s) : Bounded workers.length threshold s := by
  obtain ⟨hpolicy, houtstanding, hpeak⟩ := hs
  unfold withThreshold at hpolicy
  split at hpolicy
  · obtain ⟨policy, outstanding, peak⟩ := s
    simp only at houtstanding hpeak hpolicy
    subst houtstanding hpeak
    cases hpolicy
    refine ⟨length_zeros _, rfl, .empty fun i => inFlight_zeros _ i, by simp, le_refl _, ?_⟩
    intro i
    rw [inFlight_zeros]
    exact Nat.zero_le _
  · cases hpolicy

theorem ceil_mono {n peak peak' : Nat} (h : peak ≤ peak') :
    (peak + n - 1) / n ≤ (peak' + n - 1) / n := by
  apply Nat.div_le_div_right
  omega

theorem Queues.Bounded.dispatch {workers : List String} {threshold : Nat} {s : Queues}
    (hs : s.Bounded workers.length threshold) (hne : workers ≠ []) {ctx : RequestContext}
    {ambient : Ambient} {i : Nat} {selected started : PrefixAffinity}
    (hselect : s.policy.selectWithContext workers ctx ambient = .ok (i, selected))
    (hstart : LoadBalancer.onRequestStart selected i = .ok started) :
    Bounded workers.length threshold
      ⟨started, i ::ₘ s.outstanding, max s.peak (s.outstanding.card + 1)⟩ := by
  obtain ⟨hi, hrule⟩ := selected_below_or_shortest hne hs.length hselect
  obtain rfl := policy_of_selectWithContext hselect
  have hiActive : i < s.policy.active.length := hi.trans_eq hs.length.symm
  have hstarted : started = { s.policy with active := s.policy.active.modify i (· + 1) } := by
    change (s.policy.active.fetchAdd i >>= _) = _ at hstart
    rw [fetchAdd_eq_ok hiActive] at hstart
    exact (Except.ok.inj hstart).symm
  subst hstarted
  have hmono : (s.peak + workers.length - 1) / workers.length ≤
      (max s.peak (s.outstanding.card + 1) + workers.length - 1) / workers.length :=
    ceil_mono (le_max_left _ _)
  refine ⟨?_, hs.threshold_eq, ?_, ?_, ?_, ?_⟩
  · exact (List.length_modify _ _ _).trans hs.length
  · rw [inFlight_modify_eq_update hiActive]
    exact hs.balanced.acquire i
  · intro j hj
    rcases Multiset.mem_cons.mp hj with rfl | hj
    · exact hi
    · exact hs.range j hj
  · rw [Multiset.card_cons]
    exact le_max_right _ _
  · intro j
    rw [inFlight_modify hiActive]
    split
    · rename_i hj
      subst hj
      rcases hrule with hbelow | hmin
      · exact le_max_of_le_left (hs.threshold_eq ▸ hbelow)
      · -- a shortest queue, counted against what is in flight now
        have hcard := mul_le_card hs.balanced hs.range hmin
        apply le_max_of_le_right
        apply succ_le_ceil (List.length_pos_of_ne_nil hne)
        exact (Nat.lt_succ_of_le hcard).trans_le (le_max_right _ _)
    · exact (hs.load_le j).trans (max_le_max_left threshold hmono)

theorem Queues.Bounded.complete {n threshold : Nat} {s : Queues} (hs : s.Bounded n threshold)
    {i : Nat} {ended : PrefixAffinity} (hmem : i ∈ s.outstanding)
    (hend : LoadBalancer.onRequestEnd s.policy i = .ok ended) :
    Bounded n threshold ⟨ended, s.outstanding.erase i, s.peak⟩ := by
  have hiActive : i < s.policy.active.length := (hs.range i hmem).trans_eq hs.length.symm
  have hended : ended = { s.policy with active := s.policy.active.modify i decrement } := by
    change (s.policy.active.fetchSub i >>= _) = _ at hend
    rw [fetchSub_eq_ok hiActive] at hend
    exact (Except.ok.inj hend).symm
  subst hended
  have hdecrement : decrement (s.policy.active.inFlight i) = s.policy.active.inFlight i - 1 :=
    decrement_of_pos (hs.balanced.pos hmem)
  refine ⟨?_, hs.threshold_eq, ?_, ?_, ?_, ?_⟩
  · exact (List.length_modify _ _ _).trans hs.length
  · rw [inFlight_modify_eq_update hiActive, hdecrement]
    exact hs.balanced.release i
  · intro j hj
    exact hs.range j (Multiset.mem_of_mem_erase hj)
  · exact (Multiset.card_le_card (Multiset.erase_le i _)).trans hs.card_le
  · intro j
    rw [inFlight_modify hiActive]
    split
    · rename_i hj
      subst hj
      rw [hdecrement]
      exact (Nat.sub_le _ _).trans (hs.load_le j)
    · exact hs.load_le j

theorem Queues.Starts.ne_nil {workers : List String} {threshold : Nat} {s : Queues}
    (hs : Starts workers threshold s) : workers ≠ [] := by
  rintro rfl
  cases hs.1

/-- Whatever the prefixes and the order of completions, a queue exceeds neither the threshold nor the
average, rounded up, of the most requests that were outstanding at one time. -/
theorem Queues.load_le_of_reachable {workers : List String} {threshold : Nat} {s : Queues}
    (hs : Runs.Reachable (Starts workers threshold) (Step workers) s) (i : Nat) :
    s.policy.active.inFlight i ≤
      max threshold ((s.peak + workers.length - 1) / workers.length) := by
  have hne : workers ≠ [] := by
    obtain ⟨s₀, hstart, -⟩ := hs
    exact hstart.ne_nil
  have hbounded : s.Bounded workers.length threshold := by
    apply hs.invariant (Bounded workers.length threshold) fun _ => bounded_of_starts
    intro s t _ hbounded hstep
    cases hstep with
    | dispatch hselect hstart => exact hbounded.dispatch hne hselect hstart
    | complete hmem hend => exact hbounded.complete hmem hend
  exact hbounded.load_le i

/-- No selection panics: with a counter for exactly these workers some worker attains the minimum. -/
theorem Queues.Bounded.exists_dispatch {workers : List String} {threshold : Nat} {s : Queues}
    (hs : s.Bounded workers.length threshold) (hne : workers ≠ []) (ctx : RequestContext)
    (ambient : Ambient) :
    ∃ i, s.policy.selectWithContext workers ctx ambient = .ok (i, s.policy) := by
  have hpos : 0 < workers.length := List.length_pos_of_ne_nil hne
  by_cases hone : workers.length = 1
  · exact ⟨0, s.policy.selectWithContext_one ctx ambient hone⟩
  · have hmany : 1 < workers.length := by omega
    by_cases hbelow : s.policy.active.inFlight (preferred ctx workers.length) < s.policy.threshold
    · exact ⟨_, s.policy.selectWithContext_below ctx ambient hmany hs.length.ge hbelow⟩
    · obtain ⟨i, hi, hmin⟩ := minQueue_attained (hpos.trans_eq hs.length.symm)
      have hmem : i ∈ shortestQueues s.policy.active workers.length :=
        mem_shortestQueues.mpr ⟨hi.trans_eq hs.length, hmin⟩
      obtain ⟨k, -, hpick⟩ := pickFrom_eq_ok (ambient.draw 0) (List.ne_nil_of_mem hmem)
      refine ⟨k, ?_⟩
      rw [s.policy.selectWithContext_above ctx ambient hmany hs.length.ge (Nat.not_lt.mp hbelow),
        hpick]
      rfl

/-- Three requests with one prefix at two workers, under a threshold of one: the first goes to the
preferred worker and completes last, the others to a shortest queue. The bound is attained. -/
theorem Queues.load_le_three_requests : ∃ s : Queues,
    Runs.Reachable (Starts ["http://a:8000", "http://b:8000"] 1)
        (Step ["http://a:8000", "http://b:8000"]) s ∧
      s.outstanding = {0, 0} ∧ s.peak = 3 ∧ s.policy.active.inFlight 0 = 2 ∧
      s.policy.active.inFlight 0 ≤ max 1 ((s.peak + 2 - 1) / 2) := by
  have hstart : Starts ["http://a:8000", "http://b:8000"] 1 ⟨⟨[0, 0], 1⟩, 0, 0⟩ := ⟨rfl, rfl, rfl⟩
  have hdispatch : ∀ active i active' outstanding peak,
      LoadBalancer.selectWithContext (PrefixAffinity.mk active 1) ["http://a:8000", "http://b:8000"]
        ⟨"", ""⟩ ⟨fun _ => 0, 0⟩ = .ok (i, ⟨active, 1⟩) →
      LoadBalancer.onRequestStart (PrefixAffinity.mk active 1) i = .ok ⟨active', 1⟩ →
      Step ["http://a:8000", "http://b:8000"] ⟨⟨active, 1⟩, outstanding, peak⟩
        ⟨⟨active', 1⟩, i ::ₘ outstanding, max peak (outstanding.card + 1)⟩ :=
    fun _ _ _ _ _ hselect hcounted => .dispatch hselect hcounted
  have hfirst := (Runs.Reachable.of_start hstart).tail (hdispatch [0, 0] 1 [0, 1] 0 0 rfl rfl)
  have hsecond := hfirst.tail (hdispatch [0, 1] 0 [1, 1] {1} 1 rfl rfl)
  have hthird := hsecond.tail (hdispatch [1, 1] 0 [2, 1] {0, 1} 2 rfl rfl)
  have hmem : 1 ∈ ({0, 0, 1} : Multiset Nat) := by decide
  have hend : LoadBalancer.onRequestEnd (PrefixAffinity.mk [2, 1] 1) 1 = .ok ⟨[2, 0], 1⟩ := rfl
  have hcomplete : Step ["http://a:8000", "http://b:8000"] ⟨⟨[2, 1], 1⟩, {0, 0, 1}, 3⟩
      ⟨⟨[2, 0], 1⟩, ({0, 0, 1} : Multiset Nat).erase 1, 3⟩ := .complete hmem hend
  have hreachable := hthird.tail hcomplete
  exact ⟨_, hreachable, by decide, rfl, rfl, load_le_of_reachable hreachable 0⟩

end PrefixAffinity

end TokenDog
