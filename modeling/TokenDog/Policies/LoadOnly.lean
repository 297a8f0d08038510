import TokenDog.Lib.Scan
import TokenDog.Policies.Basic

/-!
# Policies that look at load only, or at nothing

`LeastLoaded`, `PowerOfTwo`, `Random` and `RoundRobin`. They do not override `select_with_context`,
so each is described by one equation for `select`.
-/

namespace TokenDog

open Counters

/-- Per-worker active-request counters, scanned in full on each call. -/
structure LeastLoaded where
  active : Counters

namespace LeastLoaded

def new (workerCount : Nat) : LeastLoaded := ⟨zeros workerCount⟩

/-- One turn of the scan: the state is `(best, least)`. -/
def scanStep (active : Counters) (state : Nat × Nat) (i : Nat) : Except Panic (Nat × Nat) := do
  let load ← active.load i
  return if load < state.2 then (i, load) else state

def select (policy : LeastLoaded) (workers : List String) (ambient : Ambient) :
    Except Panic (Nat × LeastLoaded) := do
  let n := workers.length
  -- the candidate is drawn at random, but the load it is compared by is worker 0's
  let best ← genRange (ambient.draw 0) n
  let least ← policy.active.load 0
  let (best, _least) ← (List.range' 1 (n - 1)).foldlM (scanStep policy.active) (best, least)
  return (best, policy)

instance : LoadBalancer LeastLoaded where
  select := select
  onRequestStart policy workerIdx := do return ⟨← policy.active.fetchAdd workerIdx⟩
  onRequestEnd policy workerIdx := do return ⟨← policy.active.fetchSub workerIdx⟩

def choice (active : Counters) (n draw : Nat) : Nat :=
  ((List.range' 1 (n - 1)).foldl (Scan.improve active.inFlight) (draw % n, active.inFlight 0)).1

theorem select_eq (policy : LeastLoaded) {workers : List String} (ambient : Ambient)
    (hne : workers ≠ []) (hfit : workers.length ≤ policy.active.length) :
    policy.select workers ambient =
      .ok (choice policy.active workers.length (ambient.draw 0), policy) := by
  have hpos : 0 < workers.length := List.length_pos_of_ne_nil hne
  have hscan : ∀ s, ∀ i ∈ List.range' 1 (workers.length - 1),
      scanStep policy.active s i = .ok (Scan.improve policy.active.inFlight s i) := by
    intro s i hi
    rw [List.mem_range'_1] at hi
    rw [scanStep, load_eq_ok (by omega)]
    rfl
  rw [select, genRange_eq_ok hpos, ok_bind, load_eq_ok (hpos.trans_le hfit), ok_bind,
    Scan.foldlM_eq_ok _ _ hscan]
  rfl

theorem policy_of_select {policy policy' : LeastLoaded} {workers : List String}
    {ambient : Ambient} {i : Nat} (h : policy.select workers ambient = .ok (i, policy')) :
    policy' = policy := by
  simp only [select, bind_eq_ok, pure_eq_ok, Except.ok.injEq, Prod.mk.injEq] at h
  obtain ⟨_, _, _, _, _, _, _, rfl⟩ := h
  rfl

theorem choice_eq_draw {active : Counters} {n draw : Nat}
    (hmin : ∀ j < n, active.inFlight 0 ≤ active.inFlight j) : choice active n draw = draw % n := by
  rcases Scan.foldl_improve_range active.inFlight n (draw % n) with
    ⟨_, h⟩ | ⟨⟨j, hj, hlt⟩, _⟩
  · exact h
  · exact absurd (hmin j hj) (Nat.not_le.mpr hlt)

theorem choice_firstMin {active : Counters} {n draw : Nat}
    (hlt : ∃ j < n, active.inFlight j < active.inFlight 0) :
    Scan.FirstMin active.inFlight n (choice active n draw) := by
  rcases Scan.foldl_improve_range active.inFlight n (draw % n) with
    ⟨hmin, _⟩ | ⟨_, h⟩
  · obtain ⟨j, hj, hlt⟩ := hlt
    exact absurd (hmin j hj) (Nat.not_le.mpr hlt)
  · exact h

theorem choice_lt {active : Counters} {n draw : Nat} (hn : 0 < n) : choice active n draw < n := by
  rcases Scan.foldl_improve_range active.inFlight n (draw % n) with
    ⟨_, h⟩ | ⟨_, h⟩
  · rw [choice, h]
    exact Nat.mod_lt draw hn
  · exact h.lt

/-- The worker that is selected has a smallest counter exactly if worker 0 has none, or the draw falls
on a worker with one. -/
theorem select_least_iff (policy : LeastLoaded) {workers : List String} (ambient : Ambient)
    (hne : workers ≠ []) (hfit : workers.length ≤ policy.active.length) :
    (∃ i, policy.select workers ambient = .ok (i, policy) ∧
        policy.active.Least workers.length i) ↔
      (∃ j < workers.length, policy.active.inFlight j < policy.active.inFlight 0) ∨
        policy.active.inFlight (ambient.draw 0 % workers.length) ≤ policy.active.inFlight 0 := by
  have hpos : 0 < workers.length := List.length_pos_of_ne_nil hne
  have hselect := select_eq policy ambient hne hfit
  constructor
  · rintro ⟨i, hok, hleast⟩
    rw [hselect] at hok
    cases hok
    by_cases hlt : ∃ j < workers.length, policy.active.inFlight j < policy.active.inFlight 0
    · exact Or.inl hlt
    · -- worker 0 has a smallest counter, and the scan leaves the draw in place
      have hmin : ∀ j < workers.length, policy.active.inFlight 0 ≤ policy.active.inFlight j := by
        intro j hj
        exact Nat.not_lt.mp fun hbelow => hlt ⟨j, hj, hbelow⟩
      rw [choice_eq_draw hmin] at hleast
      exact Or.inr (hleast.le 0 hpos)
  · intro h
    refine ⟨choice policy.active workers.length (ambient.draw 0), hselect, choice_lt hpos, ?_⟩
    by_cases hlt : ∃ j < workers.length, policy.active.inFlight j < policy.active.inFlight 0
    · exact (choice_firstMin hlt).le
    · intro j hj
      have hmin : ∀ j < workers.length, policy.active.inFlight 0 ≤ policy.active.inFlight j := by
        intro j hj
        exact Nat.not_lt.mp fun hbelow => hlt ⟨j, hj, hbelow⟩
      rw [choice_eq_draw hmin]
      calc policy.active.inFlight (ambient.draw 0 % workers.length)
        _ ≤ policy.active.inFlight 0 := h.resolve_left hlt
        _ ≤ policy.active.inFlight j := hmin j hj

/-- The first worker is idle, the second one is drawn and busy. -/
theorem not_select_least_of_busy_draw :
    ¬∃ i, (LeastLoaded.mk [0, 1]).select ["http://a:8000", "http://b:8000"] ⟨fun _ => 1, 0⟩ =
        .ok (i, ⟨[0, 1]⟩) ∧ Least [0, 1] 2 i := by
  rintro ⟨i, hok, hleast⟩
  have hselect : (LeastLoaded.mk [0, 1]).select ["http://a:8000", "http://b:8000"]
      ⟨fun _ => 1, 0⟩ = .ok (1, ⟨[0, 1]⟩) := rfl
  rw [hselect] at hok
  cases hok
  exact absurd (hleast.le 0 Nat.two_pos) (by decide)

/-- The second worker is idle, whichever is drawn. -/
theorem select_least_second_idle :
    ∃ i, (LeastLoaded.mk [1, 0]).select ["http://a:8000", "http://b:8000"] ⟨fun _ => 0, 0⟩ =
        .ok (i, ⟨[1, 0]⟩) ∧ Least [1, 0] 2 i :=
  (select_least_iff ⟨[1, 0]⟩ ⟨fun _ => 0, 0⟩ (by decide) le_rfl).mpr
    (Or.inl ⟨1, by decide, by decide⟩)

end LeastLoaded

/-- Per-worker active-request counters, two of which are compared on each call. -/
structure PowerOfTwo where
  active : Counters

namespace PowerOfTwo

def new (workerCount : Nat) : PowerOfTwo := ⟨zeros workerCount⟩

def select (policy : PowerOfTwo) (workers : List String) (ambient : Ambient) :
    Except Panic (Nat × PowerOfTwo) := do
  let n := workers.length
  let a ← genRange (ambient.draw 0) n
  let b ← genRange (ambient.draw 1) n
  let loadA ← policy.active.load a
  let loadB ← policy.active.load b
  return (if loadA ≤ loadB then a else b, policy)

instance : LoadBalancer PowerOfTwo where
  select := select
  onRequestStart policy workerIdx := do return ⟨← policy.active.fetchAdd workerIdx⟩
  onRequestEnd policy workerIdx := do return ⟨← policy.active.fetchSub workerIdx⟩

/-- The index `select` returns for two raw draws. -/
def choice (active : Counters) (n drawA drawB : Nat) : Nat :=
  if active.inFlight (drawA % n) ≤ active.inFlight (drawB % n) then drawA % n else drawB % n

theorem select_eq (policy : PowerOfTwo) {workers : List String} (ambient : Ambient)
    (hne : workers ≠ []) (hfit : workers.length ≤ policy.active.length) :
    policy.select workers ambient =
      .ok (choice policy.active workers.length (ambient.draw 0) (ambient.draw 1), policy) := by
  have hpos : 0 < workers.length := List.length_pos_of_ne_nil hne
  have hdraw : ∀ raw, raw % workers.length < policy.active.length := fun raw =>
    (Nat.mod_lt raw hpos).trans_le hfit
  rw [select, genRange_eq_ok hpos, ok_bind, genRange_eq_ok hpos, ok_bind, load_eq_ok (hdraw _),
    ok_bind, load_eq_ok (hdraw _), ok_bind]
  rfl

theorem policy_of_select {policy policy' : PowerOfTwo} {workers : List String}
    {ambient : Ambient} {i : Nat} (h : policy.select workers ambient = .ok (i, policy')) :
    policy' = policy := by
  simp only [select, bind_eq_ok, pure_eq_ok, Except.ok.injEq, Prod.mk.injEq] at h
  obtain ⟨_, _, _, _, _, _, _, _, _, rfl⟩ := h
  rfl

theorem choice_lt {active : Counters} {n drawA drawB : Nat} (hn : 0 < n) :
    choice active n drawA drawB < n := by
  unfold choice
  split
  · exact Nat.mod_lt drawA hn
  · exact Nat.mod_lt drawB hn

end PowerOfTwo

/-- Picks a worker uniformly at random. -/
structure Random where

namespace Random

def select (policy : Random) (workers : List String) (ambient : Ambient) :
    Except Panic (Nat × Random) := do
  return (← genRange (ambient.draw 0) workers.length, policy)

instance : LoadBalancer Random where
  select := select

theorem select_eq (policy : Random) {workers : List String} (ambient : Ambient)
    (hne : workers ≠ []) :
    policy.select workers ambient = .ok (ambient.draw 0 % workers.length, policy) := by
  rw [select, genRange_eq_ok (List.length_pos_of_ne_nil hne)]
  rfl

end Random

/-- A machine-word counter that every call advances. -/
structure RoundRobin where
  counter : Nat

namespace RoundRobin

def new : RoundRobin := ⟨0⟩

/-- `counter.fetch_add(1) % workers.len()`: the old value is reduced, the counter wraps. -/
def select (policy : RoundRobin) (workers : List String) (_ambient : Ambient) :
    Except Panic (Nat × RoundRobin) :=
  if workers.length = 0 then .error .remainderByZero
  else .ok (policy.counter % workers.length, ⟨(policy.counter + 1) % 2 ^ 64⟩)

instance : LoadBalancer RoundRobin where
  select := select

theorem select_eq (policy : RoundRobin) {workers : List String} (ambient : Ambient)
    (hne : workers ≠ []) :
    policy.select workers ambient =
      .ok (policy.counter % workers.length, ⟨(policy.counter + 1) % 2 ^ 64⟩) :=
  if_neg (fun h => hne (List.eq_nil_of_length_eq_zero h))

end RoundRobin

end TokenDog
