import TokenDog.Health.Objects
import TokenDog.Routes.WorkerUrls

/-!
# Health check rounds

The health check task sleeps, reads the three pools one after the other and then probes the workers
it read, one at a time, while service discovery goes on changing the pools. Every reply is stored in
the object that was probed. The probes of a run are kept as a history beside its state.
-/

namespace TokenDog

/-- `check_worker_health`, by the reply to the request for the worker's health URL. -/
def checkWorkerHealth : Except ReqwestError WorkerResponse → Bool
  | .ok response => response.status == 200
  | .error _ => false

/-- A finished probe: the object, the URL that was asked for and the reply. -/
structure Probe where
  ref : Nat
  url : String
  reply : Except ReqwestError WorkerResponse

namespace Probe

def healthy (probe : Probe) : Bool := checkWorkerHealth probe.reply

end Probe

/-- Where the task is between two of its steps. -/
inductive HealthTask where
  | sleeping
  /-- The pools it has still to read, and the workers it has read. -/
  | snapshots (left : List Pool) (taken : List Nat)
  /-- The workers it has still to probe. -/
  | checking (rest : List Nat)

namespace HealthTask

def left : HealthTask → List Pool
  | snapshots left _ => left
  | _ => []

def pending : HealthTask → List Nat
  | sleeping => []
  | snapshots _ taken => taken
  | checking rest => rest

end HealthTask

structure Monitor where
  fleet : Fleet
  task : HealthTask
  /-- How many objects there were when the last round began. -/
  begun : Nat
  /-- The probes of the last round, the latest one first, and those of the rounds before it. -/
  round : List Probe
  earlier : List Probe

namespace Monitor

def start (fleet : Fleet) : Monitor := ⟨fleet, .sleeping, 0, [], []⟩

def lastProbe (s : Monitor) (ref : Nat) : Option Probe :=
  (s.round ++ s.earlier).find? fun probe => probe.ref == ref

def poolsInOrder : List Pool := [.regular, .prefill, .decode]

/-- One turn of the loop of `run_health_checks`. -/
def probeWorker (s : Monitor) (ref : Nat) (rest : List Nat)
    (reply : Except ReqwestError WorkerResponse) : Monitor :=
  { s with
    fleet := s.fleet.setHealthy ref (checkWorkerHealth reply)
    task := .checking rest
    round := ⟨ref, healthUrl (s.fleet.worker ref).url, reply⟩ :: s.round }

inductive TaskStep : Monitor → Monitor → Prop where
  | wake {s : Monitor} (htask : s.task = .sleeping) :
      TaskStep s
        { s with
          task := .snapshots poolsInOrder [], begun := s.fleet.made
          round := [], earlier := s.round ++ s.earlier }
  | snapshot {s : Monitor} {pool : Pool} {left : List Pool} {taken : List Nat}
      (htask : s.task = .snapshots (pool :: left) taken) :
      TaskStep s { s with task := .snapshots left (taken ++ s.fleet.pools pool) }
  | check {s : Monitor} {taken : List Nat} (htask : s.task = .snapshots [] taken) :
      TaskStep s { s with task := .checking taken }
  | probe {s : Monitor} {ref : Nat} {rest : List Nat} (htask : s.task = .checking (ref :: rest))
      (reply : Except ReqwestError WorkerResponse) : TaskStep s (s.probeWorker ref rest reply)
  | sleep {s : Monitor} (htask : s.task = .checking []) : TaskStep s { s with task := .sleeping }

/-- The task moves no worker and gives none another address. -/
structure Unmoved (s t : Monitor) : Prop where
  pools : t.fleet.pools = s.fleet.pools
  made : t.fleet.made = s.fleet.made
  urls : ∀ ref, (t.fleet.worker ref).url = (s.fleet.worker ref).url

theorem TaskStep.unmoved {s t : Monitor} (h : TaskStep s t) : Unmoved s t := by
  cases h with
  | probe htask reply => exact ⟨rfl, rfl, fun other => Fleet.url_setHealthy _ _ _ other⟩
  | _ => exact ⟨rfl, rfl, fun _ => rfl⟩

def addWorker (s : Monitor) (pool : Pool) (url : String) : Monitor :=
  { s with fleet := s.fleet.addWorker pool url }

def removeWorker (s : Monitor) (pool : Pool) (url : String) : Monitor :=
  { s with fleet := s.fleet.removeWorker pool url }

/-- What the flag of an object should be: the outcome of its last probe, or healthy. -/
def verdict (s : Monitor) (ref : Nat) : Bool := ((s.lastProbe ref).map Probe.healthy).getD true

/-- A worker that was there when the round began waits for its probe or has had it, unless its pool
has still to be read. -/
def Covers (s : Monitor) : Prop :=
  ∀ pool ∉ s.task.left, ∀ ref ∈ s.fleet.pools pool, ref < s.begun →
    ref ∈ s.task.pending ∨ ref ∈ s.round.map Probe.ref

structure Sound (s : Monitor) : Prop where
  flags : ∀ ref < s.fleet.made, s.fleet.isHealthy ref = s.verdict ref
  probed : ∀ probe ∈ s.round ++ s.earlier,
    probe.ref < s.fleet.made ∧ probe.url = healthUrl (s.fleet.worker probe.ref).url
  pending : ∀ ref ∈ s.task.pending, ref < s.fleet.made
  begun_le : s.begun ≤ s.fleet.made
  covers : s.Covers

theorem lastProbe_eq_none {s : Monitor} {ref : Nat}
    (h : ∀ probe ∈ s.round ++ s.earlier, probe.ref < ref) : s.lastProbe ref = none := by
  rw [lastProbe, List.find?_eq_none]
  intro probe hmem heq
  exact absurd (beq_iff_eq.mp heq) (Nat.ne_of_lt (h probe hmem))

theorem verdict_probeWorker (s : Monitor) (ref other : Nat) (rest : List Nat)
    (reply : Except ReqwestError WorkerResponse) :
    (s.probeWorker ref rest reply).verdict other =
      if ref = other then checkWorkerHealth reply else s.verdict other := by
  rw [verdict, lastProbe, probeWorker, List.cons_append]
  by_cases hother : ref = other
  · subst hother
    rw [if_pos rfl, List.find?_cons_of_pos (by simp)]
    rfl
  · rw [if_neg hother, List.find?_cons_of_neg (by simp [hother])]
    rfl

/-- What holds after a pool update of everything that was there before it. -/
theorem Sound.grow {s : Monitor} (h : s.Sound) {fleet : Fleet} (hmade : s.fleet.made ≤ fleet.made)
    (hworker : ∀ ref < s.fleet.made, fleet.worker ref = s.fleet.worker ref)
    (hnew : ∀ ref, s.fleet.made ≤ ref → ref < fleet.made → fleet.isHealthy ref = true)
    (hpools : ∀ pool, ∀ ref ∈ fleet.pools pool, ref ∈ s.fleet.pools pool ∨ s.fleet.made ≤ ref) :
    Sound { s with fleet } where
  flags ref href := by
    by_cases hold : ref < s.fleet.made
    · rw [Fleet.isHealthy, hworker ref hold]
      exact h.flags ref hold
    · rw [Nat.not_lt] at hold
      have hnone : s.lastProbe ref = none :=
        lastProbe_eq_none fun probe hmem => (h.probed probe hmem).1.trans_le hold
      rw [hnew ref hold href, verdict]
      change true = ((s.lastProbe ref).map Probe.healthy).getD true
      rw [hnone]
      rfl
  probed probe hmem := by
    obtain ⟨hlt, hurl⟩ := h.probed probe hmem
    exact ⟨hlt.trans_le hmade, by rw [hworker probe.ref hlt]; exact hurl⟩
  pending ref hmem := (h.pending ref hmem).trans_le hmade
  begun_le := h.begun_le.trans hmade
  covers := by
    intro pool hpool ref hmem hbegun
    rcases hpools pool ref hmem with hold | hmadeLe
    · exact h.covers pool hpool ref hold hbegun
    · exact absurd (hbegun.trans_le h.begun_le) (Nat.not_lt.mpr hmadeLe)

theorem Sound.addWorker {s : Monitor} (h : s.Sound) (pool : Pool) (url : String) :
    (s.addWorker pool url).Sound :=
  h.grow (s.fleet.made_le_addWorker pool url)
    (fun ref href => s.fleet.worker_addWorker pool url ref href)
    (fun ref hnew href => s.fleet.isHealthy_addWorker pool url ref hnew href)
    fun _ ref hmem => s.fleet.mem_pools_addWorker pool url ref hmem

theorem Sound.removeWorker {s : Monitor} (h : s.Sound) (pool : Pool) (url : String) :
    (s.removeWorker pool url).Sound := by
  refine h.grow le_rfl (fun _ _ => rfl) (fun ref hnew href => ?_) fun _ ref hmem =>
    Or.inl (s.fleet.mem_pools_removeWorker pool url ref hmem)
  exact absurd href (Nat.not_lt.mpr hnew)

theorem Sound.probeWorker {s : Monitor} (h : s.Sound) {ref : Nat} {rest : List Nat}
    (htask : s.task = .checking (ref :: rest)) (reply : Except ReqwestError WorkerResponse) :
    (s.probeWorker ref rest reply).Sound where
  flags other hother := by
    rw [verdict_probeWorker]
    by_cases hself : ref = other
    · subst hself
      rw [if_pos rfl]
      exact s.fleet.isHealthy_setHealthy_self ref _
    · rw [if_neg hself, ← h.flags other hother]
      exact s.fleet.isHealthy_setHealthy_of_ne ref _ (Ne.symm hself)
  probed probe hmem := by
    have hurl : (s.probeWorker ref rest reply).fleet.worker probe.ref =
        (s.fleet.setHealthy ref (checkWorkerHealth reply)).worker probe.ref := rfl
    rw [hurl, Fleet.url_setHealthy]
    rcases List.mem_cons.mp hmem with rfl | hmem
    · exact ⟨h.pending ref (by rw [htask]; exact List.mem_cons_self), rfl⟩
    · exact h.probed probe hmem
  pending other hmem := h.pending other (by rw [htask]; exact List.mem_cons_of_mem _ hmem)
  begun_le := h.begun_le
  covers := by
    intro pool _ other hmem hbegun
    have hcovers := h.covers pool (by rw [htask]; exact List.not_mem_nil) other hmem hbegun
    rw [htask] at hcovers
    rcases hcovers with hpending | hround
    · rcases List.mem_cons.mp hpending with rfl | hrest
      · exact Or.inr List.mem_cons_self
      · exact Or.inl hrest
    · exact Or.inr (List.mem_cons_of_mem _ hround)

theorem Sound.taskStep {s t : Monitor} (h : s.Sound) (hstep : TaskStep s t) : t.Sound := by
  cases hstep with
  | wake htask =>
      refine ⟨h.flags, h.probed, fun _ hmem => (List.not_mem_nil hmem).elim, le_rfl, ?_⟩
      intro pool hpool
      exact absurd (by cases pool <;> simp [HealthTask.left, poolsInOrder]) hpool
  | @snapshot pool left taken htask =>
      have hpending : ∀ ref ∈ taken, ref < s.fleet.made := fun ref hmem =>
        h.pending ref (by rw [htask]; exact hmem)
      refine ⟨h.flags, h.probed, fun ref hmem => ?_, h.begun_le, fun other hother ref hmem hbegun => ?_⟩
      · rcases List.mem_append.mp hmem with hmem | hmem
        · exact hpending ref hmem
        · exact s.fleet.allocated pool ref hmem
      · by_cases hpool : other = pool
        · subst hpool
          exact Or.inl (List.mem_append_right _ hmem)
        · have hleft : other ∉ s.task.left := by
            rw [htask]
            exact List.not_mem_cons_of_ne_of_not_mem hpool hother
          have hcovers := h.covers other hleft ref hmem hbegun
          rw [htask] at hcovers
          exact hcovers.imp (fun htaken => List.mem_append_left _ htaken) id
  | check htask =>
      refine ⟨h.flags, h.probed, fun ref hmem => h.pending ref (by rw [htask]; exact hmem),
        h.begun_le, fun pool _ ref hmem hbegun => ?_⟩
      have hcovers := h.covers pool (by rw [htask]; exact List.not_mem_nil) ref hmem hbegun
      rwa [htask] at hcovers
  | probe htask reply => exact h.probeWorker htask reply
  | sleep htask =>
      refine ⟨h.flags, h.probed, fun _ hmem => (List.not_mem_nil hmem).elim, h.begun_le,
        fun pool _ ref hmem hbegun => ?_⟩
      have hcovers := h.covers pool (by rw [htask]; exact List.not_mem_nil) ref hmem hbegun
      rwa [htask] at hcovers

/-- When a round is over, every worker that was there when it began and still is has been probed in
it, and has the outcome of its last probe for a flag. -/
theorem Sound.of_sleeping {s : Monitor} (h : s.Sound) (htask : s.task = .sleeping) {pool : Pool}
    {ref : Nat} (hmem : ref ∈ s.fleet.pools pool) (hbegun : ref < s.begun) :
    ∃ probe ∈ s.round, s.lastProbe ref = some probe ∧ s.fleet.isHealthy ref = probe.healthy := by
  have hcovers := h.covers pool (by rw [htask]; exact List.not_mem_nil) ref hmem hbegun
  rw [htask] at hcovers
  obtain ⟨found, hfound, hself⟩ := List.mem_map.mp (hcovers.resolve_left List.not_mem_nil)
  obtain ⟨probe, hprobe⟩ : ∃ probe, s.round.find? (·.ref == ref) = some probe := by
    rw [← Option.isSome_iff_exists, List.find?_isSome]
    exact ⟨found, hfound, beq_iff_eq.mpr hself⟩
  have hlast : s.lastProbe ref = some probe := by
    rw [lastProbe, List.find?_append, hprobe]
    rfl
  refine ⟨probe, List.mem_of_find?_eq_some hprobe, hlast, ?_⟩
  rw [h.flags ref (s.fleet.allocated pool ref hmem), verdict, hlast]
  rfl

/-- The workers of a round, in the order of their probes. -/
def probesOf (pools : Pool → List Nat) : List Nat := poolsInOrder.flatMap pools

/-- A round probes the workers of all pools in order, and so did the rounds before it. -/
structure Orderly (pools : Pool → List Nat) (s : Monitor) : Prop where
  pools_eq : s.fleet.pools = pools
  round : match s.task with
    | .sleeping =>
        s.round = [] ∧ s.earlier = [] ∨ (s.round.map Probe.ref).reverse = probesOf pools
    | .snapshots left taken => s.round = [] ∧ taken ++ left.flatMap pools = probesOf pools
    | .checking rest => (s.round.map Probe.ref).reverse ++ rest = probesOf pools

theorem Orderly.taskStep {pools : Pool → List Nat} {s t : Monitor} (h : s.Orderly pools)
    (hstep : TaskStep s t) : t.Orderly pools := by
  obtain ⟨hpools, hround⟩ := h
  cases hstep with
  | wake htask => exact ⟨hpools, rfl, rfl⟩
  | snapshot htask =>
      rw [htask] at hround
      refine ⟨hpools, hround.1, ?_⟩
      rw [hpools, List.append_assoc, ← List.flatMap_cons]
      exact hround.2
  | check htask =>
      rw [htask] at hround
      refine ⟨hpools, ?_⟩
      change (s.round.map Probe.ref).reverse ++ _ = _
      rw [hround.1, ← hround.2, List.flatMap_nil, List.append_nil]
      rfl
  | @probe ref rest htask reply =>
      rw [htask] at hround
      refine ⟨hpools, ?_⟩
      change ((ref :: s.round.map Probe.ref).reverse) ++ rest = _
      rw [List.reverse_cons, List.append_assoc]
      exact hround
  | sleep htask =>
      rw [htask] at hround
      refine ⟨hpools, Or.inr ?_⟩
      rw [← hround, List.append_nil]

theorem Orderly.start (fleet : Fleet) : (Monitor.start fleet).Orderly fleet.pools :=
  ⟨rfl, Or.inl ⟨rfl, rfl⟩⟩

theorem Sound.start {fleet : Fleet} (hhealthy : ∀ ref < fleet.made, fleet.isHealthy ref = true) :
    (Monitor.start fleet).Sound where
  flags ref href := hhealthy ref href
  probed _ hmem := (List.not_mem_nil hmem).elim
  pending _ hmem := (List.not_mem_nil hmem).elim
  begun_le := Nat.zero_le _
  covers _ _ _ _ hbegun := absurd hbegun (Nat.not_lt_zero _)

end Monitor

end TokenDog
