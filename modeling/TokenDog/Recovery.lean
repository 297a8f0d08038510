import TokenDog.Gateway

/-!
# Recovery

Where health checks are on, the task can always go on. From every state of the gateway, the round in
progress and one more that nothing disturbs bring every flag to what the worker answers now, whatever
happened before, and selections follow. The task touches neither handlers nor counters nor service
discovery.
-/

namespace TokenDog

namespace Monitor

/-- A step of the task in which whoever is asked answers as `answer` says. -/
def Checks (answer : String → Except ReqwestError WorkerResponse) (s t : Monitor) : Prop :=
  TaskStep s t ∧ ∀ probe ∈ t.round, probe ∈ s.round ∨ probe.reply = answer probe.url

/-- Such a step within a round, which ends when the task goes to sleep. -/
def Turns (answer : String → Except ReqwestError WorkerResponse) (s t : Monitor) : Prop :=
  s.task ≠ .sleeping ∧ Checks answer s t

/-- The rest of the round in progress, if there is one, and one more round. -/
def TwoRounds (answer : String → Except ReqwestError WorkerResponse) (s t : Monitor) : Prop :=
  ∃ rested woken, Relation.ReflTransGen (Turns answer) s rested ∧ rested.task = .sleeping ∧
    Checks answer rested woken ∧ Relation.ReflTransGen (Turns answer) woken t ∧ t.task = .sleeping

variable {answer : String → Except ReqwestError WorkerResponse} {s t : Monitor}

theorem Turns.checks (h : Turns answer s t) : Checks answer s t := h.2

theorem checks_of_turns (h : Relation.ReflTransGen (Turns answer) s t) :
    Relation.ReflTransGen (Checks answer) s t :=
  Relation.ReflTransGen.mono (fun _ _ h => h.checks) _ _ h

theorem TwoRounds.checks (h : TwoRounds answer s t) : Relation.ReflTransGen (Checks answer) s t := by
  obtain ⟨rested, woken, hrest, -, hwake, hround, -⟩ := h
  exact (checks_of_turns hrest).trans (.head hwake (checks_of_turns hround))

/-- The rest of a round, after which the task sleeps. -/
structure Finishes (answer : String → Except ReqwestError WorkerResponse) (s t : Monitor) :
    Prop where
  run : Relation.ReflTransGen (Turns answer) s t
  task : t.task = .sleeping
  begun : t.begun = s.begun
  round : ∀ probe ∈ t.round, probe ∈ s.round ∨ probe.reply = answer probe.url

theorem Finishes.head {u : Monitor} (hstep : Turns answer s t) (hbegun : t.begun = s.begun)
    (h : Finishes answer t u) : Finishes answer s u where
  run := .head hstep h.run
  task := h.task
  begun := h.begun.trans hbegun
  round probe hmem := (h.round probe hmem).elim (hstep.checks.2 probe) Or.inr

theorem exists_finishes_checking {rest : List Nat} (htask : s.task = .checking rest) :
    ∃ t, Finishes answer s t := by
  induction rest generalizing s with
  | nil =>
      have hstep : Turns answer s { s with task := .sleeping } :=
        ⟨by rw [htask]; nofun, .sleep htask, fun _ hmem => Or.inl hmem⟩
      exact ⟨_, .single hstep, rfl, rfl, fun _ hmem => Or.inl hmem⟩
  | cons ref rest ih =>
      have hstep : Turns answer s
          (s.probeWorker ref rest (answer (healthUrl (s.fleet.worker ref).url))) := by
        refine ⟨by rw [htask]; nofun, .probe htask _, fun probe hmem => ?_⟩
        rcases List.mem_cons.mp hmem with rfl | hearlier
        · exact Or.inr rfl
        · exact Or.inl hearlier
      obtain ⟨t, ht⟩ := ih (s := s.probeWorker ref rest _) rfl
      exact ⟨t, ht.head hstep rfl⟩

theorem exists_finishes_snapshots {left : List Pool} {taken : List Nat}
    (htask : s.task = .snapshots left taken) : ∃ t, Finishes answer s t := by
  induction left generalizing s taken with
  | nil =>
      have hstep : Turns answer s { s with task := .checking taken } :=
        ⟨by rw [htask]; nofun, .check htask, fun _ hmem => Or.inl hmem⟩
      obtain ⟨t, ht⟩ := exists_finishes_checking (s := { s with task := .checking taken }) rfl
      exact ⟨t, ht.head hstep rfl⟩
  | cons pool left ih =>
      have hstep : Turns answer s
          { s with task := .snapshots left (taken ++ s.fleet.pools pool) } :=
        ⟨by rw [htask]; nofun, .snapshot htask, fun _ hmem => Or.inl hmem⟩
      obtain ⟨t, ht⟩ :=
        ih (s := { s with task := .snapshots left (taken ++ s.fleet.pools pool) }) rfl
      exact ⟨t, ht.head hstep rfl⟩

theorem exists_finishes (answer : String → Except ReqwestError WorkerResponse) (s : Monitor) :
    ∃ t, Finishes answer s t := by
  cases htask : s.task with
  | sleeping => exact ⟨s, .refl, htask, rfl, fun _ hmem => Or.inl hmem⟩
  | snapshots left taken => exact exists_finishes_snapshots htask
  | checking rest => exact exists_finishes_checking htask

/-- The round in progress, and one that begins after it. -/
theorem exists_twoRounds (answer : String → Except ReqwestError WorkerResponse) (s : Monitor) :
    ∃ t, TwoRounds answer s t ∧
      (∃ u, Relation.ReflTransGen (Checks answer) u t ∧ t.begun = u.fleet.made) ∧
        ∀ probe ∈ t.round, probe.reply = answer probe.url := by
  obtain ⟨u, hu⟩ := exists_finishes answer s
  have hwake : Checks answer u
      { u with
        task := .snapshots poolsInOrder [], begun := u.fleet.made
        round := [], earlier := u.round ++ u.earlier } :=
    ⟨.wake hu.task, fun _ hmem => (List.not_mem_nil hmem).elim⟩
  have htask : Monitor.task
      { u with
        task := .snapshots poolsInOrder [], begun := u.fleet.made
        round := [], earlier := u.round ++ u.earlier } = .snapshots poolsInOrder [] := rfl
  obtain ⟨t, ht⟩ := exists_finishes_snapshots htask
  refine ⟨t, ⟨u, _, hu.run, hu.task, hwake, ht.run, ht.task⟩,
    ⟨u, .head hwake (checks_of_turns ht.run), ht.begun⟩, ?_⟩
  exact fun probe hmem => (ht.round probe hmem).resolve_left List.not_mem_nil

theorem unmoved_of_run (h : Relation.ReflTransGen (Checks answer) s t) : Unmoved s t := by
  induction h with
  | refl => exact ⟨rfl, rfl, fun _ => rfl⟩
  | tail _ hlast ih =>
      have hstep := hlast.1.unmoved
      exact ⟨hstep.pools.trans ih.pools, hstep.made.trans ih.made,
        fun ref => (hstep.urls ref).trans (ih.urls ref)⟩

theorem Sound.of_run (h : s.Sound) (hrun : Relation.ReflTransGen (Checks answer) s t) :
    t.Sound := by
  induction hrun with
  | refl => exact h
  | tail _ hlast ih => exact ih.taskStep hlast.1

/-- Every flag is what the worker answers now. -/
def Current (answer : String → Except ReqwestError WorkerResponse) (s : Monitor) : Prop :=
  ∀ pool, ∀ ref ∈ s.fleet.pools pool,
    s.fleet.isHealthy ref = checkWorkerHealth (answer (healthUrl (s.fleet.worker ref).url))

/-- From every state that is sound, two rounds make all flags current. -/
theorem Sound.exists_current (h : s.Sound)
    (answer : String → Except ReqwestError WorkerResponse) :
    ∃ t, TwoRounds answer s t ∧ t.Current answer := by
  obtain ⟨t, hrounds, ⟨u, hround, hbegun⟩, hreplies⟩ := exists_twoRounds answer s
  have ht := h.of_run hrounds.checks
  obtain ⟨-, -, -, -, -, -, htask⟩ := id hrounds
  refine ⟨t, hrounds, fun pool ref hmem => ?_⟩
  have hmade : ref < t.begun := by
    rw [hbegun, ← (unmoved_of_run hround).made]
    exact t.fleet.allocated pool ref hmem
  obtain ⟨probe, hprobe, hlast, hflag⟩ := ht.of_sleeping htask hmem hmade
  have hself : probe.ref = ref := by
    have hfound := List.find?_some hlast
    exact beq_iff_eq.mp hfound
  have hurl := (ht.probed probe (List.mem_append_left _ hprobe)).2
  rw [hflag, Probe.healthy, hreplies probe hprobe, hurl, hself]

end Monitor

namespace Gateway

variable {config : Config} {ι α : Type} {body : ι → Handler α} {app : AppState}
  {s : Programs.System router Gateway ι α}
  {answer : String → Except ReqwestError WorkerResponse}

/-- The health check task takes a step in the gateway: it writes the flags, and nothing else moves. -/
def Checked (step : Monitor → Monitor → Prop) (g g' : Gateway) : Prop :=
  ∃ monitor, step g.deployment.monitor monitor ∧
    g' = { g with deployment := ⟨g.deployment.app.setHealth monitor.fleet.flags, monitor⟩ }

/-- The rest of the round in progress, if there is one, and one more round. -/
def TwoRounds (answer : String → Except ReqwestError WorkerResponse) (g g' : Gateway) : Prop :=
  ∃ rested woken, Relation.ReflTransGen (Checked (Monitor.Turns answer)) g rested ∧
    rested.deployment.monitor.task = .sleeping ∧ Checked (Monitor.Checks answer) rested woken ∧
      Relation.ReflTransGen (Checked (Monitor.Turns answer)) woken g' ∧
        g'.deployment.monitor.task = .sleeping

section Checked

variable {step : Monitor → Monitor → Prop} {g g' : Gateway}

/-- The task runs in the gateway as it runs alone. -/
theorem exists_checked {monitor : Monitor}
    (h : Relation.ReflTransGen step g.deployment.monitor monitor) :
    ∃ g', Relation.ReflTransGen (Checked step) g g' ∧ g'.deployment.monitor = monitor := by
  induction h with
  | refl => exact ⟨g, .refl, rfl⟩
  | @tail _ next _ hlast ih =>
      obtain ⟨g', hrun, rfl⟩ := ih
      exact ⟨_, hrun.tail ⟨next, hlast, rfl⟩, rfl⟩

theorem TwoRounds.checks (h : TwoRounds answer g g') :
    Relation.ReflTransGen (Checked (Monitor.Checks answer)) g g' := by
  have hmono : ∀ {g g' : Gateway}, Relation.ReflTransGen (Checked (Monitor.Turns answer)) g g' →
      Relation.ReflTransGen (Checked (Monitor.Checks answer)) g g' := fun hrun =>
    Relation.ReflTransGen.mono (fun _ _ ⟨monitor, hturns, heq⟩ => ⟨monitor, hturns.checks, heq⟩)
      _ _ hrun
  obtain ⟨rested, woken, hrest, -, hwake, hround, -⟩ := h
  exact (hmono hrest).trans (.head hwake (hmono hround))

theorem exists_twoRounds {monitor : Monitor}
    (h : Monitor.TwoRounds answer g.deployment.monitor monitor) :
    ∃ g', TwoRounds answer g g' ∧ g'.deployment.monitor = monitor := by
  obtain ⟨_, woken, hrest, hrested, hwake, hround, htask⟩ := h
  obtain ⟨g₁, hrestRun, rfl⟩ := exists_checked hrest
  let g₂ : Gateway :=
    { g₁ with deployment := ⟨g₁.deployment.app.setHealth woken.fleet.flags, woken⟩ }
  obtain ⟨g₃, hroundRun, rfl⟩ := @exists_checked _ g₂ _ hround
  exact ⟨g₃, ⟨g₁, g₂, hrestRun, hrested, ⟨woken, hwake, rfl⟩, hroundRun, htask⟩, rfl⟩

/-- It is a run of the gateway, in which handlers, counters and service discovery stay as they are. -/
theorem run_of_checked (config : Config) (body : ι → Handler α)
    (h : Relation.ReflTransGen (Checked (Monitor.Checks answer)) s.shared g) :
    Relation.ReflTransGen (Programs.Step (machine config) body) s { s with shared := g } ∧
      { g with deployment := s.shared.deployment } = s.shared ∧
      g.deployment.app.balancerOf = s.shared.deployment.app.balancerOf ∧
      Relation.ReflTransGen (Monitor.Checks answer) s.shared.deployment.monitor
        g.deployment.monitor := by
  induction h with
  | refl => exact ⟨.refl, rfl, rfl, .refl⟩
  | @tail g _ _ hlast ih =>
      obtain ⟨hrun, hrest, hbalancers, hmonitor⟩ := ih
      obtain ⟨next, hchecks, rfl⟩ := hlast
      have hmoves : Moves config g
          { g with deployment := ⟨g.deployment.app.setHealth next.fleet.flags, next⟩ } :=
        .health hchecks.1
      refine ⟨hrun.tail (.moves hmoves), hrest, ?_, hmonitor.tail hchecks⟩
      rw [← hbalancers]
      exact funext fun pool => AppState.balancerOf_setHealth _ _ pool

end Checked

open Deployment (pairConfig)

end Gateway

end TokenDog
