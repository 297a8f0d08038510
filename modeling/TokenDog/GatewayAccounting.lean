import TokenDog.Gateway
import TokenDog.Lib.Conservation
import TokenDog.Lib.Draining
import TokenDog.Routes.Delivery
import TokenDog.Routes.Protocol

/-!
# In-flight accounting of the gateway

The counters of the gateway count what its handlers hold and what they have left behind, in every
mode, while workers come and go and change their health. A counter belongs to a position of a pool:
the pod at that position may have changed since the request was counted.
-/

namespace TokenDog

namespace Accounting

open Protocol (pipelined)

/-- A handler finishes only what it holds, and leaves something behind only if its request is for the
pipeline. -/
def gatewaySpec (pdMode : Option PdMode) (parts : Parts) : Programs.Spec router where
  may trace op := finishes op ≤ held trace
  ends trace deferred := Settled trace deferred ∧
    (pipelined pdMode parts = false → held trace = released deferred)

def gatewayPost (pdMode : Option PdMode) (parts : Parts) (_response : Response WorkerId)
    (trace : Programs.Trace router) (deferred : List RouterOp) : Prop :=
  (gatewaySpec pdMode parts).ends trace deferred

theorem wp_gateway (crates : Crates) (pdMode : Option PdMode) (parts : Parts) :
    Programs.wp (gatewaySpec pdMode parts) (pdProxyHandler crates pdMode parts)
      (gatewayPost pdMode parts) [] [] := by
  cases hregular : pipelined pdMode parts with
  | true =>
      have hends : ∀ {trace deferred}, Settled trace deferred →
          (gatewaySpec pdMode parts).ends trace deferred := fun hsettled =>
        ⟨hsettled, fun hfalse => by cases hregular.symm.trans hfalse⟩
      have hhandler : Programs.wp handlerSpec (pdProxyHandler crates pdMode parts) handlerPost [] [] :=
        wp_pdProxyHandler crates pdMode parts
      refine Programs.wp_weaken ?_ ?_ ?_ hhandler
      · exact fun _ _ hmay => hmay
      · exact fun _ _ hsettled => hends hsettled
      · exact fun _ _ _ hpost => hends hpost.1
  | false =>
      have hends : ∀ {trace deferred}, proxySpec.ends trace deferred →
          (gatewaySpec pdMode parts).ends trace deferred := fun hproxy =>
        ⟨⟨hproxy.1.ge, hproxy.2⟩, fun _ => hproxy.1⟩
      rw [Protocol.pdProxyHandler_regular hregular, Programs.wp_bind]
      refine Programs.wp_weaken (lawful_proxySpec.may parts) (fun _ _ => hends) ?_
        (wp_proxyHandler crates parts)
      intro result trace deferred hpost
      cases result with
      | ok response => exact hends hpost.1
      | error e => exact hends hpost.1

theorem settled_of_ends {pdMode : Option PdMode} {parts : Parts} {trace : Programs.Trace router}
    {deferred : List RouterOp} (h : (gatewaySpec pdMode parts).ends trace deferred ∨
      ∃ value, gatewayPost pdMode parts value trace deferred) : Settled trace deferred :=
  h.elim And.left fun ⟨_, hpost⟩ => hpost.1

variable {config : Config} {g g' : Gateway}

theorem countersOf_after (s : Deployment) (write : Option Discovery.PoolWrite) :
    (s.after write).app.countersOf = s.app.countersOf := by
  cases write with
  | none => rfl
  | some write =>
      cases write with
      | add pool url => exact AppState.countersOf_updatePool _ pool _
      | remove pool url => exact AppState.countersOf_updatePool _ pool _

theorem countersOf_of_moves (h : Gateway.Moves config g g') :
    g'.deployment.app.countersOf = g.deployment.app.countersOf := by
  cases h with
  | health hstep => exact AppState.countersOf_setHealth _ _
  | watch => rfl
  | list => rfl
  | watcher htask => exact countersOf_after _ _
  | reconciler htask => exact countersOf_after _ _

theorem unwinds_app {deferred : List router.Op}
    (h : Programs.Unwinds (Gateway.machine config) deferred g g') :
    Programs.Unwinds machine deferred g.deployment.app g'.deployment.app := by
  induction h with
  | nil g => exact .nil _
  | cons hexec hrest ih =>
      obtain ⟨s, hs, rfl⟩ := hexec
      exact .cons hs.1 ih

/-- The units of the gateway: the selections that have not been finished. -/
def accounts : Programs.Accounts router Gateway (Multiset WorkerId) where
  held := held
  leftBy trace deferred := held trace - released deferred
  Counts g := Accounted g.deployment.app

theorem conserves : (accounts).Conserves (Gateway.machine config)
    (gatewaySpec config.pdMode) (gatewayPost config.pdMode) where
  held_nil := rfl
  held_other event trace hother := by
    cases event with
    | ran op result => exact (hother op result rfl).elim
    | replied call reply => exact held_replied trace call reply
    | dropped call => exact held_dropped trace call
    | panicked during => exact held_panicked trace during
  exec _ trace op result g g' others hmay hexec hcounts := by
    obtain ⟨s, hs, rfl⟩ := hexec
    exact Accounted.exec hs.1 hmay hcounts
  unwinds parts trace deferred g g' others hends hunwinds hcounts := by
    have hsettled := settled_of_ends hends
    refine Accounted.unwinds (unwinds_app hunwinds) hsettled.2 ?_
    change Accounted g.deployment.app (released deferred + (held trace - released deferred + others))
    rwa [← add_assoc, add_tsub_cancel_of_le hsettled.1]
  moves _ _ _ hmoves hcounts := hcounts.of_countersOf_eq (countersOf_of_moves hmoves)

theorem accounted_k8sStart {app : AppState} (h : app.K8sStart) : Accounted app 0 := by
  intro pool active hactive
  have hzeros : ∀ {kind : Policy} {n : Nat} {balancer : Balancer},
      Balancer.makePolicy kind n = .ok balancer → balancer.active? = some active →
        Ledger.Balanced active.inFlight (heldAt pool 0) := by
    intro kind n balancer hmake hsome
    rw [Balancer.active?_of_makePolicy hmake active hsome]
    exact .empty (Counters.inFlight_zeros _)
  cases h with
  | regular hnew =>
      simp only [AppState.newK8s, bind_eq_ok] at hnew
      obtain ⟨fallback, -, balancer, hmake, hnew⟩ := hnew
      cases hnew
      cases pool with
      | regular => exact hzeros hmake hactive
      | prefill => cases hactive
      | decode => cases hactive
  | pd hnew =>
      simp only [AppState.newK8sPd, bind_eq_ok] at hnew
      obtain ⟨prefill, hprefill, decode, hdecode, hnew⟩ := hnew
      cases hnew
      cases pool with
      | regular => cases hactive
      | prefill => exact hzeros hprefill hactive
      | decode => exact hzeros hdecode hactive

theorem accounted_of_buildState {app : AppState} (hbuild : config.buildState = .ok app) :
    Accounted app 0 := by
  rcases Config.starts_of_buildState hbuild with ⟨-, hstart⟩ | ⟨-, hstart⟩
  · exact accounted_k8sStart hstart
  · exact accounted_start hstart

section Runs

variable {crates : Crates} {app : AppState}
  {s : Programs.System router Gateway Parts (Response WorkerId)}

theorem accounted_of_reachable (hbuild : config.buildState = .ok app)
    (hs : Runs.Reachable (· = .start (.start config app))
      (Programs.Step (Gateway.machine config) (pdProxyHandler crates config.pdMode)) s) :
    Accounted s.shared.deployment.app (outstanding (s.map fun g => g.deployment.app)) :=
  conserves.counts_of_reachable (wp_gateway crates config.pdMode) (accounted_of_buildState hbuild) hs

theorem ends_of_kept {run : Programs.Ended router Parts (Response WorkerId)}
    (h : run.Kept (gatewaySpec config.pdMode) (gatewayPost config.pdMode)) :
    (gatewaySpec config.pdMode run.request).ends run.trace run.deferred := by
  unfold Programs.Ended.Kept at h
  split at h <;> exact h

theorem accounted_of_live (hbuild : config.buildState = .ok app)
    (hs : Runs.Reachable (· = .start (.start config app))
      (Programs.Step (Gateway.machine config) (pdProxyHandler crates config.pdMode)) s)
    {run : Programs.Live router Parts (Response WorkerId)} (hrun : run ∈ s.live) :
    ∃ others, Accounted s.shared.deployment.app (held run.trace + others) := by
  obtain ⟨rest, hrest⟩ := Multiset.exists_cons_of_mem hrun
  have houtstanding : outstanding (s.map fun g => g.deployment.app) =
      held run.trace + ((rest.map fun run => held run.trace).sum +
        (s.ended.map leaked).sum) := accounts.total_of_live hrest
  exact ⟨_, houtstanding ▸ accounted_of_reachable hbuild hs⟩

theorem inFlight_eq_sum (hbuild : config.buildState = .ok app)
    (hs : Runs.Reachable (· = .start (.start config app))
      (Programs.Step (Gateway.machine config) (pdProxyHandler crates config.pdMode)) s)
    {pool : Pool} {active : Counters}
    (hactive : s.shared.deployment.app.countersOf pool = some active) (i : Nat) :
    active.inFlight i = (s.live.map fun run => (held run.trace).count (pool, i)).sum +
      (s.ended.map fun run => (leaked run).count (pool, i)).sum := by
  rw [(accounted_of_reachable hbuild hs).inFlight_eq hactive, outstanding, Multiset.count_add,
    Multiset.count_sum, Multiset.count_sum]
  rfl

theorem leaked_of_regular
    (hs : Runs.Reachable (· = .start (.start config app))
      (Programs.Step (Gateway.machine config) (pdProxyHandler crates config.pdMode)) s)
    {run : Programs.Ended router Parts (Response WorkerId)} (hrun : run ∈ s.ended)
    (hregular : pipelined config.pdMode run.request = false) : leaked run = 0 := by
  obtain ⟨-, hkept⟩ := Programs.keeps_of_reachable (wp_gateway crates config.pdMode) hs
  rw [leaked, (ends_of_kept (hkept run hrun)).2 hregular, tsub_self]

theorem exec_or_panics (op : router.Op) (g : Gateway) :
    (∃ result g', (Gateway.machine config).exec op g result g') ∨
      (Gateway.machine config).panics op g := by
  have happ : (∃ result app, machine.exec op g.deployment.app result app) ∨
      machine.panics op g.deployment.app := by
    cases op with
    | next pool ctx =>
        let ambient : Ambient := ⟨fun _ => 0, 0⟩
        cases hnext : g.deployment.app.next pool ctx ambient with
        | ok chosen => exact Or.inl ⟨chosen.1, chosen.2, ambient, hnext⟩
        | error panic => exact Or.inr ⟨ambient, panic, hnext⟩
    | finish pool workerIdx =>
        cases hfinish : g.deployment.app.finish pool workerIdx with
        | ok app => exact Or.inl ⟨(), app, hfinish⟩
        | error panic => exact Or.inr ⟨panic, hfinish⟩
    | record pool ctx workerIdx => exact Or.inl ⟨(), _, ⟨fun _ => 0, 0⟩, rfl⟩
    | random => exact Or.inl ⟨0, _, rfl, by decide, by decide⟩
  exact happ.imp (fun ⟨result, app, hexec⟩ => ⟨result, _, ⟨app, _⟩, ⟨hexec, rfl⟩, rfl⟩) id

/-- What a handler holds can always be finished. -/
theorem exists_unwinds {deferred : List router.Op} {g : Gateway} {workers : Multiset WorkerId}
    (hfinishes : ∀ op ∈ deferred, ∃ pool workerIdx, op = .finish pool workerIdx)
    (h : Accounted g.deployment.app (released deferred + workers)) :
    ∃ g', Programs.Unwinds (Gateway.machine config) deferred g g' := by
  induction deferred generalizing g with
  | nil => exact ⟨g, .nil g⟩
  | cons op rest ih =>
      obtain ⟨pool, workerIdx, rfl⟩ := hfinishes _ List.mem_cons_self
      rw [released_cons, finishes, add_assoc, Multiset.singleton_add] at h
      have hmay : finishes (.finish pool workerIdx) ≤ (pool, workerIdx) ::ₘ (released rest + workers) :=
        Multiset.singleton_le.mpr (Multiset.mem_cons_self _ _)
      rcases @exec_or_panics config (.finish pool workerIdx) g with ⟨result, g', hexec⟩ | hpanics
      · obtain ⟨s, hs, rfl⟩ := hexec
        have hnext := @Accounted.finish _ _ pool workerIdx _ h hs.1
        obtain ⟨u, hunwinds⟩ := @ih { g with deployment := s }
          (fun op hop => hfinishes op (List.mem_cons_of_mem _ hop)) hnext
        exact ⟨u, .cons ⟨s, hs, rfl⟩ hunwinds⟩
      · obtain ⟨_, _, hselection⟩ := h.not_panics hmay hpanics
        cases hselection

/-- What a run that can end has deferred is part of what the counters count. -/
theorem accounted_of_exits (hbuild : config.buildState = .ok app)
    (hs : Runs.Reachable (· = .start (.start config app))
      (Programs.Step (Gateway.machine config) (pdProxyHandler crates config.pdMode)) s)
    {run : Programs.Live router Parts (Response WorkerId)} (hrun : run ∈ s.live)
    {events : Programs.Trace router} {outcome : Option (Response WorkerId)}
    (hexits : Programs.Exits (Gateway.machine config) s.shared run.program events outcome) :
    ∃ others, Accounted s.shared.deployment.app (released run.deferred + others) ∧
      ∀ op ∈ run.deferred, ∃ pool workerIdx, op = .finish pool workerIdx := by
  have hkeeps := (Programs.keeps_of_reachable (wp_gateway crates config.pdMode) hs).1 run hrun
  have hsettled : Settled (events ++ run.trace) run.deferred :=
    (ends_of_kept (hkeeps.kept hexits)).1
  have hheld : held (events ++ run.trace) = held run.trace :=
    (@conserves config).held_exits hexits run.trace
  obtain ⟨others, haccounted⟩ := accounted_of_live hbuild hs hrun
  rw [← hheld, ← add_tsub_cancel_of_le hsettled.1, add_assoc] at haccounted
  exact ⟨_, haccounted, hsettled.2⟩

theorem not_panics_of_unwinds (hbuild : config.buildState = .ok app)
    (hs : Runs.Reachable (· = .start (.start config app))
      (Programs.Step (Gateway.machine config) (pdProxyHandler crates config.pdMode)) s)
    {run : Programs.Live router Parts (Response WorkerId)} (hrun : run ∈ s.live)
    {events : Programs.Trace router} {outcome : Option (Response WorkerId)}
    (hexits : Programs.Exits (Gateway.machine config) s.shared run.program events outcome)
    {before after : List router.Op} {op : router.Op} (hdeferred : run.deferred = before ++ op :: after)
    (hunwinds : Programs.Unwinds (Gateway.machine config) before s.shared g) :
    ¬(Gateway.machine config).panics op g := by
  obtain ⟨others, haccounted, hfinishes⟩ := accounted_of_exits hbuild hs hrun hexits
  rw [hdeferred, released_append, add_assoc, released_cons, add_assoc] at haccounted
  have hbefore := Accounted.unwinds (unwinds_app hunwinds)
    (fun op hop => hfinishes op (hdeferred ▸ List.mem_append_left _ hop)) haccounted
  obtain ⟨pool, workerIdx, rfl⟩ := hfinishes op (hdeferred ▸ by simp)
  intro hpanics
  obtain ⟨_, _, hselection⟩ := hbefore.not_panics (Multiset.le_add_right _ _) hpanics
  cases hselection

/-- In every state of the gateway and for every position of a pool that counts, the counter is the
number of selections of the position that the live handlers hold and that ended ones have left
behind. Handlers of requests outside the pipeline leave nothing behind, and no completion ever
panics, neither one that a handler runs nor one that it deferred to its end. -/
theorem inFlight_counts_handlers (hbuild : config.buildState = .ok app)
    (hs : Runs.Reachable (· = .start (.start config app))
      (Programs.Step (Gateway.machine config) (pdProxyHandler crates config.pdMode)) s) :
    (∀ pool active, s.shared.deployment.app.countersOf pool = some active → ∀ i,
      active.inFlight i =
        (s.live.map fun run => (held run.trace).count (pool, i)).sum +
          (s.ended.map fun run => (leaked run).count (pool, i)).sum) ∧
      (∀ run ∈ s.ended, pipelined config.pdMode run.request = false → leaked run = 0) ∧
      (∀ run ∈ s.live, ∀ op next, run.program = .perform op next →
        (Gateway.machine config).panics op s.shared → ∃ pool ctx, op = .next pool ctx) ∧
      (∀ run ∈ s.live, ∀ events outcome,
        Programs.Exits (Gateway.machine config) s.shared run.program events outcome →
          ∀ before op after g, run.deferred = before ++ op :: after →
            Programs.Unwinds (Gateway.machine config) before s.shared g →
              ¬(Gateway.machine config).panics op g) := by
  refine ⟨fun pool active hactive i => inFlight_eq_sum hbuild hs hactive i,
    fun run hrun hregular => leaked_of_regular hs hrun hregular, ?_,
    fun run hrun _ _ hexits _ _ _ _ hdeferred hunwinds =>
      not_panics_of_unwinds hbuild hs hrun hexits hdeferred hunwinds⟩
  intro run hrun op next hprogram hpanics
  obtain ⟨others, haccounted⟩ := accounted_of_live hbuild hs hrun
  have hmay : finishes op ≤ held run.trace := by
    have hwp := (Programs.keeps_of_reachable (wp_gateway crates config.pdMode) hs).1 run hrun
    rw [Programs.Live.Keeps, hprogram] at hwp
    exact hwp.1
  exact haccounted.not_panics (hmay.trans (Multiset.le_add_right _ _)) hpanics

/-- From every state of the gateway and in every run without new requests, whatever the workers
answer, whichever clients go away and whatever health checks and discovery do meanwhile, the handlers
take finitely many steps; every live one can take the next, with any answer to what it waits for. When
none is left and none of the requests was for the pipeline, every counter is back at zero. -/
theorem drains (hbuild : config.buildState = .ok app)
    (hs : Runs.Reachable (· = .start (.start config app))
      (Programs.Step (Gateway.machine config) (pdProxyHandler crates config.pdMode)) s) :
    (∀ f : Nat → Programs.System router Gateway Parts (Response WorkerId), f 0 = s →
      (∀ n, Programs.Continues (Gateway.machine config) (f n) (f (n + 1))) →
        {n | ∃ run, Programs.Advances (Gateway.machine config) run (f n) (f (n + 1))}.Finite) ∧
      ∀ t, Relation.ReflTransGen (Programs.Continues (Gateway.machine config)) s t →
        t.histories.map Prod.fst = s.histories.map Prod.fst ∧
          (∀ run ∈ t.live, (∃ u, Programs.Advances (Gateway.machine config) run t u) ∧
            ∀ call next, run.program = .await call next → ∀ reply, ∃ u,
              Programs.Advances (Gateway.machine config) run t u ∧
                ⟨run.request, next reply, .replied call reply :: run.trace, run.deferred⟩ ∈ u.live) ∧
          (t.live = 0 → (∀ request ∈ s.histories.map Prod.fst,
              pipelined config.pdMode request = false) →
            ∀ pool active, t.shared.deployment.app.countersOf pool = some active →
              ∀ i, active.inFlight i = 0) := by
  refine ⟨fun f _ hf => Programs.Continues.finite_advances hf, fun t hrun => ?_⟩
  have ht := hs.append (Relation.ReflTransGen.mono (fun _ _ h => h.step) _ _ hrun)
  have hrequests := Programs.Continues.requests_eq_of_run hrun
  refine ⟨hrequests, fun run hlive => ?_, fun hempty hregular pool active hactive i => ?_⟩
  · refine Programs.exists_advances exec_or_panics (fun s hs run hrun _ _ hexits => ?_) ht hlive
    obtain ⟨_, haccounted, hfinishes⟩ := accounted_of_exits hbuild hs hrun hexits
    exact exists_unwinds hfinishes haccounted
  · rw [inFlight_eq_sum hbuild ht hactive i, hempty, Multiset.map_zero, Multiset.sum_zero, zero_add]
    refine Multiset.sum_eq_zero fun count hmem => ?_
    obtain ⟨run, hended, rfl⟩ := Multiset.mem_map.mp hmem
    have hrequest : run.request ∈ t.histories.map Prod.fst :=
      Multiset.mem_map.mpr ⟨(run.request, run.trace), Multiset.mem_add.mpr
        (Or.inr (Multiset.mem_map_of_mem _ hended)), rfl⟩
    rw [leaked_of_regular ht hended (hregular _ (hrequests ▸ hrequest)), Multiset.count_zero]

end Runs

open Deployment (pairConfig)

def modelsRequest : Parts := ⟨"GET", "/v1/models", none, []⟩

theorem exists_next (body : Parts → Handler (Response WorkerId)) :
    ∃ app, pairConfig.buildState = .ok app ∧
      ∃ g g' g'', Runs.Reachable (· = .start (.start pairConfig app))
          (Programs.Step (Gateway.machine pairConfig) body) (.start g) ∧
        (Gateway.machine pairConfig).exec (.next .regular ⟨"default", "default"⟩) g
          (some (0, "http://a:8000")) g' ∧
        (∃ active, g'.deployment.app.countersOf .regular = some active) ∧
        (Gateway.machine pairConfig).exec (.finish .regular 0) g' () g'' ∧
          ∃ active, g''.deployment.app.countersOf .regular = some active := by
  obtain ⟨app, hbuild⟩ : ∃ app, pairConfig.buildState = .ok app := ⟨_, rfl⟩
  refine ⟨app, hbuild, ?_⟩
  cases hbuild
  exact ⟨_, _, _, .of_start rfl, ⟨⟨_, _⟩, ⟨⟨⟨fun _ => 0, 0⟩, rfl⟩, rfl⟩, rfl⟩, ⟨_, rfl⟩,
    ⟨⟨_, _⟩, ⟨rfl, rfl⟩, rfl⟩, _, rfl⟩

/-- The client of the only request goes away while the worker is waited for. -/
theorem exists_selected :
    ∃ app, pairConfig.buildState = .ok app ∧
      ∃ s t : Programs.System router Gateway Parts (Response WorkerId),
        Runs.Reachable (· = .start (.start pairConfig app))
          (Programs.Step (Gateway.machine pairConfig)
            (pdProxyHandler plainCrates pairConfig.pdMode)) s ∧
        (s.live.map fun run => held run.trace) = {{(.regular, 0)}} ∧
        s.histories.map Prod.fst = {modelsRequest} ∧ s.ended = 0 ∧
        (∃ active, s.shared.deployment.app.countersOf .regular = some active) ∧
        Relation.ReflTransGen (Programs.Continues (Gateway.machine pairConfig)) s t ∧
          t.live = 0 ∧ ∃ active, t.shared.deployment.app.countersOf .regular = some active := by
  obtain ⟨app, hbuild, g, g', g'', hs, hexec, hactive, hfinish, hactive'⟩ :=
    exists_next (pdProxyHandler plainCrates pairConfig.pdMode)
  have hcollected := (hs.tail (.start _ modelsRequest)).tail
    (@Programs.Step.reply router _ _ _ _ _ _ 0 _ .collect _ [] [] rfl (.ok ByteArray.empty))
  have hselected := hcollected.tail
    (@Programs.Step.perform router _ _ _ _ _ _ 0 _ (.next .regular ⟨"default", "default"⟩) _ _ []
      (some (0, "http://a:8000")) _ rfl hexec)
  obtain ⟨call, next, trace, hs, hheld⟩ : ∃ call next trace,
      Runs.Reachable (· = .start (.start pairConfig app))
        (Programs.Step (Gateway.machine pairConfig) (pdProxyHandler plainCrates pairConfig.pdMode))
        ⟨g', ⟨modelsRequest, .defer (.finish .regular 0) (.await call next), trace, []⟩ ::ₘ 0, 0⟩ ∧
      held trace = {(.regular, 0)} := ⟨_, _, _, hselected, rfl⟩
  refine ⟨app, hbuild, _,
    ⟨g'', 0, ⟨modelsRequest, .dropped call :: trace, [.finish .regular 0], none⟩ ::ₘ 0⟩,
    hs, by simp [hheld], rfl, rfl, hactive, ?_, rfl, hactive'⟩
  have hdefers := @Programs.Advances.defer router _ _ _ (Gateway.machine pairConfig) ⟨g', _, 0⟩ 0
    modelsRequest (.finish .regular 0) (.await call next) trace [] rfl
  have hstops := @Programs.Advances.stop router _ _ _ (Gateway.machine pairConfig) ⟨g', _, 0⟩ 0
    ⟨modelsRequest, .await call next, trace, [.finish .regular 0]⟩ _ none g'' rfl
    (.drop call next) (.cons hfinish (.nil g''))
  exact .tail (.single (.advances hdefers)) (.advances hstops)

theorem inFlight_counts_handlers_selected :
    ∃ s : Programs.System router Gateway Parts (Response WorkerId),
      (s.live.map fun run => held run.trace) = {{(.regular, 0)}} ∧
        ∃ active, s.shared.deployment.app.countersOf .regular = some active ∧
          active.inFlight 0 = 1 := by
  obtain ⟨app, hbuild, s, -, hs, hlive, -, hended, ⟨active, hactive⟩, -⟩ := exists_selected
  have hcount := (inFlight_counts_handlers hbuild hs).1 .regular active hactive 0
  have hone := congrArg (fun workers => (workers.map (Multiset.count (Pool.regular, 0))).sum) hlive
  simp only [Multiset.map_map] at hone
  refine ⟨s, hlive, active, hactive, ?_⟩
  rw [hcount, hended, Multiset.map_zero, Multiset.sum_zero, add_zero]
  exact hone

theorem drains_selected :
    ∃ s t : Programs.System router Gateway Parts (Response WorkerId),
      (s.live.map fun run => held run.trace) = {{(.regular, 0)}} ∧
        Relation.ReflTransGen (Programs.Continues (Gateway.machine pairConfig)) s t ∧ t.live = 0 ∧
          ∃ active, t.shared.deployment.app.countersOf .regular = some active ∧
            active.inFlight 0 = 0 := by
  obtain ⟨app, hbuild, s, t, hs, hlive, hrequests, -, -, hrun, hempty, active, hactive⟩ :=
    exists_selected
  refine ⟨s, t, hlive, hrun, hempty, active, hactive, ?_⟩
  refine ((drains hbuild hs).2 t hrun).2.2 hempty (fun request hrequest => ?_) .regular active hactive 0
  rw [hrequests] at hrequest
  exact Multiset.mem_singleton.mp hrequest ▸ rfl

end Accounting

end TokenDog
