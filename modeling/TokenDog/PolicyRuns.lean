import TokenDog.GatewayAccounting
import TokenDog.Health.Unfailing
import TokenDog.Policies.Fairness
import TokenDog.Provision
import TokenDog.Routes.Admission
import TokenDog.SessionStability

/-!
# Policies over whole runs

What the policies of a static deployment do for the requests of interleaved handlers, as long as no
probe of the pool has failed: the requests of a session go to one worker, and round robin gives every
worker its share of the selections.
-/

namespace TokenDog

/-- The configured worker that a session goes to. -/
def Config.homeOf (config : Config) (pool : Pool) (sessionId : String) : Option String :=
  (config.urlsOf pool)[(stableHash sessionId).toNat % (config.urlsOf pool).length]?

namespace Deployment

variable {config : Config} {s t : Deployment} {pool : Pool} {ctx : RequestContext} {i : Nat}
  {url : String}

theorem Chosen.ne_nil (h : Chosen config s pool ctx i url t) : config.urlsOf pool ≠ [] := by
  intro hnil
  have hentry := h.entry
  rw [hnil] at hentry
  cases hentry

theorem Chosen.home (h : Chosen config s pool ctx i url t)
    (hpolicy : config.policyOf pool = some .sessionAffinity) :
    config.homeOf pool ctx.sessionId = some url := by
  obtain ⟨balancer, selected, counted, ambient, -, hkind, hselect, -⟩ := h.select
  rw [hpolicy, Option.some.injEq] at hkind
  cases balancer <;> cases hkind
  rename_i policy
  rw [Balancer.selectWithContext_sessionAffinity ctx ambient h.ne_nil policy] at hselect
  cases hselect
  exact h.entry

/-- The event is no selection from the pool, or one that obeys the rule if no probe has failed. -/
def Obeys (rule : RequestContext → Nat → String → Prop) (pool : Pool) (s : Deployment) :
    Programs.Event router → Prop
  | .ran (.next other ctx) (some (i, url)) =>
      other = pool → s.monitor.Unfailing pool → rule ctx i url
  | _ => True

variable {rule : RequestContext → Nat → String → Prop}

theorem Obeys.mono (h : t.monitor.Unfailing pool → s.monitor.Unfailing pool)
    {event : Programs.Event router} (hevent : Obeys rule pool s event) :
    Obeys rule pool t event := by
  cases event with
  | ran op result =>
      cases op with
      | next other ctx =>
          cases result with
          | none => trivial
          | some entry => exact fun hpool hunfailing => hevent hpool (h hunfailing)
      | _ => trivial
  | _ => trivial

/-- A rule that all choices of the policy obey is obeyed by the selections of a run. -/
theorem obeys_of_reachable {ι α : Type} {body : ι → Handler α} {app : AppState}
    {s : Programs.System router Deployment ι α}
    (hrule : ∀ {s t ctx i url}, Chosen config s pool ctx i url t → rule ctx i url)
    (hbuild : config.buildState = .ok app) (hk8s : config.hasK8sEnabled = false)
    (hs : Runs.Reachable (· = .start (start config app)) (Programs.Step machine body) s) :
    ∀ history ∈ s.histories, ∀ event ∈ history.2, Obeys rule pool s.shared event := by
  refine Programs.attested_of_reachable (P := Steady config) (Q := Obeys rule pool) ?_ ?_ ?_
    (.start hk8s hbuild) hs
  · intro op result s t h hexec
    have hmonitor : t.monitor = s.monitor := hexec.2
    refine ⟨h.exec hexec, ?_, fun event => .mono fun hunfailing => hmonitor ▸ hunfailing⟩
    cases op with
    | next other ctx =>
        cases result with
        | none => trivial
        | some entry =>
            rintro rfl hunfailing
            exact hrule (h.chosen hk8s (hmonitor ▸ hunfailing) hexec)
    | _ => trivial
  · exact fun s t h hmoves =>
      ⟨h.moves hmoves, fun event => .mono (h.unfailing_of_moves hk8s hmoves)⟩
  · intro s event hother
    cases event with
    | ran op result => exact (hother op result rfl).elim
    | _ => trivial

end Deployment

namespace Deployment

open Accounting (heldAt started startedBy)

/-- The selections from the pool have taken its workers in turn, if no probe has failed and the
counter has not wrapped around. -/
structure InTurn (config : Config) (pool : Pool) (s : Deployment) (selections : Multiset WorkerId) :
    Prop extends Steady config s where
  turn : s.monitor.Unfailing pool → (heldAt pool selections).card ≤ 2 ^ 64 →
    s.app.balancerOf pool =
        some (.roundRobin ⟨(heldAt pool selections).card % 2 ^ 64⟩) ∧
      heldAt pool selections =
        Residues.window (config.urlsOf pool).length 0 (heldAt pool selections).card

variable {config : Config} {s t : Deployment} {pool : Pool} {selections : Multiset WorkerId}

theorem InTurn.moves (h : InTurn config pool s selections) (hk8s : config.hasK8sEnabled = false)
    (hmoves : Moves s t) : InTurn config pool t selections := by
  refine ⟨h.toSteady.moves hmoves, fun hunfailing hfit => ?_⟩
  rw [balancerOf_of_moves hmoves]
  exact h.turn (h.toSteady.unfailing_of_moves hk8s hmoves hunfailing) hfit

/-- A selection from the pool takes the next worker. -/
theorem InTurn.select (h : InTurn config pool s selections) {ctx : RequestContext} {i : Nat}
    {url : String} (hchosen : Chosen config s pool ctx i url t)
    (hunfailing : s.monitor.Unfailing pool)
    (hfit : (heldAt pool ((pool, i) ::ₘ selections)).card ≤ 2 ^ 64) :
    t.app.balancerOf pool =
        some (.roundRobin ⟨(heldAt pool ((pool, i) ::ₘ selections)).card % 2 ^ 64⟩) ∧
      heldAt pool ((pool, i) ::ₘ selections) =
        Residues.window (config.urlsOf pool).length 0
          (heldAt pool ((pool, i) ::ₘ selections)).card := by
  rw [Accounting.heldAt_cons_self, Multiset.card_cons] at hfit ⊢
  obtain ⟨hbalancer, hwindow⟩ := h.turn hunfailing (Nat.le_of_succ_le hfit)
  obtain ⟨balancer, selected, counted, ambient, hsame, -, hselect, hcount, happ⟩ := hchosen.select
  rw [hbalancer, Option.some.injEq] at hsame
  subst hsame
  rw [Balancer.selectWithContext_roundRobin ctx ambient hchosen.ne_nil,
    Nat.mod_eq_of_lt (Nat.lt_of_succ_le hfit)] at hselect
  cases hselect
  have hcounted : Except.ok (Balancer.roundRobin
      ⟨((heldAt pool selections).card + 1) % 2 ^ 64⟩) = .ok counted := hcount
  refine ⟨?_, ?_⟩
  · rw [happ, AppState.balancerOf_setBalancer_self, ← Except.ok.inj hcounted]
  · rw [Residues.window_concat, Nat.zero_add, ← Multiset.coe_add, ← hwindow, add_comm]
    rfl

theorem finish_roundRobin {app : AppState} {policy : RoundRobin}
    (h : app.balancerOf pool = some (.roundRobin policy)) (i : Nat) :
    app.finish pool i = .ok app := by
  rw [AppState.finish_eq, h]
  change Except.ok (app.setBalancer pool (.roundRobin policy)) = _
  rw [AppState.setBalancer_self h]

theorem record_roundRobin {app : AppState} {policy : RoundRobin}
    (h : app.balancerOf pool = some (.roundRobin policy)) (ctx : RequestContext) (i : Nat)
    (ambient : Ambient) : app.record pool ctx i ambient = app := by
  rw [AppState.record_eq, h]
  exact AppState.setBalancer_self h

/-- Only selections move a round robin. -/
theorem roundRobin_of_exec {policy : RoundRobin}
    (h : s.app.balancerOf pool = some (.roundRobin policy)) {op : RouterOp} {result : op.Result}
    (hexec : machine.exec op s result t) (hnone : startedBy (.ran op result) = 0) :
    t.app.balancerOf pool = some (.roundRobin policy) := by
  by_cases hpool : op.pool = some pool
  · suffices hsame : t.app = s.app by rw [hsame, h]
    cases op with
    | next other ctx =>
        obtain ⟨⟨ambient, hnext⟩, -⟩ := hexec
        rcases AppState.next_eq_ok hnext with ⟨-, hsame⟩ | ⟨i, url, rfl, -⟩
        · exact hsame
        · exact absurd hnone (Multiset.singleton_ne_zero _)
    | finish other i =>
        obtain rfl : other = pool := Option.some.inj hpool
        exact Except.ok.inj (hexec.1.symm.trans (finish_roundRobin h i))
    | record other ctx i =>
        obtain rfl : other = pool := Option.some.inj hpool
        obtain ⟨⟨ambient, hrecord⟩, -⟩ := hexec
        exact hrecord.trans (record_roundRobin h ctx i ambient)
    | random => cases hpool
  · rw [AppState.balancerOf_of_exec hexec.1 hpool, h]

theorem InTurn.exec (h : InTurn config pool s selections) (hk8s : config.hasK8sEnabled = false)
    {op : RouterOp} {result : op.Result} (hexec : machine.exec op s result t) :
    InTurn config pool t (startedBy (.ran op result) + selections) := by
  refine ⟨h.toSteady.exec hexec, ?_⟩
  rw [show t.monitor = s.monitor from hexec.2]
  intro hunfailing hfit
  by_cases hnone : startedBy (.ran op result) = 0
  · rw [hnone, zero_add] at hfit ⊢
    obtain ⟨hbalancer, hwindow⟩ := h.turn hunfailing hfit
    exact ⟨roundRobin_of_exec hbalancer hexec hnone, hwindow⟩
  · cases op with
    | next other ctx =>
        cases result with
        | none => exact absurd rfl hnone
        | some entry =>
            obtain ⟨i, url⟩ := entry
            rw [show startedBy (.ran (.next other ctx) (some (i, url))) = {(other, i)} from rfl,
              Multiset.singleton_add] at hfit ⊢
            by_cases hother : pool = other
            · subst hother
              exact h.select (h.toSteady.chosen hk8s hunfailing hexec) hunfailing hfit
            · have hpool : (RouterOp.next other ctx).pool ≠ some pool := fun hsame =>
                hother (Option.some.inj hsame).symm
              rw [Accounting.heldAt_cons_of_ne hother] at hfit ⊢
              rw [AppState.balancerOf_of_exec hexec.1 hpool]
              exact h.turn hunfailing hfit
    | _ => exact absurd rfl hnone

theorem InTurn.start {app : AppState} (hk8s : config.hasK8sEnabled = false)
    (hbuild : config.buildState = .ok app) (hpolicy : config.policyOf pool = some .roundRobin) :
    InTurn config pool (Deployment.start config app) 0 := by
  refine ⟨.start hk8s hbuild, fun _ _ => ⟨?_, rfl⟩⟩
  rcases config.balancerOf_buildState hk8s hbuild pool with
    ⟨hnone, -⟩ | ⟨kind, n, balancer, hkind, hmake, hbalancer⟩
  · cases hnone.symm.trans hpolicy
  · cases hkind.symm.trans hpolicy
    cases hmake
    exact hbalancer

/-- All selections of a run, of the live handlers and of the ended ones. -/
def turns (config : Config) (pool : Pool) : Programs.Accounts router Deployment (Multiset WorkerId) :=
  .ofEvents startedBy (InTurn config pool)

theorem turns_conserves (hk8s : config.hasK8sEnabled = false) :
    (turns config pool).Conserves machine (Accounting.gatewaySpec config.pdMode)
      (Accounting.gatewayPost config.pdMode) := by
  refine Programs.Accounts.ofEvents_conserves ?_ ?_ ?_ ?_
  · intro event hother
    cases event with
    | ran op result => exact (hother op result rfl).elim
    | _ => rfl
  · exact fun op result s t held hexec hcounts => hcounts.exec hk8s hexec
  · intro parts trace deferred hends op hop result
    obtain ⟨pool, i, rfl⟩ := (Accounting.settled_of_ends hends).2 op hop
    rfl
  · exact fun s t held hmoves hcounts => hcounts.moves hk8s hmoves

end Deployment

namespace Gateway

open Accounting (heldAt started held leaked)

section Runs

variable {crates : Crates} {config : Config} {app : AppState} {pool : Pool}
  {s : Programs.System router Gateway Parts (Response WorkerId)}

/-- With session affinity, every request to a worker of the pool goes to the worker that the hash of
the client's session id picks among the configured ones, whatever other handlers do. -/
theorem sessions_keep_worker (hbuild : config.buildState = .ok app)
    (hk8s : config.hasK8sEnabled = false) (hpolicy : config.policyOf pool = some .sessionAffinity)
    (hs : Runs.Reachable (· = .start (start config app))
      (Programs.Step (machine config) (pdProxyHandler crates config.pdMode)) s)
    (hunfailing : s.shared.deployment.monitor.Unfailing pool) :
    ∀ history ∈ s.histories, ∀ call ∈ Programs.calls history.2, ∀ request,
      (pool, request) ∈ outgoing call → ∃ body ctx url, .replied .collect (.ok body) ∈ history.2 ∧
        extractContext crates body history.1.headers = .ok ctx ∧
          config.homeOf pool ctx.sessionId = some url ∧
            crates.parseUrl (trimEndMatches url '/' ++ suffixOf config.pdMode history.1) =
              .ok request.url := by
  intro history hhistory call hcall request hrequest
  obtain ⟨ctx, i, url, hselected, hparse⟩ :=
    targets_of_reachable hs history hhistory call hcall _ hrequest
  obtain ⟨body, keys, hbody, -, hkeys, hrouted⟩ :=
    (Protocol.admitted_of_reachable hs history hhistory).of_mem
      (fun event _ _ hmay => hmay.cons event) hselected
  have hctx : ctx = keys := hrouted
  have hhome := Deployment.obeys_of_reachable (fun h => h.home hpolicy) hbuild hk8s
    (refines.reachable (.start hbuild) hs).1 history hhistory _ hselected rfl hunfailing
  exact ⟨body, keys, url, hbody, hkeys, hctx ▸ hhome, hparse⟩

/-- The selections of all handlers so far. -/
def selections (s : Programs.System router Gateway Parts (Response WorkerId)) : Multiset WorkerId :=
  (s.histories.map fun history => started history.2).sum

/-- With a round robin, each worker of the pool has been selected as often as the others, but for one
selection, whatever order the handlers ran in. -/
theorem round_robin_shares (hbuild : config.buildState = .ok app)
    (hk8s : config.hasK8sEnabled = false) (hpolicy : config.policyOf pool = some .roundRobin)
    (hs : Runs.Reachable (· = .start (start config app))
      (Programs.Step (machine config) (pdProxyHandler crates config.pdMode)) s)
    (hunfailing : s.shared.deployment.monitor.Unfailing pool)
    (hfit : (heldAt pool (selections s)).card ≤ 2 ^ 64) :
    ∀ i < (config.urlsOf pool).length,
      (selections s).count (pool, i) =
          (heldAt pool (selections s)).card / (config.urlsOf pool).length ∨
        (selections s).count (pool, i) =
          ((heldAt pool (selections s)).card + (config.urlsOf pool).length - 1) /
            (config.urlsOf pool).length := by
  have hcounts := (Deployment.turns_conserves hk8s).counts_of_reachable
    (Accounting.wp_gateway crates config.pdMode) (Deployment.InTurn.start hk8s hbuild hpolicy)
    (refines.reachable (.start hbuild) hs).1
  rw [Deployment.turns, Programs.Accounts.total_ofEvents] at hcounts
  change Deployment.InTurn config pool s.shared.deployment (selections s) at hcounts
  obtain ⟨-, hwindow⟩ := hcounts.turn hunfailing hfit
  intro i hi
  rw [← Accounting.count_heldAt, hwindow, Multiset.coe_count, Multiset.coe_card,
    Residues.length_window]
  exact Residues.count_window_floor_or_ceil hi 0 _

end Runs

open Deployment (pairConfig)
open Accounting (modelsRequest)

def policyConfig (policy : Policy) : Config := { pairConfig with policy }

theorem unfailing_start (config : Config) (app : AppState) (pool : Pool) :
    (start config app).deployment.monitor.Unfailing pool :=
  fun _ hmem => (List.not_mem_nil hmem).elim

/-- The stages of a request outside the pipeline, behind an empty body. -/
theorem exists_stages {parts : Parts} {ctx : RequestContext}
    (hctx : extractContext plainCrates ByteArray.empty parts.headers = .ok ctx) :
    ∃ next, pdProxyHandler plainCrates none parts = .await .collect next ∧
      ∃ chosen, next (.ok ByteArray.empty) = .perform (.next .regular ctx) chosen ∧
        ∀ i url, ∃ request rest, chosen (some (i, url)) =
          .defer (.finish .regular i) (.await (.send .regular request) rest) := by
  refine ⟨_, rfl, ?_⟩
  dsimp only [Programs.Program.bind]
  rw [if_neg (by decide), hctx]
  exact ⟨_, rfl, fun i url => ⟨_, _, rfl⟩⟩

/-- Whatever the others have done, one more request is given the worker that the gateway selects for
it, and waits in vain. -/
theorem exists_request {policy : Policy} {app : AppState} {g : Gateway} {parts : Parts}
    {ctx : RequestContext} {i : Nat} {url : String}
    {s : Programs.System router Gateway Parts (Response WorkerId)}
    (hctx : extractContext plainCrates ByteArray.empty parts.headers = .ok ctx)
    (hs : Runs.Reachable (· = .start (start (policyConfig policy) app))
      (Programs.Step (machine (policyConfig policy)) (pdProxyHandler plainCrates none)) s)
    (hexec : (machine (policyConfig policy)).exec (.next .regular ctx) s.shared (some (i, url)) g) :
    ∃ t run, Runs.Reachable (· = .start (start (policyConfig policy) app))
        (Programs.Step (machine (policyConfig policy)) (pdProxyHandler plainCrates none)) t ∧
      t.shared = g ∧ t.live = run ::ₘ s.live ∧ t.ended = s.ended ∧ run.request = parts ∧
      ∃ request reply, run.trace = [.replied (.send .regular request) reply,
        .ran (.next .regular ctx) (some (i, url)), .replied .collect (.ok ByteArray.empty)] := by
  obtain ⟨next, hprogram, chosen, hnext, hstages⟩ := exists_stages hctx
  obtain ⟨request, rest, hchosen⟩ := hstages i url
  have hstarted := hs.tail (.start s parts)
  rw [hprogram] at hstarted
  have hcollected := hstarted.tail
    (@Programs.Step.reply router _ _ _ _ _ _ s.live parts .collect next [] [] rfl
      (.ok ByteArray.empty))
  rw [hnext] at hcollected
  have hselected := hcollected.tail
    (@Programs.Step.perform router _ _ _ _ _ _ s.live parts (.next .regular ctx) chosen _ []
      (some (i, url)) g rfl hexec)
  rw [hchosen] at hselected
  have hguarded := hselected.tail
    (@Programs.Step.defer router _ _ _ _ _ _ s.live parts (.finish .regular i) _ _ [] rfl)
  have hasked := hguarded.tail
    (@Programs.Step.reply router _ _ _ _ _ _ s.live parts (.send .regular request) rest _ _ rfl
      (.error ⟨false, true, "connection refused"⟩))
  exact ⟨_, _, hasked, rfl, rfl, rfl, rfl, request, _, rfl⟩

def aliceHeaders : Headers := [("authorization", [97, 108, 105, 99, 101])]

/-- Two requests of one client, for different paths. -/
def aliceRequest (path : String) : Parts := ⟨"GET", path, none, aliceHeaders⟩

theorem extractContext_alice :
    extractContext plainCrates ByteArray.empty aliceHeaders = .ok ⟨"alice", "default"⟩ := by
  decide +kernel

/-- Alice is given the second worker, the others the first one. -/
theorem exists_exec_sessions {app : AppState}
    (hbuild : (policyConfig .sessionAffinity).buildState = .ok app) :
    ∃ g₁ g₂ g₃,
      (machine (policyConfig .sessionAffinity)).exec (.next .regular ⟨"alice", "default"⟩)
          (start (policyConfig .sessionAffinity) app) (some (1, "http://b:8000")) g₁ ∧
        (machine (policyConfig .sessionAffinity)).exec (.next .regular ⟨"default", "default"⟩) g₁
          (some (0, "http://a:8000")) g₂ ∧
        (machine (policyConfig .sessionAffinity)).exec (.next .regular ⟨"alice", "default"⟩) g₂
          (some (1, "http://b:8000")) g₃ ∧ g₃.deployment.monitor.Unfailing .regular := by
  have halice : (stableHash "alice").toNat % 2 = 1 := by decide +kernel
  have hdefault : (stableHash "default").toNat % 2 = 0 := by decide +kernel
  have hsecond := AppState.selectFrom_sessionAffinity {} ⟨"alice", "default"⟩ ⟨fun _ => 0, 0⟩
    (show (healthyWorkerUrls (Worker.fromUrls ["http://a:8000", "http://b:8000"]))[(stableHash
      "alice").toNat % 2]? = some (1, "http://b:8000") by rw [halice]; rfl)
  have hfirst := AppState.selectFrom_sessionAffinity {} ⟨"default", "default"⟩ ⟨fun _ => 0, 0⟩
    (show (healthyWorkerUrls (Worker.fromUrls ["http://a:8000", "http://b:8000"]))[(stableHash
      "default").toNat % 2]? = some (0, "http://a:8000") by rw [hdefault]; rfl)
  cases hbuild
  exact ⟨_, _, _, ⟨⟨_, _⟩, ⟨⟨_, AppState.next_of_selectFrom rfl rfl hsecond⟩, rfl⟩, rfl⟩,
    ⟨⟨_, _⟩, ⟨⟨_, AppState.next_of_selectFrom rfl rfl hfirst⟩, rfl⟩, rfl⟩,
    ⟨⟨_, _⟩, ⟨⟨_, AppState.next_of_selectFrom rfl rfl hsecond⟩, rfl⟩, rfl⟩, unfailing_start _ _ _⟩

/-- Both of Alice's requests go to one worker, another client's in between to the other one. -/
theorem sessions_keep_worker_models :
    ∃ (first second : Outgoing) (url : String),
      (policyConfig .sessionAffinity).homeOf .regular "alice" = some url ∧
        plainCrates.parseUrl (trimEndMatches url '/' ++ "/v1/models") = .ok first.url ∧
        plainCrates.parseUrl (trimEndMatches url '/' ++ "/v1/usage") = .ok second.url := by
  obtain ⟨app, hbuild⟩ : ∃ app, (policyConfig .sessionAffinity).buildState = .ok app := ⟨_, rfl⟩
  obtain ⟨g₁, g₂, g₃, hexec₁, hexec₂, hexec₃, hunfailing⟩ := exists_exec_sessions hbuild
  obtain ⟨s₁, run₁, hs₁, rfl, hlive₁, -, hparts₁, first, _, htrace₁⟩ :=
    @exists_request _ _ _ (aliceRequest "/v1/models") _ _ _ _ extractContext_alice (.of_start rfl)
      hexec₁
  obtain ⟨s₂, run₂, hs₂, rfl, hlive₂, -⟩ :=
    @exists_request _ _ _ modelsRequest _ _ _ _ rfl hs₁ hexec₂
  obtain ⟨s₃, run₃, hs₃, rfl, hlive₃, -, hparts₃, second, _, htrace₃⟩ :=
    @exists_request _ _ _ (aliceRequest "/v1/usage") _ _ _ _ extractContext_alice hs₂ hexec₃
  have hkept : ∀ run ∈ s₃.live, ∀ path request reply, run.request = aliceRequest path →
      run.trace = [.replied (.send .regular request) reply,
        .ran (.next .regular ⟨"alice", "default"⟩) (some (1, "http://b:8000")),
        .replied .collect (.ok ByteArray.empty)] →
      ∃ url, (policyConfig .sessionAffinity).homeOf .regular "alice" = some url ∧
        plainCrates.parseUrl (trimEndMatches url '/' ++ path) = .ok request.url := by
    intro run hrun path request reply hparts htrace
    have hlive := (Programs.System.forall_mem_histories.mp
      (sessions_keep_worker hbuild rfl rfl hs₃ hunfailing)).1 run hrun
    obtain ⟨body, ctx, url, hbody, hctx, hhome, hparse⟩ :=
      hlive (.send .regular request) (by rw [htrace]; exact List.mem_cons_self) request
        List.mem_cons_self
    rw [htrace] at hbody
    have hempty : body = ByteArray.empty := by simpa using hbody
    rw [hempty, hparts] at hctx
    cases extractContext_alice.symm.trans hctx
    rw [hparts] at hparse
    refine ⟨url, hhome, ?_⟩
    simpa [suffixOf, Protocol.pipelined, Parts.pathAndQuery, aliceRequest] using hparse
  obtain ⟨url, hhome, hfirst⟩ := hkept run₁ (by simp [hlive₃, hlive₂, hlive₁]) _ _ _ hparts₁ htrace₁
  obtain ⟨other, hother, hsecond⟩ := hkept run₃ (by simp [hlive₃]) _ _ _ hparts₃ htrace₃
  obtain rfl := Option.some.inj (hhome.symm.trans hother)
  exact ⟨first, second, url, hhome, hfirst, hsecond⟩

theorem selections_of_request {s t : Programs.System router Gateway Parts (Response WorkerId)}
    {run : Programs.Live router Parts (Response WorkerId)} {ctx : RequestContext} {i : Nat}
    {url : String} {request : Outgoing} {reply : RouterCall.Reply (.send .regular request)}
    (hlive : t.live = run ::ₘ s.live) (hended : t.ended = s.ended)
    (htrace : run.trace = [.replied (.send .regular request) reply,
      .ran (.next .regular ctx) (some (i, url)), .replied .collect (.ok ByteArray.empty)]) :
    selections t = (.regular, i) ::ₘ selections s := by
  have hstarted : started run.trace = {(.regular, i)} := by
    rw [htrace]
    rfl
  simp only [selections, Programs.System.histories, hlive, hended, Multiset.map_cons,
    Multiset.map_add, Multiset.map_map, Function.comp_def, Multiset.sum_add, Multiset.sum_cons,
    hstarted]
  rw [← Multiset.singleton_add, add_assoc]

/-- The third selection comes back to the first worker. -/
theorem round_robin_shares_third :
    ∃ s : Programs.System router Gateway Parts (Response WorkerId),
      selections s = {(.regular, 0), (.regular, 1), (.regular, 0)} ∧ ∀ i < 2,
        (selections s).count (.regular, i) = 3 / 2 ∨
          (selections s).count (.regular, i) = (3 + 2 - 1) / 2 := by
  obtain ⟨app, hbuild⟩ : ∃ app, (policyConfig .roundRobin).buildState = .ok app := ⟨_, rfl⟩
  obtain ⟨g₁, g₂, g₃, hexec₁, hexec₂, hexec₃, hunfailing⟩ : ∃ g₁ g₂ g₃,
      (machine (policyConfig .roundRobin)).exec (.next .regular ⟨"default", "default"⟩)
          (start (policyConfig .roundRobin) app) (some (0, "http://a:8000")) g₁ ∧
        (machine (policyConfig .roundRobin)).exec (.next .regular ⟨"default", "default"⟩) g₁
          (some (1, "http://b:8000")) g₂ ∧
        (machine (policyConfig .roundRobin)).exec (.next .regular ⟨"default", "default"⟩) g₂
          (some (0, "http://a:8000")) g₃ ∧ g₃.deployment.monitor.Unfailing .regular := by
    cases hbuild
    exact ⟨_, _, _, ⟨⟨_, _⟩, ⟨⟨⟨fun _ => 0, 0⟩, rfl⟩, rfl⟩, rfl⟩,
      ⟨⟨_, _⟩, ⟨⟨⟨fun _ => 0, 0⟩, rfl⟩, rfl⟩, rfl⟩,
      ⟨⟨_, _⟩, ⟨⟨⟨fun _ => 0, 0⟩, rfl⟩, rfl⟩, rfl⟩, unfailing_start _ _ _⟩
  obtain ⟨s₁, run₁, hs₁, rfl, hlive₁, hended₁, -, _, _, htrace₁⟩ :=
    @exists_request _ _ _ modelsRequest _ _ _ _ rfl (.of_start rfl) hexec₁
  obtain ⟨s₂, run₂, hs₂, rfl, hlive₂, hended₂, -, _, _, htrace₂⟩ :=
    @exists_request _ _ _ modelsRequest _ _ _ _ rfl hs₁ hexec₂
  obtain ⟨s₃, run₃, hs₃, rfl, hlive₃, hended₃, -, _, _, htrace₃⟩ :=
    @exists_request _ _ _ modelsRequest _ _ _ _ rfl hs₂ hexec₃
  have hselections : selections s₃ = {(.regular, 0), (.regular, 1), (.regular, 0)} := by
    rw [selections_of_request hlive₃ hended₃ htrace₃, selections_of_request hlive₂ hended₂ htrace₂,
      selections_of_request hlive₁ hended₁ htrace₁]
    rfl
  have hcard : (heldAt .regular (selections s₃)).card = 3 := by
    rw [hselections]
    rfl
  have hshares := round_robin_shares hbuild rfl rfl hs₃ hunfailing (by rw [hcard]; decide)
  rw [hcard] at hshares
  exact ⟨s₃, hselections, hshares⟩

end Gateway

end TokenDog
