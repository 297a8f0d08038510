import TokenDog.Gateway
import TokenDog.Routes.Protocol

/-!
# Where requests go

A request leaves the gateway for a worker that was provided to it: a configured URL in the static
modes, in Kubernetes mode the address of a pod that the API server has reported as ready and running,
and that satisfies the selector of the pool the worker was selected from.
-/

namespace TokenDog

def ServiceDiscoveryConfig.selectorOf (config : ServiceDiscoveryConfig) :
    Pool → List (String × String)
  | .regular => config.selector
  | .prefill => config.prefillSelector
  | .decode => config.decodeSelector

/-- The pod may be asked under the URL as a worker of the pool. -/
structure Pod.Serves (config : ServiceDiscoveryConfig) (pool : Pool) (url : String) (pod : Pod) :
    Prop where
  selected : config.selectorOf pool ≠ [] ∧ pod.Satisfies (config.selectorOf pool)
  kept : pod.metadata.deletionTimestamp = none
  running : ∃ status ip conditions, pod.status = some status ∧ status.podIp = some ip ∧
    status.phase = some "Running" ∧ status.conditions = some conditions ∧
      (∃ condition ∈ conditions, condition.type = "Ready" ∧ condition.status = "True") ∧
        url = ip ++ ":" ++ toString config.port

def Config.Provides (config : Config) (seen : List Pod) (pool : Pool) (url : String) : Prop :=
  if config.hasK8sEnabled then ∃ pod ∈ seen, pod.Serves config.discoveryConfig pool url
  else url ∈ config.urlsOf pool

open Discovery (watchObject)

namespace Gateway

variable {config : Config} {seen : List Pod} {pool : Pool} {url : String}

theorem matchesSelector_of_selectPool {pod : Pod} {info : PodInfo}
    (hlive : LiveAs config.discoveryConfig pod info)
    (hpool : config.discoveryEnv.selectPool info = pool) :
    PodInfo.matchesSelector pod (config.discoveryConfig.selectorOf pool) = true := by
  obtain ⟨hincluded, -, hinfo⟩ := hlive
  cases hmode : config.pdMode with
  | none =>
      have hpd : config.discoveryConfig.pdMode = false := by rw [Config.discoveryConfig, hmode]
      have hregular : pool = .regular := by
        rw [← hpool]
        simp [DiscoveryEnv.selectPool, Config.discoveryEnv, hpd]
      subst hregular
      rw [PodInfo.shouldInclude, hpd, if_neg Bool.false_ne_true] at hincluded
      split at hincluded
      · cases hincluded
      · exact hincluded
  | some pdMode =>
      have hpd : config.discoveryConfig.pdMode = true := by rw [Config.discoveryConfig, hmode]
      have hpools : config.pdMode.isSome = true := by rw [hmode]; rfl
      have htype := ServiceDiscoveryConfig.podType_of_fromPod hpd hincluded hinfo
      have hplace : config.discoveryEnv.selectPool info = _ :=
        ServiceDiscoveryConfig.selectPool_of_podType hpd hpools hpools htype
      rw [hplace] at hpool
      by_cases hprefill :
          PodInfo.matchesSelector pod config.discoveryEnv.config.prefillSelector = true
      · rw [if_pos hprefill] at hpool
        subst hpool
        exact hprefill
      · rw [if_neg hprefill] at hpool
        subst hpool
        rw [PodInfo.shouldInclude, hpd, if_pos rfl] at hincluded
        split at hincluded
        · cases hincluded
        · exact ((Bool.or_eq_true _ _).mp hincluded).resolve_left hprefill

/-- What is extracted from a ready and running pod. -/
theorem running_of_fromPod {pod : Pod} {config : Option ServiceDiscoveryConfig} {info : PodInfo}
    (hinfo : PodInfo.fromPod pod config = some info) (hhealthy : info.isHealthy = true) :
    ∃ status conditions, pod.status = some status ∧ status.podIp = some info.ip ∧
      status.phase = some "Running" ∧ status.conditions = some conditions ∧
        ∃ condition ∈ conditions, condition.type = "Ready" ∧ condition.status = "True" := by
  simp only [PodInfo.fromPod, Option.bind_eq_bind, Option.bind_eq_some_iff] at hinfo
  obtain ⟨name, -, uid, -, status, hstatus, ip, hip, hinfo⟩ := hinfo
  obtain rfl := Option.some.inj hinfo
  simp only [PodInfo.isHealthy, Bool.and_eq_true, beq_iff_eq] at hhealthy
  obtain ⟨hready, hphase⟩ := hhealthy
  cases hconditions : status.conditions with
  | none => simp [hconditions] at hready
  | some conditions =>
      refine ⟨status, conditions, hstatus, hip, ?_, hconditions, ?_⟩
      · cases hsome : status.phase with
        | none => simp [hsome] at hphase
        | some phase =>
            rw [hsome, Option.getD_some] at hphase
            rw [hphase]
      · simpa [hconditions] using hready

theorem Placed.provides (h : Placed config seen pool url) (hk8s : config.hasK8sEnabled = true) :
    config.Provides seen pool url := by
  obtain ⟨info, ⟨⟨pod, hmem, hlive⟩, hhealthy⟩, hpool, hurl⟩ := h
  obtain ⟨status, conditions, hstatus, hip, hphase, hconditions, hready⟩ :=
    running_of_fromPod hlive.2.2 hhealthy
  rw [Config.Provides, if_pos hk8s]
  refine ⟨pod, hmem, ?_, ?_, status, info.ip, conditions, hstatus, hip, hphase, hconditions, hready, ?_⟩
  · exact ServiceDiscoveryConfig.matchesSelector_iff.mp (matchesSelector_of_selectPool hlive hpool)
  · exact Option.isSome_eq_false_iff.mp hlive.2.1 |> Option.isNone_iff_eq_none.mp
  · exact hurl.symm

theorem Provides.mono {seen' : List Pod} (h : config.Provides seen pool url) (hsub : seen ⊆ seen') :
    config.Provides seen' pool url := by
  unfold Config.Provides at h ⊢
  split
  · rename_i hk8s
    rw [if_pos hk8s] at h
    obtain ⟨pod, hmem, hserves⟩ := h
    exact ⟨pod, hsub hmem, hserves⟩
  · rename_i hk8s
    rwa [if_neg hk8s] at h

/-- What holds of the gateway in every state of a run. -/
structure Supplied (config : Config) (g : Gateway) : Prop where
  discovering : g.Discovering config
  checked : g.deployment.Checked
  settled : g.deployment.Settled config

variable {g g' : Gateway}

theorem Supplied.moves (h : g.Supplied config) (hmoves : Moves config g g') : g'.Supplied config := by
  obtain ⟨hseen, hdiscovering⟩ := h.discovering.moves hmoves
  rcases hseen with heq | hmoves
  · exact ⟨hdiscovering, heq ▸ h.checked, heq ▸ h.settled⟩
  · exact ⟨hdiscovering, h.checked.moves hmoves, h.settled.moves hmoves⟩

theorem Supplied.exec (h : g.Supplied config) {op : RouterOp} {result : op.Result}
    (hexec : (machine config).exec op g result g') : g'.Supplied config := by
  obtain ⟨hdeployment, hdiscovering⟩ := refines.exec _ _ _ _ h.discovering hexec
  exact ⟨hdiscovering, h.checked.exec hdeployment, h.settled.exec hdeployment⟩

theorem Supplied.start {app : AppState} (hbuild : config.buildState = .ok app) :
    (Gateway.start config app).Supplied config :=
  ⟨.start hbuild, .start hbuild, .start hbuild⟩

/-- A worker of a pool was provided. -/
theorem Supplied.provides (h : g.Supplied config) {worker : Worker}
    (hmem : worker ∈ g.deployment.monitor.fleet.view pool) :
    config.Provides g.seen pool worker.url := by
  cases hk8s : config.hasK8sEnabled with
  | true => exact (h.discovering.placed hk8s pool worker hmem).provides hk8s
  | false =>
      rw [Config.Provides, hk8s, if_neg Bool.false_ne_true, ← config.urls_fleet hk8s pool]
      rw [Fleet.view, h.settled.pools hk8s] at hmem
      obtain ⟨ref, href, rfl⟩ := List.mem_map.mp hmem
      exact List.mem_map.mpr ⟨ref, href, (h.settled.urls hk8s ref).symm⟩

theorem Supplied.provides_next (h : g.Supplied config) {ctx : RequestContext} {i : Nat}
    (hexec : (machine config).exec (.next pool ctx) g (some (i, url)) g') :
    config.Provides g.seen pool url := by
  obtain ⟨s, ⟨⟨ambient, hnext⟩, -⟩, -⟩ := hexec
  rcases AppState.next_eq_ok hnext with ⟨hnone, -⟩ | ⟨j, other, hsome, hdispatched⟩
  · cases hnone
  · cases hsome
    obtain ⟨workers, hworkers, hentry⟩ := hdispatched.entry
    have hview := h.checked.shows.views pool
    rw [hworkers, Option.getD_some] at hview
    rw [hview] at hentry
    exact h.provides (List.mem_of_getElem? hentry)

/-- The requests of a call, each with the pool of the worker it goes to. -/
def outgoing : RouterCall → List (Pool × Outgoing)
  | .send pool request => [(pool, request)]
  | .sendBoth prefill decode => [(.prefill, prefill), (.decode, decode)]
  | .collect | .bytes _ _ | .text _ _ => []

/-- What follows a worker's URL in a target. -/
def suffixOf (pdMode : Option PdMode) (parts : Parts) : String :=
  if Protocol.pipelined pdMode parts then parts.path else parts.pathAndQuery

theorem targets_of_may {crates : Crates} {pdMode : Option PdMode} {parts : Parts}
    {trace : Programs.Trace router} {call : RouterCall}
    (h : Protocol.HandlerMay crates pdMode parts trace call) :
    ∀ entry ∈ outgoing call,
      Protocol.Targets crates trace entry.1 (suffixOf pdMode parts) entry.2.url := by
  rcases Protocol.pipelined_cases pdMode parts with hregular | ⟨hpath, rfl | rfl⟩
  · rw [Protocol.handlerMay_regular crates hregular] at h
    rw [suffixOf, hregular]
    cases h with
    | collect => exact fun _ hmem => (List.not_mem_nil hmem).elim
    | send hbody htarget hfirst => exact List.forall_mem_singleton.mpr htarget
  · rw [Protocol.handlerMay_vllm crates hpath] at h
    rw [suffixOf, Protocol.pipelined, hpath]
    cases h with
    | prefill hgiven hrequest htarget hfirst hdecode =>
        exact List.forall_mem_singleton.mpr htarget
    | decode hgiven hprefilled htarget hfirst => exact List.forall_mem_singleton.mpr htarget
    | _ => exact fun _ hmem => (List.not_mem_nil hmem).elim
  · rw [Protocol.handlerMay_sglang crates hpath] at h
    rw [suffixOf, Protocol.pipelined, hpath]
    cases h with
    | both hgiven hselected hdraw hbootstrap hprefill hdecode hfirst =>
        exact List.forall_mem_cons.mpr ⟨hprefill, List.forall_mem_singleton.mpr hdecode⟩
    | _ => exact fun _ hmem => (List.not_mem_nil hmem).elim

/-- The event is no selection, or its worker was provided. -/
def Vouched (config : Config) (g : Gateway) : Programs.Event router → Prop
  | .ran (.next pool _) (some (_, url)) => config.Provides g.seen pool url
  | _ => True

theorem Vouched.mono (hsub : g.seen ⊆ g'.seen) {event : Programs.Event router}
    (h : Vouched config g event) : Vouched config g' event := by
  cases event with
  | ran op result =>
      cases op with
      | next pool ctx =>
          cases result with
          | none => trivial
          | some entry => exact Provides.mono h hsub
      | _ => trivial
  | _ => trivial

theorem seen_subset_of_moves (h : Moves config g g') : g.seen ⊆ g'.seen := by
  cases h with
  | watch => exact List.subset_cons_self _ _
  | list => exact List.subset_append_right _ _
  | _ => exact List.Subset.refl _

section Runs

variable {crates : Crates} {app : AppState}
  {s : Programs.System router Gateway Parts (Response WorkerId)}

theorem targets_of_reachable
    (hs : Runs.Reachable (· = .start (start config app))
      (Programs.Step (machine config) (pdProxyHandler crates config.pdMode)) s) :
    ∀ history ∈ s.histories, ∀ call ∈ Programs.calls history.2, ∀ entry ∈ outgoing call,
      Protocol.Targets crates history.2 entry.1 (suffixOf config.pdMode history.1) entry.2.url := by
  intro history hhistory call hcall
  have htargets : Programs.Justified (fun trace call => ∀ entry ∈ outgoing call,
      Protocol.Targets crates trace entry.1 (suffixOf config.pdMode history.1) entry.2.url)
      history.2 :=
    (Protocol.justified_of_reachable hs history hhistory).mono fun _ _ hmay => targets_of_may hmay
  exact htargets.of_mem (fun event trace call h entry hentry => (h entry hentry).cons event) hcall

/-- Every request that a handler has sent went to a worker provided for the pool it was sent to. -/
theorem requests_reach_provided (hbuild : config.buildState = .ok app)
    (hs : Runs.Reachable (· = .start (start config app))
      (Programs.Step (machine config) (pdProxyHandler crates config.pdMode)) s) :
    ∀ history ∈ s.histories, ∀ call ∈ Programs.calls history.2, ∀ entry ∈ outgoing call,
      ∃ url, config.Provides s.shared.seen entry.1 url ∧
        crates.parseUrl (trimEndMatches url '/' ++ suffixOf config.pdMode history.1) =
          .ok entry.2.url := by
  have hvouched : ∀ history ∈ s.histories, ∀ event ∈ history.2, Vouched config s.shared event := by
    refine Programs.attested_of_reachable (P := Supplied config) (Q := Vouched config) ?_ ?_ ?_
      (.start hbuild) hs
    · intro op result g g' h hexec
      refine ⟨h.exec hexec, ?_, fun event hevent => ?_⟩
      · cases op with
        | next pool ctx =>
            cases result with
            | none => trivial
            | some entry =>
                have hprovided := h.provides_next hexec
                obtain ⟨s, -, rfl⟩ := hexec
                exact hprovided
        | _ => trivial
      · obtain ⟨s, -, rfl⟩ := hexec
        exact hevent
    · exact fun g g' h hmoves =>
        ⟨h.moves hmoves, fun event hevent => hevent.mono (seen_subset_of_moves hmoves)⟩
    · intro g event hother
      cases event with
      | ran op result => exact (hother op result rfl).elim
      | _ => trivial
  intro history hhistory call hcall entry hentry
  obtain ⟨ctx, i, url, hselected, hparse⟩ :=
    targets_of_reachable hs history hhistory call hcall entry hentry
  exact ⟨url, hvouched history hhistory _ hselected, hparse⟩

end Runs

theorem requests_reach_provided_readyPod :
    ∃ request : Outgoing, ∃ url, podConfig.Provides [readyPod] .regular url ∧
      plainCrates.parseUrl (trimEndMatches url '/' ++ "/v1/models") = .ok request.url := by
  obtain ⟨app, hbuild, g, g', hs, hseen, hexec⟩ :=
    exists_discovered_worker (pdProxyHandler plainCrates podConfig.pdMode)
  have hcollected := (hs.tail (.start _ ⟨"GET", "/v1/models", none, []⟩)).tail
    (@Programs.Step.reply router _ _ _ _ _ _ 0 _ .collect _ [] [] rfl (.ok ByteArray.empty))
  have hselected := hcollected.tail
    (@Programs.Step.perform router _ _ _ _ _ _ 0 _ (.next .regular ⟨"default", "default"⟩) _ _ []
      (some (0, podConfig.discoveryEnv.workerUrl readyInfo)) _ rfl hexec)
  have hguarded := hselected.tail
    (@Programs.Step.defer router _ _ _ _ _ _ 0 _ (.finish .regular 0) _ _ [] rfl)
  have hasked := hguarded.tail
    (@Programs.Step.reply router _ _ _ _ _ _ 0 _ (.send .regular _) _ _ _ rfl
      (.error ⟨false, true, "connection refused"⟩))
  obtain ⟨url, hprovided, hparse⟩ := requests_reach_provided hbuild hasked _
    (Multiset.mem_singleton_self _) _ List.mem_cons_self _ List.mem_cons_self
  obtain ⟨s, -, rfl⟩ := hexec
  rw [← hseen]
  exact ⟨_, url, hprovided, hparse⟩

end Gateway

end TokenDog
