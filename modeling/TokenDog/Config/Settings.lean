import TokenDog.Config.SelectorText
import TokenDog.StaticRuns
import TokenDog.K8sRuns

/-!
# Settings and start-up

The settings that decide how a deployment starts, and what the binary builds from them: the
application state and the configuration of service discovery.
-/

namespace TokenDog

structure Config where
  workerUrls : List String
  policy : Policy
  pdMode : Option PdMode
  prefillUrls : List String
  decodeUrls : List String
  logFile : Option String
  k8sSelector : List String
  k8sPrefillSelector : List String
  k8sDecodeSelector : List String
  k8sPort : Nat

namespace Config

/-- K8s service discovery is enabled by any selector. -/
def hasK8sEnabled (config : Config) : Bool :=
  !config.k8sSelector.isEmpty || !config.k8sPrefillSelector.isEmpty ||
    !config.k8sDecodeSelector.isEmpty

/-- What service discovery is started with. The role selectors count in PD mode only. -/
def discoveryConfig (config : Config) : ServiceDiscoveryConfig :=
  match config.pdMode with
  | some _ =>
      { selector := parseSelector config.k8sSelector
        port := config.k8sPort
        pdMode := true
        prefillSelector := parseSelector config.k8sPrefillSelector
        decodeSelector := parseSelector config.k8sDecodeSelector }
  | none =>
      { selector := parseSelector config.k8sSelector
        port := config.k8sPort
        pdMode := false
        prefillSelector := []
        decodeSelector := [] }

def discoveryEnv (config : Config) : DiscoveryEnv :=
  ⟨config.discoveryConfig, config.pdMode.isSome, config.pdMode.isSome⟩

/-- The application state of `main`. -/
def buildState (config : Config) : Except Panic AppState :=
  if config.hasK8sEnabled then
    match config.pdMode with
    | some pdMode => AppState.newK8sPd pdMode config.policy [] []
    | none => AppState.newK8s config.policy []
  else
    match config.pdMode with
    | some pdMode =>
        if config.prefillUrls.isEmpty then .error .assertion
        else if config.decodeUrls.isEmpty then .error .assertion
        else do
          let prefillPolicy ← Balancer.makePolicy config.policy config.prefillUrls.length
          let decodePolicy ← Balancer.makePolicy config.policy config.decodeUrls.length
          AppState.newPd pdMode (Worker.fromUrls config.prefillUrls)
            (Worker.fromUrls config.decodeUrls) prefillPolicy decodePolicy
    | none => do
        let balancer ← Balancer.makePolicy config.policy config.workerUrls.length
        AppState.new (Worker.fromUrls config.workerUrls) balancer

/-- Clap has split what was typed for the selectors of the list call at its commas. -/
structure Delimited (config : Config) : Prop where
  selector : ∃ texts : List String, config.k8sSelector = texts.flatMap delimitedValues
  prefillSelector : ∃ texts : List String, config.k8sPrefillSelector = texts.flatMap delimitedValues

theorem comma_not_mem_items {texts : List String} :
    ∀ item ∈ texts.flatMap delimitedValues, ',' ∉ item.toList := by
  intro item hmem
  obtain ⟨text, -, hitem⟩ := List.mem_flatMap.mp hmem
  exact comma_not_mem_delimitedValues hitem

/-- Whether the pod has all that was typed for one of the roles. -/
def Selects (config : Config) (pod : Pod) : Prop :=
  if config.pdMode.isSome then
    pod.HasTyped config.k8sPrefillSelector ∨ pod.HasTyped config.k8sDecodeSelector
  else pod.HasTyped config.k8sSelector

/-- What the API server is asked for under a key: in PD mode what both roles have typed for it. -/
def asked (config : Config) (key : String) : Option String :=
  if config.pdMode.isSome then
    if lastTyped config.k8sDecodeSelector key = lastTyped config.k8sPrefillSelector key then
      lastTyped config.k8sPrefillSelector key
    else none
  else lastTyped config.k8sSelector key

theorem listRequirements_discoveryConfig (config : Config) :
    config.discoveryConfig.listRequirements =
      if config.pdMode.isSome then
        (parseSelector config.k8sPrefillSelector).filter fun (k, v) =>
          (parseSelector config.k8sDecodeSelector).lookup k == some v
      else parseSelector config.k8sSelector := by
  unfold ServiceDiscoveryConfig.listRequirements discoveryConfig
  cases config.pdMode <;> rfl

theorem lookup_listRequirements (config : Config) (key : String) :
    config.discoveryConfig.listRequirements.lookup key = config.asked key := by
  rw [listRequirements_discoveryConfig, asked]
  split
  · rw [lookup_filter_common (keys_nodup_parseSelector _)]
    simp only [lookup_parseSelector]
  · exact lookup_parseSelector _ _

theorem shouldInclude_discoveryConfig (config : Config) (pod : Pod) :
    PodInfo.shouldInclude pod config.discoveryConfig = true ↔ config.Selects pod := by
  have hempty : ∀ selector : List (String × String), selector.isEmpty = true →
      PodInfo.matchesSelector pod selector = false := fun selector h => if_pos h
  unfold Selects PodInfo.shouldInclude discoveryConfig
  simp only [← matchesSelector_parseSelector_iff]
  cases config.pdMode with
  | none =>
      cases hnone : (parseSelector config.k8sSelector).isEmpty with
      | true => simp [hempty _ hnone]
      | false => simp
  | some pdMode =>
      cases hprefill : (parseSelector config.k8sPrefillSelector).isEmpty with
      | false => simp
      | true =>
          cases hdecode : (parseSelector config.k8sDecodeSelector).isEmpty with
          | false => simp
          | true => simp [hempty _ hprefill, hempty _ hdecode]

/-- Both roles want the application; the component tells them apart, and one of its entries is
typed twice. -/
def typedConfig : Config where
  workerUrls := []
  policy := .leastLoaded
  pdMode := some .sglang
  prefillUrls := []
  decodeUrls := []
  logFile := none
  k8sSelector := [].flatMap delimitedValues
  k8sPrefillSelector := ["app=vllm, app = sglang", "gpu,component=prefill"].flatMap delimitedValues
  k8sDecodeSelector := ["app=sglang,component=decode"].flatMap delimitedValues
  k8sPort := 8000

example : typedConfig.discoveryConfig.listRequirements = [("app", "sglang")] := by decide +kernel

/-- The static modes need a worker for every role. -/
def HasWorkers (config : Config) : Prop :=
  match config.pdMode with
  | some _ => config.prefillUrls ≠ [] ∧ config.decodeUrls ≠ []
  | none => config.workerUrls ≠ []

theorem length_fromUrls (urls : List String) : (Worker.fromUrls urls).length = urls.length :=
  List.length_map _

/-- A deployment that starts is one of the modes. -/
theorem starts_of_buildState {config : Config} {app : AppState}
    (h : config.buildState = .ok app) :
    (config.hasK8sEnabled = true ∧ app.K8sStart) ∨
      (config.hasK8sEnabled = false ∧ AppState.StaticStart (· = config.policy) app) := by
  unfold buildState at h
  split at h
  · rename_i hk8s
    refine Or.inl ⟨hk8s, ?_⟩
    split at h
    · exact .pd h
    · exact .regular h
  · rename_i hk8s
    refine Or.inr ⟨Bool.eq_false_iff.mpr hk8s, ?_⟩
    split at h
    · split at h
      · cases h
      split at h
      · cases h
      simp only [bind_eq_ok] at h
      obtain ⟨prefillPolicy, hprefill, decodePolicy, hdecode, hnew⟩ := h
      rw [← length_fromUrls] at hprefill hdecode
      exact .pd rfl rfl hprefill hdecode hnew
    · simp only [bind_eq_ok] at h
      obtain ⟨balancer, hpolicy, hnew⟩ := h
      rw [← length_fromUrls] at hpolicy
      exact .regular rfl hpolicy hnew

theorem exists_newK8sPd (pdMode : PdMode) (policyType : Policy) :
    ∃ app, AppState.newK8sPd pdMode policyType [] [] = .ok app := by
  obtain ⟨balancer, hbalancer⟩ := Balancer.exists_makePolicy (n := 256) (by omega) policyType
  have hpolicy : AppState.makePolicy policyType (AppState.capacity 0) = .ok balancer := hbalancer
  simp only [AppState.newK8sPd, List.length_nil, hpolicy, ok_bind]
  exact ⟨_, rfl⟩

theorem new_eq_error {balancer : Balancer} : AppState.new (Worker.fromUrls []) balancer =
    .error .assertion := rfl

theorem exists_new {urls : List String} (hurls : urls ≠ []) (balancer : Balancer) :
    ∃ app, AppState.new (Worker.fromUrls urls) balancer = .ok app := by
  cases urls with
  | nil => exact absurd rfl hurls
  | cons => exact ⟨_, rfl⟩

theorem exists_newPd {prefillUrls decodeUrls : List String} (hprefill : prefillUrls ≠ [])
    (hdecode : decodeUrls ≠ []) (pdMode : PdMode) (prefillPolicy decodePolicy : Balancer) :
    ∃ app, AppState.newPd pdMode (Worker.fromUrls prefillUrls) (Worker.fromUrls decodeUrls)
      prefillPolicy decodePolicy = .ok app := by
  cases prefillUrls with
  | nil => exact absurd rfl hprefill
  | cons =>
      cases decodeUrls with
      | nil => exact absurd rfl hdecode
      | cons => exact ⟨_, rfl⟩

/-- The binary starts in Kubernetes mode always, in a static mode exactly with the workers the mode
needs. -/
theorem exists_buildState_iff (config : Config) :
    (∃ app, config.buildState = .ok app) ↔ config.hasK8sEnabled = true ∨ config.HasWorkers := by
  have hpolicy : ∀ {urls : List String}, urls ≠ [] →
      ∃ balancer, Balancer.makePolicy config.policy urls.length = .ok balancer := fun hurls =>
    Balancer.exists_makePolicy (List.length_pos_of_ne_nil hurls) config.policy
  unfold buildState HasWorkers
  split
  · rename_i hk8s
    refine iff_of_true ?_ (Or.inl hk8s)
    split
    · exact exists_newK8sPd _ _
    · exact AppState.exists_newK8s _ _
  · rename_i hk8s
    rw [or_iff_right hk8s]
    split
    · split
      · rename_i hempty
        exact iff_of_false (fun ⟨_, h⟩ => by cases h)
          fun h => h.1 (List.isEmpty_iff.mp hempty)
      split
      · rename_i hempty
        exact iff_of_false (fun ⟨_, h⟩ => by cases h)
          fun h => h.2 (List.isEmpty_iff.mp hempty)
      · rename_i hprefill hdecode
        rw [List.isEmpty_iff] at hprefill hdecode
        obtain ⟨prefillPolicy, hprefillPolicy⟩ := hpolicy hprefill
        obtain ⟨decodePolicy, hdecodePolicy⟩ := hpolicy hdecode
        simp only [hprefillPolicy, hdecodePolicy, ok_bind]
        exact iff_of_true (exists_newPd hprefill hdecode _ _ _) ⟨hprefill, hdecode⟩
    · by_cases hurls : config.workerUrls = []
      · refine iff_of_false ?_ fun h => h hurls
        rintro ⟨app, h⟩
        rw [hurls, bind_eq_ok] at h
        obtain ⟨balancer, -, hnew⟩ := h
        rw [new_eq_error] at hnew
        cases hnew
      · obtain ⟨balancer, hbalancer⟩ := hpolicy hurls
        simp only [hbalancer, ok_bind]
        exact iff_of_true (exists_new hurls _) hurls

end Config

end TokenDog
