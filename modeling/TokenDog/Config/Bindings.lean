import TokenDog.Config.Settings

/-!
# The Python bindings

A `Router` is constructed from Python with names for the policy and the mode, and its `serve` starts a
gateway by a copy of `main` that reads the names once more.
-/

namespace TokenDog

/-- The names that the command line has for the policies. -/
def Policy.name : Policy → String
  | .leastLoaded => "least-loaded"
  | .powerOfTwo => "power-of-two"
  | .random => "random"
  | .roundRobin => "round-robin"
  | .sessionAffinity => "session-affinity"
  | .prefixAffinity => "prefix-affinity"
  | .loadCacheAware => "load-cache-aware"

def Policy.underscored : Policy → String
  | .leastLoaded => "least_loaded"
  | .powerOfTwo => "power_of_two"
  | .random => "random"
  | .roundRobin => "round_robin"
  | .sessionAffinity => "session_affinity"
  | .prefixAffinity => "prefix_affinity"
  | .loadCacheAware => "load_cache_aware"

def PdMode.name : PdMode → String
  | .vllm => "vllm"
  | .sglang => "sglang"

inductive LogLevel where
  | error
  | warn
  | info
  | debug
  deriving DecidableEq, Repr

def LogLevel.name : LogLevel → String
  | .error => "error"
  | .warn => "warn"
  | .info => "info"
  | .debug => "debug"

namespace Bindings

/-- What Python passes to `Router`. Its integers are unbounded. -/
structure Args where
  workerUrls : List String
  host : String
  port : Int
  requestTimeoutSecs : Int
  logLevel : String
  policy : String
  pdMode : Option String
  prefillUrls : Option (List String)
  decodeUrls : Option (List String)
  healthCheckIntervalSecs : Int
  logFile : Option String
  k8sSelector : Option (List String)
  k8sPort : Int
  k8sCheckIntervalSecs : Int
  k8sPrefillSelector : Option (List String)
  k8sDecodeSelector : Option (List String)

/-- An argument with the bits of its unsigned type. -/
structure IntArg where
  argument : String
  bits : Nat
  value : Int

def IntArg.Fits (number : IntArg) : Prop := 0 ≤ number.value ∧ number.value < 2 ^ number.bits

instance (number : IntArg) : Decidable number.Fits := by
  unfold IntArg.Fits
  infer_instance

/-- The integers, in the order in which they are converted. -/
def Args.numbers (args : Args) : List IntArg :=
  [⟨"port", 16, args.port⟩, ⟨"request_timeout_secs", 64, args.requestTimeoutSecs⟩,
    ⟨"health_check_interval_secs", 64, args.healthCheckIntervalSecs⟩,
    ⟨"k8s_port", 16, args.k8sPort⟩, ⟨"k8s_check_interval_secs", 64, args.k8sCheckIntervalSecs⟩]

structure Router where
  workerUrls : List String
  host : String
  logLevel : String
  policy : String
  pdMode : Option String
  prefillUrls : List String
  decodeUrls : List String
  logFile : Option String
  k8sSelector : List String
  k8sPort : Nat
  k8sPrefillSelector : List String
  k8sDecodeSelector : List String

/-- Why no router is constructed: an `OverflowError` about an argument, or a `ValueError`. -/
inductive NewError where
  | overflow (argument : String)
  | value (message : String)
  deriving DecidableEq, Repr

/-- Why no listener is bound: a `ValueError`, an `unreachable!` that is reached, or another panic. -/
inductive ServeError where
  | value (message : String)
  | unreachable
  | panicked (panic : Panic)
  deriving DecidableEq, Repr

/-- Construct the load balancer from a policy string and worker count. -/
def makePolicy (policy : String) (n : Nat) : Except Panic Balancer :=
  match policy with
  | "least-loaded" => .ok (.leastLoaded (LeastLoaded.new n))
  | "power-of-two" => .ok (.powerOfTwo (PowerOfTwo.new n))
  | "random" => .ok (.random {})
  | "session-affinity" => .ok (.sessionAffinity {})
  | "prefix-affinity" => do return .prefixAffinity (← PrefixAffinity.new n)
  | "load-cache-aware" => do return .loadCacheAware (← LoadCacheAware.new n)
  | _ => .ok (.roundRobin RoundRobin.new)

def policyType (policy : String) : Policy :=
  match policy with
  | "least-loaded" => .leastLoaded
  | "power-of-two" => .powerOfTwo
  | "random" => .random
  | "round-robin" => .roundRobin
  | "session-affinity" => .sessionAffinity
  | "prefix-affinity" => .prefixAffinity
  | "load-cache-aware" => .loadCacheAware
  | _ => .leastLoaded

def invalidPolicy (policy : String) : String :=
  "Invalid policy '" ++ policy ++ "', expected one of: least-loaded, power-of-two, random, " ++
    "round-robin, session-affinity, prefix-affinity, load-cache-aware"

def invalidPdMode (pdMode : String) : String :=
  "Invalid pd_mode '" ++ pdMode ++ "', expected 'vllm' or 'sglang'"

def invalidLogLevel (logLevel : String) : String :=
  "Invalid log_level '" ++ logLevel ++ "', expected one of: error, warn, info, debug"

def invalidHost (host e : String) : String := "Invalid host '" ++ host ++ "': " ++ e

/-- The conversions that precede the body of the constructor. -/
def extractNumbers : List IntArg → Except NewError Unit
  | [] => .ok ()
  | number :: rest =>
      if number.Fits then extractNumbers rest else .error (.overflow number.argument)

/-- What logging finds when it is set up: how opening its file ends, and whether the process may
still install a subscriber. -/
structure Logging where
  openFile : String → Except String Unit
  tryInit : Except String Unit

def setupTracing (logging : Logging) (logFile : Option String) : Except String Unit := do
  match logFile with
  | some path => (logging.openFile path).mapError fun e => "Failed to create log file: " ++ e
  | none => .ok ()
  logging.tryInit.mapError fun e => "Subscriber already initialized: " ++ e

section Lowercase

-- `str::to_lowercase`
variable (toLowercase : String → String)

/-- Validates a policy string and returns it normalized. -/
def validatePolicy (policy : String) : Except String String :=
  match toLowercase policy with
  | "least-loaded" | "least_loaded" => .ok "least-loaded"
  | "power-of-two" | "power_of_two" => .ok "power-of-two"
  | "random" => .ok "random"
  | "round-robin" | "round_robin" => .ok "round-robin"
  | "session-affinity" | "session_affinity" => .ok "session-affinity"
  | "prefix-affinity" | "prefix_affinity" => .ok "prefix-affinity"
  | "load-cache-aware" | "load_cache_aware" => .ok "load-cache-aware"
  | _ => .error (invalidPolicy policy)

/-- The mode is kept as it was written. -/
def validatePdMode (pdMode : Option String) : Except String (Option String) :=
  match pdMode with
  | some s =>
      if toLowercase s = "vllm" ∨ toLowercase s = "sglang" then .ok (some s)
      else .error (invalidPdMode s)
  | none => .ok none

def Router.new (args : Args) : Except NewError Router := do
  extractNumbers args.numbers
  let policy ← (validatePolicy toLowercase args.policy).mapError .value
  let pdMode ← (validatePdMode toLowercase args.pdMode).mapError .value
  return { workerUrls := args.workerUrls
           host := args.host
           logLevel := args.logLevel
           policy := policy
           pdMode := pdMode
           prefillUrls := args.prefillUrls.getD []
           decodeUrls := args.decodeUrls.getD []
           logFile := args.logFile
           k8sSelector := args.k8sSelector.getD []
           k8sPort := args.k8sPort.toNat
           k8sPrefillSelector := args.k8sPrefillSelector.getD []
           k8sDecodeSelector := args.k8sDecodeSelector.getD [] }

/-- Any other name is `unreachable!()`. -/
def pdModeEnum (pdMode : String) : Except ServeError PdMode :=
  match toLowercase pdMode with
  | "vllm" => .ok .vllm
  | "sglang" => .ok .sglang
  | _ => .error .unreachable

def checkLogLevel (logLevel : String) : Except ServeError Unit :=
  match toLowercase logLevel with
  | "error" | "warn" | "info" | "debug" => .ok ()
  | _ => .error (.value (invalidLogLevel logLevel))

/-- The state that is served, and what service discovery is started with. -/
def Router.buildState (router : Router) :
    Except ServeError (AppState × Option ServiceDiscoveryConfig) :=
  let isK8s := !router.k8sSelector.isEmpty || !router.k8sPrefillSelector.isEmpty ||
    !router.k8sDecodeSelector.isEmpty
  if isK8s then
    match router.pdMode with
    | some pdModeVal => do
        let pdMode ← pdModeEnum toLowercase pdModeVal
        let app ← (AppState.newK8sPd pdMode (policyType router.policy) [] []).mapError .panicked
        return (app, some
          { selector := parseSelector router.k8sSelector
            port := router.k8sPort
            pdMode := true
            prefillSelector := parseSelector router.k8sPrefillSelector
            decodeSelector := parseSelector router.k8sDecodeSelector })
    | none => do
        let app ← (AppState.newK8s (policyType router.policy) []).mapError .panicked
        return (app, some
          { selector := parseSelector router.k8sSelector
            port := router.k8sPort
            pdMode := false
            prefillSelector := []
            decodeSelector := [] })
  else
    match router.pdMode with
    | some pdModeVal =>
        if router.prefillUrls.isEmpty then .error (.panicked .assertion)
        else if router.decodeUrls.isEmpty then .error (.panicked .assertion)
        else do
          let pdMode ← pdModeEnum toLowercase pdModeVal
          let app ← Except.mapError .panicked do
            let prefillPolicy ← makePolicy router.policy router.prefillUrls.length
            let decodePolicy ← makePolicy router.policy router.decodeUrls.length
            AppState.newPd pdMode (Worker.fromUrls router.prefillUrls)
              (Worker.fromUrls router.decodeUrls) prefillPolicy decodePolicy
          return (app, none)
    | none => do
        let app ← Except.mapError .panicked do
          let balancer ← makePolicy router.policy router.workerUrls.length
          AppState.new (Worker.fromUrls router.workerUrls) balancer
        return (app, none)

-- `IpAddr::from_str`, with the text of its error
variable (parseIp : String → Except String Unit)

/-- Start the gateway server, up to the binding of its listener. That logging is not set up is printed
and no more. -/
def Router.serve (logging : Logging) (router : Router) :
    Except ServeError (AppState × Option ServiceDiscoveryConfig) := do
  checkLogLevel toLowercase router.logLevel
  (parseIp router.host).mapError fun e => .value (invalidHost router.host e)
  match setupTracing logging router.logFile with
  | .ok () => router.buildState toLowercase
  | .error _ => router.buildState toLowercase

end Lowercase

section Names

variable {toLowercase : String → String}

theorem validatePolicy_of_name {policy : String} {p : Policy}
    (h : toLowercase policy = p.name ∨ toLowercase policy = p.underscored) :
    validatePolicy toLowercase policy = .ok p.name := by
  unfold validatePolicy
  rcases h with h | h <;> rw [h] <;> cases p <;> simp [Policy.name, Policy.underscored]

theorem validatePolicy_cases (policy : String) :
    (∃ p : Policy, toLowercase policy = p.name ∨ toLowercase policy = p.underscored) ∨
      validatePolicy toLowercase policy = .error (invalidPolicy policy) := by
  unfold validatePolicy
  split
  · rename_i h; exact Or.inl ⟨.leastLoaded, Or.inl h⟩
  · rename_i h; exact Or.inl ⟨.leastLoaded, Or.inr h⟩
  · rename_i h; exact Or.inl ⟨.powerOfTwo, Or.inl h⟩
  · rename_i h; exact Or.inl ⟨.powerOfTwo, Or.inr h⟩
  · rename_i h; exact Or.inl ⟨.random, Or.inl h⟩
  · rename_i h; exact Or.inl ⟨.roundRobin, Or.inl h⟩
  · rename_i h; exact Or.inl ⟨.roundRobin, Or.inr h⟩
  · rename_i h; exact Or.inl ⟨.sessionAffinity, Or.inl h⟩
  · rename_i h; exact Or.inl ⟨.sessionAffinity, Or.inr h⟩
  · rename_i h; exact Or.inl ⟨.prefixAffinity, Or.inl h⟩
  · rename_i h; exact Or.inl ⟨.prefixAffinity, Or.inr h⟩
  · rename_i h; exact Or.inl ⟨.loadCacheAware, Or.inl h⟩
  · rename_i h; exact Or.inl ⟨.loadCacheAware, Or.inr h⟩
  · exact Or.inr rfl

/-- The mode that a kept name stands for. -/
theorem validatePdMode_of_name {pdMode : Option String} {mode : Option PdMode}
    (h : pdMode.map toLowercase = mode.map PdMode.name) :
    validatePdMode toLowercase pdMode = .ok pdMode := by
  cases pdMode with
  | none => rfl
  | some s =>
      obtain ⟨mode, rfl, hname⟩ := Option.map_eq_some_iff.mp h.symm
      have hvalid : toLowercase s = "vllm" ∨ toLowercase s = "sglang" := by
        rw [← hname]
        cases mode with
        | vllm => exact Or.inl rfl
        | sglang => exact Or.inr rfl
      exact if_pos hvalid

theorem validatePdMode_cases (pdMode : Option String) :
    (∃ mode : Option PdMode, pdMode.map toLowercase = mode.map PdMode.name) ∨
      ∃ s, pdMode = some s ∧ validatePdMode toLowercase pdMode = .error (invalidPdMode s) := by
  cases pdMode with
  | none => exact Or.inl ⟨none, rfl⟩
  | some s =>
      by_cases hvalid : toLowercase s = "vllm" ∨ toLowercase s = "sglang"
      · rcases hvalid with hname | hname
        · exact Or.inl ⟨some .vllm, congrArg some hname⟩
        · exact Or.inl ⟨some .sglang, congrArg some hname⟩
      · exact Or.inr ⟨s, rfl, if_neg hvalid⟩

theorem makePolicy_name (p : Policy) (n : Nat) : makePolicy p.name n = Balancer.makePolicy p n := by
  unfold makePolicy
  cases p <;> simp [Policy.name, Balancer.makePolicy]

theorem policyType_name (p : Policy) : policyType p.name = p := by
  unfold policyType
  cases p <;> simp [Policy.name]

theorem pdModeEnum_of_name {s : String} {mode : PdMode} (h : toLowercase s = mode.name) :
    pdModeEnum toLowercase s = .ok mode := by
  unfold pdModeEnum
  rw [h]
  cases mode <;> simp [PdMode.name]

theorem checkLogLevel_of_name {logLevel : String} {level : LogLevel}
    (h : toLowercase logLevel = level.name) : checkLogLevel toLowercase logLevel = .ok () := by
  unfold checkLogLevel
  rw [h]
  cases level <;> simp [LogLevel.name]

theorem checkLogLevel_cases (logLevel : String) :
    (∃ level : LogLevel, toLowercase logLevel = level.name) ∨
      checkLogLevel toLowercase logLevel = .error (.value (invalidLogLevel logLevel)) := by
  unfold checkLogLevel
  split
  · rename_i h; exact Or.inl ⟨.error, h⟩
  · rename_i h; exact Or.inl ⟨.warn, h⟩
  · rename_i h; exact Or.inl ⟨.info, h⟩
  · rename_i h; exact Or.inl ⟨.debug, h⟩
  · exact Or.inr rfl

end Names

/-- What `main` serves, and what it starts service discovery with, once it can log. -/
def started (config : Config) : Except Panic (AppState × Option ServiceDiscoveryConfig) := do
  let app ← config.buildState
  return (app, if config.hasK8sEnabled then some config.discoveryConfig else none)

/-- How `main` ends before it listens: it expects logging to be set up, or panics later. -/
inductive MainError where
  | tracing (message : String)
  | panicked (panic : Panic)
  deriving DecidableEq, Repr

def main (logging : Logging) (config : Config) :
    Except MainError (AppState × Option ServiceDiscoveryConfig) := do
  (setupTracing logging config.logFile).mapError .tracing
  (started config).mapError .panicked

/-- The settings that the arguments name. -/
structure Names (toLowercase : String → String) (args : Args) (config : Config) : Prop where
  policy : toLowercase args.policy = config.policy.name ∨
    toLowercase args.policy = config.policy.underscored
  numbers : ∀ number ∈ args.numbers, number.Fits
  pdMode : args.pdMode.map toLowercase = config.pdMode.map PdMode.name
  workerUrls : config.workerUrls = args.workerUrls
  prefillUrls : config.prefillUrls = args.prefillUrls.getD []
  decodeUrls : config.decodeUrls = args.decodeUrls.getD []
  logFile : config.logFile = args.logFile
  k8sSelector : config.k8sSelector = args.k8sSelector.getD []
  k8sPrefillSelector : config.k8sPrefillSelector = args.k8sPrefillSelector.getD []
  k8sDecodeSelector : config.k8sDecodeSelector = args.k8sDecodeSelector.getD []
  k8sPort : config.k8sPort = args.k8sPort.toNat

/-- A constructed router has kept these settings. -/
structure Router.Keeps (toLowercase : String → String) (router : Router) (config : Config) :
    Prop where
  policy : router.policy = config.policy.name
  pdMode : router.pdMode.map toLowercase = config.pdMode.map PdMode.name
  workerUrls : router.workerUrls = config.workerUrls
  prefillUrls : router.prefillUrls = config.prefillUrls
  decodeUrls : router.decodeUrls = config.decodeUrls
  logFile : router.logFile = config.logFile
  k8sSelector : router.k8sSelector = config.k8sSelector
  k8sPrefillSelector : router.k8sPrefillSelector = config.k8sPrefillSelector
  k8sDecodeSelector : router.k8sDecodeSelector = config.k8sDecodeSelector
  k8sPort : router.k8sPort = config.k8sPort

section Agreement

variable {toLowercase : String → String} {args : Args} {router : Router} {config : Config}

theorem extractNumbers_of_fits {numbers : List IntArg} (h : ∀ number ∈ numbers, number.Fits) :
    extractNumbers numbers = .ok () := by
  induction numbers with
  | nil => rfl
  | cons number rest ih =>
      rw [extractNumbers, if_pos (h number List.mem_cons_self)]
      exact ih fun other hmem => h other (List.mem_cons_of_mem _ hmem)

theorem extractNumbers_cases (numbers : List IntArg) :
    (∀ number ∈ numbers, number.Fits) ∨
      ∃ number ∈ numbers, ¬number.Fits ∧
        extractNumbers numbers = .error (.overflow number.argument) := by
  induction numbers with
  | nil => exact Or.inl fun _ hmem => (List.not_mem_nil hmem).elim
  | cons number rest ih =>
      by_cases hfits : number.Fits
      · rw [extractNumbers, if_pos hfits]
        refine ih.imp (fun h => List.forall_mem_cons.mpr ⟨hfits, h⟩) ?_
        exact fun ⟨other, hmem, h⟩ => ⟨other, List.mem_cons_of_mem _ hmem, h⟩
      · rw [extractNumbers, if_neg hfits]
        exact Or.inr ⟨number, List.mem_cons_self, hfits, rfl⟩

theorem exists_new (h : Names toLowercase args config) :
    ∃ router, Router.new toLowercase args = .ok router ∧ router.Keeps toLowercase config ∧
      router.logLevel = args.logLevel ∧ router.host = args.host := by
  rw [Router.new, extractNumbers_of_fits h.numbers, validatePolicy_of_name h.policy,
    validatePdMode_of_name h.pdMode]
  refine ⟨_, rfl, ?_, rfl, rfl⟩
  exact
    { policy := rfl
      pdMode := h.pdMode
      workerUrls := h.workerUrls.symm
      prefillUrls := h.prefillUrls.symm
      decodeUrls := h.decodeUrls.symm
      logFile := h.logFile.symm
      k8sSelector := h.k8sSelector.symm
      k8sPrefillSelector := h.k8sPrefillSelector.symm
      k8sDecodeSelector := h.k8sDecodeSelector.symm
      k8sPort := h.k8sPort.symm }

/-- What a failed construction names. -/
def Rejects (args : Args) (error : NewError) : Prop :=
  (∃ number ∈ args.numbers, ¬number.Fits ∧ error = .overflow number.argument) ∨
    error = .value (invalidPolicy args.policy) ∨
    ∃ pdMode, args.pdMode = some pdMode ∧ error = .value (invalidPdMode pdMode)

theorem new_cases (args : Args) :
    (∃ config, Names toLowercase args config) ∨
      ∃ error, Router.new toLowercase args = .error error ∧ Rejects args error := by
  rcases extractNumbers_cases args.numbers with hfits | ⟨number, hmem, hfits, hnumbers⟩
  · rcases validatePolicy_cases args.policy with ⟨p, hpolicy⟩ | hpolicy
    · rcases validatePdMode_cases args.pdMode with ⟨mode, hmode⟩ | ⟨s, hsome, hmode⟩
      · exact Or.inl ⟨
          { workerUrls := args.workerUrls
            policy := p
            pdMode := mode
            prefillUrls := args.prefillUrls.getD []
            decodeUrls := args.decodeUrls.getD []
            logFile := args.logFile
            k8sSelector := args.k8sSelector.getD []
            k8sPrefillSelector := args.k8sPrefillSelector.getD []
            k8sDecodeSelector := args.k8sDecodeSelector.getD []
            k8sPort := args.k8sPort.toNat },
          hpolicy, hfits, hmode, rfl, rfl, rfl, rfl, rfl, rfl, rfl, rfl⟩
      · refine Or.inr ⟨.value (invalidPdMode s), ?_, Or.inr (Or.inr ⟨s, hsome, rfl⟩)⟩
        rw [Router.new, extractNumbers_of_fits hfits, validatePolicy_of_name hpolicy, hmode]
        rfl
    · refine Or.inr ⟨.value (invalidPolicy args.policy), ?_, Or.inr (Or.inl rfl)⟩
      rw [Router.new, extractNumbers_of_fits hfits, hpolicy]
      rfl
  · refine Or.inr ⟨.overflow number.argument, ?_, Or.inl ⟨number, hmem, hfits, rfl⟩⟩
    rw [Router.new, hnumbers]
    rfl

theorem buildState_of_keeps (h : router.Keeps toLowercase config) :
    router.buildState toLowercase = (started config).mapError .panicked := by
  have hpolicy := policyType_name config.policy
  have hmake := makePolicy_name config.policy
  unfold Router.buildState started Config.buildState Config.discoveryConfig
  rw [h.policy, h.workerUrls, h.prefillUrls, h.decodeUrls, h.k8sSelector, h.k8sPrefillSelector,
    h.k8sDecodeSelector, h.k8sPort]
  change (if config.hasK8sEnabled then _ else _) = _
  cases hmode : config.pdMode with
  | none =>
      have hnone : router.pdMode = none := by
        have hkept := h.pdMode
        rwa [hmode, Option.map_none, Option.map_eq_none_iff] at hkept
      rw [hnone]
      by_cases hk8s : config.hasK8sEnabled = true
      · simp only [if_pos hk8s, hpolicy]
        cases AppState.newK8s config.policy [] <;> rfl
      · simp only [if_neg hk8s, hmake]
        cases Balancer.makePolicy config.policy config.workerUrls.length with
        | error panic => rfl
        | ok balancer =>
            simp only [ok_bind]
            cases AppState.new (Worker.fromUrls config.workerUrls) balancer <;> rfl
  | some mode =>
      obtain ⟨s, hsome, hname⟩ : ∃ s, router.pdMode = some s ∧ toLowercase s = mode.name := by
        have hkept := h.pdMode
        rwa [hmode, Option.map_some, Option.map_eq_some_iff] at hkept
      have hbind : ∀ next : PdMode → Except ServeError (AppState × Option ServiceDiscoveryConfig),
          (pdModeEnum toLowercase s >>= next) = next mode := fun next => by
        rw [pdModeEnum_of_name hname]
        rfl
      rw [hsome]
      simp only [hbind]
      by_cases hk8s : config.hasK8sEnabled = true
      · simp only [if_pos hk8s, hpolicy]
        cases AppState.newK8sPd mode config.policy [] [] <;> rfl
      · simp only [if_neg hk8s, hmake]
        cases hprefill : config.prefillUrls.isEmpty with
        | true => rfl
        | false =>
            cases hdecode : config.decodeUrls.isEmpty with
            | true => rfl
            | false =>
                simp only [Bool.false_eq_true, if_false]
                cases Balancer.makePolicy config.policy config.prefillUrls.length with
                | error panic => rfl
                | ok prefillPolicy =>
                    simp only [ok_bind]
                    cases Balancer.makePolicy config.policy config.decodeUrls.length with
                    | error panic => rfl
                    | ok decodePolicy =>
                        simp only [ok_bind]
                        cases AppState.newPd mode (Worker.fromUrls config.prefillUrls)
                          (Worker.fromUrls config.decodeUrls) prefillPolicy decodePolicy <;> rfl

/-- The arguments that are checked only when serving. -/
structure Args.Servable (toLowercase : String → String) (parseIp : String → Except String Unit)
    (args : Args) : Prop where
  logLevel : ∃ level : LogLevel, toLowercase args.logLevel = level.name
  host : parseIp args.host = .ok ()

variable {parseIp : String → Except String Unit} {logging : Logging}

theorem serve_of_logLevel (hkeeps : router.Keeps toLowercase config)
    (hlevel : ∃ level : LogLevel, toLowercase router.logLevel = level.name) :
    router.serve toLowercase parseIp logging = (match parseIp router.host with
      | .ok () => (started config).mapError .panicked
      | .error e => .error (.value (invalidHost router.host e))) := by
  obtain ⟨level, hname⟩ := hlevel
  rw [Router.serve, checkLogLevel_of_name hname]
  cases hip : parseIp router.host with
  | error e => rfl
  | ok _ =>
      cases setupTracing logging router.logFile with
      | ok _ => exact buildState_of_keeps hkeeps
      | error _ => exact buildState_of_keeps hkeeps

theorem serve_of_servable (hkeeps : router.Keeps toLowercase config)
    (hlevel : router.logLevel = args.logLevel) (hhost : router.host = args.host)
    (h : args.Servable toLowercase parseIp) :
    router.serve toLowercase parseIp logging = (started config).mapError .panicked := by
  rw [serve_of_logLevel hkeeps (hlevel ▸ h.logLevel), hhost, h.host]

theorem serve_of_not_servable (hlevel : router.logLevel = args.logLevel)
    (hhost : router.host = args.host) (h : ¬args.Servable toLowercase parseIp) :
    ∃ message, router.serve toLowercase parseIp logging = .error (.value message) := by
  rw [Router.serve, hlevel, hhost]
  rcases checkLogLevel_cases args.logLevel with ⟨level, hname⟩ | hcheck
  · rw [checkLogLevel_of_name hname]
    cases hip : parseIp args.host with
    | ok _ => exact absurd ⟨⟨level, hname⟩, hip⟩ h
    | error e => exact ⟨_, rfl⟩
  · rw [hcheck]
    exact ⟨_, rfl⟩

/-- How `main` ends before it listens, seen from Python. -/
def MainError.asServed : MainError → ServeError
  | .tracing message => .value message
  | .panicked panic => .panicked panic

theorem main_of_setupTracing (h : setupTracing logging config.logFile = .ok ()) :
    (main logging config).mapError MainError.asServed = (started config).mapError .panicked := by
  rw [main, h]
  cases started config <;> rfl

theorem main_of_not_setupTracing {message : String}
    (h : setupTracing logging config.logFile = .error message) :
    main logging config = .error (.tracing message) := by
  rw [main, h]
  rfl

end Agreement

end Bindings

end TokenDog
