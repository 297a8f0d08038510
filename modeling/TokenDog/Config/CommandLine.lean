import TokenDog.Config.Bindings

/-!
# The command line of the Python package

`_cmd_serve` splits what was typed at its commas, constructs a `Router` of it and serves.
-/

namespace TokenDog

namespace Bindings

/-- What `argparse` reads. The choices of an argument are the names of a type. -/
structure Cli where
  host : String
  port : Int
  workerUrls : List String
  requestTimeoutSecs : Int
  logLevel : LogLevel
  policy : Policy
  pdMode : Option PdMode
  prefillUrls : List String
  decodeUrls : List String
  k8sSelector : List String
  k8sPort : Int
  k8sCheckInterval : Int
  k8sPrefillSelector : List String
  k8sDecodeSelector : List String

/-- `u.split(",")` for all that was typed. -/
def splitTyped (typed : List String) : List String := typed.flatMap delimitedValues

/-- `values if values else None`. -/
def valuesOrNone (values : List String) : Option (List String) :=
  if values.isEmpty then none else some values

/-- What the router is constructed with. The defaults of `Router` stand where nothing is passed. -/
def Cli.args (cli : Cli) : Args where
  workerUrls := splitTyped cli.workerUrls
  host := cli.host
  port := cli.port
  requestTimeoutSecs := cli.requestTimeoutSecs
  logLevel := cli.logLevel.name
  policy := cli.policy.name
  pdMode := cli.pdMode.map PdMode.name
  prefillUrls := valuesOrNone (splitTyped cli.prefillUrls)
  decodeUrls := valuesOrNone (splitTyped cli.decodeUrls)
  healthCheckIntervalSecs := 60
  logFile := none
  k8sSelector := valuesOrNone (splitTyped cli.k8sSelector)
  k8sPort := cli.k8sPort
  k8sCheckIntervalSecs := cli.k8sCheckInterval
  k8sPrefillSelector := valuesOrNone (splitTyped cli.k8sPrefillSelector)
  k8sDecodeSelector := valuesOrNone (splitTyped cli.k8sDecodeSelector)

/-- The arguments of the router, or the code that the process exits with. -/
def cmdServe (cli : Cli) : Except Nat Args :=
  let k8sEnabled := !cli.k8sSelector.isEmpty || !cli.k8sPrefillSelector.isEmpty ||
    !cli.k8sDecodeSelector.isEmpty
  if !k8sEnabled && cli.workerUrls.isEmpty then .error 2 else .ok cli.args

/-- The settings that were typed. -/
def Cli.config (cli : Cli) : Config where
  workerUrls := splitTyped cli.workerUrls
  policy := cli.policy
  pdMode := cli.pdMode
  prefillUrls := splitTyped cli.prefillUrls
  decodeUrls := splitTyped cli.decodeUrls
  logFile := none
  k8sSelector := splitTyped cli.k8sSelector
  k8sPrefillSelector := splitTyped cli.k8sPrefillSelector
  k8sDecodeSelector := splitTyped cli.k8sDecodeSelector
  k8sPort := cli.k8sPort.toNat

theorem getD_valuesOrNone (values : List String) : (valuesOrNone values).getD [] = values := by
  unfold valuesOrNone
  cases values <;> rfl

theorem isEmpty_splitTyped (typed : List String) : (splitTyped typed).isEmpty = typed.isEmpty := by
  cases typed with
  | nil => rfl
  | cons text rest =>
      have hne : delimitedValues text ≠ [] := by
        rw [delimitedValues, ne_eq, List.map_eq_nil_iff]
        exact List.splitOn_ne_nil _ _
      rw [splitTyped, List.flatMap_cons, List.isEmpty_cons, List.isEmpty_eq_false_iff]
      exact List.append_ne_nil_of_left_ne_nil hne _

theorem hasK8sEnabled_config (cli : Cli) : cli.config.hasK8sEnabled =
    (!cli.k8sSelector.isEmpty || !cli.k8sPrefillSelector.isEmpty ||
      !cli.k8sDecodeSelector.isEmpty) := by
  simp only [Config.hasK8sEnabled, Cli.config, isEmpty_splitTyped]

theorem cmdServe_eq_ok_iff {cli : Cli} {args : Args} : cmdServe cli = .ok args ↔
    (cli.config.hasK8sEnabled = true ∨ cli.workerUrls ≠ []) ∧ args = cli.args := by
  unfold cmdServe
  rw [← hasK8sEnabled_config, ← List.isEmpty_eq_false_iff]
  cases cli.config.hasK8sEnabled <;> cases cli.workerUrls.isEmpty <;> simp [eq_comm]

/-- Texts that `str::to_lowercase` leaves as they are. -/
def Lower (name : String) : Prop := ∀ c ∈ name.toList, c.isLower = true ∨ c = '-'

theorem lower_policy (p : Policy) : Lower p.name := by cases p <;> simp [Lower, Policy.name]

theorem lower_pdMode (mode : PdMode) : Lower mode.name := by cases mode <;> simp [Lower, PdMode.name]

theorem lower_logLevel (level : LogLevel) : Lower level.name := by cases level <;> simp [Lower, LogLevel.name]

section Start

variable {toLowercase : String → String} {parseIp : String → Except String Unit}
  {logging : Logging} {cli : Cli}

theorem names_args (hlower : ∀ name, Lower name → toLowercase name = name)
    (hnumbers : ∀ number ∈ cli.args.numbers, number.Fits) :
    Names toLowercase cli.args cli.config where
  policy := Or.inl (hlower _ (lower_policy _))
  numbers := hnumbers
  pdMode := by
    change (cli.pdMode.map PdMode.name).map toLowercase = cli.pdMode.map PdMode.name
    cases cli.pdMode with
    | none => rfl
    | some mode => exact congrArg some (hlower _ (lower_pdMode mode))
  workerUrls := rfl
  prefillUrls := (getD_valuesOrNone _).symm
  decodeUrls := (getD_valuesOrNone _).symm
  logFile := rfl
  k8sSelector := (getD_valuesOrNone _).symm
  k8sPrefillSelector := (getD_valuesOrNone _).symm
  k8sDecodeSelector := (getD_valuesOrNone _).symm
  k8sPort := rfl

theorem fits_of_new {router : Router} (h : Router.new toLowercase args = .ok router) :
    ∀ number ∈ args.numbers, number.Fits := by
  rcases extractNumbers_cases args.numbers with hfits | ⟨number, -, -, hnumbers⟩
  · exact hfits
  · rw [Router.new, hnumbers] at h
    cases h

theorem exists_started_iff (config : Config) :
    (∃ served, (started config).mapError ServeError.panicked = .ok served) ↔
      config.hasK8sEnabled = true ∨ config.HasWorkers := by
  rw [← Config.exists_buildState_iff, started]
  cases config.buildState with
  | error panic => exact iff_of_false (fun ⟨_, h⟩ => by cases h) fun ⟨_, h⟩ => by cases h
  | ok app => exact iff_of_true ⟨_, rfl⟩ ⟨_, rfl⟩

end Start

theorem toLower_of_lower {name : String} (h : Lower name) : name.toLower = name := by
  have hchar : ∀ c ∈ name.toList, c.toLower = c := by
    intro c hmem
    rcases h c hmem with hlower | rfl
    · have hlow : 'a'.val ≤ c.val := of_decide_eq_true (Bool.and_eq_true_iff.mp hlower).1
      have hcapital : 'Z'.val < 'a'.val := by decide
      exact dif_neg fun hupper => UInt32.not_lt.mpr (UInt32.le_trans hlow hupper.2) hcapital
    · rfl
  rw [← String.toList_inj]
  change (name.map Char.toLower).toList = name.toList
  rw [String.toList_map]
  exact (List.map_congr_left hchar).trans (List.map_id _)

/-- Lists for the roles and no worker URLs. -/
def roleCli : Cli where
  host := "0.0.0.0"
  port := 30000
  workerUrls := []
  requestTimeoutSecs := 300
  logLevel := .info
  policy := .leastLoaded
  pdMode := some .vllm
  prefillUrls := ["http://a:8000"]
  decodeUrls := ["http://b:8000,http://c:8000"]
  k8sSelector := []
  k8sPort := 8000
  k8sCheckInterval := 60
  k8sPrefillSelector := []
  k8sDecodeSelector := []

/-- With worker URLs in addition, which the mode does not use. -/
def servedCli : Cli := { roleCli with workerUrls := ["http://d:8000"] }

def quietLogging : Logging := ⟨fun _ => .ok (), .ok ()⟩

end Bindings

end TokenDog
