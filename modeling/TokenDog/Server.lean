import TokenDog.Worker
import TokenDog.Policies.Balancer

/-!
# Application state

`AppState` holds the workers and the policies of the three pools, either fixed at start-up (static
mode) or discovered at run time (Kubernetes mode). Every selection runs the same body on one pool
and its policy; `next_eq` and `finish_eq` say so once, and later proofs use nothing else about the
operations. Shared pools and atomics are fields that the operations return updated.
-/

namespace TokenDog

inductive PdMode where
  | vllm
  | sglang
  deriving DecidableEq, Repr

inductive Pool where
  | regular
  | prefill
  | decode
  deriving DecidableEq, Repr

structure AppState where
  workers : List Worker
  balancer : Balancer
  pdMode : Option PdMode
  prefillWorkers : List Worker
  decodeWorkers : List Worker
  prefillPolicy : Option Balancer
  decodePolicy : Option Balancer
  k8sMode : Bool
  k8sWorkersPool : Option (List Worker)
  k8sPrefillPool : Option (List Worker)
  k8sDecodePool : Option (List Worker)
  policyType : Option Policy
  k8sBalancer : Option Balancer
  k8sPrefillBalancer : Option Balancer
  k8sDecodeBalancer : Option Balancer

namespace AppState

def new (workers : List Worker) (balancer : Balancer) : Except Panic AppState :=
  if workers.isEmpty then .error .assertion
  else .ok
    { workers, balancer
      pdMode := none
      prefillWorkers := [], decodeWorkers := []
      prefillPolicy := none, decodePolicy := none
      k8sMode := false
      k8sWorkersPool := none, k8sPrefillPool := none, k8sDecodePool := none
      policyType := none
      k8sBalancer := none, k8sPrefillBalancer := none, k8sDecodeBalancer := none }

/-- The fallback workers are the decode workers, behind a round robin of their own. -/
def newPd (pdMode : PdMode) (prefillWorkers decodeWorkers : List Worker)
    (prefillPolicy decodePolicy : Balancer) : Except Panic AppState :=
  if prefillWorkers.isEmpty then .error .assertion
  else if decodeWorkers.isEmpty then .error .assertion
  else .ok
    { workers := decodeWorkers
      balancer := .roundRobin RoundRobin.new
      pdMode := some pdMode
      prefillWorkers, decodeWorkers
      prefillPolicy := some prefillPolicy, decodePolicy := some decodePolicy
      k8sMode := false
      k8sWorkersPool := none, k8sPrefillPool := none, k8sDecodePool := none
      policyType := none
      k8sBalancer := none, k8sPrefillBalancer := none, k8sDecodeBalancer := none }

/-- `AppState::make_policy`: the binary's `make_policy` with at least one counter. -/
def makePolicy (policy : Policy) (n : Nat) : Except Panic Balancer :=
  Balancer.makePolicy policy (max n 1)

/-- The number of counters a Kubernetes policy starts with over a pool of `n` workers. -/
def capacity (n : Nat) : Nat := max n 256

def newK8s (policyType : Policy) (workersPool : List Worker) : Except Panic AppState := do
  let n := workersPool.length
  let fallback ← makePolicy policyType (max n 1)
  let balancer ← makePolicy policyType (capacity n)
  .ok
    { workers := []
      balancer := fallback
      pdMode := none
      prefillWorkers := [], decodeWorkers := []
      prefillPolicy := none, decodePolicy := none
      k8sMode := true
      k8sWorkersPool := some workersPool, k8sPrefillPool := none, k8sDecodePool := none
      policyType := some policyType
      k8sBalancer := some balancer
      k8sPrefillBalancer := none, k8sDecodeBalancer := none }

def newK8sPd (pdMode : PdMode) (policyType : Policy) (prefillPool decodePool : List Worker) :
    Except Panic AppState := do
  let prefillBalancer ← makePolicy policyType (capacity prefillPool.length)
  let decodeBalancer ← makePolicy policyType (capacity decodePool.length)
  .ok
    { workers := []
      balancer := .roundRobin RoundRobin.new
      pdMode := some pdMode
      prefillWorkers := [], decodeWorkers := []
      prefillPolicy := none, decodePolicy := none
      k8sMode := true
      k8sWorkersPool := none
      k8sPrefillPool := some prefillPool, k8sDecodePool := some decodePool
      policyType := some policyType
      k8sBalancer := none
      k8sPrefillBalancer := some prefillBalancer, k8sDecodeBalancer := some decodeBalancer }

/-- The body shared by the selection functions: filter the pool, let the policy choose among the
healthy URLs, translate the choice back to a pool position and notify the policy of that position. -/
def selectFrom (workers : List Worker) (policy : Balancer) (ctx : RequestContext)
    (ambient : Ambient) : Except Panic (Option (Nat × String) × Balancer) :=
  let healthy := healthyWorkerUrls workers
  if healthy.isEmpty then .ok (none, policy)
  else do
    let urls := healthy.map Prod.snd
    let (filteredIdx, policy) ← policy.selectWithContext urls ctx ambient
    match healthy[filteredIdx]? with
    | none => .error .indexOutOfBounds
    | some (originalIdx, workerUrl) => do
        let policy ← policy.onRequestStart originalIdx
        return (some (originalIdx, workerUrl), policy)

def nextPrefillWorker (app : AppState) (ctx : RequestContext) (ambient : Ambient) :
    Except Panic (Option (Nat × String) × AppState) :=
  if app.k8sMode then
    match app.k8sPrefillPool, app.k8sPrefillBalancer with
    | some workers, some policy => do
        let (result, policy) ← selectFrom workers policy ctx ambient
        return (result, { app with k8sPrefillBalancer := some policy })
    | _, _ => .ok (none, app)
  else
    match app.prefillPolicy with
    | some policy => do
        let (result, policy) ← selectFrom app.prefillWorkers policy ctx ambient
        return (result, { app with prefillPolicy := some policy })
    | none => .ok (none, app)

def nextDecodeWorker (app : AppState) (ctx : RequestContext) (ambient : Ambient) :
    Except Panic (Option (Nat × String) × AppState) :=
  if app.k8sMode then
    match app.k8sDecodePool, app.k8sDecodeBalancer with
    | some workers, some policy => do
        let (result, policy) ← selectFrom workers policy ctx ambient
        return (result, { app with k8sDecodeBalancer := some policy })
    | _, _ => .ok (none, app)
  else
    match app.decodePolicy with
    | some policy => do
        let (result, policy) ← selectFrom app.decodeWorkers policy ctx ambient
        return (result, { app with decodePolicy := some policy })
    | none => .ok (none, app)

def nextWorkerWithContext (app : AppState) (ctx : RequestContext) (ambient : Ambient) :
    Except Panic (Option (Nat × String) × AppState) :=
  if app.k8sMode then
    match app.k8sWorkersPool, app.k8sBalancer with
    | some workers, some balancer => do
        let (result, balancer) ← selectFrom workers balancer ctx ambient
        return (result, { app with k8sBalancer := some balancer })
    | _, _ => .ok (none, app)
  else do
    let (result, balancer) ← selectFrom app.workers app.balancer ctx ambient
    return (result, { app with balancer })

def finishPrefillRequest (app : AppState) (workerIdx : Nat) : Except Panic AppState :=
  if app.k8sMode then
    match app.k8sPrefillBalancer with
    | some policy => do
        return { app with k8sPrefillBalancer := some (← policy.onRequestEnd workerIdx) }
    | none => .ok app
  else
    match app.prefillPolicy with
    | some policy => do return { app with prefillPolicy := some (← policy.onRequestEnd workerIdx) }
    | none => .ok app

def finishDecodeRequest (app : AppState) (workerIdx : Nat) : Except Panic AppState :=
  if app.k8sMode then
    match app.k8sDecodeBalancer with
    | some policy => do
        return { app with k8sDecodeBalancer := some (← policy.onRequestEnd workerIdx) }
    | none => .ok app
  else
    match app.decodePolicy with
    | some policy => do return { app with decodePolicy := some (← policy.onRequestEnd workerIdx) }
    | none => .ok app

def finishRequest (app : AppState) (workerIdx : Nat) : Except Panic AppState :=
  if app.k8sMode then
    match app.k8sBalancer with
    | some policy => do return { app with k8sBalancer := some (← policy.onRequestEnd workerIdx) }
    | none => .ok app
  else do
    return { app with balancer := ← app.balancer.onRequestEnd workerIdx }

def recordPrefillRequest (app : AppState) (ctx : RequestContext) (workerIdx : Nat)
    (ambient : Ambient) : AppState :=
  if app.k8sMode then
    { app with k8sPrefillBalancer := app.k8sPrefillBalancer.map (·.record ctx workerIdx ambient) }
  else { app with prefillPolicy := app.prefillPolicy.map (·.record ctx workerIdx ambient) }

def recordDecodeRequest (app : AppState) (ctx : RequestContext) (workerIdx : Nat)
    (ambient : Ambient) : AppState :=
  if app.k8sMode then
    { app with k8sDecodeBalancer := app.k8sDecodeBalancer.map (·.record ctx workerIdx ambient) }
  else { app with decodePolicy := app.decodePolicy.map (·.record ctx workerIdx ambient) }

def recordRequest (app : AppState) (ctx : RequestContext) (workerIdx : Nat) (ambient : Ambient) :
    AppState :=
  if app.k8sMode then
    { app with k8sBalancer := app.k8sBalancer.map (·.record ctx workerIdx ambient) }
  else { app with balancer := app.balancer.record ctx workerIdx ambient }

def next (app : AppState) : Pool → RequestContext → Ambient →
    Except Panic (Option (Nat × String) × AppState)
  | .regular => app.nextWorkerWithContext
  | .prefill => app.nextPrefillWorker
  | .decode => app.nextDecodeWorker

def finish (app : AppState) : Pool → Nat → Except Panic AppState
  | .regular => app.finishRequest
  | .prefill => app.finishPrefillRequest
  | .decode => app.finishDecodeRequest

def record (app : AppState) : Pool → RequestContext → Nat → Ambient → AppState
  | .regular => app.recordRequest
  | .prefill => app.recordPrefillRequest
  | .decode => app.recordDecodeRequest

def workersOf (app : AppState) : Pool → Option (List Worker)
  | .regular => if app.k8sMode then app.k8sWorkersPool else some app.workers
  | .prefill => if app.k8sMode then app.k8sPrefillPool else some app.prefillWorkers
  | .decode => if app.k8sMode then app.k8sDecodePool else some app.decodeWorkers

def balancerOf (app : AppState) : Pool → Option Balancer
  | .regular => if app.k8sMode then app.k8sBalancer else some app.balancer
  | .prefill => if app.k8sMode then app.k8sPrefillBalancer else app.prefillPolicy
  | .decode => if app.k8sMode then app.k8sDecodeBalancer else app.decodePolicy

/-- Health checks write the flags of the shared workers. In PD mode the fallback workers are the
decode workers themselves. -/
def setHealth (app : AppState) (flags : Pool → Nat → Bool) : AppState :=
  { app with
    workers := setFlags (flags (if app.pdMode.isSome then .decode else .regular)) app.workers
    prefillWorkers := setFlags (flags .prefill) app.prefillWorkers
    decodeWorkers := setFlags (flags .decode) app.decodeWorkers
    k8sWorkersPool := app.k8sWorkersPool.map (setFlags (flags .regular))
    k8sPrefillPool := app.k8sPrefillPool.map (setFlags (flags .prefill))
    k8sDecodePool := app.k8sDecodePool.map (setFlags (flags .decode)) }

def setBalancer (app : AppState) (pool : Pool) (balancer : Balancer) : AppState :=
  match pool with
  | .regular =>
      if app.k8sMode then { app with k8sBalancer := some balancer } else { app with balancer }
  | .prefill =>
      if app.k8sMode then { app with k8sPrefillBalancer := some balancer }
      else { app with prefillPolicy := some balancer }
  | .decode =>
      if app.k8sMode then { app with k8sDecodeBalancer := some balancer }
      else { app with decodePolicy := some balancer }

def countersOf (app : AppState) (pool : Pool) : Option Counters :=
  (app.balancerOf pool).bind Balancer.active?

@[simp]
theorem k8sMode_setBalancer (app : AppState) (pool : Pool) (balancer : Balancer) :
    (app.setBalancer pool balancer).k8sMode = app.k8sMode := by
  cases pool <;> cases h : app.k8sMode <;> simp [setBalancer, h]

@[simp]
theorem pdMode_setBalancer (app : AppState) (pool : Pool) (balancer : Balancer) :
    (app.setBalancer pool balancer).pdMode = app.pdMode := by
  cases pool <;> cases h : app.k8sMode <;> simp [setBalancer, h]

@[simp]
theorem policyType_setBalancer (app : AppState) (pool : Pool) (balancer : Balancer) :
    (app.setBalancer pool balancer).policyType = app.policyType := by
  cases pool <;> cases h : app.k8sMode <;> simp [setBalancer, h]

@[simp]
theorem balancerOf_setBalancer_self (app : AppState) (pool : Pool) (balancer : Balancer) :
    (app.setBalancer pool balancer).balancerOf pool = some balancer := by
  cases pool <;> cases h : app.k8sMode <;> simp [setBalancer, balancerOf, h]

theorem balancerOf_setBalancer_of_ne (app : AppState) {pool other : Pool} (balancer : Balancer)
    (hne : other ≠ pool) :
    (app.setBalancer pool balancer).balancerOf other = app.balancerOf other := by
  cases pool <;> cases other <;> cases h : app.k8sMode <;>
    first
      | exact absurd rfl hne
      | simp [setBalancer, balancerOf, h]

@[simp]
theorem workersOf_setBalancer (app : AppState) (pool other : Pool) (balancer : Balancer) :
    (app.setBalancer pool balancer).workersOf other = app.workersOf other := by
  cases pool <;> cases other <;> cases h : app.k8sMode <;> simp [setBalancer, workersOf, h]

theorem setBalancer_self {app : AppState} {pool : Pool} {balancer : Balancer}
    (h : app.balancerOf pool = some balancer) : app.setBalancer pool balancer = app := by
  obtain ⟨_, _, _, _, _, _, _, k8sMode, _, _, _, _, _, _, _⟩ := app
  cases k8sMode <;> cases pool <;> cases h <;> rfl

/-- Every selection runs the shared body on its pool and stores the policy back. -/
theorem next_eq (app : AppState) (pool : Pool) (ctx : RequestContext) (ambient : Ambient) :
    app.next pool ctx ambient =
      match app.workersOf pool, app.balancerOf pool with
      | some workers, some balancer =>
          (selectFrom workers balancer ctx ambient).map fun selected =>
            (selected.1, app.setBalancer pool selected.2)
      | _, _ => .ok (none, app) := by
  obtain ⟨_, _, _, _, _, prefillPolicy, decodePolicy, k8sMode, k8sWorkersPool, k8sPrefillPool,
    k8sDecodePool, _, k8sBalancer, k8sPrefillBalancer, k8sDecodeBalancer⟩ := app
  cases k8sMode <;> cases pool
  case false.regular => rfl
  case false.prefill => cases prefillPolicy <;> rfl
  case false.decode => cases decodePolicy <;> rfl
  case true.regular => cases k8sWorkersPool <;> cases k8sBalancer <;> rfl
  case true.prefill => cases k8sPrefillPool <;> cases k8sPrefillBalancer <;> rfl
  case true.decode => cases k8sDecodePool <;> cases k8sDecodeBalancer <;> rfl

theorem finish_eq (app : AppState) (pool : Pool) (workerIdx : Nat) :
    app.finish pool workerIdx =
      match app.balancerOf pool with
      | some balancer => (balancer.onRequestEnd workerIdx).map (app.setBalancer pool)
      | none => .ok app := by
  obtain ⟨_, balancer, _, _, _, prefillPolicy, decodePolicy, k8sMode, _, _, _, _, k8sBalancer,
    k8sPrefillBalancer, k8sDecodeBalancer⟩ := app
  cases k8sMode <;> cases pool
  case false.regular => rfl
  case false.prefill => cases prefillPolicy <;> rfl
  case false.decode => cases decodePolicy <;> rfl
  case true.regular => cases k8sBalancer <;> rfl
  case true.prefill => cases k8sPrefillBalancer <;> rfl
  case true.decode => cases k8sDecodeBalancer <;> rfl

theorem record_eq (app : AppState) (pool : Pool) (ctx : RequestContext) (workerIdx : Nat)
    (ambient : Ambient) :
    app.record pool ctx workerIdx ambient =
      match app.balancerOf pool with
      | some balancer => app.setBalancer pool (balancer.record ctx workerIdx ambient)
      | none => app := by
  obtain ⟨_, balancer, _, _, _, prefillPolicy, decodePolicy, k8sMode, _, _, _, _, k8sBalancer,
    k8sPrefillBalancer, k8sDecodeBalancer⟩ := app
  cases k8sMode <;> cases pool
  case false.regular => rfl
  case false.prefill => cases prefillPolicy <;> rfl
  case false.decode => cases decodePolicy <;> rfl
  case true.regular => cases k8sBalancer <;> rfl
  case true.prefill => cases k8sPrefillBalancer <;> rfl
  case true.decode => cases k8sDecodeBalancer <;> rfl

@[simp]
theorem balancerOf_setHealth (app : AppState) (flags : Pool → Nat → Bool) (pool : Pool) :
    (app.setHealth flags).balancerOf pool = app.balancerOf pool := by
  cases pool <;> rfl

theorem urls_setHealth (app : AppState) (flags : Pool → Nat → Bool) (pool : Pool) :
    ((app.setHealth flags).workersOf pool).map (List.map Worker.url) =
      (app.workersOf pool).map (List.map Worker.url) := by
  cases pool <;> cases hmode : app.k8sMode <;>
    simp [workersOf, setHealth, hmode, Function.comp_def]

end AppState

end TokenDog
