import TokenDog.Discovery.Pods
import TokenDog.Discovery.Pools
import Mathlib.Data.Set.Image

/-!
# The event handlers and reconciliation

`handle_pod_event`, `handle_pod_deletion` and `reconcile_pods`, each as a sequence of the sections
it runs under one lock: a section updates either the tracked set or one pool.
-/

namespace TokenDog

/-- What the discovery task is started with: its configuration and which PD pools it was given. -/
structure DiscoveryEnv where
  config : ServiceDiscoveryConfig
  prefillPool : Bool
  decodePool : Bool

/-- The shared state of service discovery. -/
structure Discovery where
  tracked : PodSet
  pools : Pool → List Worker

namespace DiscoveryEnv

/-- Select the pool for a pod based on its type and PD mode. -/
def selectPool (env : DiscoveryEnv) (pod : PodInfo) : Pool :=
  if env.config.pdMode then
    match pod.podType with
    | some .prefill => if env.prefillPool then .prefill else .regular
    | some .decode => if env.decodePool then .decode else .regular
    | _ => .regular
  else .regular

def workerUrl (env : DiscoveryEnv) (pod : PodInfo) : String := pod.workerUrl env.config.port

end DiscoveryEnv

namespace Discovery

def empty : Discovery := ⟨PodSet.empty, fun _ => []⟩

def addUrl (s : Discovery) (pool : Pool) (url : String) : Discovery :=
  { s with pools := Function.update s.pools pool (addWorkerToPool (s.pools pool) url) }

def removeUrl (s : Discovery) (pool : Pool) (url : String) : Discovery :=
  { s with pools := Function.update s.pools pool (removeWorkerFromPool (s.pools pool) url) }

def untrack (s : Discovery) (pod : PodInfo) : Discovery :=
  { s with tracked := s.tracked.remove pod }

/-- A tracked pod of the same name with another uid. -/
def restarted (order : HashOrder) (tracked : PodSet) (pod : PodInfo) : Option PodInfo :=
  (order.enumerate tracked.pods).find? fun entry => entry.name == pod.name && entry.uid != pod.uid

/-- The tracker section of `handle_pod_event`: the new set, whether to add the worker, and the pod it
replaces. -/
def trackEvent (order : HashOrder) (tracked : PodSet) (pod : PodInfo) :
    PodSet × Bool × Option PodInfo :=
  if tracked.contains pod then (tracked, false, none)
  else
    let old := restarted order tracked pod
    let tracker := match old with
      | some entry => tracked.remove entry
      | none => tracked
    (tracker.insert pod, true, old)

def handlePodEvent (env : DiscoveryEnv) (order : HashOrder) (pod : PodInfo) (s : Discovery) :
    Discovery :=
  if pod.isHealthy then
    let (tracked, shouldAdd, old) := trackEvent order s.tracked pod
    let s := { s with tracked }
    -- the old URL is removed from the pool of the new pod
    let s := match old with
      | some entry => s.removeUrl (env.selectPool pod) (env.workerUrl entry)
      | none => s
    if shouldAdd then s.addUrl (env.selectPool pod) (env.workerUrl pod) else s
  else s

def handlePodDeletion (env : DiscoveryEnv) (pod : PodInfo) (s : Discovery) : Discovery :=
  let wasTracked := s.tracked.contains pod
  let s := s.untrack pod
  if wasTracked then s.removeUrl (env.selectPool pod) (env.workerUrl pod) else s

/-- One turn of the loop over stale pods, which takes role and IP from the tracked entry. -/
def removeStale (env : DiscoveryEnv) (s : Discovery) (pod : PodInfo) : Discovery :=
  (s.removeUrl (env.selectPool pod) (env.workerUrl pod)).untrack pod

/-- A reconciliation against the live pods. -/
def reconcileWith (env : DiscoveryEnv) (order : HashOrder) (live : PodSet) (s : Discovery) :
    Discovery :=
  let (stale, missing) := computeReconciliationDiff order s.tracked live
  if stale.isEmpty && missing.isEmpty then s
  else
    let s := stale.foldl (removeStale env) s
    missing.foldl (fun s pod => handlePodEvent env order pod s) s

/-- `listed` is what the API server answered, if it did. -/
def reconcilePods (env : DiscoveryEnv) (order : HashOrder) (listed : Option (List Pod))
    (s : Discovery) : Discovery :=
  match listed with
  | none => s
  | some podList => reconcileWith env order (buildLivePodSet podList env.config) s

/-- The URLs in the pools, each with its pool. -/
def urls (s : Discovery) : Set (Pool × String) :=
  {entry | entry.2 ∈ (s.pools entry.1).map Worker.url}

@[simp]
theorem tracked_addUrl (s : Discovery) (pool : Pool) (url : String) :
    (s.addUrl pool url).tracked = s.tracked := rfl

@[simp]
theorem tracked_removeUrl (s : Discovery) (pool : Pool) (url : String) :
    (s.removeUrl pool url).tracked = s.tracked := rfl

@[simp]
theorem tracked_untrack (s : Discovery) (pod : PodInfo) :
    (s.untrack pod).tracked = s.tracked.remove pod := rfl

@[simp]
theorem urls_untrack (s : Discovery) (pod : PodInfo) : (s.untrack pod).urls = s.urls := rfl

@[simp]
theorem urls_with_tracked (s : Discovery) (tracked : PodSet) :
    Discovery.urls { s with tracked } = s.urls := rfl

theorem urls_addUrl (s : Discovery) (pool : Pool) (url : String) :
    (s.addUrl pool url).urls = insert (pool, url) s.urls := by
  ext ⟨other, otherUrl⟩
  simp only [urls, addUrl, Set.mem_ofPred_eq, Set.mem_insert_iff, Prod.mk.injEq]
  by_cases hother : other = pool
  · subst hother
    simp only [Function.update_self, mem_urls_addWorkerToPool, true_and]
    exact or_comm
  · simp [hother]

theorem urls_removeUrl (s : Discovery) (pool : Pool) (url : String) :
    (s.removeUrl pool url).urls = s.urls \ {(pool, url)} := by
  ext ⟨other, otherUrl⟩
  simp only [urls, removeUrl, Set.mem_ofPred_eq, Set.mem_sdiff, Set.mem_singleton_iff, Prod.mk.injEq]
  by_cases hother : other = pool
  · subst hother
    simp [mem_urls_removeWorkerFromPool]
  · simp [hother]

end Discovery

end TokenDog
