import TokenDog.Server
import Mathlib.Data.List.Basic

/-!
# Pods and the tracked set

A Kubernetes pod, the `PodInfo` the router extracts from it, and the set of tracked pods. Two
`PodInfo` values are equal for the set when their name and uid are, whatever their IP, role and
status. The iteration order of a hash set is a parameter of every operation that depends on it.
-/

namespace TokenDog

structure ObjectMeta where
  name : Option String
  uid : Option String
  labels : Option (List (String × String))
  deletionTimestamp : Option String

structure PodCondition where
  type : String
  status : String

structure PodStatus where
  podIp : Option String
  phase : Option String
  conditions : Option (List PodCondition)

structure Pod where
  metadata : ObjectMeta
  status : Option PodStatus

/-- The fields of `ServiceDiscoveryConfig` that decide which pods are workers and where. -/
structure ServiceDiscoveryConfig where
  selector : List (String × String)
  port : Nat
  pdMode : Bool
  prefillSelector : List (String × String)
  decodeSelector : List (String × String)

inductive PodType where
  | prefill
  | decode
  | regular
  deriving DecidableEq, Repr

structure PodInfo where
  name : String
  uid : String
  ip : String
  status : String
  isReady : Bool
  podType : Option PodType
  deriving DecidableEq, Repr

namespace PodInfo

/-- The identity of a pod: the uid changes on every restart. -/
def key (pod : PodInfo) : String × String := (pod.name, pod.uid)

/-- Whether a pod's labels match all entries of the selector. An empty selector matches nothing. -/
def matchesSelector (pod : Pod) (selector : List (String × String)) : Bool :=
  if selector.isEmpty then false
  else match pod.metadata.labels with
    | some labels => selector.all fun (k, v) => labels.lookup k == some v
    | none => false

def shouldInclude (pod : Pod) (config : ServiceDiscoveryConfig) : Bool :=
  if config.pdMode then
    if config.prefillSelector.isEmpty && config.decodeSelector.isEmpty then false
    else matchesSelector pod config.prefillSelector || matchesSelector pod config.decodeSelector
  else if config.selector.isEmpty then false
  else matchesSelector pod config.selector

def fromPod (pod : Pod) (config : Option ServiceDiscoveryConfig) : Option PodInfo := do
  let name ← pod.metadata.name
  let uid ← pod.metadata.uid
  let status ← pod.status
  let ip ← status.podIp
  let isReady := match status.conditions with
    | some conditions => conditions.any fun condition =>
        condition.type == "Ready" && condition.status == "True"
    | none => false
  let podType := config.map fun cfg =>
    if cfg.pdMode then
      if matchesSelector pod cfg.prefillSelector then .prefill
      else if matchesSelector pod cfg.decodeSelector then .decode
      else .regular
    else .regular
  return { name, uid, ip, status := status.phase.getD "Unknown", isReady, podType }

def isHealthy (pod : PodInfo) : Bool := pod.isReady && pod.status == "Running"

def workerUrl (pod : PodInfo) (port : Nat) : String := pod.ip ++ ":" ++ toString port

end PodInfo

/-- The order in which a hash set is traversed: some rearrangement of its elements. -/
structure HashOrder where
  enumerate : List PodInfo → List PodInfo
  perm : ∀ pods, (enumerate pods).Perm pods

/-- A set of pods, at most one for each identity. -/
structure PodSet where
  pods : List PodInfo
  nodup : (pods.map PodInfo.key).Nodup

namespace PodSet

def empty : PodSet := ⟨[], List.nodup_nil⟩

instance : Membership PodInfo PodSet := ⟨fun tracked pod => pod ∈ tracked.pods⟩

theorem mem_def {tracked : PodSet} {pod : PodInfo} : pod ∈ tracked ↔ pod ∈ tracked.pods := Iff.rfl

def contains (tracked : PodSet) (pod : PodInfo) : Bool :=
  tracked.pods.any fun entry => entry.key == pod.key

/-- Add the pod unless an entry with its identity is there; the old entry stays as it is. -/
def insert (tracked : PodSet) (pod : PodInfo) : PodSet :=
  if h : tracked.contains pod then tracked
  else
    ⟨tracked.pods ++ [pod], by
      rw [List.map_append, List.nodup_append]
      refine ⟨tracked.nodup, List.nodup_singleton _, fun key hkey other hother heq => ?_⟩
      rw [List.map_singleton, List.mem_singleton] at hother
      obtain ⟨entry, hentry, rfl⟩ := List.mem_map.mp hkey
      exact h (List.any_eq_true.mpr ⟨entry, hentry, by simp [heq, hother]⟩)⟩

def remove (tracked : PodSet) (pod : PodInfo) : PodSet :=
  ⟨tracked.pods.filter fun entry => entry.key != pod.key,
    tracked.nodup.sublist (List.filter_sublist.map PodInfo.key)⟩

/-- `self.difference(other)`, in the order of `self`. -/
def difference (tracked other : PodSet) : List PodInfo :=
  tracked.pods.filter fun entry => !other.contains entry

theorem contains_iff {tracked : PodSet} {pod : PodInfo} :
    tracked.contains pod = true ↔ ∃ entry ∈ tracked, entry.key = pod.key := by
  simp [contains, mem_def]

theorem mem_insert_of_not_contains {tracked : PodSet} {pod entry : PodInfo}
    (hnew : tracked.contains pod = false) : entry ∈ tracked.insert pod ↔ entry ∈ tracked ∨ entry = pod := by
  simp [insert, hnew, mem_def]

theorem insert_of_contains {tracked : PodSet} {pod : PodInfo}
    (hold : tracked.contains pod = true) : tracked.insert pod = tracked := by
  simp [insert, hold]

theorem forall_mem_insert {tracked : PodSet} {pod : PodInfo} {P : PodInfo → Prop}
    (h : ∀ entry ∈ tracked, P entry) (hpod : P pod) : ∀ entry ∈ tracked.insert pod, P entry := by
  intro entry hentry
  cases hnew : tracked.contains pod with
  | true =>
      rw [insert_of_contains hnew] at hentry
      exact h entry hentry
  | false =>
      rcases (mem_insert_of_not_contains hnew).mp hentry with hentry | rfl
      · exact h entry hentry
      · exact hpod

theorem mem_remove {tracked : PodSet} {pod entry : PodInfo} :
    entry ∈ tracked.remove pod ↔ entry ∈ tracked ∧ entry.key ≠ pod.key := by
  simp [remove, mem_def]

theorem contains_eq_false_iff {tracked : PodSet} {pod : PodInfo} :
    tracked.contains pod = false ↔ ∀ entry ∈ tracked, entry.key ≠ pod.key := by
  rw [Bool.eq_false_iff, Ne, contains_iff]
  push Not
  rfl

theorem contains_congr {tracked : PodSet} {pod other : PodInfo} (hkey : pod.key = other.key) :
    tracked.contains pod = tracked.contains other := by
  simp only [contains, hkey]

theorem contains_insert {tracked : PodSet} {pod other : PodInfo} :
    (tracked.insert pod).contains other = (tracked.contains other || pod.key == other.key) := by
  by_cases hold : tracked.contains pod = true
  · rw [insert_of_contains hold, Bool.eq_iff_iff, Bool.or_eq_true, beq_iff_eq]
    refine ⟨Or.inl, ?_⟩
    rintro (h | hkey)
    · exact h
    · rwa [← contains_congr hkey]
  · rw [insert, dif_neg hold]
    simp [contains]

theorem contains_remove {tracked : PodSet} {pod other : PodInfo} :
    (tracked.remove pod).contains other = (tracked.contains other && pod.key != other.key) := by
  rw [Bool.eq_iff_iff, Bool.and_eq_true, contains_iff, contains_iff, bne_iff_ne]
  constructor
  · rintro ⟨entry, hentry, hkey⟩
    rw [mem_remove] at hentry
    exact ⟨⟨entry, hentry.1, hkey⟩, fun h => hentry.2 (hkey.trans h.symm)⟩
  · rintro ⟨⟨entry, hentry, hkey⟩, hne⟩
    exact ⟨entry, mem_remove.mpr ⟨hentry, fun h => hne (h.symm.trans hkey)⟩, hkey⟩

theorem remove_congr {tracked : PodSet} {pod other : PodInfo} (hkey : pod.key = other.key) :
    tracked.remove pod = tracked.remove other := by
  simp only [remove, hkey]

theorem eq_of_key_eq {tracked : PodSet} {pod other : PodInfo} (hpod : pod ∈ tracked)
    (hother : other ∈ tracked) (hkey : pod.key = other.key) : pod = other :=
  List.inj_on_of_nodup_map tracked.nodup hpod hother hkey

theorem mem_difference {tracked other : PodSet} {entry : PodInfo} :
    entry ∈ tracked.difference other ↔ entry ∈ tracked ∧ other.contains entry = false := by
  simp [difference, mem_def]

end PodSet

/-- The pods of a list that match the selectors and are not being deleted, the first one of each
identity. -/
def buildLivePodSet (podList : List Pod) (config : ServiceDiscoveryConfig) : PodSet :=
  podList.foldl (fun live pod =>
    if !PodInfo.shouldInclude pod config then live
    else if pod.metadata.deletionTimestamp.isSome then live
    else match PodInfo.fromPod pod (some config) with
      | some info => live.insert info
      | none => live) PodSet.empty

/-- `(stale, missing)`: tracked but not live, and live and healthy but not tracked. -/
def computeReconciliationDiff (order : HashOrder) (tracked live : PodSet) :
    List PodInfo × List PodInfo :=
  (order.enumerate (tracked.difference live),
    order.enumerate ((live.difference tracked).filter PodInfo.isHealthy))

theorem mem_stale {order : HashOrder} {tracked live : PodSet} {pod : PodInfo} :
    pod ∈ (computeReconciliationDiff order tracked live).1 ↔
      pod ∈ tracked ∧ live.contains pod = false := by
  rw [computeReconciliationDiff, (order.perm _).mem_iff, PodSet.mem_difference]

theorem mem_missing {order : HashOrder} {tracked live : PodSet} {pod : PodInfo} :
    pod ∈ (computeReconciliationDiff order tracked live).2 ↔
      pod ∈ live ∧ tracked.contains pod = false ∧ pod.isHealthy = true := by
  rw [computeReconciliationDiff, (order.perm _).mem_iff, List.mem_filter, PodSet.mem_difference,
    and_assoc]

end TokenDog
