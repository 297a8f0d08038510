import TokenDog.Discovery.Agreement
import TokenDog.Lib.Sections

/-!
# The lock-protected sections of the handlers

Each handler takes the tracker lock and the lock of a pool one after the other, never both. A
section is what it does under one lock. An event and a deletion update the tracker first, the loop
over stale pods updates the pool first.
-/

namespace TokenDog

namespace Discovery

inductive PodSection where
  /-- The tracker section of `handle_pod_event`. -/
  | track (order : HashOrder) (pod : PodInfo)
  /-- The eviction of the pod that `pod` replaces. -/
  | evict (pod old : PodInfo)
  | add (pod : PodInfo)
  /-- The tracker section of `handle_pod_deletion`. -/
  | delete (pod : PodInfo)
  | remove (pod : PodInfo)
  /-- The pool section of the loop over stale pods. -/
  | dropStale (pod : PodInfo)
  /-- The tracker section of the loop over stale pods. -/
  | untrackStale (pod : PodInfo)
  /-- The diff of `reconcile_pods`, against the pods the API server listed. -/
  | diff (order : HashOrder) (podList : List Pod)

namespace PodSection

/-- What a section does to the shared state, and the sections its task runs next. -/
def run (env : DiscoveryEnv) : PodSection → Discovery → Discovery × List PodSection
  | .track order pod, s =>
      if pod.isHealthy then
        let (tracked, shouldAdd, old) := trackEvent order s.tracked pod
        ({ s with tracked },
          (old.map (evict pod)).toList ++ if shouldAdd then [add pod] else [])
      else (s, [])
  | .evict pod old, s => (s.removeUrl (env.selectPool pod) (env.workerUrl old), [])
  | .add pod, s => (s.addUrl (env.selectPool pod) (env.workerUrl pod), [])
  | .delete pod, s =>
      (s.untrack pod, if s.tracked.contains pod then [remove pod] else [])
  | .remove pod, s => (s.removeUrl (env.selectPool pod) (env.workerUrl pod), [])
  | .dropStale pod, s =>
      (s.removeUrl (env.selectPool pod) (env.workerUrl pod), [untrackStale pod])
  | .untrackStale pod, s => (s.untrack pod, [])
  | .diff order podList, s =>
      let live := buildLivePodSet podList env.config
      let (stale, missing) := computeReconciliationDiff order s.tracked live
      (s, stale.map dropStale ++ missing.map (track order))

variable {env : DiscoveryEnv}

theorem completes_of_run {sec : PodSection} {s t : Discovery} (hrun : sec.run env s = (t, [])) :
    Sections.Completes (run env) [sec] s t := by
  refine .run ?_
  rw [hrun]
  exact .nil t

theorem completes_track (order : HashOrder) (pod : PodInfo) (s : Discovery) :
    Sections.Completes (run env) [.track order pod] s (handlePodEvent env order pod s) := by
  refine .run ?_
  by_cases hhealthy : pod.isHealthy = true
  · simp only [run, handlePodEvent, hhealthy, if_true]
    obtain ⟨tracked, shouldAdd, old⟩ := trackEvent order s.tracked pod
    cases old with
    | none =>
        cases shouldAdd with
        | false => exact .nil _
        | true => exact completes_of_run rfl
    | some old =>
        cases shouldAdd with
        | false => exact completes_of_run rfl
        | true => exact (completes_of_run rfl).cons (completes_of_run rfl)
  · simp only [run, handlePodEvent, hhealthy]
    exact .nil s

theorem completes_delete (pod : PodInfo) (s : Discovery) :
    Sections.Completes (run env) [.delete pod] s (handlePodDeletion env pod s) := by
  refine .run ?_
  simp only [run, handlePodDeletion]
  split
  · exact completes_of_run rfl
  · exact .nil _

theorem completes_dropStale (s : Discovery) (pod : PodInfo) :
    Sections.Completes (run env) [.dropStale pod] s (removeStale env s pod) :=
  .run (completes_of_run rfl)

theorem completes_diff (order : HashOrder) (podList : List Pod) (s : Discovery) :
    Sections.Completes (run env) [.diff order podList] s
      (reconcilePods env order (some podList) s) := by
  refine .run ?_
  simp only [run, reconcilePods, reconcileWith]
  obtain ⟨stale, missing⟩ :=
    computeReconciliationDiff order s.tracked (buildLivePodSet podList env.config)
  split
  · -- the early return on an empty diff leaves nothing out
    rename_i hempty
    rw [Bool.and_eq_true, List.isEmpty_iff, List.isEmpty_iff] at hempty
    obtain ⟨rfl, rfl⟩ := hempty
    exact .nil s
  · exact (Sections.Completes.foldl completes_dropStale stale s).append
      (Sections.Completes.foldl (fun s pod => completes_track order pod s) missing _)

end PodSection

end Discovery

end TokenDog
