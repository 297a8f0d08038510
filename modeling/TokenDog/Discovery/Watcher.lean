import TokenDog.Config.Settings
import TokenDog.Discovery.Interleaving
import TokenDog.Discovery.Reconciliation

/-!
# The watcher and where pods come from

The watcher filters the objects of its stream, calls the handler for each and opens the stream again
when it ends. Whatever the sections of the two tasks do, a URL is put in a pool only for a pod that
the API server has reported, of the role of the pool, ready, running and not being deleted.
-/

namespace TokenDog

namespace Discovery

/-- The sections of the handler that the watcher calls for an object of its stream. -/
def watchObject (env : DiscoveryEnv) (order : HashOrder) (pod : Pod) : List PodSection :=
  if PodInfo.shouldInclude pod env.config then
    match PodInfo.fromPod pod (some env.config) with
    | some info =>
        if pod.metadata.deletionTimestamp.isSome then [.delete info] else [.track order info]
    | none => []
  else []

def maxRetryDelay : Nat := 300

/-- The sleeps in seconds after a stream has ended, and the delay for the next failure. -/
def watchAgain (checkInterval retryDelay : Nat) (failed : Bool) : List Nat × Nat :=
  if failed then ([retryDelay, checkInterval], min (retryDelay * 2) maxRetryDelay)
  else ([checkInterval], 1)

/-- The sleeps of the loop over the streams of a run, for each whether it failed. -/
def watchSleeps (checkInterval : Nat) : Nat → List Bool → List (List Nat)
  | _, [] => []
  | retryDelay, failed :: rest =>
      let (sleeps, next) := watchAgain checkInterval retryDelay failed
      sleeps :: watchSleeps checkInterval next rest

/-- The number of failures in a row at the end of a history of streams. -/
def failuresInARow (ended : List Bool) : Nat := (ended.reverse.takeWhile id).length

theorem failuresInARow_concat (ended : List Bool) (failed : Bool) :
    failuresInARow (ended ++ [failed]) = if failed then failuresInARow ended + 1 else 0 := by
  cases failed <;> simp [failuresInARow]

theorem min_double (k : Nat) :
    min (min (2 ^ k) maxRetryDelay * 2) maxRetryDelay = min (2 ^ (k + 1)) maxRetryDelay := by
  rw [Nat.pow_succ]
  omega

/-- A stream that fails after `k` others in a row is opened again after `2 ^ k` seconds, at most five
minutes, and the check interval; one that ends cleanly after the check interval only. -/
theorem watchSleeps_backoff (checkInterval : Nat) (ended : List Bool) (i : Nat) :
    (watchSleeps checkInterval 1 ended)[i]? = ended[i]?.map fun failed =>
      if failed then [min (2 ^ failuresInARow (ended.take i)) maxRetryDelay, checkInterval]
      else [checkInterval] := by
  -- the delay counts the failures in a row of the streams before
  suffices h : ∀ before, (watchSleeps checkInterval
      (min (2 ^ failuresInARow before) maxRetryDelay) ended)[i]? = ended[i]?.map fun failed =>
        if failed then [min (2 ^ failuresInARow (before ++ ended.take i)) maxRetryDelay, checkInterval]
        else [checkInterval] from h []
  induction ended generalizing i with
  | nil => exact fun before => rfl
  | cons failed rest ih =>
      intro before
      cases i with
      | zero =>
          cases failed <;> simp [watchSleeps, watchAgain]
      | succ i =>
          have hnext : (watchAgain checkInterval (min (2 ^ failuresInARow before) maxRetryDelay)
              failed).2 = min (2 ^ failuresInARow (before ++ [failed])) maxRetryDelay := by
            rw [failuresInARow_concat]
            cases failed with
            | false => rfl
            | true => exact min_double _
          simp only [watchSleeps, List.getElem?_cons_succ, hnext, ih]
          rw [List.take_succ_cons, List.append_assoc]
          rfl

inductive PoolWrite where
  | add (pool : Pool) (url : String)
  | remove (pool : Pool) (url : String)

def PoolWrite.perform (pools : Pool → List Worker) : PoolWrite → Pool → List Worker
  | .add pool url => Function.update pools pool (addWorkerToPool (pools pool) url)
  | .remove pool url => Function.update pools pool (removeWorkerFromPool (pools pool) url)

namespace PodSection

/-- The update of a pool that a section is. -/
def write (env : DiscoveryEnv) : PodSection → Option PoolWrite
  | .evict pod old => some (.remove (env.selectPool pod) (env.workerUrl old))
  | .add pod => some (.add (env.selectPool pod) (env.workerUrl pod))
  | .remove pod => some (.remove (env.selectPool pod) (env.workerUrl pod))
  | .dropStale pod => some (.remove (env.selectPool pod) (env.workerUrl pod))
  | .track _ _ | .delete _ | .untrackStale _ | .diff _ _ => none

theorem pools_run (env : DiscoveryEnv) (sec : PodSection) (s : Discovery) :
    (sec.run env s).1.pools = ((sec.write env).map (PoolWrite.perform s.pools)).getD s.pools := by
  cases sec with
  | track order pod =>
      simp only [run]
      split <;> rfl
  | _ => rfl

end PodSection

/-- The information was read off a reported pod that the selectors include. -/
def Included (config : ServiceDiscoveryConfig) (seen : List Pod) (info : PodInfo) : Prop :=
  ∃ pod ∈ seen, PodInfo.shouldInclude pod config = true ∧
    PodInfo.fromPod pod (some config) = some info

/-- In addition, the pod was not being deleted, and it was ready and running. -/
def Admitted (config : ServiceDiscoveryConfig) (seen : List Pod) (info : PodInfo) : Prop :=
  (∃ pod ∈ seen, LiveAs config pod info) ∧ info.isHealthy = true

variable {config : ServiceDiscoveryConfig} {env : DiscoveryEnv} {seen seen' : List Pod}
  {info : PodInfo}

theorem Included.mono (h : Included config seen info) (hsub : seen ⊆ seen') :
    Included config seen' info := by
  obtain ⟨pod, hmem, hinfo⟩ := h
  exact ⟨pod, hsub hmem, hinfo⟩

theorem Admitted.mono (h : Admitted config seen info) (hsub : seen ⊆ seen') :
    Admitted config seen' info := by
  obtain ⟨⟨pod, hmem, hlive⟩, hhealthy⟩ := h
  exact ⟨⟨pod, hsub hmem, hlive⟩, hhealthy⟩

theorem Admitted.included (h : Admitted config seen info) : Included config seen info := by
  obtain ⟨⟨pod, hmem, hincluded, -, hinfo⟩, -⟩ := h
  exact ⟨pod, hmem, hincluded, hinfo⟩

namespace PodSection

/-- The pods of a section were reported, and those that it adds or that were tracked are admitted. -/
def Sourced (config : ServiceDiscoveryConfig) (seen : List Pod) : PodSection → Prop
  | .track _ pod => ∃ object ∈ seen, LiveAs config object pod
  | .evict pod old => Admitted config seen pod ∧ Admitted config seen old
  | .add pod | .dropStale pod | .untrackStale pod => Admitted config seen pod
  | .delete pod | .remove pod => Included config seen pod
  | .diff _ podList => podList ⊆ seen

theorem Sourced.mono {sec : PodSection} (h : sec.Sourced config seen) (hsub : seen ⊆ seen') :
    sec.Sourced config seen' := by
  cases sec with
  | track order pod =>
      obtain ⟨object, hmem, hlive⟩ := h
      exact ⟨object, hsub hmem, hlive⟩
  | evict pod old => exact ⟨h.1.mono hsub, h.2.mono hsub⟩
  | add pod => exact Admitted.mono h hsub
  | dropStale pod => exact Admitted.mono h hsub
  | untrackStale pod => exact Admitted.mono h hsub
  | delete pod => exact Included.mono h hsub
  | remove pod => exact Included.mono h hsub
  | diff order podList => exact List.Subset.trans h hsub

theorem sourced_watchObject (env : DiscoveryEnv) (order : HashOrder) (pod : Pod) :
    ∀ sec ∈ watchObject env order pod, sec.Sourced env.config (pod :: seen) := by
  intro sec hmem
  unfold watchObject at hmem
  split at hmem
  · rename_i hincluded
    split at hmem
    · rename_i info hinfo
      split at hmem
      · obtain rfl := List.mem_singleton.mp hmem
        exact ⟨pod, List.mem_cons_self, hincluded, hinfo⟩
      · rename_i hpresent
        obtain rfl := List.mem_singleton.mp hmem
        exact ⟨pod, List.mem_cons_self, hincluded, Bool.eq_false_iff.mpr hpresent, hinfo⟩
    · exact (List.not_mem_nil hmem).elim
  · exact (List.not_mem_nil hmem).elim

/-- The tracker section of an event does nothing, or tracks a new pod in place of the one that it
replaces, if there is one. -/
theorem run_track (env : DiscoveryEnv) (order : HashOrder) (pod : PodInfo) (s : Discovery) :
    (track order pod).run env s = (s, []) ∨
      pod.isHealthy = true ∧ s.tracked.contains pod = false ∧
        ((track order pod).run env s = ({ s with tracked := s.tracked.insert pod }, [add pod]) ∨
          ∃ old, restarted order s.tracked pod = some old ∧
            (track order pod).run env s =
              ({ s with tracked := (s.tracked.remove old).insert pod }, [evict pod old, add pod])) := by
  by_cases hhealthy : pod.isHealthy = true
  swap
  · left
    rw [run, if_neg hhealthy]
  cases hknown : s.tracked.contains pod with
  | true =>
      left
      simp [run, trackEvent, hhealthy, hknown]
  | false =>
      refine Or.inr ⟨hhealthy, rfl, ?_⟩
      cases hold : restarted order s.tracked pod with
      | none =>
          left
          simp [run, trackEvent, hhealthy, hknown, hold]
      | some old =>
          refine Or.inr ⟨old, rfl, ?_⟩
          simp [run, trackEvent, hhealthy, hknown, hold]

/-- Running a section tracks admitted pods only, and what it leaves to do is sourced again. -/
theorem Sourced.run (env : DiscoveryEnv) {sec : PodSection} (h : sec.Sourced env.config seen)
    {s : Discovery}
    (htracked : ∀ pod ∈ s.tracked, Admitted env.config seen pod) :
    (∀ pod ∈ (sec.run env s).1.tracked, Admitted env.config seen pod) ∧
      ∀ next ∈ (sec.run env s).2, next.Sourced env.config seen := by
  have hremoved : ∀ target, ∀ pod ∈ s.tracked.remove target, Admitted env.config seen pod :=
    fun target pod hpod => htracked pod (PodSet.mem_remove.mp hpod).1
  cases sec with
  | track order pod =>
      rcases run_track env order pod s with
        hrun | ⟨hhealthy, -, hrun | ⟨old, hold, hrun⟩⟩ <;> rw [hrun]
      · exact ⟨htracked, fun _ hnext => (List.not_mem_nil hnext).elim⟩
      · have hadmitted : Admitted env.config seen pod := ⟨h, hhealthy⟩
        exact ⟨PodSet.forall_mem_insert htracked hadmitted, List.forall_mem_singleton.mpr hadmitted⟩
      · have hadmitted : Admitted env.config seen pod := ⟨h, hhealthy⟩
        refine ⟨PodSet.forall_mem_insert (hremoved old) hadmitted, fun next hnext => ?_⟩
        rcases List.mem_cons.mp hnext with rfl | hnext
        · exact ⟨hadmitted, htracked old (restarted_spec hold).1⟩
        · obtain rfl := List.mem_singleton.mp hnext
          exact hadmitted
  | evict pod old => exact ⟨htracked, fun _ hnext => (List.not_mem_nil hnext).elim⟩
  | add pod => exact ⟨htracked, fun _ hnext => (List.not_mem_nil hnext).elim⟩
  | delete pod =>
      refine ⟨hremoved pod, fun next hnext => ?_⟩
      change next ∈ (if s.tracked.contains pod then [PodSection.remove pod] else []) at hnext
      split at hnext
      · obtain rfl := List.mem_singleton.mp hnext
        exact h
      · exact (List.not_mem_nil hnext).elim
  | remove pod => exact ⟨htracked, fun _ hnext => (List.not_mem_nil hnext).elim⟩
  | dropStale pod =>
      refine ⟨htracked, fun next hnext => ?_⟩
      obtain rfl := List.mem_singleton.mp hnext
      exact h
  | untrackStale pod => exact ⟨hremoved pod, fun _ hnext => (List.not_mem_nil hnext).elim⟩
  | diff order podList =>
      refine ⟨htracked, fun next hnext => ?_⟩
      rcases List.mem_append.mp hnext with hnext | hnext
      · obtain ⟨pod, hstale, rfl⟩ := List.mem_map.mp hnext
        exact htracked pod (mem_stale.mp hstale).1
      · obtain ⟨pod, hmissing, rfl⟩ := List.mem_map.mp hnext
        obtain ⟨object, hobject, hlive⟩ := mem_buildLivePodSet (mem_missing.mp hmissing).1
        exact ⟨object, h hobject, hlive⟩

theorem Sourced.write_add (env : DiscoveryEnv) {sec : PodSection}
    (h : sec.Sourced env.config seen) {pool : Pool} {url : String} (hwrite : sec.write env = some (.add pool url)) :
    ∃ info, Admitted env.config seen info ∧ env.selectPool info = pool ∧
      env.workerUrl info = url := by
  cases sec with
  | add pod =>
      cases hwrite
      exact ⟨pod, h, rfl, rfl⟩
  | _ => cases hwrite

/-- The pool that a section writes to is the pool of a reported pod. -/
theorem Sourced.write_pool (env : DiscoveryEnv) {sec : PodSection}
    (h : sec.Sourced env.config seen) {write : PoolWrite} (hwrite : sec.write env = some write) :
    ∃ info, Included env.config seen info ∧
      (write = .add (env.selectPool info) (env.workerUrl info) ∨
        ∃ url, write = .remove (env.selectPool info) url) := by
  cases sec with
  | add pod =>
      cases hwrite
      exact ⟨pod, Admitted.included h, Or.inl rfl⟩
  | evict pod old =>
      cases hwrite
      exact ⟨pod, h.1.included, Or.inr ⟨_, rfl⟩⟩
  | remove pod =>
      cases hwrite
      exact ⟨pod, h, Or.inr ⟨_, rfl⟩⟩
  | dropStale pod =>
      cases hwrite
      exact ⟨pod, Admitted.included h, Or.inr ⟨_, rfl⟩⟩
  | track order pod => cases hwrite
  | delete pod => cases hwrite
  | untrackStale pod => cases hwrite
  | diff order podList => cases hwrite

end PodSection

end Discovery

end TokenDog
