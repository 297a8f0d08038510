import TokenDog.Discovery.Sections

/-!
# One pod per name, one worker per URL

However many handlers and reconciliation passes run side by side, no section of any of them tracks
two pods of one name or puts a URL into a pool twice. So the search for the pod that a restarted one
replaces may stop at the first hit.
-/

namespace TokenDog

namespace PodSet

def OnePerName (tracked : PodSet) : Prop :=
  ∀ pod ∈ tracked, ∀ other ∈ tracked, pod.name = other.name → pod = other

theorem onePerName_empty : OnePerName empty := by
  intro pod hpod
  cases hpod

theorem OnePerName.remove {tracked : PodSet} (hone : tracked.OnePerName) (pod : PodInfo) :
    (tracked.remove pod).OnePerName := by
  intro entry hentry other hother
  apply hone
  · exact (mem_remove.mp hentry).1
  · exact (mem_remove.mp hother).1

theorem OnePerName.insert {tracked : PodSet} (hone : tracked.OnePerName) {pod : PodInfo}
    (hnew : ∀ entry ∈ tracked, entry.name ≠ pod.name) : (tracked.insert pod).OnePerName := by
  have habsent : tracked.contains pod = false := by
    rw [contains_eq_false_iff]
    intro entry hentry hkey
    exact hnew entry hentry (congrArg Prod.fst hkey)
  intro entry hentry other hother hname
  rw [mem_insert_of_not_contains habsent] at hentry hother
  rcases hentry with hentry | rfl
  · rcases hother with hother | rfl
    · exact hone entry hentry other hother hname
    · exact absurd hname (hnew entry hentry)
  · rcases hother with hother | rfl
    · exact absurd hname.symm (hnew other hother)
    · rfl

end PodSet

namespace Discovery

theorem restarted_spec {order : HashOrder} {tracked : PodSet} {pod old : PodInfo}
    (hold : restarted order tracked pod = some old) :
    old ∈ tracked ∧ old.name = pod.name ∧ old.uid ≠ pod.uid := by
  refine ⟨restarted_mem hold, ?_⟩
  have hfound := List.find?_some hold
  rwa [Bool.and_eq_true, beq_iff_eq, bne_iff_ne] at hfound

theorem restarted_eq_none_iff {order : HashOrder} {tracked : PodSet} {pod : PodInfo} :
    restarted order tracked pod = none ↔
      ∀ entry ∈ tracked, entry.name = pod.name → entry.uid = pod.uid := by
  rw [restarted, List.find?_eq_none]
  constructor
  · intro h entry hentry hname
    have hnot := h entry ((order.perm _).mem_iff.mpr hentry)
    rw [Bool.and_eq_true, beq_iff_eq, bne_iff_ne, not_and, not_not] at hnot
    exact hnot hname
  · intro h entry hentry
    rw [Bool.and_eq_true, beq_iff_eq, bne_iff_ne, not_and, not_not]
    exact h entry ((order.perm _).mem_iff.mp hentry)

theorem restarted_eq_some {order : HashOrder} {tracked : PodSet} (hone : tracked.OnePerName)
    {pod entry : PodInfo} (hentry : entry ∈ tracked) (hname : entry.name = pod.name)
    (huid : entry.uid ≠ pod.uid) : restarted order tracked pod = some entry := by
  cases hold : restarted order tracked pod with
  | none => exact absurd (restarted_eq_none_iff.mp hold entry hentry hname) huid
  | some old =>
      obtain ⟨hmem, holdName, -⟩ := restarted_spec hold
      rw [hone old hmem entry hentry (holdName.trans hname.symm)]

theorem onePerName_trackEvent {tracked : PodSet} (hone : tracked.OnePerName) (order : HashOrder)
    (pod : PodInfo) : (trackEvent order tracked pod).1.OnePerName := by
  unfold trackEvent
  by_cases hknown : tracked.contains pod = true
  · rwa [if_pos hknown]
  · rw [if_neg hknown]
    -- no entry has the pod's identity, so every entry of its name has another uid
    have huid : ∀ entry ∈ tracked, entry.name = pod.name → entry.uid ≠ pod.uid := by
      intro entry hentry hname huid
      exact hknown (PodSet.contains_iff.mpr ⟨entry, hentry, Prod.ext hname huid⟩)
    cases hold : restarted order tracked pod with
    | none =>
        apply hone.insert
        intro entry hentry hname
        exact huid entry hentry hname (restarted_eq_none_iff.mp hold entry hentry hname)
    | some old =>
        apply (hone.remove old).insert
        intro entry hentry hname
        obtain ⟨hentry, hkey⟩ := PodSet.mem_remove.mp hentry
        have hfound : restarted order tracked pod = some entry :=
          restarted_eq_some hone hentry hname (huid entry hentry hname)
        rw [hold, Option.some.injEq] at hfound
        exact hkey (congrArg PodInfo.key hfound.symm)

/-- At most one tracked pod for each name, and no pool with a URL twice. -/
structure Unique (s : Discovery) : Prop where
  onePerName : s.tracked.OnePerName
  nodup : ∀ pool, ((s.pools pool).map Worker.url).Nodup

variable {env : DiscoveryEnv} {s : Discovery}

theorem Unique.with_tracked (hs : Unique s) {tracked : PodSet} (hone : tracked.OnePerName) :
    Unique { s with tracked } := ⟨hone, hs.nodup⟩

theorem Unique.untrack (hs : Unique s) (pod : PodInfo) : Unique (s.untrack pod) :=
  hs.with_tracked (hs.onePerName.remove pod)

theorem Unique.addUrl (hs : Unique s) (pool : Pool) (url : String) : Unique (s.addUrl pool url) := by
  refine ⟨hs.onePerName, fun other => ?_⟩
  by_cases hother : other = pool
  · subst hother
    simp only [Discovery.addUrl, Function.update_self]
    exact nodup_addWorkerToPool url (hs.nodup other)
  · simp only [Discovery.addUrl, Function.update_of_ne hother]
    exact hs.nodup other

theorem Unique.removeUrl (hs : Unique s) (pool : Pool) (url : String) :
    Unique (s.removeUrl pool url) := by
  refine ⟨hs.onePerName, fun other => ?_⟩
  by_cases hother : other = pool
  · subst hother
    simp only [Discovery.removeUrl, Function.update_self]
    exact nodup_removeWorkerFromPool url (hs.nodup other)
  · simp only [Discovery.removeUrl, Function.update_of_ne hother]
    exact hs.nodup other

theorem Unique.run (hs : Unique s) (sec : PodSection) : Unique (sec.run env s).1 := by
  cases sec with
  | track order pod =>
      simp only [PodSection.run]
      split
      · exact hs.with_tracked (onePerName_trackEvent hs.onePerName order pod)
      · exact hs
  | evict pod old => exact hs.removeUrl _ _
  | add pod => exact hs.addUrl _ _
  | delete pod => exact hs.untrack pod
  | remove pod => exact hs.removeUrl _ _
  | dropStale pod => exact hs.removeUrl _ _
  | untrackStale pod => exact hs.untrack pod
  | diff order podList => exact hs

/-- The first section of a handler or of a reconciliation pass. -/
inductive Operation : PodSection → Prop where
  | event (order : HashOrder) (pod : PodInfo) : Operation (.track order pod)
  | deletion (pod : PodInfo) : Operation (.delete pod)
  | reconcile (order : HashOrder) (podList : List Pod) : Operation (.diff order podList)

/-- Nothing is tracked and nothing runs; the pools are as they were handed to service discovery. -/
def Starts (s : Sections.Tasks Discovery PodSection) : Prop :=
  s.shared.tracked = PodSet.empty ∧ (∀ pool, ((s.shared.pools pool).map Worker.url).Nodup) ∧
    s.tasks = []

theorem unique_of_reachable {s : Sections.Tasks Discovery PodSection}
    (hs : Runs.Reachable Starts (Sections.Tasks.Step (PodSection.run env) Operation) s) :
    (∀ pod ∈ s.shared.tracked, ∀ other ∈ s.shared.tracked, pod.name = other.name → pod = other) ∧
    (∀ order pod, ∀ entry ∈ s.shared.tracked, entry.name = pod.name → entry.uid ≠ pod.uid →
      restarted order s.shared.tracked pod = some entry) ∧
    ∀ pool, ((s.shared.pools pool).map Worker.url).Nodup := by
  have hunique : Unique s.shared := by
    apply Sections.Tasks.invariant Unique _ (fun sec s hs => hs.run sec) hs
    rintro s ⟨htracked, hnodup, -⟩
    refine ⟨?_, hnodup⟩
    rw [htracked]
    exact PodSet.onePerName_empty
  refine ⟨hunique.onePerName, ?_, hunique.nodup⟩
  intro order pod entry
  exact restarted_eq_some hunique.onePerName

/-- A pod restarts: while the watcher is between tracking it and adding its first URL, a second task
tracks it under its new uid. The watcher then adds the old URL, which the second task evicts before it
adds the new one. -/
theorem unique_of_restart : ∃ s : Sections.Tasks Discovery PodSection,
    Runs.Reachable Starts (Sections.Tasks.Step (PodSection.run regularEnv) Operation) s ∧
      s.shared.tracked.pods = [runningPod "worker-0" "uid-2" "10.0.0.2"] ∧
      (s.shared.pools .regular).map Worker.url = ["10.0.0.2:8000"] ∧
      ((s.shared.pools .regular).map Worker.url).Nodup ∧
      restarted insertionOrder s.shared.tracked (runningPod "worker-0" "uid-3" "10.0.0.3") =
        some (runningPod "worker-0" "uid-2" "10.0.0.2") := by
  have hstart : Runs.Reachable Starts (Sections.Tasks.Step (PodSection.run regularEnv) Operation)
      ⟨empty, []⟩ := .of_start ⟨rfl, fun _ => List.nodup_nil, rfl⟩
  have hevent := hstart.tail
    (.start (.event insertionOrder (runningPod "worker-0" "uid-1" "10.0.0.1")) _ _)
  have htracked := hevent.tail (.run [] [] _ _ _)
  have hrestart := htracked.tail
    (.start (.event insertionOrder (runningPod "worker-0" "uid-2" "10.0.0.2")) _ _)
  have hreplaced := hrestart.tail (.run [] _ _ _ _)
  -- the first task adds the old URL, then the second one evicts it and adds its own
  let first := runningPod "worker-0" "uid-1" "10.0.0.1"
  let second := runningPod "worker-0" "uid-2" "10.0.0.2"
  have hadded := hreplaced.tail
    (.run [[PodSection.evict second first, PodSection.add second]] [] (PodSection.add first) [] _)
  have hevicted := hadded.tail (.run [] _ _ _ _)
  have hreachable := hevicted.tail (.run [] _ _ _ _)
  obtain ⟨-, hsearch, hnodup⟩ := unique_of_reachable hreachable
  exact ⟨_, hreachable, rfl, rfl, hnodup .regular,
    hsearch insertionOrder _ _ List.mem_cons_self rfl (by decide)⟩

end Discovery

end TokenDog
