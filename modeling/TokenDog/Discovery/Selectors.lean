import TokenDog.Discovery.Handlers

/-!
# Label selectors

`list_label_selector` narrows the API server's answers before `should_include` filters them. Three
functions read the selector maps: the list call, the inclusion check and the classification of a pod.
-/

namespace TokenDog

def Pod.label (pod : Pod) (key : String) : Option String :=
  (pod.metadata.labels.getD []).lookup key

def Pod.Satisfies (pod : Pod) (requirements : List (String × String)) : Prop :=
  ∀ requirement ∈ requirements, pod.label requirement.1 = some requirement.2

namespace ServiceDiscoveryConfig

/-- In PD mode the entries common to both selectors, so that one list call covers both roles. -/
def listRequirements (config : ServiceDiscoveryConfig) : List (String × String) :=
  if config.pdMode then
    config.prefillSelector.filter fun (k, v) => config.decodeSelector.lookup k == some v
  else config.selector

def listLabelSelector (config : ServiceDiscoveryConfig) : String :=
  ",".intercalate (config.listRequirements.map fun (k, v) => k ++ "=" ++ v)

-- test_list_label_selector_pd_mode_common_labels
example : listLabelSelector ⟨[], 8000, true, [("app", "sglang"), ("component", "prefill")],
    [("app", "sglang"), ("component", "decode")]⟩ = "app=sglang" := by
  decide

variable {config : ServiceDiscoveryConfig} {pod : Pod}

theorem matchesSelector_iff {selector : List (String × String)} :
    PodInfo.matchesSelector pod selector = true ↔ selector ≠ [] ∧ pod.Satisfies selector := by
  unfold PodInfo.matchesSelector Pod.Satisfies Pod.label
  cases selector with
  | nil => simp
  | cons first rest =>
      cases pod.metadata.labels with
      | some labels => simp
      | none =>
          have hfirst : ¬∀ requirement ∈ first :: rest,
              ([] : List (String × String)).lookup requirement.1 = some requirement.2 := by
            intro h
            cases h first List.mem_cons_self
          simpa using hfirst

theorem mem_decodeSelector_of_mem_listRequirements (hmode : config.pdMode = true)
    {requirement : String × String} (hmem : requirement ∈ config.listRequirements) :
    requirement ∈ config.prefillSelector ∧ requirement ∈ config.decodeSelector := by
  rw [listRequirements, if_pos hmode, List.mem_filter, beq_iff_eq] at hmem
  refine ⟨hmem.1, ?_⟩
  obtain ⟨before, after, heq, -⟩ := List.lookup_eq_some_iff.mp hmem.2
  rw [heq]
  apply List.mem_append_right
  apply List.mem_cons_self

theorem satisfies_of_shouldInclude (h : PodInfo.shouldInclude pod config = true) :
    pod.Satisfies config.listRequirements := by
  unfold PodInfo.shouldInclude at h
  intro requirement hmem
  by_cases hmode : config.pdMode = true
  · obtain ⟨hprefill, hdecode⟩ := mem_decodeSelector_of_mem_listRequirements hmode hmem
    rw [if_pos hmode] at h
    split at h
    · cases h
    · rcases (Bool.or_eq_true _ _).mp h with h | h
      · exact (matchesSelector_iff.mp h).2 requirement hprefill
      · exact (matchesSelector_iff.mp h).2 requirement hdecode
  · rw [listRequirements, if_neg hmode] at hmem
    rw [if_neg hmode] at h
    split at h
    · cases h
    · exact (matchesSelector_iff.mp h).2 requirement hmem

theorem shouldInclude_of_satisfies (hmode : config.pdMode = false) (hselector : config.selector ≠ [])
    (h : pod.Satisfies config.listRequirements) : PodInfo.shouldInclude pod config = true := by
  rw [listRequirements, if_neg (by simp [hmode])] at h
  have hmatches := matchesSelector_iff.mpr ⟨hselector, h⟩
  simp [PodInfo.shouldInclude, hmode, hselector, hmatches]

theorem podType_of_fromPod (hmode : config.pdMode = true)
    (hincluded : PodInfo.shouldInclude pod config = true) {info : PodInfo}
    (hinfo : PodInfo.fromPod pod (some config) = some info) :
    info.podType =
      some (if PodInfo.matchesSelector pod config.prefillSelector then .prefill else .decode) := by
  have hmatches : PodInfo.matchesSelector pod config.prefillSelector = true ∨
      PodInfo.matchesSelector pod config.decodeSelector = true := by
    rw [PodInfo.shouldInclude, if_pos hmode] at hincluded
    split at hincluded
    · cases hincluded
    · exact (Bool.or_eq_true _ _).mp hincluded
  simp only [PodInfo.fromPod, Option.bind_eq_bind, Option.bind_eq_some_iff] at hinfo
  obtain ⟨name, -, uid, -, status, -, ip, -, hinfo⟩ := hinfo
  obtain rfl := Option.some.inj hinfo
  by_cases hprefill : PodInfo.matchesSelector pod config.prefillSelector = true
  · simp [hmode, hprefill]
  · simp [hmode, hprefill, hmatches.resolve_left hprefill]

theorem selectPool_of_podType {env : DiscoveryEnv} (hmode : env.config.pdMode = true)
    (hprefill : env.prefillPool = true) (hdecode : env.decodePool = true) {info : PodInfo}
    (hinfo : info.podType =
      some (if PodInfo.matchesSelector pod env.config.prefillSelector then .prefill else .decode)) :
    env.selectPool info =
      if PodInfo.matchesSelector pod env.config.prefillSelector then .prefill else .decode := by
  by_cases hmatches : PodInfo.matchesSelector pod env.config.prefillSelector = true
  · simp [DiscoveryEnv.selectPool, hmode, hprefill, hinfo, hmatches]
  · simp [DiscoveryEnv.selectPool, hmode, hdecode, hinfo, hmatches]

/-- The list call loses no included pod, and every included pod is put in a pool that is read. -/
theorem included_listed_and_placed (env : DiscoveryEnv) (pod : Pod) :
    (PodInfo.shouldInclude pod env.config = true → pod.Satisfies env.config.listRequirements) ∧
    (env.config.pdMode = false → env.config.selector ≠ [] →
      pod.Satisfies env.config.listRequirements → PodInfo.shouldInclude pod env.config = true) ∧
    (env.config.pdMode = true → PodInfo.shouldInclude pod env.config = true →
      ∀ info, PodInfo.fromPod pod (some env.config) = some info →
        info.podType = some (if PodInfo.matchesSelector pod env.config.prefillSelector then .prefill
          else .decode) ∧
        (env.prefillPool = true → env.decodePool = true →
          env.selectPool info = (if PodInfo.matchesSelector pod env.config.prefillSelector then
            .prefill else .decode) ∧ env.selectPool info ≠ .regular)) := by
  refine ⟨satisfies_of_shouldInclude, shouldInclude_of_satisfies, ?_⟩
  intro hmode hincluded info hinfo
  have htype := podType_of_fromPod hmode hincluded hinfo
  refine ⟨htype, fun hprefill hdecode => ?_⟩
  have hpool := selectPool_of_podType hmode hprefill hdecode htype
  refine ⟨hpool, ?_⟩
  rw [hpool]
  split <;> exact Pool.noConfusion

end ServiceDiscoveryConfig

end TokenDog
