import TokenDog.Lib.Lockstep
import TokenDog.Policies.Padding
import TokenDog.K8sRuns

/-!
# Kubernetes mode over a fixed pool is static mode

Two routers over the same workers, one with the workers in a shared pool and a policy made for at
least 256 of them, one with a list of workers and a policy made for exactly these. They answer every
sequence of operations alike: their policies differ by counters that no operation reaches.
-/

namespace TokenDog

namespace AppState

theorem selectFrom_pad {workers : List Worker} {balancer : Balancer} (m : Nat)
    (ctx : RequestContext) (ambient : Ambient) (hpolicy : balancer.policy ≠ .prefixAffinity)
    (hfits : balancer.Fits workers.length) :
    ∃ result balancer', selectFrom workers balancer ctx ambient = .ok (result, balancer') ∧
      selectFrom workers (balancer.pad m) ctx ambient = .ok (result, balancer'.pad m) ∧
      balancer'.policy = balancer.policy ∧ balancer'.Fits workers.length ∧
      ∀ entry ∈ result, entry.1 < workers.length := by
  by_cases hne : healthyWorkerUrls workers = []
  · refine ⟨none, balancer, selectFrom_of_none_healthy balancer ctx ambient hne,
      selectFrom_of_none_healthy (balancer.pad m) ctx ambient hne, rfl, hfits, ?_⟩
    intro entry hentry
    cases hentry
  · obtain ⟨i, url, balancer', hselect, hpicked⟩ :=
      selectFrom_total ctx ambient hpolicy hfits hne
    have hurls : (healthyWorkerUrls workers).map Prod.snd ≠ [] := by simpa using hne
    have hle : ((healthyWorkerUrls workers).map Prod.snd).length ≤ workers.length := by
      rw [List.length_map]
      exact length_healthyWorkerUrls_le workers
    obtain ⟨k, selected, hchoice, hentry, hstart⟩ := selectFrom_eq_some_iff.mp hselect
    obtain ⟨hselectedFits, rfl⟩ := Balancer.onRequestStart_eq_ok_iff.mp hstart
    have hpadded : (balancer.pad m).selectWithContext ((healthyWorkerUrls workers).map Prod.snd) ctx
        ambient = .ok (k, selected.pad m) := by
      rw [Balancer.selectWithContext_pad m ctx ambient hpolicy hurls (hfits.mono hle), hchoice]
      rfl
    refine ⟨some (i, url), _, hselect, ?_, hpicked.policy_eq, ?_, ?_⟩
    · apply selectFrom_eq_some_iff.mpr
      exact ⟨k, _, hpadded, hentry, Balancer.onRequestStart_pad m hselectedFits⟩
    · obtain ⟨-, hactive⟩ := Balancer.kept_of_selectWithContext hchoice
      exact (hfits.of_active?_eq hactive).mapActive_modify i _
    · rintro entry ⟨rfl⟩
      exact (List.getElem?_eq_some_iff.mp hpicked.entry).1

/-- Both routers select for `pool` among the same workers, and their policies differ by `m` counters
at zero. -/
structure Mirrors (pool : Pool) (workers : List Worker) (balancer : Balancer) (m : Nat)
    (k8s static : AppState) : Prop where
  k8sWorkers : k8s.workersOf pool = some workers
  staticWorkers : static.workersOf pool = some workers
  k8sBalancer : k8s.balancerOf pool = some (balancer.pad m)
  staticBalancer : static.balancerOf pool = some balancer
  policy : balancer.policy ≠ .prefixAffinity
  fits : balancer.Fits workers.length

theorem workersOf_setHealth_static {app : AppState} (hmode : app.k8sMode = false)
    (flags : Pool → Nat → Bool) {pool : Pool} (hpool : pool = .regular → app.pdMode = none) :
    (app.setHealth flags).workersOf pool = (app.workersOf pool).map (setFlags (flags pool)) := by
  cases pool with
  | regular => simp [workersOf, setHealth, hmode, hpool rfl]
  | prefill => simp [workersOf, setHealth, hmode]
  | decode => simp [workersOf, setHealth, hmode]

end AppState

namespace Session

open AppState

/-- Every pool is mirrored, and the outstanding requests are the same and in range. -/
structure Simulates (pools : Set Pool) (k8s static : Session) : Prop where
  k8sMode : k8s.app.k8sMode = true
  staticMode : static.app.k8sMode = false
  regular : Pool.regular ∈ pools → static.app.pdMode = none
  outstanding : k8s.outstanding = static.outstanding
  mirrors : ∀ pool ∈ pools, ∃ workers balancer m,
    Mirrors pool workers balancer m k8s.app static.app ∧
      ∀ i, (pool, i) ∈ static.outstanding → i < workers.length

section Operations

variable {pools : Set Pool} {k8s static : Session}

theorem Simulates.store (h : Simulates pools k8s static) {pool : Pool} {workers : List Worker}
    {balancer balancer' : Balancer} {m : Nat}
    (hmirrors : Mirrors pool workers balancer m k8s.app static.app)
    (hpolicy : balancer'.policy = balancer.policy) (hfits : balancer'.Fits workers.length)
    {outstanding : List (Pool × Nat)}
    (hold : ∀ other i, other ≠ pool → (other, i) ∈ outstanding → (other, i) ∈ static.outstanding)
    (hrange : ∀ i, (pool, i) ∈ outstanding → i < workers.length) :
    Simulates pools ⟨k8s.app.setBalancer pool (balancer'.pad m), outstanding⟩
      ⟨static.app.setBalancer pool balancer', outstanding⟩ where
  k8sMode := (k8sMode_setBalancer _ _ _).trans h.k8sMode
  staticMode := (k8sMode_setBalancer _ _ _).trans h.staticMode
  regular hregular := (pdMode_setBalancer _ _ _).trans (h.regular hregular)
  outstanding := rfl
  mirrors := by
    intro other hother
    by_cases hpool : other = pool
    · subst hpool
      refine ⟨workers, balancer', m, ⟨?_, ?_, ?_, ?_, ?_, hfits⟩, hrange⟩
      · exact (workersOf_setBalancer _ _ _ _).trans hmirrors.k8sWorkers
      · exact (workersOf_setBalancer _ _ _ _).trans hmirrors.staticWorkers
      · exact balancerOf_setBalancer_self _ _ _
      · exact balancerOf_setBalancer_self _ _ _
      · exact hpolicy ▸ hmirrors.policy
    · obtain ⟨workers', kept, m', hmirrors', hrange'⟩ := h.mirrors other hother
      refine ⟨workers', kept, m', ⟨?_, ?_, ?_, ?_, hmirrors'.policy, hmirrors'.fits⟩, ?_⟩
      · exact (workersOf_setBalancer _ _ _ _).trans hmirrors'.k8sWorkers
      · exact (workersOf_setBalancer _ _ _ _).trans hmirrors'.staticWorkers
      · exact (balancerOf_setBalancer_of_ne _ _ hpool).trans hmirrors'.k8sBalancer
      · exact (balancerOf_setBalancer_of_ne _ _ hpool).trans hmirrors'.staticBalancer
      · exact fun i hi => hrange' i (hold other i hpool hi)

theorem Simulates.setHealth (h : Simulates pools k8s static) (flags : Pool → Nat → Bool) :
    Simulates pools ⟨k8s.app.setHealth flags, k8s.outstanding⟩
      ⟨static.app.setHealth flags, static.outstanding⟩ where
  k8sMode := h.k8sMode
  staticMode := h.staticMode
  regular := h.regular
  outstanding := h.outstanding
  mirrors := by
    intro pool hpool
    obtain ⟨workers, balancer, m, hmirrors, hrange⟩ := h.mirrors pool hpool
    have hlength : (setFlags (flags pool) workers).length = workers.length := List.length_mapIdx
    refine ⟨setFlags (flags pool) workers, balancer, m, ⟨?_, ?_, ?_, ?_, hmirrors.policy, ?_⟩, ?_⟩
    · rw [workersOf_setHealth h.k8sMode, hmirrors.k8sWorkers]
      rfl
    · rw [workersOf_setHealth_static h.staticMode flags fun hregular => h.regular (hregular ▸ hpool),
        hmirrors.staticWorkers]
      rfl
    · exact (balancerOf_setHealth _ _ _).trans hmirrors.k8sBalancer
    · exact (balancerOf_setHealth _ _ _).trans hmirrors.staticBalancer
    · exact hlength ▸ hmirrors.fits
    · exact hlength ▸ hrange

end Operations

/-- An operation of the router. Random draws and clock readings are part of it. -/
inductive Op where
  | health (flags : Pool → Nat → Bool)
  | next (pool : Pool) (ctx : RequestContext) (ambient : Ambient)
  | finish (pool : Pool) (i : Nat)
  | record (pool : Pool) (ctx : RequestContext) (i : Nat) (ambient : Ambient)

/-- Only selections return a value. -/
def perform : Op → Session → Except Panic (Option (Nat × String) × Session)
  | .health flags, s => .ok (none, ⟨s.app.setHealth flags, s.outstanding⟩)
  | .next pool ctx ambient, s => do
      let (result, app) ← s.app.next pool ctx ambient
      return (result, ⟨app, (result.map fun entry => (pool, entry.1)).toList ++ s.outstanding⟩)
  | .finish pool i, s => do
      return (none, ⟨← s.app.finish pool i, s.outstanding.erase (pool, i)⟩)
  | .record pool ctx i ambient, s => .ok (none, ⟨s.app.record pool ctx i ambient, s.outstanding⟩)

/-- Operations on the given pools. A completion is of an outstanding request. -/
def Allowed (pools : Set Pool) : Op → Session → Prop
  | .health _, _ => True
  | .next pool _ _, _ => pool ∈ pools
  | .finish pool i, s => pool ∈ pools ∧ (pool, i) ∈ s.outstanding
  | .record pool _ _ _, _ => pool ∈ pools

section Answers

variable {pools : Set Pool} {k8s static : Session}

theorem Simulates.next (h : Simulates pools k8s static) {pool : Pool} (hpool : pool ∈ pools)
    (ctx : RequestContext) (ambient : Ambient) :
    Lockstep.Matches (Simulates pools) (perform (.next pool ctx ambient) k8s)
      (perform (.next pool ctx ambient) static) := by
  obtain ⟨workers, balancer, m, hmirrors, hrange⟩ := h.mirrors pool hpool
  obtain ⟨result, balancer', hselect, hpadded, hpolicy, hfits, hentry⟩ :=
    selectFrom_pad m ctx ambient hmirrors.policy hmirrors.fits
  have hk8s := next_of_selectFrom hmirrors.k8sWorkers hmirrors.k8sBalancer hpadded
  have hstatic := next_of_selectFrom hmirrors.staticWorkers hmirrors.staticBalancer hselect
  have hnew : ∀ request ∈ (result.map fun entry => (pool, entry.1)).toList,
      request.1 = pool ∧ request.2 < workers.length := by
    intro request hrequest
    rw [Option.mem_toList, Option.map_eq_some_iff] at hrequest
    obtain ⟨entry, hresult, rfl⟩ := hrequest
    exact ⟨rfl, hentry entry hresult⟩
  simp only [perform, hk8s, hstatic, ok_bind, pure_eq_ok, h.outstanding]
  apply Lockstep.Matches.ok
  apply h.store hmirrors hpolicy hfits
  · intro other i hother hi
    rcases List.mem_append.mp hi with hi | hi
    · exact absurd (hnew _ hi).1 hother
    · exact hi
  · intro i hi
    rcases List.mem_append.mp hi with hi | hi
    · exact (hnew _ hi).2
    · exact hrange i hi

theorem Simulates.finish (h : Simulates pools k8s static) {pool : Pool} (hpool : pool ∈ pools)
    {i : Nat} (hi : (pool, i) ∈ static.outstanding) :
    Lockstep.Matches (Simulates pools) (perform (.finish pool i) k8s)
      (perform (.finish pool i) static) := by
  obtain ⟨workers, balancer, m, hmirrors, hrange⟩ := h.mirrors pool hpool
  have hfits : balancer.Fits (i + 1) := hmirrors.fits.mono (hrange i hi)
  have hk8s : k8s.app.finish pool i = .ok (k8s.app.setBalancer pool
      ((balancer.mapActive (·.modify i Counters.decrement)).pad m)) := by
    rw [finish_eq, hmirrors.k8sBalancer]
    simp only [Balancer.onRequestEnd_pad m hfits]
    rfl
  have hstatic : static.app.finish pool i = .ok (static.app.setBalancer pool
      (balancer.mapActive (·.modify i Counters.decrement))) := by
    rw [finish_eq, hmirrors.staticBalancer]
    simp only [Balancer.onRequestEnd_eq_ok_iff.mpr ⟨hfits, rfl⟩]
    rfl
  simp only [perform, hk8s, hstatic, ok_bind, pure_eq_ok, h.outstanding]
  apply Lockstep.Matches.ok
  apply h.store hmirrors (Balancer.policy_mapActive _ _) (hmirrors.fits.mapActive_modify i _)
  · exact fun other j _ hj => List.mem_of_mem_erase hj
  · exact fun j hj => hrange j (List.mem_of_mem_erase hj)

theorem Simulates.record (h : Simulates pools k8s static) {pool : Pool} (hpool : pool ∈ pools)
    (ctx : RequestContext) (i : Nat) (ambient : Ambient) :
    Lockstep.Matches (Simulates pools) (perform (.record pool ctx i ambient) k8s)
      (perform (.record pool ctx i ambient) static) := by
  obtain ⟨workers, balancer, m, hmirrors, hrange⟩ := h.mirrors pool hpool
  have hk8s : k8s.app.record pool ctx i ambient =
      k8s.app.setBalancer pool ((balancer.record ctx i ambient).pad m) := by
    rw [record_eq, hmirrors.k8sBalancer, ← Balancer.record_pad]
  have hstatic : static.app.record pool ctx i ambient =
      static.app.setBalancer pool (balancer.record ctx i ambient) := by
    rw [record_eq, hmirrors.staticBalancer]
  have hfits : (balancer.record ctx i ambient).Fits workers.length :=
    hmirrors.fits.of_active?_eq (Balancer.active?_record _ _ _ _)
  simp only [perform, hk8s, hstatic, h.outstanding]
  apply Lockstep.Matches.ok
  exact h.store hmirrors (Balancer.policy_record _ _ _ _) hfits (fun _ _ _ hi => hi) hrange

theorem Simulates.perform (h : Simulates pools k8s static) {op : Op}
    (hallowed : Allowed pools op static) :
    Lockstep.Matches (Simulates pools) (perform op k8s) (perform op static) := by
  cases op with
  | health flags => exact .ok none (h.setHealth flags)
  | next pool ctx ambient => exact h.next hallowed ctx ambient
  | finish pool i => exact h.finish hallowed.1 hallowed.2
  | record pool ctx i ambient => exact h.record hallowed ctx i ambient

end Answers

/-- A Kubernetes deployment whose pools were filled before the first request, and the static one over
the same workers. -/
inductive Twins : Set Pool → AppState → AppState → Prop where
  | regular {policyType : Policy} {initial workers : List Worker} {balancer : Balancer}
      {k8s static : AppState} (hpolicy : policyType ≠ .prefixAffinity)
      (hsize : workers.length ≤ 256) (hk8s : newK8s policyType initial = .ok k8s)
      (hbalancer : Balancer.makePolicy policyType workers.length = .ok balancer)
      (hstatic : AppState.new workers balancer = .ok static) :
      Twins {.regular} (k8s.updatePool .regular fun _ => workers) static
  | pd {pdMode : PdMode} {policyType : Policy}
      {initialPrefill initialDecode prefillWorkers decodeWorkers : List Worker}
      {prefillPolicy decodePolicy : Balancer} {k8s static : AppState}
      (hpolicy : policyType ≠ .prefixAffinity) (hprefillSize : prefillWorkers.length ≤ 256)
      (hdecodeSize : decodeWorkers.length ≤ 256)
      (hk8s : newK8sPd pdMode policyType initialPrefill initialDecode = .ok k8s)
      (hprefill : Balancer.makePolicy policyType prefillWorkers.length = .ok prefillPolicy)
      (hdecode : Balancer.makePolicy policyType decodeWorkers.length = .ok decodePolicy)
      (hstatic : newPd pdMode prefillWorkers decodeWorkers prefillPolicy decodePolicy = .ok static) :
      Twins {.prefill, .decode}
        ((k8s.updatePool .prefill fun _ => prefillWorkers).updatePool .decode fun _ => decodeWorkers)
        static

theorem makePolicy_capacity {policyType : Policy} {workers initial : List Worker}
    {balancer k8sBalancer : Balancer} (hsize : workers.length ≤ 256)
    (hbalancer : Balancer.makePolicy policyType workers.length = .ok balancer)
    (hk8s : AppState.makePolicy policyType (capacity initial.length) = .ok k8sBalancer) :
    k8sBalancer = balancer.pad (capacity initial.length - workers.length) := by
  have hcapacity : max (capacity initial.length) 1 =
      workers.length + (capacity initial.length - workers.length) := by
    have : 256 ≤ capacity initial.length := le_max_right _ _
    omega
  rw [AppState.makePolicy, hcapacity, Balancer.makePolicy_add hbalancer] at hk8s
  exact (Except.ok.inj hk8s).symm

theorem fits_of_makePolicy {policy : Policy} {n : Nat} {balancer : Balancer}
    (h : Balancer.makePolicy policy n = .ok balancer) : balancer.Fits n := by
  intro active hactive
  rw [Balancer.active?_of_makePolicy h active hactive, Counters.length_zeros]

theorem Twins.simulates {pools : Set Pool} {k8s static : AppState} (h : Twins pools k8s static) :
    Simulates pools (start k8s) (start static) := by
  cases h with
  | regular hpolicy hsize hk8s hbalancer hstatic =>
      simp only [newK8s, bind_eq_ok, Except.ok.injEq] at hk8s
      obtain ⟨fallback, -, k8sBalancer, hk8sBalancer, rfl⟩ := hk8s
      obtain rfl := makePolicy_capacity hsize hbalancer hk8sBalancer
      unfold AppState.new at hstatic
      split at hstatic <;> cases hstatic
      refine ⟨rfl, rfl, fun _ => rfl, rfl, ?_⟩
      rintro pool rfl
      refine ⟨_, _, _, ⟨rfl, rfl, rfl, rfl, ?_, fits_of_makePolicy hbalancer⟩, ?_⟩
      · rwa [Balancer.policy_of_makePolicy hbalancer]
      · intro i hi
        cases hi
  | pd hpolicy hprefillSize hdecodeSize hk8s hprefill hdecode hstatic =>
      simp only [newK8sPd, bind_eq_ok, Except.ok.injEq] at hk8s
      obtain ⟨k8sPrefill, hk8sPrefill, k8sDecode, hk8sDecode, rfl⟩ := hk8s
      obtain rfl := makePolicy_capacity hprefillSize hprefill hk8sPrefill
      obtain rfl := makePolicy_capacity hdecodeSize hdecode hk8sDecode
      unfold newPd at hstatic
      split at hstatic <;> [cases hstatic; split at hstatic] <;> cases hstatic
      refine ⟨rfl, rfl, fun hregular => ?_, rfl, ?_⟩
      · simp at hregular
      · rintro pool (rfl | rfl)
        · refine ⟨_, _, _, ⟨rfl, rfl, rfl, rfl, ?_, fits_of_makePolicy hprefill⟩, ?_⟩
          · rwa [Balancer.policy_of_makePolicy hprefill]
          · intro i hi
            cases hi
        · refine ⟨_, _, _, ⟨rfl, rfl, rfl, rfl, ?_, fits_of_makePolicy hdecode⟩, ?_⟩
          · rwa [Balancer.policy_of_makePolicy hdecode]
          · intro i hi
            cases hi

/-- The two deployments answer every sequence of operations alike. -/
theorem Twins.outputs_eq {pools : Set Pool} {k8s static : AppState} (h : Twins pools k8s static)
    {ops : List Op} (hops : Lockstep.Admissible (Allowed pools) perform ops (start static)) :
    Lockstep.outputs perform ops (start k8s) = Lockstep.outputs perform ops (start static) := by
  apply Lockstep.outputs_eq_of_rel _ h.simulates hops
  intro op s t hs hallowed
  exact hs.perform hallowed

/-- One request at two workers, behind 256 counters and behind two. -/
theorem outputs_eq_one_request :
    ∃ k8s static, newK8s .leastLoaded [] = .ok k8s ∧
      AppState.new twoWorkers (.leastLoaded (.new 2)) = .ok static ∧
      Lockstep.outputs perform [.next .regular ⟨"", ""⟩ ⟨fun _ => 0, 0⟩, .finish .regular 0]
          (start (k8s.updatePool .regular fun _ => twoWorkers)) =
        Lockstep.outputs perform [.next .regular ⟨"", ""⟩ ⟨fun _ => 0, 0⟩, .finish .regular 0]
          (start static) := by
  obtain ⟨k8s, hk8s⟩ := exists_newK8s .leastLoaded []
  obtain ⟨static, hstatic⟩ :
      ∃ static, AppState.new twoWorkers (.leastLoaded (.new 2)) = .ok static := ⟨_, rfl⟩
  have htwins : Twins {.regular} (k8s.updatePool .regular fun _ => twoWorkers) static :=
    .regular (by decide) (by decide) hk8s rfl hstatic
  refine ⟨k8s, static, hk8s, hstatic, htwins.outputs_eq ⟨rfl, fun result s hnext => ⟨?_, ?_⟩⟩⟩
  · cases hstatic
    cases hnext
    exact ⟨rfl, by decide⟩
  · intro _ _ _
    trivial

end Session

end TokenDog
