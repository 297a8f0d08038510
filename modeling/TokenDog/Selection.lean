import TokenDog.Server
import Mathlib.Logic.Function.Basic

/-!
# What the operations do to the pools

One spec for each operation of `AppState`: a selection that returns either changed nothing or took a
healthy entry of its pool and counted it, a completion uncounts, a record moves no counter. Later
proofs see an operation only through `Dispatched` and `Finished`.
-/

namespace TokenDog

namespace AppState

/-- A selection took entry `i` of the pool: healthy at the scan, and counted by the policy. -/
structure Picked (workers : List Worker) (balancer : Balancer) (i : Nat) (url : String)
    (balancer' : Balancer) : Prop where
  entry : workers[i]? = some ⟨url, true⟩
  policy_eq : balancer'.policy = balancer.policy
  fits : balancer.Fits (i + 1)
  active?_eq : balancer'.active? = balancer.active?.map (·.modify i (· + 1))

theorem selectFrom_of_none_healthy {workers : List Worker} (balancer : Balancer)
    (ctx : RequestContext) (ambient : Ambient) (hnone : healthyWorkerUrls workers = []) :
    selectFrom workers balancer ctx ambient = .ok (none, balancer) := by
  rw [selectFrom, hnone]
  rfl

/-- Behind a selection of the policy, what is left is the translation and the notification. -/
theorem selectFrom_of_select {workers : List Worker} {balancer selected : Balancer}
    {ctx : RequestContext} {ambient : Ambient} {k i : Nat} {url : String}
    (hselect : balancer.selectWithContext ((healthyWorkerUrls workers).map Prod.snd) ctx ambient =
      .ok (k, selected))
    (hentry : (healthyWorkerUrls workers)[k]? = some (i, url)) :
    selectFrom workers balancer ctx ambient =
      (selected.onRequestStart i).map fun counted => (some (i, url), counted) := by
  have hne : (healthyWorkerUrls workers).isEmpty = false := by
    cases h : healthyWorkerUrls workers with
    | nil => simp [h] at hentry
    | cons => rfl
  simp only [selectFrom, hne, Bool.false_eq_true, if_false, hselect, ok_bind, hentry]
  rfl

theorem selectFrom_of_panic {workers : List Worker} {balancer : Balancer} {ctx : RequestContext}
    {ambient : Ambient} {panic : Panic} (hne : healthyWorkerUrls workers ≠ [])
    (hselect : balancer.selectWithContext ((healthyWorkerUrls workers).map Prod.snd) ctx ambient =
      .error panic) : selectFrom workers balancer ctx ambient = .error panic := by
  have hempty : (healthyWorkerUrls workers).isEmpty = false := by
    simpa using hne
  simp only [selectFrom, hempty, Bool.false_eq_true, if_false, hselect, error_bind]

theorem selectFrom_eq_some_iff {workers : List Worker} {balancer balancer' : Balancer}
    {ctx : RequestContext} {ambient : Ambient} {i : Nat} {url : String} :
    selectFrom workers balancer ctx ambient = .ok (some (i, url), balancer') ↔
      ∃ k selected,
        balancer.selectWithContext ((healthyWorkerUrls workers).map Prod.snd) ctx ambient =
          .ok (k, selected) ∧
        (healthyWorkerUrls workers)[k]? = some (i, url) ∧
        selected.onRequestStart i = .ok balancer' := by
  constructor
  · intro h
    by_cases hnone : healthyWorkerUrls workers = []
    · rw [selectFrom_of_none_healthy balancer ctx ambient hnone] at h
      cases h
    · have hempty : (healthyWorkerUrls workers).isEmpty = false := by simpa using hnone
      simp only [selectFrom, hempty, Bool.false_eq_true, if_false, bind_eq_ok] at h
      obtain ⟨⟨k, selected⟩, hselect, h⟩ := h
      cases hentry : (healthyWorkerUrls workers)[k]? with
      | none => simp [hentry] at h
      | some entry =>
          obtain ⟨j, url'⟩ := entry
          simp only [hentry, bind_eq_ok, pure_eq_ok, Except.ok.injEq, Prod.mk.injEq,
            Option.some.injEq] at h
          obtain ⟨counted, hcount, ⟨rfl, rfl⟩, rfl⟩ := h
          exact ⟨k, selected, hselect, hentry, hcount⟩
  · rintro ⟨k, selected, hselect, hentry, hcount⟩
    rw [selectFrom_of_select hselect hentry, hcount]
    rfl

theorem Picked.of_selectFrom {workers : List Worker} {balancer balancer' : Balancer}
    {ctx : RequestContext} {ambient : Ambient} {i : Nat} {url : String}
    (h : selectFrom workers balancer ctx ambient = .ok (some (i, url), balancer')) :
    Picked workers balancer i url balancer' := by
  obtain ⟨k, selected, hselect, hentry, hcount⟩ := selectFrom_eq_some_iff.mp h
  obtain ⟨hfits, rfl⟩ := Balancer.onRequestStart_eq_ok_iff.mp hcount
  obtain ⟨hpolicy, hactive⟩ := Balancer.kept_of_selectWithContext hselect
  refine ⟨mem_healthyWorkerUrls.mp (List.mem_of_getElem? hentry), ?_, ?_, ?_⟩
  · rw [Balancer.policy_mapActive, hpolicy]
  · exact Balancer.Fits.of_active?_eq hfits hactive.symm
  · rw [Balancer.active?_mapActive, hactive]

theorem selectFrom_eq_none {workers : List Worker} {balancer balancer' : Balancer}
    {ctx : RequestContext} {ambient : Ambient}
    (h : selectFrom workers balancer ctx ambient = .ok (none, balancer')) :
    healthyWorkerUrls workers = [] ∧ balancer' = balancer := by
  by_cases hnone : healthyWorkerUrls workers = []
  · rw [selectFrom_of_none_healthy balancer ctx ambient hnone] at h
    cases h
    exact ⟨hnone, rfl⟩
  · have hempty : (healthyWorkerUrls workers).isEmpty = false := by simpa using hnone
    simp only [selectFrom, hempty, Bool.false_eq_true, if_false, bind_eq_ok] at h
    obtain ⟨⟨k, selected⟩, -, h⟩ := h
    cases hentry : (healthyWorkerUrls workers)[k]? <;> simp [hentry, bind_eq_ok] at h

/-- With a counter for every worker, a selection whose policy returns, returns. -/
theorem exists_selectFrom_of_select {workers : List Worker} {balancer selected : Balancer}
    {ctx : RequestContext} {ambient : Ambient} {k i : Nat} {url : String}
    (hfits : balancer.Fits workers.length)
    (hselect : balancer.selectWithContext ((healthyWorkerUrls workers).map Prod.snd) ctx ambient =
      .ok (k, selected))
    (hentry : (healthyWorkerUrls workers)[k]? = some (i, url)) :
    ∃ balancer', selectFrom workers balancer ctx ambient = .ok (some (i, url), balancer') := by
  have hi : i < workers.length :=
    lt_length_of_mem_healthyWorkerUrls (List.mem_of_getElem? hentry)
  obtain ⟨-, hactive⟩ := Balancer.kept_of_selectWithContext hselect
  have hcount : selected.onRequestStart i = .ok (selected.mapActive (·.modify i (· + 1))) :=
    Balancer.onRequestStart_eq_ok_iff.mpr ⟨(hfits.mono hi).of_active?_eq hactive, rfl⟩
  exact ⟨_, selectFrom_eq_some_iff.mpr ⟨k, selected, hselect, hentry, hcount⟩⟩

theorem selectFrom_total {workers : List Worker} {balancer : Balancer} (ctx : RequestContext)
    (ambient : Ambient) (hpolicy : balancer.policy ≠ .prefixAffinity)
    (hfits : balancer.Fits workers.length) (hne : healthyWorkerUrls workers ≠ []) :
    ∃ i url balancer', selectFrom workers balancer ctx ambient = .ok (some (i, url), balancer') ∧
      Picked workers balancer i url balancer' := by
  have hlen : ((healthyWorkerUrls workers).map Prod.snd).length =
      (healthyWorkerUrls workers).length := List.length_map _
  have hle := length_healthyWorkerUrls_le workers
  have hurls : (healthyWorkerUrls workers).map Prod.snd ≠ [] := by simpa using hne
  obtain ⟨k, selected, hselect, hselected⟩ :=
    Balancer.selectWithContext_total ctx ambient hpolicy hurls (hfits.mono (hlen.trans_le hle))
  obtain ⟨⟨i, url⟩, hentry⟩ : ∃ entry, (healthyWorkerUrls workers)[k]? = some entry :=
    ⟨_, List.getElem?_eq_getElem (hselected.lt.trans_eq hlen)⟩
  obtain ⟨balancer', hok⟩ := exists_selectFrom_of_select hfits hselect hentry
  exact ⟨i, url, balancer', hok, .of_selectFrom hok⟩

def policyOf (app : AppState) (pool : Pool) : Option Policy :=
  (app.balancerOf pool).map Balancer.policy

/-- Storing a policy of the same kind changes the counters of its own pool only. -/
theorem countersOf_setBalancer (app : AppState) (pool : Pool) (balancer : Balancer) :
    (app.setBalancer pool balancer).countersOf =
      Function.update app.countersOf pool balancer.active? := by
  funext other
  by_cases hother : other = pool
  · subst hother
    simp [countersOf]
  · simp [countersOf, balancerOf_setBalancer_of_ne app balancer hother, hother]

theorem policyOf_setBalancer {app : AppState} {pool : Pool} {balancer balancer' : Balancer}
    (hbalancer : app.balancerOf pool = some balancer)
    (hpolicy : balancer'.policy = balancer.policy) :
    (app.setBalancer pool balancer').policyOf = app.policyOf := by
  funext other
  by_cases hother : other = pool
  · subst hother
    simp [policyOf, hbalancer, hpolicy]
  · simp [policyOf, balancerOf_setBalancer_of_ne app balancer' hother]

theorem workersOf_setBalancer_eq (app : AppState) (pool : Pool) (balancer : Balancer) :
    (app.setBalancer pool balancer).workersOf = app.workersOf :=
  funext fun other => workersOf_setBalancer app pool other balancer

/-- The state after an operation on the counters of one pool: counter `i` is rewritten, nothing else
that a later operation can see. -/
structure Counted (app : AppState) (pool : Pool) (i : Nat) (f : Nat → Nat) (app' : AppState) :
    Prop where
  k8sMode_eq : app'.k8sMode = app.k8sMode
  policyType_eq : app'.policyType = app.policyType
  workersOf_eq : app'.workersOf = app.workersOf
  policyOf_eq : app'.policyOf = app.policyOf
  countersOf_eq : app'.countersOf =
    Function.update app.countersOf pool ((app.countersOf pool).map (·.modify i f))
  lt : ∀ active ∈ app.countersOf pool, i < active.length

theorem Counted.of_setBalancer {app : AppState} {pool : Pool} {balancer balancer' : Balancer}
    {i : Nat} {f : Nat → Nat} (hbalancer : app.balancerOf pool = some balancer)
    (hpolicy : balancer'.policy = balancer.policy) (hfits : balancer.Fits (i + 1))
    (hactive : balancer'.active? = balancer.active?.map (·.modify i f)) :
    app.Counted pool i f (app.setBalancer pool balancer') where
  k8sMode_eq := k8sMode_setBalancer app pool balancer'
  policyType_eq := policyType_setBalancer app pool balancer'
  workersOf_eq := workersOf_setBalancer_eq app pool balancer'
  policyOf_eq := policyOf_setBalancer hbalancer hpolicy
  countersOf_eq := by
    rw [countersOf_setBalancer, hactive]
    simp [countersOf, hbalancer]
  lt := by
    intro active hmem
    simp only [countersOf, hbalancer, Option.bind_some] at hmem
    exact hfits active hmem

theorem Counted.countersOf_self {app app' : AppState} {pool : Pool} {i : Nat} {f : Nat → Nat}
    (h : app.Counted pool i f app') {active : Counters}
    (hactive : app.countersOf pool = some active) :
    app'.countersOf pool = some (active.modify i f) := by
  rw [h.countersOf_eq, Function.update_self, hactive, Option.map_some]

theorem Counted.countersOf_of_ne {app app' : AppState} {pool other : Pool} {i : Nat} {f : Nat → Nat}
    (h : app.Counted pool i f app') (hother : other ≠ pool) :
    app'.countersOf other = app.countersOf other := by
  rw [h.countersOf_eq, Function.update_of_ne hother]

theorem Counted.trans {first second third : AppState} {pool : Pool} {i : Nat} {f g : Nat → Nat}
    (h : first.Counted pool i f second) (h' : second.Counted pool i g third) :
    first.Counted pool i (g ∘ f) third where
  k8sMode_eq := h'.k8sMode_eq.trans h.k8sMode_eq
  policyType_eq := h'.policyType_eq.trans h.policyType_eq
  workersOf_eq := h'.workersOf_eq.trans h.workersOf_eq
  policyOf_eq := h'.policyOf_eq.trans h.policyOf_eq
  countersOf_eq := by
    rw [h'.countersOf_eq, h.countersOf_eq, Function.update_self, Function.update_idem,
      Option.map_map]
    simp only [Function.comp_def, List.modify_modify_eq]
  lt := h.lt

structure Dispatched (app : AppState) (pool : Pool) (i : Nat) (url : String) (app' : AppState) :
    Prop extends Counted app pool i (· + 1) app' where
  entry : ∃ workers, app.workersOf pool = some workers ∧ workers[i]? = some ⟨url, true⟩

theorem next_eq_ok {app app' : AppState} {pool : Pool} {ctx : RequestContext} {ambient : Ambient}
    {result : Option (Nat × String)} (h : app.next pool ctx ambient = .ok (result, app')) :
    (result = none ∧ app' = app) ∨
      ∃ i url, result = some (i, url) ∧ app.Dispatched pool i url app' := by
  rw [next_eq] at h
  split at h
  · rename_i workers balancer hworkers hbalancer
    cases hselect : selectFrom workers balancer ctx ambient with
    | error panic => rw [hselect] at h; cases h
    | ok selected =>
        obtain ⟨result', balancer'⟩ := selected
        rw [hselect] at h
        cases h
        cases result' with
        | none =>
            obtain ⟨-, rfl⟩ := selectFrom_eq_none hselect
            exact Or.inl ⟨rfl, setBalancer_self hbalancer⟩
        | some entry =>
            obtain ⟨i, url⟩ := entry
            have hpicked := Picked.of_selectFrom hselect
            refine Or.inr ⟨i, url, rfl, ?_, workers, hworkers, hpicked.entry⟩
            exact .of_setBalancer hbalancer hpicked.policy_eq hpicked.fits hpicked.active?_eq
  · cases h
    exact Or.inl ⟨rfl, rfl⟩

theorem next_of_none_healthy {app : AppState} {pool : Pool} (ctx : RequestContext)
    (ambient : Ambient)
    (hnone : ∀ workers, app.workersOf pool = some workers → healthyWorkerUrls workers = []) :
    app.next pool ctx ambient = .ok (none, app) := by
  rw [next_eq]
  split
  · rename_i workers balancer hworkers hbalancer
    rw [selectFrom_of_none_healthy balancer ctx ambient (hnone workers hworkers)]
    change Except.ok (none, app.setBalancer pool balancer) = _
    rw [setBalancer_self hbalancer]
  · rfl

theorem next_of_selectFrom {app : AppState} {pool : Pool} {workers : List Worker}
    {balancer balancer' : Balancer} {ctx : RequestContext} {ambient : Ambient}
    {result : Option (Nat × String)} (hworkers : app.workersOf pool = some workers)
    (hbalancer : app.balancerOf pool = some balancer)
    (hselect : selectFrom workers balancer ctx ambient = .ok (result, balancer')) :
    app.next pool ctx ambient = .ok (result, app.setBalancer pool balancer') := by
  rw [next_eq, hworkers, hbalancer]
  change (selectFrom workers balancer ctx ambient).map _ = _
  rw [hselect]
  rfl

theorem finish_eq_ok {app app' : AppState} {pool : Pool} {i : Nat}
    (h : app.finish pool i = .ok app') :
    (app.balancerOf pool = none ∧ app' = app) ∨ app.Counted pool i Counters.decrement app' := by
  rw [finish_eq] at h
  split at h
  · rename_i balancer hbalancer
    cases hend : balancer.onRequestEnd i with
    | error panic => rw [hend] at h; cases h
    | ok balancer' =>
        rw [hend] at h
        cases h
        obtain ⟨hfits, rfl⟩ := Balancer.onRequestEnd_eq_ok_iff.mp hend
        exact Or.inr (.of_setBalancer hbalancer (Balancer.policy_mapActive _ _) hfits
          (Balancer.active?_mapActive _ _))
  · rename_i hbalancer
    cases h
    exact Or.inl ⟨hbalancer, rfl⟩

theorem exists_finish {app : AppState} (pool : Pool) {i : Nat}
    (hlt : ∀ active ∈ app.countersOf pool, i < active.length) :
    ∃ app', app.finish pool i = .ok app' := by
  rw [finish_eq]
  split
  · rename_i balancer hbalancer
    have hfits : balancer.Fits (i + 1) := by
      intro active hmem
      exact hlt active (by simpa [countersOf, hbalancer] using hmem)
    rw [Balancer.onRequestEnd_eq_ok_iff.mpr ⟨hfits, rfl⟩]
    exact ⟨_, rfl⟩
  · exact ⟨app, rfl⟩

theorem countersOf_record (app : AppState) (pool : Pool) (ctx : RequestContext) (i : Nat)
    (ambient : Ambient) : (app.record pool ctx i ambient).countersOf = app.countersOf := by
  rw [record_eq]
  split
  · rename_i balancer hbalancer
    rw [countersOf_setBalancer, Balancer.active?_record, Function.update_eq_self_iff]
    simp [countersOf, hbalancer]
  · rfl

theorem policyOf_record (app : AppState) (pool : Pool) (ctx : RequestContext) (i : Nat)
    (ambient : Ambient) : (app.record pool ctx i ambient).policyOf = app.policyOf := by
  rw [record_eq]
  split
  · rename_i balancer hbalancer
    exact policyOf_setBalancer hbalancer (Balancer.policy_record _ _ _ _)
  · rfl

theorem workersOf_record (app : AppState) (pool : Pool) (ctx : RequestContext) (i : Nat)
    (ambient : Ambient) : (app.record pool ctx i ambient).workersOf = app.workersOf := by
  rw [record_eq]
  split
  · exact workersOf_setBalancer_eq app pool _
  · rfl

theorem k8sMode_record (app : AppState) (pool : Pool) (ctx : RequestContext) (i : Nat)
    (ambient : Ambient) : (app.record pool ctx i ambient).k8sMode = app.k8sMode := by
  rw [record_eq]
  split
  · exact k8sMode_setBalancer app pool _
  · rfl

@[simp]
theorem countersOf_setHealth (app : AppState) (flags : Pool → Nat → Bool) :
    (app.setHealth flags).countersOf = app.countersOf :=
  funext fun pool => by simp [countersOf]

@[simp]
theorem policyOf_setHealth (app : AppState) (flags : Pool → Nat → Bool) :
    (app.setHealth flags).policyOf = app.policyOf :=
  funext fun pool => by simp [policyOf]

end AppState

end TokenDog
