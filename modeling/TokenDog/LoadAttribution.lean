import TokenDog.K8sRuns
import TokenDog.Lib.Ledger
import Mathlib.Data.Multiset.MapFold

/-!
# Load attribution across pool changes

A dispatched request remembers a position of the pool and, for this analysis, the URL it was sent
to. Removals shift the workers behind the removed one while counters stay in place, so counts follow
their workers only in runs whose removals and additions respect the outstanding positions.
-/

namespace TokenDog

/-- A Kubernetes deployment in regular mode and the requests in flight, each with the position it
completes under and the URL it was sent to. -/
structure Tracked where
  app : AppState
  outstanding : Multiset (Nat × String)

namespace Tracked

inductive Action where
  | next (ctx : RequestContext) (ambient : Ambient)
  | finish (i : Nat) (url : String)
  | add (url : String)
  | remove (url : String)

/-- The steps of a run: selections, completions of outstanding requests, and pool updates that keep
the pool at 256 workers or fewer. -/
inductive Step : Tracked → Action → Tracked → Prop
  | next {s : Tracked} {ctx : RequestContext} {ambient : Ambient}
      {result : Option (Nat × String)} {app' : AppState}
      (h : s.app.nextWorkerWithContext ctx ambient = .ok (result, app')) :
      Step s (.next ctx ambient) ⟨app', result.elim 0 (fun entry => {entry}) + s.outstanding⟩
  | finish {s : Tracked} {i : Nat} {url : String} {app' : AppState}
      (hmem : (i, url) ∈ s.outstanding) (h : s.app.finishRequest i = .ok app') :
      Step s (.finish i url) ⟨app', s.outstanding.erase (i, url)⟩
  | add {s : Tracked} {url : String}
      (hlength : ∀ workers ∈ s.app.workersOf .regular, (addWorkerToPool workers url).length ≤ 256) :
      Step s (.add url) ⟨s.app.updatePool .regular (addWorkerToPool · url), s.outstanding⟩
  | remove (s : Tracked) (url : String) :
      Step s (.remove url) ⟨s.app.updatePool .regular (removeWorkerFromPool · url), s.outstanding⟩

/-- A new deployment of a counter-tracking policy over a pool of at most 256 healthy workers with
distinct URLs. -/
structure Starts (s : Tracked) : Prop where
  newK8s : ∃ kind workers, AppState.newK8s kind workers = .ok s.app ∧
    kind.tracksLoad = true ∧
    workers.length ≤ 256 ∧ (∀ worker ∈ workers, worker.healthy = true) ∧
    (workers.map Worker.url).Nodup
  idle : s.outstanding = 0

/-- The counter of every position counts the requests sent to the worker now at that position. -/
def Attributed (s : Tracked) : Prop :=
  ∃ (workers : List Worker) (active : Counters), s.app.workersOf .regular = some workers ∧
    s.app.countersOf .regular = some active ∧
    ∀ (i : Nat) (worker : Worker), workers[i]? = some worker →
      active[i]? = some (s.outstanding.countP fun (_, url) => url = worker.url)

/-- When a step leaves every outstanding position with its worker. An addition must not put a worker
at a position that an earlier worker's requests still hold, nor bring back a worker whose requests
hold another position. A removal must be of the last worker, or behind every outstanding request
still in the pool. -/
def Keeps (s : Tracked) : Action → Prop
  | .next _ _ => True
  | .finish _ _ => True
  | .add url => ∀ workers ∈ s.app.workersOf .regular, url ∉ workers.map Worker.url →
      ∀ request ∈ s.outstanding, request.1 = workers.length ↔ request.2 = url
  | .remove url => ∀ workers ∈ s.app.workersOf .regular, ∀ k, k + 1 < workers.length →
      workers[k]?.map Worker.url = some url →
      ∀ request ∈ s.outstanding, request.1 < k ∨ workers.length ≤ request.1

/-- What every run keeps: distinct URLs, a counter for every position, and counter `i` counting the
requests that will complete at `i`. -/
structure Books (s : Tracked) (workers : List Worker) (active : Counters) : Prop where
  mode : s.app.k8sMode = true
  workersOf : s.app.workersOf .regular = some workers
  countersOf : s.app.countersOf .regular = some active
  length : workers.length ≤ 256
  fits : 256 ≤ active.length
  nodup : (workers.map Worker.url).Nodup
  balanced : Ledger.Balanced active.inFlight (s.outstanding.map Prod.fst)

/-- A request is at the position of its worker, or behind the pool when its worker is gone. -/
def Placed (workers : List Worker) (request : Nat × String) : Prop :=
  ∀ i worker, workers[i]? = some worker → (request.1 = i ↔ request.2 = worker.url)

theorem Starts.books {s : Tracked} (h : Starts s) : ∃ workers active, Books s workers active := by
  obtain ⟨app, outstanding⟩ := s
  obtain ⟨⟨kind, workers, hnew, hkind, hlength, -, hnodup⟩, rfl⟩ := h
  simp only [AppState.newK8s, bind_eq_ok] at hnew
  obtain ⟨fallback, -, balancer, hbalancer, hnew⟩ := hnew
  obtain ⟨active, hactive⟩ : ∃ active, balancer.active? = some active := by
    rw [← Option.isSome_iff_exists, Balancer.isSome_active?, Balancer.policy_of_makePolicy hbalancer,
      hkind]
  have hzeros := Balancer.active?_of_makePolicy hbalancer active hactive
  subst hzeros
  cases hnew
  refine ⟨workers, _, rfl, rfl, hactive, hlength, ?_, hnodup, ?_⟩
  · simp [AppState.capacity]
  · exact Ledger.Balanced.empty (Counters.inFlight_zeros _)

section Steps

variable {s t : Tracked} {workers : List Worker} {active : Counters}

/-- With balanced books, attribution compares positions with URLs. -/
theorem Books.attributed_iff (h : Books s workers active) :
    Attributed s ↔ ∀ i worker, workers[i]? = some worker →
      s.outstanding.countP (fun (j, _) => j = i) =
        s.outstanding.countP fun (_, url) => url = worker.url := by
  have hcount : ∀ (i : Nat) (worker : Worker), workers[i]? = some worker →
      active[i]? = some (s.outstanding.countP fun (j, _) => j = i) := by
    intro i worker hworker
    have hi := (List.getElem?_eq_some_iff.mp hworker).1
    rw [Counters.getElem?_eq_inFlight (hi.trans_le (h.length.trans h.fits)), h.balanced i,
      Multiset.count_map, ← Multiset.countP_eq_card_filter]
    simp only [eq_comm]
  constructor
  · rintro ⟨workers', active', hworkers', hactive', hattributed⟩ i worker hworker
    rw [h.workersOf, Option.some.injEq] at hworkers'
    rw [h.countersOf, Option.some.injEq] at hactive'
    subst hworkers' hactive'
    have := (hcount i worker hworker).symm.trans (hattributed i worker hworker)
    exact Option.some.inj this
  · intro hequal
    refine ⟨workers, active, h.workersOf, h.countersOf, fun i worker hworker => ?_⟩
    rw [hcount i worker hworker, hequal i worker hworker]

theorem Books.attributed (h : Books s workers active)
    (hplaced : ∀ request ∈ s.outstanding, Placed workers request) : Attributed s := by
  refine h.attributed_iff.mpr fun i worker hworker => ?_
  refine Multiset.countP_congr rfl fun request hrequest => ?_
  exact propext (hplaced request hrequest i worker hworker)

theorem Books.placed_of_entry (h : Books s workers active) {i : Nat} {url : String} {healthy : Bool}
    (hi : workers[i]? = some ⟨url, healthy⟩) : Placed workers (i, url) := by
  intro j worker hj
  constructor
  · rintro rfl
    rw [hi, Option.some.injEq] at hj
    exact congrArg Worker.url hj
  · rintro rfl
    have hlt : i < (workers.map Worker.url).length := by
      rw [List.length_map]
      exact (List.getElem?_eq_some_iff.mp hi).1
    refine (List.getElem?_inj hlt h.nodup).mp ?_
    rw [List.getElem?_map, List.getElem?_map, hi, hj]
    rfl

theorem Books.next {ctx : RequestContext} {ambient : Ambient} (h : Books s workers active)
    (hstep : Step s (.next ctx ambient) t) :
    (∃ active', Books t workers active') ∧
      ∀ request ∈ t.outstanding, request ∈ s.outstanding ∨ Placed workers request := by
  cases hstep with
  | next hnext =>
      rcases @AppState.next_eq_ok _ _ .regular _ _ _ hnext with
        ⟨rfl, rfl⟩ | ⟨i, url, rfl, hdispatched⟩
      · rw [Option.elim_none, zero_add]
        exact ⟨⟨active, h⟩, fun request hrequest => Or.inl hrequest⟩
      · obtain ⟨workers', hworkers', hentry⟩ := hdispatched.entry
        rw [h.workersOf, Option.some.injEq] at hworkers'
        subst hworkers'
        have hi := hdispatched.lt active h.countersOf
        rw [Option.elim_some, Multiset.singleton_add]
        refine ⟨⟨active.modify i (· + 1), ?_⟩, fun request hrequest => ?_⟩
        · exact
            { mode := hdispatched.k8sMode_eq.trans h.mode
              workersOf := (congrFun hdispatched.workersOf_eq .regular).trans h.workersOf
              countersOf := hdispatched.countersOf_self h.countersOf
              length := h.length
              fits := by rw [List.length_modify]; exact h.fits
              nodup := h.nodup
              balanced := by
                rw [Counters.inFlight_modify_eq_update hi, Multiset.map_cons]
                exact h.balanced.acquire i }
        · rcases Multiset.mem_cons.mp hrequest with rfl | hold
          · exact Or.inr (h.placed_of_entry hentry)
          · exact Or.inl hold

theorem Books.finish {i : Nat} {url : String} (h : Books s workers active)
    (hstep : Step s (.finish i url) t) :
    (∃ active', Books t workers active') ∧ t.outstanding = s.outstanding.erase (i, url) := by
  cases hstep with
  | finish hmem hfinish =>
      refine ⟨?_, rfl⟩
      rcases @AppState.finish_eq_ok _ _ .regular _ hfinish with ⟨hnone, rfl⟩ | hcounted
      · have := h.countersOf
        simp [AppState.countersOf, hnone] at this
      · have hi := hcounted.lt active h.countersOf
        have hheld : i ∈ s.outstanding.map Prod.fst := Multiset.mem_map_of_mem Prod.fst hmem
        refine ⟨active.modify i Counters.decrement, ?_⟩
        exact
          { mode := hcounted.k8sMode_eq.trans h.mode
            workersOf := (congrFun hcounted.workersOf_eq .regular).trans h.workersOf
            countersOf := hcounted.countersOf_self h.countersOf
            length := h.length
            fits := by rw [List.length_modify]; exact h.fits
            nodup := h.nodup
            balanced := by
              rw [Counters.inFlight_modify_eq_update hi,
                Counters.decrement_of_pos (h.balanced.pos hheld),
                Multiset.map_erase_of_mem Prod.fst _ hmem]
              exact h.balanced.release i }

theorem Books.updatePool (h : Books s workers active) (f : List Worker → List Worker)
    (hlength : (f workers).length ≤ 256) (hnodup : ((f workers).map Worker.url).Nodup) :
    Books ⟨s.app.updatePool .regular f, s.outstanding⟩ (f workers) active where
  mode := (AppState.k8sMode_updatePool s.app .regular f).trans h.mode
  workersOf := by
    rw [AppState.workersOf_updatePool h.mode, Function.update_self, h.workersOf, Option.map_some]
  countersOf := by
    rw [AppState.countersOf_updatePool]
    exact h.countersOf
  length := hlength
  fits := h.fits
  nodup := hnodup
  balanced := h.balanced

theorem Books.add {url : String} (h : Books s workers active) (hstep : Step s (.add url) t) :
    Books t (addWorkerToPool workers url) active ∧ t.outstanding = s.outstanding := by
  cases hstep with
  | add hlength =>
      exact ⟨h.updatePool (addWorkerToPool · url) (hlength workers h.workersOf)
        (nodup_addWorkerToPool url h.nodup), rfl⟩

theorem Books.remove {url : String} (h : Books s workers active) (hstep : Step s (.remove url) t) :
    Books t (removeWorkerFromPool workers url) active ∧ t.outstanding = s.outstanding := by
  cases hstep
  exact ⟨h.updatePool (removeWorkerFromPool · url) ((List.length_filter_le _ _).trans h.length)
    (nodup_removeWorkerFromPool url h.nodup), rfl⟩

/-! ### The condition is exact -/

theorem placed_addWorkerToPool_iff {url : String} {request : Nat × String}
    (hplaced : Placed workers request) :
    Placed (addWorkerToPool workers url) request ↔
      (url ∉ workers.map Worker.url → (request.1 = workers.length ↔ request.2 = url)) := by
  by_cases hmem : url ∈ workers.map Worker.url
  · rw [addWorkerToPool_of_mem hmem]
    exact ⟨fun _ hnew => absurd hmem hnew, fun _ => hplaced⟩
  · rw [addWorkerToPool_of_not_mem hmem]
    constructor
    · intro h _
      exact h workers.length (.new url) (by simp)
    · intro hnew i worker hworker
      rw [List.getElem?_append] at hworker
      split at hworker
      · exact hplaced i worker hworker
      · rw [List.getElem?_singleton] at hworker
        split at hworker
        · cases hworker
          have hi : i = workers.length := by omega
          subst hi
          exact hnew hmem
        · cases hworker

theorem placed_remove_iff {before after : List Worker} {removed : Worker} {request : Nat × String}
    (hplaced : Placed (before ++ removed :: after) request) :
    Placed (before ++ after) request ↔
      (after ≠ [] → request.1 < before.length ∨ (before ++ removed :: after).length ≤ request.1) := by
  -- the worker now at `i` was at `i` when `i` is before the removed one, and at `i + 1` otherwise
  have hsame : ∀ i worker, i < before.length → (before ++ after)[i]? = some worker →
      (before ++ removed :: after)[i]? = some worker := by
    intro i worker hi hworker
    rwa [List.getElem?_append_left hi] at hworker ⊢
  have hshift : ∀ i, before.length ≤ i →
      (before ++ removed :: after)[i + 1]? = (before ++ after)[i]? := by
    intro i hi
    rw [List.getElem?_append_right (by omega), List.getElem?_append_right hi,
      show i + 1 - before.length = i - before.length + 1 by omega, List.getElem?_cons_succ]
  constructor
  · intro h hne
    have hpos := List.length_pos_of_ne_nil hne
    by_contra hheld
    rw [not_or, Nat.not_lt, Nat.not_le] at hheld
    obtain ⟨hbehind, hin⟩ := hheld
    simp only [List.length_append, List.length_cons] at hin
    rcases Nat.lt_or_ge request.1 (before.length + after.length) with hlt | hge
    · obtain ⟨worker, hworker⟩ : ∃ worker, (before ++ after)[request.1]? = some worker :=
        ⟨_, List.getElem?_eq_getElem (by simpa using hlt)⟩
      have hurl := (h _ worker hworker).mp rfl
      have := (hplaced _ worker ((hshift _ hbehind).trans hworker)).mpr hurl
      omega
    · obtain ⟨i, hi⟩ : ∃ i, request.1 = i + 1 := ⟨request.1 - 1, by omega⟩
      obtain ⟨worker, hworker⟩ : ∃ worker, (before ++ after)[i]? = some worker :=
        ⟨_, List.getElem?_eq_getElem (by simp; omega)⟩
      have hurl := (hplaced _ worker ((hshift i (by omega)).trans hworker)).mp hi
      have := (h i worker hworker).mpr hurl
      omega
  · intro h i worker hworker
    rcases Nat.lt_or_ge i before.length with hi | hi
    · exact hplaced i worker (hsame i worker hi hworker)
    · have hold := (hshift i hi).trans hworker
      have hlt := (List.getElem?_eq_some_iff.mp hold).1
      have hafter : after ≠ [] := by
        rintro rfl
        simp at hlt
        omega
      have hiff := hplaced (i + 1) worker hold
      have hfree := h hafter
      constructor
      · omega
      · intro hurl
        have := hiff.mpr hurl
        omega

theorem placed_removeWorkerFromPool_iff {url : String} {request : Nat × String}
    (hnodup : (workers.map Worker.url).Nodup) (hplaced : Placed workers request) :
    Placed (removeWorkerFromPool workers url) request ↔
      ∀ k, k + 1 < workers.length → workers[k]?.map Worker.url = some url →
        request.1 < k ∨ workers.length ≤ request.1 := by
  by_cases hmem : url ∈ workers.map Worker.url
  · obtain ⟨removed, hremoved, rfl⟩ := List.mem_map.mp hmem
    obtain ⟨before, after, rfl⟩ := List.append_of_mem hremoved
    rw [removeWorkerFromPool_append hnodup, placed_remove_iff hplaced]
    constructor
    · intro h k hk hurl
      have hposition : k = before.length := by
        have hlt : k < ((before ++ removed :: after).map Worker.url).length := by
          rw [List.length_map]
          omega
        refine (List.getElem?_inj hlt hnodup).mp ?_
        rw [List.getElem?_map, List.getElem?_map, hurl]
        simp
      subst hposition
      refine h ?_
      rintro rfl
      simp at hk
    · intro h hne
      have hpos := List.length_pos_of_ne_nil hne
      exact h before.length (by simp; omega) (by simp)
  · rw [removeWorkerFromPool_of_not_mem hmem]
    refine ⟨fun _ k hk hurl => absurd ?_ hmem, fun _ => hplaced⟩
    rw [← List.getElem?_map] at hurl
    exact List.mem_of_getElem? hurl

/-- From well-placed requests, a step that keeps positions leaves them well placed. -/
theorem Books.step {action : Action} (h : Books s workers active)
    (hplaced : ∀ request ∈ s.outstanding, Placed workers request) (hstep : Step s action t) :
    ∃ workers' active', Books t workers' active' ∧
      (s.Keeps action ↔ ∀ request ∈ t.outstanding, Placed workers' request) := by
  cases action with
  | next ctx ambient =>
      obtain ⟨⟨active', hbooks⟩, hrequests⟩ := h.next hstep
      refine ⟨workers, active', hbooks, fun _ request hrequest => ?_, fun _ => trivial⟩
      exact (hrequests request hrequest).elim (hplaced request) id
  | finish i url =>
      obtain ⟨⟨active', hbooks⟩, hrequests⟩ := h.finish hstep
      refine ⟨workers, active', hbooks, fun _ request hrequest => ?_, fun _ => trivial⟩
      rw [hrequests] at hrequest
      exact hplaced request (Multiset.mem_of_mem_erase hrequest)
  | add url =>
      obtain ⟨hbooks, hrequests⟩ := h.add hstep
      refine ⟨_, active, hbooks, ?_⟩
      simp only [Keeps, hrequests, h.workersOf, Option.mem_some_iff, forall_eq']
      constructor
      · intro hkeeps request hrequest
        exact (placed_addWorkerToPool_iff (hplaced request hrequest)).mpr
          fun hnew => hkeeps hnew request hrequest
      · intro hafter hnew request hrequest
        exact (placed_addWorkerToPool_iff (hplaced request hrequest)).mp
          (hafter request hrequest) hnew
  | remove url =>
      obtain ⟨hbooks, hrequests⟩ := h.remove hstep
      refine ⟨_, active, hbooks, ?_⟩
      simp only [Keeps, hrequests, h.workersOf, Option.mem_some_iff, forall_eq']
      constructor
      · intro hkeeps request hrequest
        exact (placed_removeWorkerFromPool_iff h.nodup (hplaced request hrequest)).mpr
          fun k hk hurl => hkeeps k hk hurl request hrequest
      · intro hafter k hk hurl request hrequest
        exact (placed_removeWorkerFromPool_iff h.nodup (hplaced request hrequest)).mp
          (hafter request hrequest) k hk hurl

/-- A misplaced request shows, at the latest when it completes. -/
theorem Books.not_attributed_of_misplaced (h : Books s workers active) {i : Nat} {url : String}
    (hmem : (i, url) ∈ s.outstanding) (hmisplaced : ¬Placed workers (i, url)) :
    ¬Attributed s ∨ ∃ t, Step s (.finish i url) t ∧ ¬Attributed t := by
  obtain ⟨j, worker, hworker, hdiffer⟩ : ∃ j worker, workers[j]? = some worker ∧
      ¬(i = j ↔ url = worker.url) := by
    simpa only [Placed, not_forall, exists_prop] using hmisplaced
  have hlt : ∀ active' ∈ s.app.countersOf .regular, i < active'.length := by
    intro active' hactive'
    rw [h.countersOf, Option.mem_some_iff] at hactive'
    subst hactive'
    by_contra hout
    have hpos := h.balanced.pos (Multiset.mem_map_of_mem Prod.fst hmem)
    simp [Counters.inFlight, List.getElem?_eq_none (Nat.not_lt.mp hout)] at hpos
  obtain ⟨app', hfinish⟩ := AppState.exists_finish _ hlt
  have hstep : Step s (.finish i url) ⟨app', s.outstanding.erase (i, url)⟩ := .finish hmem hfinish
  by_contra hboth
  rw [not_or, not_not, not_exists] at hboth
  obtain ⟨hbefore, hafter⟩ := hboth
  obtain ⟨⟨active', hbooks'⟩, -⟩ := h.finish hstep
  have hequal := h.attributed_iff.mp hbefore j worker hworker
  have hequal' := hbooks'.attributed_iff.mp (not_not.mp fun hnot => hafter _ ⟨hstep, hnot⟩)
    j worker hworker
  rw [← Multiset.cons_erase hmem, Multiset.countP_cons, Multiset.countP_cons, hequal'] at hequal
  by_cases hi : i = j <;> by_cases hurl : url = worker.url <;> simp_all

end Steps

/-- In a run whose steps all keep positions, every count belongs to the worker at its position. -/
theorem attributed_of_keeping {s : Tracked}
    (hs : Runs.Reachable Starts (fun s t => ∃ action, Step s action t ∧ s.Keeps action) s) :
    Attributed s := by
  have hkept : ∃ workers active, Books s workers active ∧
      ∀ request ∈ s.outstanding, Placed workers request := by
    refine hs.invariant (fun s => ∃ workers active, Books s workers active ∧
      ∀ request ∈ s.outstanding, Placed workers request) ?_ ?_
    · intro s hstart
      obtain ⟨workers, active, hbooks⟩ := hstart.books
      exact ⟨workers, active, hbooks, by simp [hstart.idle]⟩
    · rintro s t - ⟨workers, active, hbooks, hplaced⟩ ⟨action, hstep, hkeeps⟩
      obtain ⟨workers', active', hbooks', hiff⟩ := hbooks.step hplaced hstep
      exact ⟨workers', active', hbooks', hiff.mp hkeeps⟩
  obtain ⟨workers, active, hbooks, hplaced⟩ := hkept
  exact hbooks.attributed hplaced

/-- A step that breaks the condition leads to a wrong count, at once or after one completion. -/
theorem not_attributed_of_breaking {s t : Tracked} {workers : List Worker} {active : Counters}
    {action : Action} (h : Books s workers active)
    (hplaced : ∀ request ∈ s.outstanding, Placed workers request) (hstep : Step s action t)
    (hbreaks : ¬s.Keeps action) :
    ¬Attributed t ∨ ∃ i url t', Step t (.finish i url) t' ∧ ¬Attributed t' := by
  obtain ⟨workers', active', hbooks', hiff⟩ := h.step hplaced hstep
  rw [hiff] at hbreaks
  simp only [not_forall] at hbreaks
  obtain ⟨⟨i, url⟩, hmem, hmisplaced⟩ := hbreaks
  exact (hbooks'.not_attributed_of_misplaced hmem hmisplaced).imp_right
    fun ⟨t', hfinish⟩ => ⟨i, url, t', hfinish⟩

theorem exists_dispatch_second :
    ∃ app app', AppState.newK8s .leastLoaded
        [⟨"10.0.0.1:8000", true⟩, ⟨"10.0.0.2:8000", true⟩] = .ok app ∧
      app.nextWorkerWithContext ⟨"", ""⟩ ⟨fun _ => 1, 0⟩ =
        .ok (some (1, "10.0.0.2:8000"), app') ∧
      app.workersOf .regular = some [⟨"10.0.0.1:8000", true⟩, ⟨"10.0.0.2:8000", true⟩] ∧
      app.k8sMode = true ∧ app.countersOf .regular = some (Counters.zeros 256) :=
by
  obtain ⟨app, hnew⟩ := AppState.exists_newK8s .leastLoaded
    [⟨"10.0.0.1:8000", true⟩, ⟨"10.0.0.2:8000", true⟩]
  obtain ⟨hworkers, hbalancer, hmode⟩ : app.workersOf .regular =
      some [⟨"10.0.0.1:8000", true⟩, ⟨"10.0.0.2:8000", true⟩] ∧
      app.balancerOf .regular = some (.leastLoaded (.new 256)) ∧ app.k8sMode = true := by
    cases hnew
    exact ⟨rfl, rfl, rfl⟩
  have hfits : (Balancer.leastLoaded (.new 256)).Fits 2 := by
    rintro active ⟨⟩
    simp [LeastLoaded.new]
  have hchoice : LeastLoaded.choice (LeastLoaded.new 256).active 2 1 = 1 :=
    LeastLoaded.choice_eq_draw fun j _ => by
      rw [LeastLoaded.new, Counters.inFlight_zeros, Counters.inFlight_zeros]
  have hselect : (Balancer.leastLoaded (.new 256)).selectWithContext
      ["10.0.0.1:8000", "10.0.0.2:8000"] ⟨"", ""⟩ ⟨fun _ => 1, 0⟩ =
        .ok (1, .leastLoaded (.new 256)) := by
    have hpolicy := @Balancer.selectWithContext_leastLoaded ["10.0.0.1:8000", "10.0.0.2:8000"]
      ⟨"", ""⟩ ⟨fun _ => 1, 0⟩ (by decide) (.new 256) (hfits _ rfl)
    exact hpolicy.trans
      (congrArg (fun i => Except.ok (i, Balancer.leastLoaded (.new 256))) hchoice)
  obtain ⟨balancer', hok⟩ : ∃ balancer', AppState.selectFrom
      [⟨"10.0.0.1:8000", true⟩, ⟨"10.0.0.2:8000", true⟩] (.leastLoaded (.new 256)) ⟨"", ""⟩
      ⟨fun _ => 1, 0⟩ = .ok (some (1, "10.0.0.2:8000"), balancer') :=
    AppState.exists_selectFrom_of_select hfits hselect rfl
  refine ⟨app, _, hnew, AppState.next_of_selectFrom hworkers hbalancer hok, hworkers, hmode, ?_⟩
  simp [AppState.countersOf, hbalancer, Balancer.active?, LeastLoaded.new]

theorem starts_of_newK8s {app : AppState}
    (hnew : AppState.newK8s .leastLoaded
      [⟨"10.0.0.1:8000", true⟩, ⟨"10.0.0.2:8000", true⟩] = .ok app) : Starts ⟨app, 0⟩ :=
  ⟨⟨.leastLoaded, _, hnew, rfl, by decide, by decide, by decide⟩, rfl⟩

/-- Two workers are added behind the one that has a request, and the first of them is removed. -/
theorem attributed_after_pool_changes :
    ∃ s : Tracked, s.outstanding = {(1, "10.0.0.2:8000")} ∧
      s.app.workersOf .regular = some [⟨"10.0.0.1:8000", true⟩, ⟨"10.0.0.2:8000", true⟩,
        ⟨"10.0.0.4:8000", true⟩] ∧
      Attributed s := by
  obtain ⟨app, app', hnew, hnext, hworkers, hmode, -⟩ := exists_dispatch_second
  obtain ⟨hmode', hworkers'⟩ : app'.k8sMode = true ∧ app'.workersOf .regular =
      some [⟨"10.0.0.1:8000", true⟩, ⟨"10.0.0.2:8000", true⟩] := by
    rcases @AppState.next_eq_ok _ _ .regular _ _ _ hnext with ⟨hnone, -⟩ | ⟨i, url, -, hdispatched⟩
    · cases hnone
    · exact ⟨hdispatched.k8sMode_eq.trans hmode, by rw [hdispatched.workersOf_eq, hworkers]⟩
  let third := app'.updatePool .regular (addWorkerToPool · "10.0.0.3:8000")
  let fourth := third.updatePool .regular (addWorkerToPool · "10.0.0.4:8000")
  have hthird : third.workersOf .regular = some [⟨"10.0.0.1:8000", true⟩, ⟨"10.0.0.2:8000", true⟩,
      ⟨"10.0.0.3:8000", true⟩] := by
    rw [AppState.workersOf_updatePool hmode', Function.update_self, hworkers']
    rfl
  have hfourth : fourth.workersOf .regular = some [⟨"10.0.0.1:8000", true⟩, ⟨"10.0.0.2:8000", true⟩,
      ⟨"10.0.0.3:8000", true⟩, ⟨"10.0.0.4:8000", true⟩] := by
    rw [AppState.workersOf_updatePool (by simpa [third] using hmode'), Function.update_self, hthird]
    rfl
  have hpool : (fourth.updatePool .regular (removeWorkerFromPool · "10.0.0.3:8000")).workersOf
      .regular = some [⟨"10.0.0.1:8000", true⟩, ⟨"10.0.0.2:8000", true⟩, ⟨"10.0.0.4:8000", true⟩] := by
    rw [AppState.workersOf_updatePool (by simpa [fourth, third] using hmode'), Function.update_self,
      hfourth]
    decide +kernel
  have hdispatched : Runs.Reachable Starts
      (fun s t => ∃ action, Step s action t ∧ s.Keeps action) ⟨app', _⟩ :=
    (Runs.Reachable.of_start (starts_of_newK8s hnew)).tail ⟨.next _ _, .next hnext, trivial⟩
  have hadded : Runs.Reachable Starts
      (fun s t => ∃ action, Step s action t ∧ s.Keeps action) ⟨third, {(1, "10.0.0.2:8000")}⟩ := by
    refine hdispatched.tail ⟨.add "10.0.0.3:8000", .add ?_, ?_⟩
    · intro workers hmem
      obtain rfl := Option.some.inj (hworkers'.symm.trans hmem)
      decide
    · intro workers hmem _ request hrequest
      obtain rfl := Option.some.inj (hworkers'.symm.trans hmem)
      obtain rfl := Multiset.mem_singleton.mp hrequest
      decide
  have hgrown : Runs.Reachable Starts
      (fun s t => ∃ action, Step s action t ∧ s.Keeps action) ⟨fourth, {(1, "10.0.0.2:8000")}⟩ := by
    refine hadded.tail ⟨.add "10.0.0.4:8000", .add ?_, ?_⟩
    · intro workers hmem
      obtain rfl := Option.some.inj (hthird.symm.trans hmem)
      decide
    · intro workers hmem _ request hrequest
      obtain rfl := Option.some.inj (hthird.symm.trans hmem)
      obtain rfl := Multiset.mem_singleton.mp hrequest
      decide
  refine ⟨_, rfl, hpool, attributed_of_keeping (hgrown.tail
    ⟨.remove "10.0.0.3:8000", .remove _ _, fun workers hmem k hk hurl request hrequest => ?_⟩)⟩
  obtain rfl := Option.some.inj (hfourth.symm.trans hmem)
  obtain rfl := Multiset.mem_singleton.mp hrequest
  -- the removed worker is behind the one that has the request
  match k, hurl with
  | 0, hurl => exact absurd hurl (by decide)
  | 1, hurl => exact absurd hurl (by decide)
  | k + 2, _ => exact Or.inl (Nat.lt_add_left k Nat.one_lt_two)

/-- A request goes to the second of two workers and the first one is removed: the second worker is
now read at position 0, whose counter is zero. -/
theorem not_attributed_after_removal :
    ∃ s, Runs.Reachable Starts (fun s t => ∃ action, Step s action t) s ∧ ¬Attributed s := by
  obtain ⟨app, app', hnew, hnext, hworkers, hmode, hactive⟩ := exists_dispatch_second
  refine ⟨_, ((Runs.Reachable.of_start (starts_of_newK8s hnew)).tail
    ⟨.next _ _, .next hnext⟩).tail ⟨.remove "10.0.0.1:8000", .remove _ _⟩, ?_⟩
  rintro ⟨workers', active', hworkers', hactive', hcount⟩
  rcases @AppState.next_eq_ok _ _ .regular _ _ _ hnext with ⟨hnone, -⟩ | ⟨i, url, hsome, hdispatched⟩
  · cases hnone
  · cases hsome
    rw [AppState.workersOf_updatePool (hdispatched.k8sMode_eq.trans hmode), Function.update_self,
      hdispatched.workersOf_eq, hworkers] at hworkers'
    rw [AppState.countersOf_updatePool, hdispatched.countersOf_self hactive] at hactive'
    cases hworkers'
    cases hactive'
    have hread := hcount 0 ⟨"10.0.0.2:8000", true⟩ (by decide)
    simp only [Counters.zeros, List.getElem?_modify, List.getElem?_replicate] at hread
    exact absurd hread (by decide)

end Tracked

end TokenDog
