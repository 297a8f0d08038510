import TokenDog.Discovery.Sections
import Mathlib.Data.Fintype.Basic

/-!
# The watcher and the reconciliation task side by side

The two tasks share the tracker and the pools and interleave section by section. Where every pod has
its own name and IP, a pod is seen through a status of two flags and of the halves of operations
that the tasks have still to run. Four kinds of steps tear a pod's state; runs without them keep
tracker and pools in agreement.
-/

namespace TokenDog

namespace Discovery

/-- No two pods share a name or an IP, and a pod keeps its IP and its role. -/
def DistinctPods (world : Set PodInfo) : Prop :=
  ∀ pod ∈ world, ∀ other ∈ world, pod.name = other.name ∨ pod.ip = other.ip →
    pod.key = other.key ∧ pod.ip = other.ip ∧ pod.podType = other.podType

/-- The shared state, and the sections each task has still to run. -/
structure System where
  shared : Discovery
  watcher : List PodSection
  reconciler : List PodSection

inductive Action where
  | event (order : HashOrder) (pod : PodInfo)
  | deletion (pod : PodInfo)
  | reconcile (order : HashOrder) (podList : List Pod)
  | watcher
  | reconciler

def Action.Within (env : DiscoveryEnv) (world : Set PodInfo) : Action → Prop
  | .event _ pod => pod ∈ world
  | .deletion pod => pod ∈ world
  | .reconcile _ podList => ∀ pod ∈ buildLivePodSet podList env.config, pod ∈ world
  | .watcher => True
  | .reconciler => True

namespace System

def initial : System := ⟨empty, [], []⟩

/-- Between operations a task takes up the next one, within an operation it runs its next section. -/
def step (env : DiscoveryEnv) (s : System) : Action → Option System
  | .event order pod =>
      if s.watcher.isEmpty then some { s with watcher := [.track order pod] } else none
  | .deletion pod => if s.watcher.isEmpty then some { s with watcher := [.delete pod] } else none
  | .reconcile order podList =>
      if s.reconciler.isEmpty then some { s with reconciler := [.diff order podList] } else none
  | .watcher =>
      match s.watcher with
      | [] => none
      | first :: rest =>
          let (shared, next) := first.run env s.shared
          some { s with shared, watcher := next ++ rest }
  | .reconciler =>
      match s.reconciler with
      | [] => none
      | first :: rest =>
          let (shared, next) := first.run env s.shared
          some { s with shared, reconciler := next ++ rest }

/-- The next section of one task falls between the two sections of an operation of the other on the
same pod, in one of the four ways that leave the pod half there. -/
inductive Tears (s : System) : Action → Prop where
  /-- The watcher tracks a pod whose entry the reconciler is about to drop as stale. -/
  | trackStale {order : HashOrder} {pod stale : PodInfo} {rest after : List PodSection}
      (hwatcher : s.watcher = .track order pod :: rest)
      (hreconciler : s.reconciler = .untrackStale stale :: after) (hkey : stale.key = pod.key)
      (hhealthy : pod.isHealthy = true) (hnew : s.shared.tracked.contains pod = false) :
      Tears s .watcher
  /-- The reconciler drops a stale pod that the watcher tracked and is about to add. -/
  | dropAdded {pod added : PodInfo} {rest after : List PodSection}
      (hreconciler : s.reconciler = .dropStale pod :: rest)
      (hwatcher : s.watcher = .add added :: after) (hkey : added.key = pod.key) :
      Tears s .reconciler
  /-- The reconciler adds a pod it tracked that the watcher is about to remove. -/
  | addRemoved {pod removed : PodInfo} {rest after : List PodSection}
      (hreconciler : s.reconciler = .add pod :: rest)
      (hwatcher : s.watcher = .remove removed :: after) (hkey : removed.key = pod.key)
      (htracked : s.shared.tracked.contains pod = true) : Tears s .reconciler
  /-- The watcher removes a deleted pod that the reconciler is about to add. -/
  | removeAdded {pod added : PodInfo} {rest after : List PodSection}
      (hwatcher : s.watcher = .remove pod :: rest)
      (hreconciler : s.reconciler = .add added :: after) (hkey : added.key = pod.key)
      (hdeleted : s.shared.tracked.contains pod = false) : Tears s .watcher

/-- A step of either task on pods of the world. -/
def Step (env : DiscoveryEnv) (world : Set PodInfo) (s t : System) : Prop :=
  ∃ action, action.Within env world ∧ s.step env action = some t

def KeepingStep (env : DiscoveryEnv) (world : Set PodInfo) (s t : System) : Prop :=
  ∃ action, action.Within env world ∧ ¬s.Tears action ∧ s.step env action = some t

variable {env : DiscoveryEnv} {s t : Discovery} {sections : List PodSection}

theorem watcher_of_completes (h : Sections.Completes (PodSection.run env) sections s t)
    (reconciler : List PodSection) : Relation.ReflTransGen (Step env Set.univ)
      ⟨s, sections, reconciler⟩ ⟨t, [], reconciler⟩ := by
  have halone := h []
  rw [List.append_nil] at halone
  refine halone.lift (fun task => System.mk task.2 task.1 reconciler) fun _ _ hstep => ?_
  cases hstep
  exact ⟨.watcher, trivial, rfl⟩

theorem reconciler_of_completes (h : Sections.Completes (PodSection.run env) sections s t)
    (watcher : List PodSection) : Relation.ReflTransGen (Step env Set.univ)
      ⟨s, watcher, sections⟩ ⟨t, watcher, []⟩ := by
  have halone := h []
  rw [List.append_nil] at halone
  refine halone.lift (fun task => System.mk task.2 watcher task.1) fun _ _ hstep => ?_
  cases hstep
  exact ⟨.reconciler, trivial, rfl⟩

/-- A call that no other task interrupts is a run of its sections. -/
theorem steps_of_call (env : DiscoveryEnv) (call : Call) (s : Discovery) :
    Relation.ReflTransGen (Step env Set.univ) ⟨s, [], []⟩ ⟨perform env call s, [], []⟩ := by
  cases call with
  | event order pod =>
      refine .head ⟨.event order pod, Set.mem_univ pod, rfl⟩ ?_
      exact watcher_of_completes (PodSection.completes_track order pod s) []
  | deletion pod =>
      refine .head ⟨.deletion pod, Set.mem_univ pod, rfl⟩ ?_
      exact watcher_of_completes (PodSection.completes_delete pod s) []
  | reconcile order listed =>
      cases listed with
      | none => exact .refl  -- the list call failed
      | some podList =>
          refine .head ⟨.reconcile order podList, fun pod _ => Set.mem_univ pod, rfl⟩ ?_
          exact reconciler_of_completes (PodSection.completes_diff order podList s) []

/-- Handlers that are called one after another do what one of the interleavings of their sections
does. -/
theorem interleaves_calls (env : DiscoveryEnv) (calls : List Call) :
    Runs.Reachable (· = initial) (Step env Set.univ)
      ⟨calls.foldl (fun s call => perform env call s) empty, [], []⟩ := by
  induction calls using List.reverseRecOn with
  | nil => exact .of_start rfl
  | append_singleton calls call ih =>
      rw [List.foldl_append]
      exact ih.append (steps_of_call env call _)

end System

/-- What a task has still to do with a pod after the first section of an operation. -/
inductive Half where
  | none
  | add
  | remove
  | untrack
  deriving DecidableEq

instance : Fintype Half := ⟨{.none, .add, .remove, .untrack}, by rintro (_ | _) <;> decide⟩

/-- The sections that concern one pod. -/
inductive Move where
  | track
  | add
  | delete
  | remove
  | dropStale
  | untrackStale
  deriving DecidableEq

instance : Fintype Move :=
  ⟨{.track, .add, .delete, .remove, .dropStale, .untrackStale}, by rintro (_ | _) <;> decide⟩

namespace Move

/-- The half of an operation the section is. -/
def half : Move → Half
  | add => .add
  | remove => .remove
  | untrackStale => .untrack
  | _ => .none

/-- Whether the pod is tracked and listed afterwards, and the half that is left to do. -/
def run (move : Move) (tracked listed : Bool) : Bool × Bool × Half :=
  match move with
  | track => if tracked then (tracked, listed, .none) else (true, listed, .add)
  | add => (tracked, true, .none)
  | delete => (false, listed, if tracked then .remove else .none)
  | remove => (tracked, false, .none)
  | dropStale => (tracked, false, .untrack)
  | untrackStale => (false, listed, .none)

def watches : Move → Bool
  | track | add | delete | remove => true
  | _ => false

def reconciles : Move → Bool
  | track | add | dropStale | untrackStale => true
  | _ => false

end Move

def Half.move : Half → Option Move
  | none => Option.none
  | add => some .add
  | remove => some .remove
  | untrack => some .untrackStale

/-- Whether a pod is tracked and listed, and the halves the two tasks have still to run on it. -/
structure Status where
  tracked : Bool
  listed : Bool
  watcher : Half
  reconciler : Half

namespace Status

def watcherMoves (status : Status) (move : Move) : Status :=
  let (tracked, listed, half) := move.run status.tracked status.listed
  { status with tracked, listed, watcher := half }

def reconcilerMoves (status : Status) (move : Move) : Status :=
  let (tracked, listed, half) := move.run status.tracked status.listed
  { status with tracked, listed, reconciler := half }

def watcherFinishes (status : Status) : Status :=
  status.watcher.move.elim status status.watcherMoves

def reconcilerFinishes (status : Status) : Status :=
  status.reconciler.move.elim status status.reconcilerMoves

def agrees (status : Status) : Bool := status.tracked == status.listed

/-- In one of the two orders, running the halves that are left makes tracker and pool agree. -/
def sound (status : Status) : Bool :=
  status.watcherFinishes.reconcilerFinishes.agrees ||
    status.reconcilerFinishes.watcherFinishes.agrees

def watcherTears (status : Status) : Move → Bool
  | .track => !status.tracked && status.reconciler == .untrack
  | .remove => !status.tracked && status.reconciler == .add
  | _ => false

def reconcilerTears (status : Status) : Move → Bool
  | .dropStale => status.watcher == .add
  | .add => status.tracked && status.watcher == .remove
  | _ => false

theorem sound_watcherMoves : ∀ (tracked listed : Bool) (watcher reconciler : Half) (move : Move),
    move.watches = true → watcher = move.half → reconciler ≠ .remove →
      sound ⟨tracked, listed, watcher, reconciler⟩ = true →
        sound (watcherMoves ⟨tracked, listed, watcher, reconciler⟩ move) =
          !watcherTears ⟨tracked, listed, watcher, reconciler⟩ move := by
  decide

theorem sound_reconcilerMoves :
    ∀ (tracked listed : Bool) (watcher reconciler : Half) (move : Move),
      move.reconciles = true → reconciler = move.half → watcher ≠ .untrack →
        sound ⟨tracked, listed, watcher, reconciler⟩ = true →
          sound (reconcilerMoves ⟨tracked, listed, watcher, reconciler⟩ move) =
            !reconcilerTears ⟨tracked, listed, watcher, reconciler⟩ move := by
  decide

end Status

namespace PodSection

/-- What the section does, and to which pod. Evictions never happen among distinct pods. -/
def move : PodSection → Option (Move × PodInfo)
  | .track _ pod => if pod.isHealthy then some (.track, pod) else none
  | .evict _ _ => none
  | .add pod => some (.add, pod)
  | .delete pod => some (.delete, pod)
  | .remove pod => some (.remove, pod)
  | .dropStale pod => some (.dropStale, pod)
  | .untrackStale pod => some (.untrackStale, pod)
  | .diff _ _ => none

/-- The pods of a section are pods of the world, and nothing is evicted. -/
def Within (env : DiscoveryEnv) (world : Set PodInfo) : PodSection → Prop
  | .evict _ _ => False
  | .diff _ podList => ∀ pod ∈ buildLivePodSet podList env.config, pod ∈ world
  | .track _ pod | .add pod | .delete pod | .remove pod | .dropStale pod | .untrackStale pod =>
      pod ∈ world

def opens : PodSection → Bool
  | .track _ _ | .delete _ | .dropStale _ | .diff _ _ => true
  | _ => false

def watches : PodSection → Bool
  | .track _ _ | .add _ | .delete _ | .remove _ => true
  | _ => false

def reconciles : PodSection → Bool
  | .track _ _ | .add _ | .dropStale _ | .untrackStale _ | .diff _ _ => true
  | _ => false

end PodSection

/-- The half of an operation on the pod that a task is in. -/
def half (pod : PodInfo) : List PodSection → Half
  | [] => .none
  | first :: _ =>
      match first.move with
      | some (move, target) => if target.key = pod.key then move.half else .none
      | none => .none

def lists (env : DiscoveryEnv) (s : Discovery) (pod : PodInfo) : Bool :=
  (s.pools (env.selectPool pod)).any (·.url == env.workerUrl pod)

def System.status (env : DiscoveryEnv) (s : System) (pod : PodInfo) : Status :=
  ⟨s.shared.tracked.contains pod, lists env s.shared pod, half pod s.watcher,
    half pod s.reconciler⟩

variable {env : DiscoveryEnv} {world : Set PodInfo}

theorem lists_iff {s : Discovery} {pod : PodInfo} :
    lists env s pod = true ↔ env.view pod ∈ s.urls := by
  simp [lists, urls, DiscoveryEnv.view]

theorem DistinctPods.view_eq_iff (env : DiscoveryEnv) (hworld : DistinctPods world) {pod other : PodInfo}
    (hpod : pod ∈ world) (hother : other ∈ world) :
    env.view pod = env.view other ↔ pod.key = other.key := by
  constructor
  · intro hview
    have hurl : env.workerUrl pod = env.workerUrl other := congrArg Prod.snd hview
    simp only [DiscoveryEnv.workerUrl, PodInfo.workerUrl, String.append_left_inj] at hurl
    exact (hworld pod hpod other hother (Or.inr hurl)).1
  · intro hkey
    obtain ⟨-, hip, htype⟩ :=
      hworld pod hpod other hother (Or.inl (congrArg Prod.fst hkey))
    simp [DiscoveryEnv.view, DiscoveryEnv.selectPool, DiscoveryEnv.workerUrl, PodInfo.workerUrl,
      hip, htype]

theorem DistinctPods.restarted_eq_none (hworld : DistinctPods world) (order : HashOrder)
    {tracked : PodSet} {pod : PodInfo} (htracked : ∀ entry ∈ tracked, entry ∈ world)
    (hpod : pod ∈ world) : restarted order tracked pod = none := by
  rw [restarted, List.find?_eq_none]
  intro entry hentry hmatch
  rw [Bool.and_eq_true, beq_iff_eq, bne_iff_ne] at hmatch
  have hkey := (hworld entry (htracked entry ((order.perm _).mem_iff.mp hentry)) pod hpod
    (Or.inl hmatch.1)).1
  exact hmatch.2 (congrArg Prod.snd hkey)

theorem lists_addUrl (hworld : DistinctPods world) {target pod : PodInfo} (htarget : target ∈ world)
    (hpod : pod ∈ world) (s : Discovery) :
    lists env (s.addUrl (env.selectPool target) (env.workerUrl target)) pod =
      (lists env s pod || target.key == pod.key) := by
  rw [Bool.eq_iff_iff, Bool.or_eq_true, lists_iff, lists_iff, urls_addUrl, Set.mem_insert_iff,
    beq_iff_eq, ← hworld.view_eq_iff env htarget hpod, eq_comm, or_comm]
  rfl

theorem lists_removeUrl (hworld : DistinctPods world) {target pod : PodInfo}
    (htarget : target ∈ world) (hpod : pod ∈ world) (s : Discovery) :
    lists env (s.removeUrl (env.selectPool target) (env.workerUrl target)) pod =
      (lists env s pod && target.key != pod.key) := by
  rw [Bool.eq_iff_iff, Bool.and_eq_true, lists_iff, lists_iff, urls_removeUrl, Set.mem_sdiff,
    Set.mem_singleton_iff, bne_iff_ne, Ne, ← hworld.view_eq_iff env htarget hpod, eq_comm]
  rfl

/-- A section on a pod of the world acts on a pod as its move if it is that pod, and not at all on
the others. -/
theorem PodSection.run_of_move (hworld : DistinctPods world) {sec : PodSection}
    {s : Discovery} {move : Move} {target pod : PodInfo} (hwithin : sec.Within env world)
    (htracked : ∀ entry ∈ s.tracked, entry ∈ world) (hmove : sec.move = some (move, target))
    (hpod : pod ∈ world) :
    ((sec.run env s).1.tracked.contains pod, lists env (sec.run env s).1 pod,
        half pod (sec.run env s).2) =
      if target.key = pod.key then move.run (s.tracked.contains pod) (lists env s pod)
      else (s.tracked.contains pod, lists env s pod, .none) := by
  cases sec with
  | track order target =>
      obtain ⟨hhealthy, hpair⟩ := Option.ite_none_right_eq_some.mp hmove
      obtain ⟨rfl, rfl⟩ := Prod.mk.inj (Option.some.inj hpair)
      have hold := hworld.restarted_eq_none order htracked hwithin
      cases hcontains : s.tracked.contains target with
      | true =>
          have hrun : run env (.track order target) s = (s, []) := by
            simp [run, trackEvent, hhealthy, hcontains]
          rw [hrun]
          split
          · rename_i hkey
            rw [← PodSet.contains_congr hkey, hcontains]
            rfl
          · rfl
      | false =>
          have hrun : run env (.track order target) s =
              ({ s with tracked := s.tracked.insert target }, [.add target]) := by
            simp [run, trackEvent, hhealthy, hcontains, hold]
          rw [hrun]
          simp only [PodSet.contains_insert, half, PodSection.move]
          split
          · rename_i hkey
            rw [← PodSet.contains_congr hkey, hcontains]
            simp [Move.run, Move.half, hkey, lists]
          · simp_all [lists]
  | evict _ _ => exact hwithin.elim
  | add target =>
      cases hmove
      simp only [run, tracked_addUrl, lists_addUrl hworld hwithin hpod]
      by_cases hkey : target.key = pod.key <;> simp [Move.run, half, hkey]
  | delete target =>
      cases hmove
      simp only [run, tracked_untrack, PodSet.contains_remove]
      by_cases hkey : target.key = pod.key
      · rw [PodSet.contains_congr hkey]
        cases s.tracked.contains pod <;>
          simp [Move.run, half, PodSection.move, Move.half, hkey, lists, untrack]
      · cases s.tracked.contains target <;>
          simp [half, PodSection.move, hkey, lists, untrack]
  | remove target =>
      cases hmove
      simp only [run, tracked_removeUrl, lists_removeUrl hworld hwithin hpod]
      by_cases hkey : target.key = pod.key <;> simp [Move.run, half, hkey]
  | dropStale target =>
      cases hmove
      simp only [run, tracked_removeUrl, lists_removeUrl hworld hwithin hpod]
      by_cases hkey : target.key = pod.key <;>
        simp [Move.run, half, PodSection.move, Move.half, hkey]
  | untrackStale target =>
      cases hmove
      simp only [run, tracked_untrack, PodSet.contains_remove]
      by_cases hkey : target.key = pod.key <;> simp [Move.run, half, hkey, lists, untrack]
  | diff _ _ => cases hmove

/-! ### Tasks on pods of the world -/

/-- Only pods of the world are tracked, and only their URLs are in the pools. -/
structure Inside (env : DiscoveryEnv) (world : Set PodInfo) (s : Discovery) : Prop where
  tracked : ∀ entry ∈ s.tracked, entry ∈ world
  urls : s.urls ⊆ env.view '' world

/-- The sections of a task are of its kind and on pods of the world, and all but the first one are
the first of their operation. -/
structure Orderly (env : DiscoveryEnv) (world : Set PodInfo) (kind : PodSection → Bool)
    (task : List PodSection) : Prop where
  within : ∀ sec ∈ task, sec.Within env world
  kind : ∀ sec ∈ task, kind sec = true
  opens : ∀ sec ∈ task.tail, sec.opens = true

theorem PodSection.inside_run (hworld : DistinctPods world) {sec : PodSection} {s : Discovery}
    (hs : Inside env world s) (hwithin : sec.Within env world) :
    Inside env world (sec.run env s).1 := by
  have hadd : ∀ pod ∈ world,
      (s.addUrl (env.selectPool pod) (env.workerUrl pod)).urls ⊆ env.view '' world := by
    intro pod hpod
    rw [urls_addUrl]
    exact Set.insert_subset ⟨pod, hpod, rfl⟩ hs.urls
  have hremove : ∀ pool url, (s.removeUrl pool url).urls ⊆ env.view '' world := by
    intro pool url
    rw [urls_removeUrl]
    exact Set.sdiff_subset.trans hs.urls
  have huntrack : ∀ pod, ∀ entry ∈ s.tracked.remove pod, entry ∈ world :=
    fun pod entry hentry => hs.tracked entry (PodSet.mem_remove.mp hentry).1
  cases sec with
  | track order pod =>
      have hold := hworld.restarted_eq_none order hs.tracked hwithin
      simp only [run, trackEvent, hold]
      split
      · split
        · exact hs
        · rename_i hnew
          refine ⟨fun entry hentry => ?_, hs.urls⟩
          rcases (PodSet.mem_insert_of_not_contains (Bool.eq_false_iff.mpr hnew)).mp hentry with
            hentry | rfl
          · exact hs.tracked entry hentry
          · exact hwithin
      · exact hs
  | evict pod old => exact hwithin.elim
  | add pod => exact ⟨hs.tracked, hadd pod hwithin⟩
  | delete pod => exact ⟨huntrack pod, hs.urls⟩
  | remove pod => exact ⟨hs.tracked, hremove _ _⟩
  | dropStale pod => exact ⟨hs.tracked, hremove _ _⟩
  | untrackStale pod => exact ⟨huntrack pod, hs.urls⟩
  | diff order podList => exact hs

theorem PodSection.orderly_run (hworld : DistinctPods world) {kind : PodSection → Bool}
    (hkind : kind = watches ∨ kind = reconciles) {sec : PodSection} {s : Discovery}
    (hs : Inside env world s) (hwithin : sec.Within env world) (hsec : kind sec = true) :
    Orderly env world kind (sec.run env s).2 := by
  have hsingle : ∀ next : PodSection, next.Within env world → kind next = true →
      Orderly env world kind [next] := fun next hnext hnextKind =>
    ⟨by simpa using hnext, by simpa using hnextKind, by simp⟩
  have hnil : Orderly env world kind [] := ⟨by simp, by simp, by simp⟩
  cases sec with
  | track order pod =>
      have hold := hworld.restarted_eq_none order hs.tracked hwithin
      simp only [run, trackEvent, hold]
      split
      · split
        · exact hnil
        · exact hsingle _ hwithin (by rcases hkind with rfl | rfl <;> rfl)
      · exact hnil
  | evict pod old => exact hwithin.elim
  | add pod => exact hnil
  | delete pod =>
      simp only [run]
      split
      · refine hsingle _ hwithin ?_
        rcases hkind with rfl | rfl
        · rfl
        · cases hsec
      · exact hnil
  | remove pod => exact hnil
  | dropStale pod =>
      refine hsingle _ hwithin ?_
      rcases hkind with rfl | rfl
      · cases hsec
      · rfl
  | untrackStale pod => exact hnil
  | diff order podList =>
      rcases hkind with rfl | rfl
      · cases hsec
      · have hmem : ∀ next ∈ (run env (.diff order podList) s).2,
            (∃ pod ∈ world, next = .dropStale pod) ∨ ∃ pod ∈ world, next = .track order pod := by
          intro next hnext
          rcases List.mem_append.mp hnext with hnext | hnext
          · obtain ⟨pod, hpod, rfl⟩ := List.mem_map.mp hnext
            exact Or.inl ⟨pod, hs.tracked pod (mem_stale.mp hpod).1, rfl⟩
          · obtain ⟨pod, hpod, rfl⟩ := List.mem_map.mp hnext
            exact Or.inr ⟨pod, hwithin pod (mem_missing.mp hpod).1, rfl⟩
        refine ⟨fun next hnext => ?_, fun next hnext => ?_, fun next hnext => ?_⟩
        · rcases hmem next hnext with ⟨pod, hpod, rfl⟩ | ⟨pod, hpod, rfl⟩ <;> exact hpod
        · rcases hmem next hnext with ⟨pod, hpod, rfl⟩ | ⟨pod, hpod, rfl⟩ <;> rfl
        · rcases hmem next (List.mem_of_mem_tail hnext) with ⟨pod, hpod, rfl⟩ | ⟨pod, hpod, rfl⟩ <;>
            rfl

theorem Orderly.append {kind : PodSection → Bool} {next rest : List PodSection}
    (hnext : Orderly env world kind next) {first : PodSection}
    (htask : Orderly env world kind (first :: rest)) :
    Orderly env world kind (next ++ rest) := by
  refine ⟨fun sec hsec => ?_, fun sec hsec => ?_, fun sec hsec => ?_⟩
  · exact (List.mem_append.mp hsec).elim (hnext.within sec)
      fun h => htask.within sec (List.mem_cons_of_mem _ h)
  · exact (List.mem_append.mp hsec).elim (hnext.kind sec)
      fun h => htask.kind sec (List.mem_cons_of_mem _ h)
  · cases next with
    | nil => exact htask.opens sec (List.mem_of_mem_tail hsec)
    | cons head tail => exact (List.mem_append.mp hsec).elim (hnext.opens sec) (htask.opens sec)

theorem half_cons {pod target : PodInfo} {first : PodSection} {rest : List PodSection} {move : Move}
    (hmove : first.move = some (move, target)) :
    half pod (first :: rest) = if target.key = pod.key then move.half else .none := by
  rw [half, hmove]

theorem half_cons_of_move_eq_none {pod : PodInfo} {first : PodSection} {rest : List PodSection}
    (hmove : first.move = none) : half pod (first :: rest) = .none := by
  rw [half, hmove]

theorem PodSection.half_of_opens {sec : PodSection} {move : Move} {target : PodInfo}
    (hopens : sec.opens = true) (hmove : sec.move = some (move, target)) : move.half = .none := by
  cases sec with
  | track order pod =>
      cases (Option.ite_none_right_eq_some.mp hmove).2
      rfl
  | delete pod => cases hmove; rfl
  | dropStale pod => cases hmove; rfl
  | diff order podList => cases hmove
  | evict pod old => cases hmove
  | add pod => cases hopens
  | remove pod => cases hopens
  | untrackStale pod => cases hopens

theorem half_of_opens {pod : PodInfo} {task : List PodSection}
    (hopens : ∀ sec ∈ task.head?, sec.opens = true) : half pod task = .none := by
  cases task with
  | nil => rfl
  | cons first rest =>
      cases hmove : first.move with
      | none => exact half_cons_of_move_eq_none hmove
      | some action => rw [half_cons hmove, PodSection.half_of_opens (hopens first rfl) hmove, ite_self]

theorem half_of_idle (pod : PodInfo) {task : List PodSection} {sec : PodSection}
    (hidle : task.isEmpty = true) (hopens : sec.opens = true) : half pod [sec] = half pod task := by
  rw [List.isEmpty_iff.mp hidle]
  exact half_of_opens (by simpa using hopens)

theorem half_append {pod : PodInfo} {next rest : List PodSection}
    (hopens : ∀ sec ∈ rest, sec.opens = true) : half pod (next ++ rest) = half pod next := by
  cases next with
  | nil => exact half_of_opens fun sec hsec => hopens sec (List.mem_of_mem_head? hsec)
  | cons first tail => rfl

def PodSection.completing (target : PodInfo) : Half → Option PodSection
  | .none => none
  | .add => some (.add target)
  | .remove => some (.remove target)
  | .untrack => some (.untrackStale target)

theorem PodSection.completing_eq_some_iff {first : PodSection} {target : PodInfo} {expected : Half}
    (hsome : expected ≠ .none) :
    PodSection.completing target expected = some first ↔
      ∃ move, first.move = some (move, target) ∧ move.half = expected := by
  constructor
  · intro hfirst
    cases expected <;> cases hfirst <;> exact ⟨_, rfl, rfl⟩
  · rintro ⟨move, hmove, rfl⟩
    cases first with
    | track order pod =>
        cases (Option.ite_none_right_eq_some.mp hmove).2
        exact absurd rfl hsome
    | evict _ _ => cases hmove
    | diff _ _ => cases hmove
    | delete _ => cases hmove; exact absurd rfl hsome
    | dropStale _ => cases hmove; exact absurd rfl hsome
    | add _ => cases hmove; rfl
    | remove _ => cases hmove; rfl
    | untrackStale _ => cases hmove; rfl

/-- A task is in a half of an operation on a pod if the section that completes it comes next. -/
theorem half_eq_iff {pod : PodInfo} {task : List PodSection} {expected : Half}
    (hsome : expected ≠ .none) :
    half pod task = expected ↔ ∃ target rest first, task = first :: rest ∧
      PodSection.completing target expected = some first ∧ target.key = pod.key := by
  constructor
  · intro hhalf
    cases task with
    | nil => exact absurd hhalf.symm hsome
    | cons first rest =>
        cases hmove : first.move with
        | none => exact absurd ((half_cons_of_move_eq_none hmove).symm.trans hhalf).symm hsome
        | some action =>
            obtain ⟨move, target⟩ := action
            rw [half_cons hmove] at hhalf
            split at hhalf
            · rename_i hkey
              refine ⟨target, rest, first, rfl, ?_, hkey⟩
              exact (PodSection.completing_eq_some_iff hsome).mpr ⟨move, hmove, hhalf⟩
            · exact absurd hhalf.symm hsome
  · rintro ⟨target, rest, first, rfl, hfirst, hkey⟩
    obtain ⟨move, hmove, hhalf⟩ := (PodSection.completing_eq_some_iff hsome).mp hfirst
    rw [half_cons hmove, if_pos hkey, hhalf]

theorem half_eq_add_iff {pod : PodInfo} {task : List PodSection} :
    half pod task = .add ↔ ∃ target rest, task = .add target :: rest ∧ target.key = pod.key := by
  rw [half_eq_iff (by decide)]
  simp [PodSection.completing]

theorem half_eq_remove_iff {pod : PodInfo} {task : List PodSection} :
    half pod task = .remove ↔
      ∃ target rest, task = .remove target :: rest ∧ target.key = pod.key := by
  rw [half_eq_iff (by decide)]
  simp [PodSection.completing]

theorem half_eq_untrack_iff {pod : PodInfo} {task : List PodSection} :
    half pod task = .untrack ↔
      ∃ target rest, task = .untrackStale target :: rest ∧ target.key = pod.key := by
  rw [half_eq_iff (by decide)]
  simp [PodSection.completing]

section

variable {kind : PodSection → Bool} {first : PodSection} {rest : List PodSection} {s : Discovery}
  {pod : PodInfo}

/-- What a task's step does to one pod, and the half it is in afterwards. -/
theorem run_task (hworld : DistinctPods world) (hs : Inside env world s)
    (htask : Orderly env world kind (first :: rest)) {move : Move} {target : PodInfo}
    (hmove : first.move = some (move, target)) (hpod : pod ∈ world) :
    ((first.run env s).1.tracked.contains pod, lists env (first.run env s).1 pod,
        half pod ((first.run env s).2 ++ rest)) =
      if target.key = pod.key then move.run (s.tracked.contains pod) (lists env s pod)
      else (s.tracked.contains pod, lists env s pod, half pod (first :: rest)) := by
  have hopens : ∀ sec ∈ rest, sec.opens = true := htask.opens
  rw [half_append hopens, PodSection.run_of_move hworld (htask.within first List.mem_cons_self)
    hs.tracked hmove hpod, half_cons hmove]
  split <;> rfl

theorem run_task_of_move_eq_none (s : Discovery) (pod : PodInfo)
    (htask : Orderly env world kind (first :: rest))
    (hmove : first.move = none) :
    (first.run env s).1 = s ∧ half pod ((first.run env s).2 ++ rest) = half pod (first :: rest) := by
  have hopens : ∀ sec ∈ rest, sec.opens = true := htask.opens
  have hwithin := htask.within first List.mem_cons_self
  rw [half_append hopens, half_cons_of_move_eq_none hmove]
  cases first with
  | track order target =>
      have hunhealthy : ¬target.isHealthy = true := fun h => by simp [PodSection.move, h] at hmove
      rw [PodSection.run, if_neg hunhealthy]
      exact ⟨rfl, rfl⟩
  | diff order podList =>
      refine ⟨rfl, half_of_opens fun sec hsec => ?_⟩
      rcases List.mem_append.mp (List.mem_of_mem_head? hsec) with hmem | hmem
      · obtain ⟨_, -, rfl⟩ := List.mem_map.mp hmem
        rfl
      · obtain ⟨_, -, rfl⟩ := List.mem_map.mp hmem
        rfl
  | evict _ _ => exact hwithin.elim
  | add _ => cases hmove
  | delete _ => cases hmove
  | remove _ => cases hmove
  | dropStale _ => cases hmove
  | untrackStale _ => cases hmove

theorem mem_of_move {move : Move} {target : PodInfo} (hwithin : first.Within env world)
    (hmove : first.move = some (move, target)) : target ∈ world := by
  cases first with
  | track _ _ =>
      cases (Option.ite_none_right_eq_some.mp hmove).2
      exact hwithin
  | evict _ _ => cases hmove
  | diff _ _ => cases hmove
  | add _ => cases hmove; exact hwithin
  | delete _ => cases hmove; exact hwithin
  | remove _ => cases hmove; exact hwithin
  | dropStale _ => cases hmove; exact hwithin
  | untrackStale _ => cases hmove; exact hwithin

theorem watches_of_move {move : Move} {target : PodInfo}
    (hmove : first.move = some (move, target)) :
    move.watches = first.watches ∧ move.reconciles = first.reconciles := by
  cases first with
  | track _ _ =>
      cases (Option.ite_none_right_eq_some.mp hmove).2
      exact ⟨rfl, rfl⟩
  | evict _ _ => cases hmove
  | diff _ _ => cases hmove
  | add _ => cases hmove; exact ⟨rfl, rfl⟩
  | delete _ => cases hmove; exact ⟨rfl, rfl⟩
  | remove _ => cases hmove; exact ⟨rfl, rfl⟩
  | dropStale _ => cases hmove; exact ⟨rfl, rfl⟩
  | untrackStale _ => cases hmove; exact ⟨rfl, rfl⟩

end

/-! ### Steps keep the pods sound exactly when they tear none -/

namespace System

structure Coherent (env : DiscoveryEnv) (world : Set PodInfo) (s : System) : Prop where
  inside : Inside env world s.shared
  watcher : Orderly env world PodSection.watches s.watcher
  reconciler : Orderly env world PodSection.reconciles s.reconciler

/-- Every pod of the world can still come to agreement by what the tasks have left to run. -/
def Sound (env : DiscoveryEnv) (world : Set PodInfo) (s : System) : Prop :=
  ∀ pod ∈ world, (s.status env pod).sound = true

theorem step_watcher {s t : System} (hstep : s.step env .watcher = some t) :
    ∃ first rest, s.watcher = first :: rest ∧
      t = ⟨(first.run env s.shared).1, (first.run env s.shared).2 ++ rest, s.reconciler⟩ := by
  cases htask : s.watcher with
  | nil => simp [step, htask] at hstep
  | cons first rest => exact ⟨first, rest, rfl, by simpa [step, htask] using hstep.symm⟩

theorem step_reconciler {s t : System} (hstep : s.step env .reconciler = some t) :
    ∃ first rest, s.reconciler = first :: rest ∧
      t = ⟨(first.run env s.shared).1, s.watcher, (first.run env s.shared).2 ++ rest⟩ := by
  cases htask : s.reconciler with
  | nil => simp [step, htask] at hstep
  | cons first rest => exact ⟨first, rest, rfl, by simpa [step, htask] using hstep.symm⟩

theorem watcherTears_iff (env : DiscoveryEnv) {s : System} {first : PodSection}
    {rest : List PodSection} {move : Move} {target pod : PodInfo} (htask : s.watcher = first :: rest)
    (hmove : first.move = some (move, target)) (hkey : target.key = pod.key) :
    (s.status env pod).watcherTears move = true ↔ s.Tears .watcher := by
  have hcontains : s.shared.tracked.contains target = s.shared.tracked.contains pod :=
    PodSet.contains_congr hkey
  constructor
  · intro htears
    cases first with
    | track order target =>
        obtain ⟨hhealthy, hpair⟩ := Option.ite_none_right_eq_some.mp hmove
        obtain ⟨rfl, rfl⟩ := Prod.mk.inj (Option.some.inj hpair)
        simp only [Status.watcherTears, status, Bool.and_eq_true, Bool.not_eq_true',
          beq_iff_eq, half_eq_untrack_iff] at htears
        obtain ⟨hnew, stale, after, hreconciler, hstale⟩ := htears
        exact .trackStale htask hreconciler (hstale.trans hkey.symm) hhealthy (hcontains.trans hnew)
    | remove target =>
        cases hmove
        simp only [Status.watcherTears, status, Bool.and_eq_true, Bool.not_eq_true',
          beq_iff_eq, half_eq_add_iff] at htears
        obtain ⟨hdeleted, added, after, hreconciler, hadded⟩ := htears
        exact .removeAdded htask hreconciler (hadded.trans hkey.symm) (hcontains.trans hdeleted)
    | evict _ _ => cases hmove
    | diff _ _ => cases hmove
    | add _ => cases hmove; cases htears
    | delete _ => cases hmove; cases htears
    | dropStale _ => cases hmove; cases htears
    | untrackStale _ => cases hmove; cases htears
  · intro htears
    cases htears with
    | trackStale hwatcher hreconciler hstale hhealthy hnew =>
        cases htask.symm.trans hwatcher
        cases (Option.ite_none_right_eq_some.mp hmove).2
        simp only [Status.watcherTears, status, Bool.and_eq_true, Bool.not_eq_true',
          beq_iff_eq, half_eq_untrack_iff]
        exact ⟨hcontains.symm.trans hnew, _, _, hreconciler, hstale.trans hkey⟩
    | removeAdded hwatcher hreconciler hadded hdeleted =>
        cases htask.symm.trans hwatcher
        cases hmove
        simp only [Status.watcherTears, status, Bool.and_eq_true, Bool.not_eq_true',
          beq_iff_eq, half_eq_add_iff]
        exact ⟨hcontains.symm.trans hdeleted, _, _, hreconciler, hadded.trans hkey⟩

theorem reconcilerTears_iff (env : DiscoveryEnv) {s : System} {first : PodSection}
    {rest : List PodSection} {move : Move} {target pod : PodInfo} (htask : s.reconciler = first :: rest)
    (hmove : first.move = some (move, target)) (hkey : target.key = pod.key) :
    (s.status env pod).reconcilerTears move = true ↔ s.Tears .reconciler := by
  have hcontains : s.shared.tracked.contains target = s.shared.tracked.contains pod :=
    PodSet.contains_congr hkey
  constructor
  · intro htears
    cases first with
    | dropStale target =>
        cases hmove
        simp only [Status.reconcilerTears, status, beq_iff_eq, half_eq_add_iff] at htears
        obtain ⟨added, after, hwatcher, hadded⟩ := htears
        exact .dropAdded htask hwatcher (hadded.trans hkey.symm)
    | add target =>
        cases hmove
        simp only [Status.reconcilerTears, status, Bool.and_eq_true, beq_iff_eq,
          half_eq_remove_iff] at htears
        obtain ⟨htracked, removed, after, hwatcher, hremoved⟩ := htears
        exact .addRemoved htask hwatcher (hremoved.trans hkey.symm) (hcontains.trans htracked)
    | track _ _ =>
        cases (Option.ite_none_right_eq_some.mp hmove).2
        cases htears
    | evict _ _ => cases hmove
    | diff _ _ => cases hmove
    | delete _ => cases hmove; cases htears
    | remove _ => cases hmove; cases htears
    | untrackStale _ => cases hmove; cases htears
  · intro htears
    cases htears with
    | dropAdded hreconciler hwatcher hadded =>
        cases htask.symm.trans hreconciler
        cases hmove
        simp only [Status.reconcilerTears, status, beq_iff_eq, half_eq_add_iff]
        exact ⟨_, _, hwatcher, hadded.trans hkey⟩
    | addRemoved hreconciler hwatcher hremoved htracked =>
        cases htask.symm.trans hreconciler
        cases hmove
        simp only [Status.reconcilerTears, status, Bool.and_eq_true, beq_iff_eq,
          half_eq_remove_iff]
        exact ⟨hcontains.symm.trans htracked, _, _, hwatcher, hremoved.trans hkey⟩

theorem not_tears_of_move_eq_none {s : System} {first : PodSection} {rest : List PodSection}
    (hmove : first.move = none) :
    (s.watcher = first :: rest → ¬s.Tears .watcher) ∧
      (s.reconciler = first :: rest → ¬s.Tears .reconciler) := by
  constructor
  · intro htask htears
    cases htears with
    | trackStale hwatcher _ _ hhealthy =>
        cases htask.symm.trans hwatcher
        simp [PodSection.move, hhealthy] at hmove
    | removeAdded hwatcher =>
        cases htask.symm.trans hwatcher
        cases hmove
  · intro htask htears
    cases htears with
    | dropAdded hreconciler =>
        cases htask.symm.trans hreconciler
        cases hmove
    | addRemoved hreconciler =>
        cases htask.symm.trans hreconciler
        cases hmove

/-- The reconciliation task never has a removal left, the watcher never a stale entry. -/
theorem Coherent.reconciler_half {s : System} (hs : s.Coherent env world) (pod : PodInfo) :
    half pod s.reconciler ≠ .remove := by
  intro hhalf
  obtain ⟨target, rest, htask, -⟩ := half_eq_remove_iff.mp hhalf
  have hkind := hs.reconciler.kind
  rw [htask] at hkind
  exact Bool.noConfusion (hkind _ List.mem_cons_self)

theorem Coherent.watcher_half {s : System} (hs : s.Coherent env world) (pod : PodInfo) :
    half pod s.watcher ≠ .untrack := by
  intro hhalf
  obtain ⟨target, rest, htask, -⟩ := half_eq_untrack_iff.mp hhalf
  have hkind := hs.watcher.kind
  rw [htask] at hkind
  exact Bool.noConfusion (hkind _ List.mem_cons_self)

/-- The next section of a task leads to a sound state unless it tears a pod. `place` puts what the
task sees of a pod, and the half it is in, next to the half the other task is in. -/
theorem sound_run_iff (hworld : DistinctPods world) {s t : System} (hs : Inside env world s.shared)
    (hsound : s.Sound env world) {kind : PodSection → Bool} {first : PodSection}
    {rest : List PodSection} (htask : Orderly env world kind (first :: rest))
    {place : PodInfo → Bool × Bool × Half → Status} {tears : Move → PodInfo → Bool} {torn : Prop}
    (hbefore : ∀ pod, s.status env pod =
      place pod (s.shared.tracked.contains pod, lists env s.shared pod, half pod (first :: rest)))
    (hafter : ∀ pod, t.status env pod =
      place pod ((first.run env s.shared).1.tracked.contains pod,
        lists env (first.run env s.shared).1 pod, half pod ((first.run env s.shared).2 ++ rest)))
    (hmoves : ∀ move target pod, first.move = some (move, target) → pod ∈ world →
      target.key = pod.key →
      (place pod (move.run (s.shared.tracked.contains pod) (lists env s.shared pod))).sound =
        !tears move pod)
    (htears : ∀ move target pod, first.move = some (move, target) → target.key = pod.key →
      (tears move pod = true ↔ torn))
    (hnone : first.move = none → ¬torn) : t.Sound env world ↔ ¬torn := by
  cases hmove : first.move with
  | none =>
      refine ⟨fun _ => hnone hmove, fun _ pod hpod => ?_⟩
      obtain ⟨hshared, hhalf⟩ := run_task_of_move_eq_none s.shared pod htask hmove
      rw [hafter, hshared, hhalf, ← hbefore]
      exact hsound pod hpod
  | some action =>
      obtain ⟨move, target⟩ := action
      have htarget := mem_of_move (htask.within first List.mem_cons_self) hmove
      have hself : ∀ pod ∈ world, target.key = pod.key →
          (t.status env pod).sound = !tears move pod := by
        intro pod hpod hkey
        rw [hafter, run_task hworld hs htask hmove hpod, if_pos hkey]
        exact hmoves move target pod hmove hpod hkey
      constructor
      · intro ht htorn
        have hbad := (hself target htarget rfl).symm.trans (ht target htarget)
        rw [(htears move target target hmove rfl).mpr htorn] at hbad
        cases hbad
      · intro hkeeps pod hpod
        by_cases hkey : target.key = pod.key
        · rw [hself pod hpod hkey, Bool.not_eq_true']
          exact Bool.eq_false_iff.mpr (mt (htears move target pod hmove hkey).mp hkeeps)
        · rw [hafter, run_task hworld hs htask hmove hpod, if_neg hkey, ← hbefore]
          exact hsound pod hpod

theorem sound_watcher_iff (hworld : DistinctPods world) {s t : System} (hs : s.Coherent env world)
    (hsound : s.Sound env world) (hstep : s.step env .watcher = some t) :
    t.Sound env world ↔ ¬s.Tears .watcher := by
  obtain ⟨first, rest, htask, rfl⟩ := step_watcher hstep
  have horderly := hs.watcher
  rw [htask] at horderly
  apply @sound_run_iff env world hworld s _ hs.inside hsound _ first rest horderly
    (fun pod seen => ⟨seen.1, seen.2.1, seen.2.2, half pod s.reconciler⟩)
    fun move pod => (s.status env pod).watcherTears move
  · intro pod
    rw [status, htask]
  · exact fun pod => rfl
  · intro move target pod hmove hpod hkey
    exact Status.sound_watcherMoves (s.shared.tracked.contains pod) (lists env s.shared pod)
      (half pod s.watcher) (half pod s.reconciler) move
      ((watches_of_move hmove).1.trans (horderly.kind first List.mem_cons_self))
      (by rw [htask, half_cons hmove, if_pos hkey]) (hs.reconciler_half pod) (hsound pod hpod)
  · exact fun move target pod hmove hkey => watcherTears_iff env htask hmove hkey
  · exact fun hmove => (not_tears_of_move_eq_none hmove).1 htask

theorem sound_reconciler_iff (hworld : DistinctPods world) {s t : System}
    (hs : s.Coherent env world) (hsound : s.Sound env world)
    (hstep : s.step env .reconciler = some t) :
    t.Sound env world ↔ ¬s.Tears .reconciler := by
  obtain ⟨first, rest, htask, rfl⟩ := step_reconciler hstep
  have horderly := hs.reconciler
  rw [htask] at horderly
  apply @sound_run_iff env world hworld s _ hs.inside hsound _ first rest horderly
    (fun pod seen => ⟨seen.1, seen.2.1, half pod s.watcher, seen.2.2⟩)
    fun move pod => (s.status env pod).reconcilerTears move
  · intro pod
    rw [status, htask]
  · exact fun pod => rfl
  · intro move target pod hmove hpod hkey
    exact Status.sound_reconcilerMoves (s.shared.tracked.contains pod) (lists env s.shared pod)
      (half pod s.watcher) (half pod s.reconciler) move
      ((watches_of_move hmove).2.trans (horderly.kind first List.mem_cons_self))
      (by rw [htask, half_cons hmove, if_pos hkey]) (hs.watcher_half pod) (hsound pod hpod)
  · exact fun move target pod hmove hkey => reconcilerTears_iff env htask hmove hkey
  · exact fun hmove => (not_tears_of_move_eq_none hmove).2 htask

theorem sound_of_new_task {s t : System} (hsound : s.Sound env world)
    (hshared : t.shared = s.shared) (hwatcher : ∀ pod, half pod t.watcher = half pod s.watcher)
    (hreconciler : ∀ pod, half pod t.reconciler = half pod s.reconciler) : t.Sound env world := by
  intro pod hpod
  rw [status, hshared, hwatcher, hreconciler]
  exact hsound pod hpod

/-- From a sound state, a step leads to a sound one exactly if it tears no pod. -/
theorem sound_step_iff (hworld : DistinctPods world) {s t : System} (hs : s.Coherent env world)
    (hsound : s.Sound env world) {action : Action} (hstep : s.step env action = some t) :
    t.Sound env world ↔ ¬s.Tears action := by
  cases action with
  | event order pod =>
      refine ⟨fun _ => nofun, fun _ => ?_⟩
      obtain ⟨hidle, ht⟩ := Option.ite_none_right_eq_some.mp hstep
      cases ht
      exact sound_of_new_task hsound rfl (fun other => half_of_idle other hidle rfl) fun _ => rfl
  | deletion pod =>
      refine ⟨fun _ => nofun, fun _ => ?_⟩
      obtain ⟨hidle, ht⟩ := Option.ite_none_right_eq_some.mp hstep
      cases ht
      exact sound_of_new_task hsound rfl (fun other => half_of_idle other hidle rfl) fun _ => rfl
  | reconcile order podList =>
      refine ⟨fun _ => nofun, fun _ => ?_⟩
      obtain ⟨hidle, ht⟩ := Option.ite_none_right_eq_some.mp hstep
      cases ht
      exact sound_of_new_task hsound rfl (fun _ => rfl) fun other => half_of_idle other hidle rfl
  | watcher => exact sound_watcher_iff hworld hs hsound hstep
  | reconciler => exact sound_reconciler_iff hworld hs hsound hstep

theorem coherent_step (hworld : DistinctPods world) {s t : System} (hs : s.Coherent env world)
    {action : Action} (hwithin : action.Within env world) (hstep : s.step env action = some t) :
    t.Coherent env world := by
  cases action with
  | event order pod =>
      cases (Option.ite_none_right_eq_some.mp hstep).2
      exact ⟨hs.inside, ⟨by simpa [PodSection.Within, Action.Within] using hwithin,
        by simp [PodSection.watches], by simp⟩, hs.reconciler⟩
  | deletion pod =>
      cases (Option.ite_none_right_eq_some.mp hstep).2
      exact ⟨hs.inside, ⟨by simpa [PodSection.Within, Action.Within] using hwithin,
        by simp [PodSection.watches], by simp⟩, hs.reconciler⟩
  | reconcile order podList =>
      cases (Option.ite_none_right_eq_some.mp hstep).2
      exact ⟨hs.inside, hs.watcher, ⟨by simpa [PodSection.Within, Action.Within] using hwithin,
        by simp [PodSection.reconciles], by simp⟩⟩
  | watcher =>
      obtain ⟨first, rest, htask, rfl⟩ := step_watcher hstep
      have horderly := hs.watcher
      rw [htask] at horderly
      have hfirst := horderly.within first List.mem_cons_self
      exact ⟨PodSection.inside_run hworld hs.inside hfirst,
        (PodSection.orderly_run hworld (Or.inl rfl) hs.inside hfirst
          (horderly.kind first List.mem_cons_self)).append horderly, hs.reconciler⟩
  | reconciler =>
      obtain ⟨first, rest, htask, rfl⟩ := step_reconciler hstep
      have horderly := hs.reconciler
      rw [htask] at horderly
      have hfirst := horderly.within first List.mem_cons_self
      exact ⟨PodSection.inside_run hworld hs.inside hfirst, hs.watcher,
        (PodSection.orderly_run hworld (Or.inr rfl) hs.inside hfirst
          (horderly.kind first List.mem_cons_self)).append horderly⟩

theorem coherent_initial : initial.Coherent env world :=
  ⟨⟨by simp [initial, empty, PodSet.mem_def, PodSet.empty],
    by simp [initial, empty, urls]⟩, ⟨by simp [initial], by simp [initial], by simp [initial]⟩,
    ⟨by simp [initial], by simp [initial], by simp [initial]⟩⟩

theorem sound_initial : initial.Sound env world := fun _ _ => rfl

/-- Between operations, sound pods are tracked exactly if they are listed. -/
theorem agreement_of_sound (hworld : DistinctPods world) {s : System} (hs : s.Coherent env world)
    (hsound : s.Sound env world) (hwatcher : s.watcher = []) (hreconciler : s.reconciler = []) :
    Agreement env s.shared := by
  have hagrees : ∀ pod ∈ world, s.shared.tracked.contains pod = lists env s.shared pod := by
    intro pod hpod
    have hpodSound := hsound pod hpod
    rw [status, hwatcher, hreconciler] at hpodSound
    simpa [Status.sound, Status.agrees, Status.watcherFinishes, Status.reconcilerFinishes, half,
      Half.move] using hpodSound
  ext view
  constructor
  · intro hview
    obtain ⟨pod, hpod, rfl⟩ := hs.inside.urls hview
    have htracked := (hagrees pod hpod).trans (lists_iff.mpr hview)
    obtain ⟨entry, hentry, hkey⟩ := PodSet.contains_iff.mp htracked
    exact ⟨entry, hentry, (hworld.view_eq_iff env (hs.inside.tracked entry hentry) hpod).mpr hkey⟩
  · rintro ⟨pod, hpod, rfl⟩
    refine lists_iff.mp ((hagrees pod (hs.inside.tracked pod hpod)).symm.trans ?_)
    exact PodSet.contains_iff.mpr ⟨pod, hpod, rfl⟩

/-- In every run whose steps tear no pod, tracker and pools agree whenever both tasks are between
operations. -/
theorem agreement_of_keeping_steps (hworld : DistinctPods world) {s : System}
    (hs : Runs.Reachable (· = initial) (KeepingStep env world) s) (hwatcher : s.watcher = [])
    (hreconciler : s.reconciler = []) : Agreement env s.shared := by
  have hinvariant : s.Coherent env world ∧ s.Sound env world := by
    refine hs.invariant (fun s => s.Coherent env world ∧ s.Sound env world) ?_ ?_
    · rintro _ rfl
      exact ⟨coherent_initial, sound_initial⟩
    · rintro s t - ⟨hcoherent, hsound⟩ ⟨action, hwithin, hkeeps, hstep⟩
      exact ⟨coherent_step hworld hcoherent hwithin hstep,
        (sound_step_iff hworld hcoherent hsound hstep).mpr hkeeps⟩
  exact agreement_of_sound hworld hinvariant.1 hinvariant.2 hwatcher hreconciler

def onlyPod : PodInfo := runningPod "worker-0" "uid-0" "10.0.0.1"

theorem distinctPods_onlyPod : DistinctPods {onlyPod} := by
  rintro _ rfl _ rfl -
  exact ⟨rfl, rfl, rfl⟩

theorem nothing_live :
    ∀ pod ∈ buildLivePodSet [] regularEnv.config, pod ∈ ({onlyPod} : Set PodInfo) := nofun

theorem not_tears_of_idle {s : System} :
    (s.reconciler = [] → ¬s.Tears .watcher) ∧ (s.watcher = [] → ¬s.Tears .reconciler) := by
  constructor
  · intro hidle htears
    cases htears with
    | trackStale _ hreconciler => cases hidle.symm.trans hreconciler
    | removeAdded _ hreconciler => cases hidle.symm.trans hreconciler
  · intro hidle htears
    cases htears with
    | dropAdded _ hwatcher => cases hidle.symm.trans hwatcher
    | addRemoved _ hwatcher => cases hidle.symm.trans hwatcher

/-- A reconciliation computes its diff before the watcher tracks a pod, and so leaves it alone. -/
theorem agreement_after_early_diff :
    ∃ s : System, s.shared.tracked.contains onlyPod = true ∧ Agreement regularEnv s.shared := by
  have hstart : Runs.Reachable (· = initial) (KeepingStep regularEnv {onlyPod}) initial :=
    .of_start rfl
  have hevent := hstart.tail ⟨.event insertionOrder onlyPod, rfl, nofun, rfl⟩
  have hreconcile := hevent.tail ⟨.reconcile insertionOrder [], nothing_live, nofun, rfl⟩
  have hdiff := hreconcile.tail
    ⟨.reconciler, trivial, (not_tears_of_move_eq_none rfl).2 rfl, rfl⟩
  have htrack := hdiff.tail ⟨.watcher, trivial, not_tears_of_idle.1 rfl, rfl⟩
  have hadd := htrack.tail ⟨.watcher, trivial, not_tears_of_idle.1 rfl, rfl⟩
  exact ⟨_, rfl, agreement_of_keeping_steps distinctPods_onlyPod hadd rfl rfl⟩

/-- The reconciliation task drops a pod as stale between the two sections of its event: afterwards
nothing is tracked, and the URL that the watcher adds stays in the pool. -/
theorem not_agreement_after_torn_event :
    ∃ s : System, DistinctPods {onlyPod} ∧
      Runs.Reachable (· = initial) (Step regularEnv {onlyPod}) s ∧ s.watcher = [] ∧
      s.reconciler = [] ∧ s.shared.tracked.pods = [] ∧
      (s.shared.pools .regular).map Worker.url = ["10.0.0.1:8000"] ∧
      ¬Agreement regularEnv s.shared := by
  have hstart : Runs.Reachable (· = initial) (Step regularEnv {onlyPod}) initial := .of_start rfl
  have hevent := hstart.tail ⟨.event insertionOrder onlyPod, rfl, rfl⟩
  have htrack := hevent.tail ⟨.watcher, trivial, rfl⟩
  have hreconcile := htrack.tail ⟨.reconcile insertionOrder [], nothing_live, rfl⟩
  have hdiff := hreconcile.tail ⟨.reconciler, trivial, rfl⟩
  have hdrop := hdiff.tail ⟨.reconciler, trivial, rfl⟩
  have huntrack := hdrop.tail ⟨.reconciler, trivial, rfl⟩
  have hadd := huntrack.tail ⟨.watcher, trivial, rfl⟩
  refine ⟨_, distinctPods_onlyPod, hadd, rfl, rfl, rfl, rfl, fun hagreement => ?_⟩
  have hlisted : regularEnv.view onlyPod ∈ regularEnv.views _ :=
    hagreement.subset (lists_iff.mp rfl)
  obtain ⟨entry, hentry, -⟩ := hlisted
  cases hentry

end System

end Discovery

end TokenDog
