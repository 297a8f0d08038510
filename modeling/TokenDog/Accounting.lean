import TokenDog.Runtime
import TokenDog.StaticRuns
import TokenDog.Lib.Ledger

/-!
# In-flight accounting of interleaved runs

What a run has selected and finished is read off its history; what it holds is the difference. If
every handler finishes only what it holds, the counters of every pool are the sum of what the live
runs hold and of what the ended ones left behind.
-/

namespace TokenDog

namespace Accounting

def startedBy : Programs.Event router → Multiset WorkerId
  | .ran (.next pool _) (some (workerIdx, _)) => {(pool, workerIdx)}
  | _ => 0

def finishes : RouterOp → Multiset WorkerId
  | .finish pool workerIdx => {(pool, workerIdx)}
  | _ => 0

def finishedBy : Programs.Event router → Multiset WorkerId
  | .ran op _ => finishes op
  | _ => 0

def started (trace : Programs.Trace router) : Multiset WorkerId := (trace.map startedBy).sum

def finished (trace : Programs.Trace router) : Multiset WorkerId := (trace.map finishedBy).sum

def released (deferred : List RouterOp) : Multiset WorkerId := (deferred.map finishes).sum

/-- What was selected and not finished yet. -/
def held : Programs.Trace router → Multiset WorkerId
  | [] => 0
  | event :: trace => startedBy event + (held trace - finishedBy event)

section Simp

variable (trace : Programs.Trace router) (deferred : List RouterOp)

@[simp] theorem started_nil : started [] = 0 := rfl

@[simp]
theorem started_cons (event : Programs.Event router) :
    started (event :: trace) = startedBy event + started trace := by
  simp [started]

@[simp] theorem finished_nil : finished [] = 0 := rfl

@[simp]
theorem finished_cons (event : Programs.Event router) :
    finished (event :: trace) = finishedBy event + finished trace := by
  simp [finished]

@[simp] theorem released_nil : released [] = 0 := rfl

@[simp]
theorem released_cons (op : RouterOp) : released (op :: deferred) = finishes op + released deferred := by
  simp [released]

@[simp]
theorem released_append (before deferred : List RouterOp) :
    released (before ++ deferred) = released before + released deferred := by
  simp [released]

@[simp] theorem held_nil : held [] = 0 := rfl

theorem held_cons (event : Programs.Event router) :
    held (event :: trace) = startedBy event + (held trace - finishedBy event) := rfl

@[simp]
theorem held_next_some (pool : Pool) (ctx : RequestContext) (workerIdx : Nat) (url : String) :
    held (.ran (.next pool ctx) (some (workerIdx, url)) :: trace) =
      (pool, workerIdx) ::ₘ held trace := by
  simp [held_cons, startedBy, finishedBy, finishes, Multiset.singleton_add]

@[simp]
theorem held_next_none (pool : Pool) (ctx : RequestContext) :
    held (.ran (.next pool ctx) none :: trace) = held trace := by
  simp [held_cons, startedBy, finishedBy, finishes]

@[simp]
theorem held_finish (pool : Pool) (workerIdx : Nat) (result : Unit) :
    held (.ran (.finish pool workerIdx) result :: trace) = held trace - {(pool, workerIdx)} := by
  simp [held_cons, startedBy, finishedBy, finishes]

@[simp]
theorem held_record (pool : Pool) (ctx : RequestContext) (workerIdx : Nat) (result : Unit) :
    held (.ran (.record pool ctx workerIdx) result :: trace) = held trace := by
  simp [held_cons, startedBy, finishedBy, finishes]

@[simp]
theorem held_random (draw : Int) : held (.ran .random draw :: trace) = held trace := by
  simp [held_cons, startedBy, finishedBy, finishes]

@[simp]
theorem held_replied (call : RouterCall) (reply : call.Reply) :
    held (.replied call reply :: trace) = held trace := by
  simp [held_cons, startedBy, finishedBy]

@[simp]
theorem held_dropped (call : RouterCall) : held (.dropped call :: trace) = held trace := by
  simp [held_cons, startedBy, finishedBy]

@[simp]
theorem held_panicked (during : Option RouterOp) :
    held (.panicked during :: trace) = held trace := by
  simp [held_cons, startedBy, finishedBy]

end Simp

def heldAt (pool : Pool) (workers : Multiset WorkerId) : Multiset Nat :=
  (workers.filter fun worker => worker.1 = pool).map Prod.snd

/-- The counters of every pool count what is held in it. -/
def Accounted (app : AppState) (workers : Multiset WorkerId) : Prop :=
  ∀ pool active, app.countersOf pool = some active →
    Ledger.Balanced active.inFlight (heldAt pool workers)

theorem heldAt_cons_self (pool : Pool) (workerIdx : Nat) (workers : Multiset WorkerId) :
    heldAt pool ((pool, workerIdx) ::ₘ workers) = workerIdx ::ₘ heldAt pool workers := by
  simp [heldAt]

theorem heldAt_cons_of_ne {pool other : Pool} (hother : other ≠ pool) (workerIdx : Nat)
    (workers : Multiset WorkerId) :
    heldAt other ((pool, workerIdx) ::ₘ workers) = heldAt other workers := by
  simp [heldAt, Ne.symm hother]

theorem count_heldAt (pool : Pool) (workers : Multiset WorkerId) (workerIdx : Nat) :
    (heldAt pool workers).count workerIdx = workers.count (pool, workerIdx) := by
  induction workers using Multiset.induction with
  | empty => rfl
  | cons worker workers ih =>
      obtain ⟨other, otherIdx⟩ := worker
      by_cases hpool : pool = other
      · subst hpool
        rw [heldAt_cons_self, Multiset.count_cons, Multiset.count_cons, ih]
        simp
      · rw [heldAt_cons_of_ne hpool, ih, Multiset.count_cons_of_ne]
        simp [hpool]

section Accounted

variable {app app' : AppState} {pool : Pool} {workerIdx : Nat} {workers : Multiset WorkerId}

theorem Accounted.inFlight_eq (h : Accounted app workers) {active : Counters}
    (hactive : app.countersOf pool = some active) (workerIdx : Nat) :
    active.inFlight workerIdx = workers.count (pool, workerIdx) := by
  rw [h pool active hactive workerIdx, count_heldAt]

theorem Accounted.of_countersOf_eq (h : Accounted app workers)
    (hcounters : app'.countersOf = app.countersOf) : Accounted app' workers := by
  intro pool active hactive
  exact h pool active (by rw [← hcounters]; exact hactive)

theorem Accounted.next (h : Accounted app workers) {url : String}
    (hdispatched : app.Dispatched pool workerIdx url app') :
    Accounted app' ((pool, workerIdx) ::ₘ workers) := by
  intro other active' hactive'
  by_cases hother : other = pool
  · subst hother
    rw [hdispatched.countersOf_eq, Function.update_self, Option.map_eq_some_iff] at hactive'
    obtain ⟨active, hactive, rfl⟩ := hactive'
    rw [Counters.inFlight_modify_eq_update (hdispatched.lt active hactive), heldAt_cons_self]
    exact (h other active hactive).acquire workerIdx
  · rw [hdispatched.countersOf_of_ne hother] at hactive'
    rw [heldAt_cons_of_ne hother]
    exact h other active' hactive'

theorem Accounted.finish (h : Accounted app ((pool, workerIdx) ::ₘ workers))
    (hfinish : app.finish pool workerIdx = .ok app') : Accounted app' workers := by
  intro other active' hactive'
  rcases AppState.finish_eq_ok hfinish with ⟨hnone, rfl⟩ | hcounted
  · have hother : other ≠ pool := by
      rintro rfl
      simp [AppState.countersOf, hnone] at hactive'
    rw [← heldAt_cons_of_ne hother workerIdx]
    exact h other active' hactive'
  · by_cases hother : other = pool
    · subst hother
      rw [hcounted.countersOf_eq, Function.update_self, Option.map_eq_some_iff] at hactive'
      obtain ⟨active, hactive, rfl⟩ := hactive'
      have hbalanced := h other active hactive
      rw [heldAt_cons_self] at hbalanced
      rw [Counters.inFlight_modify_eq_update (hcounted.lt active hactive),
        Counters.decrement_of_pos (hbalanced.pos (Multiset.mem_cons_self _ _))]
      have hreleased := hbalanced.release workerIdx
      rwa [Multiset.erase_cons_head] at hreleased
    · rw [hcounted.countersOf_of_ne hother] at hactive'
      rw [← heldAt_cons_of_ne hother workerIdx]
      exact h other active' hactive'

theorem Accounted.pos (h : Accounted app workers) {active : Counters}
    (hactive : app.countersOf pool = some active) (hmem : (pool, workerIdx) ∈ workers) :
    0 < active.inFlight workerIdx := by
  rw [h.inFlight_eq hactive]
  exact Multiset.count_pos.mpr hmem

end Accounted

section Runs

variable {ι α : Type}

/-- A run may end here: it deferred completions only, and of what it holds. -/
def Settled (trace : Programs.Trace router) (deferred : List RouterOp) : Prop :=
  released deferred ≤ held trace ∧ ∀ op ∈ deferred, ∃ pool workerIdx, op = .finish pool workerIdx

/-- What an ended run has left behind. -/
def leaked (run : Programs.Ended router ι α) : Multiset WorkerId :=
  held run.trace - released run.deferred

/-- Everything held by the live runs and left behind by the ended ones. -/
def outstanding (s : Programs.System router AppState ι α) : Multiset WorkerId :=
  (s.live.map fun run => held run.trace).sum + (s.ended.map leaked).sum

theorem Accounted.unwinds {deferred : List router.Op} {app app' : AppState}
    {workers : Multiset WorkerId} (hunwinds : Programs.Unwinds machine deferred app app')
    (hfinishes : ∀ op ∈ deferred, ∃ pool workerIdx, op = .finish pool workerIdx)
    (h : Accounted app (released deferred + workers)) : Accounted app' workers := by
  induction hunwinds generalizing workers with
  | nil app => simpa using h
  | cons hexec hrest ih =>
      obtain ⟨pool, workerIdx, rfl⟩ := hfinishes _ List.mem_cons_self
      refine ih (fun op hop => hfinishes op (List.mem_cons_of_mem _ hop)) ?_
      refine @Accounted.finish _ _ pool workerIdx _ ?_ hexec
      rw [released_cons, finishes, add_assoc, Multiset.singleton_add] at h
      exact h

theorem Accounted.exec {op : RouterOp} {result : op.Result} {app app' : AppState}
    {trace : Programs.Trace router} {workers : Multiset WorkerId}
    (hexec : machine.exec op app result app') (hmay : finishes op ≤ held trace)
    (h : Accounted app (held trace + workers)) :
    Accounted app' (held (.ran op result :: trace) + workers) := by
  cases op with
  | next pool ctx =>
      obtain ⟨ambient, hnext⟩ := hexec
      rcases AppState.next_eq_ok hnext with ⟨rfl, rfl⟩ | ⟨workerIdx, url, rfl, hdispatched⟩
      · rwa [held_next_none]
      · rw [held_next_some, Multiset.cons_add]
        exact h.next hdispatched
  | finish pool workerIdx =>
      refine @Accounted.finish _ _ pool workerIdx _ ?_ hexec
      have hmem : {(pool, workerIdx)} ≤ held trace := hmay
      rw [held_finish, ← Multiset.singleton_add, ← add_assoc, add_tsub_cancel_of_le hmem]
      exact h
  | record pool ctx workerIdx =>
      obtain ⟨ambient, rfl⟩ := hexec
      rw [held_record]
      exact h.of_countersOf_eq (AppState.countersOf_record app pool ctx workerIdx ambient)
  | random =>
      obtain ⟨rfl, -⟩ := hexec
      rwa [held_random]

/-- A specification under which handlers finish only what they hold. -/
structure Lawful (spec : ι → Programs.Spec router)
    (post : ι → α → Programs.Trace router → List RouterOp → Prop) : Prop where
  may : ∀ request trace op, (spec request).may trace op → finishes op ≤ held trace
  ends : ∀ request trace deferred, (spec request).ends trace deferred → Settled trace deferred
  post : ∀ request value trace deferred, post request value trace deferred → Settled trace deferred

/-- What was started was finished or is held. -/
def Sums (trace : Programs.Trace router) : Prop := started trace = finished trace + held trace

theorem Sums.ran {op : RouterOp} {result : op.Result} {trace : Programs.Trace router}
    (h : Sums trace) (hmay : finishes op ≤ held trace) : Sums (.ran op result :: trace) := by
  rw [Sums, started_cons, finished_cons, held_cons, h]
  change _ = finishes op + finished trace +
    (startedBy (.ran op result) + (held trace - finishes op))
  conv_lhs => rw [← tsub_add_cancel_of_le hmay]
  ac_rfl

/-- An event that neither starts nor finishes a request. -/
theorem Sums.cons {event : Programs.Event router} {trace : Programs.Trace router} (h : Sums trace)
    (hstarted : startedBy event = 0) (hfinished : finishedBy event = 0) :
    Sums (event :: trace) := by
  rw [Sums, started_cons, finished_cons, held_cons, hstarted, hfinished, tsub_zero, zero_add,
    zero_add, zero_add]
  exact h

/-- The events a run ends with move nothing. -/
theorem held_exits {app : AppState} {program : Handler α} {events : Programs.Trace router}
    {outcome : Option α} (hexits : Programs.Exits machine app program events outcome)
    (trace : Programs.Trace router) :
    held (events ++ trace) = held trace ∧ (Sums trace → Sums (events ++ trace)) := by
  cases hexits with
  | ret value => exact ⟨rfl, id⟩
  | panic => exact ⟨held_panicked trace none, fun h => h.cons rfl rfl⟩
  | perform hpanics => exact ⟨held_panicked trace _, fun h => h.cons rfl rfl⟩
  | drop call next => exact ⟨held_dropped trace call, fun h => h.cons rfl rfl⟩

structure Books (s : Programs.System router AppState ι α) : Prop where
  accounted : Accounted s.shared (outstanding s)
  live : ∀ run ∈ s.live, Sums run.trace
  ended : ∀ run ∈ s.ended, Sums run.trace

theorem books_of_reachable {body : ι → Handler α} {spec : ι → Programs.Spec router}
    {post : ι → α → Programs.Trace router → List RouterOp → Prop} (hlawful : Lawful spec post)
    (hbody : ∀ request, Programs.wp (spec request) (body request) (post request) [] [])
    {app : AppState} (hstart : Accounted app 0) {s : Programs.System router AppState ι α}
    (hs : Runs.Reachable (· = .start app) (Programs.Step machine body) s) : Books s := by
  refine hs.invariant Books ?_ ?_
  · rintro _ rfl
    exact ⟨hstart, fun _ h => (Multiset.notMem_zero _ h).elim,
      fun _ h => (Multiset.notMem_zero _ h).elim⟩
  · intro s t hs hbooks hstep
    obtain ⟨hkeeps, -⟩ := Programs.keeps_of_reachable hbody hs
    obtain ⟨haccounted, hlive, hended⟩ := hbooks
    cases hstep with
    | moves hmoves =>
        obtain ⟨flags, rfl⟩ := hmoves
        exact ⟨haccounted.of_countersOf_eq (AppState.countersOf_setHealth s.shared flags), hlive,
          hended⟩
    | start request =>
        refine ⟨?_, Multiset.forall_mem_cons.mpr ⟨rfl, hlive⟩, hended⟩
        simpa [outstanding] using haccounted
    | @perform rest request op next trace deferred result shared hrun hexec =>
        rw [hrun, Multiset.forall_mem_cons] at hkeeps hlive
        have hmay := hlawful.may _ _ _ hkeeps.1.1
        refine ⟨?_, Multiset.forall_mem_cons.mpr ⟨hlive.1.ran hmay, hlive.2⟩, hended⟩
        rw [outstanding, hrun, Multiset.map_cons, Multiset.sum_cons, add_assoc] at haccounted
        rw [outstanding, Multiset.map_cons, Multiset.sum_cons, add_assoc]
        exact haccounted.exec hexec hmay
    | @reply rest request call next trace deferred hrun reply =>
        rw [hrun, Multiset.forall_mem_cons] at hlive
        refine ⟨?_, Multiset.forall_mem_cons.mpr ⟨hlive.1.cons rfl rfl, hlive.2⟩, hended⟩
        rw [outstanding, hrun, Multiset.map_cons, Multiset.sum_cons] at haccounted
        rw [outstanding, Multiset.map_cons, Multiset.sum_cons, held_replied]
        exact haccounted
    | @defer rest request op next trace deferred hrun =>
        rw [hrun, Multiset.forall_mem_cons] at hlive
        refine ⟨?_, Multiset.forall_mem_cons.mpr hlive, hended⟩
        rw [outstanding, hrun, Multiset.map_cons, Multiset.sum_cons] at haccounted
        rw [outstanding, Multiset.map_cons, Multiset.sum_cons]
        exact haccounted
    | @stop rest run events outcome shared hrun hexits hunwinds =>
        rw [hrun, Multiset.forall_mem_cons] at hkeeps hlive
        obtain ⟨hheld, hsums⟩ := held_exits hexits run.trace
        have hsettled : Settled (events ++ run.trace) run.deferred := by
          have hkept := hkeeps.1.kept hexits
          cases outcome with
          | some value => exact hlawful.post _ _ _ _ hkept
          | none => exact hlawful.ends _ _ _ hkept
        refine ⟨?_, hlive.2, Multiset.forall_mem_cons.mpr ⟨hsums hlive.1, hended⟩⟩
        refine Accounted.unwinds hunwinds hsettled.2 ?_
        rw [outstanding, hrun, Multiset.map_cons, Multiset.sum_cons] at haccounted
        rw [outstanding, Multiset.map_cons, Multiset.sum_cons, leaked]
        convert haccounted using 1
        have hsplit := tsub_add_cancel_of_le hsettled.1
        rw [hheld] at hsplit ⊢
        conv_rhs => rw [← hsplit]
        ac_rfl

theorem alike_of_exec {op : RouterOp} {result : op.Result} {app app' : AppState}
    (hexec : machine.exec op app result app') : app.Alike app' := by
  cases op with
  | next pool ctx =>
      obtain ⟨ambient, hnext⟩ := hexec
      exact .of_next hnext
  | finish pool workerIdx => exact .of_finish hexec
  | record pool ctx workerIdx =>
      obtain ⟨ambient, rfl⟩ := hexec
      exact .of_record app pool ctx workerIdx ambient
  | random =>
      obtain ⟨rfl, -⟩ := hexec
      exact .refl app'

theorem alike_of_unwinds {deferred : List router.Op} {app app' : AppState}
    (hunwinds : Programs.Unwinds machine deferred app app') : app.Alike app' := by
  induction hunwinds with
  | nil app => exact .refl app
  | cons hexec hrest ih => exact (alike_of_exec hexec).trans ih

theorem alike_of_reachable {body : ι → Handler α} {app : AppState}
    {s : Programs.System router AppState ι α}
    (hs : Runs.Reachable (· = .start app) (Programs.Step machine body) s) : app.Alike s.shared := by
  refine hs.invariant (fun s => app.Alike s.shared) (by rintro _ rfl; exact .refl app) ?_
  rintro s t - halike hstep
  cases hstep with
  | moves hmoves =>
      obtain ⟨flags, rfl⟩ := hmoves
      exact halike.trans (.of_setHealth s.shared flags)
  | start request => exact halike
  | perform hrun hexec => exact halike.trans (alike_of_exec hexec)
  | reply hrun reply => exact halike
  | defer hrun => exact halike
  | stop hrun hexits hunwinds => exact halike.trans (alike_of_unwinds hunwinds)

theorem exists_countersOf (pool : Pool) {kind : Policy} {n : Nat} {policy : Balancer}
    {app app' : AppState} (hpolicy : Balancer.makePolicy kind n = .ok policy)
    (htracks : kind.tracksLoad = true) (hbalancer : app.balancerOf pool = some policy)
    (halike : app.Alike app') :
    ∃ active, app'.countersOf pool = some active ∧ active.length = n := by
  obtain ⟨initial, hinitial⟩ : ∃ initial, policy.active? = some initial := by
    rw [← Option.isSome_iff_exists, Balancer.isSome_active?,
      Balancer.policy_of_makePolicy hpolicy, htracks]
  have hfirst : app.countersOf pool = some initial := by
    rw [AppState.countersOf, hbalancer]
    exact hinitial
  have hlengths := halike.lengths pool
  rw [hfirst, Option.map_some, Option.map_eq_some_iff] at hlengths
  obtain ⟨active, hactive, hlength⟩ := hlengths
  refine ⟨active, hactive, hlength.trans ?_⟩
  rw [Balancer.active?_of_makePolicy hpolicy initial hinitial, Counters.length_zeros]

/-- An operation other than a selection panicked. -/
def Unexpected : Programs.Event router → Prop
  | .panicked (some (.finish _ _)) => True
  | .panicked (some (.record _ _ _)) => True
  | .panicked (some .random) => True
  | _ => False

theorem Accounted.not_panics {app : AppState} {workers : Multiset WorkerId} {op : RouterOp}
    (h : Accounted app workers) (hmay : finishes op ≤ workers) (hpanics : machine.panics op app) :
    ∃ pool ctx, op = .next pool ctx := by
  cases op with
  | next pool ctx => exact ⟨pool, ctx, rfl⟩
  | finish pool workerIdx =>
      obtain ⟨panic, hpanic⟩ := hpanics
      obtain ⟨app', hfinish⟩ : ∃ app', app.finish pool workerIdx = .ok app' := by
        refine AppState.exists_finish pool fun active hactive => ?_
        exact Counters.lt_length_of_inFlight_pos
          (h.pos hactive (Multiset.singleton_le.mp hmay))
      rw [hfinish] at hpanic
      cases hpanic
  | record pool ctx workerIdx => exact hpanics.elim
  | random => exact hpanics.elim

/-- Only selections panic. -/
theorem expected_of_reachable {body : ι → Handler α} {spec : ι → Programs.Spec router}
    {post : ι → α → Programs.Trace router → List RouterOp → Prop} (hlawful : Lawful spec post)
    (hbody : ∀ request, Programs.wp (spec request) (body request) (post request) [] [])
    {app : AppState} (hstart : Accounted app 0) {s : Programs.System router AppState ι α}
    (hs : Runs.Reachable (· = .start app) (Programs.Step machine body) s) :
    (∀ run ∈ s.live, ∀ event ∈ run.trace, ¬Unexpected event) ∧
      ∀ run ∈ s.ended, ∀ event ∈ run.trace, ¬Unexpected event := by
  refine hs.invariant (fun s => (∀ run ∈ s.live, ∀ event ∈ run.trace, ¬Unexpected event) ∧
    ∀ run ∈ s.ended, ∀ event ∈ run.trace, ¬Unexpected event) ?_ ?_
  · rintro _ rfl
    exact ⟨fun _ h => (Multiset.notMem_zero _ h).elim, fun _ h => (Multiset.notMem_zero _ h).elim⟩
  · rintro s t hs ⟨hlive, hended⟩ hstep
    obtain ⟨hkeeps, -⟩ := Programs.keeps_of_reachable hbody hs
    have hbooks := books_of_reachable hlawful hbody hstart hs
    cases hstep with
    | moves hmoves => exact ⟨hlive, hended⟩
    | start request => exact ⟨Multiset.forall_mem_cons.mpr ⟨by simp, hlive⟩, hended⟩
    | perform hrun hexec =>
        rw [hrun, Multiset.forall_mem_cons] at hlive
        exact ⟨Multiset.forall_mem_cons.mpr
          ⟨List.forall_mem_cons.mpr ⟨id, hlive.1⟩, hlive.2⟩, hended⟩
    | reply hrun reply =>
        rw [hrun, Multiset.forall_mem_cons] at hlive
        exact ⟨Multiset.forall_mem_cons.mpr
          ⟨List.forall_mem_cons.mpr ⟨id, hlive.1⟩, hlive.2⟩, hended⟩
    | defer hrun =>
        rw [hrun, Multiset.forall_mem_cons] at hlive
        exact ⟨Multiset.forall_mem_cons.mpr hlive, hended⟩
    | @stop rest run events outcome shared hrun hexits hunwinds =>
        rw [hrun, Multiset.forall_mem_cons] at hlive hkeeps
        refine ⟨hlive.2, Multiset.forall_mem_cons.mpr ⟨?_, hended⟩⟩
        refine List.forall_mem_append.mpr ⟨?_, hlive.1⟩
        obtain ⟨request, program, trace, deferred⟩ := run
        cases hexits with
        | ret value => simp
        | panic => simp [Unexpected]
        | drop call next => simp [Unexpected]
        | @perform op next hpanics =>
            -- the run may finish what it holds, and what it holds is counted
            have hmay := (hlawful.may _ _ _ hkeeps.1.1).trans
              (show held trace ≤ outstanding s by
                rw [outstanding, hrun, Multiset.map_cons, Multiset.sum_cons, add_assoc]
                exact Multiset.le_add_right _ _)
            obtain ⟨pool, ctx, rfl⟩ := hbooks.accounted.not_panics hmay hpanics
            simp [Unexpected]

theorem accounted_start {allowed : Policy → Prop} {app : AppState}
    (h : AppState.StaticStart allowed app) : Accounted app 0 := by
  intro pool active hactive
  obtain ⟨workers, hworkers⟩ := h.exists_workersOf pool
  rw [h.counters hworkers hactive]
  exact .empty (Counters.inFlight_zeros _)

end Runs

end Accounting

end TokenDog
