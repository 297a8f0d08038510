import TokenDog.Accounting
import TokenDog.Middleware.Handler

/-!
# Accounting of the regular handler

Every way out of `proxy_handler` drops its `ActiveRequest`, so an invocation leaves nothing behind
and the counter of a worker is the number of invocations that selected it and have not exited.
-/

namespace TokenDog

namespace Accounting

/-- The regular handler selects once and finishes by its guard only. -/
def proxySpec : Programs.Spec router where
  may trace op :=
    match op with
    | .next pool _ => pool = .regular ∧ started trace = 0
    | .finish _ _ => False
    | .record _ _ _ => True
    | .random => True
  ends trace deferred :=
    held trace = released deferred ∧ ∀ op ∈ deferred, ∃ pool workerIdx, op = .finish pool workerIdx

theorem proxySpec_ends_guarded {trace : Programs.Trace router} {workerIdx : Nat}
    (htrace : held trace = {(.regular, workerIdx)}) :
    proxySpec.ends trace [.finish .regular workerIdx] := by
  refine ⟨by rw [htrace]; rfl, fun op hop => ?_⟩
  rw [List.mem_singleton] at hop
  exact ⟨_, _, hop⟩

theorem proxySpec_ends_idle {trace : Programs.Trace router} (htrace : held trace = 0) :
    proxySpec.ends trace [] :=
  ⟨htrace, fun _ hop => (List.not_mem_nil hop).elim⟩

/-- A response that is returned streams the body of the worker that the guard holds. -/
def proxyPost (result : Except ProxyError (Response WorkerId)) (trace : Programs.Trace router)
    (deferred : List RouterOp) : Prop :=
  proxySpec.ends trace deferred ∧
    ∀ response, result = .ok response →
      ∃ worker, response.body = .stream worker ∧ held trace = {worker}

theorem wp_proxyHandler (crates : Crates) (parts : Parts) :
    Programs.wp proxySpec (proxyHandler crates parts) proxyPost [] [] := by
  have hidle : ∀ trace error, held trace = 0 → proxyPost (.error error) trace [] :=
    fun trace error htrace => ⟨proxySpec_ends_idle htrace, nofun⟩
  simp only [proxyHandler, wp_collect_bind]
  refine ⟨proxySpec_ends_idle rfl, fun collected => ?_⟩
  cases collected with
  | error e => exact hidle _ _ rfl
  | ok body =>
      dsimp only
      split
      · exact hidle _ _ rfl
      split
      · exact proxySpec_ends_idle rfl
      rename_i ctx _
      rw [wp_next_bind]
      refine ⟨⟨rfl, rfl⟩, proxySpec_ends_idle rfl, fun selected => ?_⟩
      cases selected with
      | none => exact hidle _ _ rfl
      | some entry =>
          obtain ⟨workerIdx, workerUrl⟩ := entry
          have hguarded : ∀ trace error, held trace = {(.regular, workerIdx)} →
              proxyPost (.error error) trace [.finish .regular workerIdx] :=
            fun trace error htrace => ⟨proxySpec_ends_guarded htrace, nofun⟩
          rw [wp_activeRequest_bind]
          split
          · exact hguarded _ _ (by simp)
          rw [wp_send_bind]
          refine ⟨proxySpec_ends_guarded (by simp), fun reply => ?_⟩
          cases reply with
          | error e => exact hguarded _ _ (by simp)
          | ok workerResp =>
              dsimp only
              rw [wp_record_bind]
              refine ⟨trivial, proxySpec_ends_guarded (by simp), fun _ => ?_⟩
              split
              · exact hguarded _ _ (by simp)
              · refine ⟨proxySpec_ends_guarded (by simp), fun response hresponse => ?_⟩
                cases hresponse
                exact ⟨_, rfl, by simp⟩

theorem lawful_proxySpec :
    Lawful (fun _ : Parts => proxySpec) fun _ => proxyPost where
  may request trace op hmay := by
    cases op with
    | finish pool workerIdx => exact hmay.elim
    | next pool ctx => exact Multiset.zero_le _
    | record pool ctx workerIdx => exact Multiset.zero_le _
    | random => exact Multiset.zero_le _
  ends request trace deferred h := ⟨h.1.ge, h.2⟩
  post request value trace deferred h := ⟨h.1.1.ge, h.1.2⟩

theorem leaked_eq_zero {run : Programs.Ended router Parts (Except ProxyError (Response WorkerId))}
    (hkept : run.Kept (fun _ => proxySpec) fun _ => proxyPost) : leaked run = 0 := by
  have hends : proxySpec.ends run.trace run.deferred := by
    unfold Programs.Ended.Kept at hkept
    split at hkept
    · exact hkept.1
    · exact hkept
  rw [leaked, hends.1, tsub_self]

def Selected (workerIdx : Nat) (run : Programs.Live router Parts
    (Except ProxyError (Response WorkerId))) : Prop :=
  (Pool.regular, workerIdx) ∈ started run.trace

instance (workerIdx : Nat) : DecidablePred (Selected workerIdx) := fun run =>
  inferInstanceAs (Decidable ((Pool.regular, workerIdx) ∈ started run.trace))

/-- A history in which nothing is finished and at most one worker selected. -/
def SelectsOnce (trace : Programs.Trace router) : Prop :=
  finished trace = 0 ∧ (started trace).card ≤ 1

theorem SelectsOnce.ran {trace : Programs.Trace router} {op : RouterOp} {result : op.Result}
    (h : SelectsOnce trace) (hmay : proxySpec.may trace op) :
    SelectsOnce (.ran op result :: trace) := by
  cases op with
  | finish pool workerIdx => exact hmay.elim
  | next pool ctx =>
      refine ⟨by simp [finishedBy, finishes, h.1], ?_⟩
      rw [started_cons, hmay.2, add_zero]
      cases result <;> simp [startedBy]
  | record pool ctx workerIdx =>
      simpa [SelectsOnce, startedBy, finishedBy, finishes] using h
  | random => simpa [SelectsOnce, startedBy, finishedBy, finishes] using h

theorem sum_held_eq_countP {live : Multiset (Programs.Live router Parts
      (Except ProxyError (Response WorkerId)))} (workerIdx : Nat)
    (honce : ∀ run ∈ live, SelectsOnce run.trace) (hsums : ∀ run ∈ live, Sums run.trace) :
    (live.map fun run => held run.trace).sum.count (Pool.regular, workerIdx) =
      live.countP (Selected workerIdx) := by
  induction live using Multiset.induction with
  | empty => rfl
  | cons run rest ih =>
      rw [Multiset.forall_mem_cons] at honce hsums
      have hheld : held run.trace = started run.trace := by
        rw [hsums.1, honce.1.1, zero_add]
      rw [Multiset.map_cons, Multiset.sum_cons, Multiset.count_add, ih honce.2 hsums.2,
        Multiset.countP_cons, hheld, add_comm]
      refine congrArg (_ + ·) ?_
      split
      · rename_i hmem
        have hle := Multiset.count_le_card (Pool.regular, workerIdx) (started run.trace)
        exact Nat.le_antisymm (hle.trans honce.1.2) (Multiset.count_pos.mpr hmem)
      · rename_i hmem
        exact Multiset.count_eq_zero.mpr hmem

/-- In static mode with a counting policy, for any interleaving of invocations of the regular
handler: the counter of a worker is the number of invocations that selected it and have not exited.
The counter of a selected worker is positive, so the guard that drops finds something to take away,
and the counters are zero when no invocation is left. -/
theorem inFlight_eq_selected {crates : Crates} {workers : List Worker} {kind : Policy}
    {policy : Balancer} {app : AppState}
    (hpolicy : Balancer.makePolicy kind workers.length = .ok policy)
    (htracks : kind.tracksLoad = true) (hnew : AppState.new workers policy = .ok app)
    {s : Programs.System router AppState Parts (Except ProxyError (Response WorkerId))}
    (hs : Runs.Reachable (· = .start app) (Programs.Step machine (proxyHandler crates)) s) :
    ∃ active, s.shared.countersOf .regular = some active ∧ active.length = workers.length ∧
      (∀ i, active.inFlight i = s.live.countP (Selected i)) ∧
      (∀ run ∈ s.live, ∀ i, Selected i run →
        0 < active.inFlight i ∧ ∃ app', s.shared.finishRequest i = .ok app') ∧
      (s.live = 0 → active = Counters.zeros workers.length) := by
  have hstart : AppState.StaticStart (· = kind) app := .regular rfl hpolicy hnew
  have hbody : ∀ parts, Programs.wp proxySpec (proxyHandler crates parts) proxyPost [] [] :=
    wp_proxyHandler crates
  have hbooks := books_of_reachable lawful_proxySpec hbody (accounted_start hstart) hs
  have honce : ∀ run ∈ s.live, SelectsOnce run.trace :=
    Programs.histories_of_reachable (P := fun _ => SelectsOnce) hbody
      (fun _ => ⟨rfl, Nat.zero_le 1⟩) (fun _ trace op result hmay h => h.ran hmay)
      (fun _ trace call reply h => by simpa [SelectsOnce, startedBy, finishedBy] using h) hs
  have houtstanding : outstanding s = (s.live.map fun run => held run.trace).sum := by
    have hleaked : (s.ended.map leaked).sum = 0 := by
      refine Multiset.sum_eq_zero fun workers hworkers => ?_
      obtain ⟨run, hrun, rfl⟩ := Multiset.mem_map.mp hworkers
      exact leaked_eq_zero ((Programs.keeps_of_reachable hbody hs).2 run hrun)
    rw [outstanding, hleaked, add_zero]
  have hcount : ∀ active, s.shared.countersOf .regular = some active → ∀ i,
      active.inFlight i = s.live.countP (Selected i) := by
    intro active hactive i
    rw [hbooks.accounted.inFlight_eq hactive, houtstanding]
    exact sum_held_eq_countP i honce hbooks.live
  obtain ⟨active, hactive, hlength⟩ : ∃ active, s.shared.countersOf .regular = some active ∧
      active.length = workers.length := by
    unfold AppState.new at hnew
    split at hnew <;> cases hnew
    exact exists_countersOf .regular hpolicy htracks rfl (alike_of_reachable hs)
  refine ⟨active, hactive, hlength, hcount active hactive, fun run hrun i hselected => ?_,
    fun hlive => ?_⟩
  · have hpos : 0 < active.inFlight i := by
      rw [hcount active hactive i]
      exact Multiset.countP_pos.mpr ⟨run, hrun, hselected⟩
    refine ⟨hpos, AppState.exists_finish .regular fun other hother => ?_⟩
    rw [hactive, Option.mem_some_iff] at hother
    exact hother ▸ Counters.lt_length_of_inFlight_pos hpos
  · rw [← hlength]
    refine Counters.eq_zeros_of_inFlight fun i => ?_
    rw [hcount active hactive i, hlive, Multiset.countP_zero]

def twoHealthy : List Worker := [⟨"http://a:8000", true⟩, ⟨"http://b:8000", true⟩]

def getRequest : Parts := ⟨"GET", "/v1/models", none, []⟩

/-- Whatever the others have done, one more invocation collects an empty body and selects. -/
theorem exists_invocation {app app' : AppState}
    {s : Programs.System router AppState Parts (Except ProxyError (Response WorkerId))}
    (hs : Runs.Reachable (· = .start app) (Programs.Step machine (proxyHandler plainCrates)) s)
    {i : Nat} {url : String}
    (hexec : machine.exec (.next .regular ⟨"default", "default"⟩) s.shared (some (i, url)) app') :
    ∃ t, Runs.Reachable (· = .start app) (Programs.Step machine (proxyHandler plainCrates)) t ∧
      t.shared = app' ∧ ∀ j, t.live.countP (Selected j) =
        s.live.countP (Selected j) + if j = i then 1 else 0 := by
  have hcollected := (hs.tail (.start s getRequest)).tail
    (@Programs.Step.reply router _ _ _ _ _ _ s.live getRequest .collect _ [] [] rfl
      (.ok ByteArray.empty))
  have hselected := hcollected.tail
    (@Programs.Step.perform router _ _ _ _ _ _ s.live getRequest
      (.next .regular ⟨"default", "default"⟩) _ _ [] (some (i, url)) _ rfl hexec)
  refine ⟨_, hselected, rfl, fun j => ?_⟩
  rw [Multiset.countP_cons]
  simp [Selected, startedBy]

/-- The second invocation selects while the first one holds its worker. -/
theorem inFlight_eq_selected_two :
    ∃ app s active, AppState.new twoHealthy (.leastLoaded (.new 2)) = .ok app ∧
      Runs.Reachable (· = .start app)
        (Programs.Step machine (proxyHandler plainCrates)) s ∧
      s.shared.countersOf .regular = some active ∧ active.inFlight 0 = 1 ∧ active.inFlight 1 = 1 := by
  obtain ⟨app, hnew⟩ : ∃ app, AppState.new twoHealthy (.leastLoaded (.new 2)) = .ok app := ⟨_, rfl⟩
  obtain ⟨app₁, app₂, hfirst, hsecond⟩ : ∃ app₁ app₂,
      machine.exec (.next .regular ⟨"default", "default"⟩) app (some (0, "http://a:8000")) app₁ ∧
        machine.exec (.next .regular ⟨"default", "default"⟩) app₁ (some (1, "http://b:8000")) app₂ := by
    cases hnew
    exact ⟨_, _, ⟨⟨fun _ => 0, 0⟩, rfl⟩, ⟨⟨fun _ => 0, 0⟩, rfl⟩⟩
  obtain ⟨s, hs, rfl, hcount⟩ := exists_invocation (.of_start rfl) hfirst
  obtain ⟨t, ht, rfl, hcount'⟩ := exists_invocation hs hsecond
  obtain ⟨active, hactive, -, hinFlight, -⟩ :=
    @inFlight_eq_selected plainCrates twoHealthy .leastLoaded _ _ rfl rfl hnew _ ht
  refine ⟨app, t, active, hnew, ht, hactive, ?_, ?_⟩
  · rw [hinFlight, hcount', hcount]
    rfl
  · rw [hinFlight, hcount', hcount]
    rfl

end Accounting

end TokenDog
