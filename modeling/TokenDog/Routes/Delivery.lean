import TokenDog.Middleware.ProxyAccounting
import TokenDog.Routes.PdAccounting

/-!
# Delivery of streamed responses

A response that streams a worker's body outlives its handler: its chunks pass to the client while
later requests are selected. By then the request has been given back, so no counter includes it.
-/

namespace TokenDog

namespace Accounting

def handlerSpec : Programs.Spec router where
  may trace op := finishes op ≤ held trace
  ends := Settled

/-- A run that returns a stream keeps nothing. -/
def handlerPost (response : Response WorkerId) (trace : Programs.Trace router)
    (deferred : List RouterOp) : Prop :=
  Settled trace deferred ∧
    ∀ worker, response.body = .stream worker → held trace = released deferred

theorem lawful_handlerSpec :
    Lawful (fun _ : Parts => handlerSpec) fun _ => handlerPost where
  may _ _ _ hmay := hmay
  ends _ _ _ h := h
  post _ _ _ _ h := h.1

theorem settled_of_deferred_nil {trace : Programs.Trace router} : Settled trace [] :=
  ⟨Multiset.zero_le _, fun _ hop => (List.not_mem_nil hop).elim⟩

theorem handlerPost_error {trace : Programs.Trace router} {deferred : List RouterOp}
    (hsettled : Settled trace deferred) (error : PdProxyError) :
    handlerPost error.intoResponse trace deferred :=
  ⟨hsettled, nofun⟩

theorem wp_pdResult {careful : Programs.Event router → Prop} {program : Handler PdResult}
    {trace : Programs.Trace router}
    (h : Programs.wp (pdSpec careful) program (pdPost careful) trace []) :
    Programs.wp handlerSpec
      (program >>= fun result =>
        match result with
        | .ok response => return response
        | .error e => return e.intoResponse) handlerPost trace [] := by
  rw [Programs.wp_bind]
  refine Programs.wp_weaken ?_ ?_ ?_ h
  · exact fun _ _ => id
  · rintro trace _ ⟨rfl, -⟩
    exact settled_of_deferred_nil
  · rintro result trace _ ⟨⟨rfl, -⟩, hresponse⟩
    cases result with
    | error e => exact handlerPost_error settled_of_deferred_nil e
    | ok response => exact ⟨settled_of_deferred_nil, fun _ _ => hresponse response rfl⟩

theorem wp_pdProxyHandler (crates : Crates) (pdMode : Option PdMode) (parts : Parts) :
    Programs.wp handlerSpec (pdProxyHandler crates pdMode parts) handlerPost [] [] := by
  unfold pdProxyHandler
  split
  · rename_i mode _
    rw [wp_collect_bind]
    refine ⟨settled_of_deferred_nil, fun collected => ?_⟩
    cases collected with
    | error e => exact handlerPost_error settled_of_deferred_nil _
    | ok bodyBytes =>
        dsimp only
        split
        · exact handlerPost_error settled_of_deferred_nil _
        split
        · exact handlerPost_error settled_of_deferred_nil _
        split
        · exact settled_of_deferred_nil
        cases mode with
        | vllm => exact wp_pdResult (wp_processVllmPdRequest _ _ ⟨by simp, by simp [vllmCareful]⟩)
        | sglang =>
            exact wp_pdResult (wp_processSglangPdRequest _ _ _ ⟨by simp, by simp [sglangCareful]⟩)
  · rw [Programs.wp_bind]
    refine Programs.wp_weaken ?_ ?_ ?_ (wp_proxyHandler crates parts)
    · exact fun trace op => (lawful_proxySpec.may parts trace op)
    · exact fun trace deferred => (lawful_proxySpec.ends parts trace deferred)
    · rintro result trace deferred ⟨hends, hresponse⟩
      have hsettled := lawful_proxySpec.ends parts trace deferred hends
      cases result with
      | error e =>
          refine ⟨hsettled, ?_⟩
          intro response hresult
          cases hresult
      | ok response => exact ⟨hsettled, fun _ _ => hends.1⟩

def streamed (run : Programs.Ended router Parts (Response WorkerId)) : Multiset WorkerId :=
  match run.outcome.map Response.body with
  | some (.stream worker) => {worker}
  | _ => 0

/-- The handlers, and the streams that have neither ended nor been dropped. -/
structure Delivery where
  system : Programs.System router AppState Parts (Response WorkerId)
  streams : Multiset WorkerId

namespace Delivery

inductive Step (body : Parts → Handler (Response WorkerId)) : Delivery → Delivery → Prop where
  | handle {s : Delivery} {system : Programs.System router AppState Parts (Response WorkerId)}
      (hstep : Programs.Step machine body s.system system)
      (hended : system.ended = s.system.ended) : Step body s { s with system }
  | answer {s : Delivery} {system : Programs.System router AppState Parts (Response WorkerId)}
      {run : Programs.Ended router Parts (Response WorkerId)}
      (hstep : Programs.Step machine body s.system system)
      (hended : system.ended = run ::ₘ s.system.ended) :
      Step body s ⟨system, streamed run + s.streams⟩
  /-- A chunk passes to the client. -/
  | chunk {s : Delivery} {worker : WorkerId} (hmem : worker ∈ s.streams) : Step body s s
  /-- A stream ends, or the client drops it. -/
  | close {s : Delivery} {worker : WorkerId} (hmem : worker ∈ s.streams) :
      Step body s { s with streams := s.streams.erase worker }

def start (app : AppState) : Delivery := ⟨.start app, 0⟩

variable {body : Parts → Handler (Response WorkerId)} {app : AppState} {s : Delivery}

theorem reachable_system (hs : Runs.Reachable (· = start app) (Step body) s) :
    Runs.Reachable (· = .start app) (Programs.Step machine body) s.system := by
  refine hs.invariant
    (fun s => Runs.Reachable (· = .start app) (Programs.Step machine body) s.system) ?_ ?_
  · rintro _ rfl
    exact .of_start rfl
  · rintro s t - hsystem hstep
    cases hstep with
    | handle hstep hended => exact hsystem.tail hstep
    | answer hstep hended => exact hsystem.tail hstep
    | chunk hmem => exact hsystem
    | close hmem => exact hsystem

/-- The requests in the hands of a handler, and those that handlers which handed out no stream have
left behind. -/
def unanswered (s : Delivery) : Multiset WorkerId :=
  (s.system.live.map fun run => held run.trace).sum +
    ((s.system.ended.filter fun run => streamed run = 0).map leaked).sum

/-- A run that handed out a stream has left nothing behind. -/
theorem sum_leaked_eq {ended : Multiset (Programs.Ended router Parts (Response WorkerId))}
    (hkept : ∀ run ∈ ended, run.Kept (fun _ => handlerSpec) fun _ => handlerPost) :
    (ended.map leaked).sum = ((ended.filter fun run => streamed run = 0).map leaked).sum := by
  induction ended using Multiset.induction with
  | empty => rfl
  | cons run rest ih =>
      rw [Multiset.forall_mem_cons] at hkept
      rw [Multiset.map_cons, Multiset.sum_cons, ih hkept.2]
      by_cases hstream : streamed run = 0
      · rw [Multiset.filter_cons_of_pos (p := fun run => streamed run = 0) _ hstream,
          Multiset.map_cons, Multiset.sum_cons]
      · rw [Multiset.filter_cons_of_neg (p := fun run => streamed run = 0) _ hstream]
        suffices hleaked : leaked run = 0 by rw [hleaked, zero_add]
        obtain ⟨request, trace, deferred, outcome⟩ := run
        cases outcome with
        | none => exact (hstream rfl).elim
        | some response =>
            cases hbody : response.body with
            | bytes bytes => exact (hstream (by simp [streamed, hbody])).elim
            | stream worker => rw [leaked, hkept.1.2 worker hbody, tsub_self]

end Delivery

/-- The pool whose workers answer the clients. -/
def answering (app : AppState) : Pool :=
  match app.pdMode with
  | some _ => .decode
  | none => .regular

theorem exists_countersOf_answering {app app' : AppState}
    (hstart : AppState.StaticStart (·.tracksLoad = true) app) (halike : app.Alike app') :
    ∃ active, app'.countersOf (answering app) = some active := by
  cases hstart with
  | regular hallowed hpolicy hnew =>
      unfold AppState.new at hnew
      split at hnew <;> cases hnew
      obtain ⟨active, hactive, -⟩ := exists_countersOf .regular hpolicy hallowed rfl halike
      exact ⟨active, hactive⟩
  | pd hprefillAllowed hdecodeAllowed hprefill hdecode hnew =>
      unfold AppState.newPd at hnew
      split at hnew <;> [cases hnew; split at hnew] <;> cases hnew
      obtain ⟨active, hactive, -⟩ := exists_countersOf .decode hdecode hdecodeAllowed rfl halike
      exact ⟨active, hactive⟩

/-- The counter of every worker of the pool is at least the number of its open streams. -/
def Occupied (pool : Pool) (s : Delivery) : Prop :=
  ∃ active, s.system.shared.countersOf pool = some active ∧
    ∀ i, s.streams.count (pool, i) ≤ active.inFlight i

/-- In static mode with counting policies, for any interleaving of handlers and deliveries: the
counters cover the open streams exactly where as many requests are unanswered. -/
theorem occupied_iff {crates : Crates} {app : AppState}
    (hstart : AppState.StaticStart (·.tracksLoad = true) app) {s : Delivery}
    (hs : Runs.Reachable (· = .start app) (Delivery.Step (pdProxyHandler crates app.pdMode)) s) :
    Occupied (answering app) s ↔
      ∀ i, s.streams.count (answering app, i) ≤ s.unanswered.count (answering app, i) := by
  have hsystem := Delivery.reachable_system hs
  have hbody := wp_pdProxyHandler crates app.pdMode
  have hbooks := books_of_reachable lawful_handlerSpec hbody (accounted_start hstart) hsystem
  have hunanswered : outstanding s.system = s.unanswered := by
    rw [outstanding, Delivery.unanswered,
      Delivery.sum_leaked_eq (Programs.keeps_of_reachable hbody hsystem).2]
  obtain ⟨active, hactive⟩ := exists_countersOf_answering hstart (alike_of_reachable hsystem)
  have hinFlight : ∀ i, active.inFlight i = s.unanswered.count (answering app, i) := fun i => by
    rw [hbooks.accounted.inFlight_eq hactive, hunanswered]
  constructor
  · rintro ⟨other, hother, hle⟩ i
    rw [hactive, Option.some.injEq] at hother
    rw [← hinFlight, hother]
    exact hle i
  · exact fun hle => ⟨active, hactive, fun i => (hle i).trans (hinFlight i).ge⟩

theorem reachable_streaming {app : AppState}
    (hnew : AppState.new twoHealthy (.leastLoaded (.new 2)) = .ok app) :
    ∃ s, Runs.Reachable (· = .start app) (Delivery.Step (pdProxyHandler plainCrates app.pdMode)) s ∧
      s.system.shared = app ∧ s.system.live = 0 ∧ s.streams = {(.regular, 0)} := by
  have hfirst : Runs.Reachable (· = .start app)
      (Delivery.Step (pdProxyHandler plainCrates app.pdMode)) (.start app) := .of_start rfl
  have hstarted := hfirst.tail (.handle (.start _ getRequest) rfl)
  cases hnew
  have hcollected := hstarted.tail (.handle
    (@Programs.Step.reply router _ _ _ _ _ _ 0 getRequest .collect _ [] [] rfl
      (.ok ByteArray.empty)) rfl)
  have hselected := hcollected.tail (.handle
    (@Programs.Step.perform router _ _ _ _ _ _ 0 getRequest (.next .regular ⟨"default", "default"⟩)
      _ _ [] (some (0, "http://a:8000")) _ rfl ⟨⟨fun _ => 0, 0⟩, rfl⟩) rfl)
  have hguarded := hselected.tail (.handle
    (@Programs.Step.defer router _ _ _ _ _ _ 0 getRequest (.finish .regular 0) _ _ _ rfl) rfl)
  have hreplied := hguarded.tail (.handle
    (@Programs.Step.reply router _ _ _ _ _ _ 0 getRequest (.send .regular _) _ _ _ rfl
      (.ok ⟨200, []⟩)) rfl)
  have hrecorded := hreplied.tail (.handle
    (@Programs.Step.perform router _ _ _ _ _ _ 0 getRequest (.record .regular _ 0) _ _ _ () _ rfl
      ⟨⟨fun _ => 0, 0⟩, rfl⟩) rfl)
  have hanswered := hrecorded.tail (.answer
    (@Programs.Step.stop router _ _ _ _ _ _ 0 _ _ _ _ rfl (.ret _)
      (@Programs.Unwinds.cons router _ _ _ _ () _ _ _ rfl (.nil _))) rfl)
  exact ⟨_, hanswered, rfl, rfl, rfl⟩

/-- The stream of the only request is open and the counter of its worker is zero. -/
theorem not_occupied_of_streaming :
    ∃ app s, AppState.new twoHealthy (.leastLoaded (.new 2)) = .ok app ∧
      Runs.Reachable (· = .start app) (Delivery.Step (pdProxyHandler plainCrates app.pdMode)) s ∧
      ¬Occupied (answering app) s := by
  obtain ⟨app, hnew⟩ : ∃ app, AppState.new twoHealthy (.leastLoaded (.new 2)) = .ok app := ⟨_, rfl⟩
  obtain ⟨s, hs, hshared, -, hstreams⟩ := reachable_streaming hnew
  refine ⟨app, s, hnew, hs, ?_⟩
  rintro ⟨active, hactive, hle⟩
  have hzero := hle 0
  rw [hshared] at hactive
  rw [hstreams] at hzero
  cases hnew
  cases hactive
  exact absurd hzero (by decide)

/-- The next request selects the same worker and occupies it. -/
theorem occupied_of_next_request :
    ∃ app s, AppState.new twoHealthy (.leastLoaded (.new 2)) = .ok app ∧
      Runs.Reachable (· = .start app) (Delivery.Step (pdProxyHandler plainCrates app.pdMode)) s ∧
      s.streams = {(.regular, 0)} ∧ Occupied (answering app) s := by
  obtain ⟨app, hnew⟩ : ∃ app, AppState.new twoHealthy (.leastLoaded (.new 2)) = .ok app := ⟨_, rfl⟩
  obtain ⟨⟨⟨shared, live, ended⟩, streams⟩, hs, rfl, rfl, rfl⟩ := reachable_streaming hnew
  have hstarted := hs.tail (.handle (.start _ getRequest) rfl)
  cases hnew
  have hcollected := hstarted.tail (.handle
    (@Programs.Step.reply router _ _ _ _ _ _ 0 getRequest .collect _ [] [] rfl
      (.ok ByteArray.empty)) rfl)
  have hselected := hcollected.tail (.handle
    (@Programs.Step.perform router _ _ _ _ _ _ 0 getRequest (.next .regular ⟨"default", "default"⟩)
      _ _ [] (some (0, "http://a:8000")) _ rfl ⟨⟨fun _ => 0, 0⟩, rfl⟩) rfl)
  refine ⟨_, _, rfl, hselected, rfl, (occupied_iff ?_ hselected).mpr fun i => ?_⟩
  · exact @AppState.StaticStart.regular _ twoHealthy .leastLoaded _ _ rfl rfl rfl
  · refine le_trans (Multiset.count_le_of_le _ ?_) (Multiset.count_le_of_le _
      (Multiset.le_add_right _ _))
    simp [held_cons, startedBy]

end Accounting

end TokenDog
