import TokenDog.Accounting
import TokenDog.Routes.PdHandler

/-!
# Accounting of the prefill-decode handlers

The handlers call `finish` themselves, and many ways out come before that. Each handler has its
careful events; a run gives back all it took exactly if every event of it was careful.
-/

namespace TokenDog

namespace Accounting

/-- The events after which the vLLM handler still reaches every `finish` it owes. -/
def vllmCareful (crates : Crates) (path : String) (requestJson : Value) :
    Programs.Event router → Prop
  | .ran (.next .prefill _) (some (_, url)) =>
      patchable requestJson path = true ∧ (buildTargetUrl crates url path).isOk = true
  | .ran (.next .decode _) (some (_, url)) => (buildTargetUrl crates url path).isOk = true
  | .replied (.send _ _) reply => reply.isOk = true
  | .replied (.bytes .prefill _) reply =>
      (reply.toOption.map fun bytes => (crates.fromSlice bytes).isOk) = some true
  | .dropped (.send _ _) => False
  | .dropped (.bytes .prefill _) => False
  | _ => True

/-- The events after which the SGLang handler still reaches every `finish` it owes. -/
def sglangCareful (crates : Crates) (path : String) : Programs.Event router → Prop
  | .ran (.next _ _) (some (_, url)) => (buildTargetUrl crates url path).isOk = true
  | .ran (.next .decode _) none => False
  | .panicked (some (.next .decode _)) => False
  | .ran .random draw => draw ≠ -2 ^ 63
  | .replied (.sendBoth _ _) reply => reply.isOk = true
  | .dropped (.sendBoth _ _) => False
  | _ => True

/-- A run finishes only what it holds, defers nothing, and holds nothing at its end exactly if all
its events were careful. After a panic that does not happen, nothing is said. -/
def pdSpec (careful : Programs.Event router → Prop) : Programs.Spec router where
  may trace op := finishes op ≤ held trace
  ends trace deferred := deferred = [] ∧
    ((∃ event ∈ trace, Unexpected event) ∨ (held trace = 0 ↔ ∀ event ∈ trace, careful event))

/-- A run that returns a response has given everything back. -/
def pdPost (careful : Programs.Event router → Prop) (result : PdResult)
    (trace : Programs.Trace router) (deferred : List RouterOp) : Prop :=
  (pdSpec careful).ends trace deferred ∧ ∀ response, result = .ok response → held trace = 0

section Ends

variable {careful : Programs.Event router → Prop} {trace : Programs.Trace router}
  {workers : Multiset WorkerId}

/-- A history of careful events that holds the given workers. -/
structure Owes (careful : Programs.Event router → Prop) (workers : Multiset WorkerId)
    (trace : Programs.Trace router) : Prop where
  held_eq : held trace = workers
  careful : ∀ event ∈ trace, careful event

theorem Owes.select (h : Owes careful workers trace) {pool : Pool} {ctx : RequestContext}
    {workerIdx : Nat} {url : String} (hevent : careful (.ran (.next pool ctx) (some (workerIdx, url)))) :
    Owes careful ((pool, workerIdx) ::ₘ workers)
      (.ran (.next pool ctx) (some (workerIdx, url)) :: trace) :=
  ⟨(held_next_some _ _ _ _ _).trans (by rw [h.held_eq]), List.forall_mem_cons.mpr ⟨hevent, h.careful⟩⟩

theorem Owes.finish {pool : Pool} {workerIdx : Nat}
    (h : Owes careful ((pool, workerIdx) ::ₘ workers) trace)
    (hevent : careful (.ran (.finish pool workerIdx) ())) :
    Owes careful workers (.ran (.finish pool workerIdx) () :: trace) := by
  refine ⟨?_, List.forall_mem_cons.mpr ⟨hevent, h.careful⟩⟩
  rw [held_finish, h.held_eq, Multiset.sub_singleton, Multiset.erase_cons_head]

theorem Owes.may_finish {pool : Pool} {workerIdx : Nat}
    (h : Owes careful ((pool, workerIdx) ::ₘ workers) trace) :
    finishes (.finish pool workerIdx) ≤ held trace := by
  rw [h.held_eq]
  exact Multiset.singleton_le.mpr (Multiset.mem_cons_self _ _)

theorem Owes.pass (h : Owes careful workers trace) (event : Programs.Event router)
    (hheld : held (event :: trace) = held trace) (hevent : careful event) :
    Owes careful workers (event :: trace) :=
  ⟨hheld.trans h.held_eq, List.forall_mem_cons.mpr ⟨hevent, h.careful⟩⟩

theorem Owes.ends (h : Owes careful 0 trace) : (pdSpec careful).ends trace [] :=
  ⟨rfl, Or.inr (iff_of_true h.held_eq h.careful)⟩

theorem Owes.post (h : Owes careful 0 trace) (result : PdResult) :
    pdPost careful result trace [] :=
  ⟨h.ends, fun _ _ => h.held_eq⟩

theorem pdSpec_ends_leaky (hheld : held trace ≠ 0) (hcareless : ∃ event ∈ trace, ¬careful event) :
    (pdSpec careful).ends trace [] := by
  refine ⟨rfl, Or.inr (iff_of_false hheld fun hall => ?_)⟩
  obtain ⟨event, hmem, hnot⟩ := hcareless
  exact hnot (hall event hmem)

theorem Owes.leaks {worker : WorkerId} (h : Owes careful (worker ::ₘ workers) trace)
    {event : Programs.Event router} (hheld : held (event :: trace) = held trace)
    (hevent : ¬careful event) : (pdSpec careful).ends (event :: trace) [] :=
  pdSpec_ends_leaky (by rw [hheld, h.held_eq]; exact Multiset.cons_ne_zero)
    ⟨_, List.mem_cons_self, hevent⟩

theorem pdSpec_ends_unexpected {event : Programs.Event router} (hunexpected : Unexpected event) :
    (pdSpec careful).ends (event :: trace) [] :=
  ⟨rfl, Or.inl ⟨_, List.mem_cons_self, hunexpected⟩⟩

section Rules

variable {post : PdResult → Programs.Trace router → List RouterOp → Prop}

theorem Owes.wp_finish {pool : Pool} {workerIdx : Nat}
    (h : Owes careful ((pool, workerIdx) ::ₘ workers) trace)
    (hevent : careful (.ran (.finish pool workerIdx) ())) {next : Unit → Handler PdResult}
    (hnext : Owes careful workers (.ran (.finish pool workerIdx) () :: trace) →
      Programs.wp (pdSpec careful) (next ()) post (.ran (.finish pool workerIdx) () :: trace) []) :
    Programs.wp (pdSpec careful) (Handler.finish pool workerIdx >>= next) post trace [] := by
  rw [wp_finish_bind]
  exact ⟨h.may_finish, pdSpec_ends_unexpected trivial, fun _ => hnext (h.finish hevent)⟩

theorem Owes.wp_record (h : Owes careful workers trace) {pool : Pool} {ctx : RequestContext}
    {workerIdx : Nat} (hevent : careful (.ran (.record pool ctx workerIdx) ()))
    {next : Unit → Handler PdResult}
    (hnext : Owes careful workers (.ran (.record pool ctx workerIdx) () :: trace) →
      Programs.wp (pdSpec careful) (next ()) post
        (.ran (.record pool ctx workerIdx) () :: trace) []) :
    Programs.wp (pdSpec careful) (Handler.record pool ctx workerIdx >>= next) post trace [] := by
  rw [wp_record_bind]
  refine ⟨Multiset.zero_le _, pdSpec_ends_unexpected trivial, fun _ => ?_⟩
  exact hnext (h.pass _ (held_record _ _ _ _ _) hevent)

end Rules

theorem Owes.wp_bytes {α : Type} {post : α → Programs.Trace router → List RouterOp → Prop}
    (h : Owes careful 0 trace) {pool : Pool} {response : WorkerResponse}
    (hdropped : careful (.dropped (.bytes pool response)))
    (hreplied : ∀ reply, careful (.replied (.bytes pool response) reply))
    {next : Except ReqwestError ByteArray → Handler α}
    (hnext : ∀ reply, Owes careful 0 (.replied (.bytes pool response) reply :: trace) →
      Programs.wp (pdSpec careful) (next reply) post
        (.replied (.bytes pool response) reply :: trace) []) :
    Programs.wp (pdSpec careful) (Handler.bytes pool response >>= next) post trace [] := by
  rw [wp_bytes_bind]
  refine ⟨(h.pass _ (held_dropped _ _) hdropped).ends, fun reply => ?_⟩
  exact hnext reply (h.pass _ (held_replied _ _ _) (hreplied reply))

end Ends

section Vllm

variable {crates : Crates} {path : String} {requestJson : Value} {trace : Programs.Trace router}

theorem wp_vllmResponse (si : StreamingInfo) (prefillJson : Value) (status : Nat)
    (decodeHeaders : Headers) (decodeBytes : ByteArray)
    (h : Owes (vllmCareful crates path requestJson) 0 trace) :
    Programs.wp (pdSpec (vllmCareful crates path requestJson))
      (vllmResponse crates si prefillJson status decodeHeaders decodeBytes)
      (pdPost (vllmCareful crates path requestJson)) trace [] := by
  unfold vllmResponse
  split
  · split
    · exact h.post _
    · split
      · exact (h.pass (.panicked none) (held_panicked _ _) trivial).ends
      · exact h.post _
  · exact h.post _

theorem wp_vllmDecode (ctx : RequestContext) (requestHeaders : Headers) (prefillJson : Value)
    (h : Owes (vllmCareful crates path requestJson) 0 trace) :
    Programs.wp (pdSpec (vllmCareful crates path requestJson))
      (vllmDecode crates path requestJson ctx requestHeaders prefillJson)
      (pdPost (vllmCareful crates path requestJson)) trace [] := by
  unfold vllmDecode
  rw [wp_next_bind]
  refine ⟨Multiset.zero_le _,
    (h.pass (.panicked (some (.next .decode ctx))) (held_panicked _ _) trivial).ends, fun selected => ?_⟩
  cases selected with
  | none => exact (h.pass (.ran (.next .decode ctx) none) (held_next_none _ _ _) trivial).post _
  | some entry =>
      obtain ⟨decodeIdx, decodeUrl⟩ := entry
      dsimp only
      split
      · rename_i htarget
        refine ⟨pdSpec_ends_leaky (by simp) ⟨_, List.mem_cons_self, ?_⟩, nofun⟩
        simp [vllmCareful, htarget, Except.isOk, Except.toBool]
      rename_i decodeTarget htarget
      have hselected : Owes _ _ (.ran (.next .decode ctx) (some (decodeIdx, decodeUrl)) :: trace) :=
        h.select (by rw [vllmCareful, htarget]; rfl)
      rw [wp_send_bind]
      refine ⟨hselected.leaks (held_dropped _ _) id, fun reply => ?_⟩
      cases reply with
      | error e => exact ⟨hselected.leaks (held_replied _ _ _) Bool.noConfusion, nofun⟩
      | ok decodeResp =>
          dsimp only
          have hreplied := hselected.pass
            (.replied (.send .decode (post decodeTarget (filterHeaders requestHeaders)
              (vllmDecodeRequest requestJson prefillJson))) (.ok decodeResp))
            (held_replied _ _ _) rfl
          apply hreplied.wp_finish trivial
          intro hfinished
          apply hfinished.wp_record trivial
          intro hrecorded
          split
          · exact hrecorded.post _
          apply hrecorded.wp_bytes
          · trivial
          · exact fun _ => trivial
          · intro reply hread
            cases reply with
            | error e => exact hread.post _
            | ok decodeBytes => exact wp_vllmResponse _ _ _ _ _ hread

theorem wp_vllmPrefillCompletion (ctx : RequestContext) (requestHeaders : Headers)
    {prefillIdx : Nat} (prefillResp : WorkerResponse)
    (h : Owes (vllmCareful crates path requestJson) ((.prefill, prefillIdx) ::ₘ 0) trace) :
    Programs.wp (pdSpec (vllmCareful crates path requestJson))
      (vllmPrefillCompletion crates path requestJson ctx requestHeaders prefillIdx prefillResp)
      (pdPost (vllmCareful crates path requestJson)) trace [] := by
  unfold vllmPrefillCompletion
  split
  · apply h.wp_finish trivial
    intro hfinished
    rw [wp_text_bind]
    refine ⟨(hfinished.pass (.dropped (.text .prefill prefillResp)) (held_dropped _ _)
      trivial).ends, fun errorBody => ?_⟩
    exact (hfinished.pass (.replied (.text .prefill prefillResp) errorBody) (held_replied _ _ _)
      trivial).post _
  · rw [wp_bytes_bind]
    refine ⟨h.leaks (held_dropped _ _) id, fun reply => ?_⟩
    cases reply with
    | error e =>
        exact ⟨h.leaks (held_replied _ (.bytes .prefill prefillResp) (.error e))
          (by simp [vllmCareful, Except.toOption]), nofun⟩
    | ok prefillBytes =>
        dsimp only
        split
        · rename_i hjson
          exact ⟨h.leaks (held_replied _ (.bytes .prefill prefillResp) (.ok prefillBytes))
            (by simp [vllmCareful, Except.toOption, hjson, Except.isOk, Except.toBool]), nofun⟩
        rename_i prefillJson hjson
        have hread := h.pass (.replied (.bytes .prefill prefillResp) (.ok prefillBytes))
          (held_replied _ _ _) (by simp [vllmCareful, Except.toOption, hjson, Except.isOk, Except.toBool])
        apply hread.wp_finish trivial
        intro hfinished
        apply hfinished.wp_record trivial
        exact wp_vllmDecode ctx requestHeaders prefillJson

theorem wp_processVllmPdRequest (ctx : RequestContext) (requestHeaders : Headers)
    (h : Owes (vllmCareful crates path requestJson) 0 trace) :
    Programs.wp (pdSpec (vllmCareful crates path requestJson))
      (processVllmPdRequest crates path requestJson ctx requestHeaders)
      (pdPost (vllmCareful crates path requestJson)) trace [] := by
  unfold processVllmPdRequest
  rw [wp_next_bind]
  refine ⟨Multiset.zero_le _,
    (h.pass (.panicked (some (.next .prefill ctx))) (held_panicked _ _) trivial).ends, fun selected => ?_⟩
  cases selected with
  | none => exact (h.pass (.ran (.next .prefill ctx) none) (held_next_none _ _ _) trivial).post _
  | some entry =>
      obtain ⟨prefillIdx, prefillUrl⟩ := entry
      dsimp only
      cases hpatchable : patchable requestJson path with
      | false =>
          rw [vllmPrefillRequest_of_not_patchable hpatchable]
          refine pdSpec_ends_leaky (by simp) ⟨_, List.mem_cons_of_mem _ List.mem_cons_self, ?_⟩
          simp [vllmCareful, hpatchable]
      | true =>
          obtain ⟨prefillRequest, hprefillRequest⟩ := exists_vllmPrefillRequest hpatchable
          rw [hprefillRequest]
          dsimp only
          split
          · rename_i htarget
            refine ⟨pdSpec_ends_leaky (by simp) ⟨_, List.mem_cons_self, ?_⟩, nofun⟩
            simp [vllmCareful, htarget, Except.isOk, Except.toBool]
          rename_i htarget
          have hselected :
              Owes _ _ (.ran (.next .prefill ctx) (some (prefillIdx, prefillUrl)) :: trace) :=
            h.select ⟨hpatchable, by rw [htarget]; rfl⟩
          rw [wp_send_bind]
          refine ⟨hselected.leaks (held_dropped _ _) id, fun reply => ?_⟩
          cases reply with
          | error e => exact ⟨hselected.leaks (held_replied _ _ _) Bool.noConfusion, nofun⟩
          | ok prefillResp =>
              exact wp_vllmPrefillCompletion ctx requestHeaders prefillResp
                (hselected.pass (.replied (.send .prefill _) (.ok prefillResp)) (held_replied _ _ _) rfl)

end Vllm

section Sglang

variable {crates : Crates} {path : String} {trace : Programs.Trace router}

theorem wp_sglangResponse (si : StreamingInfo) (prefillJson : Option Value) (status : Nat)
    (decodeHeaders : Headers) (decodeBytes : ByteArray) (h : Owes (sglangCareful crates path) 0 trace) :
    Programs.wp (pdSpec (sglangCareful crates path))
      (sglangResponse crates si prefillJson status decodeHeaders decodeBytes)
      (pdPost (sglangCareful crates path)) trace [] := by
  unfold sglangResponse
  split
  · split
    · split
      · split
        · exact (h.pass (.panicked none) (held_panicked _ _) trivial).ends
        · exact h.post _
      · exact h.post _
    · exact h.post _
  · exact h.post _

theorem wp_sglangPrefillJson (si : StreamingInfo) (prefillResp : WorkerResponse)
    (h : Owes (sglangCareful crates path) 0 trace) :
    Programs.wp (pdSpec (sglangCareful crates path)) (sglangPrefillJson crates si prefillResp)
      (fun _ trace deferred => deferred = [] ∧ Owes (sglangCareful crates path) 0 trace)
      trace [] := by
  unfold sglangPrefillJson
  split
  · apply h.wp_bytes trivial fun _ => trivial
    intro reply hread
    cases reply with
    | error e => exact ⟨rfl, hread⟩
    | ok bytes => exact ⟨rfl, hread⟩
  · exact ⟨rfl, h⟩

theorem wp_sglangCompletion (ctx : RequestContext) (si : StreamingInfo) {prefillIdx decodeIdx : Nat}
    (prefillResp decodeResp : WorkerResponse)
    (h : Owes (sglangCareful crates path) ((.prefill, prefillIdx) ::ₘ (.decode, decodeIdx) ::ₘ 0) trace) :
    Programs.wp (pdSpec (sglangCareful crates path))
      (sglangCompletion crates ctx si prefillIdx decodeIdx prefillResp decodeResp)
      (pdPost (sglangCareful crates path)) trace [] := by
  unfold sglangCompletion
  apply h.wp_finish trivial
  intro hprefill
  apply hprefill.wp_record trivial
  intro hrecorded
  apply hrecorded.wp_finish trivial
  intro hdecode
  apply hdecode.wp_record trivial
  intro hfinished
  rw [Programs.wp_bind]
  refine Programs.wp_mono ?_ (wp_sglangPrefillJson si prefillResp hfinished)
  rintro prefillJson trace' deferred ⟨rfl, howes⟩
  split
  · exact howes.post _
  · apply howes.wp_bytes trivial fun _ => trivial
    intro reply hread
    cases reply with
    | error e => exact hread.post _
    | ok decodeBytes => exact wp_sglangResponse _ _ _ _ _ hread

theorem wp_processSglangPdRequest (requestJson : Value) (ctx : RequestContext)
    (requestHeaders : Headers) (h : Owes (sglangCareful crates path) 0 trace) :
    Programs.wp (pdSpec (sglangCareful crates path))
      (processSglangPdRequest crates path requestJson ctx requestHeaders)
      (pdPost (sglangCareful crates path)) trace [] := by
  unfold processSglangPdRequest
  rw [wp_next_bind]
  refine ⟨Multiset.zero_le _,
    (h.pass (.panicked (some (.next .prefill ctx))) (held_panicked _ _) trivial).ends, fun selected => ?_⟩
  cases selected with
  | none => exact (h.pass (.ran (.next .prefill ctx) none) (held_next_none _ _ _) trivial).post _
  | some entry =>
      obtain ⟨prefillIdx, prefillUrl⟩ := entry
      dsimp only
      -- the target is parsed later, so a bad one stays in the history until then
      rw [wp_next_bind]
      refine ⟨Multiset.zero_le _,
        pdSpec_ends_leaky (by simp) ⟨_, List.mem_cons_self, id⟩, fun selected => ?_⟩
      cases selected with
      | none => exact ⟨pdSpec_ends_leaky (by simp) ⟨_, List.mem_cons_self, id⟩, nofun⟩
      | some entry =>
          obtain ⟨decodeIdx, decodeUrl⟩ := entry
          dsimp only
          rw [wp_random_bind]
          refine ⟨Multiset.zero_le _, pdSpec_ends_unexpected trivial, fun draw => ?_⟩
          split
          · rename_i hroom
            refine pdSpec_ends_leaky (by simp) ⟨_, List.mem_cons_of_mem _ List.mem_cons_self, ?_⟩
            exact not_not.mpr (draw_of_buildSglangBootstrapParams hroom)
          rename_i hroom
          have hdraw := (buildSglangBootstrapParams_eq_ok hroom).1
          split
          · rename_i htarget
            refine ⟨pdSpec_ends_leaky (by simp) ⟨_, List.mem_cons_of_mem _
              (List.mem_cons_of_mem _ List.mem_cons_self), ?_⟩, nofun⟩
            simp [sglangCareful, htarget, Except.isOk, Except.toBool]
          rename_i hprefillTarget
          split
          · rename_i htarget
            refine ⟨pdSpec_ends_leaky (by simp)
              ⟨_, List.mem_cons_of_mem _ List.mem_cons_self, ?_⟩, nofun⟩
            simp [sglangCareful, htarget, Except.isOk, Except.toBool]
          rename_i hdecodeTarget
          have hprefill :
              Owes _ _ (.ran (.next .prefill ctx) (some (prefillIdx, prefillUrl)) :: trace) :=
            h.select (by rw [sglangCareful, hprefillTarget]; rfl)
          have hdecode : Owes _ _ (.ran (.next .decode ctx) (some (decodeIdx, decodeUrl)) :: _) :=
            hprefill.select (by rw [sglangCareful, hdecodeTarget]; rfl)
          have hdrawn := hdecode.pass (.ran .random draw) (held_random _ _) hdraw
          rw [Multiset.cons_swap] at hdrawn
          rw [wp_sendBoth_bind]
          refine ⟨hdrawn.leaks (held_dropped _ _) id, fun reply => ?_⟩
          cases reply with
          | error e => exact ⟨hdrawn.leaks (held_replied _ _ _) Bool.noConfusion, nofun⟩
          | ok responses =>
              obtain ⟨prefillResp, decodeResp⟩ := responses
              exact wp_sglangCompletion ctx _ prefillResp decodeResp (hdrawn.pass
                (.replied (.sendBoth _ _) (.ok (prefillResp, decodeResp))) (held_replied _ _ _) rfl)

end Sglang

/-! ### Interleaved runs -/

structure PdRequest where
  mode : PdMode
  path : String
  requestJson : Value
  ctx : RequestContext
  requestHeaders : Headers

def processPdRequest (crates : Crates) (request : PdRequest) : Handler PdResult :=
  match request.mode with
  | .vllm =>
      processVllmPdRequest crates request.path request.requestJson request.ctx
        request.requestHeaders
  | .sglang =>
      processSglangPdRequest crates request.path request.requestJson request.ctx
        request.requestHeaders

def PdRequest.Careful (crates : Crates) (request : PdRequest) : Programs.Event router → Prop :=
  match request.mode with
  | .vllm => vllmCareful crates request.path request.requestJson
  | .sglang => sglangCareful crates request.path

theorem wp_processPdRequest (crates : Crates) (request : PdRequest) :
    Programs.wp (pdSpec (request.Careful crates)) (processPdRequest crates request)
      (pdPost (request.Careful crates)) [] [] := by
  obtain ⟨mode, path, requestJson, ctx, requestHeaders⟩ := request
  cases mode with
  | vllm => exact wp_processVllmPdRequest ctx requestHeaders ⟨rfl, by simp⟩
  | sglang => exact wp_processSglangPdRequest requestJson ctx requestHeaders ⟨rfl, by simp⟩

theorem lawful_pdSpec (crates : Crates) :
    Lawful (fun request : PdRequest => pdSpec (request.Careful crates))
      fun request => pdPost (request.Careful crates) where
  may request trace op hmay := hmay
  ends request trace deferred h := by
    rw [h.1]
    exact ⟨Multiset.zero_le _, by simp⟩
  post request value trace deferred h := by
    rw [h.1.1]
    exact ⟨Multiset.zero_le _, by simp⟩

/-- Every request that a run started was finished exactly once when the run has ended, and all
counters are zero when no run is left. -/
def Conserved (s : Programs.System router AppState PdRequest PdResult) : Prop :=
  (∀ run ∈ s.ended, started run.trace = finished run.trace) ∧
    (s.live = 0 → ∀ pool active, s.shared.countersOf pool = some active →
      ∀ i, active.inFlight i = 0)

/-- In static PD mode with counting policies, for any interleaving of runs of both handlers: the
accounting is conserved exactly if every event of the ended runs was careful. -/
theorem conserved_iff_careful {crates : Crates} {pdMode : PdMode}
    {prefillWorkers decodeWorkers : List Worker} {prefillKind decodeKind : Policy}
    {prefillPolicy decodePolicy : Balancer} {app : AppState}
    (hprefill : Balancer.makePolicy prefillKind prefillWorkers.length = .ok prefillPolicy)
    (hdecode : Balancer.makePolicy decodeKind decodeWorkers.length = .ok decodePolicy)
    (hprefillTracks : prefillKind.tracksLoad = true) (hdecodeTracks : decodeKind.tracksLoad = true)
    (hnew : AppState.newPd pdMode prefillWorkers decodeWorkers prefillPolicy decodePolicy = .ok app)
    {s : Programs.System router AppState PdRequest PdResult}
    (hs : Runs.Reachable (· = .start app) (Programs.Step machine (processPdRequest crates)) s) :
    (∃ prefill decode, s.shared.countersOf .prefill = some prefill ∧
      s.shared.countersOf .decode = some decode ∧ prefill.length = prefillWorkers.length ∧
        decode.length = decodeWorkers.length) ∧
      (Conserved s ↔ ∀ run ∈ s.ended, ∀ event ∈ run.trace, run.request.Careful crates event) := by
  have hstart : AppState.StaticStart (·.tracksLoad = true) app :=
    .pd hprefillTracks hdecodeTracks hprefill hdecode hnew
  have hbody := wp_processPdRequest crates
  have hbooks := books_of_reachable (lawful_pdSpec crates) hbody (accounted_start hstart) hs
  -- a run that ended holds nothing exactly if it was careful
  have hheld : ∀ run ∈ s.ended, run.deferred = [] ∧
      (held run.trace = 0 ↔ ∀ event ∈ run.trace, run.request.Careful crates event) := by
    intro run hrun
    have hends : (pdSpec (run.request.Careful crates)).ends run.trace run.deferred := by
      have hkept := (Programs.keeps_of_reachable hbody hs).2 run hrun
      unfold Programs.Ended.Kept at hkept
      split at hkept
      · exact hkept.1
      · exact hkept
    refine ⟨hends.1, hends.2.resolve_left ?_⟩
    rintro ⟨event, hmem, hunexpected⟩
    exact (expected_of_reachable (lawful_pdSpec crates) hbody (accounted_start hstart) hs).2 run
      hrun event hmem hunexpected
  have hbalanced : ∀ run ∈ s.ended, (started run.trace = finished run.trace ↔ held run.trace = 0) := by
    intro run hrun
    rw [hbooks.ended run hrun]
    exact add_eq_left
  refine ⟨?_, fun hconserved run hrun => ?_, fun hcareful => ⟨fun run hrun => ?_, fun hlive => ?_⟩⟩
  · have halike := alike_of_reachable hs
    unfold AppState.newPd at hnew
    split at hnew <;> [cases hnew; split at hnew] <;> cases hnew
    obtain ⟨prefill, hprefillActive, hprefillLength⟩ :=
      exists_countersOf .prefill hprefill hprefillTracks rfl halike
    obtain ⟨decode, hdecodeActive, hdecodeLength⟩ :=
      exists_countersOf .decode hdecode hdecodeTracks rfl halike
    exact ⟨prefill, decode, hprefillActive, hdecodeActive, hprefillLength, hdecodeLength⟩
  · exact (hheld run hrun).2.mp ((hbalanced run hrun).mp (hconserved.1 run hrun))
  · exact (hbalanced run hrun).mpr ((hheld run hrun).2.mpr (hcareful run hrun))
  · intro pool active hactive i
    have houtstanding : outstanding s = 0 := by
      rw [outstanding, hlive, Multiset.map_zero, Multiset.sum_zero, zero_add]
      refine Multiset.sum_eq_zero fun workers hworkers => ?_
      obtain ⟨run, hrun, rfl⟩ := Multiset.mem_map.mp hworkers
      rw [leaked, (hheld run hrun).2.mpr (hcareful run hrun)]
      exact zero_tsub _
    rw [hbooks.accounted.inFlight_eq hactive, houtstanding, Multiset.count_zero]

def onePrefill : List Worker := [⟨"http://p:8000", true⟩]

def oneDecode : List Worker := [⟨"http://d:8000", true⟩]

def completionRequest : PdRequest :=
  ⟨.sglang, "/v1/completions", .object [], ⟨"default", "default"⟩, []⟩

/-- A prefill worker is selected when no decode worker is healthy: its counter stays at one. -/
theorem not_conserved_of_no_decode_worker :
    ∃ app s, AppState.newPd .sglang onePrefill oneDecode (.leastLoaded (.new 1))
        (.leastLoaded (.new 1)) = .ok app ∧
      Runs.Reachable (· = .start app) (Programs.Step machine (processPdRequest plainCrates)) s ∧
      s.live = 0 ∧ ¬Conserved s := by
  obtain ⟨app, hnew⟩ : ∃ app, AppState.newPd .sglang onePrefill oneDecode (.leastLoaded (.new 1))
    (.leastLoaded (.new 1)) = .ok app := ⟨_, rfl⟩
  have hfirst : Runs.Reachable (· = .start app)
      (Programs.Step machine (processPdRequest plainCrates)) (.start app) := .of_start rfl
  have hunhealthy := hfirst.tail (.moves ⟨fun pool _ => pool != .decode, rfl⟩)
  have hstarted := hunhealthy.tail (.start _ completionRequest)
  cases hnew
  have hprefill := hstarted.tail
    (@Programs.Step.perform router _ _ _ _ _ _ 0 completionRequest
      (.next .prefill ⟨"default", "default"⟩) _ _ [] (some (0, "http://p:8000")) _ rfl
      ⟨⟨fun _ => 0, 0⟩, rfl⟩)
  have hdecode := hprefill.tail
    (@Programs.Step.perform router _ _ _ _ _ _ 0 completionRequest
      (.next .decode ⟨"default", "default"⟩) _ _ [] none _ rfl ⟨⟨fun _ => 0, 0⟩, rfl⟩)
  have hended := hdecode.tail
    (@Programs.Step.stop router _ _ _ _ _ _ 0 _ _ _ _ rfl (.ret _) (.nil _))
  refine ⟨_, _, rfl, hended, rfl, fun hconserved => ?_⟩
  have hzero := hconserved.2 rfl .prefill [1] rfl 0
  cases hzero

/-- Both workers answer and the body of the decode response is read: all counters are zero. -/
theorem conserved_of_answered :
    ∃ app s, AppState.newPd .sglang onePrefill oneDecode (.leastLoaded (.new 1))
        (.leastLoaded (.new 1)) = .ok app ∧
      Runs.Reachable (· = .start app) (Programs.Step machine (processPdRequest plainCrates)) s ∧
      s.ended.card = 1 ∧ (∀ run ∈ s.ended, (started run.trace).card = 2) ∧ Conserved s := by
  obtain ⟨app, hnew⟩ : ∃ app, AppState.newPd .sglang onePrefill oneDecode (.leastLoaded (.new 1))
    (.leastLoaded (.new 1)) = .ok app := ⟨_, rfl⟩
  have hfirst : Runs.Reachable (· = .start app)
      (Programs.Step machine (processPdRequest plainCrates)) (.start app) := .of_start rfl
  have hstarted := hfirst.tail (.start _ completionRequest)
  cases hnew
  have hprefill := hstarted.tail
    (@Programs.Step.perform router _ _ _ _ _ _ 0 completionRequest
      (.next .prefill ⟨"default", "default"⟩) _ _ [] (some (0, "http://p:8000")) _ rfl
      ⟨⟨fun _ => 0, 0⟩, rfl⟩)
  have hdecode := hprefill.tail
    (@Programs.Step.perform router _ _ _ _ _ _ 0 completionRequest
      (.next .decode ⟨"default", "default"⟩) _ _ [] (some (0, "http://d:8000")) _ rfl
      ⟨⟨fun _ => 0, 0⟩, rfl⟩)
  have hdrawn := hdecode.tail
    (@Programs.Step.perform router _ _ _ _ _ _ 0 completionRequest .random _ _ [] (7 : Int) _ rfl
      ⟨rfl, by decide, by decide⟩)
  have hreplied := hdrawn.tail
    (@Programs.Step.reply router _ _ _ _ _ _ 0 completionRequest (.sendBoth _ _) _ _ [] rfl
      (.ok (⟨200, []⟩, ⟨200, []⟩)))
  have hprefillFinished := hreplied.tail
    (@Programs.Step.perform router _ _ _ _ _ _ 0 completionRequest (.finish .prefill 0) _ _ []
      () _ rfl rfl)
  have hprefillRecorded := hprefillFinished.tail
    (@Programs.Step.perform router _ _ _ _ _ _ 0 completionRequest (.record .prefill _ 0) _ _ []
      () _ rfl ⟨⟨fun _ => 0, 0⟩, rfl⟩)
  have hdecodeFinished := hprefillRecorded.tail
    (@Programs.Step.perform router _ _ _ _ _ _ 0 completionRequest (.finish .decode 0) _ _ []
      () _ rfl rfl)
  have hdecodeRecorded := hdecodeFinished.tail
    (@Programs.Step.perform router _ _ _ _ _ _ 0 completionRequest (.record .decode _ 0) _ _ []
      () _ rfl ⟨⟨fun _ => 0, 0⟩, rfl⟩)
  have hread := hdecodeRecorded.tail
    (@Programs.Step.reply router _ _ _ _ _ _ 0 completionRequest (.bytes .decode _) _ _ [] rfl
      (.ok ByteArray.empty))
  have hended := hread.tail
    (@Programs.Step.stop router _ _ _ _ _ _ 0 _ _ _ _ rfl (.ret _) (.nil _))
  refine ⟨_, _, rfl, hended, rfl, by simp [Programs.System.start, startedBy], ?_⟩
  refine (@conserved_iff_careful plainCrates .sglang onePrefill oneDecode .leastLoaded .leastLoaded
    _ _ _ rfl rfl rfl rfl rfl _ hended).2.mpr ?_
  simp [Programs.System.start, PdRequest.Careful, completionRequest, sglangCareful, buildTargetUrl,
    plainCrates, Except.isOk, Except.toBool]

end Accounting

end TokenDog
