import TokenDog.Lib.Exchanges
import TokenDog.Routes.PdAccounting

/-!
# What handlers ask for

The calls of a handler, each with what has to have happened before it: which workers were selected,
which responses came back and what they said. Two-stage requests go to a prefill worker first and
carry its answer to one decode worker; concurrent ones go to both at once with the same bootstrap
values; all others go once to one worker. No handler repeats a request.
-/

namespace TokenDog

namespace Protocol

/-- A request to a worker of the pool. -/
def requests (pool : Pool) : RouterCall → Bool
  | .send other _ => other == pool
  | .sendBoth _ _ => pool != .regular
  | .collect | .bytes _ _ | .text _ _ => false

section Histories

variable (crates : Crates) (trace : Programs.Trace router)

/-- The client's body was read, as this JSON. -/
def Given (requestJson : Value) : Prop :=
  ∃ body, .replied .collect (.ok body) ∈ trace ∧ crates.fromSlice body = .ok requestJson

/-- A worker of the pool was selected, and its URL with the suffix is the target. -/
def Targets (pool : Pool) (suffix : String) (target : Url) : Prop :=
  ∃ ctx i url, .ran (.next pool ctx) (some (i, url)) ∈ trace ∧
    crates.parseUrl (trimEndMatches url '/' ++ suffix) = .ok target

/-- No worker of the pool has been asked. -/
def Unasked (pool : Pool) : Prop := ∀ call ∈ Programs.calls trace, requests pool call = false

/-- The response is what a worker of the pool answered. -/
def Answered (pool : Pool) (response : WorkerResponse) : Prop :=
  ∃ request, .replied (.send pool request) (.ok response) ∈ trace

def AnsweredBoth (prefillResp decodeResp : WorkerResponse) : Prop :=
  ∃ prefill decode, .replied (.sendBoth prefill decode) (.ok (prefillResp, decodeResp)) ∈ trace

/-- A prefill worker has answered with success and with this JSON. -/
def Prefilled (prefillJson : Value) : Prop :=
  ∃ response body, Answered trace .prefill response ∧ response.isSuccess = true ∧
    .replied (.bytes .prefill response) (.ok body) ∈ trace ∧
      crates.fromSlice body = .ok prefillJson

end Histories

section Mono

variable {crates : Crates} {trace : Programs.Trace router} (event : Programs.Event router)

theorem Given.cons {requestJson : Value} (h : Given crates trace requestJson) :
    Given crates (event :: trace) requestJson := by
  obtain ⟨body, hmem, hjson⟩ := h
  exact ⟨body, List.mem_cons_of_mem _ hmem, hjson⟩

theorem Targets.cons {pool : Pool} {suffix : String} {target : Url}
    (h : Targets crates trace pool suffix target) :
    Targets crates (event :: trace) pool suffix target := by
  obtain ⟨ctx, i, url, hmem, hparse⟩ := h
  exact ⟨ctx, i, url, List.mem_cons_of_mem _ hmem, hparse⟩

theorem Answered.cons {pool : Pool} {response : WorkerResponse} (h : Answered trace pool response) :
    Answered (event :: trace) pool response := by
  obtain ⟨request, hmem⟩ := h
  exact ⟨request, List.mem_cons_of_mem _ hmem⟩

theorem answered_replied (pool : Pool) (request : Outgoing) (response : WorkerResponse) :
    Answered (.replied (.send pool request) (.ok response) :: trace) pool response :=
  ⟨request, List.mem_cons_self⟩

theorem AnsweredBoth.cons {prefillResp decodeResp : WorkerResponse}
    (h : AnsweredBoth trace prefillResp decodeResp) :
    AnsweredBoth (event :: trace) prefillResp decodeResp := by
  obtain ⟨prefill, decode, hmem⟩ := h
  exact ⟨prefill, decode, List.mem_cons_of_mem _ hmem⟩

theorem Prefilled.cons {prefillJson : Value} (h : Prefilled crates trace prefillJson) :
    Prefilled crates (event :: trace) prefillJson := by
  obtain ⟨response, body, hreply, hsuccess, hbody, hjson⟩ := h
  exact ⟨response, body, hreply.cons event, hsuccess, List.mem_cons_of_mem _ hbody, hjson⟩

theorem unasked_nil (pool : Pool) : Unasked [] pool := fun _ hmem => (List.not_mem_nil hmem).elim

theorem Unasked.cons {pool : Pool} (h : Unasked trace pool)
    (hevent : ∀ call, event.call = some call → requests pool call = false) :
    Unasked (event :: trace) pool := by
  cases hcall : event.call with
  | none =>
      rw [Unasked, Programs.calls, List.filterMap_cons_none hcall]
      exact h
  | some call =>
      rw [Unasked, Programs.calls, List.filterMap_cons_some hcall, List.forall_mem_cons]
      exact ⟨hevent call hcall, h⟩

theorem Unasked.ran {pool : Pool} (h : Unasked trace pool) (op : RouterOp) (result : op.Result) :
    Unasked (.ran op result :: trace) pool :=
  h.cons _ fun _ hcall => (by cases hcall)

theorem Unasked.replied {pool : Pool} (h : Unasked trace pool) (call : RouterCall)
    (reply : call.Reply) (hcall : requests pool call = false) :
    Unasked (.replied call reply :: trace) pool :=
  h.cons _ fun _ hsame => by
    cases hsame
    exact hcall

end Mono

/-- The regular handler passes the request on, once. -/
inductive RegularMay (crates : Crates) (parts : Parts) (trace : Programs.Trace router) :
    RouterCall → Prop
  | collect (hfirst : trace = []) : RegularMay crates parts trace .collect
  | send {body : ByteArray} {target : Url} (hbody : .replied .collect (.ok body) ∈ trace)
      (htarget : Targets crates trace .regular parts.pathAndQuery target)
      (hfirst : Unasked trace .regular) :
      RegularMay crates parts trace
        (.send .regular
          { method := parts.method, url := target, headers := parts.headers.remove "host", body })

/-- A prefill, and once it has succeeded a decode with what it answered. -/
inductive VllmMay (crates : Crates) (parts : Parts) (trace : Programs.Trace router) :
    RouterCall → Prop
  | collect (hfirst : trace = []) : VllmMay crates parts trace .collect
  | prefill {requestJson prefillRequest : Value} {target : Url}
      (hgiven : Given crates trace requestJson)
      (hrequest : vllmPrefillRequest requestJson parts.path = .ok prefillRequest)
      (htarget : Targets crates trace .prefill parts.path target)
      (hfirst : Unasked trace .prefill) (hdecode : Unasked trace .decode) :
      VllmMay crates parts trace
        (.send .prefill (post target (filterHeaders parts.headers) prefillRequest))
  | failedText {response : WorkerResponse} (hreply : Answered trace .prefill response)
      (hfailed : response.isSuccess = false) : VllmMay crates parts trace (.text .prefill response)
  | prefillBytes {response : WorkerResponse} (hreply : Answered trace .prefill response)
      (hsuccess : response.isSuccess = true) : VllmMay crates parts trace (.bytes .prefill response)
  | decode {requestJson prefillJson : Value} {target : Url}
      (hgiven : Given crates trace requestJson) (hprefilled : Prefilled crates trace prefillJson)
      (htarget : Targets crates trace .decode parts.path target)
      (hfirst : Unasked trace .decode) :
      VllmMay crates parts trace
        (.send .decode (post target (filterHeaders parts.headers)
          (vllmDecodeRequest requestJson prefillJson)))
  | decodeBytes {response : WorkerResponse} (hreply : Answered trace .decode response) :
      VllmMay crates parts trace (.bytes .decode response)

/-- One prefill and one decode at once, with the bootstrap values of one draw. -/
inductive SglangMay (crates : Crates) (parts : Parts) (trace : Programs.Trace router) :
    RouterCall → Prop
  | collect (hfirst : trace = []) : SglangMay crates parts trace .collect
  | both {requestJson : Value} {prefillTarget decodeTarget : Url} {prefillUrl host : String}
      {ctx : RequestContext} {i port : Nat} {draw room : Int}
      (hgiven : Given crates trace requestJson)
      (hselected : .ran (.next .prefill ctx) (some (i, prefillUrl)) ∈ trace)
      (hdraw : .ran .random draw ∈ trace)
      (hbootstrap :
        buildSglangBootstrapParams crates prefillUrl defaultBootstrapPort draw =
          .ok (host, port, room))
      (hprefill : Targets crates trace .prefill parts.path prefillTarget)
      (hdecode : Targets crates trace .decode parts.path decodeTarget)
      (hfirst : ∀ pool, Unasked trace pool) :
      SglangMay crates parts trace
        (.sendBoth
          (post prefillTarget (filterHeaders parts.headers)
            (insertBootstrap requestJson host port room))
          (post decodeTarget (filterHeaders parts.headers)
            (insertBootstrap requestJson host port room)))
  | prefillBytes {prefillResp decodeResp : WorkerResponse}
      (hreply : AnsweredBoth trace prefillResp decodeResp) :
      SglangMay crates parts trace (.bytes .prefill prefillResp)
  | decodeBytes {prefillResp decodeResp : WorkerResponse}
      (hreply : AnsweredBoth trace prefillResp decodeResp) :
      SglangMay crates parts trace (.bytes .decode decodeResp)

/-- What the fallback handler may ask for. -/
def HandlerMay (crates : Crates) (pdMode : Option PdMode) (parts : Parts) :
    Programs.Trace router → RouterCall → Prop :=
  if isInferencePath parts.path then
    match pdMode with
    | some .vllm => VllmMay crates parts
    | some .sglang => SglangMay crates parts
    | none => RegularMay crates parts
  else RegularMay crates parts

/-- The request is for the pipeline. -/
def pipelined (pdMode : Option PdMode) (parts : Parts) : Bool :=
  pdMode.isSome && isInferencePath parts.path

section HandlerMay

variable (crates : Crates) {parts : Parts}

theorem handlerMay_vllm (hpath : isInferencePath parts.path = true) :
    HandlerMay crates (some .vllm) parts = VllmMay crates parts := if_pos hpath

theorem handlerMay_sglang (hpath : isInferencePath parts.path = true) :
    HandlerMay crates (some .sglang) parts = SglangMay crates parts := if_pos hpath

theorem handlerMay_regular {pdMode : Option PdMode} (h : pipelined pdMode parts = false) :
    HandlerMay crates pdMode parts = RegularMay crates parts := by
  unfold HandlerMay
  split
  · rename_i hpath
    rw [pipelined, hpath, Bool.and_true, Option.isSome_eq_false_iff, Option.isNone_iff_eq_none] at h
    subst h
    rfl
  · rfl

/-- The three kinds of requests. -/
theorem pipelined_cases (pdMode : Option PdMode) (parts : Parts) :
    pipelined pdMode parts = false ∨ isInferencePath parts.path = true ∧
      (pdMode = some .vllm ∨ pdMode = some .sglang) := by
  unfold pipelined
  cases isInferencePath parts.path with
  | false => exact Or.inl (Bool.and_false _)
  | true =>
      cases pdMode with
      | none => exact Or.inl rfl
      | some mode =>
          cases mode with
          | vllm => exact Or.inr ⟨rfl, Or.inl rfl⟩
          | sglang => exact Or.inr ⟨rfl, Or.inr rfl⟩

end HandlerMay

variable {crates : Crates} {parts : Parts} {trace : Programs.Trace router}
  {deferred : List RouterOp}

theorem wp_proxyHandler :
    Programs.wp (Programs.askSpec (I := router) (RegularMay crates parts))
      (proxyHandler crates parts) (fun _ _ _ => True) [] [] := by
  unfold proxyHandler
  rw [wp_collect_bind]
  refine ⟨.collect rfl, fun collected => ?_⟩
  cases collected with
  | error e => exact trivial
  | ok body =>
      dsimp only
      split
      · exact trivial
      split
      · exact trivial
      rename_i ctx _
      rw [wp_next_bind]
      refine ⟨trivial, trivial, fun selected => ?_⟩
      cases selected with
      | none => exact trivial
      | some entry =>
          obtain ⟨workerIdx, workerUrl⟩ := entry
          dsimp only
          rw [wp_activeRequest_bind]
          split
          · exact trivial
          rename_i target htarget
          rw [wp_send_bind]
          refine ⟨.send (List.mem_cons_of_mem _ List.mem_cons_self)
            ⟨ctx, workerIdx, workerUrl, List.mem_cons_self, htarget⟩ ?_, fun reply => ?_⟩
          · exact ((unasked_nil _).replied .collect _ rfl).ran _ _
          cases reply with
          | error e => exact trivial
          | ok workerResp =>
              dsimp only
              rw [wp_record_bind]
              refine ⟨trivial, trivial, fun _ => ?_⟩
              split <;> exact trivial

theorem wp_vllmDecode {requestJson prefillJson : Value} (hgiven : Given crates trace requestJson)
    (hprefilled : Prefilled crates trace prefillJson) (hfirst : Unasked trace .decode)
    (ctx : RequestContext) :
    Programs.wp (Programs.askSpec (I := router) (VllmMay crates parts))
      (vllmDecode crates parts.path requestJson ctx parts.headers prefillJson)
      (fun _ _ _ => True) trace deferred := by
  unfold vllmDecode
  rw [wp_next_bind]
  refine ⟨trivial, trivial, fun selected => ?_⟩
  cases selected with
  | none => exact trivial
  | some entry =>
      obtain ⟨decodeIdx, decodeUrl⟩ := entry
      dsimp only
      split
      · exact trivial
      rename_i target htarget
      rw [wp_send_bind]
      refine ⟨.decode (hgiven.cons _) (hprefilled.cons _)
        ⟨ctx, decodeIdx, decodeUrl, List.mem_cons_self, htarget⟩ (hfirst.ran _ _), fun reply => ?_⟩
      cases reply with
      | error e => exact trivial
      | ok decodeResp =>
          dsimp only
          rw [wp_finish_bind]
          refine ⟨trivial, trivial, fun _ => ?_⟩
          rw [wp_record_bind]
          refine ⟨trivial, trivial, fun _ => ?_⟩
          split
          · exact trivial
          rw [wp_bytes_bind]
          refine ⟨.decodeBytes (((answered_replied _ _ _).cons _).cons _), fun reply => ?_⟩
          cases reply with
          | error e => exact trivial
          | ok decodeBytes =>
              dsimp only [vllmResponse]
              split <;> [split; skip] <;> [skip; split; skip] <;> exact trivial

theorem wp_vllmPrefillCompletion {requestJson : Value} (hgiven : Given crates trace requestJson)
    {prefillResp : WorkerResponse} (hreply : Answered trace .prefill prefillResp)
    (hfirst : Unasked trace .decode) (ctx : RequestContext) (prefillIdx : Nat) :
    Programs.wp (Programs.askSpec (I := router) (VllmMay crates parts))
      (vllmPrefillCompletion crates parts.path requestJson ctx parts.headers prefillIdx prefillResp)
      (fun _ _ _ => True) trace deferred := by
  unfold vllmPrefillCompletion
  split
  · rename_i hfailed
    rw [wp_finish_bind]
    refine ⟨trivial, trivial, fun _ => ?_⟩
    rw [wp_text_bind]
    refine ⟨.failedText (hreply.cons _) ?_, fun _ => trivial⟩
    simpa using hfailed
  · rename_i hsuccess
    have hsuccess : prefillResp.isSuccess = true := by simpa using hsuccess
    rw [wp_bytes_bind]
    refine ⟨.prefillBytes hreply hsuccess, fun reply => ?_⟩
    cases reply with
    | error e => exact trivial
    | ok prefillBytes =>
        dsimp only
        split
        · exact trivial
        rename_i prefillJson hjson
        rw [wp_finish_bind]
        refine ⟨trivial, trivial, fun _ => ?_⟩
        rw [wp_record_bind]
        refine ⟨trivial, trivial, fun _ => ?_⟩
        have hprefilled : Prefilled crates
            (.replied (.bytes .prefill prefillResp) (.ok prefillBytes) :: trace) prefillJson :=
          ⟨prefillResp, prefillBytes, hreply.cons _, hsuccess, List.mem_cons_self, hjson⟩
        apply wp_vllmDecode
        · exact ((hgiven.cons _).cons _).cons _
        · exact (hprefilled.cons _).cons _
        · exact ((hfirst.replied _ _ rfl).ran _ _).ran _ _

theorem wp_processVllmPdRequest {requestJson : Value} (hgiven : Given crates trace requestJson)
    (hfirst : ∀ pool, Unasked trace pool) (ctx : RequestContext) :
    Programs.wp (Programs.askSpec (I := router) (VllmMay crates parts))
      (processVllmPdRequest crates parts.path requestJson ctx parts.headers)
      (fun _ _ _ => True) trace deferred := by
  unfold processVllmPdRequest
  rw [wp_next_bind]
  refine ⟨trivial, trivial, fun selected => ?_⟩
  cases selected with
  | none => exact trivial
  | some entry =>
      obtain ⟨prefillIdx, prefillUrl⟩ := entry
      dsimp only
      split
      · exact trivial
      rename_i prefillRequest hrequest
      split
      · exact trivial
      rename_i target htarget
      rw [wp_send_bind]
      refine ⟨.prefill (hgiven.cons _) hrequest
        ⟨ctx, prefillIdx, prefillUrl, List.mem_cons_self, htarget⟩ ((hfirst _).ran _ _)
        ((hfirst _).ran _ _), fun reply => ?_⟩
      cases reply with
      | error e => exact trivial
      | ok prefillResp =>
          apply wp_vllmPrefillCompletion
          · exact (hgiven.cons _).cons _
          · exact answered_replied _ _ _
          · exact ((hfirst _).ran _ _).replied _ _ rfl

theorem wp_sglangResponse (si : StreamingInfo) (prefillJson : Option Value) (status : Nat)
    (decodeHeaders : Headers) (decodeBytes : ByteArray) :
    Programs.wp (Programs.askSpec (I := router) (SglangMay crates parts))
      (sglangResponse crates si prefillJson status decodeHeaders decodeBytes)
      (fun _ _ _ => True) trace deferred := by
  unfold sglangResponse
  split
  · split
    · split
      · split <;> exact trivial
      · exact trivial
    · exact trivial
  · exact trivial

theorem wp_sglangPrefillJson {prefillResp decodeResp : WorkerResponse}
    (hreply : AnsweredBoth trace prefillResp decodeResp) (si : StreamingInfo) :
    Programs.wp (Programs.askSpec (I := router) (SglangMay crates parts))
      (sglangPrefillJson crates si prefillResp)
      (fun _ trace _ => AnsweredBoth trace prefillResp decodeResp) trace deferred := by
  unfold sglangPrefillJson
  split
  · rw [wp_bytes_bind]
    refine ⟨.prefillBytes hreply, fun reply => ?_⟩
    cases reply with
    | error e => exact hreply.cons _
    | ok bytes => exact hreply.cons _
  · exact hreply

theorem wp_sglangCompletion {prefillResp decodeResp : WorkerResponse}
    (hreply : AnsweredBoth trace prefillResp decodeResp) (ctx : RequestContext)
    (si : StreamingInfo) (prefillIdx decodeIdx : Nat) :
    Programs.wp (Programs.askSpec (I := router) (SglangMay crates parts))
      (sglangCompletion crates ctx si prefillIdx decodeIdx prefillResp decodeResp)
      (fun _ _ _ => True) trace deferred := by
  unfold sglangCompletion
  rw [wp_finish_bind]
  refine ⟨trivial, trivial, fun _ => ?_⟩
  rw [wp_record_bind]
  refine ⟨trivial, trivial, fun _ => ?_⟩
  rw [wp_finish_bind]
  refine ⟨trivial, trivial, fun _ => ?_⟩
  rw [wp_record_bind]
  refine ⟨trivial, trivial, fun _ => ?_⟩
  rw [Programs.wp_bind]
  refine Programs.wp_mono (fun prefillJson trace deferred hreply => ?_)
    (wp_sglangPrefillJson ((((hreply.cons _).cons _).cons _).cons _) si)
  dsimp only
  split
  · exact trivial
  · rw [wp_bytes_bind]
    refine ⟨.decodeBytes hreply, fun reply => ?_⟩
    cases reply with
    | error e => exact trivial
    | ok decodeBytes => exact wp_sglangResponse _ _ _ _ _

theorem wp_processSglangPdRequest {requestJson : Value} (hgiven : Given crates trace requestJson)
    (hfirst : ∀ pool, Unasked trace pool) (ctx : RequestContext) :
    Programs.wp (Programs.askSpec (I := router) (SglangMay crates parts))
      (processSglangPdRequest crates parts.path requestJson ctx parts.headers)
      (fun _ _ _ => True) trace deferred := by
  unfold processSglangPdRequest
  rw [wp_next_bind]
  refine ⟨trivial, trivial, fun selected => ?_⟩
  cases selected with
  | none => exact trivial
  | some entry =>
      obtain ⟨prefillIdx, prefillUrl⟩ := entry
      dsimp only
      rw [wp_next_bind]
      refine ⟨trivial, trivial, fun selected => ?_⟩
      cases selected with
      | none => exact trivial
      | some entry =>
          obtain ⟨decodeIdx, decodeUrl⟩ := entry
          dsimp only
          rw [wp_random_bind]
          refine ⟨trivial, trivial, fun draw => ?_⟩
          split
          · exact trivial
          rename_i hbootstrap
          split
          · exact trivial
          rename_i prefillTarget hprefill
          split
          · exact trivial
          rename_i decodeTarget hdecode
          rw [wp_sendBoth_bind]
          refine ⟨.both (((hgiven.cons _).cons _).cons _)
            (List.mem_cons_of_mem _ (List.mem_cons_of_mem _ List.mem_cons_self)) List.mem_cons_self
            hbootstrap ⟨ctx, prefillIdx, prefillUrl,
              List.mem_cons_of_mem _ (List.mem_cons_of_mem _ List.mem_cons_self), hprefill⟩
            ⟨ctx, decodeIdx, decodeUrl, List.mem_cons_of_mem _ List.mem_cons_self, hdecode⟩
            fun pool => (((hfirst pool).ran _ _).ran _ _).ran _ _, fun reply => ?_⟩
          cases reply with
          | error e => exact trivial
          | ok responses => exact wp_sglangCompletion ⟨_, _, List.mem_cons_self⟩ _ _ _ _

/-! ### The fallback handler -/

theorem unasked_collected (reply : Except String ByteArray) (pool : Pool) :
    Unasked [.replied .collect reply] pool := (unasked_nil pool).replied .collect reply rfl

theorem pdProxyHandler_regular {pdMode : Option PdMode} (h : pipelined pdMode parts = false) :
    pdProxyHandler crates pdMode parts = (do
      match ← proxyHandler crates parts with
      | .ok response => return response
      | .error e => return e.intoResponse) := by
  unfold pdProxyHandler
  split
  · rename_i mode hpath
    rw [pipelined, hpath] at h
    cases h
  · rfl

theorem wp_pdProxyHandler (crates : Crates) (pdMode : Option PdMode) (parts : Parts) :
    Programs.wp (Programs.askSpec (I := router) (HandlerMay crates pdMode parts))
      (pdProxyHandler crates pdMode parts) (fun _ _ _ => True) [] [] := by
  rcases pipelined_cases pdMode parts with hregular | ⟨hpath, rfl | rfl⟩
  · rw [handlerMay_regular crates hregular, pdProxyHandler_regular hregular, Programs.wp_bind]
    refine Programs.wp_mono (fun result trace deferred _ => ?_) wp_proxyHandler
    cases result <;> exact trivial
  · rw [handlerMay_vllm crates hpath]
    refine TokenDog.wp_pdProxyHandler .vllm hpath (.collect rfl) (fun _ _ => trivial) ?_
    intro body requestJson ctx hjson
    exact wp_processVllmPdRequest ⟨body, List.mem_cons_self, hjson⟩ (unasked_collected _) ctx
  · rw [handlerMay_sglang crates hpath]
    refine TokenDog.wp_pdProxyHandler .sglang hpath (.collect rfl) (fun _ _ => trivial) ?_
    intro body requestJson ctx hjson
    exact wp_processSglangPdRequest ⟨body, List.mem_cons_self, hjson⟩ (unasked_collected _) ctx

/-- A handler asks a worker of a pool only while it has asked none of that pool, and the pipeline
asks no regular worker, the regular handler no other. -/
theorem HandlerMay.unasked {pdMode : Option PdMode} {call : RouterCall} {pool : Pool}
    (h : HandlerMay crates pdMode parts trace call) (hcall : requests pool call = true) :
    Unasked trace pool ∧ (pool = .regular ↔ pipelined pdMode parts = false) := by
  rcases pipelined_cases pdMode parts with hregular | ⟨hpath, rfl | rfl⟩
  · rw [handlerMay_regular crates hregular] at h
    rw [hregular]
    cases h with
    | collect => cases hcall
    | send hbody htarget hfirst =>
        have hpool : Pool.regular = pool := by simpa [requests] using hcall
        exact hpool ▸ ⟨hfirst, by simp⟩
  · rw [handlerMay_vllm crates hpath] at h
    rw [pipelined, hpath]
    cases h with
    | prefill hgiven hrequest htarget hfirst hdecode =>
        have hpool : Pool.prefill = pool := by simpa [requests] using hcall
        exact hpool ▸ ⟨hfirst, by simp⟩
    | decode hgiven hprefilled htarget hfirst =>
        have hpool : Pool.decode = pool := by simpa [requests] using hcall
        exact hpool ▸ ⟨hfirst, by simp⟩
    | _ => cases hcall
  · rw [handlerMay_sglang crates hpath] at h
    rw [pipelined, hpath]
    cases h with
    | both hgiven hselected hdraw hbootstrap hprefill hdecode hfirst =>
        have hpool : pool ≠ .regular := by simpa [requests] using hcall
        exact ⟨hfirst pool, by simpa using hpool⟩
    | _ => cases hcall

section Runs

variable {σ : Type} {machine : Programs.Machine router σ} {pdMode : Option PdMode} {shared : σ}
  {s : Programs.System router σ Parts (Response WorkerId)}

theorem justified_of_reachable
    (hs : Runs.Reachable (· = .start shared)
      (Programs.Step machine (pdProxyHandler crates pdMode)) s) :
    ∀ history ∈ s.histories,
      Programs.Justified (HandlerMay crates pdMode history.1) history.2 :=
  Programs.justified_of_reachable (wp_pdProxyHandler crates pdMode) hs

/-- Whatever workers answer and whenever runs are dropped, a request of a client leads to at most one
request to a regular worker, or to at most one to a prefill and at most one to a decode worker. -/
theorem asked_at_most_once
    (hs : Runs.Reachable (· = .start shared)
      (Programs.Step machine (pdProxyHandler crates pdMode)) s) :
    ∀ history ∈ s.histories, ∀ pool,
      ((Programs.calls history.2).filter (requests pool)).length ≤
        if pool = .regular ↔ pipelined pdMode history.1 = false then 1 else 0 := by
  intro history hmem pool
  have hjustified := justified_of_reachable hs history hmem
  split
  · refine hjustified.at_most_once (requests pool) fun trace call hmay hcall => ?_
    exact (hmay.unasked hcall).1
  · rename_i hother
    rw [Nat.le_zero, List.length_eq_zero_iff, List.filter_eq_nil_iff]
    intro call hasked hcall
    have hsome : Programs.Justified (fun _ call =>
        ∃ earlier, HandlerMay crates pdMode history.1 earlier call) history.2 :=
      hjustified.mono fun earlier call hmay => ⟨earlier, hmay⟩
    obtain ⟨earlier, hmay⟩ := hsome.of_mem (fun _ _ _ h => h) hasked
    exact hother (hmay.unasked hcall).2

/-- In the two-stage mode a decode worker is asked only after a prefill worker has answered the same
client's request with success and JSON, for the client's body with what that answer says about the
cache transfer; and no response is read that was not received. -/
theorem decode_follows_prefill
    (hs : Runs.Reachable (· = .start shared)
      (Programs.Step machine (pdProxyHandler crates (some .vllm))) s) :
    ∀ history ∈ s.histories, isInferencePath history.1.path = true →
      Programs.Justified (VllmMay crates history.1) history.2 := by
  intro history hmem hpath
  rw [← handlerMay_vllm crates hpath]
  exact justified_of_reachable hs history hmem

/-- In the concurrent mode both workers are asked at once, for the client's body with the host of the
selected prefill worker, the default port and one random room, the same for both. -/
theorem both_share_bootstrap
    (hs : Runs.Reachable (· = .start shared)
      (Programs.Step machine (pdProxyHandler crates (some .sglang))) s) :
    ∀ history ∈ s.histories, isInferencePath history.1.path = true →
      Programs.Justified (SglangMay crates history.1) history.2 := by
  intro history hmem hpath
  rw [← handlerMay_sglang crates hpath]
  exact justified_of_reachable hs history hmem

end Runs

/-- Crates that read an empty object from every body. -/
def objectCrates : Crates := { plainCrates with fromSlice := fun _ => .ok (.object []) }

def completionParts : Parts := ⟨"POST", "/v1/completions", none, []⟩

theorem isInferencePath_completionParts : isInferencePath completionParts.path = true := by
  simp only [isInferencePath, completionParts, containsText_self, Bool.or_true, Bool.true_or]

/-- The client goes away while the decode worker is asked. -/
theorem exists_two_stage_exchange :
    ∃ app s, AppState.newPd .vllm Accounting.onePrefill Accounting.oneDecode
        (.leastLoaded (.new 1)) (.leastLoaded (.new 1)) = .ok app ∧
      Runs.Reachable (· = .start app)
        (Programs.Step TokenDog.machine (pdProxyHandler objectCrates (some .vllm))) s ∧
      ∃ history ∈ s.histories, history.1 = completionParts ∧
        ((Programs.calls history.2).filter (requests .prefill)).length = 1 ∧
        ((Programs.calls history.2).filter (requests .decode)).length = 1 := by
  obtain ⟨app, hnew⟩ : ∃ app, AppState.newPd .vllm Accounting.onePrefill Accounting.oneDecode
    (.leastLoaded (.new 1)) (.leastLoaded (.new 1)) = .ok app := ⟨_, rfl⟩
  have hfirst : Runs.Reachable (· = .start app)
      (Programs.Step TokenDog.machine (pdProxyHandler objectCrates (some .vllm))) (.start app) :=
    .of_start rfl
  have hstarted := hfirst.tail (.start _ completionParts)
  cases hnew
  have hcollected := hstarted.tail
    (@Programs.Step.reply router _ _ _ _ _ _ 0 completionParts .collect _ [] [] rfl
      (.ok ByteArray.empty))
  have hprefill := hcollected.tail
    (@Programs.Step.perform router _ _ _ _ _ _ 0 completionParts
      (.next .prefill ⟨"default", "default"⟩) _ _ [] (some (0, "http://p:8000")) _ rfl
      ⟨⟨fun _ => 0, 0⟩, rfl⟩)
  have hanswered := hprefill.tail
    (@Programs.Step.reply router _ _ _ _ _ _ 0 completionParts (.send .prefill _) _ _ [] rfl
      (.ok ⟨200, []⟩))
  have hread := hanswered.tail
    (@Programs.Step.reply router _ _ _ _ _ _ 0 completionParts (.bytes .prefill _) _ _ [] rfl
      (.ok ByteArray.empty))
  have hfinished := hread.tail
    (@Programs.Step.perform router _ _ _ _ _ _ 0 completionParts (.finish .prefill 0) _ _ []
      () _ rfl rfl)
  have hrecorded := hfinished.tail
    (@Programs.Step.perform router _ _ _ _ _ _ 0 completionParts (.record .prefill _ 0) _ _ []
      () _ rfl ⟨⟨fun _ => 0, 0⟩, rfl⟩)
  have hdecode := hrecorded.tail
    (@Programs.Step.perform router _ _ _ _ _ _ 0 completionParts
      (.next .decode ⟨"default", "default"⟩) _ _ [] (some (0, "http://d:8000")) _ rfl
      ⟨⟨fun _ => 0, 0⟩, rfl⟩)
  have hended := hdecode.tail
    (@Programs.Step.stop router _ _ _ _ _ _ 0 _ _ _ _ rfl
      (@Programs.Exits.drop router _ _ _ _ (.send .decode _) _) (.nil _))
  exact ⟨_, _, rfl, hended, _, Multiset.mem_singleton_self _, rfl, rfl, rfl⟩

theorem asked_at_most_once_two_stage :
    ∃ trace : Programs.Trace router, ((Programs.calls trace).filter (requests .decode)).length = 1 ∧
      ∀ pool, ((Programs.calls trace).filter (requests pool)).length ≤
        if pool = .regular ↔ pipelined (some .vllm) completionParts = false then 1 else 0 := by
  obtain ⟨app, s, -, hs, ⟨parts, trace⟩, hmem, rfl, -, hdecode⟩ := exists_two_stage_exchange
  exact ⟨trace, hdecode, asked_at_most_once hs _ hmem⟩

theorem decode_follows_prefill_two_stage :
    ∃ trace : Programs.Trace router, ((Programs.calls trace).filter (requests .decode)).length = 1 ∧
      Programs.Justified (VllmMay objectCrates completionParts) trace := by
  obtain ⟨app, s, -, hs, ⟨parts, trace⟩, hmem, rfl, -, hdecode⟩ := exists_two_stage_exchange
  exact ⟨trace, hdecode, decode_follows_prefill hs _ hmem isInferencePath_completionParts⟩

theorem both_share_bootstrap_dropped :
    ∃ trace : Programs.Trace router, ((Programs.calls trace).filter (requests .decode)).length = 1 ∧
      Programs.Justified (SglangMay objectCrates completionParts) trace := by
  obtain ⟨app, hnew⟩ : ∃ app, AppState.newPd .sglang Accounting.onePrefill Accounting.oneDecode
    (.leastLoaded (.new 1)) (.leastLoaded (.new 1)) = .ok app := ⟨_, rfl⟩
  have hfirst : Runs.Reachable (· = .start app)
      (Programs.Step TokenDog.machine (pdProxyHandler objectCrates (some .sglang))) (.start app) :=
    .of_start rfl
  have hstarted := hfirst.tail (.start _ completionParts)
  cases hnew
  have hcollected := hstarted.tail
    (@Programs.Step.reply router _ _ _ _ _ _ 0 completionParts .collect _ [] [] rfl
      (.ok ByteArray.empty))
  have hprefill := hcollected.tail
    (@Programs.Step.perform router _ _ _ _ _ _ 0 completionParts
      (.next .prefill ⟨"default", "default"⟩) _ _ [] (some (0, "http://p:8000")) _ rfl
      ⟨⟨fun _ => 0, 0⟩, rfl⟩)
  have hdecode := hprefill.tail
    (@Programs.Step.perform router _ _ _ _ _ _ 0 completionParts
      (.next .decode ⟨"default", "default"⟩) _ _ [] (some (0, "http://d:8000")) _ rfl
      ⟨⟨fun _ => 0, 0⟩, rfl⟩)
  have hdrawn := hdecode.tail
    (@Programs.Step.perform router _ _ _ _ _ _ 0 completionParts .random _ _ [] (-7 : Int) _ rfl
      ⟨rfl, by decide, by decide⟩)
  have hended := hdrawn.tail
    (@Programs.Step.stop router _ _ _ _ _ _ 0 _ _ _ _ rfl
      (@Programs.Exits.drop router _ _ _ _ (.sendBoth _ _) _) (.nil _))
  exact ⟨_, rfl, both_share_bootstrap hended _ (Multiset.mem_singleton_self _)
    isInferencePath_completionParts⟩

end Protocol

end TokenDog
