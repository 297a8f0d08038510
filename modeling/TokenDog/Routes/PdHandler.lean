import TokenDog.Middleware.Handler
import TokenDog.Routes.Prefill
import TokenDog.Routes.LogprobsMerge

/-!
# The prefill-decode handlers

`process_vllm_pd_request` runs a prefill and then a decode, `process_sglang_pd_request` sends both at
once. Neither holds a guard: each calls `finish` itself, where a stage has succeeded.
-/

namespace TokenDog

inductive PdProxyError where
  | bodyCollect (message : String)
  | jsonParse (message : String)
  | noWorkers (kind : String)
  | prefillRequest (url : String) (message : String)
  | prefillError (status : Nat) (message : String)
  | prefillResponse (message : String)
  | prefillParse (message : String)
  | decodeRequest (url : String) (message : String)
  | decodeResponse (message : String)
  | decodeParse (message : String)
  | jsonSerialize (message : String)
  | workerRequest (error : ReqwestError)
  | urlParse (message : String)
  | responseBuild (message : String)

namespace PdProxyError

def statusAndMessage : PdProxyError → Nat × String
  | .bodyCollect m => (400, m)
  | .jsonParse m => (400, m)
  | .noWorkers m => (503, m)
  | .prefillRequest url msg => (502, "Prefill request to " ++ url ++ " failed: " ++ msg)
  | .prefillError status msg => (status, msg)
  | .prefillResponse m => (502, "Failed to read prefill response: " ++ m)
  | .prefillParse m => (502, "Failed to parse prefill response JSON: " ++ m)
  | .decodeRequest url msg => (502, "Decode request to " ++ url ++ " failed: " ++ msg)
  | .decodeResponse m => (502, "Failed to read decode response: " ++ m)
  | .decodeParse m => (502, "Failed to parse decode response JSON: " ++ m)
  | .jsonSerialize m => (500, m)
  | .workerRequest error => (if error.isTimeout then 504 else 502, error.text)
  | .urlParse m => (400, m)
  | .responseBuild m => (500, m)

def intoResponse (error : PdProxyError) : Response WorkerId :=
  { status := error.statusAndMessage.1
    headers := []
    body := .bytes error.statusAndMessage.2.toUTF8 }

end PdProxyError

abbrev PdResult := Except PdProxyError (Response WorkerId)

def isInferencePath (path : String) : Bool :=
  containsText path "/v1/chat/completions" || containsText path "/v1/completions" ||
    containsText path "/v1/responses" || containsText path "/inference/v1/generate"

def buildTargetUrl (crates : Crates) (workerUrl path : String) : Except String Url :=
  crates.parseUrl (trimEndMatches workerUrl '/' ++ path)

def filterHeaders (headers : Headers) : Headers := headers.remove "host"

structure StreamingInfo where
  isStreaming : Bool
  needsLogprobs : Bool

def detectStreamingInfo (requestJson : Value) : StreamingInfo where
  isStreaming := ((requestJson.get "stream").bind Value.asBool).getD false
  needsLogprobs := (requestJson.get "logprobs").isSome ||
    ((requestJson.get "echo").bind Value.asBool).getD false

def buildResponse (crates : Crates) (status : Nat) (headers : Headers) (body : Body WorkerId) :
    PdResult :=
  let forwarded := headers.filter fun header => header.1 != "content-length"
  match crates.builderError status forwarded with
  | some e => .error (.responseBuild e)
  | none => .ok { status, headers := forwarded, body }

/-- `client.post(target).headers(headers).json(&json)`. -/
def post (target : Url) (headers : Headers) (json : Value) : Outgoing :=
  { method := "POST", url := target, headers, body := json.toVec }

def insertBootstrap (request : Value) (host : String) (port : Nat) (room : Int) : Value :=
  ((request.insertIfObject "bootstrap_host" (.string host)).insertIfObject "bootstrap_port"
    (.ofInt port)).insertIfObject "bootstrap_room" (.ofInt room)

/-- The answer to the client from a complete decode response. A body that is no JSON is passed on. -/
def sglangResponse (crates : Crates) (si : StreamingInfo) (prefillJson : Option Value)
    (status : Nat) (decodeHeaders : Headers) (decodeBytes : ByteArray) : Handler PdResult :=
  if si.needsLogprobs then
    match crates.fromSlice decodeBytes with
    | .ok decodeJson =>
        match prefillJson with
        | some prefill =>
            match mergeLogprobsInJson prefill decodeJson with
            | .error _ => .panic
            | .ok (_, merged) =>
                return buildResponse crates status decodeHeaders (.bytes merged.toVec)
        | none => return buildResponse crates status decodeHeaders (.bytes decodeJson.toVec)
    | .error _ => return buildResponse crates status decodeHeaders (.bytes decodeBytes)
  else return buildResponse crates status decodeHeaders (.bytes decodeBytes)

/-- The prefill response, where its logprobs are needed and it can be read. -/
def sglangPrefillJson (crates : Crates) (si : StreamingInfo) (prefillResp : WorkerResponse) :
    Handler (Option Value) := do
  if si.needsLogprobs && !si.isStreaming then
    match ← Handler.bytes .prefill prefillResp with
    | .ok bytes => return (crates.fromSlice bytes).toOption
    | .error _ => return none
  else return none

/-- What follows the two responses: both requests are finished before any body is read. -/
def sglangCompletion (crates : Crates) (ctx : RequestContext) (si : StreamingInfo)
    (prefillIdx decodeIdx : Nat) (prefillResp decodeResp : WorkerResponse) : Handler PdResult := do
  Handler.finish .prefill prefillIdx
  Handler.record .prefill ctx prefillIdx
  Handler.finish .decode decodeIdx
  Handler.record .decode ctx decodeIdx
  let prefillJson ← sglangPrefillJson crates si prefillResp
  let decodeHeaders := filterHopByHop decodeResp.headers
  if si.isStreaming then
    return buildResponse crates decodeResp.status decodeHeaders (.stream (.decode, decodeIdx))
  else
    match ← Handler.bytes .decode decodeResp with
    | .error e => return .error (.decodeResponse e.text)
    | .ok decodeBytes =>
        sglangResponse crates si prefillJson decodeResp.status decodeHeaders decodeBytes

/-- SGLang PD: concurrent dual dispatch. -/
def processSglangPdRequest (crates : Crates) (path : String) (requestJson : Value)
    (ctx : RequestContext) (requestHeaders : Headers) : Handler PdResult := do
  match ← Handler.next .prefill ctx with
  | none => return .error (.noWorkers "prefill")
  | some (prefillIdx, prefillUrl) =>
      match ← Handler.next .decode ctx with
      | none => return .error (.noWorkers "decode")
      | some (decodeIdx, decodeUrl) =>
          let draw ← Handler.random
          match buildSglangBootstrapParams crates prefillUrl defaultBootstrapPort draw with
          | .error _ => .panic
          | .ok (host, port, room) =>
              let si := detectStreamingInfo requestJson
              let prefillRequest := insertBootstrap requestJson host port room
              let decodeRequest := insertBootstrap requestJson host port room
              match buildTargetUrl crates prefillUrl path with
              | .error e => return .error (.urlParse e)
              | .ok prefillTarget =>
                  match buildTargetUrl crates decodeUrl path with
                  | .error e => return .error (.urlParse e)
                  | .ok decodeTarget =>
                      match ← Handler.sendBoth
                          (post prefillTarget (filterHeaders requestHeaders) prefillRequest)
                          (post decodeTarget (filterHeaders requestHeaders) decodeRequest) with
                      | .error e => return .error (.workerRequest e)
                      | .ok (prefillResp, decodeResp) =>
                          sglangCompletion crates ctx si prefillIdx decodeIdx prefillResp decodeResp

def vllmPrefillRequest (requestJson : Value) (path : String) : Except Panic Value := do
  let prefillRequest ← preparePrefillRequest requestJson path
  prefillRequest.indexSet "kv_transfer_params" buildPrefillKvTransferParams

theorem exists_vllmPrefillRequest {requestJson : Value} {path : String}
    (h : patchable requestJson path = true) :
    ∃ prefillRequest, vllmPrefillRequest requestJson path = .ok prefillRequest := by
  obtain ⟨entries, hprepare⟩ := exists_preparePrefillRequest h
  rw [vllmPrefillRequest, hprepare]
  exact ⟨_, rfl⟩

theorem vllmPrefillRequest_of_not_patchable {requestJson : Value} {path : String}
    (h : patchable requestJson path = false) :
    vllmPrefillRequest requestJson path = .error .notAnObject := by
  rw [vllmPrefillRequest, preparePrefillRequest_of_not_patchable h, error_bind]

/-- The prefill request is built without a panic exactly from the bodies that can be patched. -/
theorem vllmPrefillRequest_ok_iff (requestJson : Value) (path : String) :
    (∃ prefillRequest, vllmPrefillRequest requestJson path = .ok prefillRequest) ↔
      patchable requestJson path = true := by
  constructor
  · rintro ⟨prefillRequest, hok⟩
    by_contra hnot
    rw [vllmPrefillRequest_of_not_patchable (Bool.eq_false_iff.mpr hnot)] at hok
    cases hok
  · exact exists_vllmPrefillRequest

/-- An array is a body, and indexing it with a string panics. -/
theorem not_vllmPrefillRequest_of_array :
    ¬∀ (requestJson : Value) (path : String), isInferencePath path = true →
      ∃ prefillRequest, vllmPrefillRequest requestJson path = .ok prefillRequest := by
  intro h
  have hpath : isInferencePath "/v1/completions" = true := by
    simp only [isInferencePath, containsText_self, Bool.or_true, Bool.true_or]
  obtain ⟨prefillRequest, hok⟩ := h (.array []) "/v1/completions" hpath
  rw [vllmPrefillRequest_of_not_patchable rfl] at hok
  cases hok

def vllmDecodeRequest (requestJson prefillJson : Value) : Value :=
  match buildDecodeKvTransferParams prefillJson with
  | some params => requestJson.insertIfObject "kv_transfer_params" params
  | none => requestJson

/-- The answer to the client from a complete decode response. -/
def vllmResponse (crates : Crates) (si : StreamingInfo) (prefillJson : Value) (status : Nat)
    (decodeHeaders : Headers) (decodeBytes : ByteArray) : Handler PdResult :=
  if si.needsLogprobs then
    match crates.fromSlice decodeBytes with
    | .error e => return .error (.decodeParse e)
    | .ok decodeJson =>
        match mergeLogprobsInJson prefillJson decodeJson with
        | .error _ => .panic
        | .ok (_, merged) =>
            return buildResponse crates status decodeHeaders (.bytes merged.toVec)
  else return buildResponse crates status decodeHeaders (.bytes decodeBytes)

/-- Stage 2. The request is finished when the head of the decode response is there. -/
def vllmDecode (crates : Crates) (path : String) (requestJson : Value) (ctx : RequestContext)
    (requestHeaders : Headers) (prefillJson : Value) : Handler PdResult := do
  match ← Handler.next .decode ctx with
  | none => return .error (.noWorkers "decode")
  | some (decodeIdx, decodeUrl) =>
      let decodeRequest := vllmDecodeRequest requestJson prefillJson
      let si := detectStreamingInfo requestJson
      match buildTargetUrl crates decodeUrl path with
      | .error e => return .error (.urlParse e)
      | .ok decodeTarget =>
          match ← Handler.send .decode
              (post decodeTarget (filterHeaders requestHeaders) decodeRequest) with
          | .error e => return .error (.decodeRequest decodeUrl e.text)
          | .ok decodeResp =>
              Handler.finish .decode decodeIdx
              Handler.record .decode ctx decodeIdx
              let decodeHeaders := filterHopByHop decodeResp.headers
              if si.isStreaming then
                return buildResponse crates decodeResp.status decodeHeaders
                  (.stream (.decode, decodeIdx))
              else
                match ← Handler.bytes .decode decodeResp with
                | .error e => return .error (.decodeResponse e.text)
                | .ok decodeBytes =>
                    vllmResponse crates si prefillJson decodeResp.status decodeHeaders decodeBytes

/-- What follows the prefill response. A prefill that failed is finished before its text is read. -/
def vllmPrefillCompletion (crates : Crates) (path : String) (requestJson : Value)
    (ctx : RequestContext) (requestHeaders : Headers) (prefillIdx : Nat)
    (prefillResp : WorkerResponse) : Handler PdResult := do
  if !prefillResp.isSuccess then
    Handler.finish .prefill prefillIdx
    let errorBody ← Handler.text .prefill prefillResp
    return .error (.prefillError prefillResp.status errorBody)
  else
    match ← Handler.bytes .prefill prefillResp with
    | .error e => return .error (.prefillResponse e.text)
    | .ok prefillBytes =>
        match crates.fromSlice prefillBytes with
        | .error e => return .error (.prefillParse e)
        | .ok prefillJson =>
            Handler.finish .prefill prefillIdx
            Handler.record .prefill ctx prefillIdx
            vllmDecode crates path requestJson ctx requestHeaders prefillJson

/-- vLLM PD: sequential two-stage processing. -/
def processVllmPdRequest (crates : Crates) (path : String) (requestJson : Value)
    (ctx : RequestContext) (requestHeaders : Headers) : Handler PdResult := do
  match ← Handler.next .prefill ctx with
  | none => return .error (.noWorkers "prefill")
  | some (prefillIdx, prefillUrl) =>
      match vllmPrefillRequest requestJson path with
      | .error _ => .panic
      | .ok prefillRequest =>
          match buildTargetUrl crates prefillUrl path with
          | .error e => return .error (.urlParse e)
          | .ok prefillTarget =>
              match ← Handler.send .prefill
                  (post prefillTarget (filterHeaders requestHeaders) prefillRequest) with
              | .error e => return .error (.prefillRequest prefillUrl e.text)
              | .ok prefillResp =>
                  vllmPrefillCompletion crates path requestJson ctx requestHeaders prefillIdx
                    prefillResp

/-- The two-stage pipeline for inference paths when PD mode is active, otherwise the regular
handler. -/
def pdProxyHandler (crates : Crates) (pdMode : Option PdMode) (parts : Parts) :
    Handler (Response WorkerId) := do
  match pdMode, isInferencePath parts.path with
  | some mode, true =>
      match ← Handler.collect with
      | .error e => return (PdProxyError.bodyCollect e).intoResponse
      | .ok bodyBytes =>
          if maxBodySize < bodyBytes.size then
            return (PdProxyError.bodyCollect "request body too large").intoResponse
          else
            match crates.fromSlice bodyBytes with
            | .error e => return (PdProxyError.jsonParse e).intoResponse
            | .ok requestJson =>
                match extractContext crates bodyBytes parts.headers with
                | .error _ => .panic
                | .ok ctx =>
                    let result ← match mode with
                      | .vllm =>
                          processVllmPdRequest crates parts.path requestJson ctx parts.headers
                      | .sglang =>
                          processSglangPdRequest crates parts.path requestJson ctx parts.headers
                    match result with
                    | .ok response => return response
                    | .error e => return e.intoResponse
  | _, _ =>
      match ← proxyHandler crates parts with
      | .ok response => return response
      | .error e => return e.intoResponse

/-- The stages of a request to the pipeline, behind its body. -/
def processPd (crates : Crates) (mode : PdMode) (parts : Parts) (requestJson : Value)
    (ctx : RequestContext) : Handler PdResult :=
  match mode with
  | .vllm => processVllmPdRequest crates parts.path requestJson ctx parts.headers
  | .sglang => processSglangPdRequest crates parts.path requestJson ctx parts.headers

def collected : Programs.Event router → Option ByteArray
  | .replied .collect (.ok body) => some body
  | _ => none

def answerOf : PdResult → Response WorkerId
  | .ok response => response
  | .error e => e.intoResponse

theorem wp_answer {spec : Programs.Spec router}
    {post : Response WorkerId → Programs.Trace router → List RouterOp → Prop} (result : PdResult)
    (trace : Programs.Trace router) (deferred : List RouterOp) :
    Programs.wp spec (match result with
      | .ok response => pure response
      | .error e => pure e.intoResponse) post trace deferred ↔
      post (answerOf result) trace deferred := by
  cases result <;> rfl

/-- The pipeline keeps to a specification if it may end before its stages, and the stages keep to
it for whatever body they get. -/
theorem wp_pdProxyHandler {crates : Crates} (mode : PdMode) {parts : Parts}
    (hpath : isInferencePath parts.path = true) {spec : Programs.Spec router}
    {post : Response WorkerId → Programs.Trace router → List RouterOp → Prop}
    (hdropped : spec.ends [.dropped .collect] [])
    (hrejected : ∀ reply (error : PdProxyError), post error.intoResponse [.replied .collect reply] [])
    (hprocess : ∀ body requestJson ctx, crates.fromSlice body = .ok requestJson →
      Programs.wp spec (processPd crates mode parts requestJson ctx)
        (fun result => post (answerOf result)) [.replied .collect (.ok body)] []) :
    Programs.wp spec (pdProxyHandler crates (some mode) parts) post [] [] := by
  unfold pdProxyHandler
  rw [hpath]
  refine (wp_collect_bind _).mpr ⟨hdropped, fun reply => ?_⟩
  cases reply with
  | error e => exact hrejected _ _
  | ok body =>
      dsimp only
      split
      · exact hrejected _ _
      cases hjson : crates.fromSlice body with
      | error e => exact hrejected _ _
      | ok requestJson =>
          obtain ⟨ctx, hctx⟩ := exists_extractContext crates body parts.headers
          rw [hctx]
          have hstages := hprocess body requestJson ctx hjson
          cases mode with
          | vllm =>
              refine (Programs.wp_bind _ _).mpr (Programs.wp_mono ?_ hstages)
              exact fun result trace deferred => (wp_answer result trace deferred).mpr
          | sglang =>
              refine (Programs.wp_bind _ _).mpr (Programs.wp_mono ?_ hstages)
              exact fun result trace deferred => (wp_answer result trace deferred).mpr

theorem of_wp_pdProxyHandler {crates : Crates} (mode : PdMode) {parts : Parts}
    (hpath : isInferencePath parts.path = true) {spec : Programs.Spec router}
    {post : Response WorkerId → Programs.Trace router → List RouterOp → Prop}
    (h : Programs.wp spec (pdProxyHandler crates (some mode) parts) post [] []) {body : ByteArray}
    {requestJson : Value} (hsize : body.size ≤ maxBodySize)
    (hjson : crates.fromSlice body = .ok requestJson) :
    ∃ ctx, Programs.wp spec (processPd crates mode parts requestJson ctx)
      (fun result => post (answerOf result)) [.replied .collect (.ok body)] [] := by
  unfold pdProxyHandler at h
  rw [hpath] at h
  have hbody := ((wp_collect_bind _).mp h).2 (.ok body)
  obtain ⟨ctx, hctx⟩ := exists_extractContext crates body parts.headers
  dsimp only at hbody
  rw [if_neg (Nat.not_lt.mpr hsize), hjson, hctx] at hbody
  refine ⟨ctx, ?_⟩
  cases mode with
  | vllm =>
      refine Programs.wp_mono ?_ ((Programs.wp_bind _ _).mp hbody)
      exact fun result trace deferred => (wp_answer result trace deferred).mp
  | sglang =>
      refine Programs.wp_mono ?_ ((Programs.wp_bind _ _).mp hbody)
      exact fun result trace deferred => (wp_answer result trace deferred).mp

end TokenDog
