import TokenDog.Routes.PdHandler
import Mathlib

/-!
# Framing of pipeline requests

The header map of a pipeline request is copied from the client's request, its body is written anew.
A `Content-Length` of the client is copied as well, and the bodies differ in length.
-/

namespace TokenDog

/-- The decimal digits of a `Content-Length`. -/
def contentLength (value : HeaderValue) : Option Nat :=
  if value ≠ [] ∧ ∀ byte ∈ value, 48 ≤ byte.toNat ∧ byte.toNat ≤ 57 then
    some (value.foldl (fun length byte => 10 * length + (byte.toNat - 48)) 0)
  else none

/-- Every `Content-Length` in the header map is the length of the body. -/
def Outgoing.Framed (request : Outgoing) : Prop :=
  ∀ value, ("content-length", value) ∈ request.headers →
    contentLength value = some request.body.size

def RouterCall.requests : RouterCall → List Outgoing
  | .send _ request => [request]
  | .sendBoth prefill decode => [prefill, decode]
  | _ => []

def RouterCall.Framed (call : RouterCall) : Prop := ∀ request ∈ call.requests, request.Framed

namespace Framing

/-- The client has sent `body`; workers may answer anything. -/
def sends (body : ByteArray) : (call : RouterCall) → call.Reply → Prop
  | .collect, reply => reply = .ok body
  | _, _ => True

def kvResponse (params : Value) : Value := .object [("kv_transfer_params", params)]

section Lengths

/-- Two decode requests of one run differ in length by what the prefill worker sent. -/
theorem size_vllmDecodeRequest (entries : List (String × Value)) :
    ∃ frame, ∀ params, (vllmDecodeRequest (.object entries) (kvResponse params)).toVec.size =
      frame + params.compact.utf8ByteSize :=
  Value.exists_size_insertEntry "kv_transfer_params" entries

theorem size_insertBootstrap (entries : List (String × Value)) (host : String) (port : Nat) :
    ∃ frame, ∀ room, (insertBootstrap (.object entries) host port room).toVec.size =
      frame + (toString room).utf8ByteSize := by
  obtain ⟨frame, hframe⟩ := Value.exists_size_insertEntry "bootstrap_room"
    (Value.insertEntry "bootstrap_port" (.ofInt port)
      (Value.insertEntry "bootstrap_host" (.string host) entries))
  exact ⟨frame, fun room => hframe (.ofInt room)⟩

end Lengths

section Absent

variable {crates : Crates} {path : String} {headers : Headers} {ctx : RequestContext}
  {body : ByteArray}

theorem framed_post (habsent : ∀ value, ("content-length", value) ∉ headers) (target : Url)
    (json : Value) : (post target (filterHeaders headers) json).Framed := fun value hmem =>
  (habsent value (List.mem_of_mem_filter hmem)).elim

theorem framed_send (habsent : ∀ value, ("content-length", value) ∉ headers) (pool : Pool)
    (target : Url) (json : Value) :
    (RouterCall.send pool (post target (filterHeaders headers) json)).Framed := by
  intro request hrequest
  rw [List.mem_singleton.mp hrequest]
  exact framed_post habsent target json

theorem framed_sendBoth (habsent : ∀ value, ("content-length", value) ∉ headers)
    (prefillTarget decodeTarget : Url) (prefillJson decodeJson : Value) :
    (RouterCall.sendBoth (post prefillTarget (filterHeaders headers) prefillJson)
      (post decodeTarget (filterHeaders headers) decodeJson)).Framed := by
  refine List.forall_mem_cons.mpr ⟨framed_post habsent _ _, fun request hrequest => ?_⟩
  rw [List.mem_singleton.mp hrequest]
  exact framed_post habsent _ _

theorem framed_of_requests_nil {call : RouterCall} (h : call.requests = []) : call.Framed := by
  rw [RouterCall.Framed, h]
  exact fun _ hrequest => (List.not_mem_nil hrequest).elim

theorem calls_vllmResponse (si : StreamingInfo) (prefillJson : Value) (status : Nat)
    (decodeHeaders : Headers) (decodeBytes : ByteArray) :
    Programs.Calls (sends body) RouterCall.Framed
      (vllmResponse crates si prefillJson status decodeHeaders decodeBytes) := by
  unfold vllmResponse
  split
  · split
    · exact trivial
    · split <;> exact trivial
  · exact trivial

theorem calls_vllmDecode (habsent : ∀ value, ("content-length", value) ∉ headers)
    (requestJson prefillJson : Value) :
    Programs.Calls (sends body) RouterCall.Framed
      (vllmDecode crates path requestJson ctx headers prefillJson) := by
  unfold vllmDecode
  intro selected
  cases selected with
  | none => exact trivial
  | some entry =>
      dsimp only [Programs.Program.bind]
      split
      · exact trivial
      refine ⟨framed_send habsent _ _ _, fun reply _ => ?_⟩
      cases reply with
      | error e => exact trivial
      | ok decodeResp =>
          intro _ _
          dsimp only
          split
          · exact trivial
          refine ⟨framed_of_requests_nil rfl, fun reply _ => ?_⟩
          cases reply with
          | error e => exact trivial
          | ok decodeBytes => exact calls_vllmResponse _ _ _ _ _

theorem calls_vllmPrefillCompletion (habsent : ∀ value, ("content-length", value) ∉ headers)
    (requestJson : Value) (prefillIdx : Nat) (prefillResp : WorkerResponse) :
    Programs.Calls (sends body) RouterCall.Framed
      (vllmPrefillCompletion crates path requestJson ctx headers prefillIdx prefillResp) := by
  unfold vllmPrefillCompletion
  split
  · exact fun _ => ⟨framed_of_requests_nil rfl, fun _ _ => trivial⟩
  refine ⟨framed_of_requests_nil rfl, fun reply _ => ?_⟩
  cases reply with
  | error e => exact trivial
  | ok prefillBytes =>
      dsimp only [Programs.Program.bind]
      split
      · exact trivial
      · exact fun _ _ => calls_vllmDecode habsent requestJson _

theorem calls_processVllmPdRequest (habsent : ∀ value, ("content-length", value) ∉ headers)
    (requestJson : Value) :
    Programs.Calls (sends body) RouterCall.Framed
      (processVllmPdRequest crates path requestJson ctx headers) := by
  unfold processVllmPdRequest
  intro selected
  cases selected with
  | none => exact trivial
  | some entry =>
      dsimp only [Programs.Program.bind]
      split
      · exact trivial
      split
      · exact trivial
      refine ⟨framed_send habsent _ _ _, fun reply _ => ?_⟩
      cases reply with
      | error e => exact trivial
      | ok prefillResp => exact calls_vllmPrefillCompletion habsent requestJson _ prefillResp

theorem calls_processVllmPdRequest_of_not_patchable {requestJson : Value}
    (hpatchable : patchable requestJson path = false) :
    Programs.Calls (sends body) RouterCall.Framed
      (processVllmPdRequest crates path requestJson ctx headers) := by
  unfold processVllmPdRequest
  intro selected
  cases selected with
  | none => exact trivial
  | some entry =>
      dsimp only [Programs.Program.bind]
      rw [vllmPrefillRequest_of_not_patchable hpatchable]
      exact trivial

theorem calls_sglangResponse (si : StreamingInfo) (prefillJson : Option Value) (status : Nat)
    (decodeHeaders : Headers) (decodeBytes : ByteArray) :
    Programs.Calls (sends body) RouterCall.Framed
      (sglangResponse crates si prefillJson status decodeHeaders decodeBytes) := by
  unfold sglangResponse
  split
  · split
    · split
      · split <;> exact trivial
      · exact trivial
    · exact trivial
  · exact trivial

theorem calls_sglangPrefillJson (si : StreamingInfo) (prefillResp : WorkerResponse) :
    Programs.Calls (sends body) RouterCall.Framed
      (sglangPrefillJson crates si prefillResp) := by
  unfold sglangPrefillJson
  split
  · refine ⟨framed_of_requests_nil rfl, fun reply _ => ?_⟩
    cases reply <;> exact trivial
  · exact trivial

theorem calls_sglangCompletion (si : StreamingInfo) (prefillIdx decodeIdx : Nat)
    (prefillResp decodeResp : WorkerResponse) :
    Programs.Calls (sends body) RouterCall.Framed
      (sglangCompletion crates ctx si prefillIdx decodeIdx prefillResp decodeResp) := by
  unfold sglangCompletion
  intro _ _ _ _
  refine (calls_sglangPrefillJson si prefillResp).bind fun prefillJson => ?_
  split
  · exact trivial
  refine ⟨framed_of_requests_nil rfl, fun reply _ => ?_⟩
  cases reply with
  | error e => exact trivial
  | ok decodeBytes => exact calls_sglangResponse _ _ _ _ _

theorem calls_processSglangPdRequest (habsent : ∀ value, ("content-length", value) ∉ headers)
    (requestJson : Value) :
    Programs.Calls (sends body) RouterCall.Framed
      (processSglangPdRequest crates path requestJson ctx headers) := by
  unfold processSglangPdRequest
  intro selected
  cases selected with
  | none => exact trivial
  | some entry =>
      intro selected
      cases selected with
      | none => exact trivial
      | some entry =>
          intro draw
          dsimp only [Programs.Program.bind]
          split
          · exact trivial
          split
          · exact trivial
          split
          · exact trivial
          refine ⟨framed_sendBoth habsent _ _ _ _, fun reply _ => ?_⟩
          cases reply with
          | error e => exact trivial
          | ok responses => exact calls_sglangCompletion _ _ _ _ _

end Absent

section Present

variable {crates : Crates} {path : String} {headers : Headers} {ctx : RequestContext}
  {body : ByteArray}

/-- A `Content-Length` that is copied to two requests fits one length only. -/
theorem not_mem_of_framed {target target' : Url} {json json' : Value}
    (hframed : (post target (filterHeaders headers) json).Framed)
    (hframed' : (post target' (filterHeaders headers) json').Framed)
    (hsize : json.toVec.size ≠ json'.toVec.size) (value : HeaderValue) :
    ("content-length", value) ∉ headers := by
  intro hmem
  have hfiltered : ("content-length", value) ∈ filterHeaders headers :=
    List.mem_filter.mpr ⟨hmem, rfl⟩
  have hlength := (hframed value hfiltered).symm.trans (hframed' value hfiltered)
  exact hsize (Option.some.inj hlength)

/-- The vLLM handler forwards what the prefill worker sent to the decode worker. -/
theorem framed_of_calls_vllm {entries : List (String × Value)} {workerUrl : String} {target : Url}
    (h : Programs.Calls (sends body) RouterCall.Framed
      (processVllmPdRequest crates path (.object entries) ctx headers))
    (hpatchable : patchable (.object entries) path = true)
    (htarget : buildTargetUrl crates workerUrl path = .ok target) {params : Value}
    (hresponse : crates.fromSlice (kvResponse params).toVec = .ok (kvResponse params)) :
    (post target (filterHeaders headers)
      (vllmDecodeRequest (.object entries) (kvResponse params))).Framed := by
  obtain ⟨prefillRequest, hprefillRequest⟩ := exists_vllmPrefillRequest hpatchable
  have hprefill := h (some (0, workerUrl))
  dsimp only [Programs.Program.bind] at hprefill
  rw [hprefillRequest, htarget] at hprefill
  have hcompletion := hprefill.2 (.ok ⟨200, []⟩) trivial
  have hread := hcompletion.2 (.ok (kvResponse params).toVec) trivial
  dsimp only [Programs.Program.bind] at hread
  rw [hresponse] at hread
  have hdecode := hread () () (some (0, workerUrl))
  dsimp only [Programs.Program.bind] at hdecode
  rw [htarget] at hdecode
  exact hdecode.1 _ (List.mem_singleton_self _)

/-- The SGLang handler sends the drawn room to both workers. -/
theorem framed_of_calls_sglang {requestJson : Value} {workerUrl : String} {target : Url}
    (h : Programs.Calls (sends body) RouterCall.Framed
      (processSglangPdRequest crates path requestJson ctx headers))
    (htarget : buildTargetUrl crates workerUrl path = .ok target) {draw : Int}
    (hdraw : draw ≠ -2 ^ 63) :
    (post target (filterHeaders headers) (insertBootstrap requestJson
      (extractBootstrapHost crates workerUrl) defaultBootstrapPort draw.natAbs)).Framed := by
  have hdrawn := h (some (0, workerUrl)) (some (0, workerUrl)) draw
  dsimp only [Programs.Program.bind] at hdrawn
  rw [buildSglangBootstrapParams_of_ne crates workerUrl _ hdraw, htarget] at hdrawn
  exact hdrawn.1 _ List.mem_cons_self

/-- Some prefill response makes the length of the decode request wrong. -/
theorem not_mem_of_calls_vllm {entries : List (String × Value)} {workerUrl : String} {target : Url}
    (h : Programs.Calls (sends body) RouterCall.Framed
      (processVllmPdRequest crates path (.object entries) ctx headers))
    (hpatchable : patchable (.object entries) path = true)
    (htarget : buildTargetUrl crates workerUrl path = .ok target)
    (hresponses : ∀ params ∈ [Value.null, .bool false],
      crates.fromSlice (kvResponse params).toVec = .ok (kvResponse params))
    (value : HeaderValue) : ("content-length", value) ∉ headers := by
  obtain ⟨frame, hframe⟩ := size_vllmDecodeRequest entries
  have hnull := framed_of_calls_vllm h hpatchable htarget (hresponses .null (by simp))
  have hfalse := framed_of_calls_vllm h hpatchable htarget (hresponses (.bool false) (by simp))
  refine not_mem_of_framed hnull hfalse ?_ value
  have hlengths : Value.null.compact.utf8ByteSize ≠ (Value.bool false).compact.utf8ByteSize := by
    decide
  rw [hframe, hframe]
  omega

/-- Some draw makes the length of the requests wrong. -/
theorem not_mem_of_calls_sglang {entries : List (String × Value)} {workerUrl : String}
    {target : Url}
    (h : Programs.Calls (sends body) RouterCall.Framed
      (processSglangPdRequest crates path (.object entries) ctx headers))
    (htarget : buildTargetUrl crates workerUrl path = .ok target) (value : HeaderValue) :
    ("content-length", value) ∉ headers := by
  obtain ⟨frame, hframe⟩ := size_insertBootstrap entries (extractBootstrapHost crates workerUrl)
    defaultBootstrapPort
  refine not_mem_of_framed (framed_of_calls_sglang h htarget (show (0 : Int) ≠ -2 ^ 63 by decide))
    (framed_of_calls_sglang h htarget (show (10 : Int) ≠ -2 ^ 63 by decide)) ?_ value
  have hlengths : (toString (Int.natAbs 0 : Int)).utf8ByteSize ≠
      (toString (Int.natAbs 10 : Int)).utf8ByteSize := by
    decide
  rw [hframe, hframe]
  omega

end Present

/-- The pipeline sends what the handler of its mode sends, unless the body is too large. -/
theorem calls_pdProxyHandler_iff {crates : Crates} (mode : PdMode) (parts : Parts)
    {body : ByteArray} {requestJson : Value} {ctx : RequestContext}
    (hpath : isInferencePath parts.path = true) (hbody : crates.fromSlice body = .ok requestJson)
    (hctx : extractContext crates body parts.headers = .ok ctx) :
    Programs.Calls (sends body) RouterCall.Framed (pdProxyHandler crates (some mode) parts) ↔
      maxBodySize < body.size ∨ Programs.Calls (sends body) RouterCall.Framed
        (match mode with
        | .vllm => processVllmPdRequest crates parts.path requestJson ctx parts.headers
        | .sglang => processSglangPdRequest crates parts.path requestJson ctx parts.headers) := by
  unfold pdProxyHandler
  rw [hpath]
  constructor
  · intro h
    have hsent := h.2 (.ok body) rfl
    dsimp only [Programs.Program.bind] at hsent
    split at hsent
    · exact Or.inl ‹_›
    · rw [hbody, hctx] at hsent
      cases mode with
      | vllm => exact Or.inr (Programs.Calls.of_bind hsent)
      | sglang => exact Or.inr (Programs.Calls.of_bind hsent)
  · intro h
    refine ⟨framed_of_requests_nil rfl, ?_⟩
    rintro _ rfl
    dsimp only [Programs.Program.bind]
    split
    · exact trivial
    · have hcalls := h.resolve_left ‹_›
      rw [hbody, hctx]
      cases mode with
      | vllm => exact hcalls.bind fun result => by cases result <;> exact trivial
      | sglang => exact hcalls.bind fun result => by cases result <;> exact trivial

/-- A client's request to the pipeline has every request for the workers framed, for whatever the
workers answer, exactly if it has no `Content-Length` or none is sent: its body is too large, or the
vLLM handler cannot patch it. -/
theorem framed_iff {crates : Crates} (mode : PdMode) (parts : Parts) {body : ByteArray}
    {entries : List (String × Value)} (hpath : isInferencePath parts.path = true)
    (hbody : crates.fromSlice body = .ok (.object entries))
    (htarget : ∃ workerUrl target, buildTargetUrl crates workerUrl parts.path = .ok target)
    (hresponses : ∀ params ∈ [Value.null, .bool false],
      crates.fromSlice (kvResponse params).toVec = .ok (kvResponse params)) :
    Programs.Calls (sends body) RouterCall.Framed (pdProxyHandler crates (some mode) parts) ↔
      (∀ value, ("content-length", value) ∉ parts.headers) ∨ maxBodySize < body.size ∨
        (mode = .vllm ∧ patchable (.object entries) parts.path = false) := by
  obtain ⟨ctx, hctx⟩ := exists_extractContext crates body parts.headers
  obtain ⟨workerUrl, target, htarget⟩ := htarget
  rw [calls_pdProxyHandler_iff mode parts hpath hbody hctx]
  constructor
  · rintro (hlarge | hcalls)
    · exact Or.inr (Or.inl hlarge)
    · cases mode with
      | vllm =>
          cases hpatchable : patchable (.object entries) parts.path with
          | false => exact Or.inr (Or.inr ⟨rfl, rfl⟩)
          | true => exact Or.inl (not_mem_of_calls_vllm hcalls hpatchable htarget hresponses)
      | sglang => exact Or.inl (not_mem_of_calls_sglang hcalls htarget)
  · rintro (habsent | hlarge | ⟨rfl, hpatchable⟩)
    · cases mode with
      | vllm => exact Or.inr (calls_processVllmPdRequest habsent _)
      | sglang => exact Or.inr (calls_processSglangPdRequest habsent _)
    · exact Or.inl hlarge
    · exact Or.inr (calls_processVllmPdRequest_of_not_patchable hpatchable)

def threeDocuments : Crates where
  parseUrl text := .ok ⟨text, none, none⟩
  fromSlice bytes :=
    match [Value.object [], kvResponse .null, kvResponse (.bool false)].find?
      fun value => value.toVec = bytes with
    | some value => .ok value
    | none => .error "expected value"
  builderError _ _ := none

def postRequest (headers : Headers) : Parts := ⟨"POST", "/v1/completions", none, headers⟩

theorem isInferencePath_of_completions {path : String}
    (h : containsText path "/v1/completions" = true) : isInferencePath path = true := by
  simp [isInferencePath, h]

theorem isInferencePath_postRequest (headers : Headers) :
    isInferencePath (postRequest headers).path = true :=
  isInferencePath_of_completions (containsText_self _)

theorem fromSlice_object_nil :
    threeDocuments.fromSlice (Value.object []).toVec = .ok (.object []) := by rfl

theorem fromSlice_kvResponse : ∀ params ∈ [Value.null, .bool false],
    threeDocuments.fromSlice (kvResponse params).toVec = .ok (kvResponse params) := by
  rintro params hparams
  simp only [List.mem_cons, List.not_mem_nil, or_false] at hparams
  rcases hparams with rfl | rfl <;> rfl

theorem patchable_object_nil (path : String) : patchable (.object []) path = true := by
  simp [patchable, Value.indexable, Value.get, Value.asObject]

/-- The client sends the two bytes of an empty object and says so (the value is the digit 2). Neither
mode sends the workers two bytes only. -/
theorem not_framed_of_empty_object :
    contentLength [50] = some (Value.object []).toVec.size ∧
      threeDocuments.fromSlice (Value.object []).toVec = .ok (.object []) ∧
      ¬Programs.Calls (sends (Value.object []).toVec) RouterCall.Framed
        (pdProxyHandler threeDocuments (some .vllm) (postRequest [("content-length", [50])])) ∧
      ¬Programs.Calls (sends (Value.object []).toVec) RouterCall.Framed
        (pdProxyHandler threeDocuments (some .sglang) (postRequest [("content-length", [50])])) := by
  have hsize : (Value.object []).toVec.size = 2 := by decide
  have hlength : contentLength [50] = some 2 := by simp [contentLength]
  have hlarge : ¬maxBodySize < (Value.object []).toVec.size := by
    rw [hsize]
    decide
  have htarget : buildTargetUrl threeDocuments "http://a:8000"
    (postRequest [("content-length", [50])]).path = .ok ⟨_, none, none⟩ := rfl
  obtain ⟨ctx, hctx⟩ := exists_extractContext threeDocuments (Value.object []).toVec
    (postRequest [("content-length", [50])]).headers
  rw [calls_pdProxyHandler_iff .vllm (postRequest _) (isInferencePath_postRequest _)
      fromSlice_object_nil hctx,
    calls_pdProxyHandler_iff .sglang (postRequest _) (isInferencePath_postRequest _)
      fromSlice_object_nil hctx]
  refine ⟨by rw [hsize, hlength], fromSlice_object_nil, fun h => ?_, fun h => ?_⟩
  · exact not_mem_of_calls_vllm (h.resolve_left hlarge) (patchable_object_nil _) htarget
      fromSlice_kvResponse [50] List.mem_cons_self
  · exact not_mem_of_calls_sglang (h.resolve_left hlarge) htarget [50] List.mem_cons_self

/-- Without a `Content-Length` the request is framed. -/
theorem framed_without_content_length :
    Programs.Calls (sends (Value.object []).toVec) RouterCall.Framed
      (pdProxyHandler threeDocuments (some .vllm) (postRequest [])) := by
  rw [framed_iff .vllm (postRequest []) (isInferencePath_postRequest []) fromSlice_object_nil
    ⟨"http://a:8000", ⟨_, none, none⟩, rfl⟩ fromSlice_kvResponse]
  exact Or.inl fun _ hmem => List.not_mem_nil hmem

end Framing

end TokenDog
