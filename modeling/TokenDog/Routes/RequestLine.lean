import TokenDog.Routes.Framing
import TokenDog.Lib.Histories

/-!
# The request line of a forwarded request

The regular handler sends a worker the client's method and the client's path and query. The pipeline
posts to the path, whatever the client's method and query are.
-/

namespace TokenDog

namespace Value

/-- Two values that differ in the given fields, and only as objects do. -/
structure SameBut (fields : List String) (value value' : Value) : Prop where
  get : ∀ key ∉ fields, value'.get key = value.get key
  eq : value.asObject = none → value' = value

theorem SameBut.refl (fields : List String) (value : Value) : SameBut fields value value :=
  ⟨fun _ _ => rfl, fun _ => rfl⟩

theorem SameBut.insertIfObject {fields : List String} {value value' : Value}
    (h : SameBut fields value value') {key : String} (hkey : key ∈ fields) (new : Value) :
    SameBut fields value (value'.insertIfObject key new) where
  get := by
    intro other hother
    rw [← h.get other hother]
    refine get_insertIfObject_of_ne (fun heq => hother ?_) value' new
    exact heq ▸ hkey
  eq := by
    intro hnone
    rw [h.eq hnone]
    exact insertIfObject_of_asObject_eq_none hnone key new

end Value

namespace RequestLine

def addedFields : PdMode → List String
  | .vllm => ["kv_transfer_params"]
  | .sglang => ["bootstrap_host", "bootstrap_port", "bootstrap_room"]

def requestTo (pool : Pool) : Programs.Event router → Option Outgoing
  | .replied (.send other request) _ => if other = pool then some request else none
  | .dropped (.send other request) => if other = pool then some request else none
  | .replied (.sendBoth prefill decode) _ => sentTo prefill decode
  | .dropped (.sendBoth prefill decode) => sentTo prefill decode
  | _ => none
where
  sentTo (prefill decode : Outgoing) : Option Outgoing :=
    match pool with
    | .regular => none
    | .prefill => some prefill
    | .decode => some decode

def urlIn (pool : Pool) : Programs.Event router → Option String
  | .ran (.next other _) (some (_, url)) => if other = pool then some url else none
  | _ => none

theorem urlIn_next_of_ne {pool other : Pool} (hother : other ≠ pool) (ctx : RequestContext)
    (selected : Option (Nat × String)) : urlIn pool (.ran (.next other ctx) selected) = none := by
  cases selected with
  | none => rfl
  | some entry => exact if_neg hother

/-- The request the regular handler would send to the worker, but for fields of the body. -/
structure Forwards (crates : Crates) (parts : Parts) (requestJson : Value) (fields : List String)
    (workerUrl : String) (request : Outgoing) : Prop where
  method : request.method = parts.method
  target : crates.parseUrl (trimEndMatches workerUrl '/' ++ parts.pathAndQuery) = .ok request.url
  headers : request.headers = parts.headers.remove "host"
  body : ∃ json, request.body = json.toVec ∧ Value.SameBut fields requestJson json

/-- The pipeline posts to the path. -/
structure Posts (crates : Crates) (parts : Parts) (requestJson : Value) (fields : List String)
    (workerUrl : String) (request : Outgoing) : Prop where
  method : request.method = "POST"
  target : buildTargetUrl crates workerUrl parts.path = .ok request.url
  headers : request.headers = parts.headers.remove "host"
  body : ∃ json, request.body = json.toVec ∧ Value.SameBut fields requestJson json

section Posts

variable {crates : Crates} {parts : Parts} {workerUrl : String} {target : Url}

theorem posts_vllmDecodeRequest (htarget : buildTargetUrl crates workerUrl parts.path = .ok target)
    (requestJson prefillJson : Value) :
    Posts crates parts requestJson (addedFields .vllm) workerUrl
      (post target (filterHeaders parts.headers) (vllmDecodeRequest requestJson prefillJson)) := by
  refine ⟨rfl, htarget, rfl, _, rfl, ?_⟩
  unfold vllmDecodeRequest
  split
  · exact (Value.SameBut.refl _ _).insertIfObject List.mem_cons_self _
  · exact .refl _ _

theorem posts_insertBootstrap (htarget : buildTargetUrl crates workerUrl parts.path = .ok target)
    (requestJson : Value) (host : String) (port : Nat) (room : Int) :
    Posts crates parts requestJson (addedFields .sglang) workerUrl
      (post target (filterHeaders parts.headers) (insertBootstrap requestJson host port room)) := by
  refine ⟨rfl, htarget, rfl, _, rfl, ?_⟩
  apply Value.SameBut.insertIfObject _ (by simp [addedFields])
  apply Value.SameBut.insertIfObject _ (by simp [addedFields])
  exact (Value.SameBut.refl _ _).insertIfObject (by simp [addedFields]) _

end Posts

def KeepsQuery (crates : Crates) : Prop :=
  ∀ base query url, crates.parseUrl base = .ok url → crates.parseUrl (base ++ "?" ++ query) ≠ .ok url

theorem Posts.forwards_iff {crates : Crates} (hkeeps : KeepsQuery crates) {parts : Parts}
    {requestJson : Value} {fields : List String} {workerUrl : String} {request : Outgoing}
    (h : Posts crates parts requestJson fields workerUrl request) :
    Forwards crates parts requestJson fields workerUrl request ↔
      parts.method = "POST" ∧ parts.query = none := by
  have htarget := h.target
  rw [buildTargetUrl] at htarget
  constructor
  · intro hforwards
    refine ⟨hforwards.method.symm.trans h.method, ?_⟩
    cases hquery : parts.query with
    | none => rfl
    | some query =>
        have hfull := hforwards.target
        rw [Parts.pathAndQuery, hquery, ← String.append_assoc, ← String.append_assoc] at hfull
        exact absurd hfull (hkeeps _ _ _ htarget)
  · rintro ⟨hmethod, hquery⟩
    refine ⟨h.method.trans hmethod.symm, ?_, h.headers, h.body⟩
    rw [Parts.pathAndQuery, hquery]
    exact htarget

/-- Every request to a decode worker is posted. -/
def DecodePosted (crates : Crates) (mode : PdMode) (parts : Parts) (trace : Programs.Trace router) :
    Prop :=
  ∀ body requestJson, .replied .collect (.ok body) ∈ trace → crates.fromSlice body = .ok requestJson →
    ∀ selected ∈ trace, ∀ workerUrl, urlIn .decode selected = some workerUrl →
    ∀ sent ∈ trace, ∀ request, requestTo .decode sent = some request →
    Posts crates parts requestJson (addedFields mode) workerUrl request

/-- The body of the request, the worker of the pool and the request to it, as far as the history
goes. -/
structure Knows (pool : Pool) (body : ByteArray) (workerUrl : Option String)
    (request : Option Outgoing) (trace : Programs.Trace router) : Prop where
  bodies : Programs.Tells collected (some body) trace
  urls : Programs.Tells (urlIn pool) workerUrl trace
  requests : Programs.Tells (requestTo pool) request trace

section Knows

variable {pool : Pool} {body : ByteArray} {workerUrl : Option String} {request : Option Outgoing}
  {trace : Programs.Trace router}

theorem knows_of_collected (pool : Pool) (body : ByteArray) :
    Knows pool body none none [.replied .collect (.ok body)] where
  bodies := (Programs.tells_nil none).learn rfl
  urls := (Programs.tells_nil none).pass rfl
  requests := (Programs.tells_nil none).pass rfl

theorem Knows.pass (h : Knows pool body workerUrl request trace) (event : Programs.Event router)
    (hbody : collected event = none := by rfl) (hurl : urlIn pool event = none := by rfl)
    (hrequest : requestTo pool event = none := by rfl) : Knows pool body workerUrl request (event :: trace) :=
  ⟨h.bodies.pass hbody, h.urls.pass hurl, h.requests.pass hrequest⟩

theorem Knows.select (h : Knows pool body none request trace) (ctx : RequestContext) (i : Nat)
    (url : String) :
    Knows pool body (some url) request (.ran (.next pool ctx) (some (i, url)) :: trace) :=
  ⟨h.bodies.pass rfl, h.urls.learn (if_pos rfl), h.requests.pass rfl⟩

theorem Knows.send (h : Knows pool body workerUrl none trace) (event : Programs.Event router)
    {sent : Outgoing} (hbody : collected event = none) (hurl : urlIn pool event = none)
    (hrequest : requestTo pool event = some sent) :
    Knows pool body workerUrl (some sent) (event :: trace) :=
  ⟨h.bodies.pass hbody, h.urls.pass hurl, h.requests.learn hrequest⟩

variable {crates : Crates} {mode : PdMode} {parts : Parts}

theorem Knows.unsent (h : Knows .decode body workerUrl none trace) :
    DecodePosted crates mode parts trace := by
  intro body requestJson hbody hjson selected hselected url hurl sent hsent request hrequest
  cases h.requests sent hsent request hrequest

theorem Knows.posted {requestJson : Value} (hjson : crates.fromSlice body = .ok requestJson)
    {url : String} {sent : Outgoing} (h : Knows .decode body (some url) (some sent) trace)
    (hposts : Posts crates parts requestJson (addedFields mode) url sent) :
    DecodePosted crates mode parts trace := by
  intro other otherJson hbody hotherJson selected hselected url' hurl event hevent request hrequest
  cases h.bodies _ hbody other rfl
  cases hjson.symm.trans hotherJson
  cases h.urls selected hselected url' hurl
  cases h.requests event hevent request hrequest
  exact hposts

end Knows

/-! ### The stages -/

/-- The rest of a stage keeps to the specification. -/
abbrev Safe (crates : Crates) (mode : PdMode) (parts : Parts) (program : Handler PdResult)
    (trace : Programs.Trace router) : Prop :=
  Programs.wp (Programs.historySpec fun trace (_ : Option (Response WorkerId)) =>
      DecodePosted crates mode parts trace) program
    (fun _ trace _ => DecodePosted crates mode parts trace) trace []

/-- The request to the decode worker is out, and is posted. -/
structure Decided (crates : Crates) (mode : PdMode) (parts : Parts) (body : ByteArray)
    (requestJson : Value) (url : String) (sent : Outgoing) (trace : Programs.Trace router) :
    Prop extends Knows .decode body (some url) (some sent) trace where
  json : crates.fromSlice body = .ok requestJson
  posts : Posts crates parts requestJson (addedFields mode) url sent

section Decided

variable {crates : Crates} {mode : PdMode} {parts : Parts} {body : ByteArray} {requestJson : Value}
  {url : String} {sent : Outgoing} {trace : Programs.Trace router}

theorem Decided.posted (h : Decided crates mode parts body requestJson url sent trace) :
    DecodePosted crates mode parts trace :=
  h.toKnows.posted h.json h.posts

theorem Decided.pass (h : Decided crates mode parts body requestJson url sent trace)
    (event : Programs.Event router) (hbody : collected event = none := by rfl)
    (hurl : urlIn .decode event = none := by rfl)
    (hrequest : requestTo .decode event = none := by rfl) :
    Decided crates mode parts body requestJson url sent (event :: trace) :=
  ⟨h.toKnows.pass event hbody hurl hrequest, h.json, h.posts⟩

theorem Decided.safe_finish (h : Decided crates mode parts body requestJson url sent trace)
    {pool : Pool} {ctx : RequestContext} {i : Nat} {next : Handler PdResult}
    (hnext : ∀ {trace}, Decided crates mode parts body requestJson url sent trace →
      Safe crates mode parts next trace) :
    Safe crates mode parts
      (Handler.finish pool i >>= fun _ => Handler.record pool ctx i >>= fun _ => next) trace := by
  rw [Safe, wp_finish_bind]
  refine ⟨trivial, (h.pass _).posted, fun _ => ?_⟩
  have hfinished := h.pass (.ran (.finish pool i) ())
  rw [wp_record_bind]
  exact ⟨trivial, (hfinished.pass _).posted, fun _ => hnext (hfinished.pass _)⟩

theorem Decided.safe_bytes (h : Decided crates mode parts body requestJson url sent trace)
    {pool : Pool} {response : WorkerResponse} {next : Except ReqwestError ByteArray → Handler PdResult}
    (hnext : ∀ reply {trace}, Decided crates mode parts body requestJson url sent trace →
      Safe crates mode parts (next reply) trace) :
    Safe crates mode parts (Handler.bytes pool response >>= next) trace := by
  rw [Safe, wp_bytes_bind]
  exact ⟨(h.pass _).posted, fun reply => hnext reply (h.pass _)⟩

end Decided

section Stages

variable {crates : Crates} {parts : Parts} {body : ByteArray} {requestJson : Value}
  {trace : Programs.Trace router}

theorem safe_vllmResponse {url : String} {sent : Outgoing} (si : StreamingInfo) (prefillJson : Value)
    (status : Nat) (decodeHeaders : Headers) (decodeBytes : ByteArray)
    (h : Decided crates .vllm parts body requestJson url sent trace) :
    Safe crates .vllm parts
      (vllmResponse crates si prefillJson status decodeHeaders decodeBytes) trace := by
  unfold vllmResponse
  split
  · split
    · exact h.posted
    · split
      · exact (h.pass _).posted
      · exact h.posted
  · exact h.posted

theorem safe_vllmDecode (hjson : crates.fromSlice body = .ok requestJson) (ctx : RequestContext)
    (prefillJson : Value) (h : Knows .decode body none none trace) :
    Safe crates .vllm parts
      (vllmDecode crates parts.path requestJson ctx parts.headers prefillJson) trace := by
  unfold vllmDecode
  rw [Safe, wp_next_bind]
  refine ⟨trivial, (h.pass _).unsent, fun selected => ?_⟩
  cases selected with
  | none => exact (h.pass _).unsent
  | some entry =>
      obtain ⟨decodeIdx, decodeUrl⟩ := entry
      have hselected := h.select ctx decodeIdx decodeUrl
      dsimp only
      split
      · exact hselected.unsent
      rename_i decodeTarget htarget
      have hposts := posts_vllmDecodeRequest htarget requestJson prefillJson
      rw [wp_send_bind]
      refine ⟨(hselected.send _ rfl rfl rfl).posted hjson hposts, fun reply => ?_⟩
      have hsent : Decided crates .vllm parts body requestJson decodeUrl _
          (.replied (.send .decode (post decodeTarget (filterHeaders parts.headers)
            (vllmDecodeRequest requestJson prefillJson))) reply :: _) :=
        ⟨hselected.send _ rfl rfl rfl, hjson, hposts⟩
      cases reply with
      | error e => exact hsent.posted
      | ok decodeResp =>
          apply hsent.safe_finish
          intro trace hfinished
          split
          · exact hfinished.posted
          apply hfinished.safe_bytes
          intro reply trace hread
          cases reply with
          | error e => exact hread.posted
          | ok decodeBytes => exact safe_vllmResponse _ _ _ _ _ hread

theorem safe_vllmPrefillCompletion (hjson : crates.fromSlice body = .ok requestJson)
    (ctx : RequestContext) (prefillIdx : Nat) (prefillResp : WorkerResponse)
    (h : Knows .decode body none none trace) :
    Safe crates .vllm parts (vllmPrefillCompletion crates parts.path requestJson ctx parts.headers
      prefillIdx prefillResp) trace := by
  unfold vllmPrefillCompletion
  split
  · rw [Safe, wp_finish_bind]
    refine ⟨trivial, (h.pass _).unsent, fun _ => ?_⟩
    have hfinished := h.pass (.ran (.finish .prefill prefillIdx) ())
    rw [wp_text_bind]
    exact ⟨(hfinished.pass _).unsent, fun text => (hfinished.pass _).unsent⟩
  · rw [Safe, wp_bytes_bind]
    refine ⟨(h.pass _).unsent, fun reply => ?_⟩
    have hread := h.pass (.replied (.bytes .prefill prefillResp) reply)
    cases reply with
    | error e => exact hread.unsent
    | ok prefillBytes =>
        dsimp only
        split
        · exact hread.unsent
        rw [wp_finish_bind]
        refine ⟨trivial, (hread.pass _).unsent, fun _ => ?_⟩
        have hfinished := hread.pass (.ran (.finish .prefill prefillIdx) ())
        rw [wp_record_bind]
        refine ⟨trivial, (hfinished.pass _).unsent, fun _ => ?_⟩
        exact safe_vllmDecode hjson ctx _ (hfinished.pass _)

theorem safe_processVllmPdRequest (hjson : crates.fromSlice body = .ok requestJson)
    (ctx : RequestContext) (h : Knows .decode body none none trace) :
    Safe crates .vllm parts
      (processVllmPdRequest crates parts.path requestJson ctx parts.headers) trace := by
  unfold processVllmPdRequest
  rw [Safe, wp_next_bind]
  refine ⟨trivial, (h.pass _).unsent, fun selected => ?_⟩
  have hselected := h.pass (.ran (.next .prefill ctx) selected) rfl
    (urlIn_next_of_ne (by decide) ctx selected) rfl
  cases selected with
  | none => exact hselected.unsent
  | some entry =>
      obtain ⟨prefillIdx, prefillUrl⟩ := entry
      dsimp only
      split
      · exact (hselected.pass _).unsent
      split
      · exact hselected.unsent
      rw [wp_send_bind]
      refine ⟨(hselected.pass _).unsent, fun reply => ?_⟩
      cases reply with
      | error e => exact (hselected.pass _).unsent
      | ok prefillResp =>
          exact safe_vllmPrefillCompletion hjson ctx prefillIdx prefillResp
            (hselected.pass _)

theorem safe_sglangResponse {url : String} {sent : Outgoing} (si : StreamingInfo)
    (prefillJson : Option Value) (status : Nat) (decodeHeaders : Headers) (decodeBytes : ByteArray)
    (h : Decided crates .sglang parts body requestJson url sent trace) :
    Safe crates .sglang parts
      (sglangResponse crates si prefillJson status decodeHeaders decodeBytes) trace := by
  unfold sglangResponse
  split
  · split
    · split
      · split
        · exact (h.pass _).posted
        · exact h.posted
      · exact h.posted
    · exact h.posted
  · exact h.posted

theorem wp_sglangPrefillJson_decided {url : String} {sent : Outgoing} (si : StreamingInfo)
    (prefillResp : WorkerResponse)
    (h : Decided crates .sglang parts body requestJson url sent trace) :
    Programs.wp (Programs.historySpec fun trace (_ : Option (Response WorkerId)) =>
        DecodePosted crates .sglang parts trace) (sglangPrefillJson crates si prefillResp)
      (fun _ trace deferred => deferred = [] ∧
        Decided crates .sglang parts body requestJson url sent trace) trace [] := by
  unfold sglangPrefillJson
  split
  · rw [wp_bytes_bind]
    refine ⟨(h.pass _).posted, fun reply => ?_⟩
    cases reply <;> exact ⟨rfl, h.pass _⟩
  · exact ⟨rfl, h⟩

theorem safe_sglangCompletion {url : String} {sent : Outgoing} (ctx : RequestContext)
    (si : StreamingInfo) (prefillIdx decodeIdx : Nat) (prefillResp decodeResp : WorkerResponse)
    (h : Decided crates .sglang parts body requestJson url sent trace) :
    Safe crates .sglang parts
      (sglangCompletion crates ctx si prefillIdx decodeIdx prefillResp decodeResp) trace := by
  unfold sglangCompletion
  apply h.safe_finish
  intro trace hprefill
  apply hprefill.safe_finish
  intro trace hdecode
  refine (Programs.wp_bind _ _).mpr (Programs.wp_mono ?_
    (wp_sglangPrefillJson_decided si prefillResp hdecode))
  rintro prefillJson trace deferred ⟨rfl, hread⟩
  split
  · exact hread.posted
  apply hread.safe_bytes
  intro reply trace hbody
  cases reply with
  | error e => exact hbody.posted
  | ok decodeBytes => exact safe_sglangResponse _ _ _ _ _ hbody

theorem safe_processSglangPdRequest (hjson : crates.fromSlice body = .ok requestJson)
    (ctx : RequestContext) (h : Knows .decode body none none trace) :
    Safe crates .sglang parts
      (processSglangPdRequest crates parts.path requestJson ctx parts.headers) trace := by
  unfold processSglangPdRequest
  rw [Safe, wp_next_bind]
  refine ⟨trivial, (h.pass _).unsent, fun selected => ?_⟩
  have hprefill := h.pass (.ran (.next .prefill ctx) selected) rfl
    (urlIn_next_of_ne (by decide) ctx selected) rfl
  cases selected with
  | none => exact hprefill.unsent
  | some entry =>
      obtain ⟨prefillIdx, prefillUrl⟩ := entry
      dsimp only
      rw [wp_next_bind]
      refine ⟨trivial, (hprefill.pass _).unsent, fun selected => ?_⟩
      cases selected with
      | none => exact (hprefill.pass _).unsent
      | some entry =>
          obtain ⟨decodeIdx, decodeUrl⟩ := entry
          have hdecode := hprefill.select ctx decodeIdx decodeUrl
          dsimp only
          rw [wp_random_bind]
          refine ⟨trivial, (hdecode.pass _).unsent, fun draw => ?_⟩
          have hdrawn := hdecode.pass (.ran .random draw)
          split
          · exact (hdrawn.pass (.panicked none)).unsent
          split
          · exact hdrawn.unsent
          rename_i prefillTarget hprefillTarget
          split
          · exact hdrawn.unsent
          rename_i decodeTarget hdecodeTarget
          have hposts := posts_insertBootstrap hdecodeTarget requestJson
          rw [wp_sendBoth_bind]
          refine ⟨(hdrawn.send _ rfl rfl rfl).posted hjson (hposts _ _ _), fun reply => ?_⟩
          cases reply with
          | error e => exact (hdrawn.send _ rfl rfl rfl).posted hjson (hposts _ _ _)
          | ok responses =>
              obtain ⟨prefillResp, decodeResp⟩ := responses
              exact safe_sglangCompletion ctx _ prefillIdx decodeIdx prefillResp decodeResp
                ⟨hdrawn.send _ rfl rfl rfl, hjson, hposts _ _ _⟩

end Stages

/-! ### Runs of the pipeline -/

theorem decodePosted_of_leaves {crates : Crates} (mode : PdMode) {parts : Parts}
    (hpath : isInferencePath parts.path = true) {trace : Programs.Trace router}
    {outcome : Option (Response WorkerId)}
    (h : Programs.Leaves (pdProxyHandler crates (some mode) parts) trace outcome) :
    DecodePosted crates mode parts trace := by
  have hquiet : ∀ event : Programs.Event router, requestTo .decode event = none →
      DecodePosted crates mode parts [event] := by
    intro event hnone body requestJson hbody hjson selected hselected url hurl sent hsent request
      hrequest
    rw [List.mem_singleton.mp hsent, hnone] at hrequest
    cases hrequest
  refine (Programs.wp_historySpec_iff (P := fun trace _ => DecodePosted crates mode parts trace)).mp
    ?_ trace outcome h
  refine wp_pdProxyHandler mode hpath (hquiet _ rfl) (fun _ _ => hquiet _ rfl) ?_
  intro body requestJson ctx hjson
  cases mode with
  | vllm => exact safe_processVllmPdRequest hjson ctx (knows_of_collected .decode body)
  | sglang => exact safe_processSglangPdRequest hjson ctx (knows_of_collected .decode body)

/-- A request that the pipeline sends to a decode worker is the one the regular handler would send,
but for the added fields, exactly if the client posts and has no query. -/
theorem pipeline_forwards_iff {crates : Crates} (hkeeps : KeepsQuery crates) {mode : PdMode} {parts : Parts}
    (hpath : isInferencePath parts.path = true) {trace : Programs.Trace router}
    {outcome : Option (Response WorkerId)}
    (hleaves : Programs.Leaves (pdProxyHandler crates (some mode) parts) trace outcome)
    {body : ByteArray} {requestJson : Value} (hbody : .replied .collect (.ok body) ∈ trace)
    (hjson : crates.fromSlice body = .ok requestJson) {selected sent : Programs.Event router}
    (hselected : selected ∈ trace) {workerUrl : String}
    (hworkerUrl : urlIn .decode selected = some workerUrl) (hsent : sent ∈ trace) {request : Outgoing}
    (hrequest : requestTo .decode sent = some request) :
    Forwards crates parts requestJson (addedFields mode) workerUrl request ↔
      parts.method = "POST" ∧ parts.query = none :=
  (decodePosted_of_leaves mode hpath hleaves body requestJson hbody hjson selected hselected
    workerUrl hworkerUrl sent hsent request hrequest).forwards_iff hkeeps

theorem exists_sglang_sent {crates : Crates} {parts : Parts} (hpath : isInferencePath parts.path = true)
    {body : ByteArray} {requestJson : Value} (hsize : body.size ≤ maxBodySize)
    (hjson : crates.fromSlice body = .ok requestJson) (url : String) {target : Url}
    (htarget : buildTargetUrl crates url parts.path = .ok target) :
    ∃ ctx prefill decode, Programs.Leaves (pdProxyHandler crates (some .sglang) parts)
      [.dropped (.sendBoth prefill decode), .ran .random (0 : Int),
        .ran (.next .decode ctx) (some (0, url)), .ran (.next .prefill ctx) (some (0, url)),
        .replied .collect (.ok body)] none := by
  have hall := Programs.wp_historySpec_iff.mpr fun trace outcome
    (h : Programs.Leaves (pdProxyHandler crates (some .sglang) parts) trace outcome) => h
  obtain ⟨ctx, hstages⟩ := of_wp_pdProxyHandler .sglang hpath hall hsize hjson
  unfold processPd processSglangPdRequest at hstages
  have hprefill := ((wp_next_bind _ _ _).mp hstages).2.2 (some (0, url))
  have hdecode := ((wp_next_bind _ _ _).mp hprefill).2.2 (some (0, url))
  have hdrawn := ((wp_random_bind _).mp hdecode).2.2 0
  rw [htarget] at hdrawn
  exact ⟨ctx, _, _, ((wp_sendBoth_bind _ _ _).mp hdrawn).1⟩

theorem keepsQuery_threeDocuments : KeepsQuery Framing.threeDocuments := by
  intro base query url hbase hfull
  cases hbase
  have htext : base ++ "?" ++ query = base := congrArg Url.asStr (Except.ok.inj hfull)
  have hlength := congrArg String.length htext
  rw [String.length_append, String.length_append] at hlength
  have hmark : "?".length = 1 := rfl
  omega

theorem exists_sent_decode {parts : Parts} (hpath : isInferencePath parts.path = true) :
    ∃ trace selected sent request, Programs.Leaves
        (pdProxyHandler Framing.threeDocuments (some .sglang) parts) trace none ∧
      .replied .collect (.ok (Value.object []).toVec) ∈ trace ∧
      selected ∈ trace ∧ urlIn .decode selected = some "http://d:8000" ∧
      sent ∈ trace ∧ requestTo .decode sent = some request := by
  obtain ⟨ctx, prefill, decode, hleaves⟩ := exists_sglang_sent hpath (by decide)
    Framing.fromSlice_object_nil "http://d:8000" rfl
  refine ⟨_, .ran (.next .decode ctx) (some (0, "http://d:8000")),
    .dropped (.sendBoth prefill decode), decode, hleaves, ?_, ?_, rfl, List.mem_cons_self, rfl⟩
  · simp
  · simp

def queryRequest : Parts := ⟨"POST", "/v1/completions", some "api-version=1", []⟩

/-- The query of a posted completion is lost on the way to the decode worker. -/
theorem not_forwards_of_query :
    ∃ trace outcome selected sent request, Programs.Leaves
        (pdProxyHandler Framing.threeDocuments (some .sglang) queryRequest) trace outcome ∧
      .replied .collect (.ok (Value.object []).toVec) ∈ trace ∧
      selected ∈ trace ∧ urlIn .decode selected = some "http://d:8000" ∧
      sent ∈ trace ∧ requestTo .decode sent = some request ∧
      ¬Forwards Framing.threeDocuments queryRequest (.object []) (addedFields .sglang)
        "http://d:8000" request := by
  have hpath : isInferencePath queryRequest.path = true := Framing.isInferencePath_postRequest []
  obtain ⟨trace, selected, sent, request, hleaves, hbody, hselected, hurl, hsent, hrequest⟩ :=
    exists_sent_decode hpath
  refine ⟨trace, none, selected, sent, request, hleaves, hbody, hselected, hurl, hsent, hrequest, ?_⟩
  have hposts := decodePosted_of_leaves .sglang hpath hleaves _ _ hbody Framing.fromSlice_object_nil
    selected hselected _ hurl sent hsent request hrequest
  rw [hposts.forwards_iff keepsQuery_threeDocuments]
  exact fun h => by cases h.2

/-- Without the query it is forwarded. -/
theorem forwards_of_post :
    ∃ request, Forwards Framing.threeDocuments (Framing.postRequest []) (.object [])
      (addedFields .sglang) "http://d:8000" request := by
  have hpath := Framing.isInferencePath_postRequest []
  obtain ⟨trace, selected, sent, request, hleaves, hbody, hselected, hurl, hsent, hrequest⟩ :=
    exists_sent_decode hpath
  exact ⟨request, (pipeline_forwards_iff keepsQuery_threeDocuments hpath hleaves hbody
    Framing.fromSlice_object_nil hselected hurl hsent hrequest).mpr ⟨rfl, rfl⟩⟩

/-- Every request of the regular handler has the client's request line, headers and body. -/
def RegularForwarded (crates : Crates) (parts : Parts) (trace : Programs.Trace router) : Prop :=
  ∀ body, .replied .collect (.ok body) ∈ trace →
    ∀ selected ∈ trace, ∀ workerUrl, urlIn .regular selected = some workerUrl →
    ∀ sent ∈ trace, ∀ request, requestTo .regular sent = some request →
    request.method = parts.method ∧
      crates.parseUrl (trimEndMatches workerUrl '/' ++ parts.pathAndQuery) = .ok request.url ∧
      request.headers = parts.headers.remove "host" ∧ request.body = body

section Regular

variable {crates : Crates} {parts : Parts} {body : ByteArray} {trace : Programs.Trace router}

theorem Knows.regular_unsent {workerUrl : Option String}
    (h : Knows .regular body workerUrl none trace) : RegularForwarded crates parts trace := by
  intro body hbody selected hselected url hurl sent hsent request hrequest
  cases h.requests sent hsent request hrequest

theorem Knows.regular_sent {workerUrl : String} {target : Url}
    (htarget : crates.parseUrl (trimEndMatches workerUrl '/' ++ parts.pathAndQuery) = .ok target)
    (h : Knows .regular body (some workerUrl)
      (some ⟨parts.method, target, parts.headers.remove "host", body⟩) trace) :
    RegularForwarded crates parts trace := by
  intro other hbody selected hselected url hurl sent hsent request hrequest
  cases h.bodies _ hbody other rfl
  cases h.urls selected hselected url hurl
  cases h.requests sent hsent request hrequest
  exact ⟨rfl, htarget, rfl, rfl⟩

theorem wp_proxyHandler_forwarded (crates : Crates) (parts : Parts) :
    Programs.wp (Programs.historySpec fun trace (_ : Option (Response WorkerId)) =>
        RegularForwarded crates parts trace) (proxyHandler crates parts)
      (fun _ trace _ => RegularForwarded crates parts trace) [] [] := by
  have hnone : ∀ event : Programs.Event router, requestTo .regular event = none →
      RegularForwarded crates parts [event] := by
    intro event hquiet body hbody selected hselected url hurl sent hsent request hrequest
    rw [List.mem_singleton.mp hsent, hquiet] at hrequest
    cases hrequest
  unfold proxyHandler
  rw [wp_collect_bind]
  refine ⟨hnone _ rfl, fun reply => ?_⟩
  cases reply with
  | error e => exact hnone _ rfl
  | ok body =>
      dsimp only
      split
      · exact hnone _ rfl
      have h := knows_of_collected .regular body
      split
      · exact (h.pass _).regular_unsent
      rename_i ctx _
      rw [wp_next_bind]
      refine ⟨trivial, (h.pass _).regular_unsent, fun selected => ?_⟩
      cases selected with
      | none => exact (h.pass _).regular_unsent
      | some entry =>
          obtain ⟨i, url⟩ := entry
          have hselected := h.select ctx i url
          dsimp only
          rw [wp_activeRequest_bind]
          split
          · exact hselected.regular_unsent
          rename_i target htarget
          rw [wp_send_bind]
          refine ⟨(hselected.send _ rfl rfl rfl).regular_sent htarget, fun reply => ?_⟩
          cases reply with
          | error e => exact (hselected.send _ rfl rfl rfl).regular_sent htarget
          | ok workerResp =>
              have hsent := hselected.send (.replied (.send .regular ⟨parts.method, target,
                parts.headers.remove "host", body⟩) (.ok workerResp)) rfl rfl rfl
              dsimp only
              rw [wp_record_bind]
              refine ⟨trivial, (hsent.pass _).regular_sent htarget, fun _ => ?_⟩
              have hrecorded := hsent.pass (.ran (.record .regular ctx i) ())
              split
              · exact hrecorded.regular_sent htarget
              · exact hrecorded.regular_sent htarget

theorem regularForwarded_of_leaves {outcome : Option (Response WorkerId)}
    (h : Programs.Leaves (pdProxyHandler crates none parts) trace outcome) :
    RegularForwarded crates parts trace := by
  refine (Programs.wp_historySpec_iff
    (P := fun trace _ => RegularForwarded crates parts trace)).mp ?_ trace outcome h
  unfold pdProxyHandler
  rw [Programs.wp_bind]
  refine Programs.wp_mono (fun result trace deferred h => ?_) (wp_proxyHandler_forwarded crates parts)
  cases result <;> exact h

end Regular

end RequestLine

end TokenDog
