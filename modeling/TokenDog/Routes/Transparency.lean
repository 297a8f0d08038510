import TokenDog.Routes.Framing
import TokenDog.Lib.Histories
import Mathlib

/-!
# What the client sees of the decode worker's answer

Both handlers end with the same tail, written twice. Where the client asks for logprobs and the
decode worker's body is no JSON, one passes the answer on and the other makes up a 502.
-/

namespace TokenDog

namespace Transparency

def bodyRead (pool : Pool) : Programs.Event router → Option (WorkerResponse × ByteArray)
  | .replied (.bytes other response) (.ok bytes) => if other = pool then some (response, bytes) else none
  | _ => none

abbrev AsksLogprobs (requestJson : Value) : Prop := (detectStreamingInfo requestJson).needsLogprobs = true

/-- The client gets the decode worker's status, and its body if that is no JSON or no logprobs were
asked for. -/
def Transparent (crates : Crates) (requestJson : Value) (decodeResp : WorkerResponse)
    (decodeBytes : ByteArray) (outcome : Option (Response WorkerId)) : Prop :=
  ∃ response, outcome = some response ∧ response.status = decodeResp.status ∧
    ((crates.fromSlice decodeBytes).isOk = false ∨ ¬AsksLogprobs requestJson →
      response.body = .bytes decodeBytes)

def Mergeable (crates : Crates) (trace : Programs.Trace router) (decodeJson : Value) : Prop :=
  ∀ event ∈ trace, ∀ prefillResp prefillBytes prefillJson,
    bodyRead .prefill event = some (prefillResp, prefillBytes) →
    crates.fromSlice prefillBytes = .ok prefillJson → ChoicesFit prefillJson decodeJson

/-- When the answer passes: no logprobs were asked for, or it is JSON they can be merged into, or it
is none and the mode is SGLang, or it is what the vLLM handler says about a body that is no JSON. -/
def Passes (crates : Crates) (mode : PdMode) (requestJson : Value) (decodeResp : WorkerResponse)
    (decodeBytes : ByteArray) (trace : Programs.Trace router) : Prop :=
  AsksLogprobs requestJson →
    match crates.fromSlice decodeBytes with
    | .ok decodeJson => Mergeable crates trace decodeJson
    | .error message => mode = .sglang ∨ decodeResp.status = 502 ∧
        decodeBytes = ("Failed to parse decode response JSON: " ++ message).toUTF8

def forwardedHeaders (decodeResp : WorkerResponse) : Headers :=
  (filterHopByHop decodeResp.headers).filter fun header => header.1 != "content-length"

/-- A complete answer to a non-streaming request is transparent exactly if it passes. The head of
the answer is one that a response can be built with. -/
def AnswersAs (crates : Crates) (mode : PdMode) (trace : Programs.Trace router)
    (outcome : Option (Response WorkerId)) : Prop :=
  ∀ body requestJson, .replied .collect (.ok body) ∈ trace → crates.fromSlice body = .ok requestJson →
    (detectStreamingInfo requestJson).isStreaming = false →
    ∀ event ∈ trace, ∀ decodeResp decodeBytes, bodyRead .decode event = some (decodeResp, decodeBytes) →
    crates.builderError decodeResp.status (forwardedHeaders decodeResp) = none →
    (Transparent crates requestJson decodeResp decodeBytes outcome ↔
      Passes crates mode requestJson decodeResp decodeBytes trace)

/-- The bodies of the request and of the two responses, as far as the history goes. -/
structure Reads (body : ByteArray) (prefill decode : Option (WorkerResponse × ByteArray))
    (trace : Programs.Trace router) : Prop where
  bodies : Programs.Tells collected (some body) trace
  prefills : Programs.Tells (bodyRead .prefill) prefill trace
  decodes : Programs.Tells (bodyRead .decode) decode trace
  prefill_mem : ∀ read, prefill = some read → ∃ event ∈ trace, bodyRead .prefill event = some read

section Reads

variable {body : ByteArray} {prefill decode : Option (WorkerResponse × ByteArray)}
  {trace : Programs.Trace router}

theorem reads_of_collected (body : ByteArray) : Reads body none none [.replied .collect (.ok body)] where
  bodies := (Programs.tells_nil none).learn rfl
  prefills := (Programs.tells_nil none).pass rfl
  decodes := (Programs.tells_nil none).pass rfl
  prefill_mem := nofun

theorem Reads.prefill_mem_cons (h : Reads body prefill decode trace) (event : Programs.Event router)
    (read : WorkerResponse × ByteArray) (hread : prefill = some read) :
    ∃ other ∈ event :: trace, bodyRead .prefill other = some read := by
  obtain ⟨other, hmem, hother⟩ := h.prefill_mem read hread
  exact ⟨other, List.mem_cons_of_mem _ hmem, hother⟩

theorem Reads.pass (h : Reads body prefill decode trace) (event : Programs.Event router)
    (hbody : collected event = none := by rfl)
    (hread : ∀ pool, bodyRead pool event = none := by exact fun _ => rfl) :
    Reads body prefill decode (event :: trace) where
  bodies := h.bodies.pass hbody
  prefills := h.prefills.pass (hread _)
  decodes := h.decodes.pass (hread _)
  prefill_mem := h.prefill_mem_cons event

theorem Reads.cons_prefill (h : Reads body none decode trace) (response : WorkerResponse)
    (bytes : ByteArray) : Reads body (some (response, bytes)) decode
      (.replied (.bytes .prefill response) (.ok bytes) :: trace) where
  bodies := h.bodies.pass rfl
  prefills := h.prefills.learn rfl
  decodes := h.decodes.pass rfl
  prefill_mem _ hread := ⟨_, List.mem_cons_self, hread⟩

theorem Reads.cons_decode (h : Reads body prefill none trace) (response : WorkerResponse)
    (bytes : ByteArray) : Reads body prefill (some (response, bytes))
      (.replied (.bytes .decode response) (.ok bytes) :: trace) where
  bodies := h.bodies.pass rfl
  prefills := h.prefills.pass rfl
  decodes := h.decodes.learn rfl
  prefill_mem := h.prefill_mem_cons _

variable {crates : Crates} {mode : PdMode} {outcome : Option (Response WorkerId)}

theorem Reads.unread (h : Reads body prefill none trace) : AnswersAs crates mode trace outcome := by
  intro other requestJson hbody hjson hstreaming event hmem decodeResp decodeBytes hread
  cases h.decodes event hmem _ hread

/-- With the answer read, what is left to show is about this answer. -/
theorem Reads.answersAs {requestJson : Value} (hjson : crates.fromSlice body = .ok requestJson)
    {decodeResp : WorkerResponse} {decodeBytes : ByteArray}
    (h : Reads body prefill (some (decodeResp, decodeBytes)) trace)
    (hanswer : crates.builderError decodeResp.status (forwardedHeaders decodeResp) = none →
      (Transparent crates requestJson decodeResp decodeBytes outcome ↔
        Passes crates mode requestJson decodeResp decodeBytes trace)) :
    AnswersAs crates mode trace outcome := by
  intro other otherJson hbody hotherJson hstreaming event hmem otherResp otherBytes hread hbuilds
  cases h.bodies _ hbody other rfl
  cases hjson.symm.trans hotherJson
  cases h.decodes event hmem _ hread
  exact hanswer hbuilds

/-- The one prefill response that was read is the one that has to merge. -/
theorem Reads.mergeable_iff {decode : Option (WorkerResponse × ByteArray)}
    (h : Reads body prefill decode trace) (decodeJson : Value) :
    Mergeable crates trace decodeJson ↔ ∀ prefillJson,
      (prefill.bind fun read => (crates.fromSlice read.2).toOption) = some prefillJson →
      ChoicesFit prefillJson decodeJson := by
  constructor
  · intro hmergeable prefillJson hprefill
    obtain ⟨⟨response, bytes⟩, hread, hjson⟩ := Option.bind_eq_some_iff.mp hprefill
    obtain ⟨event, hmem, hevent⟩ := h.prefill_mem _ hread
    refine hmergeable event hmem response bytes prefillJson hevent ?_
    cases hparsed : crates.fromSlice bytes <;> simp_all [Except.toOption]
  · intro hall event hmem response bytes prefillJson hread hjson
    refine hall prefillJson ?_
    rw [h.prefills event hmem _ hread, Option.bind_some, hjson]
    rfl

end Reads

/-! ### The stages -/

/-- The rest of a stage answers as the decode worker did. -/
abbrev Answers (crates : Crates) (mode : PdMode) (program : Handler PdResult)
    (trace : Programs.Trace router) : Prop :=
  Programs.wp (Programs.historySpec (AnswersAs crates mode)) program
    (fun result => Programs.historyPost (AnswersAs crates mode) (answerOf result)) trace []

section Responses

variable {crates : Crates} {mode : PdMode} {body : ByteArray} {requestJson : Value}
  {prefill : Option (WorkerResponse × ByteArray)} {decodeResp : WorkerResponse}
  {decodeBytes : ByteArray} {trace : Programs.Trace router}

theorem answersAs_buildResponse (hjson : crates.fromSlice body = .ok requestJson)
    (h : Reads body prefill (some (decodeResp, decodeBytes)) trace) {bytes : ByteArray}
    (hbytes : (crates.fromSlice decodeBytes).isOk = false ∨ ¬AsksLogprobs requestJson →
      bytes = decodeBytes)
    (hpasses : Passes crates mode requestJson decodeResp decodeBytes trace) :
    AnswersAs crates mode trace (some (answerOf (buildResponse crates decodeResp.status
      (filterHopByHop decodeResp.headers) (.bytes bytes)))) := by
  refine h.answersAs hjson fun hbuilds => iff_of_true ?_ hpasses
  unfold forwardedHeaders at hbuilds
  unfold buildResponse
  dsimp only
  rw [hbuilds]
  exact ⟨_, rfl, rfl, fun hplain => congrArg Body.bytes (hbytes hplain)⟩

theorem answersAs_panic (hjson : crates.fromSlice body = .ok requestJson)
    (h : Reads body prefill (some (decodeResp, decodeBytes)) trace)
    (hasks : AsksLogprobs requestJson) {decodeJson prefillJson : Value}
    (hdecode : crates.fromSlice decodeBytes = .ok decodeJson)
    (hprefill : (prefill.bind fun read => (crates.fromSlice read.2).toOption) = some prefillJson)
    {panic : Panic} (hmerge : mergeLogprobsInJson prefillJson decodeJson = .error panic) :
    AnswersAs crates mode (.panicked none :: trace) none := by
  have hpanicked := h.pass (.panicked none)
  refine hpanicked.answersAs hjson fun _ => iff_of_false ?_ fun hpasses => ?_
  · rintro ⟨response, hnone, -⟩
    cases hnone
  have hmergeable := hpasses hasks
  rw [hdecode] at hmergeable
  obtain ⟨merged, hok⟩ := (exists_mergeLogprobsInJson_iff _ _).mpr
    ((hpanicked.mergeable_iff decodeJson).mp hmergeable prefillJson hprefill)
  cases hmerge.symm.trans hok

theorem answersAs_merged (hjson : crates.fromSlice body = .ok requestJson)
    (h : Reads body prefill (some (decodeResp, decodeBytes)) trace)
    (hasks : AsksLogprobs requestJson) {decodeJson : Value}
    (hdecode : crates.fromSlice decodeBytes = .ok decodeJson)
    (hfits : ∀ prefillJson,
      (prefill.bind fun read => (crates.fromSlice read.2).toOption) = some prefillJson →
      ChoicesFit prefillJson decodeJson) (bytes : ByteArray) :
    AnswersAs crates mode trace (some (answerOf (buildResponse crates decodeResp.status
      (filterHopByHop decodeResp.headers) (.bytes bytes)))) := by
  refine answersAs_buildResponse hjson h (fun hplain => ?_) fun _ => ?_
  · rw [hdecode] at hplain
    exact (hplain.elim nofun fun hasksNot => hasksNot hasks).elim
  · rw [hdecode]
    exact (h.mergeable_iff decodeJson).mpr hfits

/-- Either mode answers with the merged responses, or not at all. -/
theorem answers_merge (hjson : crates.fromSlice body = .ok requestJson)
    (h : Reads body prefill (some (decodeResp, decodeBytes)) trace)
    (hasks : AsksLogprobs requestJson) {decodeJson prefillJson : Value}
    (hdecode : crates.fromSlice decodeBytes = .ok decodeJson)
    (hprefill : (prefill.bind fun read => (crates.fromSlice read.2).toOption) = some prefillJson) :
    Answers crates mode
      (match mergeLogprobsInJson prefillJson decodeJson with
        | .error _ => .panic
        | .ok (_, merged) => do
            return buildResponse crates decodeResp.status (filterHopByHop decodeResp.headers)
              (.bytes merged.toVec)) trace := by
  cases hmerge : mergeLogprobsInJson prefillJson decodeJson with
  | error panic => exact answersAs_panic hjson h hasks hdecode hprefill hmerge
  | ok merged =>
      refine answersAs_merged hjson h hasks hdecode (fun other hother => ?_) _
      cases hprefill.symm.trans hother
      exact (exists_mergeLogprobsInJson_iff _ _).mp ⟨merged, hmerge⟩

theorem answers_vllmResponse (hjson : crates.fromSlice body = .ok requestJson)
    {prefillJson : Value}
    (hprefill : (prefill.bind fun read => (crates.fromSlice read.2).toOption) = some prefillJson)
    (h : Reads body prefill (some (decodeResp, decodeBytes)) trace) :
    Answers crates .vllm (vllmResponse crates (detectStreamingInfo requestJson) prefillJson
      decodeResp.status (filterHopByHop decodeResp.headers) decodeBytes) trace := by
  unfold vllmResponse
  by_cases hasks : AsksLogprobs requestJson
  · rw [if_pos hasks]
    cases hdecode : crates.fromSlice decodeBytes with
    | error message =>
        -- the answer is made up, and transparent only if the worker said just the same
        refine h.answersAs hjson fun _ => ⟨?_, fun hpasses => ?_⟩
        · rintro ⟨response, hresponse, hstatus, hbytes⟩ -
          cases hresponse
          rw [hdecode]
          exact Or.inr ⟨hstatus.symm, (Body.bytes.inj (hbytes (Or.inl (by rw [hdecode]; rfl)))).symm⟩
        · have hcases := hpasses hasks
          rw [hdecode] at hcases
          obtain hmode | ⟨hstatus, hbytes⟩ := hcases
          · cases hmode
          · exact ⟨_, rfl, hstatus.symm, fun _ => congrArg Body.bytes hbytes.symm⟩
    | ok decodeJson => exact answers_merge hjson h hasks hdecode hprefill
  · rw [if_neg hasks]
    exact answersAs_buildResponse hjson h (fun _ => rfl) fun hasked => (hasks hasked).elim

theorem answers_sglangResponse (hjson : crates.fromSlice body = .ok requestJson)
    {prefillJson : Option Value}
    (hprefill : (prefill.bind fun read => (crates.fromSlice read.2).toOption) = prefillJson)
    (h : Reads body prefill (some (decodeResp, decodeBytes)) trace) :
    Answers crates .sglang (sglangResponse crates (detectStreamingInfo requestJson) prefillJson
      decodeResp.status (filterHopByHop decodeResp.headers) decodeBytes) trace := by
  unfold sglangResponse
  by_cases hasks : AsksLogprobs requestJson
  · rw [if_pos hasks]
    cases hdecode : crates.fromSlice decodeBytes with
    | error message =>
        refine answersAs_buildResponse hjson h (fun _ => rfl) fun _ => ?_
        rw [hdecode]
        exact Or.inl rfl
    | ok decodeJson =>
        cases prefillJson with
        | none =>
            refine answersAs_merged hjson h hasks hdecode (fun other hother => ?_) _
            cases hprefill.symm.trans hother
        | some prefillJson => exact answers_merge hjson h hasks hdecode hprefill
  · rw [if_neg hasks]
    exact answersAs_buildResponse hjson h (fun _ => rfl) fun hasked => (hasks hasked).elim

end Responses

section Stages

variable {crates : Crates} {parts : Parts} {body : ByteArray} {requestJson : Value}
  {trace : Programs.Trace router}

theorem Reads.answers_finish {mode : PdMode} {prefill : Option (WorkerResponse × ByteArray)}
    (h : Reads body prefill none trace) {pool : Pool} {ctx : RequestContext} {i : Nat}
    {next : Handler PdResult}
    (hnext : ∀ {trace}, Reads body prefill none trace → Answers crates mode next trace) :
    Answers crates mode
      (Handler.finish pool i >>= fun _ => Handler.record pool ctx i >>= fun _ => next) trace := by
  rw [Answers, wp_finish_bind]
  refine ⟨trivial, (h.pass _).unread, fun _ => ?_⟩
  have hfinished := h.pass (.ran (.finish pool i) ())
  rw [wp_record_bind]
  exact ⟨trivial, (hfinished.pass _).unread, fun _ => hnext (hfinished.pass _)⟩

theorem Reads.answers_bytes {mode : PdMode} {prefill : Option (WorkerResponse × ByteArray)}
    (h : Reads body prefill none trace) {decodeResp : WorkerResponse}
    {next : ByteArray → Handler PdResult}
    (hnext : ∀ decodeBytes {trace}, Reads body prefill (some (decodeResp, decodeBytes)) trace →
      Answers crates mode (next decodeBytes) trace) :
    Answers crates mode (do
      match ← Handler.bytes .decode decodeResp with
      | .error e => return .error (.decodeResponse e.text)
      | .ok decodeBytes => next decodeBytes) trace := by
  rw [Answers, wp_bytes_bind]
  refine ⟨(h.pass _).unread, fun reply => ?_⟩
  cases reply with
  | error e => exact (h.pass _).unread
  | ok decodeBytes => exact hnext decodeBytes (h.cons_decode decodeResp decodeBytes)

theorem answers_vllmDecode (hjson : crates.fromSlice body = .ok requestJson) (ctx : RequestContext)
    {prefill : Option (WorkerResponse × ByteArray)} {prefillJson : Value}
    (hprefill : (prefill.bind fun read => (crates.fromSlice read.2).toOption) = some prefillJson)
    (h : Reads body prefill none trace) :
    Answers crates .vllm
      (vllmDecode crates parts.path requestJson ctx parts.headers prefillJson) trace := by
  unfold vllmDecode
  rw [Answers, wp_next_bind]
  refine ⟨trivial, (h.pass _).unread, fun selected => ?_⟩
  have hselected := h.pass (.ran (.next .decode ctx) selected)
  cases selected with
  | none => exact hselected.unread
  | some entry =>
      obtain ⟨decodeIdx, decodeUrl⟩ := entry
      dsimp only
      split
      · exact hselected.unread
      rw [wp_send_bind]
      refine ⟨(hselected.pass _).unread, fun reply => ?_⟩
      cases reply with
      | error e => exact (hselected.pass _).unread
      | ok decodeResp =>
          apply (hselected.pass _).answers_finish
          intro trace hfinished
          split
          · exact hfinished.unread
          apply hfinished.answers_bytes
          intro decodeBytes trace hread
          exact answers_vllmResponse hjson hprefill hread

theorem answers_vllmPrefillCompletion (hjson : crates.fromSlice body = .ok requestJson)
    (ctx : RequestContext) (prefillIdx : Nat) (prefillResp : WorkerResponse)
    (h : Reads body none none trace) :
    Answers crates .vllm (vllmPrefillCompletion crates parts.path requestJson ctx parts.headers
      prefillIdx prefillResp) trace := by
  unfold vllmPrefillCompletion
  split
  · rw [Answers, wp_finish_bind]
    refine ⟨trivial, (h.pass _).unread, fun _ => ?_⟩
    have hfinished := h.pass (.ran (.finish .prefill prefillIdx) ())
    rw [wp_text_bind]
    exact ⟨(hfinished.pass _).unread, fun text => (hfinished.pass _).unread⟩
  · rw [Answers, wp_bytes_bind]
    refine ⟨(h.pass _).unread, fun reply => ?_⟩
    cases reply with
    | error e => exact (h.pass _).unread
    | ok prefillBytes =>
        have hread := h.cons_prefill prefillResp prefillBytes
        dsimp only
        split
        · exact hread.unread
        rename_i prefillJson hprefill
        apply hread.answers_finish
        intro trace hfinished
        refine answers_vllmDecode hjson ctx ?_ hfinished
        rw [Option.bind_some, hprefill]
        rfl

theorem answers_processVllmPdRequest (hjson : crates.fromSlice body = .ok requestJson)
    (ctx : RequestContext) (h : Reads body none none trace) :
    Answers crates .vllm
      (processVllmPdRequest crates parts.path requestJson ctx parts.headers) trace := by
  unfold processVllmPdRequest
  rw [Answers, wp_next_bind]
  refine ⟨trivial, (h.pass _).unread, fun selected => ?_⟩
  have hselected := h.pass (.ran (.next .prefill ctx) selected)
  cases selected with
  | none => exact hselected.unread
  | some entry =>
      obtain ⟨prefillIdx, prefillUrl⟩ := entry
      dsimp only
      split
      · exact (hselected.pass _).unread
      split
      · exact hselected.unread
      rw [wp_send_bind]
      refine ⟨(hselected.pass _).unread, fun reply => ?_⟩
      cases reply with
      | error e => exact (hselected.pass _).unread
      | ok prefillResp =>
          exact answers_vllmPrefillCompletion hjson ctx prefillIdx prefillResp
            (hselected.pass _)

/-- What the handler keeps of the prefill response is what it has read of it. -/
theorem wp_sglangPrefillJson_reads {requestJson : Value} (prefillResp : WorkerResponse)
    (h : Reads body none none trace) :
    Programs.wp (Programs.historySpec (AnswersAs crates .sglang))
      (sglangPrefillJson crates (detectStreamingInfo requestJson) prefillResp)
      (fun prefillJson trace deferred => deferred = [] ∧ ∃ prefill,
        (prefill.bind fun read => (crates.fromSlice read.2).toOption) = prefillJson ∧
        Reads body prefill none trace) trace [] := by
  unfold sglangPrefillJson
  split
  · rw [wp_bytes_bind]
    refine ⟨(h.pass _).unread, fun reply => ?_⟩
    cases reply with
    | error e => exact ⟨rfl, none, rfl, h.pass _⟩
    | ok bytes => exact ⟨rfl, some (prefillResp, bytes), rfl, h.cons_prefill prefillResp bytes⟩
  · exact ⟨rfl, none, rfl, h⟩

theorem answers_sglangCompletion (hjson : crates.fromSlice body = .ok requestJson)
    (ctx : RequestContext) (prefillIdx decodeIdx : Nat) (prefillResp decodeResp : WorkerResponse)
    (h : Reads body none none trace) :
    Answers crates .sglang (sglangCompletion crates ctx (detectStreamingInfo requestJson) prefillIdx
      decodeIdx prefillResp decodeResp) trace := by
  unfold sglangCompletion
  apply h.answers_finish
  intro trace hprefill
  apply hprefill.answers_finish
  intro trace hdecode
  refine (Programs.wp_bind _ _).mpr (Programs.wp_mono ?_
    (wp_sglangPrefillJson_reads prefillResp hdecode))
  rintro prefillJson trace deferred ⟨rfl, prefill, hprefillJson, hread⟩
  split
  · exact hread.unread
  apply hread.answers_bytes
  intro decodeBytes trace hbody
  exact answers_sglangResponse hjson hprefillJson hbody

theorem answers_processSglangPdRequest (hjson : crates.fromSlice body = .ok requestJson)
    (ctx : RequestContext) (h : Reads body none none trace) :
    Answers crates .sglang
      (processSglangPdRequest crates parts.path requestJson ctx parts.headers) trace := by
  unfold processSglangPdRequest
  rw [Answers, wp_next_bind]
  refine ⟨trivial, (h.pass _).unread, fun selected => ?_⟩
  have hprefill := h.pass (.ran (.next .prefill ctx) selected)
  cases selected with
  | none => exact hprefill.unread
  | some entry =>
      obtain ⟨prefillIdx, prefillUrl⟩ := entry
      dsimp only
      rw [wp_next_bind]
      refine ⟨trivial, (hprefill.pass _).unread, fun selected => ?_⟩
      have hdecode := hprefill.pass (.ran (.next .decode ctx) selected)
      cases selected with
      | none => exact hdecode.unread
      | some entry =>
          obtain ⟨decodeIdx, decodeUrl⟩ := entry
          dsimp only
          rw [wp_random_bind]
          refine ⟨trivial, (hdecode.pass _).unread, fun draw => ?_⟩
          have hdrawn := hdecode.pass (.ran .random draw)
          split
          · exact (hdrawn.pass (.panicked none)).unread
          split
          · exact hdrawn.unread
          split
          · exact hdrawn.unread
          rw [wp_sendBoth_bind]
          refine ⟨(hdrawn.pass _).unread, fun reply => ?_⟩
          cases reply with
          | error e => exact (hdrawn.pass _).unread
          | ok responses =>
              obtain ⟨prefillResp, decodeResp⟩ := responses
              exact answers_sglangCompletion hjson ctx prefillIdx decodeIdx prefillResp decodeResp
                (hdrawn.pass _)

end Stages

theorem answersAs_of_leaves {crates : Crates} (mode : PdMode) {parts : Parts}
    (hpath : isInferencePath parts.path = true) {trace : Programs.Trace router}
    {outcome : Option (Response WorkerId)}
    (h : Programs.Leaves (pdProxyHandler crates (some mode) parts) trace outcome) :
    AnswersAs crates mode trace outcome := by
  have hquiet : ∀ (event : Programs.Event router) outcome, bodyRead .decode event = none →
      AnswersAs crates mode [event] outcome := by
    intro event outcome hnone body requestJson hbody hjson hstreaming other hmem decodeResp
      decodeBytes hread
    rw [List.mem_singleton.mp hmem, hnone] at hread
    cases hread
  refine Programs.wp_historySpec_iff.mp ?_ trace outcome h
  refine wp_pdProxyHandler mode hpath (hquiet _ _ rfl) (fun _ _ => hquiet _ _ rfl) ?_
  intro body requestJson ctx hjson
  cases mode with
  | vllm => exact answers_processVllmPdRequest hjson ctx (reads_of_collected body)
  | sglang => exact answers_processSglangPdRequest hjson ctx (reads_of_collected body)

/-- The client sees the decode worker's answer to a non-streaming request exactly if it passes. -/
theorem transparent_iff {crates : Crates} {mode : PdMode} {parts : Parts}
    (hpath : isInferencePath parts.path = true) {trace : Programs.Trace router}
    {outcome : Option (Response WorkerId)}
    (hleaves : Programs.Leaves (pdProxyHandler crates (some mode) parts) trace outcome)
    {body : ByteArray} {requestJson : Value} (hbody : .replied .collect (.ok body) ∈ trace)
    (hjson : crates.fromSlice body = .ok requestJson)
    (hstreaming : (detectStreamingInfo requestJson).isStreaming = false)
    {event : Programs.Event router} (hmem : event ∈ trace) {decodeResp : WorkerResponse}
    {decodeBytes : ByteArray} (hread : bodyRead .decode event = some (decodeResp, decodeBytes))
    (hbuilds : crates.builderError decodeResp.status (forwardedHeaders decodeResp) = none) :
    Transparent crates requestJson decodeResp decodeBytes outcome ↔
      Passes crates mode requestJson decodeResp decodeBytes trace :=
  answersAs_of_leaves mode hpath hleaves body requestJson hbody hjson hstreaming event hmem
    decodeResp decodeBytes hread hbuilds

theorem exists_vllm_history {crates : Crates} {parts : Parts} (hpath : isInferencePath parts.path = true)
    {body : ByteArray} {requestJson : Value} (hsize : body.size ≤ maxBodySize)
    (hjson : crates.fromSlice body = .ok requestJson) (hpatchable : patchable requestJson parts.path = true)
    (hstreaming : (detectStreamingInfo requestJson).isStreaming = false) {url : String} {target : Url}
    (htarget : buildTargetUrl crates url parts.path = .ok target) {prefillBytes : ByteArray}
    {prefillJson : Value} (hprefill : crates.fromSlice prefillBytes = .ok prefillJson)
    (decodeResp : WorkerResponse) (decodeBytes : ByteArray) :
    ∃ trace outcome, Programs.Leaves (pdProxyHandler crates (some .vllm) parts) trace outcome ∧
      .replied .collect (.ok body) ∈ trace ∧
      .replied (.bytes .decode decodeResp) (.ok decodeBytes) ∈ trace := by
  have hall := Programs.wp_historySpec_iff.mpr fun trace outcome
    (h : Programs.Leaves (pdProxyHandler crates (some .vllm) parts) trace outcome) => h
  obtain ⟨ctx, hstages⟩ := of_wp_pdProxyHandler .vllm hpath hall hsize hjson
  unfold processPd processVllmPdRequest at hstages
  rw [wp_next_bind] at hstages
  have hselected := hstages.2.2 (some (0, url))
  obtain ⟨prefillRequest, hrequest⟩ := exists_vllmPrefillRequest hpatchable
  dsimp only at hselected
  rw [hrequest, htarget] at hselected
  dsimp only at hselected
  rw [wp_send_bind] at hselected
  have hsent := hselected.2 (.ok ⟨200, []⟩)
  dsimp only at hsent
  unfold vllmPrefillCompletion at hsent
  rw [if_neg (by decide), wp_bytes_bind] at hsent
  have hread := hsent.2 (.ok prefillBytes)
  dsimp only at hread
  rw [hprefill] at hread
  dsimp only at hread
  rw [wp_finish_bind] at hread
  have hfinished := hread.2.2 ()
  rw [wp_record_bind] at hfinished
  have hrecorded := hfinished.2.2 ()
  unfold vllmDecode at hrecorded
  rw [wp_next_bind] at hrecorded
  have hdecode := hrecorded.2.2 (some (0, url))
  dsimp only at hdecode
  rw [htarget] at hdecode
  dsimp only at hdecode
  rw [wp_send_bind] at hdecode
  have hanswered := hdecode.2 (.ok decodeResp)
  dsimp only at hanswered
  rw [wp_finish_bind] at hanswered
  have hdecodeFinished := hanswered.2.2 ()
  rw [wp_record_bind] at hdecodeFinished
  have hdecodeRecorded := hdecodeFinished.2.2 ()
  rw [hstreaming, if_neg Bool.false_ne_true, wp_bytes_bind] at hdecodeRecorded
  obtain ⟨events, outcome, hends⟩ := Programs.exists_of_wp
    (fun result trace _ hpost => ⟨some (answerOf result), hpost⟩) (hdecodeRecorded.2 (.ok decodeBytes))
  exact ⟨_, outcome, hends, by simp, by simp⟩

def echoRequest : Value := .object [("echo", .bool true)]

def twoDocuments : Crates where
  parseUrl text := .ok ⟨text, none, none⟩
  fromSlice bytes :=
    match [echoRequest, Value.object []].find? fun value => value.toVec = bytes with
    | some value => .ok value
    | none => .error "expected value at line 1 column 1"
  builderError _ _ := none

theorem fromSlice_echoRequest : twoDocuments.fromSlice echoRequest.toVec = .ok echoRequest := by rfl

theorem fromSlice_empty : twoDocuments.fromSlice (Value.object []).toVec = .ok (.object []) := by rfl

def errorPage : ByteArray := "Internal Server Error".toUTF8

theorem fromSlice_errorPage :
    twoDocuments.fromSlice errorPage = .error "expected value at line 1 column 1" := by rfl

theorem patchable_echoRequest (path : String) : patchable echoRequest path = true := by
  have hnone : echoRequest.get "sampling_params" = none := rfl
  rw [patchable, hnone]
  exact (Bool.and_eq_true _ _).mpr ⟨rfl, Bool.or_true _⟩

theorem buildTargetUrl_twoDocuments (path : String) :
    ∃ target, buildTargetUrl twoDocuments "http://d:8000" path = .ok target := ⟨_, rfl⟩

/-- The error page of a decode worker becomes a 502 in vLLM mode. -/
theorem not_transparent_of_error_page :
    ∃ trace outcome event,
      Programs.Leaves (pdProxyHandler twoDocuments (some .vllm) (Framing.postRequest [])) trace outcome ∧
        .replied .collect (.ok echoRequest.toVec) ∈ trace ∧
        twoDocuments.fromSlice echoRequest.toVec = .ok echoRequest ∧
        (detectStreamingInfo echoRequest).isStreaming = false ∧
        event ∈ trace ∧ bodyRead .decode event = some (⟨500, []⟩, errorPage) ∧
        ¬Transparent twoDocuments echoRequest ⟨500, []⟩ errorPage outcome := by
  have hpath := Framing.isInferencePath_postRequest []
  obtain ⟨target, htarget⟩ := buildTargetUrl_twoDocuments "/v1/completions"
  obtain ⟨trace, outcome, hleaves, hbody, hmem⟩ := exists_vllm_history hpath (by decide)
    fromSlice_echoRequest (patchable_echoRequest _) rfl htarget fromSlice_empty ⟨500, []⟩ errorPage
  refine ⟨trace, outcome, _, hleaves, hbody, fromSlice_echoRequest, rfl, hmem, rfl, ?_⟩
  rw [answersAs_of_leaves .vllm hpath hleaves _ _ hbody fromSlice_echoRequest rfl _ hmem _ _ rfl rfl]
  intro hpasses
  have hcases := hpasses rfl
  rw [fromSlice_errorPage] at hcases
  obtain hmode | ⟨hstatus, -⟩ := hcases
  · cases hmode
  · cases hstatus

/-- Without the echo it reaches the client. -/
theorem transparent_of_error_page :
    ∃ trace outcome,
      Programs.Leaves (pdProxyHandler twoDocuments (some .vllm) (Framing.postRequest [])) trace outcome ∧
        .replied (.bytes .decode ⟨500, []⟩) (.ok errorPage) ∈ trace ∧
        Transparent twoDocuments (.object []) ⟨500, []⟩ errorPage outcome := by
  have hpath := Framing.isInferencePath_postRequest []
  obtain ⟨target, htarget⟩ := buildTargetUrl_twoDocuments "/v1/completions"
  obtain ⟨trace, outcome, hleaves, hbody, hmem⟩ := exists_vllm_history hpath (by decide)
    fromSlice_empty (Framing.patchable_object_nil _) rfl htarget fromSlice_empty ⟨500, []⟩ errorPage
  refine ⟨trace, outcome, hleaves, hmem, ?_⟩
  exact (transparent_iff hpath hleaves hbody fromSlice_empty rfl hmem rfl rfl).mpr
    fun hasks => (Bool.false_ne_true hasks).elim

end Transparency

end TokenDog
