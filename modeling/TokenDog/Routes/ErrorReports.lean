import TokenDog.Routes.Framing
import TokenDog.Routes.Fallback
import TokenDog.Lib.Histories

/-!
# How failures of workers are reported

A failure of a call to a worker is an event of the history: a worker selected whose URL cannot be
parsed, or an error that a call is answered with. The regular handler turns it into a fixed text; the
pipeline puts what it knows of it into the response.
-/

namespace TokenDog

namespace ErrorReports

inductive WorkerFailure where
  | unparsableUrl
  | call (error : ReqwestError)

def WorkerFailure.status : WorkerFailure → Nat
  | .unparsableUrl => 502
  | .call error => if error.isTimeout then 504 else 502

/-- The target of the request to a worker. The pipeline leaves the query out. -/
def targetOf (crates : Crates) (pdMode : Option PdMode) (parts : Parts) (workerUrl : String) :
    Except String Url :=
  if pdMode.isSome && isInferencePath parts.path then buildTargetUrl crates workerUrl parts.path
  else crates.parseUrl (trimEndMatches workerUrl '/' ++ parts.pathAndQuery)

def callError : Programs.Event router → Option ReqwestError
  | .replied (.send _ _) (.error e) => some e
  | .replied (.sendBoth _ _) (.error e) => some e
  | .replied (.bytes _ _) (.error e) => some e
  | _ => none

def selectedUrl : Programs.Event router → Option String
  | .ran (.next _ _) (some (_, url)) => some url
  | _ => none

/-- The failure that an event is. -/
inductive Fails (crates : Crates) (pdMode : Option PdMode) (parts : Parts)
    (event : Programs.Event router) : WorkerFailure → Prop where
  | unparsableUrl {url message : String} (hurl : selectedUrl event = some url)
      (htarget : targetOf crates pdMode parts url = .error message) :
      Fails crates pdMode parts event .unparsableUrl
  | call {error : ReqwestError} (herror : callError event = some error) :
      Fails crates pdMode parts event (.call error)

/-- The same reply, or two errors of the same kind. -/
inductive AlikeReplies {α : Type} : Except ReqwestError α → Except ReqwestError α → Prop where
  | ok (value : α) : AlikeReplies (.ok value) (.ok value)
  | error {e e' : ReqwestError} (htimeout : e'.isTimeout = e.isTimeout)
      (hconnect : e'.isConnect = e.isConnect) : AlikeReplies (.error e) (.error e')

/-- Two events that differ in the URL of a worker, in the text of an error, or in what is sent. -/
inductive AlikeEvents : Programs.Event router → Programs.Event router → Prop where
  | same (event : Programs.Event router) : AlikeEvents event event
  | selected (pool : Pool) (ctx : RequestContext) (i : Nat) (url url' : String) :
      AlikeEvents (.ran (.next pool ctx) (some (i, url))) (.ran (.next pool ctx) (some (i, url')))
  | sent (pool : Pool) (request request' : Outgoing) {reply reply' : Except ReqwestError WorkerResponse}
      (h : AlikeReplies reply reply') :
      AlikeEvents (.replied (.send pool request) reply) (.replied (.send pool request') reply')
  | sentBoth (prefill decode prefill' decode' : Outgoing)
      {reply reply' : Except ReqwestError (WorkerResponse × WorkerResponse)}
      (h : AlikeReplies reply reply') :
      AlikeEvents (.replied (.sendBoth prefill decode) reply)
        (.replied (.sendBoth prefill' decode') reply')
  | read (pool : Pool) (response : WorkerResponse) {reply reply' : Except ReqwestError ByteArray}
      (h : AlikeReplies reply reply') :
      AlikeEvents (.replied (.bytes pool response) reply) (.replied (.bytes pool response) reply')
  | dropped (call call' : RouterCall) : AlikeEvents (.dropped call) (.dropped call')

/-- Every failure has its status, and two runs that differ only in URLs and error texts answer the
client alike. -/
structure Reports (crates : Crates) (pdMode : Option PdMode) (parts : Parts) : Prop where
  status : ∀ {trace outcome event failure},
    Programs.Leaves (pdProxyHandler crates pdMode parts) trace outcome → event ∈ trace →
    Fails crates pdMode parts event failure →
    ∃ response, outcome = some response ∧ response.status = failure.status
  uniform : ∀ {trace trace' outcome outcome' event failure},
    Programs.Leaves (pdProxyHandler crates pdMode parts) trace outcome →
    Programs.Leaves (pdProxyHandler crates pdMode parts) trace' outcome' →
    List.Forall₂ AlikeEvents trace trace' → event ∈ trace →
    Fails crates pdMode parts event failure → outcome' = outcome

/-- Whether an event comes behind the parsed target. -/
def isLater : Programs.Event router → Bool
  | .replied (.send _ _) _ => true
  | .dropped _ => true
  | .panicked _ => true
  | _ => false

/-- The histories of the regular handler, as far as they bear on failures. -/
structure RegularHistory (crates : Crates) (parts : Parts) (trace : Programs.Trace router)
    (outcome : Option (Response WorkerId)) : Prop where
  failed : ∀ event ∈ trace, ∀ error, callError event = some error →
    outcome = some (ProxyError.workerRequest error).intoResponse
  unparsable : ∀ event ∈ trace, ∀ url message, selectedUrl event = some url →
    targetOf crates none parts url = .error message →
    outcome = some (ProxyError.urlParse message).intoResponse ∧ ∀ event ∈ trace, isLater event = false
  parsable : ∀ event ∈ trace, ∀ url target, selectedUrl event = some url →
    targetOf crates none parts url = .ok target → ∃ event ∈ trace, isLater event = true

def regularAnswer : Except ProxyError (Response WorkerId) → Response WorkerId
  | .ok response => response
  | .error e => e.intoResponse

section Regular

variable {crates : Crates} {parts : Parts} {trace : Programs.Trace router}
  {outcome : Option (Response WorkerId)}

theorem RegularHistory.of_quiet (herrors : Programs.Tells callError none trace)
    (hurls : Programs.Tells selectedUrl none trace) : RegularHistory crates parts trace outcome where
  failed event hmem error herror := by cases herrors event hmem error herror
  unparsable event hmem url message hurl := by cases hurls event hmem url hurl
  parsable event hmem url target hurl := by cases hurls event hmem url hurl

theorem RegularHistory.of_target {url : String} {target : Url} {failure : Option ReqwestError}
    (htarget : targetOf crates none parts url = .ok target)
    (hurls : Programs.Tells selectedUrl (some url) trace)
    (hlater : ∃ event ∈ trace, isLater event = true)
    (herrors : Programs.Tells callError failure trace)
    (houtcome : ∀ error, failure = some error →
      outcome = some (ProxyError.workerRequest error).intoResponse) :
    RegularHistory crates parts trace outcome where
  failed event hmem error herror := houtcome error (herrors event hmem error herror)
  unparsable := by
    intro event hmem other message hurl hmessage
    cases hurls event hmem other hurl
    cases htarget.symm.trans hmessage
  parsable := fun _ _ _ _ _ _ => hlater

theorem RegularHistory.of_unparsable {url message : String}
    (htarget : targetOf crates none parts url = .error message)
    (hurls : Programs.Tells selectedUrl (some url) trace)
    (hlater : ∀ event ∈ trace, isLater event = false)
    (herrors : Programs.Tells callError none trace) :
    RegularHistory crates parts trace (some (ProxyError.urlParse message).intoResponse) where
  failed event hmem error herror := by cases herrors event hmem error herror
  unparsable event hmem other message' hurl hmessage := ⟨rfl, hlater⟩
  parsable := by
    intro event hmem other target hurl htarget'
    cases hurls event hmem other hurl
    cases htarget.symm.trans htarget'

theorem wp_proxyHandler_history (crates : Crates) (parts : Parts) :
    Programs.wp (Programs.historySpec (RegularHistory crates parts)) (proxyHandler crates parts)
      (fun result => Programs.historyPost (RegularHistory crates parts) (regularAnswer result)) [] [] := by
  have hnoError : Programs.Tells callError none ([] : Programs.Trace router) := Programs.tells_nil none
  have hnoUrl : Programs.Tells selectedUrl none ([] : Programs.Trace router) := Programs.tells_nil none
  unfold proxyHandler
  rw [wp_collect_bind]
  refine ⟨.of_quiet (hnoError.pass rfl) (hnoUrl.pass rfl), fun reply => ?_⟩
  have hcollected := hnoError.pass (show callError (.replied .collect reply) = none from rfl)
  have hunselected := hnoUrl.pass (show selectedUrl (.replied .collect reply) = none from rfl)
  cases reply with
  | error e => exact .of_quiet hcollected hunselected
  | ok body =>
      dsimp only
      split
      · exact .of_quiet hcollected hunselected
      obtain ⟨ctx, hctx⟩ := exists_extractContext crates body parts.headers
      rw [hctx]
      dsimp only
      rw [wp_next_bind]
      refine ⟨trivial, .of_quiet (hcollected.pass rfl) (hunselected.pass rfl), fun selected => ?_⟩
      cases selected with
      | none => exact .of_quiet (hcollected.pass rfl) (hunselected.pass rfl)
      | some entry =>
          obtain ⟨i, url⟩ := entry
          have herrors := hcollected.pass (show callError (.ran (.next .regular ctx) (some (i, url))) =
            none from rfl)
          have hurls := hunselected.learn (show selectedUrl (.ran (.next .regular ctx)
            (some (i, url))) = some url from rfl)
          dsimp only
          rw [wp_activeRequest_bind]
          split
          · rename_i htarget
            exact .of_unparsable htarget hurls (by simp [isLater]) herrors
          rename_i target htarget
          rw [wp_send_bind]
          refine ⟨.of_target htarget (hurls.pass rfl) ⟨_, List.mem_cons_self, rfl⟩
            (herrors.pass rfl) nofun, fun reply => ?_⟩
          cases reply with
          | error e =>
              refine .of_target htarget (hurls.pass rfl) ⟨_, List.mem_cons_self, rfl⟩
                (herrors.learn rfl) fun error herror => ?_
              cases herror
              rfl
          | ok workerResp =>
              dsimp only
              rw [wp_record_bind]
              refine ⟨trivial, .of_target htarget ((hurls.pass rfl).pass rfl)
                ⟨_, List.mem_cons_self, rfl⟩ ((herrors.pass rfl).pass rfl) nofun, fun _ => ?_⟩
              split <;> exact .of_target htarget ((hurls.pass rfl).pass rfl)
                ⟨_, List.mem_cons_of_mem _ List.mem_cons_self, rfl⟩ ((herrors.pass rfl).pass rfl) nofun

theorem regularHistory_of_leaves
    (h : Programs.Leaves (pdProxyHandler crates none parts) trace outcome) :
    RegularHistory crates parts trace outcome := by
  refine Programs.wp_historySpec_iff.mp ?_ trace outcome h
  unfold pdProxyHandler
  rw [Programs.wp_bind]
  refine Programs.wp_mono (fun result trace deferred h => ?_) (wp_proxyHandler_history crates parts)
  cases result <;> exact h

end Regular

theorem exists_mem_of_forall₂ {α : Type} {R : α → α → Prop} {xs ys : List α}
    (h : List.Forall₂ R xs ys) {x : α} (hx : x ∈ xs) : ∃ y ∈ ys, R x y := by
  induction h with
  | nil => exact (List.not_mem_nil hx).elim
  | cons hhead _ ih =>
      rcases List.mem_cons.mp hx with rfl | hx
      · exact ⟨_, List.mem_cons_self, hhead⟩
      · obtain ⟨y, hy, hR⟩ := ih hx
        exact ⟨y, List.mem_cons_of_mem _ hy, hR⟩

section Alike

variable {event event' : Programs.Event router}

theorem AlikeEvents.callError (h : AlikeEvents event event') {error : ReqwestError}
    (herror : callError event = some error) : ∃ error', ErrorReports.callError event' = some error' ∧
      error'.isTimeout = error.isTimeout ∧ error'.isConnect = error.isConnect := by
  cases h with
  | same => exact ⟨error, herror, rfl, rfl⟩
  | selected => cases herror
  | dropped => cases herror
  | sent pool request request' h | sentBoth _ _ _ _ h | read _ _ h =>
      cases h with
      | ok => cases herror
      | error htimeout hconnect =>
          cases herror
          exact ⟨_, rfl, htimeout, hconnect⟩

theorem AlikeEvents.selectedUrl (h : AlikeEvents event event') {url : String}
    (hurl : selectedUrl event = some url) : ∃ url', ErrorReports.selectedUrl event' = some url' := by
  cases h with
  | same => exact ⟨url, hurl⟩
  | selected => exact ⟨_, rfl⟩
  | dropped | sent | sentBoth | read => cases hurl

theorem AlikeEvents.symm (h : AlikeEvents event event') : AlikeEvents event' event := by
  have hreplies : ∀ {α : Type} {reply reply' : Except ReqwestError α}, AlikeReplies reply reply' →
      AlikeReplies reply' reply := by
    intro α reply reply' h
    cases h with
    | ok => exact .ok _
    | error htimeout hconnect => exact .error htimeout.symm hconnect.symm
  cases h with
  | same => exact .same _
  | selected => exact .selected _ _ _ _ _
  | sent _ _ _ h => exact .sent _ _ _ (hreplies h)
  | sentBoth _ _ _ _ h => exact .sentBoth _ _ _ _ (hreplies h)
  | read _ _ h => exact .read _ _ (hreplies h)
  | dropped => exact .dropped _ _

theorem AlikeEvents.isLater_eq (h : AlikeEvents event event') : isLater event = isLater event' := by
  cases h <;> rfl

end Alike

theorem intoResponse_workerRequest_congr {e e' : ReqwestError} (htimeout : e'.isTimeout = e.isTimeout)
    (hconnect : e'.isConnect = e.isConnect) :
    (ProxyError.workerRequest e').intoResponse = (ProxyError.workerRequest e).intoResponse := by
  simp only [ProxyError.intoResponse, ProxyError.statusAndMessage, htimeout, hconnect]

theorem reports_regular (crates : Crates) (parts : Parts) : Reports crates none parts where
  status := by
    intro trace outcome event failure hleaves hmem hfails
    have hhistory := regularHistory_of_leaves hleaves
    cases hfails with
    | unparsableUrl hurl htarget =>
        exact ⟨_, (hhistory.unparsable event hmem _ _ hurl htarget).1, rfl⟩
    | @call error herror =>
        refine ⟨_, hhistory.failed event hmem _ herror, ?_⟩
        simp only [ProxyError.intoResponse, ProxyError.statusAndMessage, WorkerFailure.status]
        split
        · rfl
        · split <;> rfl
  uniform := by
    intro trace trace' outcome outcome' event failure hleaves hleaves' halike hmem hfails
    have hhistory := regularHistory_of_leaves hleaves
    have hhistory' := regularHistory_of_leaves hleaves'
    obtain ⟨event', hmem', hevent⟩ := exists_mem_of_forall₂ halike hmem
    cases hfails with
    | @unparsableUrl url message hurl htarget =>
        obtain ⟨houtcome, hlater⟩ := hhistory.unparsable event hmem _ _ hurl htarget
        obtain ⟨url', hurl'⟩ := hevent.selectedUrl hurl
        cases htarget' : targetOf crates none parts url' with
        | error message' =>
            rw [houtcome, (hhistory'.unparsable event' hmem' _ _ hurl' htarget').1]
            rfl
        | ok target =>
            -- the other run went on, and this one would have, too
            obtain ⟨later', hlaterMem', hlater'⟩ := hhistory'.parsable event' hmem' _ _ hurl' htarget'
            obtain ⟨later, hlaterMem, hboth⟩ := exists_mem_of_forall₂ halike.flip hlaterMem'
            rw [hboth.symm.isLater_eq, hlater later hlaterMem] at hlater'
            cases hlater'
    | call herror =>
        obtain ⟨error', herror', htimeout, hconnect⟩ := hevent.callError herror
        rw [hhistory.failed event hmem _ herror, hhistory'.failed event' hmem' _ herror',
          intoResponse_workerRequest_congr htimeout hconnect]

theorem Reports.of_not_inference {crates : Crates} {parts : Parts} (h : Reports crates none parts)
    {pdMode : Option PdMode} (hpath : isInferencePath parts.path = false) :
    Reports crates pdMode parts := by
  have htarget : targetOf crates pdMode parts = targetOf crates none parts := by
    funext url
    simp [targetOf, hpath]
  have hfails : ∀ {event failure}, Fails crates pdMode parts event failure →
      Fails crates none parts event failure := by
    intro event failure hfails
    cases hfails with
    | unparsableUrl hurl hmessage => exact .unparsableUrl hurl (by rw [← htarget]; exact hmessage)
    | call herror => exact .call herror
  have hhandler := pdProxyHandler_of_not_inference crates pdMode hpath
  constructor
  · intro trace outcome event failure hleaves hmem hevent
    rw [hhandler] at hleaves
    exact h.status hleaves hmem (hfails hevent)
  · intro trace trace' outcome outcome' event failure hleaves hleaves' halike hmem hevent
    rw [hhandler] at hleaves hleaves'
    exact h.uniform hleaves hleaves' halike hmem (hfails hevent)

/-- What `Reports.status` says of one history. -/
def StatusReported (crates : Crates) (pdMode : Option PdMode) (parts : Parts)
    (trace : Programs.Trace router) (outcome : Option (Response WorkerId)) : Prop :=
  ∀ event failure, event ∈ trace → Fails crates pdMode parts event failure →
    ∃ response, outcome = some response ∧ response.status = failure.status

def timeout : ReqwestError := ⟨true, false, "operation timed out"⟩

theorem not_statusReported_of_call {crates : Crates} {pdMode : Option PdMode} {parts : Parts}
    {trace : Programs.Trace router} {response : Response WorkerId} {event : Programs.Event router}
    (hmem : event ∈ trace) (herror : callError event = some timeout) (hstatus : response.status ≠ 504) :
    ¬StatusReported crates pdMode parts trace (some response) := by
  intro h
  obtain ⟨response', hresponse, hreported⟩ := h event _ hmem (.call herror)
  cases hresponse
  exact hstatus hreported

theorem not_statusReported_of_url {crates : Crates} {pdMode : Option PdMode} {parts : Parts}
    {trace : Programs.Trace router} {response : Response WorkerId} {event : Programs.Event router}
    {url message : String} (hmem : event ∈ trace) (hurl : selectedUrl event = some url)
    (htarget : targetOf crates pdMode parts url = .error message) (hstatus : response.status ≠ 502) :
    ¬StatusReported crates pdMode parts trace (some response) := by
  intro h
  obtain ⟨response', hresponse, hreported⟩ := h event _ hmem (.unparsableUrl hurl htarget)
  cases hresponse
  exact hstatus hreported

section Pipeline

variable {crates : Crates} {parts : Parts}

theorem targetOf_pipeline (mode : PdMode) (hpath : isInferencePath parts.path = true)
    (workerUrl : String) :
    targetOf crates (some mode) parts workerUrl = buildTargetUrl crates workerUrl parts.path := by
  simp [targetOf, hpath]

theorem not_wp_processVllm (hpath : isInferencePath parts.path = true) (ctx : RequestContext)
    {trace : Programs.Trace router} :
    ¬Programs.wp (Programs.historySpec (StatusReported crates (some .vllm) parts))
      (processVllmPdRequest crates parts.path (.object []) ctx parts.headers)
      (fun result => Programs.historyPost (StatusReported crates (some .vllm) parts)
        (answerOf result)) trace [] := by
  intro h
  unfold processVllmPdRequest at h
  rw [wp_next_bind] at h
  have hselected := h.2.2 (some (0, "http://prefill:8000"))
  obtain ⟨prefillRequest, hrequest⟩ := exists_vllmPrefillRequest
    (Framing.patchable_object_nil parts.path)
  rw [hrequest] at hselected
  dsimp only at hselected
  cases htarget : buildTargetUrl crates "http://prefill:8000" parts.path with
  | error message =>
      rw [htarget] at hselected
      exact not_statusReported_of_url List.mem_cons_self rfl
        ((targetOf_pipeline .vllm hpath _).trans htarget) (show 400 ≠ 502 by decide) hselected
  | ok target =>
      rw [htarget] at hselected
      dsimp only at hselected
      rw [wp_send_bind] at hselected
      exact not_statusReported_of_call List.mem_cons_self rfl (show 502 ≠ 504 by decide)
        (hselected.2 (.error timeout))

theorem not_wp_sglangCompletion (ctx : RequestContext) {i j : Nat}
    {prefillResp decodeResp : WorkerResponse} {trace : Programs.Trace router} :
    ¬Programs.wp (Programs.historySpec (StatusReported crates (some .sglang) parts))
      (sglangCompletion crates ctx (detectStreamingInfo (.object [])) i j prefillResp decodeResp)
      (fun result => Programs.historyPost (StatusReported crates (some .sglang) parts)
        (answerOf result)) trace [] := by
  intro h
  unfold sglangCompletion at h
  rw [wp_finish_bind] at h
  have hprefill := h.2.2 ()
  rw [wp_record_bind] at hprefill
  have hrecorded := hprefill.2.2 ()
  rw [wp_finish_bind] at hrecorded
  have hdecode := hrecorded.2.2 ()
  rw [wp_record_bind] at hdecode
  have hfinished := hdecode.2.2 ()
  -- without logprobs and a stream, the body of the decode response is read at once
  have hread := hfinished.2 (.error timeout)
  exact not_statusReported_of_call List.mem_cons_self rfl (show 502 ≠ 504 by decide) hread

theorem not_wp_processSglang (hpath : isInferencePath parts.path = true) (ctx : RequestContext)
    {trace : Programs.Trace router} :
    ¬Programs.wp (Programs.historySpec (StatusReported crates (some .sglang) parts))
      (processSglangPdRequest crates parts.path (.object []) ctx parts.headers)
      (fun result => Programs.historyPost (StatusReported crates (some .sglang) parts)
        (answerOf result)) trace [] := by
  intro h
  unfold processSglangPdRequest at h
  rw [wp_next_bind] at h
  have hprefill := h.2.2 (some (0, "http://worker:8000"))
  dsimp only at hprefill
  rw [wp_next_bind] at hprefill
  have hdecode := hprefill.2.2 (some (0, "http://worker:8000"))
  dsimp only at hdecode
  rw [wp_random_bind] at hdecode
  have hdrawn := hdecode.2.2 0
  rw [buildSglangBootstrapParams_of_ne crates _ _ (show (0 : Int) ≠ -2 ^ 63 by decide)] at hdrawn
  cases htarget : buildTargetUrl crates "http://worker:8000" parts.path with
  | error message =>
      rw [htarget] at hdrawn
      exact not_statusReported_of_url (List.mem_cons_of_mem _ List.mem_cons_self) rfl
        ((targetOf_pipeline .sglang hpath _).trans htarget) (show 400 ≠ 502 by decide) hdrawn
  | ok target =>
      rw [htarget] at hdrawn
      dsimp only at hdrawn
      rw [wp_sendBoth_bind] at hdrawn
      exact not_wp_sglangCompletion ctx (hdrawn.2 (.ok (⟨200, []⟩, ⟨200, []⟩)))

theorem not_reports_of_pipeline (mode : PdMode) (hpath : isInferencePath parts.path = true)
    (hjson : crates.fromSlice (Value.object []).toVec = .ok (.object [])) :
    ¬Reports crates (some mode) parts := by
  intro h
  have hstatus : ∀ trace outcome, Programs.Leaves (pdProxyHandler crates (some mode) parts) trace
      outcome → StatusReported crates (some mode) parts trace outcome :=
    fun _ _ hleaves _ _ hmem hfails => h.status hleaves hmem hfails
  obtain ⟨ctx, hstages⟩ := of_wp_pdProxyHandler mode hpath (Programs.wp_historySpec_iff.mpr hstatus)
    (by decide) hjson
  cases mode with
  | vllm => exact not_wp_processVllm hpath ctx hstages
  | sglang => exact not_wp_processSglang hpath ctx hstages

/-- A request has its failures reported exactly if the regular handler takes it: there is no PD mode,
or it is for no inference endpoint. -/
theorem reports_iff (crates : Crates) (pdMode : Option PdMode) (parts : Parts)
    (hjson : crates.fromSlice (Value.object []).toVec = .ok (.object [])) :
    Reports crates pdMode parts ↔ pdMode = none ∨ isInferencePath parts.path = false := by
  cases pdMode with
  | none => exact iff_of_true (reports_regular crates parts) (Or.inl rfl)
  | some mode =>
      cases hpath : isInferencePath parts.path with
      | true => exact iff_of_false (not_reports_of_pipeline mode hpath hjson) (by simp)
      | false =>
          refine iff_of_true ?_ (Or.inr rfl)
          exact (reports_regular crates parts).of_not_inference hpath

end Pipeline

/-- A completion in vLLM mode: a prefill worker that times out gives a 502. -/
theorem not_reports_of_vllm_completion :
    isInferencePath (Framing.postRequest []).path = true ∧
      ¬Reports Framing.threeDocuments (some .vllm) (Framing.postRequest []) :=
  ⟨Framing.isInferencePath_postRequest [],
    not_reports_of_pipeline .vllm (Framing.isInferencePath_postRequest [])
      Framing.fromSlice_object_nil⟩

/-- The same request without a PD mode. -/
theorem reports_completion : Reports Framing.threeDocuments none (Framing.postRequest []) :=
  (reports_iff Framing.threeDocuments none (Framing.postRequest []) Framing.fromSlice_object_nil).mpr
    (Or.inl rfl)

end ErrorReports

end TokenDog
