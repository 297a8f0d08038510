import TokenDog.Routes.Admission

/-!
# Which workers are recorded

A handler records a worker for the routing keys of its request only after it has selected the worker
for these keys and a worker of the pool has answered. A selection alone, or a request that failed, is
never recorded.
-/

namespace TokenDog

namespace Protocol

/-- Position `i` was selected for the routing keys, and the pool has answered. -/
structure Served (trace : Programs.Trace router) (pool : Pool) (ctx : RequestContext) (i : Nat) :
    Prop where
  selected : ∃ url, .ran (.next pool ctx) (some (i, url)) ∈ trace
  answered : (∃ response, Answered trace pool response) ∨
    pool ≠ .regular ∧ ∃ prefillResp decodeResp, AnsweredBoth trace prefillResp decodeResp

theorem answeredBoth_replied {trace : Programs.Trace router} (prefill decode : Outgoing)
    (prefillResp decodeResp : WorkerResponse) :
    AnsweredBoth (.replied (.sendBoth prefill decode) (.ok (prefillResp, decodeResp)) :: trace)
      prefillResp decodeResp :=
  ⟨prefill, decode, List.mem_cons_self⟩

theorem Served.cons {trace : Programs.Trace router} {pool : Pool} {ctx : RequestContext} {i : Nat}
    (h : Served trace pool ctx i) (event : Programs.Event router) :
    Served (event :: trace) pool ctx i where
  selected := by
    obtain ⟨url, hmem⟩ := h.selected
    exact ⟨url, List.mem_cons_of_mem _ hmem⟩
  answered := by
    rcases h.answered with ⟨response, hreply⟩ | ⟨hpool, prefillResp, decodeResp, hreply⟩
    · exact Or.inl ⟨response, hreply.cons event⟩
    · exact Or.inr ⟨hpool, prefillResp, decodeResp, hreply.cons event⟩

/-- Only what has served is recorded. -/
def RecordsServed (trace : Programs.Trace router) : RouterOp → Prop
  | .record pool ctx i => Served trace pool ctx i
  | _ => True

theorem RecordsServed.cons {trace : Programs.Trace router} {op : RouterOp}
    (h : RecordsServed trace op) (event : Programs.Event router) :
    RecordsServed (event :: trace) op := by
  cases op with
  | record pool ctx i => exact Served.cons h event
  | _ => trivial

def servedSpec : Programs.Spec router := ⟨RecordsServed, fun _ _ => True⟩

variable {crates : Crates} {path : String} {headers : Headers} {ctx : RequestContext}
  {trace : Programs.Trace router} {deferred : List RouterOp}

/-- A program that runs no operation records nothing. -/
theorem wp_of_no_operation {α : Type} {program : Handler α}
    (h : Programs.Performs (I := router) (fun _ => False) program) :
    Programs.wp servedSpec program (fun _ _ _ => True) trace deferred :=
  h.wp (fun event _ _ hmay => hmay.cons event) fun _ hnone => hnone.elim

theorem wp_served_vllmDecode (requestJson prefillJson : Value) :
    Programs.wp servedSpec (vllmDecode crates path requestJson ctx headers prefillJson)
      (fun _ _ _ => True) trace deferred := by
  unfold vllmDecode
  rw [wp_next_bind]
  refine ⟨trivial, trivial, fun selected => ?_⟩
  cases selected with
  | none => exact trivial
  | some entry =>
      obtain ⟨decodeIdx, decodeUrl⟩ := entry
      dsimp only
      split
      · exact trivial
      rw [wp_send_bind]
      refine ⟨trivial, fun reply => ?_⟩
      cases reply with
      | error e => exact trivial
      | ok decodeResp =>
          dsimp only
          rw [wp_finish_bind]
          refine ⟨trivial, trivial, fun _ => ?_⟩
          rw [wp_record_bind]
          refine ⟨?_, trivial, fun _ => ?_⟩
          · refine Served.cons ⟨⟨decodeUrl, ?_⟩, Or.inl ⟨decodeResp, answered_replied _ _ _⟩⟩ _
            exact List.mem_cons_of_mem _ List.mem_cons_self
          split
          · exact trivial
          rw [wp_bytes_bind]
          refine ⟨trivial, fun reply => ?_⟩
          cases reply with
          | error e => exact trivial
          | ok decodeBytes => exact wp_of_no_operation (performs_vllmResponse _ _ _ _ _)

theorem wp_served_vllmPrefillCompletion (requestJson : Value) {prefillIdx : Nat}
    {prefillResp : WorkerResponse} (h : Served trace .prefill ctx prefillIdx) :
    Programs.wp servedSpec
      (vllmPrefillCompletion crates path requestJson ctx headers prefillIdx prefillResp)
      (fun _ _ _ => True) trace deferred := by
  unfold vllmPrefillCompletion
  split
  · rw [wp_finish_bind]
    exact ⟨trivial, trivial, fun _ => ⟨trivial, fun _ => trivial⟩⟩
  · rw [wp_bytes_bind]
    refine ⟨trivial, fun reply => ?_⟩
    cases reply with
    | error e => exact trivial
    | ok prefillBytes =>
        dsimp only
        split
        · exact trivial
        rw [wp_finish_bind]
        refine ⟨trivial, trivial, fun _ => ?_⟩
        rw [wp_record_bind]
        exact ⟨(h.cons _).cons _, trivial, fun _ => wp_served_vllmDecode requestJson _⟩

theorem wp_served_processVllmPdRequest (requestJson : Value) :
    Programs.wp servedSpec (processVllmPdRequest crates path requestJson ctx headers)
      (fun _ _ _ => True) trace deferred := by
  unfold processVllmPdRequest
  rw [wp_next_bind]
  refine ⟨trivial, trivial, fun selected => ?_⟩
  cases selected with
  | none => exact trivial
  | some entry =>
      obtain ⟨prefillIdx, prefillUrl⟩ := entry
      dsimp only
      split
      · exact trivial
      split
      · exact trivial
      rw [wp_send_bind]
      refine ⟨trivial, fun reply => ?_⟩
      cases reply with
      | error e => exact trivial
      | ok prefillResp =>
          refine wp_served_vllmPrefillCompletion requestJson
            ⟨⟨prefillUrl, ?_⟩, Or.inl ⟨prefillResp, answered_replied _ _ _⟩⟩
          exact List.mem_cons_of_mem _ List.mem_cons_self

theorem wp_served_sglangCompletion (si : StreamingInfo) {prefillIdx decodeIdx : Nat}
    {prefillResp decodeResp : WorkerResponse} (hprefill : Served trace .prefill ctx prefillIdx)
    (hdecode : Served trace .decode ctx decodeIdx) :
    Programs.wp servedSpec
      (sglangCompletion crates ctx si prefillIdx decodeIdx prefillResp decodeResp)
      (fun _ _ _ => True) trace deferred := by
  unfold sglangCompletion
  rw [wp_finish_bind]
  refine ⟨trivial, trivial, fun _ => ?_⟩
  rw [wp_record_bind]
  refine ⟨hprefill.cons _, trivial, fun _ => ?_⟩
  rw [wp_finish_bind]
  refine ⟨trivial, trivial, fun _ => ?_⟩
  rw [wp_record_bind]
  refine ⟨((hdecode.cons _).cons _).cons _, trivial, fun _ => ?_⟩
  apply wp_of_no_operation
  refine (performs_sglangPrefillJson si prefillResp).bind fun prefillJson => ?_
  split
  · exact trivial
  intro reply
  cases reply with
  | error e => exact trivial
  | ok decodeBytes => exact performs_sglangResponse _ _ _ _ _

theorem wp_served_processSglangPdRequest (requestJson : Value) :
    Programs.wp servedSpec (processSglangPdRequest crates path requestJson ctx headers)
      (fun _ _ _ => True) trace deferred := by
  unfold processSglangPdRequest
  rw [wp_next_bind]
  refine ⟨trivial, trivial, fun selected => ?_⟩
  cases selected with
  | none => exact trivial
  | some entry =>
      obtain ⟨prefillIdx, prefillUrl⟩ := entry
      dsimp only
      rw [wp_next_bind]
      refine ⟨trivial, trivial, fun selected => ?_⟩
      cases selected with
      | none => exact trivial
      | some entry =>
          obtain ⟨decodeIdx, decodeUrl⟩ := entry
          dsimp only
          rw [wp_random_bind]
          refine ⟨trivial, trivial, fun draw => ?_⟩
          split
          · exact trivial
          split
          · exact trivial
          split
          · exact trivial
          rw [wp_sendBoth_bind]
          refine ⟨trivial, fun reply => ?_⟩
          cases reply with
          | error e => exact trivial
          | ok responses =>
              obtain ⟨prefillResp, decodeResp⟩ := responses
              refine wp_served_sglangCompletion _
                ⟨⟨prefillUrl, ?_⟩, Or.inr ⟨by decide, _, _, answeredBoth_replied _ _ _ _⟩⟩
                ⟨⟨decodeUrl, ?_⟩, Or.inr ⟨by decide, _, _, answeredBoth_replied _ _ _ _⟩⟩
              · simp
              · simp

theorem wp_served_proxyHandler (parts : Parts) :
    Programs.wp servedSpec (proxyHandler crates parts) (fun _ _ _ => True) [] [] := by
  unfold proxyHandler
  rw [wp_collect_bind]
  refine ⟨trivial, fun collected => ?_⟩
  cases collected with
  | error e => exact trivial
  | ok body =>
      dsimp only
      split
      · exact trivial
      split
      · exact trivial
      rw [wp_next_bind]
      refine ⟨trivial, trivial, fun selected => ?_⟩
      cases selected with
      | none => exact trivial
      | some entry =>
          obtain ⟨workerIdx, workerUrl⟩ := entry
          dsimp only
          rw [wp_activeRequest_bind]
          split
          · exact trivial
          rw [wp_send_bind]
          refine ⟨trivial, fun reply => ?_⟩
          cases reply with
          | error e => exact trivial
          | ok workerResp =>
              dsimp only
              rw [wp_record_bind]
              refine ⟨⟨⟨workerUrl, ?_⟩, Or.inl ⟨workerResp, answered_replied _ _ _⟩⟩, trivial,
                fun _ => ?_⟩
              · exact List.mem_cons_of_mem _ List.mem_cons_self
              · split <;> exact trivial

theorem wp_served (crates : Crates) (pdMode : Option PdMode) (parts : Parts) :
    Programs.wp servedSpec (pdProxyHandler crates pdMode parts) (fun _ _ _ => True) [] [] := by
  rcases pipelined_cases pdMode parts with hregular | ⟨hpath, hmode⟩
  · rw [pdProxyHandler_regular hregular, Programs.wp_bind]
    refine Programs.wp_mono (fun result _ _ _ => ?_) (wp_served_proxyHandler parts)
    cases result <;> exact trivial
  · rcases hmode with rfl | rfl
    · exact TokenDog.wp_pdProxyHandler .vllm hpath trivial (fun _ _ => trivial)
        fun _ requestJson _ _ => wp_served_processVllmPdRequest requestJson
    · exact TokenDog.wp_pdProxyHandler .sglang hpath trivial (fun _ _ => trivial)
        fun _ requestJson _ _ => wp_served_processSglangPdRequest requestJson

/-- Whatever was recorded had served, in every interleaving. -/
theorem served_of_reachable {pdMode : Option PdMode} {σ : Type} {machine : Programs.Machine router σ}
    {shared : σ} {s : Programs.System router σ Parts (Response WorkerId)}
    (hs : Runs.Reachable (· = .start shared)
      (Programs.Step machine (pdProxyHandler crates pdMode)) s) :
    ∀ history ∈ s.histories, ∀ pool ctx i result, .ran (.record pool ctx i) result ∈ history.2 →
      Served history.2 pool ctx i := by
  intro history hhistory pool ctx i result hmem
  have hpermitted := Programs.permitted_of_reachable (wp_served crates pdMode) hs history hhistory
  exact hpermitted.of_mem (fun event trace op hmay => hmay.cons event) hmem

end Protocol

end TokenDog
