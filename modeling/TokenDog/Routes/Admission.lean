import TokenDog.Lib.Histories
import TokenDog.Routes.Protocol

/-!
# Which requests are admitted

A handler goes on only with a body it has read in full, within the size limit, and for the pipeline
as JSON. All it does to the shared state is then done for the routing keys of that body. A request
that is refused leaves no trace in the pools and reaches no worker.
-/

namespace TokenDog

namespace Protocol

/-- A body that a handler goes on with. -/
structure Admissible (crates : Crates) (pdMode : Option PdMode) (parts : Parts) (body : ByteArray) :
    Prop where
  size : body.size ≤ maxBodySize
  json : pipelined pdMode parts = true → ∃ requestJson, crates.fromSlice body = .ok requestJson

/-- The operation is done for the routing keys, if it is for any. -/
def RoutedBy (ctx : RequestContext) : RouterOp → Prop
  | .next _ other => other = ctx
  | .record _ other _ => other = ctx
  | .finish _ _ => True
  | .random => True

/-- The client's body was read and is admissible, and the operation is done for its routing keys. -/
def Admitted (crates : Crates) (pdMode : Option PdMode) (parts : Parts)
    (trace : Programs.Trace router) (op : RouterOp) : Prop :=
  ∃ body ctx, .replied .collect (.ok body) ∈ trace ∧ Admissible crates pdMode parts body ∧
    extractContext crates body parts.headers = .ok ctx ∧ RoutedBy ctx op

theorem Admitted.cons {crates : Crates} {pdMode : Option PdMode} {parts : Parts}
    {trace : Programs.Trace router} {op : RouterOp} (h : Admitted crates pdMode parts trace op)
    (event : Programs.Event router) : Admitted crates pdMode parts (event :: trace) op := by
  obtain ⟨body, ctx, hmem, hadmitted⟩ := h
  exact ⟨body, ctx, List.mem_cons_of_mem _ hmem, hadmitted⟩

section Stages

variable {crates : Crates} {path : String} {headers : Headers} {ctx : RequestContext}

theorem performs_vllmResponse {specified : RouterOp → Prop} (si : StreamingInfo)
    (prefillJson : Value) (status : Nat) (decodeHeaders : Headers) (decodeBytes : ByteArray) :
    Programs.Performs (I := router) specified
      (vllmResponse crates si prefillJson status decodeHeaders decodeBytes) := by
  unfold vllmResponse
  split
  · split
    · exact trivial
    · split <;> exact trivial
  · exact trivial

theorem performs_vllmDecode (requestJson prefillJson : Value) :
    Programs.Performs (RoutedBy ctx)
      (vllmDecode crates path requestJson ctx headers prefillJson) := by
  unfold vllmDecode
  refine ⟨rfl, fun selected => ?_⟩
  cases selected with
  | none => exact trivial
  | some entry =>
      dsimp only [Programs.Program.bind]
      split
      · exact trivial
      intro reply
      cases reply with
      | error e => exact trivial
      | ok decodeResp =>
          refine ⟨trivial, fun _ => ⟨rfl, fun _ => ?_⟩⟩
          dsimp only
          split
          · exact trivial
          intro reply
          cases reply with
          | error e => exact trivial
          | ok decodeBytes => exact performs_vllmResponse _ _ _ _ _

theorem performs_vllmPrefillCompletion (requestJson : Value) (prefillIdx : Nat)
    (prefillResp : WorkerResponse) :
    Programs.Performs (RoutedBy ctx)
      (vllmPrefillCompletion crates path requestJson ctx headers prefillIdx prefillResp) := by
  unfold vllmPrefillCompletion
  split
  · exact ⟨trivial, fun _ _ => trivial⟩
  intro reply
  cases reply with
  | error e => exact trivial
  | ok prefillBytes =>
      dsimp only [Programs.Program.bind]
      split
      · exact trivial
      · exact ⟨trivial, fun _ => ⟨rfl, fun _ => performs_vllmDecode requestJson _⟩⟩

theorem performs_processVllmPdRequest (requestJson : Value) :
    Programs.Performs (RoutedBy ctx)
      (processVllmPdRequest crates path requestJson ctx headers) := by
  unfold processVllmPdRequest
  refine ⟨rfl, fun selected => ?_⟩
  cases selected with
  | none => exact trivial
  | some entry =>
      dsimp only [Programs.Program.bind]
      split
      · exact trivial
      split
      · exact trivial
      intro reply
      cases reply with
      | error e => exact trivial
      | ok prefillResp => exact performs_vllmPrefillCompletion requestJson _ prefillResp

theorem performs_sglangResponse {specified : RouterOp → Prop} (si : StreamingInfo)
    (prefillJson : Option Value) (status : Nat) (decodeHeaders : Headers) (decodeBytes : ByteArray) :
    Programs.Performs (I := router) specified
      (sglangResponse crates si prefillJson status decodeHeaders decodeBytes) := by
  unfold sglangResponse
  split
  · split
    · split
      · split <;> exact trivial
      · exact trivial
    · exact trivial
  · exact trivial

theorem performs_sglangPrefillJson {specified : RouterOp → Prop} (si : StreamingInfo)
    (prefillResp : WorkerResponse) :
    Programs.Performs (I := router) specified (sglangPrefillJson crates si prefillResp) := by
  unfold sglangPrefillJson
  split
  · intro reply
    cases reply <;> exact trivial
  · exact trivial

theorem performs_sglangCompletion (si : StreamingInfo) (prefillIdx decodeIdx : Nat)
    (prefillResp decodeResp : WorkerResponse) :
    Programs.Performs (RoutedBy ctx)
      (sglangCompletion crates ctx si prefillIdx decodeIdx prefillResp decodeResp) := by
  unfold sglangCompletion
  refine ⟨trivial, fun _ => ⟨rfl, fun _ => ⟨trivial, fun _ => ⟨rfl, fun _ => ?_⟩⟩⟩⟩
  refine (performs_sglangPrefillJson si prefillResp).bind fun prefillJson => ?_
  split
  · exact trivial
  intro reply
  cases reply with
  | error e => exact trivial
  | ok decodeBytes => exact performs_sglangResponse _ _ _ _ _

theorem performs_processSglangPdRequest (requestJson : Value) :
    Programs.Performs (RoutedBy ctx)
      (processSglangPdRequest crates path requestJson ctx headers) := by
  unfold processSglangPdRequest
  refine ⟨rfl, fun selected => ?_⟩
  cases selected with
  | none => exact trivial
  | some entry =>
      refine ⟨rfl, fun selected => ?_⟩
      cases selected with
      | none => exact trivial
      | some entry =>
          refine ⟨trivial, fun draw => ?_⟩
          dsimp only [Programs.Program.bind]
          split
          · exact trivial
          split
          · exact trivial
          split
          · exact trivial
          intro reply
          cases reply with
          | error e => exact trivial
          | ok responses => exact performs_sglangCompletion _ _ _ _ _

end Stages

variable {crates : Crates} {pdMode : Option PdMode} {parts : Parts}

/-- What a handler does with a body it has admitted. -/
theorem wp_of_performs {α : Type} {program : Handler α} {ctx : RequestContext} {body : ByteArray}
    (h : Programs.Performs (RoutedBy ctx) program) (hbody : Admissible crates pdMode parts body)
    (hctx : extractContext crates body parts.headers = .ok ctx) :
    Programs.wp ⟨Admitted crates pdMode parts, fun _ _ => True⟩ program (fun _ _ _ => True)
      [.replied .collect (.ok body)] [] :=
  h.wp (fun event _ _ hmay => hmay.cons event)
    fun _ hop => ⟨body, ctx, List.mem_cons_self, hbody, hctx, hop⟩

theorem wp_admitted_proxyHandler (hregular : pipelined pdMode parts = false) :
    Programs.wp ⟨Admitted crates pdMode parts, fun _ _ => True⟩ (proxyHandler crates parts)
      (fun _ _ _ => True) [] [] := by
  unfold proxyHandler
  rw [wp_collect_bind]
  refine ⟨trivial, fun collected => ?_⟩
  cases collected with
  | error e => exact trivial
  | ok body =>
      dsimp only
      split
      · exact trivial
      rename_i hsize
      split
      · exact trivial
      rename_i ctx hctx
      refine wp_of_performs ⟨rfl, fun selected => ?_⟩
        ⟨Nat.not_lt.mp hsize, fun hpipelined => by cases hregular.symm.trans hpipelined⟩ hctx
      cases selected with
      | none => exact trivial
      | some entry =>
          dsimp only [Programs.Program.bind]
          rw [Handler.activeRequest, Programs.performs_deferred_bind]
          split
          · exact trivial
          intro reply
          cases reply with
          | error e => exact trivial
          | ok workerResp =>
              refine ⟨rfl, fun _ => ?_⟩
              dsimp only [Programs.Program.bind]
              split <;> exact trivial

theorem wp_admitted (crates : Crates) (pdMode : Option PdMode) (parts : Parts) :
    Programs.wp ⟨Admitted crates pdMode parts, fun _ _ => True⟩
      (pdProxyHandler crates pdMode parts) (fun _ _ _ => True) [] [] := by
  rcases pipelined_cases pdMode parts with hregular | ⟨hpath, hmode⟩
  · rw [pdProxyHandler_regular hregular, Programs.wp_bind]
    refine Programs.wp_mono (fun result _ _ _ => ?_) (wp_admitted_proxyHandler hregular)
    cases result <;> exact trivial
  · obtain ⟨mode, rfl⟩ : ∃ mode, pdMode = some mode := by
      rcases hmode with rfl | rfl <;> exact ⟨_, rfl⟩
    unfold pdProxyHandler
    rw [hpath]
    refine (wp_collect_bind _).mpr ⟨trivial, fun collected => ?_⟩
    cases collected with
    | error e => exact trivial
    | ok body =>
        dsimp only
        split
        · exact trivial
        rename_i hsize
        cases hjson : crates.fromSlice body with
        | error e => exact trivial
        | ok requestJson =>
            obtain ⟨ctx, hctx⟩ := exists_extractContext crates body parts.headers
            have hadmissible : Admissible crates (some mode) parts body :=
              ⟨Nat.not_lt.mp hsize, fun _ => ⟨requestJson, hjson⟩⟩
            rw [hctx]
            cases mode with
            | vllm =>
                refine (Programs.wp_bind _ _).mpr (Programs.wp_mono (fun result _ _ _ => ?_)
                  (wp_of_performs (performs_processVllmPdRequest requestJson) hadmissible hctx))
                cases result <;> exact trivial
            | sglang =>
                refine (Programs.wp_bind _ _).mpr (Programs.wp_mono (fun result _ _ _ => ?_)
                  (wp_of_performs (performs_processSglangPdRequest requestJson) hadmissible hctx))
                cases result <;> exact trivial

theorem HandlerMay.first {trace : Programs.Trace router}
    (h : HandlerMay crates pdMode parts trace .collect) : trace = [] := by
  rcases pipelined_cases pdMode parts with hregular | ⟨hpath, rfl | rfl⟩
  · rw [handlerMay_regular crates hregular] at h
    cases h with
    | collect hfirst => exact hfirst
  · rw [handlerMay_vllm crates hpath] at h
    cases h with
    | collect hfirst => exact hfirst
  · rw [handlerMay_sglang crates hpath] at h
    cases h with
    | collect hfirst => exact hfirst

/-- A request to a worker follows a selection. -/
theorem HandlerMay.selected {trace : Programs.Trace router} {call : RouterCall} {pool : Pool}
    (h : HandlerMay crates pdMode parts trace call) (hcall : requests pool call = true) :
    ∃ op result, .ran op result ∈ trace := by
  rcases pipelined_cases pdMode parts with hregular | ⟨hpath, rfl | rfl⟩
  · rw [handlerMay_regular crates hregular] at h
    cases h with
    | collect => cases hcall
    | send hbody htarget hfirst =>
        obtain ⟨ctx, i, url, hmem, -⟩ := htarget
        exact ⟨_, _, hmem⟩
  · rw [handlerMay_vllm crates hpath] at h
    cases h with
    | prefill hgiven hrequest htarget hfirst hdecode =>
        obtain ⟨ctx, i, url, hmem, -⟩ := htarget
        exact ⟨_, _, hmem⟩
    | decode hgiven hprefilled htarget hfirst =>
        obtain ⟨ctx, i, url, hmem, -⟩ := htarget
        exact ⟨_, _, hmem⟩
    | _ => cases hcall
  · rw [handlerMay_sglang crates hpath] at h
    cases h with
    | both hgiven hselected => exact ⟨_, _, hselected⟩
    | _ => cases hcall

section Runs

variable {σ : Type} {machine : Programs.Machine router σ} {shared : σ}
  {s : Programs.System router σ Parts (Response WorkerId)}

theorem admitted_of_reachable
    (hs : Runs.Reachable (· = .start shared)
      (Programs.Step machine (pdProxyHandler crates pdMode)) s) :
    ∀ history ∈ s.histories,
      Programs.Permitted (Admitted crates pdMode history.1) history.2 :=
  Programs.permitted_of_reachable (wp_admitted crates pdMode) hs

theorem defersLate_pdProxyHandler (crates : Crates) (pdMode : Option PdMode) (parts : Parts) :
    Programs.DefersLate (pdProxyHandler crates pdMode parts) := by
  rcases pipelined_cases pdMode parts with hregular | ⟨hpath, hmode⟩
  · rw [pdProxyHandler_regular hregular]
    intro collected
    cases collected with
    | error e => exact trivial
    | ok body =>
        dsimp only [Programs.Program.bind]
        split
        · exact trivial
        split <;> exact trivial
  · obtain ⟨mode, rfl⟩ : ∃ mode, pdMode = some mode := by
      rcases hmode with rfl | rfl <;> exact ⟨_, rfl⟩
    unfold pdProxyHandler
    rw [hpath]
    intro collected
    cases collected with
    | error e => exact trivial
    | ok body =>
        dsimp only [Programs.Program.bind]
        split
        · exact trivial
        cases crates.fromSlice body with
        | error e => exact trivial
        | ok requestJson =>
            obtain ⟨ctx, hctx⟩ := exists_extractContext crates body parts.headers
            rw [hctx]
            cases mode <;> exact trivial

/-- The client's body was read and is not admissible, or could not be read. -/
def Refused (crates : Crates) (pdMode : Option PdMode) (parts : Parts)
    (trace : Programs.Trace router) : Prop :=
  ∃ reply, .replied .collect reply ∈ trace ∧
    ∀ body, reply = .ok body → ¬Admissible crates pdMode parts body

theorem idle_of_refused
    (hs : Runs.Reachable (· = .start shared)
      (Programs.Step machine (pdProxyHandler crates pdMode)) s) :
    ∀ history ∈ s.histories, Refused crates pdMode history.1 history.2 →
      Programs.Idle history.2 := by
  rintro history hhistory ⟨reply, hreply, hrefused⟩ op result hran
  have hjustified := justified_of_reachable hs history hhistory
  obtain ⟨body, ctx, hbody, hadmissible, -⟩ := (admitted_of_reachable hs history hhistory).of_mem
    (fun event _ _ hmay => hmay.cons event) hran
  have hfirst := hjustified.getLast?_of_first (fun _ h => h.first) hreply rfl
  have hother := hjustified.getLast?_of_first (fun _ h => h.first) hbody rfl
  cases Option.some.inj (hfirst.symm.trans hother)
  exact hrefused body rfl hadmissible

theorem unasked_of_idle
    (hs : Runs.Reachable (· = .start shared)
      (Programs.Step machine (pdProxyHandler crates pdMode)) s) :
    ∀ history ∈ s.histories, Programs.Idle history.2 → ∀ pool, Unasked history.2 pool := by
  intro history hhistory hidle pool call hcall
  refine Bool.eq_false_iff.mpr fun hasked => ?_
  have hselected : Programs.Justified (fun trace call => requests pool call = true →
      ∃ op result, .ran op result ∈ trace) history.2 :=
    (justified_of_reachable hs history hhistory).mono fun _ _ hmay hcall => hmay.selected hcall
  obtain ⟨op, result, hmem⟩ := hselected.of_mem (fun event trace call h hcall => by
    obtain ⟨op, result, hmem⟩ := h hcall
    exact ⟨op, result, List.mem_cons_of_mem _ hmem⟩) hcall hasked
  exact hidle op result hmem

/-- A handler that got no admissible body runs no operation, leaves none for its end and asks no
worker, whatever other handlers do meanwhile. -/
theorem refused_does_nothing
    (hs : Runs.Reachable (· = .start shared)
      (Programs.Step machine (pdProxyHandler crates pdMode)) s) :
    (∀ history ∈ s.histories, Refused crates pdMode history.1 history.2 →
      (∀ op result, .ran op result ∉ history.2) ∧ ∀ pool, Unasked history.2 pool) ∧
    (∀ run ∈ s.live, Refused crates pdMode run.request run.trace → run.deferred = []) ∧
    ∀ run ∈ s.ended, Refused crates pdMode run.request run.trace → run.deferred = [] := by
  have hidle := idle_of_refused hs
  obtain ⟨hlive, hended⟩ := Programs.deferred_of_reachable (defersLate_pdProxyHandler crates pdMode) hs
  refine ⟨fun history hhistory hrefused => ?_, fun run hrun hrefused => ?_, fun run hrun hrefused => ?_⟩
  · have hnothing := hidle history hhistory hrefused
    exact ⟨hnothing, unasked_of_idle hs history hhistory hnothing⟩
  · exact hlive run hrun
      ((Programs.System.forall_mem_histories.mp hidle).1 run hrun hrefused)
  · exact hended run hrun
      ((Programs.System.forall_mem_histories.mp hidle).2 run hrun hrefused)

end Runs

/-- The pipeline is sent a body that is no JSON. -/
theorem refused_does_nothing_no_json :
    ∃ run : Programs.Live router Parts (Response WorkerId),
      Refused plainCrates (some .vllm) run.request run.trace ∧
        (∀ op result, .ran op result ∉ run.trace) ∧ (∀ pool, Unasked run.trace pool) ∧
          run.deferred = [] := by
  obtain ⟨app, -⟩ : ∃ app, AppState.newPd .vllm Accounting.onePrefill Accounting.oneDecode
    (.leastLoaded (.new 1)) (.leastLoaded (.new 1)) = .ok app := ⟨_, rfl⟩
  have hfirst : Runs.Reachable (· = .start app)
      (Programs.Step TokenDog.machine (pdProxyHandler plainCrates (some .vllm))) (.start app) :=
    .of_start rfl
  have hcollected := (hfirst.tail (.start _ completionParts)).tail
    (@Programs.Step.reply router _ _ _ _ _ _ 0 completionParts .collect _ [] [] rfl
      (.ok ByteArray.empty))
  have hrefused : Refused plainCrates (some .vllm) completionParts
      [.replied .collect (.ok ByteArray.empty)] := by
    refine ⟨_, List.mem_cons_self, fun body hbody hadmissible => ?_⟩
    obtain ⟨requestJson, hjson⟩ := hadmissible.json (by
      rw [pipelined, isInferencePath_completionParts]
      rfl)
    cases hjson
  obtain ⟨hnothing, hlive, -⟩ := refused_does_nothing hcollected
  have hidle := (Programs.System.forall_mem_histories.mp hnothing).1 _
    (Multiset.mem_singleton_self _) hrefused
  exact ⟨_, hrefused, hidle.1, hidle.2, hlive _ (Multiset.mem_singleton_self _) hrefused⟩

end Protocol

end TokenDog
