import TokenDog.Http

/-!
# Prefill requests

The body a prefill worker gets in vLLM mode, and the bootstrap parameters both workers get in SGLang
mode.
-/

namespace TokenDog

/-- `request["min_tokens"]` is lowered to one where it is an unsigned integer above it. -/
def clampMinTokens (value : Value) : Except Panic Value :=
  if 1 < ((value.get "min_tokens").bind Value.asU64).getD 0 then
    value.indexSet "min_tokens" (.ofInt 1)
  else .ok value

/-- Generate API: the limits are in `sampling_params`. -/
def limitGenerate (request : Value) : Except Panic Value :=
  match request.get "sampling_params" with
  | some samplingParams => do
      let samplingParams ← samplingParams.indexSet "max_tokens" (.ofInt 1)
      let samplingParams ← clampMinTokens samplingParams
      .ok (request.insertIfObject "sampling_params" samplingParams)
  | none =>
      request.indexSet "sampling_params"
        (.object [("max_tokens", .ofInt 1), ("min_tokens", .ofInt 1)])

/-- OpenAI chat/completions and completions. -/
def limitCompletions (request : Value) : Except Panic Value := do
  let request ← request.indexSet "max_tokens" (.ofInt 1)
  let request ←
    if (request.get "max_completion_tokens").isSome then
      request.indexSet "max_completion_tokens" (.ofInt 1)
    else .ok request
  clampMinTokens request

/-- The token limit of the API that the path belongs to. -/
def limitTokens (request : Value) (path : String) : Except Panic Value :=
  if containsText path "inference/v1/generate" then limitGenerate request
  else if containsText path "/v1/responses" then
    request.indexSet "max_output_tokens" (.ofInt 1)
  else limitCompletions request

def preparePrefillRequest (request : Value) (path : String) : Except Panic Value := do
  let request ← limitTokens request path
  let request ← request.indexSet "stream" (.bool false)
  return request.removeIfObject "stream_options"

def buildPrefillKvTransferParams : Value :=
  .object [("do_remote_decode", .bool true), ("do_remote_prefill", .bool false),
    ("remote_block_ids", .null), ("remote_engine_id", .null), ("remote_host", .null),
    ("remote_port", .null)]

def buildDecodeKvTransferParams (prefillResponse : Value) : Option Value :=
  prefillResponse.get "kv_transfer_params"

def defaultBootstrapPort : Nat := 8998

/-- `trim_start_matches(pattern)` for a pattern that is not empty, on at most `fuel` occurrences. -/
def trimStartMatches (pattern : List Char) : Nat → List Char → List Char
  | 0, s => s
  | fuel + 1, s =>
      match s.dropPrefix? pattern with
      | some rest => trimStartMatches pattern fuel rest
      | none => s

def extractBootstrapHost (crates : Crates) (workerUrl : String) : String :=
  match crates.parseUrl workerUrl with
  | .ok parsed =>
      parsed.hostStr.getD "127.0.0.1" ++ ":" ++ toString (parsed.port.getD 8000)
  | .error _ =>
      let s := workerUrl.toList
      let s := trimStartMatches "http://".toList s.length s
      String.ofList (trimStartMatches "https://".toList s.length s)

/-- `i64::abs` with overflow checks: the least value has no absolute value. -/
def absI64 (value : Int) : Except Panic Int :=
  if value = -2 ^ 63 then .error .overflow else .ok value.natAbs

/-- Host, port and room; `draw` is the random room number. -/
def buildSglangBootstrapParams (crates : Crates) (prefillUrl : String) (port : Nat) (draw : Int) :
    Except Panic (String × Nat × Int) := do
  return (extractBootstrapHost crates prefillUrl, port, ← absI64 draw)

theorem buildSglangBootstrapParams_of_ne (crates : Crates) (prefillUrl : String) (port : Nat)
    {draw : Int} (h : draw ≠ -2 ^ 63) :
    buildSglangBootstrapParams crates prefillUrl port draw =
      .ok (extractBootstrapHost crates prefillUrl, port, draw.natAbs) := by
  rw [buildSglangBootstrapParams, absI64, if_neg h]
  rfl

theorem buildSglangBootstrapParams_least (crates : Crates) (prefillUrl : String) (port : Nat) :
    buildSglangBootstrapParams crates prefillUrl port (-2 ^ 63) = .error .overflow := rfl

/-- Only the least draw panics. -/
theorem draw_of_buildSglangBootstrapParams {crates : Crates} {prefillUrl : String} {port : Nat}
    {draw : Int} {panic : Panic}
    (h : buildSglangBootstrapParams crates prefillUrl port draw = .error panic) : draw = -2 ^ 63 := by
  by_contra hdraw
  rw [buildSglangBootstrapParams_of_ne crates prefillUrl port hdraw] at h
  cases h

theorem buildSglangBootstrapParams_eq_ok {crates : Crates} {prefillUrl : String} {port : Nat}
    {draw : Int} {params : String × Nat × Int}
    (h : buildSglangBootstrapParams crates prefillUrl port draw = .ok params) :
    draw ≠ -2 ^ 63 ∧ params = (extractBootstrapHost crates prefillUrl, port, (draw.natAbs : Int)) := by
  have hdraw : draw ≠ -2 ^ 63 := by
    rintro rfl
    rw [buildSglangBootstrapParams_least] at h
    cases h
  rw [buildSglangBootstrapParams_of_ne crates prefillUrl port hdraw] at h
  exact ⟨hdraw, (Except.ok.inj h).symm⟩

namespace Value

def indexable : Value → Bool
  | null => true
  | object _ => true
  | _ => false

theorem indexSet_of_indexable {value : Value} (h : value.indexable = true) (key : String)
    (new : Value) : ∃ entries, value.indexSet key new = .ok (.object entries) := by
  cases value with
  | null => exact ⟨_, rfl⟩
  | object entries => exact ⟨_, rfl⟩
  | bool value => cases h
  | number value => cases h
  | string value => cases h
  | array elems => cases h

theorem indexSet_of_not_indexable {value : Value} (h : value.indexable = false) (key : String)
    (new : Value) : value.indexSet key new = .error .notAnObject := by
  cases value with
  | null => cases h
  | object entries => cases h
  | bool value => rfl
  | number value => rfl
  | string value => rfl
  | array elems => rfl

end Value

/-- An object or `null`, and on the generate path with `sampling_params` that are, if it has any. -/
def patchable (request : Value) (path : String) : Bool :=
  request.indexable && (!containsText path "inference/v1/generate" ||
    ((request.get "sampling_params").map Value.indexable).getD true)

theorem exists_clampMinTokens (entries : List (String × Value)) :
    ∃ clamped, clampMinTokens (.object entries) = .ok (.object clamped) := by
  unfold clampMinTokens
  split <;> exact ⟨_, rfl⟩

theorem exists_limitCompletions {request : Value} (h : request.indexable = true) :
    ∃ entries, limitCompletions request = .ok (.object entries) := by
  obtain ⟨limited, hlimited⟩ := Value.indexSet_of_indexable h "max_tokens" (.ofInt 1)
  simp only [limitCompletions, hlimited, ok_bind]
  split
  · exact exists_clampMinTokens _
  · exact exists_clampMinTokens _

theorem limitCompletions_of_not_indexable {request : Value} (h : request.indexable = false) :
    limitCompletions request = .error .notAnObject := by
  rw [limitCompletions, Value.indexSet_of_not_indexable h, error_bind]

theorem limitGenerate_of_some {request samplingParams : Value}
    (hget : request.get "sampling_params" = some samplingParams) :
    (samplingParams.indexable = true → ∃ entries, limitGenerate request = .ok (.object entries)) ∧
      (samplingParams.indexable = false → limitGenerate request = .error .notAnObject) := by
  constructor
  · intro h
    obtain ⟨limited, hlimited⟩ := Value.indexSet_of_indexable h "max_tokens" (.ofInt 1)
    obtain ⟨clamped, hclamped⟩ := exists_clampMinTokens limited
    simp only [limitGenerate, hget, hlimited, hclamped, ok_bind]
    cases request with
    | object entries => exact ⟨_, rfl⟩
    | null => cases hget
    | bool value => cases hget
    | number value => cases hget
    | string value => cases hget
    | array elems => cases hget
  · intro h
    simp only [limitGenerate, hget, Value.indexSet_of_not_indexable h, error_bind]

theorem exists_limitTokens {request : Value} {path : String} (h : patchable request path = true) :
    ∃ entries, limitTokens request path = .ok (.object entries) := by
  rw [patchable, Bool.and_eq_true] at h
  unfold limitTokens
  split
  · rename_i hgenerate
    cases hget : request.get "sampling_params" with
    | some samplingParams =>
        refine (limitGenerate_of_some hget).1 ?_
        simpa [hgenerate, hget] using h.2
    | none =>
        simp only [limitGenerate, hget]
        exact Value.indexSet_of_indexable h.1 _ _
  · split
    · exact Value.indexSet_of_indexable h.1 _ _
    · exact exists_limitCompletions h.1

theorem limitTokens_of_not_patchable {request : Value} {path : String}
    (h : patchable request path = false) : limitTokens request path = .error .notAnObject := by
  rw [patchable, Bool.and_eq_false_iff] at h
  unfold limitTokens
  split
  · rename_i hgenerate
    cases hget : request.get "sampling_params" with
    | some samplingParams =>
        refine (limitGenerate_of_some hget).2 ?_
        rcases h with h | h
        · cases request <;> first | cases hget | cases h
        · simpa [hgenerate, hget] using h
    | none =>
        simp only [limitGenerate, hget]
        refine Value.indexSet_of_not_indexable (h.resolve_right ?_) _ _
        simp [hget]
  · rename_i hgenerate
    have hindexable := h.resolve_right (by simp [hgenerate])
    split
    · exact Value.indexSet_of_not_indexable hindexable _ _
    · exact limitCompletions_of_not_indexable hindexable

/-- Preparing the prefill request panics exactly on the requests that cannot be patched. -/
theorem exists_preparePrefillRequest {request : Value} {path : String}
    (h : patchable request path = true) :
    ∃ entries, preparePrefillRequest request path = .ok (.object entries) := by
  obtain ⟨limited, hlimited⟩ := exists_limitTokens h
  rw [preparePrefillRequest, hlimited]
  exact ⟨_, rfl⟩

theorem preparePrefillRequest_of_not_patchable {request : Value} {path : String}
    (h : patchable request path = false) :
    preparePrefillRequest request path = .error .notAnObject := by
  rw [preparePrefillRequest, limitTokens_of_not_patchable h, error_bind]

end TokenDog
