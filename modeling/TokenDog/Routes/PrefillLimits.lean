import TokenDog.Json.Entries
import TokenDog.Routes.Prefill

/-!
# What the prefill request limits

`prepare_prefill_request` limits the tokens of its API, turns streaming off and leaves every other
key alone. Its results are fixed points.
-/

namespace TokenDog

open Value

/-- Not an unsigned integer above one. -/
def AtMostOne (value : Option Value) : Prop := (value.bind asU64).getD 0 ≤ 1

/-- `min_tokens` is lowered where it is too large, and kept otherwise. -/
def Lowered (before after : Option Value) : Prop :=
  AtMostOne after ∧ (AtMostOne before → after = before)

theorem clampMinTokens_spec (entries : List (String × Value)) :
    ∃ entries', clampMinTokens (.object entries) = .ok (.object entries') ∧
      ChangedOnly ["min_tokens"] entries entries' ∧
      Lowered (entries.lookup "min_tokens") (entries'.lookup "min_tokens") := by
  unfold clampMinTokens
  split
  · rename_i hlarge
    refine ⟨_, rfl, ChangedOnly.insertEntry _ _ entries, ?_, fun hsmall => ?_⟩
    · rw [lookup_insertEntry_self]
      exact le_rfl
    · exact absurd hlarge (not_lt.mpr hsmall)
  · rename_i hsmall
    exact ⟨entries, rfl, ChangedOnly.refl _ entries, not_lt.mp hsmall, fun _ => rfl⟩

theorem clampMinTokens_of_atMostOne {entries : List (String × Value)}
    (h : AtMostOne (entries.lookup "min_tokens")) :
    clampMinTokens (.object entries) = .ok (.object entries) :=
  if_neg (not_lt.mpr h)

inductive Api where
  | generate
  | responses
  | completions
  deriving DecidableEq, Repr

/-- The API of a path; one that matches several belongs to the first. -/
def apiOf (path : String) : Api :=
  if containsText path "inference/v1/generate" then .generate
  else if containsText path "/v1/responses" then .responses
  else .completions

def writtenKeys : Api → List String
  | .generate => ["sampling_params", "stream", "stream_options"]
  | .responses => ["max_output_tokens", "stream", "stream_options"]
  | .completions =>
      ["max_tokens", "max_completion_tokens", "min_tokens", "stream", "stream_options"]

def TokensLimited : Api → Value → Value → Prop
  | .generate, request, result => ∃ params, result.get "sampling_params" = some params ∧
      params.get "max_tokens" = some (ofInt 1) ∧ AtMostOne (params.get "min_tokens") ∧
      (∀ old, request.get "sampling_params" = some old →
        Lowered (old.get "min_tokens") (params.get "min_tokens")) ∧
      ∀ key, key ≠ "max_tokens" → key ≠ "min_tokens" →
        params.get key = (request.get "sampling_params").bind fun old => old.get key
  | .responses, _request, result => result.get "max_output_tokens" = some (ofInt 1)
  | .completions, request, result => result.get "max_tokens" = some (ofInt 1) ∧
      result.get "max_completion_tokens" =
        (request.get "max_completion_tokens").map (fun _limit => ofInt 1) ∧
      Lowered (request.get "min_tokens") (result.get "min_tokens")

/-- The result runs the prefill phase only and is otherwise the request. -/
structure PrefillOnly (path : String) (request result : Value) : Prop where
  limited : TokensLimited (apiOf path) request result
  stream : result.get "stream" = some (.bool false)
  streamOptions : result.get "stream_options" = none
  other : ∀ key ∉ writtenKeys (apiOf path), result.get key = request.get key

/-- Sampling parameters made from `before`. -/
structure LimitedParams (before : Option Value) (params : List (String × Value)) : Prop where
  maxTokens : Holds "max_tokens" (ofInt 1) params
  minTokens : AtMostOne (params.lookup "min_tokens")
  lowered : ∀ old, before = some old → Lowered (old.get "min_tokens") (params.lookup "min_tokens")
  other : ∀ key, key ≠ "max_tokens" → key ≠ "min_tokens" →
    params.lookup key = before.bind fun old => old.get key

theorem exists_limitedParams {samplingParams : Value} (h : samplingParams.indexable = true) :
    ∃ params, (do
      let samplingParams ← samplingParams.indexSet "max_tokens" (.ofInt 1)
      clampMinTokens samplingParams) = .ok (.object params) ∧
        LimitedParams (some samplingParams) params := by
  -- `null` becomes an object without entries
  obtain ⟨entries, hindexSet, hget⟩ : ∃ entries, samplingParams.indexSet "max_tokens" (.ofInt 1) =
      .ok (.object (insertEntry "max_tokens" (.ofInt 1) entries)) ∧
        ∀ key, samplingParams.get key = entries.lookup key := by
    cases samplingParams with
    | null => exact ⟨[], rfl, fun _ => rfl⟩
    | object entries => exact ⟨entries, rfl, fun _ => rfl⟩
    | bool | number | string | array => cases h
  obtain ⟨params, hclamp, hchanged, hlowered⟩ :=
    clampMinTokens_spec (insertEntry "max_tokens" (.ofInt 1) entries)
  rw [lookup_insertEntry_of_ne (by decide), ← hget] at hlowered
  refine ⟨params, ?_, ?_, hlowered.1, ?_, ?_⟩
  · rw [hindexSet, ok_bind, hclamp]
  · exact hchanged.holds _ (by decide) _ (holds_insertEntry _ _ entries)
  · rintro old hold
    cases hold
    exact hlowered
  · intro key hmax hmin
    rw [hchanged.lookup key (by simpa using hmin), lookup_insertEntry_of_ne hmax, Option.bind_some,
      hget]

theorem limitGenerate_spec {entries : List (String × Value)}
    (h : ((entries.lookup "sampling_params").map indexable).getD true = true) :
    ∃ params, limitGenerate (.object entries) =
        .ok (.object (insertEntry "sampling_params" (.object params) entries)) ∧
      LimitedParams (entries.lookup "sampling_params") params := by
  cases hold : entries.lookup "sampling_params" with
  | none =>
      refine ⟨[("max_tokens", .ofInt 1), ("min_tokens", .ofInt 1)], ?_, holds_head _ _ _, le_rfl,
        (fun old hnone => by cases hnone), fun key hmax hmin => ?_⟩
      · have hget : (Value.object entries).get "sampling_params" = none := hold
        rw [limitGenerate, hget]
        rfl
      · have hmax' : (key == "max_tokens") = false := by simpa using hmax
        have hmin' : (key == "min_tokens") = false := by simpa using hmin
        simp [List.lookup_cons, hmax', hmin']
  | some samplingParams =>
      rw [hold] at h
      obtain ⟨params, hparams, hlimited⟩ := exists_limitedParams h
      refine ⟨params, ?_, hlimited⟩
      have hget : (Value.object entries).get "sampling_params" = some samplingParams := hold
      obtain ⟨limited, hindexSet, hclamp⟩ := bind_eq_ok.mp hparams
      rw [limitGenerate, hget]
      dsimp only
      rw [hindexSet, ok_bind, hclamp]
      rfl

/-- The entries of a request limited for chat/completions and completions. -/
structure LimitedCompletions (entries limited : List (String × Value)) : Prop where
  maxTokens : Holds "max_tokens" (ofInt 1) limited
  maxCompletionTokens : limited.lookup "max_completion_tokens" =
    (entries.lookup "max_completion_tokens").map fun _limit => ofInt 1
  held : (limited.lookup "max_completion_tokens").isSome →
    Holds "max_completion_tokens" (ofInt 1) limited
  lowered : Lowered (entries.lookup "min_tokens") (limited.lookup "min_tokens")
  other : ∀ key ∉ writtenKeys .completions, limited.lookup key = entries.lookup key

/-- `max_completion_tokens` is overwritten where it is present. -/
def limitMaxCompletionTokens (request : Value) : Except Panic Value :=
  if (request.get "max_completion_tokens").isSome then
    request.indexSet "max_completion_tokens" (.ofInt 1)
  else .ok request

theorem limitCompletions_eq (entries : List (String × Value)) :
    limitCompletions (.object entries) =
      (limitMaxCompletionTokens (.object (insertEntry "max_tokens" (.ofInt 1) entries)) >>=
        clampMinTokens) := by
  unfold limitCompletions limitMaxCompletionTokens
  simp only [indexSet, ok_bind]
  split <;> rfl

theorem limitMaxCompletionTokens_spec (entries : List (String × Value)) :
    ∃ limited, limitMaxCompletionTokens (.object entries) = .ok (.object limited) ∧
      ChangedOnly ["max_completion_tokens"] entries limited ∧
      limited.lookup "max_completion_tokens" =
        (entries.lookup "max_completion_tokens").map (fun _limit => ofInt 1) ∧
      ((limited.lookup "max_completion_tokens").isSome →
        Holds "max_completion_tokens" (ofInt 1) limited) := by
  have hget : (Value.object entries).get "max_completion_tokens" =
      entries.lookup "max_completion_tokens" := rfl
  rw [limitMaxCompletionTokens, hget]
  cases hlookup : entries.lookup "max_completion_tokens" with
  | none =>
      refine ⟨entries, rfl, ChangedOnly.refl _ entries, hlookup, fun hsome => ?_⟩
      rw [hlookup] at hsome
      cases hsome
  | some old =>
      exact ⟨_, rfl, ChangedOnly.insertEntry _ _ entries, lookup_insertEntry_self _ _ entries,
        fun _ => holds_insertEntry _ _ entries⟩

theorem limitCompletions_spec (entries : List (String × Value)) :
    ∃ limited, limitCompletions (.object entries) = .ok (.object limited) ∧
      LimitedCompletions entries limited := by
  have hfirst := ChangedOnly.insertEntry "max_tokens" (ofInt 1) entries
  obtain ⟨second, hsecond, hchanged, hlookup, hheld⟩ :=
    limitMaxCompletionTokens_spec (insertEntry "max_tokens" (ofInt 1) entries)
  obtain ⟨limited, hclamp, hclamped, hlowered⟩ := clampMinTokens_spec second
  rw [hchanged.lookup _ (by decide), hfirst.lookup _ (by decide)] at hlowered
  rw [hfirst.lookup _ (by decide)] at hlookup
  have hsame := hclamped.lookup "max_completion_tokens" (by decide)
  have hmax : Holds "max_tokens" (ofInt 1) second :=
    hchanged.holds _ (by decide) _ (holds_insertEntry _ _ entries)
  refine ⟨limited, ?_, hclamped.holds _ (by decide) _ hmax, hsame.trans hlookup, ?_, hlowered, ?_⟩
  · rw [limitCompletions_eq, hsecond, ok_bind, hclamp]
  · intro hsome
    rw [hsame] at hsome
    exact hclamped.holds _ (by decide) _ (hheld hsome)
  · intro key hkey
    simp only [writtenKeys, List.mem_cons, List.not_mem_nil, or_false, not_or] at hkey
    rw [hclamped.lookup key (by simp [hkey]), hchanged.lookup key (by simp [hkey]),
      hfirst.lookup key (by simp [hkey])]

/-- Entries whose tokens the API limits already. -/
def FixedLimit : Api → List (String × Value) → Prop
  | .generate, entries => ∃ params, Holds "sampling_params" (.object params) entries ∧
      Holds "max_tokens" (ofInt 1) params ∧ AtMostOne (params.lookup "min_tokens")
  | .responses, entries => Holds "max_output_tokens" (ofInt 1) entries
  | .completions, entries => Holds "max_tokens" (ofInt 1) entries ∧
      ((entries.lookup "max_completion_tokens").isSome →
        Holds "max_completion_tokens" (ofInt 1) entries) ∧
      AtMostOne (entries.lookup "min_tokens")

theorem limitTokens_eq (request : Value) (path : String) :
    limitTokens request path =
      match apiOf path with
      | .generate => limitGenerate request
      | .responses => request.indexSet "max_output_tokens" (.ofInt 1)
      | .completions => limitCompletions request := by
  unfold limitTokens apiOf
  split
  · rfl
  · split <;> rfl

theorem limitTokens_spec {entries : List (String × Value)} {path : String}
    (h : patchable (.object entries) path = true) :
    ∃ limited, limitTokens (.object entries) path = .ok (.object limited) ∧
      FixedLimit (apiOf path) limited ∧
      TokensLimited (apiOf path) (.object entries) (.object limited) ∧
      ∀ key ∉ writtenKeys (apiOf path), limited.lookup key = entries.lookup key := by
  rw [limitTokens_eq]
  cases hapi : apiOf path with
  | generate =>
      have hgenerate : containsText path "inference/v1/generate" = true := by
        by_contra hnot
        rw [apiOf, if_neg hnot] at hapi
        split at hapi <;> cases hapi
      have hparams : ((entries.lookup "sampling_params").map indexable).getD true = true := by
        rw [patchable, Bool.and_eq_true, hgenerate] at h
        exact h.2
      obtain ⟨params, hok, hlimited⟩ := limitGenerate_spec hparams
      have hholds := holds_insertEntry "sampling_params" (.object params) entries
      refine ⟨_, hok, ⟨params, hholds, hlimited.maxTokens, hlimited.minTokens⟩,
        ⟨_, hholds.lookup, hlimited.maxTokens.lookup, hlimited.minTokens, hlimited.lowered,
          hlimited.other⟩, fun key hkey => ?_⟩
      apply lookup_insertEntry_of_ne
      rintro rfl
      exact hkey (by decide)
  | responses =>
      have hholds := holds_insertEntry "max_output_tokens" (ofInt 1) entries
      refine ⟨_, rfl, hholds, hholds.lookup, fun key hkey => ?_⟩
      apply lookup_insertEntry_of_ne
      rintro rfl
      exact hkey (by decide)
  | completions =>
      obtain ⟨limited, hok, hlimited⟩ := limitCompletions_spec entries
      exact ⟨limited, hok, ⟨hlimited.maxTokens, hlimited.held, hlimited.lowered.1⟩,
        ⟨hlimited.maxTokens.lookup, hlimited.maxCompletionTokens, hlimited.lowered⟩, hlimited.other⟩

theorem limitTokens_of_fixed {entries : List (String × Value)} {path : String}
    (h : FixedLimit (apiOf path) entries) :
    limitTokens (.object entries) path = .ok (.object entries) := by
  rw [limitTokens_eq]
  cases hapi : apiOf path with
  | generate =>
      rw [hapi] at h
      obtain ⟨params, hparams, hmax, hmin⟩ := h
      have hget : (Value.object entries).get "sampling_params" = some (.object params) :=
        hparams.lookup
      dsimp only
      rw [limitGenerate, hget]
      simp only [indexSet, hmax.insertEntry_eq, ok_bind, clampMinTokens_of_atMostOne hmin,
        insertIfObject, hparams.insertEntry_eq]
  | responses =>
      rw [hapi] at h
      simp only [indexSet, Holds.insertEntry_eq h]
  | completions =>
      rw [hapi] at h
      obtain ⟨hmax, hcompletion, hmin⟩ := h
      dsimp only
      rw [limitCompletions_eq, hmax.insertEntry_eq, limitMaxCompletionTokens]
      split
      · rename_i hsome
        rw [indexSet, (hcompletion hsome).insertEntry_eq, ok_bind, clampMinTokens_of_atMostOne hmin]
      · rw [ok_bind, clampMinTokens_of_atMostOne hmin]

/-- Streaming is turned off. -/
def finished (entries : List (String × Value)) : List (String × Value) :=
  removeEntry "stream_options" (insertEntry "stream" (.bool false) entries)

theorem preparePrefillRequest_of_limited {entries limited : List (String × Value)} {path : String}
    (h : limitTokens (.object entries) path = .ok (.object limited)) :
    preparePrefillRequest (.object entries) path = .ok (.object (finished limited)) := by
  rw [preparePrefillRequest, h]
  rfl

theorem changedOnly_finished (entries : List (String × Value)) :
    ChangedOnly ["stream", "stream_options"] entries (finished entries) :=
  (ChangedOnly.insertEntry "stream" _ entries).trans (ChangedOnly.removeEntry "stream_options" _)

theorem holds_finished_stream (entries : List (String × Value)) :
    Holds "stream" (.bool false) (finished entries) :=
  (holds_insertEntry _ _ entries).removeEntry_of_ne (by decide)

theorem lookup_finished_streamOptions (entries : List (String × Value)) :
    (finished entries).lookup "stream_options" = none :=
  lookup_removeEntry_self _ _

theorem finished_of_finished (entries : List (String × Value)) :
    finished (finished entries) = finished entries := by
  have hstream := (holds_finished_stream entries).insertEntry_eq
  have hnone := removeEntry_of_lookup_none (lookup_finished_streamOptions entries)
  calc finished (finished entries)
      = removeEntry "stream_options" (finished entries) := by rw [finished, hstream]
    _ = finished entries := hnone

theorem fixedLimit_finished {api : Api} {entries : List (String × Value)}
    (h : FixedLimit api entries) : FixedLimit api (finished entries) := by
  have hchanged := changedOnly_finished entries
  cases api with
  | generate =>
      obtain ⟨params, hparams, hmax, hmin⟩ := h
      exact ⟨params, hchanged.holds _ (by decide) _ hparams, hmax, hmin⟩
  | responses => exact hchanged.holds _ (by decide) _ h
  | completions =>
      obtain ⟨hmax, hcompletion, hmin⟩ := h
      refine ⟨hchanged.holds _ (by decide) _ hmax, fun hsome => ?_, ?_⟩
      · rw [hchanged.lookup _ (by decide)] at hsome
        exact hchanged.holds _ (by decide) _ (hcompletion hsome)
      · rw [hchanged.lookup _ (by decide)]
        exact hmin

theorem tokensLimited_finished {api : Api} {request : Value} {entries : List (String × Value)}
    (h : TokensLimited api request (.object entries)) :
    TokensLimited api request (.object (finished entries)) := by
  have hget : ∀ key ∉ ["stream", "stream_options"],
      (Value.object (finished entries)).get key = (Value.object entries).get key :=
    (changedOnly_finished entries).lookup
  cases api with
  | generate =>
      obtain ⟨params, hparams, hrest⟩ := h
      exact ⟨params, (hget _ (by decide)).trans hparams, hrest⟩
  | responses => exact (hget _ (by decide)).trans h
  | completions =>
      obtain ⟨hmax, hcompletion, hlowered⟩ := h
      refine ⟨(hget _ (by decide)).trans hmax, (hget _ (by decide)).trans hcompletion, ?_⟩
      rw [hget _ (by decide)]
      exact hlowered

/-- For every request that can be patched, the result limits generation and nothing else, and
preparing it again changes nothing. -/
theorem preparePrefillRequest_prefillOnly {entries : List (String × Value)} {path : String}
    (h : patchable (.object entries) path = true) :
    ∃ result, preparePrefillRequest (.object entries) path = .ok result ∧
      PrefillOnly path (.object entries) result ∧ preparePrefillRequest result path = .ok result := by
  obtain ⟨limited, hok, hfixed, htokens, hother⟩ := limitTokens_spec h
  refine ⟨.object (finished limited), preparePrefillRequest_of_limited hok, ?_, ?_⟩
  · refine ⟨tokensLimited_finished htokens, (holds_finished_stream limited).lookup,
      lookup_finished_streamOptions limited, fun key hkey => ?_⟩
    have hfinished : key ∉ ["stream", "stream_options"] := by
      intro hmem
      apply hkey
      cases apiOf path <;> simp_all [writtenKeys]
    exact ((changedOnly_finished limited).lookup key hfinished).trans (hother key hkey)
  · rw [preparePrefillRequest_of_limited (limitTokens_of_fixed (fixedLimit_finished hfixed)),
      finished_of_finished]

/-- `null` sampling parameters. -/
theorem preparePrefillRequest_prefillOnly_null :
    ∃ result, preparePrefillRequest (.object [("sampling_params", .null)]) "/inference/v1/generate" =
        .ok result ∧
      PrefillOnly "/inference/v1/generate" (.object [("sampling_params", .null)]) result ∧
        preparePrefillRequest result "/inference/v1/generate" = .ok result := by
  apply preparePrefillRequest_prefillOnly
  change (true && (!_ || true)) = true
  rw [Bool.or_true]
  rfl

end TokenDog
