import TokenDog.Json.Paths
import TokenDog.Routes.LogprobsMerge

/-!
# What a merge leaves alone

The decode response changes at most where prompt logprobs are put in front of what it has.
-/

namespace TokenDog

open Value

/-- The locations a merge can write to. An array is merged only where the decode has one. -/
inductive Touched (prefillJson decodeJson : Value) : List Step → Prop where
  | metaInfo {elems : List Value}
      (hdecode : decodeJson.atPath [.key "meta_info", .key "input_token_logprobs"] =
        some (.array elems)) :
      Touched prefillJson decodeJson [.key "meta_info", .key "input_token_logprobs"]
  | promptLogprobs : Touched prefillJson decodeJson [.key "prompt_logprobs"]
  | choicePromptLogprobs {i : Nat} {prefillChoice decodeChoice : Value}
      (hprefill : prefillJson.atPath [.key "choices", .index i] = some prefillChoice)
      (hdecode : decodeJson.atPath [.key "choices", .index i] = some decodeChoice) :
      Touched prefillJson decodeJson [.key "choices", .index i, .key "prompt_logprobs"]
  | logprobs {i : Nat} {prefillChoice : Value} {key : String} {elems : List Value}
      (hkey : key ∈ mergedKeys)
      (hprefill : prefillJson.atPath [.key "choices", .index i] = some prefillChoice)
      (hdecode : decodeJson.atPath [.key "choices", .index i, .key "logprobs", .key key] =
        some (.array elems)) :
      Touched prefillJson decodeJson [.key "choices", .index i, .key "logprobs", .key key]

/-- The members of a value that are arrays under one of these keys. -/
def ArrayAt (keys : List String) (value : Value) (location : List Step) : Prop :=
  ∃ key ∈ keys, ∃ elems, value.get key = some (.array elems) ∧ location = [.key key]

theorem agreesOutside_spliceArray (prefillLp : Value) (key : String)
    (splice : List Value → List Value → List Value) (decodeLp : Value) :
    AgreesOutside (ArrayAt [key] decodeLp) decodeLp
      (spliceArray prefillLp key splice decodeLp).2 := by
  unfold spliceArray
  split
  · rename_i hdecodeArr
    apply agreesOutside_insertIfObject
    exact ⟨key, List.mem_singleton_self key, _, get_bind_asArray_eq_some_iff.mp hdecodeArr, rfl⟩
  · exact AgreesOutside.refl _ _

theorem agreesOutside_spliceAll (prefillLp : Value)
    {parts : List (String × (List Value → List Value → List Value))}
    (hnodup : (parts.map Prod.fst).Nodup) (decodeLp : Value) :
    AgreesOutside (ArrayAt (parts.map Prod.fst) decodeLp) decodeLp
      (spliceAll prefillLp parts decodeLp).2 := by
  induction parts generalizing decodeLp with
  | nil => exact AgreesOutside.refl _ _
  | cons part rest ih =>
      obtain ⟨key, splice⟩ := part
      rw [List.map_cons, List.nodup_cons] at hnodup
      rw [spliceAll, List.map_cons]
      refine AgreesOutside.trans ((agreesOutside_spliceArray prefillLp key splice decodeLp).mono ?_)
        ((ih hnodup.2 _).mono ?_)
      · rintro _ ⟨name, hname, elems, helems, rfl⟩
        rw [List.mem_singleton] at hname
        subst hname
        exact ⟨name, List.mem_cons_self, elems, helems, rfl⟩
      · rintro _ ⟨name, hname, elems, helems, rfl⟩
        have hne : name ≠ key := by
          rintro rfl
          exact hnodup.1 hname
        rw [get_spliceArray_of_ne hne] at helems
        exact ⟨name, List.mem_cons_of_mem _ hname, elems, helems, rfl⟩

theorem agreesOutside_copyPromptLogprobs {touched : List Step → Prop}
    (htouched : touched [.key "prompt_logprobs"]) (prefill decode : Value) :
    AgreesOutside touched decode (copyPromptLogprobs prefill decode).2 := by
  unfold copyPromptLogprobs
  split
  · exact agreesOutside_insertIfObject htouched (.object _) _
  · exact AgreesOutside.refl _ _

theorem agreesOutside_mergedChoice {prefillJson decodeJson prefillChoice decodeChoice : Value}
    {i : Nat} (hprefill : prefillJson.atPath [.key "choices", .index i] = some prefillChoice)
    (hdecode : decodeJson.atPath [.key "choices", .index i] = some decodeChoice) :
    AgreesOutside (fun location => Touched prefillJson decodeJson
      (.key "choices" :: .index i :: location)) decodeChoice
        (mergedChoice prefillChoice decodeChoice).2 := by
  have hcopied : AgreesOutside (fun location => Touched prefillJson decodeJson
      (.key "choices" :: .index i :: location)) decodeChoice
        (copyPromptLogprobs prefillChoice decodeChoice).2 :=
    agreesOutside_copyPromptLogprobs (Touched.choicePromptLogprobs hprefill hdecode) _ _
  unfold mergedChoice
  dsimp only
  split
  · rename_i prefillLp decodeLp hprefillLp hdecodeLp
    apply hcopied.trans
    apply agreesOutside_writeBack hdecodeLp
    apply (agreesOutside_spliceAll prefillLp (nodup_logprobsParts _ prefillLp) decodeLp).mono
    rintro _ ⟨key, hkey, elems, helems, rfl⟩
    rw [get_copyPromptLogprobs _ _ (by decide)] at hdecodeLp
    have harray : decodeJson.atPath ([.key "choices", .index i] ++ [.key "logprobs", .key key]) =
        some (.array elems) := by
      rw [atPath_append, hdecode]
      simp [atPath, child, hdecodeLp, helems]
    exact Touched.logprobs hkey hprefill harray
  · exact hcopied

theorem agreesOutside_mergedMetaInfo (prefillJson decodeJson : Value) :
    AgreesOutside (Touched prefillJson decodeJson) decodeJson
      (mergedMetaInfo prefillJson decodeJson).2 := by
  unfold mergedMetaInfo
  split
  · rename_i prefillMeta decodeMeta hprefillMeta hdecodeMeta
    apply agreesOutside_writeBack hdecodeMeta
    apply (agreesOutside_spliceArray prefillMeta "input_token_logprobs" _ decodeMeta).mono
    rintro _ ⟨key, hkey, elems, helems, rfl⟩
    rw [List.mem_singleton] at hkey
    subst hkey
    have harray : decodeJson.atPath [.key "meta_info", .key "input_token_logprobs"] =
        some (.array elems) := by
      simp [atPath, child, hdecodeMeta, helems]
    exact Touched.metaInfo harray
  · exact AgreesOutside.refl _ _

theorem atPath_choices {json : Value} {choices : List Value}
    (hchoices : (json.get "choices").bind asArray = some choices) (i : Nat) :
    json.atPath [.key "choices", .index i] = choices[i]? := by
  have hget := get_bind_asArray_eq_some_iff.mp hchoices
  simp [atPath, child, hget, asArray]

theorem agreesOutside_mergedJson (prefillJson decodeJson : Value) :
    AgreesOutside (Touched prefillJson decodeJson) decodeJson
      (mergedJson prefillJson decodeJson).2 := by
  have hmeta := agreesOutside_mergedMetaInfo prefillJson decodeJson
  have hcopied := hmeta.trans
    (agreesOutside_copyPromptLogprobs Touched.promptLogprobs prefillJson _)
  unfold mergedJson
  dsimp only
  split
  · rename_i choices prefillChoices hdecode hprefill
    apply hcopied.trans
    apply agreesOutside_writeBack (get_bind_asArray_eq_some_iff.mp hdecode)
    apply agreesOutside_array
    · exact (length_mergedChoices choices prefillChoices).symm
    · intro i decodeChoice merged hdecodeChoice hmerged
      rw [get_choices_copyPromptLogprobs] at hdecode
      rw [getElem?_mergedChoices, hdecodeChoice] at hmerged
      have hdecodeAt := (atPath_choices hdecode i).trans hdecodeChoice
      split at hmerged
      · rename_i prefillChoice heq hprefillChoice
        cases heq
        cases hmerged
        have hprefillAt := (atPath_choices hprefill i).trans hprefillChoice
        exact agreesOutside_mergedChoice hprefillAt hdecodeAt
      · cases hmerged
        exact AgreesOutside.refl _ _
  · exact hcopied

theorem mergedChoice_of_false {prefillChoice decodeChoice : Value}
    (hfalse : (mergedChoice prefillChoice decodeChoice).1 = false) :
    (mergedChoice prefillChoice decodeChoice).2 = decodeChoice := by
  unfold mergedChoice at hfalse ⊢
  dsimp only at hfalse ⊢
  split at hfalse
  · rename_i prefillLp decodeLp hprefillLp hdecodeLp
    obtain ⟨hcopied, hspliced⟩ := Bool.or_eq_false_iff.mp hfalse
    dsimp only
    rw [spliceAll_of_false hspliced, writeBack_of_get hdecodeLp, copyPromptLogprobs_of_false hcopied]
  · exact copyPromptLogprobs_of_false hfalse

theorem mergedChoices_of_false {choices prefillChoices : List Value}
    (hfalse : (mergedChoices choices prefillChoices).1 = false) :
    (mergedChoices choices prefillChoices).2 = choices := by
  induction choices generalizing prefillChoices with
  | nil => rfl
  | cons decodeChoice decodeRest ih =>
      cases prefillChoices with
      | nil => rfl
      | cons prefillChoice prefillRest =>
          rw [mergedChoices] at hfalse ⊢
          obtain ⟨hfirst, hrest⟩ := Bool.or_eq_false_iff.mp hfalse
          rw [mergedChoice_of_false hfirst, ih hrest]

theorem mergedMetaInfo_of_false {prefillJson decodeJson : Value}
    (hfalse : (mergedMetaInfo prefillJson decodeJson).1 = false) :
    (mergedMetaInfo prefillJson decodeJson).2 = decodeJson := by
  unfold mergedMetaInfo at hfalse ⊢
  split at hfalse
  · rename_i prefillMeta decodeMeta hprefillMeta hdecodeMeta
    dsimp only
    rw [spliceArray_of_false hfalse, writeBack_of_get hdecodeMeta]
  · rfl

theorem mergedJson_of_false {prefillJson decodeJson : Value}
    (hfalse : (mergedJson prefillJson decodeJson).1 = false) :
    (mergedJson prefillJson decodeJson).2 = decodeJson := by
  unfold mergedJson at hfalse ⊢
  dsimp only at hfalse ⊢
  split at hfalse
  · rename_i choices prefillChoices hdecode hprefill
    obtain ⟨hbefore, hmerged⟩ := Bool.or_eq_false_iff.mp hfalse
    obtain ⟨hmeta, hcopied⟩ := Bool.or_eq_false_iff.mp hbefore
    dsimp only
    rw [mergedChoices_of_false hmerged, writeBack_of_get (get_bind_asArray_eq_some_iff.mp hdecode),
      copyPromptLogprobs_of_false hcopied, mergedMetaInfo_of_false hmeta]
  · obtain ⟨hmeta, hcopied⟩ := Bool.or_eq_false_iff.mp hfalse
    exact (copyPromptLogprobs_of_false hcopied).trans (mergedMetaInfo_of_false hmeta)

/-- A merge writes to the locations it can touch and nowhere else, and when it returns false it has
written nothing. -/
theorem mergeLogprobsInJson_frame {prefillJson decodeJson decodeJson' : Value} {merged : Bool}
    (h : mergeLogprobsInJson prefillJson decodeJson = .ok (merged, decodeJson')) :
    AgreesOutside (Touched prefillJson decodeJson) decodeJson decodeJson' ∧
      (merged = false → decodeJson' = decodeJson) := by
  obtain ⟨rfl, rfl⟩ := mergeLogprobsInJson_eq_ok h
  exact ⟨agreesOutside_mergedJson prefillJson decodeJson, mergedJson_of_false⟩

/-- A choice with logprobs on both sides. -/
def promptChoice : Value :=
  .object [("logprobs", .object [("text_offset", .array [.ofInt 0, .ofInt 5]),
      ("tokens", .array [.string "Hello", .string " w"])]),
    ("prompt_logprobs", .array [.null, .null])]

def answerChoice : Value :=
  .object [("index", .ofInt 0),
    ("logprobs", .object [("text_offset", .array [.ofInt 0]), ("tokens", .array [.string "!"])]),
    ("text", .string "!")]

def mergedAnswer : Value :=
  .object [("index", .ofInt 0),
    ("logprobs", .object [("text_offset", .array [.ofInt 0, .ofInt 5, .ofInt 7]),
      ("tokens", .array [.string "Hello", .string " w", .string "!"])]),
    ("prompt_logprobs", .array [.null, .null]), ("text", .string "!")]

theorem mergeLogprobsInJson_frame_chat :
    mergeLogprobsInJson (.object [("choices", .array [promptChoice])])
        (.object [("choices", .array [answerChoice]), ("id", .string "1")]) =
          .ok (true, .object [("choices", .array [mergedAnswer]), ("id", .string "1")]) ∧
      AgreesOutside
        (Touched (.object [("choices", .array [promptChoice])])
          (.object [("choices", .array [answerChoice]), ("id", .string "1")]))
        (.object [("choices", .array [answerChoice]), ("id", .string "1")])
        (.object [("choices", .array [mergedAnswer]), ("id", .string "1")]) := by
  have hmerge : mergeLogprobsInJson (.object [("choices", .array [promptChoice])])
      (.object [("choices", .array [answerChoice]), ("id", .string "1")]) =
        .ok (true, .object [("choices", .array [mergedAnswer]), ("id", .string "1")]) := by rfl
  exact ⟨hmerge, (mergeLogprobsInJson_frame hmerge).1⟩

end TokenDog
