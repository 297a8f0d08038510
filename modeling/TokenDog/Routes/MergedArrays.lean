import TokenDog.Routes.MergeFrame
import Mathlib.Data.String.Basic

/-!
# The merged arrays

What a merge puts in the arrays of a `logprobs` object, for every pair of choices. Decode offsets
that are no integers are dropped where the offsets are moved, and the prompt's last token is measured
in bytes.
-/

namespace TokenDog

open Value

def logprobsArray (json : Value) (i : Nat) (key : String) : Option (List Value) :=
  (json.atPath [.key "choices", .index i, .key "logprobs", .key key]).bind asArray

def promptCount (json : Value) (i : Nat) : Nat :=
  ((json.atPath [.key "choices", .index i]).map numPrompt).getD 0

def promptTokenLen (json : Value) (i : Nat) : Int :=
  ((json.atPath [.key "choices", .index i, .key "logprobs"]).map
    (lastTokenLen (promptCount json i))).getD 0

theorem logprobsArray_eq_some {json : Value} {i : Nat} {key : String} {elems : List Value}
    (h : logprobsArray json i key = some elems) :
    ∃ choices choice lp, (json.get "choices").bind asArray = some choices ∧
      choices[i]? = some choice ∧ choice.get "logprobs" = some lp ∧
        (lp.get key).bind asArray = some elems := by
  obtain ⟨inner, hinner, hasArray⟩ := Option.bind_eq_some_iff.mp h
  simp only [atPath, child, Option.bind_eq_some_iff] at hinner
  obtain ⟨choices, hchoices, choice, ⟨elems', helems', hchoice⟩, lp, hlp, inner', hinner', heq⟩ :=
    hinner
  cases heq
  refine ⟨elems', choice, lp, ?_, hchoice, hlp, ?_⟩
  · rw [hchoices]
    exact helems'
  · rw [hinner']
    exact hasArray

theorem logprobsArray_of_choice {json choice lp : Value} {choices : List Value} {i : Nat}
    (hchoices : (json.get "choices").bind asArray = some choices) (hchoice : choices[i]? = some choice)
    (hlp : choice.get "logprobs" = some lp) (key : String) :
    logprobsArray json i key = (lp.get key).bind asArray := by
  have hget := get_bind_asArray_eq_some_iff.mp hchoices
  simp only [logprobsArray, atPath, child, hget, Option.bind_some]
  change ((choices[i]?.bind _).bind asArray) = _
  rw [hchoice]
  simp [hlp]

theorem promptCount_of_choice {json choice : Value} {choices : List Value} {i : Nat}
    (hchoices : (json.get "choices").bind asArray = some choices)
    (hchoice : choices[i]? = some choice) : promptCount json i = numPrompt choice := by
  rw [promptCount, atPath_choices hchoices, hchoice]
  rfl

theorem promptTokenLen_of_choice {json choice lp : Value} {choices : List Value} {i : Nat}
    (hchoices : (json.get "choices").bind asArray = some choices)
    (hchoice : choices[i]? = some choice) (hlp : choice.get "logprobs" = some lp) :
    promptTokenLen json i = lastTokenLen (promptCount json i) lp := by
  have hat : json.atPath ([.key "choices", .index i] ++ [.key "logprobs"]) = some lp := by
    rw [atPath_append, atPath_choices hchoices, hchoice]
    simp [atPath, child, hlp]
  rw [promptTokenLen, show [Step.key "choices", .index i, .key "logprobs"] =
    [.key "choices", .index i] ++ [.key "logprobs"] from rfl, hat]
  rfl

theorem get_mergedJson_choices {prefillJson decodeJson : Value} {choices prefillChoices : List Value}
    (hdecode : (decodeJson.get "choices").bind asArray = some choices)
    (hprefill : (prefillJson.get "choices").bind asArray = some prefillChoices) :
    (mergedJson prefillJson decodeJson).2.get "choices" =
      some (.array (mergedChoices choices prefillChoices).2) := by
  have hchoices := get_choices_copyPromptLogprobs prefillJson decodeJson
  have hget := hchoices.trans (get_bind_asArray_eq_some_iff.mp hdecode)
  rw [← hchoices] at hdecode
  unfold mergedJson
  dsimp only
  rw [hdecode, hprefill]
  exact get_writeBack_self hget _

theorem get_mergedChoice_logprobs {prefillChoice decodeChoice prefillLp decodeLp : Value}
    (hprefillLp : prefillChoice.get "logprobs" = some prefillLp)
    (hdecodeLp : decodeChoice.get "logprobs" = some decodeLp) :
    (mergedChoice prefillChoice decodeChoice).2.get "logprobs" =
      some (spliceAll prefillLp (logprobsParts (numPrompt prefillChoice) prefillLp) decodeLp).2 := by
  have hlogprobs := (get_copyPromptLogprobs prefillChoice decodeChoice
    (show "logprobs" ≠ "prompt_logprobs" by decide)).trans hdecodeLp
  unfold mergedChoice
  dsimp only
  rw [hprefillLp, hlogprobs]
  exact get_writeBack_self hlogprobs _

theorem logprobsArray_mergedJson {prefillJson decodeJson : Value} {i : Nat} {key : String}
    {prefillArr decodeArr : List Value}
    (hprefillArr : logprobsArray prefillJson i key = some prefillArr)
    (hdecodeArr : logprobsArray decodeJson i key = some decodeArr) :
    ∃ prefillLp, promptTokenLen prefillJson i = lastTokenLen (promptCount prefillJson i) prefillLp ∧
      ∀ splice, (key, splice) ∈ logprobsParts (promptCount prefillJson i) prefillLp →
        logprobsArray (mergedJson prefillJson decodeJson).2 i key =
          some (splice prefillArr decodeArr) := by
  obtain ⟨prefillChoices, prefillChoice, prefillLp, hprefill, hprefillChoice, hprefillLp, hpa⟩ :=
    logprobsArray_eq_some hprefillArr
  obtain ⟨choices, decodeChoice, decodeLp, hdecode, hdecodeChoice, hdecodeLp, hda⟩ :=
    logprobsArray_eq_some hdecodeArr
  refine ⟨prefillLp, promptTokenLen_of_choice hprefill hprefillChoice hprefillLp,
    fun splice hpart => ?_⟩
  have hmerged := get_mergedJson_choices hdecode hprefill
  have hchoice : (mergedChoices choices prefillChoices).2[i]? =
      some (mergedChoice prefillChoice decodeChoice).2 := by
    rw [getElem?_mergedChoices, hdecodeChoice, hprefillChoice]
  have hlp := get_mergedChoice_logprobs hprefillLp hdecodeLp
  rw [promptCount_of_choice hprefill hprefillChoice] at hpart
  rw [logprobsArray_of_choice (by rw [hmerged]; rfl) hchoice hlp,
    get_spliceAll_of_mem (nodup_logprobsParts _ _) hpart hpa hda]
  rfl

/-- The array of the merged response is what is kept of the prompt, then as many entries as the
decode had, and these are the decode's own except for the offsets. -/
def Spliced (prefillJson decodeJson merged : Value) : Prop :=
  ∀ i, ∀ key ∈ mergedKeys, ∀ prefillArr decodeArr,
    logprobsArray prefillJson i key = some prefillArr →
    logprobsArray decodeJson i key = some decodeArr →
    ∃ generated, logprobsArray merged i key =
        some (prefillArr.take (promptCount prefillJson i) ++ generated) ∧
      generated.length = decodeArr.length ∧ (key ≠ "text_offset" → generated = decodeArr)

/-- The four arrays of the choice have one length. -/
def SameLengths (json : Value) (i length : Nat) : Prop :=
  ∀ key ∈ mergedKeys, ∃ elems, logprobsArray json i key = some elems ∧ elems.length = length

/-- The responses are merged and the arrays stay aligned. -/
def MergedAligned (prefillJson decodeJson : Value) : Prop :=
  ∃ flag merged, mergeLogprobsInJson prefillJson decodeJson = .ok (flag, merged) ∧
    Spliced prefillJson decodeJson merged ∧
    ∀ i prefillLength decodeLength, SameLengths prefillJson i prefillLength →
      SameLengths decodeJson i decodeLength →
        SameLengths merged i (min (promptCount prefillJson i) prefillLength + decodeLength)

/-- Where an offset of the prompt is kept, every offset of the decode is an integer. -/
def OffsetsKept (prefillJson decodeJson : Value) : Prop :=
  ∀ i prefillArr decodeArr, logprobsArray prefillJson i "text_offset" = some prefillArr →
    logprobsArray decodeJson i "text_offset" = some decodeArr →
    prefillArr.take (promptCount prefillJson i) = [] ∨ ∀ offset ∈ decodeArr, offset.asI64.isSome

theorem length_movedOffsets (numPrompt : Nat) (prefillLp : Value) (prefillArr decodeArr : List Value) :
    (movedOffsets numPrompt prefillLp prefillArr decodeArr).length = decodeArr.length ↔
      prefillArr.take numPrompt = [] ∨ ∀ offset ∈ decodeArr, offset.asI64.isSome := by
  unfold movedOffsets
  split
  · rename_i last hlast
    have hne : prefillArr.take numPrompt ≠ [] := by
      intro hnil
      rw [hnil] at hlast
      cases hlast
    rw [List.length_map, List.filterMap_length_eq_length]
    exact ⟨Or.inr, fun h => h.resolve_left hne⟩
  · rename_i hlast
    exact iff_of_true rfl (Or.inl (List.getLast?_eq_none_iff.mp hlast))

theorem logprobsArray_mergedJson_offsets {prefillJson decodeJson : Value} {i : Nat}
    {prefillArr decodeArr : List Value}
    (hprefillArr : logprobsArray prefillJson i "text_offset" = some prefillArr)
    (hdecodeArr : logprobsArray decodeJson i "text_offset" = some decodeArr) :
    ∃ prefillLp, promptTokenLen prefillJson i = lastTokenLen (promptCount prefillJson i) prefillLp ∧
      logprobsArray (mergedJson prefillJson decodeJson).2 i "text_offset" =
        some (prefillArr.take (promptCount prefillJson i) ++
          movedOffsets (promptCount prefillJson i) prefillLp prefillArr decodeArr) := by
  obtain ⟨prefillLp, hlen, hmerged⟩ := logprobsArray_mergedJson hprefillArr hdecodeArr
  exact ⟨prefillLp, hlen, hmerged _ (List.mem_cons_of_mem _ (List.mem_cons_of_mem _
    List.mem_cons_self))⟩

theorem logprobsArray_mergedJson_of_ne {prefillJson decodeJson : Value} {i : Nat} {key : String}
    {prefillArr decodeArr : List Value} (hkey : key ∈ mergedKeys) (hne : key ≠ "text_offset")
    (hprefillArr : logprobsArray prefillJson i key = some prefillArr)
    (hdecodeArr : logprobsArray decodeJson i key = some decodeArr) :
    logprobsArray (mergedJson prefillJson decodeJson).2 i key =
      some (prefillArr.take (promptCount prefillJson i) ++ decodeArr) := by
  obtain ⟨prefillLp, -, hmerged⟩ := logprobsArray_mergedJson hprefillArr hdecodeArr
  apply hmerged fun prefillArr decodeArr => prefillArr.take (promptCount prefillJson i) ++ decodeArr
  simp only [mergedKeys, List.mem_cons, List.not_mem_nil, or_false] at hkey
  rcases hkey with rfl | rfl | rfl | rfl
  · exact List.mem_cons_self
  · exact List.mem_cons_of_mem _ List.mem_cons_self
  · exact absurd rfl hne
  · exact List.mem_cons_of_mem _ (List.mem_cons_of_mem _ (List.mem_cons_of_mem _ List.mem_cons_self))

theorem offsetsKept_of_spliced {prefillJson decodeJson : Value}
    (hspliced : Spliced prefillJson decodeJson (mergedJson prefillJson decodeJson).2) :
    OffsetsKept prefillJson decodeJson := by
  intro i prefillArr decodeArr hprefillArr hdecodeArr
  obtain ⟨prefillLp, -, hmerged⟩ := logprobsArray_mergedJson_offsets hprefillArr hdecodeArr
  obtain ⟨generated, hgenerated, hlength, -⟩ :=
    hspliced i "text_offset" (by decide) prefillArr decodeArr hprefillArr hdecodeArr
  rw [hmerged, Option.some.injEq, List.append_cancel_left_eq] at hgenerated
  rw [← length_movedOffsets _ prefillLp, hgenerated]
  exact hlength

theorem spliced_of_offsetsKept {prefillJson decodeJson : Value}
    (hkept : OffsetsKept prefillJson decodeJson) :
    Spliced prefillJson decodeJson (mergedJson prefillJson decodeJson).2 := by
  intro i key hkey prefillArr decodeArr hprefillArr hdecodeArr
  by_cases hoffset : key = "text_offset"
  · subst hoffset
    obtain ⟨prefillLp, -, hmerged⟩ := logprobsArray_mergedJson_offsets hprefillArr hdecodeArr
    exact ⟨_, hmerged, (length_movedOffsets _ _ _ _).mpr (hkept i _ _ hprefillArr hdecodeArr),
      fun hne => absurd rfl hne⟩
  · exact ⟨decodeArr, logprobsArray_mergedJson_of_ne hkey hoffset hprefillArr hdecodeArr, rfl,
      fun _ => rfl⟩

theorem Spliced.sameLengths {prefillJson decodeJson merged : Value}
    (hspliced : Spliced prefillJson decodeJson merged) {i prefillLength decodeLength : Nat}
    (hprefill : SameLengths prefillJson i prefillLength)
    (hdecode : SameLengths decodeJson i decodeLength) :
    SameLengths merged i (min (promptCount prefillJson i) prefillLength + decodeLength) := by
  intro key hkey
  obtain ⟨prefillArr, hprefillArr, hprefillLength⟩ := hprefill key hkey
  obtain ⟨decodeArr, hdecodeArr, hdecodeLength⟩ := hdecode key hkey
  obtain ⟨generated, hmerged, hlength, -⟩ :=
    hspliced i key hkey prefillArr decodeArr hprefillArr hdecodeArr
  refine ⟨_, hmerged, ?_⟩
  rw [List.length_append, List.length_take, hlength, hprefillLength, hdecodeLength]

/-- A merge keeps the arrays aligned exactly if no offset overflows and none is dropped. -/
theorem mergedAligned_iff (prefillJson decodeJson : Value) :
    MergedAligned prefillJson decodeJson ↔
      ChoicesFit prefillJson decodeJson ∧ OffsetsKept prefillJson decodeJson := by
  constructor
  · rintro ⟨flag, merged, hmerge, hspliced, -⟩
    obtain ⟨-, rfl⟩ := mergeLogprobsInJson_eq_ok hmerge
    exact ⟨(exists_mergeLogprobsInJson_iff _ _).mp ⟨_, hmerge⟩, offsetsKept_of_spliced hspliced⟩
  · rintro ⟨hfits, hkept⟩
    have hspliced := spliced_of_offsetsKept hkept
    exact ⟨_, _, mergeLogprobsInJson_of_fits hfits, hspliced,
      fun i _ _ hprefill hdecode => hspliced.sameLengths hprefill hdecode⟩

/-- A decode offset is `null`. -/
theorem not_mergedAligned_of_null_offset :
    ¬MergedAligned
      (.object [("choices", .array [.object [
        ("logprobs", .object [
          ("text_offset", .array [.ofInt 0]),
          ("tokens", .array [.string "a"])]),
        ("prompt_logprobs", .array [.null])]])])
      (.object [("choices", .array [.object [
        ("logprobs", .object [
          ("text_offset", .array [.null]),
          ("tokens", .array [.string "b"])])]])]) := by
  rintro ⟨flag, merged, hmerge, hspliced, -⟩
  obtain ⟨-, rfl⟩ := mergeLogprobsInJson_eq_ok hmerge
  rcases offsetsKept_of_spliced hspliced 0 _ _ rfl rfl with hnil | hinteger
  · cases hnil
  · have := hinteger .null List.mem_cons_self
    cases this

theorem length_le_utf8Len (chars : List Char) : chars.length ≤ String.utf8Len chars := by
  induction chars with
  | nil => exact le_rfl
  | cons c rest ih =>
      have := c.utf8Size_pos
      rw [List.length_cons, String.utf8Len_cons]
      omega

theorem utf8Len_eq_length_iff (chars : List Char) :
    String.utf8Len chars = chars.length ↔ ∀ c ∈ chars, c.toNat < 128 := by
  induction chars with
  | nil => simp
  | cons c rest ih =>
      have hpos := c.utf8Size_pos
      have hrest := length_le_utf8Len rest
      have hone : c.utf8Size = 1 ↔ c.toNat < 128 := by
        rw [Char.utf8Size_eq_one_iff]
        change c.val.toNat ≤ 127 ↔ c.val.toNat < 128
        omega
      rw [List.forall_mem_cons, ← hone, ← ih, String.utf8Len_cons, List.length_cons]
      omega

/-- A text takes one byte for each character exactly if it is ASCII. -/
theorem utf8ByteSize_eq_length_iff (text : String) :
    text.utf8ByteSize = text.length ↔ ∀ c ∈ text.toList, c.toNat < 128 := by
  rw [← utf8Len_eq_length_iff, String.utf8Len_toList, String.length_toList]

/-- A completion whose prompt and generated text come with integer offsets. -/
structure Completion (prefillJson decodeJson : Value) (i : Nat) (texts : List String)
    (offsets deltas : List Int) : Prop where
  prompt : 1 ≤ promptCount prefillJson i
  tokens : logprobsArray prefillJson i "tokens" = some (texts.map .string)
  promptOffsets : logprobsArray prefillJson i "text_offset" = some (offsets.map ofInt)
  decodeOffsets : logprobsArray decodeJson i "text_offset" = some (deltas.map ofInt)
  tokensLength : promptCount prefillJson i ≤ texts.length
  offsetsLength : promptCount prefillJson i ≤ offsets.length
  fits : ∀ offset ∈ offsets ++ deltas, FitsI64 offset

def lastPromptToken (prefillJson : Value) (i : Nat) (texts : List String) : String :=
  texts.getD (promptCount prefillJson i - 1) ""

/-- The responses are merged, and the offset of every generated token counts the characters in front
of it. -/
def OffsetsTrue (prefillJson decodeJson : Value) (i : Nat) (texts : List String)
    (offsets deltas : List Int) : Prop :=
  ∃ flag merged mergedOffsets, mergeLogprobsInJson prefillJson decodeJson = .ok (flag, merged) ∧
    logprobsArray merged i "text_offset" = some mergedOffsets ∧
    ∀ j delta, deltas[j]? = some delta →
      mergedOffsets[promptCount prefillJson i + j]? =
        some (ofInt (offsets.getD (promptCount prefillJson i - 1) 0 +
          (lastPromptToken prefillJson i texts).length + delta))

theorem asI64_ofInt {offset : Int} (hfits : FitsI64 offset) : (ofInt offset).asI64 = some offset :=
  if_pos hfits

theorem filterMap_asI64_ofInt {offsets : List Int} (hfits : ∀ offset ∈ offsets, FitsI64 offset) :
    (offsets.map ofInt).filterMap asI64 = offsets := by
  induction offsets with
  | nil => rfl
  | cons offset rest ih =>
      rw [List.forall_mem_cons] at hfits
      rw [List.map_cons, List.filterMap_cons, asI64_ofInt hfits.1, ih hfits.2]

theorem ofInt_injective : Function.Injective ofInt := by
  intro a b h
  cases h
  rfl

variable {prefillJson decodeJson : Value} {i : Nat} {texts : List String} {offsets deltas : List Int}

theorem Completion.promptTokenLen_eq (h : Completion prefillJson decodeJson i texts offsets deltas) :
    promptTokenLen prefillJson i = (lastPromptToken prefillJson i texts).utf8ByteSize := by
  obtain ⟨choices, choice, lp, hchoices, hchoice, hlp, htokens⟩ := logprobsArray_eq_some h.tokens
  have hprompt := h.prompt
  have htokensLength := h.tokensLength
  have hlt : promptCount prefillJson i - 1 < texts.length := by omega
  rw [promptTokenLen_of_choice hchoices hchoice hlp, lastTokenLen, htokens]
  simp [lastPromptToken, List.getD, List.getElem?_eq_getElem hlt, asStr,
    Nat.min_eq_left htokensLength]

theorem Completion.merged_offsets (h : Completion prefillJson decodeJson i texts offsets deltas) :
    logprobsArray (mergedJson prefillJson decodeJson).2 i "text_offset" =
      some ((offsets.map ofInt).take (promptCount prefillJson i) ++
        deltas.map fun delta => ofInt (delta +
          (offsets.getD (promptCount prefillJson i - 1) 0 +
            (lastPromptToken prefillJson i texts).utf8ByteSize))) := by
  obtain ⟨prefillLp, hlen, hmerged⟩ := logprobsArray_mergedJson_offsets h.promptOffsets h.decodeOffsets
  have hprompt := h.prompt
  have hoffsetsLength := h.offsetsLength
  have hlt : promptCount prefillJson i - 1 < offsets.length := by omega
  have hgetD : offsets.getD (promptCount prefillJson i - 1) 0 =
      offsets[promptCount prefillJson i - 1] := by
    simp [List.getD, List.getElem?_eq_getElem hlt]
  have hlast : ((offsets.map ofInt).take (promptCount prefillJson i)).getLast? =
      some (ofInt (offsets.getD (promptCount prefillJson i - 1) 0)) := by
    rw [List.getLast?_take, if_neg (by omega), List.getElem?_map, List.getElem?_eq_getElem hlt, hgetD]
    rfl
  have hfits : FitsI64 (offsets.getD (promptCount prefillJson i - 1) 0) := by
    rw [hgetD]
    exact h.fits _ (List.mem_append_left _ (List.getElem_mem hlt))
  have hdeltas := filterMap_asI64_ofInt fun delta hdelta =>
    h.fits delta (List.mem_append_right _ hdelta)
  rw [hmerged, movedOffsets, hlast]
  dsimp only
  rw [hdeltas, asI64_ofInt hfits, ← hlen, h.promptTokenLen_eq]
  rfl

theorem Completion.offsetsTrue_iff_merged
    (h : Completion prefillJson decodeJson i texts offsets deltas)
    (hfits : ChoicesFit prefillJson decodeJson) :
    OffsetsTrue prefillJson decodeJson i texts offsets deltas ↔
      deltas = [] ∨ (lastPromptToken prefillJson i texts).utf8ByteSize =
        (lastPromptToken prefillJson i texts).length := by
  have hoffsetsLength := h.offsetsLength
  have hlength : ((offsets.map ofInt).take (promptCount prefillJson i)).length =
      promptCount prefillJson i := by
    rw [List.length_take, List.length_map, Nat.min_eq_left hoffsetsLength]
  have hentry : ∀ (generated : List Value) (j : Nat),
      ((offsets.map ofInt).take (promptCount prefillJson i) ++ generated)[
        promptCount prefillJson i + j]? = generated[j]? := by
    intro generated j
    rw [List.getElem?_append_right (by omega), hlength, Nat.add_sub_cancel_left]
  have hmerged := h.merged_offsets
  constructor
  · rintro ⟨flag, merged, mergedOffsets, hmerge, harray, htrue⟩
    obtain ⟨-, rfl⟩ := mergeLogprobsInJson_eq_ok hmerge
    rw [hmerged] at harray
    cases harray
    rw [or_iff_not_imp_left]
    intro hne
    obtain ⟨delta, rest, rfl⟩ := List.exists_cons_of_ne_nil hne
    have hfirst := htrue 0 delta rfl
    rw [hentry] at hfirst
    have hsum := ofInt_injective (Option.some.inj hfirst)
    omega
  · intro hcond
    refine ⟨_, _, _, mergeLogprobsInJson_of_fits hfits, hmerged, fun j delta hdelta => ?_⟩
    rw [hentry, List.getElem?_map, hdelta]
    have hne : deltas ≠ [] := by
      rintro rfl
      cases hdelta
    have hsize := hcond.resolve_left hne
    simp only [Option.map_some, hsize]
    congr 2
    omega

/-- The offsets are true exactly if they fit and the last prompt token is ASCII, unless there is no
generated token. -/
theorem offsetsTrue_iff (h : Completion prefillJson decodeJson i texts offsets deltas) :
    OffsetsTrue prefillJson decodeJson i texts offsets deltas ↔
      ChoicesFit prefillJson decodeJson ∧
        (deltas = [] ∨ ∀ c ∈ (lastPromptToken prefillJson i texts).toList, c.toNat < 128) := by
  rw [← utf8ByteSize_eq_length_iff]
  constructor
  · intro htrue
    obtain ⟨flag, merged, mergedOffsets, hmerge, -⟩ := id htrue
    have hfits := (exists_mergeLogprobsInJson_iff _ _).mp ⟨_, hmerge⟩
    exact ⟨hfits, (h.offsetsTrue_iff_merged hfits).mp htrue⟩
  · rintro ⟨hfits, hcond⟩
    exact (h.offsetsTrue_iff_merged hfits).mpr hcond

def tokenPrefill (token : String) : Value :=
  .object [("choices", .array [.object [
    ("logprobs", .object [
      ("text_offset", .array [.ofInt 0]),
      ("tokens", .array [.string token])]),
    ("prompt_logprobs", .array [.null])]])]

def tokenDecode : Value :=
  .object [("choices", .array [.object [
    ("logprobs", .object [
      ("text_offset", .array [.ofInt 0]),
      ("tokens", .array [.string "x"])])]])]

theorem completion_token (token : String) :
    Completion (tokenPrefill token) tokenDecode 0 [token] [0] [0] := by
  refine ⟨le_rfl, rfl, rfl, rfl, le_rfl, le_rfl, ?_⟩
  simp [FitsI64]

theorem offsetsTrue_ascii_token : OffsetsTrue (tokenPrefill "a") tokenDecode 0 ["a"] [0] [0] := by
  apply (offsetsTrue_iff (completion_token "a")).mpr
  refine ⟨(exists_mergeLogprobsInJson_iff _ _).mp ⟨_, rfl⟩, Or.inr ?_⟩
  exact (utf8ByteSize_eq_length_iff _).mp rfl

/-- One character of two bytes. -/
theorem not_offsetsTrue_accented_token :
    ¬OffsetsTrue (tokenPrefill "é") tokenDecode 0 ["é"] [0] [0] := by
  intro htrue
  have hfits : ChoicesFit (tokenPrefill "é") tokenDecode :=
    (exists_mergeLogprobsInJson_iff _ _).mp ⟨_, rfl⟩
  rcases ((completion_token "é").offsetsTrue_iff_merged hfits).mp htrue with hnil | hsize
  · cases hnil
  · exact absurd hsize (by decide)

end TokenDog
