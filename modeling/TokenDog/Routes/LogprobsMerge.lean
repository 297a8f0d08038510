import TokenDog.Json

/-!
# Merging logprobs

`merge_logprobs_in_json` puts the prompt logprobs of the prefill response in front of those of the
decode response. Every step says whether it merged anything and returns the decode value updated.
-/

namespace TokenDog

/-- `i64` addition with overflow checks. -/
def addI64 (a b : Int) : Except Panic Int :=
  if -2 ^ 63 ≤ a + b ∧ a + b < 2 ^ 63 then .ok (a + b) else .error .overflow

/-- `&arr[..stop]`, which panics past the end. -/
def slice (arr : List Value) (stop : Nat) : Except Panic (List Value) :=
  if stop ≤ arr.length then .ok (arr.take stop) else .error .indexOutOfBounds

/-- Generate API: merge `meta_info.input_token_logprobs`. -/
def mergeMetaInfo (prefillJson decodeJson : Value) : Except Panic (Bool × Value) :=
  match prefillJson.get "meta_info", decodeJson.get "meta_info" with
  | some prefillMeta, some decodeMeta =>
      match (prefillMeta.get "input_token_logprobs").bind Value.asArray,
        (decodeMeta.get "input_token_logprobs").bind Value.asArray with
      | some prefillArr, some decodeArr => do
          let decodeMeta ←
            decodeMeta.indexSet "input_token_logprobs" (.array (prefillArr ++ decodeArr))
          return (true, decodeJson.writeBack "meta_info" decodeMeta)
      | _, _ => .ok (false, decodeJson)
  | _, _ => .ok (false, decodeJson)

def copyPromptLogprobs (prefill decode : Value) : Bool × Value :=
  match prefill.get "prompt_logprobs", decode with
  | some prefillPromptLogprobs, .object entries =>
      (true, .object (Value.insertEntry "prompt_logprobs" prefillPromptLogprobs entries))
  | _, decode => (false, decode)

/-- `token_logprobs`, `tokens` and `top_logprobs`: the prompt's entries in front of the decode's. -/
def mergePromptPart (key : String) (numPrompt : Nat) (prefillLp decodeLp : Value) :
    Except Panic (Bool × Value) :=
  match (prefillLp.get key).bind Value.asArray, (decodeLp.get key).bind Value.asArray with
  | some prefillArr, some decodeArr => do
      let promptOnly ← slice prefillArr (min numPrompt prefillArr.length)
      return (true, decodeLp.insertIfObject key (.array (promptOnly ++ decodeArr)))
  | _, _ => .ok (false, decodeLp)

/-- The length of the last prompt token, zero where there is none. -/
def lastTokenLen (numPrompt : Nat) (prefillLp : Value) : Int :=
  (do
    let tokens ← (prefillLp.get "tokens").bind Value.asArray
    let token ← tokens[min numPrompt tokens.length - 1]?
    let text ← token.asStr
    return (text.utf8ByteSize : Int)).getD 0

/-- The offsets of the decode are moved behind the last token of the prompt. -/
def mergeTextOffset (numPrompt : Nat) (prefillLp decodeLp : Value) : Except Panic (Bool × Value) :=
  match (prefillLp.get "text_offset").bind Value.asArray,
    (decodeLp.get "text_offset").bind Value.asArray with
  | some prefillArr, some decodeArr => do
      let promptOnly ← slice prefillArr (min numPrompt prefillArr.length)
      let moved ← match promptOnly.getLast? with
        | some last => do
            let base ← addI64 (last.asI64.getD 0) (lastTokenLen numPrompt prefillLp)
            -- an offset that is no integer is dropped
            (decodeArr.filterMap Value.asI64).mapM fun offset => do
              return Value.ofInt (← addI64 offset base)
        | none => .ok decodeArr
      return (true, decodeLp.insertIfObject "text_offset" (.array (promptOnly ++ moved)))
  | _, _ => .ok (false, decodeLp)

/-- The four arrays of a `logprobs` object, where both sides are objects. -/
def mergeLogprobs (numPrompt : Nat) (prefillLp decodeLp : Value) : Except Panic (Bool × Value) :=
  match prefillLp, decodeLp with
  | .object _, .object _ => do
      let (mergedLogprobs, decodeLp) ←
        mergePromptPart "token_logprobs" numPrompt prefillLp decodeLp
      let (mergedTokens, decodeLp) ← mergePromptPart "tokens" numPrompt prefillLp decodeLp
      let (mergedOffsets, decodeLp) ← mergeTextOffset numPrompt prefillLp decodeLp
      let (mergedTop, decodeLp) ← mergePromptPart "top_logprobs" numPrompt prefillLp decodeLp
      return (mergedLogprobs || mergedTokens || mergedOffsets || mergedTop, decodeLp)
  | _, _ => .ok (false, decodeLp)

def numPrompt (prefillChoice : Value) : Nat :=
  (((prefillChoice.get "prompt_logprobs").bind Value.asArray).map List.length).getD 0

def mergeChoice (prefillChoice decodeChoice : Value) : Except Panic (Bool × Value) :=
  match prefillChoice, decodeChoice with
  | .object _, .object _ => do
      let (copied, decodeChoice) := copyPromptLogprobs prefillChoice decodeChoice
      match prefillChoice.get "logprobs", decodeChoice.get "logprobs" with
      | some prefillLp, some decodeLp => do
          let (merged, decodeLp) ← mergeLogprobs (numPrompt prefillChoice) prefillLp decodeLp
          return (copied || merged, decodeChoice.writeBack "logprobs" decodeLp)
      | _, _ => .ok (copied, decodeChoice)
  | _, _ => .ok (false, decodeChoice)

/-- The pairs of choices at the same position; what the decode has beyond them stays. -/
def mergeChoices : List Value → List Value → Except Panic (Bool × List Value)
  | decodeChoice :: decodeRest, prefillChoice :: prefillRest => do
      let (merged, decodeChoice) ← mergeChoice prefillChoice decodeChoice
      let (mergedRest, decodeRest) ← mergeChoices decodeRest prefillRest
      return (merged || mergedRest, decodeChoice :: decodeRest)
  | decodeChoices, _ => .ok (false, decodeChoices)

/-- Merge prompt logprobs from the prefill response into the decode response. -/
def mergeLogprobsInJson (prefillJson decodeJson : Value) : Except Panic (Bool × Value) := do
  let (mergedMeta, decodeJson) ← mergeMetaInfo prefillJson decodeJson
  let (copied, decodeJson) := copyPromptLogprobs prefillJson decodeJson
  match (decodeJson.get "choices").bind Value.asArray,
    (prefillJson.get "choices").bind Value.asArray with
  | some choices, some prefillChoices => do
      let (merged, choices) ← mergeChoices choices prefillChoices
      return (mergedMeta || copied || merged, decodeJson.writeBack "choices" (.array choices))
  | _, _ => return (mergedMeta || copied, decodeJson)

/-! ### Merges that do not overflow -/

/-- A sum that is an `i64`. -/
def FitsI64 (sum : Int) : Prop := -2 ^ 63 ≤ sum ∧ sum < 2 ^ 63

/-- The offsets of the decode fit behind the prompt. -/
def OffsetsFit (numPrompt : Nat) (prefillLp decodeLp : Value) : Prop :=
  ∀ prefillArr decodeArr last, (prefillLp.get "text_offset").bind Value.asArray = some prefillArr →
    (decodeLp.get "text_offset").bind Value.asArray = some decodeArr →
    (prefillArr.take numPrompt).getLast? = some last →
    FitsI64 (last.asI64.getD 0 + lastTokenLen numPrompt prefillLp) ∧
      ∀ offset ∈ decodeArr.filterMap Value.asI64,
        FitsI64 (offset + (last.asI64.getD 0 + lastTokenLen numPrompt prefillLp))

def ChoiceFits (prefillChoice decodeChoice : Value) : Prop :=
  ∀ prefillLp decodeLp, prefillChoice.get "logprobs" = some prefillLp →
    decodeChoice.get "logprobs" = some decodeLp →
    OffsetsFit (numPrompt prefillChoice) prefillLp decodeLp

def ChoicesFit (prefillJson decodeJson : Value) : Prop :=
  ∀ choices prefillChoices, (decodeJson.get "choices").bind Value.asArray = some choices →
    (prefillJson.get "choices").bind Value.asArray = some prefillChoices →
    ∀ pair ∈ choices.zip prefillChoices, ChoiceFits pair.2 pair.1

/-- What is put behind the prompt's offsets. -/
def movedOffsets (numPrompt : Nat) (prefillLp : Value) (prefillArr decodeArr : List Value) :
    List Value :=
  match (prefillArr.take numPrompt).getLast? with
  | some last =>
      (decodeArr.filterMap Value.asI64).map fun offset =>
        Value.ofInt (offset + (last.asI64.getD 0 + lastTokenLen numPrompt prefillLp))
  | none => decodeArr

/-- Put `splice prefillArr decodeArr` in place of an array that both sides have. -/
def spliceArray (prefillLp : Value) (key : String) (splice : List Value → List Value → List Value)
    (decodeLp : Value) : Bool × Value :=
  match (prefillLp.get key).bind Value.asArray, (decodeLp.get key).bind Value.asArray with
  | some prefillArr, some decodeArr =>
      (true, decodeLp.insertIfObject key (.array (splice prefillArr decodeArr)))
  | _, _ => (false, decodeLp)

/-- The keys of a `logprobs` object and how their arrays are merged, in this order. -/
def logprobsParts (numPrompt : Nat) (prefillLp : Value) :
    List (String × (List Value → List Value → List Value)) :=
  [("token_logprobs", fun prefillArr decodeArr => prefillArr.take numPrompt ++ decodeArr),
    ("tokens", fun prefillArr decodeArr => prefillArr.take numPrompt ++ decodeArr),
    ("text_offset", fun prefillArr decodeArr =>
      prefillArr.take numPrompt ++ movedOffsets numPrompt prefillLp prefillArr decodeArr),
    ("top_logprobs", fun prefillArr decodeArr => prefillArr.take numPrompt ++ decodeArr)]

def mergedKeys : List String := ["token_logprobs", "tokens", "text_offset", "top_logprobs"]

theorem map_fst_logprobsParts (numPrompt : Nat) (prefillLp : Value) :
    (logprobsParts numPrompt prefillLp).map Prod.fst = mergedKeys := rfl

theorem nodup_logprobsParts (numPrompt : Nat) (prefillLp : Value) :
    ((logprobsParts numPrompt prefillLp).map Prod.fst).Nodup := by
  rw [map_fst_logprobsParts]
  decide

def spliceAll (prefillLp : Value) :
    List (String × (List Value → List Value → List Value)) → Value → Bool × Value
  | [], decodeLp => (false, decodeLp)
  | (key, splice) :: rest, decodeLp =>
      let (merged, decodeLp) := spliceArray prefillLp key splice decodeLp
      let (mergedRest, decodeLp) := spliceAll prefillLp rest decodeLp
      (merged || mergedRest, decodeLp)

def mergedChoice (prefillChoice decodeChoice : Value) : Bool × Value :=
  let (copied, decodeChoice) := copyPromptLogprobs prefillChoice decodeChoice
  match prefillChoice.get "logprobs", decodeChoice.get "logprobs" with
  | some prefillLp, some decodeLp =>
      let (merged, decodeLp) :=
        spliceAll prefillLp (logprobsParts (numPrompt prefillChoice) prefillLp) decodeLp
      (copied || merged, decodeChoice.writeBack "logprobs" decodeLp)
  | _, _ => (copied, decodeChoice)

def mergedChoices : List Value → List Value → Bool × List Value
  | decodeChoice :: decodeRest, prefillChoice :: prefillRest =>
      ((mergedChoice prefillChoice decodeChoice).1 || (mergedChoices decodeRest prefillRest).1,
        (mergedChoice prefillChoice decodeChoice).2 :: (mergedChoices decodeRest prefillRest).2)
  | decodeChoices, _ => (false, decodeChoices)

def mergedMetaInfo (prefillJson decodeJson : Value) : Bool × Value :=
  match prefillJson.get "meta_info", decodeJson.get "meta_info" with
  | some prefillMeta, some decodeMeta =>
      let (merged, decodeMeta) := spliceArray prefillMeta "input_token_logprobs"
        (fun prefillArr decodeArr => prefillArr ++ decodeArr) decodeMeta
      (merged, decodeJson.writeBack "meta_info" decodeMeta)
  | _, _ => (false, decodeJson)

/-- What `merge_logprobs_in_json` returns and leaves behind. -/
def mergedJson (prefillJson decodeJson : Value) : Bool × Value :=
  let (mergedMeta, decodeJson) := mergedMetaInfo prefillJson decodeJson
  let (copied, decodeJson) := copyPromptLogprobs prefillJson decodeJson
  match (decodeJson.get "choices").bind Value.asArray,
    (prefillJson.get "choices").bind Value.asArray with
  | some choices, some prefillChoices =>
      let (merged, choices) := mergedChoices choices prefillChoices
      (mergedMeta || copied || merged, decodeJson.writeBack "choices" (.array choices))
  | _, _ => (mergedMeta || copied, decodeJson)

theorem addI64_of_fits {a b : Int} (hfits : FitsI64 (a + b)) : addI64 a b = .ok (a + b) :=
  if_pos hfits

theorem addI64_of_not_fits {a b : Int} (hfits : ¬FitsI64 (a + b)) : addI64 a b = .error .overflow :=
  if_neg hfits

theorem slice_min (arr : List Value) (stop : Nat) :
    slice arr (min stop arr.length) = .ok (arr.take stop) := by
  rw [slice, if_pos (min_le_right _ _), ← List.take_eq_take_min]

theorem mapM_addI64_of_fits {base : Int} {offsets : List Int}
    (hfits : ∀ offset ∈ offsets, FitsI64 (offset + base)) :
    (offsets.mapM fun offset => do return Value.ofInt (← addI64 offset base)) =
      (.ok (offsets.map fun offset => Value.ofInt (offset + base)) : Except Panic _) := by
  induction offsets with
  | nil => rfl
  | cons offset rest ih =>
      rw [List.mapM_cons, addI64_of_fits (hfits offset List.mem_cons_self),
        ih fun other hother => hfits other (List.mem_cons_of_mem _ hother)]
      rfl

theorem mapM_addI64_of_not_fits {base : Int} {offsets : List Int}
    (hfits : ¬∀ offset ∈ offsets, FitsI64 (offset + base)) :
    (offsets.mapM fun offset => do return Value.ofInt (← addI64 offset base)) =
      (.error .overflow : Except Panic _) := by
  induction offsets with
  | nil => simp at hfits
  | cons offset rest ih =>
      rw [List.mapM_cons]
      by_cases hoffset : FitsI64 (offset + base)
      · have hrest : ¬∀ other ∈ rest, FitsI64 (other + base) := by
          intro hrest
          exact hfits (List.forall_mem_cons.mpr ⟨hoffset, hrest⟩)
        rw [addI64_of_fits hoffset, ih hrest]
        rfl
      · rw [addI64_of_not_fits hoffset]
        rfl

theorem mergePromptPart_eq (key : String) (numPrompt : Nat) (prefillLp decodeLp : Value) :
    mergePromptPart key numPrompt prefillLp decodeLp =
      .ok (spliceArray prefillLp key
        (fun prefillArr decodeArr => prefillArr.take numPrompt ++ decodeArr) decodeLp) := by
  unfold mergePromptPart spliceArray
  split
  · rename_i prefillArr decodeArr _ _
    rw [slice_min, ok_bind]
    rfl
  · rfl

theorem mergeTextOffset_of_fits {numPrompt : Nat} {prefillLp decodeLp : Value}
    (hfits : OffsetsFit numPrompt prefillLp decodeLp) :
    mergeTextOffset numPrompt prefillLp decodeLp =
      .ok (spliceArray prefillLp "text_offset" (fun prefillArr decodeArr =>
        prefillArr.take numPrompt ++ movedOffsets numPrompt prefillLp prefillArr decodeArr)
          decodeLp) := by
  unfold mergeTextOffset spliceArray
  split
  · rename_i prefillArr decodeArr hprefillArr hdecodeArr
    rw [slice_min, ok_bind]
    dsimp only
    rw [movedOffsets]
    cases hlast : (prefillArr.take numPrompt).getLast? with
    | none => rfl
    | some last =>
        obtain ⟨hbase, hoffsets⟩ := hfits _ _ _ hprefillArr hdecodeArr hlast
        dsimp only
        rw [addI64_of_fits hbase, ok_bind, mapM_addI64_of_fits hoffsets]
        rfl
  · rfl

theorem mergeTextOffset_of_not_fits {numPrompt : Nat} {prefillLp decodeLp : Value}
    (hfits : ¬OffsetsFit numPrompt prefillLp decodeLp) :
    mergeTextOffset numPrompt prefillLp decodeLp = .error .overflow := by
  unfold OffsetsFit at hfits
  push Not at hfits
  obtain ⟨prefillArr, decodeArr, last, hprefillArr, hdecodeArr, hlast, hoverflow⟩ := hfits
  rw [mergeTextOffset, hprefillArr, hdecodeArr]
  dsimp only
  rw [slice_min, ok_bind, hlast]
  dsimp only
  by_cases hbase : FitsI64 (last.asI64.getD 0 + lastTokenLen numPrompt prefillLp)
  · have hoffsets : ¬∀ offset ∈ decodeArr.filterMap Value.asI64,
        FitsI64 (offset + (last.asI64.getD 0 + lastTokenLen numPrompt prefillLp)) := by
      intro hoffsets
      obtain ⟨offset, hmem, hnot⟩ := hoverflow hbase
      exact hnot (hoffsets offset hmem)
    rw [addI64_of_fits hbase, ok_bind, mapM_addI64_of_not_fits hoffsets]
    rfl
  · rw [addI64_of_not_fits hbase]
    rfl

@[simp]
theorem get_spliceArray_of_ne {key other : String} (hne : other ≠ key) (prefillLp : Value)
    (splice : List Value → List Value → List Value) (decodeLp : Value) :
    (spliceArray prefillLp key splice decodeLp).2.get other = decodeLp.get other := by
  unfold spliceArray
  split
  · exact Value.get_insertIfObject_of_ne hne _ _
  · rfl

theorem get_spliceArray_self {prefillLp decodeLp : Value} {key : String}
    {prefillArr decodeArr : List Value}
    (hprefillArr : (prefillLp.get key).bind Value.asArray = some prefillArr)
    (hdecodeArr : (decodeLp.get key).bind Value.asArray = some decodeArr)
    (splice : List Value → List Value → List Value) :
    (spliceArray prefillLp key splice decodeLp).2.get key =
      some (.array (splice prefillArr decodeArr)) := by
  rw [spliceArray, hprefillArr, hdecodeArr]
  exact Value.get_insertIfObject_self (Value.get_bind_asArray_eq_some_iff.mp hdecodeArr) _

theorem spliceArray_of_false {prefillLp decodeLp : Value} {key : String}
    {splice : List Value → List Value → List Value}
    (hfalse : (spliceArray prefillLp key splice decodeLp).1 = false) :
    (spliceArray prefillLp key splice decodeLp).2 = decodeLp := by
  unfold spliceArray at hfalse ⊢
  split at hfalse
  · cases hfalse
  · rfl

theorem get_spliceAll_of_not_mem {other : String} (prefillLp : Value)
    {parts : List (String × (List Value → List Value → List Value))}
    (hother : other ∉ parts.map Prod.fst) (decodeLp : Value) :
    (spliceAll prefillLp parts decodeLp).2.get other = decodeLp.get other := by
  induction parts generalizing decodeLp with
  | nil => rfl
  | cons part rest ih =>
      obtain ⟨key, splice⟩ := part
      rw [List.map_cons, List.mem_cons, not_or] at hother
      rw [spliceAll]
      exact (ih hother.2 _).trans (get_spliceArray_of_ne hother.1 prefillLp splice decodeLp)

theorem get_spliceAll_of_mem {key : String} {splice : List Value → List Value → List Value}
    {parts : List (String × (List Value → List Value → List Value))}
    (hnodup : (parts.map Prod.fst).Nodup) (hmem : (key, splice) ∈ parts)
    {prefillLp decodeLp : Value} {prefillArr decodeArr : List Value}
    (hprefillArr : (prefillLp.get key).bind Value.asArray = some prefillArr)
    (hdecodeArr : (decodeLp.get key).bind Value.asArray = some decodeArr) :
    (spliceAll prefillLp parts decodeLp).2.get key =
      some (.array (splice prefillArr decodeArr)) := by
  induction parts generalizing decodeLp with
  | nil => cases hmem
  | cons part rest ih =>
      obtain ⟨name, first⟩ := part
      rw [List.map_cons, List.nodup_cons] at hnodup
      rw [spliceAll]
      rcases List.mem_cons.mp hmem with heq | hrest
      · cases heq
        exact (get_spliceAll_of_not_mem prefillLp hnodup.1 _).trans
          (get_spliceArray_self hprefillArr hdecodeArr splice)
      · have hne : key ≠ name := by
          rintro rfl
          exact hnodup.1 (List.mem_map.mpr ⟨_, hrest, rfl⟩)
        apply ih hnodup.2 hrest
        rw [get_spliceArray_of_ne hne, hdecodeArr]

theorem spliceAll_of_false {prefillLp decodeLp : Value}
    {parts : List (String × (List Value → List Value → List Value))}
    (hfalse : (spliceAll prefillLp parts decodeLp).1 = false) :
    (spliceAll prefillLp parts decodeLp).2 = decodeLp := by
  induction parts generalizing decodeLp with
  | nil => rfl
  | cons part rest ih =>
      obtain ⟨key, splice⟩ := part
      rw [spliceAll] at hfalse ⊢
      obtain ⟨hfirst, hrest⟩ := Bool.or_eq_false_iff.mp hfalse
      exact (ih hrest).trans (spliceArray_of_false hfirst)

theorem copyPromptLogprobs_of_false {prefill decode : Value}
    (hfalse : (copyPromptLogprobs prefill decode).1 = false) :
    (copyPromptLogprobs prefill decode).2 = decode := by
  unfold copyPromptLogprobs at hfalse ⊢
  split at hfalse
  · cases hfalse
  · rfl

theorem get_copyPromptLogprobs (prefill decode : Value) {key : String}
    (hkey : key ≠ "prompt_logprobs") : (copyPromptLogprobs prefill decode).2.get key = decode.get key := by
  unfold copyPromptLogprobs
  split
  · exact Value.get_insertIfObject_of_ne hkey (.object _) _
  · rfl

theorem copyPromptLogprobs_of_not_object {prefill decode : Value}
    (hobject : prefill.asObject = none ∨ decode.asObject = none) :
    copyPromptLogprobs prefill decode = (false, decode) := by
  unfold copyPromptLogprobs
  split
  · rename_i hprefill
    rcases hobject with hobject | hobject
    · rw [Value.get_of_asObject_eq_none hobject] at hprefill
      cases hprefill
    · cases hobject
  · rfl

theorem offsetsFit_of_not_object {prefillLp decodeLp : Value}
    (hobject : prefillLp.asObject = none ∨ decodeLp.asObject = none) (numPrompt : Nat) :
    OffsetsFit numPrompt prefillLp decodeLp := by
  intro prefillArr decodeArr last hprefillArr hdecodeArr
  rcases hobject with hobject | hobject
  · rw [Value.get_of_asObject_eq_none hobject] at hprefillArr
    cases hprefillArr
  · rw [Value.get_of_asObject_eq_none hobject] at hdecodeArr
    cases hdecodeArr

theorem spliceArray_of_not_object {prefillLp decodeLp : Value}
    (hobject : prefillLp.asObject = none ∨ decodeLp.asObject = none) (key : String)
    (splice : List Value → List Value → List Value) :
    spliceArray prefillLp key splice decodeLp = (false, decodeLp) := by
  unfold spliceArray
  split
  · rename_i hprefillArr hdecodeArr
    rcases hobject with hobject | hobject
    · rw [Value.get_of_asObject_eq_none hobject] at hprefillArr
      cases hprefillArr
    · rw [Value.get_of_asObject_eq_none hobject] at hdecodeArr
      cases hdecodeArr
  · rfl

theorem spliceAll_of_not_object {prefillLp decodeLp : Value}
    (hobject : prefillLp.asObject = none ∨ decodeLp.asObject = none)
    (parts : List (String × (List Value → List Value → List Value))) :
    spliceAll prefillLp parts decodeLp = (false, decodeLp) := by
  induction parts with
  | nil => rfl
  | cons part rest ih =>
      obtain ⟨key, splice⟩ := part
      rw [spliceAll, spliceArray_of_not_object hobject]
      dsimp only
      rw [ih]
      rfl

/-- The offsets are read before they are written: the parts in front of them do not touch them. -/
theorem offsetsFit_spliceArray {key : String} (hkey : "text_offset" ≠ key) (numPrompt : Nat)
    (prefillLp : Value) (splice : List Value → List Value → List Value) (decodeLp : Value) :
    OffsetsFit numPrompt prefillLp (spliceArray prefillLp key splice decodeLp).2 ↔
      OffsetsFit numPrompt prefillLp decodeLp := by
  unfold OffsetsFit
  rw [get_spliceArray_of_ne hkey]

theorem mergeLogprobs_of_fits {numPrompt : Nat} {prefillLp decodeLp : Value}
    (hfits : OffsetsFit numPrompt prefillLp decodeLp) :
    mergeLogprobs numPrompt prefillLp decodeLp =
      .ok (spliceAll prefillLp (logprobsParts numPrompt prefillLp) decodeLp) := by
  unfold mergeLogprobs
  split
  · rename_i prefill decode
    simp only [mergePromptPart_eq, ok_bind]
    rw [mergeTextOffset_of_fits]
    · simp [spliceAll, logprobsParts, Bool.or_assoc]
    · rwa [offsetsFit_spliceArray (by decide), offsetsFit_spliceArray (by decide)]
  · rename_i hnone
    rw [spliceAll_of_not_object (Value.asObject_eq_none_or hnone)]

theorem mergeLogprobs_of_not_fits {numPrompt : Nat} {prefillLp decodeLp : Value}
    (hfits : ¬OffsetsFit numPrompt prefillLp decodeLp) :
    mergeLogprobs numPrompt prefillLp decodeLp = .error .overflow := by
  unfold mergeLogprobs
  split
  · rename_i prefill decode
    simp only [mergePromptPart_eq, ok_bind]
    rw [mergeTextOffset_of_not_fits, error_bind]
    rwa [offsetsFit_spliceArray (by decide), offsetsFit_spliceArray (by decide)]
  · rename_i hnone
    exact absurd (offsetsFit_of_not_object (Value.asObject_eq_none_or hnone) numPrompt) hfits

theorem mergeChoice_of_fits {prefillChoice decodeChoice : Value}
    (hfits : ChoiceFits prefillChoice decodeChoice) :
    mergeChoice prefillChoice decodeChoice = .ok (mergedChoice prefillChoice decodeChoice) := by
  unfold mergeChoice mergedChoice
  split
  · rename_i prefill decode
    dsimp only
    have hlogprobs := get_copyPromptLogprobs (.object prefill) (.object decode)
      (show "logprobs" ≠ "prompt_logprobs" by decide)
    split
    · rename_i prefillLp decodeLp hprefillLp hdecodeLp
      rw [mergeLogprobs_of_fits (hfits _ _ hprefillLp (hlogprobs.symm.trans hdecodeLp))]
      rfl
    · rfl
  · rename_i hnone
    have hobject := Value.asObject_eq_none_or hnone
    dsimp only
    rw [copyPromptLogprobs_of_not_object hobject]
    rcases hobject with hobject | hobject
    · rw [Value.get_of_asObject_eq_none hobject]
    · rw [Value.get_of_asObject_eq_none hobject]
      cases prefillChoice.get "logprobs" <;> rfl

theorem mergeChoice_of_not_fits {prefillChoice decodeChoice : Value}
    (hfits : ¬ChoiceFits prefillChoice decodeChoice) :
    mergeChoice prefillChoice decodeChoice = .error .overflow := by
  unfold ChoiceFits at hfits
  push Not at hfits
  obtain ⟨prefillLp, decodeLp, hprefillLp, hdecodeLp, hoverflow⟩ := hfits
  unfold mergeChoice
  split
  · rename_i prefill decode
    dsimp only
    rw [get_copyPromptLogprobs _ _ (by decide), hprefillLp, hdecodeLp]
    dsimp only
    rw [mergeLogprobs_of_not_fits hoverflow, error_bind]
  · rename_i hnone
    rcases Value.asObject_eq_none_or hnone with hobject | hobject
    · rw [Value.get_of_asObject_eq_none hobject] at hprefillLp
      cases hprefillLp
    · rw [Value.get_of_asObject_eq_none hobject] at hdecodeLp
      cases hdecodeLp

theorem mergeChoices_of_fits {choices prefillChoices : List Value}
    (hfits : ∀ pair ∈ choices.zip prefillChoices, ChoiceFits pair.2 pair.1) :
    mergeChoices choices prefillChoices = .ok (mergedChoices choices prefillChoices) := by
  induction choices generalizing prefillChoices with
  | nil => rfl
  | cons decodeChoice decodeRest ih =>
      cases prefillChoices with
      | nil => rfl
      | cons prefillChoice prefillRest =>
          rw [List.zip_cons_cons, List.forall_mem_cons] at hfits
          rw [mergeChoices, mergeChoice_of_fits hfits.1, ok_bind, ih hfits.2]
          rfl

theorem mergeChoices_of_not_fits {choices prefillChoices : List Value}
    (hfits : ¬∀ pair ∈ choices.zip prefillChoices, ChoiceFits pair.2 pair.1) :
    mergeChoices choices prefillChoices = .error .overflow := by
  induction choices generalizing prefillChoices with
  | nil => simp at hfits
  | cons decodeChoice decodeRest ih =>
      cases prefillChoices with
      | nil => simp at hfits
      | cons prefillChoice prefillRest =>
          rw [List.zip_cons_cons, List.forall_mem_cons] at hfits
          rw [mergeChoices]
          by_cases hfirst : ChoiceFits prefillChoice decodeChoice
          · rw [mergeChoice_of_fits hfirst, ok_bind, ih fun hrest => hfits ⟨hfirst, hrest⟩]
            rfl
          · rw [mergeChoice_of_not_fits hfirst, error_bind]

theorem getElem?_mergedChoices (choices prefillChoices : List Value) (i : Nat) :
    (mergedChoices choices prefillChoices).2[i]? =
      match choices[i]?, prefillChoices[i]? with
      | some decodeChoice, some prefillChoice => some (mergedChoice prefillChoice decodeChoice).2
      | decodeChoice, _ => decodeChoice := by
  induction choices generalizing prefillChoices i with
  | nil => simp [mergedChoices]
  | cons decodeChoice decodeRest ih =>
      cases prefillChoices with
      | nil => simp [mergedChoices]
      | cons prefillChoice prefillRest =>
          cases i with
          | zero => rfl
          | succ i => simpa [mergedChoices] using ih prefillRest i

theorem length_mergedChoices (choices prefillChoices : List Value) :
    (mergedChoices choices prefillChoices).2.length = choices.length := by
  induction choices generalizing prefillChoices with
  | nil => rfl
  | cons decodeChoice decodeRest ih =>
      cases prefillChoices with
      | nil => rfl
      | cons prefillChoice prefillRest => simp [mergedChoices, ih]

theorem mergeMetaInfo_eq (prefillJson decodeJson : Value) :
    mergeMetaInfo prefillJson decodeJson = .ok (mergedMetaInfo prefillJson decodeJson) := by
  unfold mergeMetaInfo mergedMetaInfo spliceArray
  split
  · rename_i prefillMeta decodeMeta hprefillMeta hdecodeMeta
    dsimp only
    split
    · rename_i prefillArr decodeArr hprefillArr hdecodeArr
      cases decodeMeta with
      | object entries => rfl
      | null | bool | number | string | array => cases hdecodeArr
    · rw [Value.writeBack_of_get hdecodeMeta]
  · rfl

theorem get_mergedMetaInfo (prefillJson decodeJson : Value) {key : String}
    (hkey : key ≠ "meta_info") :
    (mergedMetaInfo prefillJson decodeJson).2.get key = decodeJson.get key := by
  unfold mergedMetaInfo
  split
  · exact Value.get_writeBack_of_ne hkey _ _
  · rfl

theorem get_choices_copyPromptLogprobs (prefillJson decodeJson : Value) :
    (copyPromptLogprobs prefillJson (mergedMetaInfo prefillJson decodeJson).2).2.get "choices" =
      decodeJson.get "choices" := by
  rw [get_copyPromptLogprobs _ _ (by decide), get_mergedMetaInfo _ _ (by decide)]

theorem mergeLogprobsInJson_of_fits {prefillJson decodeJson : Value}
    (hfits : ChoicesFit prefillJson decodeJson) :
    mergeLogprobsInJson prefillJson decodeJson = .ok (mergedJson prefillJson decodeJson) := by
  unfold mergeLogprobsInJson mergedJson
  rw [mergeMetaInfo_eq, ok_bind]
  dsimp only
  split
  · rename_i choices prefillChoices hdecode hprefill
    rw [get_choices_copyPromptLogprobs] at hdecode
    rw [mergeChoices_of_fits (hfits _ _ hdecode hprefill)]
    rfl
  · rfl

theorem mergeLogprobsInJson_of_not_fits {prefillJson decodeJson : Value}
    (hfits : ¬ChoicesFit prefillJson decodeJson) :
    mergeLogprobsInJson prefillJson decodeJson = .error .overflow := by
  unfold ChoicesFit at hfits
  push Not at hfits
  obtain ⟨choices, prefillChoices, hdecode, hprefill, pair, hpair, hoverflow⟩ := hfits
  unfold mergeLogprobsInJson
  rw [mergeMetaInfo_eq, ok_bind]
  dsimp only
  rw [get_choices_copyPromptLogprobs, hdecode, hprefill]
  dsimp only
  rw [mergeChoices_of_not_fits fun hall => hoverflow (hall pair hpair), error_bind]

theorem mergeLogprobsInJson_eq_ok {prefillJson decodeJson merged : Value} {flag : Bool}
    (h : mergeLogprobsInJson prefillJson decodeJson = .ok (flag, merged)) :
    flag = (mergedJson prefillJson decodeJson).1 ∧ merged = (mergedJson prefillJson decodeJson).2 := by
  by_cases hfits : ChoicesFit prefillJson decodeJson
  · rw [mergeLogprobsInJson_of_fits hfits] at h
    exact Prod.ext_iff.mp (Except.ok.inj h).symm
  · rw [mergeLogprobsInJson_of_not_fits hfits] at h
    cases h

theorem exists_mergeLogprobsInJson_iff (prefillJson decodeJson : Value) :
    (∃ merged, mergeLogprobsInJson prefillJson decodeJson = .ok merged) ↔
      ChoicesFit prefillJson decodeJson := by
  by_cases hfits : ChoicesFit prefillJson decodeJson
  · exact iff_of_true ⟨_, mergeLogprobsInJson_of_fits hfits⟩ hfits
  · rw [mergeLogprobsInJson_of_not_fits hfits]
    exact iff_of_false (by simp) hfits

/-- The slices and the mutable index never panic: a merge fails exactly if some offset does not fit,
and then with an overflow. -/
theorem mergeLogprobsInJson_total_iff (prefillJson decodeJson : Value) :
    ((∃ merged, mergeLogprobsInJson prefillJson decodeJson = .ok merged) ↔
        ChoicesFit prefillJson decodeJson) ∧
      ∀ panic, mergeLogprobsInJson prefillJson decodeJson = .error panic → panic = .overflow := by
  refine ⟨exists_mergeLogprobsInJson_iff prefillJson decodeJson, fun panic hpanic => ?_⟩
  by_cases hfits : ChoicesFit prefillJson decodeJson
  · rw [mergeLogprobsInJson_of_fits hfits] at hpanic
    cases hpanic
  · rw [mergeLogprobsInJson_of_not_fits hfits] at hpanic
    cases hpanic
    rfl

/-- The last prompt token ends one past the greatest `i64`. -/
theorem not_mergeLogprobsInJson_total :
    ¬∃ merged, mergeLogprobsInJson
      (.object [("choices", .array [.object [
        ("logprobs", .object [
          ("text_offset", .array [.ofInt 9223372036854775807]),
          ("tokens", .array [.string "a"])]),
        ("prompt_logprobs", .array [.null])]])])
      (.object [("choices", .array [.object [
        ("logprobs", .object [("text_offset", .array [.ofInt 0])])]])]) = .ok merged := by
  rw [exists_mergeLogprobsInJson_iff]
  intro hfits
  have hbase : FitsI64 (9223372036854775807 + 1) :=
    (hfits _ _ rfl rfl _ (List.mem_singleton_self _) _ _ rfl rfl _ _ _ rfl rfl rfl).1
  have := hbase.2
  omega

end TokenDog
