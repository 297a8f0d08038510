import TokenDog.Middleware.Context

/-!
# The routing keys

What `extract_context` reads, against the priorities its documentation gives: the session key of the
first header that can be used, and the beginning of the chosen message.
-/

namespace TokenDog

def keyHeaders : List String := ["authorization", "x-forwarded-for", "cookie"]

def readable (value : HeaderValue) : Option String := value.toStr.filter (· != "")

def firstPresent (headers : Headers) : Option HeaderValue := keyHeaders.findSome? headers.get

def firstReadable (headers : Headers) : Option String :=
  keyHeaders.findSome? fun name => (headers.get name).bind readable

/-- The key of the body: the user if it is a text, else the session id if it is one. -/
def documentedBodyKey (json : Value) : String :=
  (((json.get "user").bind Value.asStr).or ((json.get "session_id").bind Value.asStr)).getD "default"

def documentedSession (crates : Crates) (body : ByteArray) (headers : Headers) : String :=
  match firstReadable headers, crates.fromSlice body with
  | some key, _ => key
  | none, .ok json => documentedBodyKey json
  | none, .error _ => "default"

/-- The key of the body when the session id is looked at only without a user. -/
def bodyKey (json : Value) : String :=
  match json.get "user" with
  | some user => user.asStr.getD "default"
  | none => ((json.get "session_id").bind Value.asStr).getD "default"

/-- The first header that is there has a readable value, or nothing is lost by its not having one: a
readable header behind it has the key that the body gives. -/
def HeaderVisible (crates : Crates) (body : ByteArray) (headers : Headers) : Prop :=
  ∀ key, firstReadable headers = some key → (firstPresent headers).bind readable = none →
    key = match crates.fromSlice body with
      | .ok json => bodyKey json
      | .error _ => "default"

/-- Without a readable header, a user that is no text hides no session id but the default one. -/
def SessionVisible (crates : Crates) (body : ByteArray) (headers : Headers) : Prop :=
  firstReadable headers = none → ∀ json user sessionId, crates.fromSlice body = .ok json →
    json.get "user" = some user → user.asStr = none →
      (json.get "session_id").bind Value.asStr = some sessionId → sessionId = "default"

theorem firstPresent_eq (headers : Headers) :
    firstPresent headers = ((headers.get "authorization").or (headers.get "x-forwarded-for")).or
      (headers.get "cookie") := by
  cases hauth : headers.get "authorization" <;> cases hforwarded : headers.get "x-forwarded-for" <;>
    simp [firstPresent, keyHeaders, List.findSome?, hauth, hforwarded]
  cases headers.get "cookie" <;> rfl

theorem firstReadable_of_firstPresent {headers : Headers} {key : String}
    (h : (firstPresent headers).bind readable = some key) : firstReadable headers = some key := by
  obtain ⟨value, hvalue, hkey⟩ := Option.bind_eq_some_iff.mp h
  unfold firstPresent at hvalue
  unfold firstReadable
  generalize keyHeaders = names at hvalue ⊢
  induction names with
  | nil => cases hvalue
  | cons name rest ih =>
      rw [List.findSome?_cons] at hvalue ⊢
      cases hget : headers.get name with
      | none =>
          rw [hget] at hvalue
          exact ih hvalue
      | some first =>
          rw [hget] at hvalue
          cases hvalue
          rw [Option.bind_some, hkey]

theorem bodyKey_eq (json : Value) :
    (((json.get "user").or (json.get "session_id")).bind Value.asStr).getD "default" = bodyKey json := by
  unfold bodyKey
  cases json.get "user" <;> rfl

/-- The two keys of a body differ where a user that is no text hides a session id. -/
theorem bodyKey_eq_documented_iff (json : Value) :
    bodyKey json = documentedBodyKey json ↔
      ∀ user sessionId, json.get "user" = some user → user.asStr = none →
        (json.get "session_id").bind Value.asStr = some sessionId → sessionId = "default" := by
  unfold bodyKey documentedBodyKey
  cases huser : json.get "user" with
  | none => simp
  | some user =>
      cases htext : user.asStr with
      | some text =>
          refine iff_of_true (by simp [htext]) fun other sessionId hother hnone => ?_
          cases hother
          rw [htext] at hnone
          cases hnone
      | none =>
          cases hsession : (json.get "session_id").bind Value.asStr with
          | none => simp [htext]
          | some sessionId => simp [htext, eq_comm]

def contentOf (json : Value) : Option String :=
  (((json.get "messages").bind Value.asArray).bind chosenMessage).bind
    fun message => (message.get "content").bind Value.asStr

theorem extractContext_eq (crates : Crates) (body : ByteArray) (headers : Headers) :
    extractContext crates body headers =
      match crates.fromSlice body with
      | .error _ => .ok ⟨((firstPresent headers).bind readable).getD "default", "default"⟩
      | .ok json => .ok ⟨((firstPresent headers).bind readable).getD (bodyKey json),
          ((contentOf json).map fun content => String.ofList (content.toList.take 200)).getD
            "default"⟩ := by
  have hkey : ((((headers.get "authorization").or (headers.get "x-forwarded-for")).or
      (headers.get "cookie")).bind HeaderValue.toStr).filter (· != "") =
        (firstPresent headers).bind readable := by
    rw [← firstPresent_eq]
    cases firstPresent headers <;> rfl
  unfold extractContext
  rw [hkey]
  dsimp only
  cases crates.fromSlice body with
  | error message => rfl
  | ok json =>
      dsimp only
      rw [bodyKey_eq, contentOf]
      cases (((json.get "messages").bind Value.asArray).bind chosenMessage).bind
          fun message => (message.get "content").bind Value.asStr with
      | none => rfl
      | some content =>
          dsimp only
          rw [prefixKeyOf_eq]
          rfl

/-- The session key follows the documented priorities exactly if neither a header nor a session id is
hidden by a source in front of it that cannot be used. -/
theorem sessionId_documented_iff (crates : Crates) (body : ByteArray) (headers : Headers) :
    (∃ ctx, extractContext crates body headers = .ok ctx ∧
        ctx.sessionId = documentedSession crates body headers) ↔
      HeaderVisible crates body headers ∧ SessionVisible crates body headers := by
  rw [extractContext_eq]
  unfold HeaderVisible SessionVisible documentedSession
  cases hfirst : (firstPresent headers).bind readable with
  | some key =>
      rw [firstReadable_of_firstPresent hfirst]
      cases crates.fromSlice body <;> simp
  | none =>
      cases hreadable : firstReadable headers with
      | some key => cases crates.fromSlice body <;> simp [eq_comm]
      | none =>
          cases hbody : crates.fromSlice body with
          | error message => simp
          | ok json =>
              have hdocumented := bodyKey_eq_documented_iff json
              constructor
              · rintro ⟨ctx, hctx, hsession⟩
                cases hctx
                refine ⟨(fun key hnone => by cases hnone), fun _ other user sessionId hother => ?_⟩
                cases hother
                exact hdocumented.mp hsession user sessionId
              · rintro ⟨-, hvisible⟩
                refine ⟨_, rfl, hdocumented.mpr fun user sessionId => ?_⟩
                exact hvisible rfl json user sessionId rfl

/-- An empty header in front of one that can be used. -/
theorem not_sessionId_documented_of_empty_header :
    ¬∃ ctx, extractContext plainCrates ByteArray.empty
        [("authorization", []), ("x-forwarded-for", bytes "10.0.0.1")] = .ok ctx ∧
      ctx.sessionId = documentedSession plainCrates ByteArray.empty
        [("authorization", []), ("x-forwarded-for", bytes "10.0.0.1")] := by
  rintro ⟨ctx, hctx, hdocumented⟩
  rw [extractContext_eq] at hctx
  cases hctx
  exact absurd hdocumented (by decide)

def IsSystem (message : Value) : Prop := (message.get "role").bind Value.asStr = some "system"

/-- The first message of the system role, or the first one of all where there is none. -/
def Chosen (messages : List Value) (message : Value) : Prop :=
  (∃ before after, messages = before ++ message :: after ∧ IsSystem message ∧
      ∀ other ∈ before, ¬IsSystem other) ∨
    (∀ other ∈ messages, ¬IsSystem other) ∧ ∃ rest, messages = message :: rest

def ChosenContent (crates : Crates) (body : ByteArray) (content : String) : Prop :=
  ∃ json messages message, crates.fromSlice body = .ok json ∧
    json.get "messages" = some (.array messages) ∧ Chosen messages message ∧
      message.get "content" = some (.string content)

theorem chosenMessage_eq_some_iff {messages : List Value} {message : Value} :
    chosenMessage messages = some message ↔ Chosen messages message := by
  have hsystem : ∀ other : Value,
      ((other.get "role").bind Value.asStr == some "system") = true ↔ IsSystem other := by
    intro other
    exact beq_iff_eq
  unfold chosenMessage
  constructor
  · intro h
    cases hfind : messages.find? fun message =>
        (message.get "role").bind Value.asStr == some "system" with
    | some found =>
        rw [hfind] at h
        cases h
        obtain ⟨hfound, before, after, hsplit, hbefore⟩ := List.find?_eq_some_iff_append.mp hfind
        refine Or.inl ⟨before, after, hsplit, (hsystem message).mp hfound, fun other hother => ?_⟩
        rw [← hsystem other]
        simpa using hbefore other hother
    | none =>
        rw [hfind] at h
        rw [List.find?_eq_none] at hfind
        refine Or.inr ⟨fun other hother => ?_, List.head?_eq_some_iff.mp h⟩
        rw [← hsystem other]
        exact hfind other hother
  · rintro (⟨before, after, hsplit, hmessage, hbefore⟩ | ⟨hnone, hhead⟩)
    · have hfind : (messages.find? fun message =>
          (message.get "role").bind Value.asStr == some "system") = some message := by
        rw [List.find?_eq_some_iff_append]
        refine ⟨(hsystem message).mpr hmessage, before, after, hsplit, fun other hother => ?_⟩
        simpa [← hsystem other] using hbefore other hother
      rw [hfind]
      rfl
    · have hfind : (messages.find? fun message =>
          (message.get "role").bind Value.asStr == some "system") = none := by
        rw [List.find?_eq_none]
        intro other hother
        rw [hsystem other]
        exact hnone other hother
      rw [hfind]
      exact List.head?_eq_some_iff.mpr hhead

theorem contentOf_eq_some_iff {json : Value} {content : String} :
    contentOf json = some content ↔ ∃ messages message,
      json.get "messages" = some (.array messages) ∧ Chosen messages message ∧
        message.get "content" = some (.string content) := by
  simp only [contentOf, Option.bind_eq_some_iff, chosenMessage_eq_some_iff,
    ← Value.get_bind_asArray_eq_some_iff, ← Value.get_bind_asStr_eq_some_iff]
  constructor
  · rintro ⟨message, ⟨messages, hmessages, hchosen⟩, hcontent⟩
    exact ⟨messages, message, hmessages, hchosen, hcontent⟩
  · rintro ⟨messages, message, hmessages, hchosen, hcontent⟩
    exact ⟨message, ⟨messages, hmessages, hchosen⟩, hcontent⟩

theorem prefixKey_of_chosenContent {crates : Crates} {body : ByteArray} {headers : Headers}
    {ctx : RequestContext} {content : String} (hcontent : ChosenContent crates body content)
    (h : extractContext crates body headers = .ok ctx) :
    ctx.prefixKey = String.ofList (content.toList.take 200) := by
  obtain ⟨json, messages, message, hbody, hrest⟩ := hcontent
  have hcontentOf := contentOf_eq_some_iff.mpr ⟨messages, message, hrest⟩
  rw [extractContext_eq, hbody] at h
  cases h
  rw [hcontentOf]
  rfl

theorem prefixKey_of_no_content {crates : Crates} {body : ByteArray} {headers : Headers}
    {ctx : RequestContext} (hcontent : ∀ content, ¬ChosenContent crates body content)
    (h : extractContext crates body headers = .ok ctx) : ctx.prefixKey = "default" := by
  rw [extractContext_eq] at h
  cases hbody : crates.fromSlice body with
  | error message =>
      rw [hbody] at h
      cases h
      rfl
  | ok json =>
      rw [hbody] at h
      cases h
      cases hcontentOf : contentOf json with
      | none => rfl
      | some content =>
          obtain ⟨messages, message, hrest⟩ := contentOf_eq_some_iff.mp hcontentOf
          exact absurd ⟨json, messages, message, hbody, hrest⟩ (hcontent content)

/-- The prefix key is the first 200 characters of the chosen text, so that texts are told apart by
these and by nothing else; without such a text it is the default one. -/
theorem extractContext_prefixKey (crates : Crates) :
    (∀ body headers, ∃ ctx, extractContext crates body headers = .ok ctx ∧
      (∀ content, ChosenContent crates body content →
        ctx.prefixKey = String.ofList (content.toList.take 200)) ∧
      ((∀ content, ¬ChosenContent crates body content) → ctx.prefixKey = "default")) ∧
    ∀ body headers ctx content body' headers' ctx' content',
      ChosenContent crates body content → ChosenContent crates body' content' →
      extractContext crates body headers = .ok ctx →
      extractContext crates body' headers' = .ok ctx' →
      (ctx.prefixKey = ctx'.prefixKey ↔ content.toList.take 200 = content'.toList.take 200) := by
  constructor
  · intro body headers
    obtain ⟨ctx, hctx⟩ := exists_extractContext crates body headers
    exact ⟨ctx, hctx, fun content hcontent => prefixKey_of_chosenContent hcontent hctx,
      fun hnone => prefixKey_of_no_content hnone hctx⟩
  · intro body headers ctx content body' headers' ctx' content' hcontent hcontent' hctx hctx'
    rw [prefixKey_of_chosenContent hcontent hctx, prefixKey_of_chosenContent hcontent' hctx']
    exact String.ofList_inj

end TokenDog
