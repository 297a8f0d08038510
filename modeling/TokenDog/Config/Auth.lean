import TokenDog.Routes.PdHandler
import Mathlib.Data.Set.Function

/-!
# Authentication

`auth_middleware` stands in front of every route. It exempts the path of the health endpoint, which
the router matches by itself, and compares hashes of keys everywhere else.
-/

namespace TokenDog

structure AuthConfig where
  apiKeyHashes : Option (List (List UInt8))

/-- `(status, text).into_response()`. -/
def textResponse (status : Nat) (text : String) : Response WorkerId :=
  { status
    headers := [("content-type", bytes "text/plain; charset=utf-8")]
    body := .bytes text.toUTF8 }

def unauthorized : Response WorkerId := textResponse 401 "Unauthorized"

/-- The token of the first `Authorization` header. -/
def bearerToken (headers : Headers) : Option String :=
  ((headers.get "authorization").bind HeaderValue.toStr).bind (stripPrefix · "Bearer ")

section Middleware

-- `Sha256::digest`
variable (sha256 : List UInt8 → List UInt8)

def AuthConfig.new (apiKeys : Option (List String)) : AuthConfig where
  apiKeyHashes := apiKeys.map (List.map fun key => sha256 (bytes key))

def authMiddleware (config : AuthConfig) (parts : Parts) (next : Handler (Response WorkerId)) :
    Handler (Response WorkerId) :=
  if parts.path = "/health" then next
  else
    match config.apiKeyHashes with
    | some expectedHashes =>
        if expectedHashes.isEmpty then next
        else
          let authorized := (bearerToken parts.headers).any fun token =>
            expectedHashes.any fun expectedHash => sha256 (bytes token) == expectedHash
          if authorized then next else return unauthorized
    | none => next

end Middleware

/-- What the router asks of axum: which paths a route matches, and the answer to a method that a
matched route has no handler for. -/
structure Axum where
  matchesRoute : String → String → Bool
  methodNotAllowed : Response WorkerId

/-- A route without parameters matches its own path only. -/
def Axum.MatchesLiterally (axum : Axum) (route : String) : Prop :=
  ∀ path, axum.matchesRoute route path = true ↔ path = route

/-- `GET /health`, over the workers of the state. -/
def healthHandler (workers : List Worker) : Response WorkerId :=
  let statuses := workers.map fun worker =>
    Value.object [("url", .string worker.url), ("healthy", .bool worker.healthy)]
  { status := 200
    headers := [("content-type", bytes "application/json")]
    body := .bytes
      (Value.object [("status", .string "ok"), ("workers", .array statuses)]).toVec }

/-- `get(handler)`, which answers `HEAD` too, without a body. -/
def getRoute (axum : Axum) (handler : Response WorkerId) (method : String) : Response WorkerId :=
  if method = "GET" then handler
  else if method = "HEAD" then { handler with body := .bytes .empty }
  else axum.methodNotAllowed

/-- Where a request goes behind the middleware. -/
inductive Endpoint where
  | health
  | fallback
  deriving DecidableEq, Repr

def endpointOf (axum : Axum) (path : String) : Endpoint :=
  if axum.matchesRoute "/health" path then .health else .fallback

/-- The handler for one request. The health endpoint reads `workers`, which the others do not. -/
def buildRouter (sha256 : List UInt8 → List UInt8) (axum : Axum) (crates : Crates)
    (pdMode : Option PdMode) (authConfig : AuthConfig) (workers : List Worker) (parts : Parts) :
    Handler (Response WorkerId) :=
  authMiddleware sha256 authConfig parts <|
    match endpointOf axum parts.path with
    | .health => return getRoute axum (healthHandler workers) parts.method
    | .fallback => pdProxyHandler crates pdMode parts

/-- The first `Authorization` value is visible and is `Bearer ` followed by a key. -/
def Authorized (keys : List String) (headers : Headers) : Prop :=
  ∃ value key, headers.get "authorization" = some value ∧ HeaderValue.Visible value ∧ key ∈ keys ∧
    value = bytes ("Bearer " ++ key)

theorem bearerToken_eq_some_iff {headers : Headers} {token : String} :
    bearerToken headers = some token ↔ ∃ value, headers.get "authorization" = some value ∧
      HeaderValue.Visible value ∧ value = bytes ("Bearer " ++ token) := by
  simp only [bearerToken, Option.bind_eq_some_iff, HeaderValue.toStr_eq_some_iff,
    stripPrefix_eq_some_iff]
  constructor
  · rintro ⟨text, ⟨value, hget, hvisible, htext⟩, rfl⟩
    exact ⟨value, hget, hvisible, htext.symm⟩
  · rintro ⟨value, hget, hvisible, hvalue⟩
    exact ⟨_, ⟨value, hget, hvisible, hvalue.symm⟩, rfl⟩

theorem authorized_iff {keys : List String} {headers : Headers} :
    Authorized keys headers ↔ ∃ token ∈ keys, bearerToken headers = some token := by
  simp only [Authorized, bearerToken_eq_some_iff]
  constructor
  · rintro ⟨value, key, hget, hvisible, hkey, hvalue⟩
    exact ⟨key, hkey, value, hget, hvisible, hvalue⟩
  · rintro ⟨key, hkey, value, hget, hvisible, hvalue⟩
    exact ⟨value, key, hget, hvisible, hkey, hvalue⟩

section Middleware

variable {sha256 : List UInt8 → List UInt8} {keys : List String} {parts : Parts}

/-- The strings that the hash has to tell apart for one request. -/
def hashed (keys : List String) (headers : Headers) : Set (List UInt8) :=
  {text | ∃ string, (string ∈ keys ∨ bearerToken headers = some string) ∧ text = bytes string}

theorem any_hash_iff (hinjective : Set.InjOn sha256 (hashed keys parts.headers)) :
    ((bearerToken parts.headers).any fun token =>
        (keys.map fun key => sha256 (bytes key)).any fun expectedHash =>
          sha256 (bytes token) == expectedHash) = true ↔ Authorized keys parts.headers := by
  rw [authorized_iff, Option.any_eq_true]
  simp only [List.any_map, List.any_eq_true, Function.comp_apply, beq_iff_eq]
  constructor
  · rintro ⟨token, htoken, key, hkey, hhash⟩
    have hbytes : bytes token = bytes key :=
      hinjective ⟨token, Or.inr htoken, rfl⟩ ⟨key, Or.inl hkey, rfl⟩ hhash
    rw [bytes_injective hbytes] at htoken
    exact ⟨key, hkey, htoken⟩
  · rintro ⟨key, hkey, htoken⟩
    exact ⟨key, htoken, key, hkey, rfl⟩

theorem authMiddleware_eq (hkeys : keys ≠ []) (hpath : parts.path ≠ "/health")
    (hinjective : Set.InjOn sha256 (hashed keys parts.headers))
    (next : Handler (Response WorkerId)) [Decidable (Authorized keys parts.headers)] :
    authMiddleware sha256 (.new sha256 (some keys)) parts next =
      if Authorized keys parts.headers then next else return unauthorized := by
  have hhashes : (keys.map fun key => sha256 (bytes key)).isEmpty = false := by
    simpa using hkeys
  simp only [authMiddleware, if_neg hpath, AuthConfig.new, Option.map_some, hhashes,
    Bool.false_eq_true, if_false, any_hash_iff hinjective]

/-- With keys configured, a request for another path than the health endpoint's gets past the
middleware exactly if it is authorised, and is otherwise answered at once with a 401. A request for
the health endpoint is answered at once as well, and never reaches the fallback. -/
theorem guarded (axum : Axum) (hroute : axum.MatchesLiterally "/health") (crates : Crates)
    (pdMode : Option PdMode) (hkeys : keys ≠ [])
    (hinjective : Set.InjOn sha256 (hashed keys parts.headers)) (workers : List Worker) :
    (parts.path ≠ "/health" →
      ((∀ next, authMiddleware sha256 (.new sha256 (some keys)) parts next = next) ↔
        Authorized keys parts.headers) ∧
      (¬Authorized keys parts.headers →
        buildRouter sha256 axum crates pdMode (.new sha256 (some keys)) workers parts =
          return unauthorized)) ∧
      (parts.path = "/health" → endpointOf axum parts.path = .health ∧
        buildRouter sha256 axum crates pdMode (.new sha256 (some keys)) workers parts =
          return getRoute axum (healthHandler workers) parts.method) := by
  classical
  constructor
  · intro hpath
    have heq := authMiddleware_eq hkeys hpath hinjective
    refine ⟨⟨fun hpasses => ?_, fun hauthorized next => ?_⟩, fun hnot => ?_⟩
    · by_contra hnot
      have hpanic := hpasses .panic
      rw [heq, if_neg hnot] at hpanic
      cases hpanic
    · rw [heq, if_pos hauthorized]
    · rw [buildRouter, heq, if_neg hnot]
  · intro hpath
    have hendpoint : endpointOf axum parts.path = .health := if_pos ((hroute parts.path).mpr hpath)
    refine ⟨hendpoint, ?_⟩
    rw [buildRouter, hendpoint, authMiddleware, if_pos hpath]

/-- One key, and a request without a header. -/
theorem guarded_chat_completions :
    buildRouter id ⟨(· == ·), textResponse 405 ""⟩ plainCrates none
        (.new id (some ["sk-secret"])) [] ⟨"POST", "/v1/chat/completions", none, []⟩ =
      return unauthorized := by
  have hroute : Axum.MatchesLiterally ⟨(· == ·), textResponse 405 ""⟩ "/health" := by
    intro path
    rw [beq_iff_eq]
    exact eq_comm
  have hpath : Parts.path ⟨"POST", "/v1/chat/completions", none, []⟩ ≠ "/health" := by decide
  have hnot : ¬Authorized ["sk-secret"] (Parts.headers ⟨"POST", "/v1/chat/completions", none, []⟩) :=
    fun ⟨_, _, hget, _⟩ => by cases hget
  exact ((guarded _ hroute plainCrates none (List.cons_ne_nil "sk-secret" []) (Set.injOn_id _)
    []).1 hpath).2 hnot

structure Refused (sha256 : List UInt8 → List UInt8) (keys : List String) (parts : Parts) : Prop where
  path : parts.path ≠ "/health"
  injective : Set.InjOn sha256 (hashed keys parts.headers)
  unauthorized : ¬Authorized keys parts.headers

/-- Whatever else is going on, a refused request runs nothing, waits for nothing and leaves nothing
for later, and when it ends it is answered with the 401. -/
theorem untouched_of_reachable {axum : Axum} {crates : Crates} {pdMode : Option PdMode}
    (hkeys : keys ≠ []) {app : AppState}
    {s : Programs.System router AppState (List Worker × Parts) (Response WorkerId)}
    (hs : Runs.Reachable (· = .start app) (Programs.Step machine fun request =>
      buildRouter sha256 axum crates pdMode (.new sha256 (some keys)) request.1 request.2) s) :
    (∀ run ∈ s.live, Refused sha256 keys run.request.2 →
        run.program = .ret unauthorized ∧ run.trace = [] ∧ run.deferred = []) ∧
      ∀ run ∈ s.ended, Refused sha256 keys run.request.2 →
        run.outcome = some unauthorized ∧ run.trace = [] ∧ run.deferred = [] := by
  classical
  refine Programs.returned_of_reachable (P := fun request => Refused sha256 keys request.2)
    (fun request h => ?_) hs
  rw [buildRouter, authMiddleware_eq hkeys h.path h.injective, if_neg h.unauthorized]
  rfl

end Middleware

end TokenDog
