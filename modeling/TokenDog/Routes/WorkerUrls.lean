import TokenDog.Routes.PdHandler
import TokenDog.Discovery.Reconciliation

/-!
# URLs of discovered workers

Service discovery stores a worker as `ip:port`. Three consumers join a path to it and parse the
result without a base URL, which needs a scheme. An address has none: an IPv4 address starts with a
digit, and an IPv6 address that starts with a letter is read as a scheme of hexadecimal digits.
-/

namespace TokenDog

def healthUrl (url : String) : String := trimEndMatches url '/' ++ "/health"

/-- `Url::scheme`: the serialization up to its first colon. -/
def Url.scheme (url : Url) : String := String.ofList (url.asStr.toList.takeWhile (· != ':'))

def isSchemeChar (c : Char) : Bool := c.isAlphanum || c == '+' || c == '-' || c == '.'

/-- The scheme state of the URL standard, on what has been read of the scheme and the rest. -/
def schemeState (scheme : List Char) : List Char → Option String
  | [] => none
  | c :: rest =>
      if isSchemeChar c then schemeState (scheme ++ [c.toLower]) rest
      else if c == ':' then some (String.ofList scheme)
      else none

/-- The scheme start state: a scheme begins with a letter. -/
def schemeStart : List Char → Option String
  | [] => none
  | c :: rest => if c.isAlpha then schemeState [c.toLower] rest else none

def isTabOrNewline (c : Char) : Bool := c == '\t' || c == '\n' || c == '\r'

/-- Leading blanks and control characters do not count, nor do tabs and line breaks anywhere. -/
def urlInput (text : List Char) : List Char :=
  (text.dropWhile fun c => c.toNat ≤ 32).filter fun c => !isTabOrNewline c

theorem isTabOrNewline_of_visible {c : Char} (hc : 32 < c.toNat) : isTabOrNewline c = false := by
  rw [isTabOrNewline, Bool.or_eq_false_iff, Bool.or_eq_false_iff]
  refine ⟨⟨?_, ?_⟩, ?_⟩ <;>
    · rw [beq_eq_false_iff_ne]
      rintro rfl
      exact absurd hc (by decide)

/-- What comes before the first character that does not count is kept as it is. -/
theorem urlInput_append {front : List Char} (hvisible : ∀ c ∈ front, 32 < c.toNat)
    (hfront : front ≠ []) (rest : List Char) :
    urlInput (front ++ rest) = front ++ rest.filter fun c => !isTabOrNewline c := by
  have hfirst : (front ++ rest).dropWhile (fun c => decide (c.toNat ≤ 32)) = front ++ rest := by
    cases front with
    | nil => exact absurd rfl hfront
    | cons c front =>
        apply List.dropWhile_cons_of_neg
        simpa using hvisible c List.mem_cons_self
  have hkept : front.filter (fun c => !isTabOrNewline c) = front := by
    apply List.filter_eq_self.mpr
    intro c hc
    rw [isTabOrNewline_of_visible (hvisible c hc)]
    rfl
  rw [urlInput, hfirst, List.filter_append, hkept]

def schemeOf (text : String) : Option String := schemeStart (urlInput text.toList)

/-- Parsing without a base yields a URL only for a text with a scheme, and it is the URL's. -/
def NeedsScheme (crates : Crates) : Prop :=
  ∀ text url, crates.parseUrl text = .ok url → schemeOf text = some url.scheme

def ipCharacters : List Char := "0123456789abcdefABCDEF:.".toList

def IsIpText (ip : String) : Prop := ∀ c ∈ ip.toList, c ∈ ipCharacters

instance (ip : String) : Decidable (IsIpText ip) :=
  List.decidableBAll (· ∈ ipCharacters) ip.toList

/-- What a scheme read from an address can be made of. -/
def schemeCharacters : List Char := "0123456789abcdef.".toList

theorem ipCharacters_spec : ∀ c ∈ ipCharacters, 32 < c.toNat ∧
    (c = ':' ∨ isSchemeChar c = true ∧ c.toLower ∈ schemeCharacters) := by
  have hall : ipCharacters.all (fun c => decide (32 < c.toNat ∧
      (c = ':' ∨ isSchemeChar c = true ∧ c.toLower ∈ schemeCharacters))) = true := by
    decide
  intro c hc
  exact of_decide_eq_true (List.all_eq_true.mp hall c hc)

theorem schemeState_address {scheme ip rest : List Char}
    (hscheme : ∀ c ∈ scheme, c ∈ schemeCharacters) (hip : ∀ c ∈ ip, c ∈ ipCharacters) {result : String}
    (hresult : schemeState scheme (ip ++ ':' :: rest) = some result) :
    ∀ c ∈ result.toList, c ∈ schemeCharacters := by
  induction ip generalizing scheme with
  | nil =>
      have hcolon : isSchemeChar ':' = false := rfl
      simp only [List.nil_append, schemeState, hcolon, beq_self_eq_true] at hresult
      obtain rfl := Option.some.inj hresult
      simpa using hscheme
  | cons c ip ih =>
      obtain ⟨-, hc⟩ := ipCharacters_spec c (hip c List.mem_cons_self)
      by_cases hchar : isSchemeChar c = true
      · have hlower : c.toLower ∈ schemeCharacters := by
          rcases hc with rfl | hc
          · cases hchar
          · exact hc.2
        rw [List.cons_append, schemeState, if_pos hchar] at hresult
        apply ih _ (fun d hd => hip d (List.mem_cons_of_mem _ hd)) hresult
        intro d hd
        rcases List.mem_append.mp hd with hd | hd
        · exact hscheme d hd
        · rwa [List.mem_singleton.mp hd]
      · have hcolon : c = ':' := hc.resolve_right fun h => hchar h.1
        subst hcolon
        rw [List.cons_append, schemeState, if_neg hchar, if_pos (beq_self_eq_true _)] at hresult
        obtain rfl := Option.some.inj hresult
        simpa using hscheme

/-- Nothing is dropped up to the colon that ends an address. -/
theorem urlInput_address {ip : List Char} (hip : ∀ c ∈ ip, c ∈ ipCharacters) (rest : List Char) :
    ∃ kept, urlInput (ip ++ ':' :: rest) = ip ++ ':' :: kept := by
  have hvisible : ∀ c ∈ ip ++ [':'], 32 < c.toNat := by
    intro c hc
    rcases List.mem_append.mp hc with hc | hc
    · exact (ipCharacters_spec c (hip c hc)).1
    · rw [List.mem_singleton.mp hc]
      decide
  refine ⟨rest.filter fun c => !isTabOrNewline c, ?_⟩
  simpa using urlInput_append hvisible (by simp) rest

theorem schemeStart_address {ip rest : List Char} (hip : ∀ c ∈ ip, c ∈ ipCharacters)
    {result : String} (hresult : schemeStart (ip ++ ':' :: rest) = some result) :
    ∀ c ∈ result.toList, c ∈ schemeCharacters := by
  cases ip with
  | nil => cases hresult
  | cons c ip =>
      rw [List.cons_append, schemeStart] at hresult
      split at hresult
      · rename_i halpha
        apply schemeState_address _ (fun d hd => hip d (List.mem_cons_of_mem _ hd)) hresult
        intro d hd
        rw [List.mem_singleton.mp hd]
        rcases (ipCharacters_spec c (hip c List.mem_cons_self)).2 with rfl | hc
        · cases halpha
        · exact hc.2
      · cases hresult

theorem trimEndMatches_workerUrl (pod : PodInfo) (port : Nat) :
    ∃ rest, (trimEndMatches (pod.workerUrl port) '/').toList = pod.ip.toList ++ ':' :: rest := by
  have hcolon : (':' :: pod.ip.toList.reverse).dropWhile (· == '/') =
      ':' :: pod.ip.toList.reverse := rfl
  have hreverse : (pod.workerUrl port).toList.reverse =
      (toString port).toList.reverse ++ ':' :: pod.ip.toList.reverse := by
    simp [PodInfo.workerUrl, String.toList_append]
  refine ⟨((toString port).toList.reverse.dropWhile (· == '/')).reverse, ?_⟩
  rw [trimEndMatches, String.toList_ofList, hreverse, List.dropWhile_append, hcolon]
  split
  · rename_i hempty
    rw [List.isEmpty_iff.mp hempty]
    simp
  · simp

/-- Whatever is joined to a worker's URL, its scheme is not `http`. -/
theorem scheme_ne_http {crates : Crates} (hcrates : NeedsScheme crates) {pod : PodInfo}
    (hip : IsIpText pod.ip) (port : Nat) (path : String) {url : Url}
    (hurl : crates.parseUrl (trimEndMatches (pod.workerUrl port) '/' ++ path) = .ok url) :
    url.scheme ≠ "http" := by
  intro hscheme
  have hresult := hcrates _ url hurl
  obtain ⟨rest, htrimmed⟩ := trimEndMatches_workerUrl pod port
  obtain ⟨kept, hkept⟩ := urlInput_address hip (rest ++ path.toList)
  rw [schemeOf, String.toList_append, htrimmed, List.append_assoc, List.cons_append, hkept,
    hscheme] at hresult
  have hh : 'h' ∈ schemeCharacters := schemeStart_address hip hresult 'h' (by decide)
  revert hh
  decide

/-- An `http` URL of the pod's address and port; the standard leaves out port 80. -/
def Url.Reaches (url : Url) (pod : PodInfo) (port : Nat) : Prop :=
  url.scheme = "http" ∧
    (url.hostStr = some pod.ip ∨ url.hostStr = some ("[" ++ pod.ip ++ "]")) ∧
    url.port.getD 80 = port

/-- The URL each consumer makes of the pool entry reaches the pod. -/
structure Consumable (crates : Crates) (pod : PodInfo) (port : Nat) (parts : Parts) (path : String) :
    Prop where
  proxyHandler : ∃ url, crates.parseUrl
    (trimEndMatches (pod.workerUrl port) '/' ++ parts.pathAndQuery) = .ok url ∧ url.Reaches pod port
  buildTargetUrl : ∃ url, buildTargetUrl crates (pod.workerUrl port) path = .ok url ∧
    url.Reaches pod port
  checkWorkerHealth : ∃ url, crates.parseUrl (healthUrl (pod.workerUrl port)) = .ok url ∧
    url.Reaches pod port

/-- No discovered worker is reached by any consumer, whatever its address, its port and the path. -/
theorem not_consumable {crates : Crates} (hcrates : NeedsScheme crates) {pod : PodInfo}
    (hip : IsIpText pod.ip) (port : Nat) (parts : Parts) (path : String) :
    ¬Consumable crates pod port parts path ∧
    (∀ url, crates.parseUrl (trimEndMatches (pod.workerUrl port) '/' ++ parts.pathAndQuery) =
      .ok url → ¬url.Reaches pod port) ∧
    (∀ url, buildTargetUrl crates (pod.workerUrl port) path = .ok url → ¬url.Reaches pod port) ∧
    ∀ url, crates.parseUrl (healthUrl (pod.workerUrl port)) = .ok url → ¬url.Reaches pod port := by
  have hproxy : ∀ url, crates.parseUrl
      (trimEndMatches (pod.workerUrl port) '/' ++ parts.pathAndQuery) = .ok url →
      ¬url.Reaches pod port := by
    intro url hurl hreaches
    exact scheme_ne_http hcrates hip port parts.pathAndQuery hurl hreaches.1
  refine ⟨?_, hproxy, ?_, ?_⟩
  · intro hconsumable
    obtain ⟨url, hurl, hreaches⟩ := hconsumable.proxyHandler
    exact hproxy url hurl hreaches
  · intro url hurl hreaches
    exact scheme_ne_http hcrates hip port path hurl hreaches.1
  · intro url hurl hreaches
    exact scheme_ne_http hcrates hip port "/health" hurl hreaches.1

/-- Crates that parse `http` URLs only. -/
def httpCrates : Crates :=
  { plainCrates with
    parseUrl := fun text =>
      if schemeOf text = some "http" then
        .ok ⟨"http:" ++ String.ofList ((text.toList.dropWhile (· != ':')).drop 1), none, none⟩
      else .error "relative URL without a base" }

theorem needsScheme_httpCrates : NeedsScheme httpCrates := by
  intro text url hurl
  simp only [httpCrates] at hurl
  split at hurl
  · rename_i hscheme
    obtain rfl := Except.ok.inj hurl
    rw [hscheme]
    simp [Url.scheme]
  · cases hurl

/-- A pod at an IPv4 address, asked for the models. -/
theorem not_consumable_ipv4 :
    ¬Consumable httpCrates (Discovery.runningPod "worker-0" "uid-0" "10.0.0.1") 8000
      ⟨"GET", "/v1/models", none, []⟩ "/v1/completions" :=
  (@not_consumable httpCrates needsScheme_httpCrates (Discovery.runningPod "worker-0" "uid-0" "10.0.0.1")
    (by decide) 8000 ⟨"GET", "/v1/models", none, []⟩ "/v1/completions").1

/-- The pod that discovery makes of a listed one is not reached. -/
theorem discovered_not_consumable :
    PodInfo.fromPod (Discovery.listedPod "worker-1" "uid-1" "10.0.0.2")
        (some Discovery.regularEnv.config) =
      some (Discovery.runningPod "worker-1" "uid-1" "10.0.0.2") ∧
    NeedsScheme httpCrates ∧
    ¬Consumable httpCrates (Discovery.runningPod "worker-1" "uid-1" "10.0.0.2") 8000
      ⟨"POST", "/v1/completions", none, []⟩ "/v1/completions" := by
  refine ⟨rfl, needsScheme_httpCrates, ?_⟩
  intro hconsumable
  obtain ⟨url, hurl, hreaches⟩ := hconsumable.checkWorkerHealth
  have hip : IsIpText "10.0.0.2" := by decide
  exact scheme_ne_http needsScheme_httpCrates hip 8000 "/health" hurl hreaches.1

end TokenDog
