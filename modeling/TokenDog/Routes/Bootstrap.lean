import TokenDog.Routes.WorkerUrls
import Mathlib.Data.List.TakeWhile

/-!
# Bootstrap addresses

The decode worker pulls the KV cache from the address that `extract_bootstrap_host` makes of the
prefill worker's. A URL parser leaves out the port that is the scheme's own, and takes the name in a
bare `name:port` for a scheme.
-/

namespace TokenDog

inductive HttpScheme
  | http
  | https

namespace HttpScheme

def text : HttpScheme → String
  | http => "http"
  | https => "https"

def defaultPort : HttpScheme → Nat
  | http => 80
  | https => 443

end HttpScheme

/-- How an address is written: as a URL, with what follows the slash if it has a path, or bare. -/
inductive AddressForm
  | url (scheme : HttpScheme) (path : Option String)
  | bare

namespace AddressForm

def before : AddressForm → String
  | url scheme _ => scheme.text ++ "://"
  | bare => ""

def after : AddressForm → String
  | url _ (some path) => "/" ++ path
  | url _ none => ""
  | bare => ""

end AddressForm

/-- Visible, and no delimiter of a URL: every character of a host name or an IPv4 address. -/
def isHostChar (c : Char) : Bool := decide (32 < c.toNat) && !"/:?#@\\[]".toList.contains c

structure WorkerAddress where
  host : String
  port : Nat
  form : AddressForm
  host_chars : ∀ c ∈ host.toList, isHostChar c = true
  port_lt : port < 2 ^ 16

namespace WorkerAddress

def hostPort (address : WorkerAddress) : String := address.host ++ ":" ++ toString address.port

def text (address : WorkerAddress) : String :=
  address.form.before ++ address.hostPort ++ address.form.after

end WorkerAddress

/-- The schemes whose URLs have a host also where the slashes are missing. -/
def specialSchemes : List String := ["http", "https", "ws", "wss", "ftp"]

/-- A host that is a number is an IPv4 address. -/
def ipv4Text (n : Nat) : String :=
  toString (n / 2 ^ 24) ++ "." ++ toString (n / 2 ^ 16 % 256) ++ "." ++
    toString (n / 2 ^ 8 % 256) ++ "." ++ toString (n % 256)

/-- What the standard says of worker addresses; `parseHost` is its host parser, and writes the host
back as text. An `http` URL has this host, or is none without one, and its port unless it is the
scheme's own. Behind a special scheme the slashes may be missing; behind any other one a text without
them has no host. -/
structure UrlStandard (crates : Crates) (parseHost : String → Option String) : Prop where
  needsScheme : NeedsScheme crates
  authority : ∀ (address : WorkerAddress) (scheme : HttpScheme) (path : Option String)
    (host : String), address.form = .url scheme path → parseHost address.host = some host →
    ∃ url, crates.parseUrl address.text = .ok url ∧ url.hostStr = some host ∧
      url.port = if address.port = scheme.defaultPort then none else some address.port
  invalidHost : ∀ (address : WorkerAddress) (scheme : HttpScheme) (path : Option String),
    address.form = .url scheme path → parseHost address.host = none →
    ∃ error, crates.parseUrl address.text = .error error
  special : ∀ (address : WorkerAddress) (scheme host : String), address.form = .bare →
    schemeOf address.text = some scheme → scheme ∈ specialSchemes →
    parseHost (toString address.port) = some host →
    ∃ url, crates.parseUrl address.text = .ok url ∧ url.hostStr = some host ∧ url.port = none
  hostless : ∀ (address : WorkerAddress) (scheme : String), address.form = .bare →
    schemeOf address.text = some scheme → scheme ∉ specialSchemes →
    ∃ url, crates.parseUrl address.text = .ok url ∧ url.hostStr = none ∧ url.port = none
  number : ∀ n < 2 ^ 32, parseHost (toString n) = some (ipv4Text n)

theorem NeedsScheme.error {crates : Crates} (hcrates : NeedsScheme crates) {text : String}
    (htext : schemeOf text = none) : ∃ error, crates.parseUrl text = .error error := by
  cases hparse : crates.parseUrl text with
  | error error => exact ⟨error, rfl⟩
  | ok url =>
      have hscheme := hcrates text url hparse
      rw [htext] at hscheme
      cases hscheme

theorem isHostChar_spec {c : Char} (hc : isHostChar c = true) :
    32 < c.toNat ∧ c ≠ ':' ∧ c ≠ '/' := by
  rw [isHostChar, Bool.and_eq_true, decide_eq_true_eq] at hc
  refine ⟨hc.1, ?_, ?_⟩
  · rintro rfl
    exact absurd hc.2 (by decide)
  · rintro rfl
    exact absurd hc.2 (by decide)

theorem isDigit_of_mem_toString {n : Nat} {c : Char} (hc : c ∈ (toString n).toList) :
    c.isDigit = true := by
  rw [Nat.toString_eq_repr, Nat.toList_repr] at hc
  exact Nat.isDigit_of_mem_toDigits (by decide) (by decide) hc

theorem isDigit_spec {c : Char} (hc : c.isDigit = true) :
    32 < c.toNat ∧ c ≠ ':' ∧ c ≠ '/' ∧ c.isAlpha = false := by
  have hnat := Char.isDigit_iff_toNat.mp hc
  refine ⟨?_, ?_, ?_, ?_⟩
  · exact Nat.lt_of_lt_of_le (by decide) hnat.1
  · rintro rfl
    exact absurd hc (by decide)
  · rintro rfl
    exact absurd hc (by decide)
  · have hhigh : c.val.toNat ≤ 57 := hnat.2
    rw [Bool.eq_false_iff]
    intro halpha
    rcases (Bool.or_eq_true c.isUpper c.isLower).mp halpha with hupper | hlower
    · have hlow : 65 ≤ c.val.toNat := (of_decide_eq_true hupper).1
      omega
    · have hlow : 97 ≤ c.val.toNat := of_decide_eq_true (Bool.and_eq_true_iff.mp hlower).1
      omega

def StartsWithDigit (text : String) : Prop :=
  ∃ digit rest, text.toList = digit :: rest ∧ digit.isDigit = true

theorem startsWithDigit_toString (n : Nat) : StartsWithDigit (toString n) := by
  cases hdigits : (toString n).toList with
  | nil =>
      rw [Nat.toString_eq_repr, Nat.toList_repr] at hdigits
      exact absurd hdigits Nat.toDigits_ne_nil
  | cons digit rest =>
      refine ⟨digit, rest, hdigits, isDigit_of_mem_toString (n := n) ?_⟩
      rw [hdigits]
      exact List.mem_cons_self

theorem colon_notMem_toString (n : Nat) : ':' ∉ (toString n).toList :=
  fun hmem => (isDigit_spec (isDigit_of_mem_toString hmem)).2.1 rfl

theorem bne_of_notMem {c : Char} {text : List Char} (h : c ∉ text) :
    ∀ d ∈ text, (d != c) = true := by
  intro d hd
  rw [bne_iff_ne]
  rintro rfl
  exact h hd

/-- A host without a colon can be read back from `host:port`. -/
theorem hostPort_eq_iff {host : String} (hhost : ':' ∉ host.toList) (other : String)
    (port otherPort : Nat) :
    other ++ ":" ++ toString otherPort = host ++ ":" ++ toString port ↔
      other = host ∧ toString otherPort = toString port := by
  have hcolon : ":".toList = [':'] := rfl
  rw [← String.toList_inj, eq_comm]
  simp only [String.toList_append, hcolon, List.append_assoc, List.singleton_append]
  rw [List.append_cons_inj_of_notMem hhost (colon_notMem_toString port), String.toList_inj,
    String.toList_inj, eq_comm (a := host), eq_comm (a := toString port)]
  simp only [true_and]

def namesScheme (name : String) : Bool :=
  match name.toList with
  | [] => false
  | c :: rest => c.isAlpha && rest.all isSchemeChar

/-- A name is read as a scheme up to its colon, in lower case. -/
theorem schemeState_name {name : List Char} (hname : ':' ∉ name) (scheme rest : List Char) :
    schemeState scheme (name ++ ':' :: rest) =
      if name.all isSchemeChar then some (String.ofList (scheme ++ name.map Char.toLower))
      else none := by
  induction name generalizing scheme with
  | nil =>
      have hcolon : isSchemeChar ':' = false := rfl
      simp [schemeState, hcolon]
  | cons c name ih =>
      rw [List.mem_cons, not_or] at hname
      have hc : (c == ':') = false := by
        rw [beq_eq_false_iff_ne]
        exact Ne.symm hname.1
      rw [List.cons_append, schemeState, List.all_cons]
      by_cases hchar : isSchemeChar c = true
      · rw [if_pos hchar, ih hname.2, hchar, Bool.true_and, List.map_cons, List.append_assoc]
        rfl
      · rw [if_neg hchar, hc, Bool.eq_false_iff.mpr hchar]
        rfl

namespace WorkerAddress

theorem text_bare (address : WorkerAddress) (hform : address.form = .bare) :
    address.text = address.hostPort := by
  rw [text, hform]
  simp [AddressForm.before, AddressForm.after]

theorem colon_notMem_host (address : WorkerAddress) : ':' ∉ address.host.toList :=
  fun hmem => (isHostChar_spec (address.host_chars ':' hmem)).2.1 rfl

theorem toList_hostPort (address : WorkerAddress) :
    address.hostPort.toList =
      address.host.toList ++ ':' :: (toString address.port).toList := by
  have hcolon : ":".toList = [':'] := rfl
  rw [hostPort, String.toList_append, String.toList_append, hcolon, List.append_assoc,
    List.singleton_append]

theorem toList_text (address : WorkerAddress) :
    address.text.toList = address.form.before.toList ++
      (address.hostPort.toList ++ address.form.after.toList) := by
  rw [text, String.toList_append, String.toList_append, List.append_assoc]

theorem hostPort_chars (address : WorkerAddress) :
    ∀ c ∈ address.hostPort.toList, 32 < c.toNat ∧ c ≠ '/' := by
  intro c hc
  rw [toList_hostPort, List.mem_append, List.mem_cons] at hc
  rcases hc with hc | rfl | hc
  · obtain ⟨hvisible, -, hslash⟩ := isHostChar_spec (address.host_chars c hc)
    exact ⟨hvisible, hslash⟩
  · decide
  · obtain ⟨hvisible, -, hslash, -⟩ := isDigit_spec (isDigit_of_mem_toString hc)
    exact ⟨hvisible, hslash⟩

theorem hostPort_ne_nil (address : WorkerAddress) : address.hostPort.toList ≠ [] := by
  rw [toList_hostPort]
  simp

theorem urlInput_hostPort (address : WorkerAddress) :
    urlInput address.hostPort.toList = address.hostPort.toList := by
  simpa using urlInput_append (fun c hc => (address.hostPort_chars c hc).1)
    address.hostPort_ne_nil []

theorem schemeOf_hostPort (address : WorkerAddress) :
    schemeOf address.hostPort =
      if namesScheme address.host then
        some (String.ofList (address.host.toList.map Char.toLower))
      else none := by
  rw [schemeOf, urlInput_hostPort, toList_hostPort, namesScheme]
  have hhost := address.colon_notMem_host
  cases hlist : address.host.toList with
  | nil => rfl
  | cons c rest =>
      rw [hlist, List.mem_cons, not_or] at hhost
      rw [List.cons_append, schemeStart, schemeState_name hhost.2]
      cases hc : c.isAlpha with
      | true => simp [hc]
      | false => simp [hc]

end WorkerAddress

/-! ### A small parser -/

def plainHost (text : String) : Option String :=
  if text = "" then none
  else if text.toList.all Char.isDigit then
    let n := Nat.ofDigitChars 10 text.toList 0
    if n < 2 ^ 32 then some (ipv4Text n) else none
  else if text.toList.all (fun c => c.isAlphanum || c == '-' || c == '.' || c == '_') then
    some (String.ofList (text.toList.map Char.toLower))
  else none

def specialPort : String → Nat
  | "http" | "ws" => 80
  | "https" | "wss" => 443
  | _ => 21

def plainPort (scheme : String) (digits : List Char) : Option Nat :=
  if digits = [] then none
  else
    let port := Nat.ofDigitChars 10 digits 0
    if port = specialPort scheme then none else some port

/-- What stands between the slashes of `scheme://` and the next slash, without credentials. -/
def plainAuthority (scheme : String) (rest : List Char) : Except String Url :=
  let authority := rest.takeWhile (· != '/')
  match plainHost (String.ofList (authority.takeWhile (· != ':'))) with
  | some host =>
      .ok ⟨scheme ++ ":" ++ ("//" ++ String.ofList rest), some host,
        plainPort scheme ((authority.dropWhile (· != ':')).drop 1)⟩
  | none => .error "invalid host"

def plainUrl (text : String) : Except String Url :=
  match schemeOf text with
  | none => .error "relative URL without a base"
  | some scheme =>
      let rest := ((urlInput text.toList).dropWhile (· != ':')).drop 1
      if scheme ∈ specialSchemes then plainAuthority scheme (rest.dropWhile (· == '/'))
      else .ok ⟨scheme ++ ":" ++ String.ofList rest, none, none⟩

def addressCrates : Crates := { plainCrates with parseUrl := plainUrl }

theorem toLower_ne_colon {c : Char} (hc : c ≠ ':') : c.toLower ≠ ':' := by
  by_cases hupper : 'A'.val ≤ c.val ∧ c.val ≤ 'Z'.val
  · -- A capital letter is moved up by 32, past the colon.
    have hlower : c.toLower.val = c.val + ('a'.val - 'A'.val) :=
      congrArg Char.val (dif_pos hupper)
    intro hcolon
    have hnat := congrArg UInt32.toNat ((congrArg Char.val hcolon).symm.trans hlower)
    have hlow : 65 ≤ c.val.toNat := hupper.1
    have hhigh : c.val.toNat ≤ 90 := hupper.2
    rw [UInt32.toNat_add] at hnat
    change 58 = (c.val.toNat + 32) % 2 ^ 32 at hnat
    omega
  · have hsame : c.toLower = c := dif_neg hupper
    rwa [hsame]

theorem colon_notMem_schemeState {scheme rest : List Char} (hscheme : ':' ∉ scheme)
    {result : String} (hresult : schemeState scheme rest = some result) :
    ':' ∉ result.toList := by
  induction rest generalizing scheme with
  | nil => cases hresult
  | cons c rest ih =>
      rw [schemeState] at hresult
      split at hresult
      · rename_i hchar
        have hc : c ≠ ':' := by
          rintro rfl
          cases hchar
        refine ih ?_ hresult
        rw [List.mem_append, List.mem_singleton, not_or]
        exact ⟨hscheme, (toLower_ne_colon hc).symm⟩
      · split at hresult
        · obtain rfl := Option.some.inj hresult
          simpa using hscheme
        · cases hresult

theorem colon_notMem_schemeOf {text scheme : String} (hscheme : schemeOf text = some scheme) :
    ':' ∉ scheme.toList := by
  rw [schemeOf] at hscheme
  cases hinput : urlInput text.toList with
  | nil =>
      rw [hinput] at hscheme
      cases hscheme
  | cons c rest =>
      rw [hinput, schemeStart] at hscheme
      split at hscheme
      · rename_i halpha
        have hc : c ≠ ':' := by
          rintro rfl
          cases halpha
        refine colon_notMem_schemeState ?_ hscheme
        rw [List.mem_singleton]
        exact (toLower_ne_colon hc).symm
      · cases hscheme

theorem scheme_mk {scheme : String} (hscheme : ':' ∉ scheme.toList) (rest : String)
    (hostStr : Option String) (port : Option Nat) :
    Url.scheme ⟨scheme ++ ":" ++ rest, hostStr, port⟩ = scheme := by
  have hcolon : (":" ++ rest).toList = ':' :: rest.toList := by
    rw [String.toList_append]
    rfl
  rw [Url.scheme, String.append_assoc, String.toList_append, hcolon,
    List.takeWhile_append_of_pos (bne_of_notMem hscheme)]
  simp

theorem needsScheme_addressCrates : NeedsScheme addressCrates := by
  intro text url hurl
  simp only [addressCrates, plainUrl, plainAuthority] at hurl
  cases hscheme : schemeOf text with
  | none =>
      rw [hscheme] at hurl
      cases hurl
  | some scheme =>
      have hcolon := colon_notMem_schemeOf hscheme
      simp only [hscheme] at hurl
      split at hurl
      · split at hurl
        · obtain rfl := Except.ok.inj hurl
          rw [scheme_mk hcolon]
        · cases hurl
      · obtain rfl := Except.ok.inj hurl
        rw [scheme_mk hcolon]

theorem ofDigitChars_toString (n : Nat) : Nat.ofDigitChars 10 (toString n).toList 0 = n := by
  rw [Nat.toString_eq_repr, Nat.toList_repr, Nat.ofDigitChars_ten_toDigits]

theorem plainHost_number (n : Nat) (hn : n < 2 ^ 32) :
    plainHost (toString n) = some (ipv4Text n) := by
  have hne : toString n ≠ "" := by
    obtain ⟨digit, rest, hlist, -⟩ := startsWithDigit_toString n
    intro hempty
    rw [hempty] at hlist
    cases hlist
  have hdigits : (toString n).toList.all Char.isDigit = true :=
    List.all_eq_true.mpr fun c hc => isDigit_of_mem_toString hc
  simp only [plainHost, if_neg hne, if_pos hdigits, ofDigitChars_toString, if_pos hn]

theorem plainPort_toString (scheme : String) (n : Nat) :
    plainPort scheme (toString n).toList =
      if n = specialPort scheme then none else some n := by
  obtain ⟨digit, rest, hlist, -⟩ := startsWithDigit_toString n
  have hne : (toString n).toList ≠ [] := by rw [hlist]; exact List.cons_ne_nil _ _
  simp only [plainPort, if_neg hne, ofDigitChars_toString]

namespace WorkerAddress

theorem plainAuthority_hostPort (address : WorkerAddress) (scheme : String) {kept : List Char}
    (hkept : kept.takeWhile (· != '/') = []) :
    plainAuthority scheme (address.hostPort.toList ++ kept) =
      match plainHost address.host with
      | some host =>
          .ok ⟨scheme ++ ":" ++ ("//" ++ String.ofList (address.hostPort.toList ++ kept)),
            some host, if address.port = specialPort scheme then none else some address.port⟩
      | none => .error "invalid host" := by
  have hslash : ∀ c ∈ address.hostPort.toList, (c != '/') = true :=
    fun c hc => bne_iff_ne.mpr (address.hostPort_chars c hc).2
  have hcolon := bne_of_notMem address.colon_notMem_host
  have hauthority : (address.hostPort.toList ++ kept).takeWhile (· != '/') =
      address.hostPort.toList := by
    rw [List.takeWhile_append_of_pos hslash, hkept, List.append_nil]
  have hhost : address.hostPort.toList.takeWhile (· != ':') = address.host.toList := by
    rw [toList_hostPort, List.takeWhile_append_of_pos hcolon]
    simp
  have hport : (address.hostPort.toList.dropWhile (· != ':')).drop 1 =
      (toString address.port).toList := by
    rw [toList_hostPort, List.dropWhile_append_of_pos hcolon]
    simp
  simp only [plainAuthority, hauthority, hhost, hport, String.ofList_toList, plainPort_toString]

theorem dropWhile_slash (address : WorkerAddress) (kept : List Char) :
    (address.hostPort.toList ++ kept).dropWhile (· == '/') = address.hostPort.toList ++ kept := by
  have hchars := address.hostPort_chars
  cases hlist : address.hostPort.toList with
  | nil => exact absurd hlist address.hostPort_ne_nil
  | cons c rest =>
      rw [hlist] at hchars
      apply List.dropWhile_cons_of_neg
      simpa using (hchars c List.mem_cons_self).2

theorem plainUrl_url (address : WorkerAddress) {scheme : HttpScheme} {path : Option String}
    (hform : address.form = .url scheme path) :
    ∃ kept, plainUrl address.text = plainAuthority scheme.text (address.hostPort.toList ++ kept) ∧
      kept.takeWhile (· != '/') = [] := by
  have hbefore : address.form.before.toList = scheme.text.toList ++ [':', '/', '/'] := by
    rw [hform, AddressForm.before, String.toList_append]
    rfl
  have hvisible : ∀ c ∈ address.form.before.toList ++ address.hostPort.toList, 32 < c.toNat := by
    intro c hc
    rcases List.mem_append.mp hc with hc | hc
    · have hall : (scheme.text.toList ++ [':', '/', '/']).all
          (fun c => decide (32 < c.toNat)) = true := by
        cases scheme <;> rfl
      rw [hbefore] at hc
      exact of_decide_eq_true (List.all_eq_true.mp hall c hc)
    · exact (address.hostPort_chars c hc).1
  have hinput := urlInput_append hvisible
    (List.append_ne_nil_of_right_ne_nil _ address.hostPort_ne_nil) address.form.after.toList
  refine ⟨address.form.after.toList.filter fun c => !isTabOrNewline c, ?_, ?_⟩
  · rw [List.append_assoc, ← address.toList_text, hbefore, List.append_assoc] at hinput
    have hdrop := address.dropWhile_slash (address.form.after.toList.filter fun c =>
      !isTabOrNewline c)
    rw [plainUrl, schemeOf, hinput]
    generalize address.hostPort.toList ++ address.form.after.toList.filter _ = rest at hdrop ⊢
    cases scheme with
    | http =>
        change plainAuthority "http" (rest.dropWhile (· == '/')) = _
        rw [hdrop]
        rfl
    | https =>
        change plainAuthority "https" (rest.dropWhile (· == '/')) = _
        rw [hdrop]
        rfl
  · rw [hform]
    cases path with
    | none => rfl
    | some path => simp [AddressForm.after, isTabOrNewline]

theorem plainUrl_bare (address : WorkerAddress) {scheme : String} (hform : address.form = .bare)
    (hscheme : schemeOf address.text = some scheme) :
    plainUrl address.text =
      if scheme ∈ specialSchemes then plainAuthority scheme (toString address.port).toList
      else .ok ⟨scheme ++ ":" ++ toString address.port, none, none⟩ := by
  have hcolon := bne_of_notMem address.colon_notMem_host
  have htext := address.text_bare hform
  have hrest : ((urlInput address.text.toList).dropWhile (· != ':')).drop 1 =
      (toString address.port).toList := by
    rw [htext, urlInput_hostPort, toList_hostPort, List.dropWhile_append_of_pos hcolon]
    simp
  have hslash : (toString address.port).toList.dropWhile (· == '/') =
      (toString address.port).toList := by
    obtain ⟨digit, rest, hlist, hdigit⟩ := startsWithDigit_toString address.port
    rw [hlist]
    apply List.dropWhile_cons_of_neg
    simpa using (isDigit_spec hdigit).2.2.1
  simp only [plainUrl, hscheme, hrest, hslash, String.ofList_toList]

theorem plainAuthority_number (scheme : String) (n : Nat) (hn : n < 2 ^ 32) :
    ∃ url, plainAuthority scheme (toString n).toList = .ok url ∧ url.hostStr = some (ipv4Text n) ∧
      url.port = none := by
  have hslash : (toString n).toList.takeWhile (· != '/') = (toString n).toList := by
    apply List.takeWhile_eq_self_iff.mpr
    intro c hc
    exact bne_iff_ne.mpr (isDigit_spec (isDigit_of_mem_toString hc)).2.2.1
  have hcolon := bne_of_notMem (colon_notMem_toString n)
  have hhost : (toString n).toList.takeWhile (· != ':') = (toString n).toList :=
    List.takeWhile_eq_self_iff.mpr hcolon
  have hport : (toString n).toList.dropWhile (· != ':') = [] :=
    List.dropWhile_eq_nil_iff.mpr hcolon
  simp only [plainAuthority, hslash, hhost, hport, String.ofList_toList, plainHost_number n hn]
  exact ⟨_, rfl, rfl, rfl⟩

theorem urlStandard_addressCrates : UrlStandard addressCrates plainHost where
  needsScheme := needsScheme_addressCrates
  authority address scheme path host hform hhost := by
    obtain ⟨kept, hparse, hkept⟩ := address.plainUrl_url hform
    have hdefault : specialPort scheme.text = scheme.defaultPort := by
      cases scheme <;> rfl
    rw [address.plainAuthority_hostPort scheme.text hkept, hhost, hdefault] at hparse
    exact ⟨_, hparse, rfl, rfl⟩
  invalidHost address scheme path hform hhost := by
    obtain ⟨kept, hparse, hkept⟩ := address.plainUrl_url hform
    rw [address.plainAuthority_hostPort scheme.text hkept, hhost] at hparse
    exact ⟨_, hparse⟩
  special address scheme host hform hscheme hspecial hhost := by
    have hport := address.port_lt
    have hparse := address.plainUrl_bare hform hscheme
    rw [if_pos hspecial] at hparse
    obtain ⟨url, hurl, hhostStr, hnone⟩ :=
      plainAuthority_number scheme address.port (by omega)
    rw [plainHost_number address.port (by omega)] at hhost
    exact ⟨url, hparse.trans hurl, hhostStr.trans hhost, hnone⟩
  hostless address scheme hform hscheme hspecial := by
    have hparse := address.plainUrl_bare hform hscheme
    rw [if_neg hspecial] at hparse
    exact ⟨_, hparse, rfl, rfl⟩
  number n hn := plainHost_number n hn

/-! ### An address that does not parse -/

theorem dropPrefix?_hostPort (address : WorkerAddress) {scheme : List Char}
    (hscheme : ':' ∉ scheme) (rest : List Char) :
    (address.hostPort.toList ++ rest).dropPrefix? (scheme ++ "://".toList) = none := by
  rw [Option.eq_none_iff_forall_not_mem]
  intro kept hkept
  obtain ⟨found, hlist, hfound⟩ := List.dropPrefix?_eq_some_iff.mp hkept
  obtain rfl := eq_of_beq hfound
  obtain ⟨digit, digits, hport, hdigit⟩ := startsWithDigit_toString address.port
  have hslashes : "://".toList = [':', '/', '/'] := rfl
  -- Both sides are cut at their first colon, after which one has a digit and the other a slash.
  have hcut := congrArg (List.dropWhile (· != ':')) hlist
  rw [toList_hostPort, hport, hslashes, List.append_assoc, List.append_assoc,
    List.dropWhile_append_of_pos (bne_of_notMem address.colon_notMem_host),
    List.dropWhile_append_of_pos (bne_of_notMem hscheme)] at hcut
  have hslash : digit = '/' := by
    simpa using congrArg (fun l => l.tail.head?) hcut
  exact (isDigit_spec hdigit).2.2.1 hslash

end WorkerAddress

theorem trimStartMatches_of_none {pattern s : List Char} (h : s.dropPrefix? pattern = none)
    (fuel : Nat) : trimStartMatches pattern fuel s = s := by
  cases fuel with
  | zero => rfl
  | succ fuel => rw [trimStartMatches, h]

theorem trimStartMatches_append {pattern rest : List Char}
    (hrest : rest.dropPrefix? pattern = none) {fuel : Nat} (hfuel : 0 < fuel) :
    trimStartMatches pattern fuel (pattern ++ rest) = rest := by
  obtain ⟨fuel, rfl⟩ := Nat.exists_eq_succ_of_ne_zero hfuel.ne'
  rw [trimStartMatches, List.dropPrefix?_append_of_beq rest (beq_self_eq_true pattern)]
  exact trimStartMatches_of_none hrest fuel

namespace WorkerAddress

/-- Of an address that does not parse, the scheme is trimmed and everything else kept. -/
theorem extract_of_error (address : WorkerAddress) {crates : Crates} {error : String}
    (herror : crates.parseUrl address.text = .error error) :
    extractBootstrapHost crates address.text = address.hostPort ++ address.form.after := by
  have hhttp : (address.hostPort.toList ++ address.form.after.toList).dropPrefix?
      "http://".toList = none :=
    address.dropPrefix?_hostPort (show ':' ∉ "http".toList by decide) _
  have hhttps : (address.hostPort.toList ++ address.form.after.toList).dropPrefix?
      "https://".toList = none :=
    address.dropPrefix?_hostPort (show ':' ∉ "https".toList by decide) _
  have htext := address.toList_text
  rw [extractBootstrapHost, herror, ← String.toList_inj, String.toList_append]
  simp only [String.toList_ofList]
  generalize address.hostPort.toList ++ address.form.after.toList = kept at hhttp hhttps htext ⊢
  cases hform : address.form with
  | bare =>
      replace htext : address.text.toList = kept := by rw [htext, hform]; rfl
      rw [htext, trimStartMatches_of_none hhttp]
      exact trimStartMatches_of_none hhttps _
  | url scheme path =>
      cases scheme with
      | http =>
          replace htext : address.text.toList = "http://".toList ++ kept := by
            rw [htext, hform]
            rfl
          rw [htext, trimStartMatches_append hhttp (by simp)]
          exact trimStartMatches_of_none hhttps _
      | https =>
          replace htext : address.text.toList = "https://".toList ++ kept := by
            rw [htext, hform]
            rfl
          have hother : ("https://".toList ++ kept).dropPrefix? "http://".toList = none := rfl
          rw [htext, trimStartMatches_of_none hother]
          exact trimStartMatches_append hhttps (by simp)

/-- A URL keeps a host that is written as the standard writes it and a port that is not the scheme's
own, or, where the host does not parse, an address without a path. A bare address keeps a name that
is no scheme. -/
def Kept (address : WorkerAddress) (parseHost : String → Option String) : Prop :=
  match address.form with
  | .url scheme _ =>
      parseHost address.host = some address.host ∧ address.port ≠ scheme.defaultPort ∨
        parseHost address.host = none ∧ address.form.after = ""
  | .bare => namesScheme address.host = false

theorem extract_url_iff {crates : Crates} {parseHost : String → Option String}
    (hcrates : UrlStandard crates parseHost) (address : WorkerAddress) {scheme : HttpScheme}
    {path : Option String} (hform : address.form = .url scheme path) :
    extractBootstrapHost crates address.text = address.hostPort ↔
      parseHost address.host = some address.host ∧ address.port ≠ scheme.defaultPort ∨
        parseHost address.host = none ∧ address.form.after = "" := by
  cases hhost : parseHost address.host with
  | none =>
      obtain ⟨error, herror⟩ := hcrates.invalidHost address scheme path hform hhost
      rw [address.extract_of_error herror, ← String.toList_inj, String.toList_append,
        List.append_right_eq_self, String.toList_eq_nil_iff]
      simp
  | some host =>
      obtain ⟨url, hurl, hhostStr, hport⟩ := hcrates.authority address scheme path host hform hhost
      simp only [extractBootstrapHost, hurl, hhostStr, hport, hostPort, Option.getD_some]
      rw [hostPort_eq_iff address.colon_notMem_host]
      by_cases hdefault : address.port = scheme.defaultPort
      · have hfallback : toString 8000 ≠ toString address.port := by
          rw [hdefault]
          cases scheme <;> decide
        rw [if_pos hdefault]
        constructor
        · intro h
          exact absurd h.2 hfallback
        · rintro (h | h)
          · exact absurd hdefault h.2
          · cases h.1
      · simp [hdefault]

/-- A name that is a scheme begins with a letter, the host read in its place with a digit. -/
theorem ne_of_namesScheme {host other : String} (hname : namesScheme host = true)
    (hother : StartsWithDigit other) : other ≠ host := by
  rintro rfl
  obtain ⟨digit, rest, hlist, hdigit⟩ := hother
  rw [namesScheme, hlist, Bool.and_eq_true, (isDigit_spec hdigit).2.2.2] at hname
  cases hname.1

theorem startsWithDigit_ipv4Text (n : Nat) : StartsWithDigit (ipv4Text n) := by
  obtain ⟨digit, rest, hlist, hdigit⟩ := startsWithDigit_toString (n / 2 ^ 24)
  refine ⟨digit, (ipv4Text n).toList.tail, ?_, hdigit⟩
  simp only [ipv4Text, String.toList_append, hlist, List.cons_append, List.tail_cons]

theorem extract_bare_iff {crates : Crates} {parseHost : String → Option String}
    (hcrates : UrlStandard crates parseHost) (address : WorkerAddress)
    (hform : address.form = .bare) :
    extractBootstrapHost crates address.text = address.hostPort ↔
      namesScheme address.host = false := by
  have hafter : address.form.after = "" := by rw [hform]; rfl
  have htext := address.text_bare hform
  have hscheme := address.schemeOf_hostPort
  rw [← htext] at hscheme
  cases hname : namesScheme address.host with
  | false =>
      rw [hname, if_neg Bool.false_ne_true] at hscheme
      obtain ⟨error, herror⟩ := hcrates.needsScheme.error hscheme
      rw [address.extract_of_error herror, hafter, String.append_empty]
      simp
  | true =>
      rw [hname, if_pos rfl] at hscheme
      have hwrong : ∀ {url : Url} {host : String}, crates.parseUrl address.text = .ok url →
          url.hostStr.getD "127.0.0.1" = host → StartsWithDigit host →
          extractBootstrapHost crates address.text ≠ address.hostPort := by
        intro url host hurl hhost hdigit heq
        simp only [extractBootstrapHost, hurl, hhost, hostPort] at heq
        have hsame := ((hostPort_eq_iff address.colon_notMem_host _ _ _).mp heq).1
        exact ne_of_namesScheme hname hdigit hsame
      simp only [Bool.true_eq_false, iff_false]
      by_cases hspecial : String.ofList (address.host.toList.map Char.toLower) ∈ specialSchemes
      · have hport := address.port_lt
        have hnumber := hcrates.number address.port (by omega)
        obtain ⟨url, hurl, hhostStr, -⟩ :=
          hcrates.special address _ _ hform hscheme hspecial hnumber
        exact hwrong hurl (by rw [hhostStr, Option.getD_some]) (startsWithDigit_ipv4Text _)
      · obtain ⟨url, hurl, hhostStr, -⟩ := hcrates.hostless address _ hform hscheme hspecial
        exact hwrong hurl (by rw [hhostStr, Option.getD_none]) ⟨'1', _, rfl, rfl⟩

/-- The decode worker is given the prefill worker's address exactly where it is kept. -/
theorem extracted_iff_kept {crates : Crates} {parseHost : String → Option String}
    (hcrates : UrlStandard crates parseHost) (address : WorkerAddress) :
    extractBootstrapHost crates address.text = address.hostPort ↔ address.Kept parseHost := by
  cases hform : address.form with
  | url scheme path =>
      rw [extract_url_iff hcrates address hform, Kept, hform]
  | bare => rw [extract_bare_iff hcrates address hform, Kept, hform]

def prefillUrl : WorkerAddress :=
  ⟨"10.0.0.1", 8000, .url .http (some "v1"), List.all_eq_true.mp rfl, by decide⟩

theorem extracted_prefillUrl :
    UrlStandard addressCrates plainHost ∧
      extractBootstrapHost addressCrates prefillUrl.text = prefillUrl.hostPort :=
  ⟨urlStandard_addressCrates,
    (extracted_iff_kept urlStandard_addressCrates prefillUrl).mpr (.inl ⟨rfl, by decide⟩)⟩

/-- The port is the scheme's own. -/
def prefillOnPort80 : WorkerAddress :=
  ⟨"prefill-0", 80, .url .http none, List.all_eq_true.mp rfl, by decide⟩

/-- The name is read as a scheme. -/
def namedPrefill : WorkerAddress :=
  ⟨"prefill-0", 9000, .bare, List.all_eq_true.mp rfl, by decide⟩

theorem not_extracted :
    UrlStandard addressCrates plainHost ∧
      extractBootstrapHost addressCrates prefillOnPort80.text = "prefill-0:8000" ∧
      extractBootstrapHost addressCrates namedPrefill.text = "127.0.0.1:8000" ∧
      ¬∀ address : WorkerAddress,
        extractBootstrapHost addressCrates address.text = address.hostPort := by
  have hport : extractBootstrapHost addressCrates prefillOnPort80.text = "prefill-0:8000" := by
    decide +kernel
  have hname : extractBootstrapHost addressCrates namedPrefill.text = "127.0.0.1:8000" := by
    decide +kernel
  refine ⟨urlStandard_addressCrates, hport, hname, ?_⟩
  intro hall
  have heq := hport.symm.trans (hall prefillOnPort80)
  exact absurd heq (by decide +kernel)

end WorkerAddress

end TokenDog
