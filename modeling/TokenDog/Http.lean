import TokenDog.Json
import Mathlib.Data.List.Infix

/-!
# Requests and responses

What passes between the client, the router and the workers: headers, the requests handed to the HTTP
client and the responses it returns. The crates behind them are parameters.
-/

namespace TokenDog

abbrev HeaderValue := List UInt8

/-- `HeaderValue::to_str`: visible ASCII and tabs only. -/
def HeaderValue.toStr (value : HeaderValue) : Option String :=
  if value.all fun byte => (32 ≤ byte && byte < 127) || byte == 9 then
    some (String.ofList (value.map fun byte => Char.ofNat byte.toNat))
  else none

/-- Names in lower case, each with a value; a name may occur several times. -/
abbrev Headers := List (String × HeaderValue)

namespace Headers

/-- `HeaderMap::get`: the first value of the name. -/
def get (headers : Headers) (name : String) : Option HeaderValue := headers.lookup name

/-- `HeaderMap::remove`: drop every value of the name. -/
def remove (headers : Headers) (name : String) : Headers :=
  headers.filter fun header => header.1 != name

end Headers

/-- Headers that must not be forwarded from the worker response to the client. -/
def hopByHop : List String :=
  ["connection", "keep-alive", "proxy-authenticate", "proxy-authorization", "te", "trailers",
    "transfer-encoding", "upgrade"]

def isHopByHop (name : String) : Bool := hopByHop.contains name

def filterHopByHop (headers : Headers) : Headers :=
  headers.filter fun header => !isHopByHop header.1

theorem utf8EncodeChar_ofNat {byte : UInt8} (hbyte : byte < 128) :
    String.utf8EncodeChar (Char.ofNat byte.toNat) = [byte] := by
  have hlt : byte.toNat < 128 := hbyte
  have hvalid : byte.toNat.isValidChar := Or.inl (by omega)
  have hval : (Char.ofNat byte.toNat).val.toNat = byte.toNat := by
    rw [Char.ofNat, dif_pos hvalid]
    rfl
  have hsize : (Char.ofNat byte.toNat).utf8Size = 1 := by
    rw [Char.utf8Size_eq_one_iff]
    change (Char.ofNat byte.toNat).val.toNat ≤ 127
    omega
  rw [String.utf8EncodeChar_eq_singleton hsize]
  congr 1
  apply UInt8.toNat_inj.mp
  rw [UInt32.toNat_toUInt8, hval]
  omega

theorem bytes_ofList_ascii {value : List UInt8} (h : ∀ byte ∈ value, byte < 128) :
    bytes (String.ofList (value.map fun byte => Char.ofNat byte.toNat)) = value := by
  have hencode : (value.map fun byte => Char.ofNat byte.toNat).flatMap String.utf8EncodeChar =
      value := by
    induction value with
    | nil => rfl
    | cons byte rest ih =>
        rw [List.map_cons, List.flatMap_cons, utf8EncodeChar_ofNat (h byte List.mem_cons_self),
          ih fun byte hmem => h byte (List.mem_cons_of_mem _ hmem)]
        rfl
  rw [bytes, String.toByteArray_ofList, List.utf8Encode, hencode]
  simp

theorem bytes_injective : Function.Injective bytes := by
  intro s t h
  apply String.toByteArray_inj.mp
  apply ByteArray.ext
  exact Array.toList_inj.mp h

/-- Visible ASCII and tabs. -/
def HeaderValue.Visible (value : HeaderValue) : Prop :=
  ∀ byte ∈ value, 32 ≤ byte ∧ byte < 127 ∨ byte = 9

theorem HeaderValue.toStr_eq_some_iff {value : HeaderValue} {text : String} :
    value.toStr = some text ↔ value.Visible ∧ bytes text = value := by
  have hvisible : (value.all fun byte => (32 ≤ byte && byte < 127) || byte == 9) = true ↔
      value.Visible := by
    simp [Visible]
  have hascii : value.Visible → ∀ byte ∈ value, byte < 128 := by
    intro h byte hmem
    rcases h byte hmem with ⟨-, hlt⟩ | rfl
    · exact UInt8.lt_trans hlt (by decide)
    · decide
  rw [toStr]
  by_cases h : value.Visible
  · have hbytes := bytes_ofList_ascii (hascii h)
    rw [if_pos (hvisible.mpr h), Option.some.injEq]
    constructor
    · rintro rfl
      exact ⟨h, hbytes⟩
    · rintro ⟨-, htext⟩
      exact bytes_injective (hbytes.trans htext.symm)
  · rw [if_neg (mt hvisible.mp h)]
    simp [h]

/-- `trim_end_matches(c)`. -/
def trimEndMatches (s : String) (c : Char) : String :=
  String.ofList (s.toList.reverse.dropWhile (· == c)).reverse

/-- `path.contains(pattern)`. -/
def containsText (path pattern : String) : Bool := decide (pattern.toList <:+: path.toList)

/-- `strip_prefix(pattern)`. -/
def stripPrefix (s pattern : String) : Option String :=
  (s.toList.dropPrefix? pattern.toList).map String.ofList

theorem stripPrefix_eq_some_iff {s pattern rest : String} :
    stripPrefix s pattern = some rest ↔ s = pattern ++ rest := by
  rw [stripPrefix, Option.map_eq_some_iff]
  constructor
  · rintro ⟨tail, hdrop, rfl⟩
    obtain ⟨front, happend, hfront⟩ := List.dropPrefix?_eq_some_iff.mp hdrop
    rw [eq_of_beq hfront] at happend
    rw [← String.toList_inj, happend, String.toList_append, String.toList_ofList]
  · rintro rfl
    refine ⟨rest.toList, ?_, String.ofList_toList⟩
    rw [String.toList_append]
    exact List.dropPrefix?_append_of_beq _ (beq_self_eq_true _)

theorem containsText_self (s : String) : containsText s s = true :=
  decide_eq_true (List.infix_refl _)

theorem containsText_of_longer {path pattern : String}
    (h : path.toList.length < pattern.toList.length) : containsText path pattern = false := by
  rw [containsText, decide_eq_false_iff_not]
  intro hinfix
  have := hinfix.length_le
  omega

structure Url where
  asStr : String
  hostStr : Option String
  port : Option Nat

structure ReqwestError where
  isTimeout : Bool
  isConnect : Bool
  text : String

/-- A request handed to the HTTP client: the header map and the body passed with it. -/
structure Outgoing where
  method : String
  url : Url
  headers : Headers
  body : ByteArray

/-- The head of a worker's response; its body is read later or streamed on. -/
structure WorkerResponse where
  status : Nat
  headers : Headers

/-- `StatusCode::is_success`. -/
def WorkerResponse.isSuccess (response : WorkerResponse) : Bool :=
  200 ≤ response.status && response.status < 300

/-- The body of a response to the client: bytes, or the stream of a worker's response. A stream
carries the worker it comes from, by pool and position. -/
inductive Body (Worker : Type) where
  | bytes (bytes : ByteArray)
  | stream (worker : Worker)

structure Response (Worker : Type) where
  status : Nat
  headers : Headers
  body : Body Worker

/-- The request line and the headers of a client's request. -/
structure Parts where
  method : String
  path : String
  query : Option String
  headers : Headers

def Parts.pathAndQuery (parts : Parts) : String :=
  match parts.query with
  | some query => parts.path ++ "?" ++ query
  | none => parts.path

/-- The crates the handlers call: `Url::parse`, `serde_json::from_slice`, and the error a response
builder reports for a head it cannot build. -/
structure Crates where
  parseUrl : String → Except String Url
  fromSlice : ByteArray → Except String Value
  builderError : Nat → Headers → Option String

/-- Crates that parse every URL and no JSON. -/
def plainCrates : Crates where
  parseUrl text := .ok ⟨text, none, none⟩
  fromSlice _ := .error "expected value"
  builderError _ _ := none

end TokenDog
