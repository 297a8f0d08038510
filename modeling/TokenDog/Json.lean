import TokenDog.Policies.Basic
import Mathlib.Algebra.Group.Int.Defs
import Mathlib.Algebra.GroupWithZero.Nat

/-!
# JSON values

`serde_json::Value` with the accessors the router uses, and its compact serialization. Objects keep
their keys in order. Parsing is left to the crate; a float is known by the text it is written as.
-/

namespace TokenDog

inductive Number where
  | int (value : Int)
  | float (text : String)
  deriving DecidableEq, Repr

def Number.compact : Number → String
  | .int value => toString value
  | .float text => text

inductive Value where
  | null
  | bool (value : Bool)
  | number (value : Number)
  | string (value : String)
  | array (elems : List Value)
  | object (entries : List (String × Value))

namespace Value

/-- `Map::insert`: replace the value of the key, or put the entry in its place. -/
def insertEntry (key : String) (value : Value) : List (String × Value) → List (String × Value)
  | [] => [(key, value)]
  | (other, old) :: rest =>
      if other = key then (key, value) :: rest
      else if key < other then (key, value) :: (other, old) :: rest
      else (other, old) :: insertEntry key value rest

/-- Overwrite the value of a key that is there. -/
def replaceEntry (key : String) (value : Value) : List (String × Value) → List (String × Value)
  | [] => []
  | (other, old) :: rest =>
      if other = key then (key, value) :: rest else (other, old) :: replaceEntry key value rest

/-- `Map::remove`. -/
def removeEntry (key : String) (entries : List (String × Value)) : List (String × Value) :=
  entries.filter fun entry => entry.1 != key

def asObject : Value → Option (List (String × Value))
  | object entries => some entries
  | _ => none

def asArray : Value → Option (List Value)
  | array elems => some elems
  | _ => none

def asStr : Value → Option String
  | string value => some value
  | _ => none

def asBool : Value → Option Bool
  | bool value => some value
  | _ => none

def asU64 : Value → Option Nat
  | number (.int value) => if 0 ≤ value ∧ value < 2 ^ 64 then some value.toNat else none
  | _ => none

def asI64 : Value → Option Int
  | number (.int value) => if -2 ^ 63 ≤ value ∧ value < 2 ^ 63 then some value else none
  | _ => none

def ofInt (value : Int) : Value := number (.int value)

/-- `Value::get` with a string index. -/
def get (value : Value) (key : String) : Option Value :=
  value.asObject.bind fun entries => entries.lookup key

/-- `value[key] = new`: `null` becomes an object, and any other value that is none panics. -/
def indexSet (value : Value) (key : String) (new : Value) : Except Panic Value :=
  match value with
  | null => .ok (object [(key, new)])
  | object entries => .ok (object (insertEntry key new entries))
  | _ => .error .notAnObject

/-- `if let Some(obj) = value.as_object_mut() { obj.insert(key, new); }`. -/
def insertIfObject (value : Value) (key : String) (new : Value) : Value :=
  match value with
  | object entries => object (insertEntry key new entries)
  | other => other

def removeIfObject (value : Value) (key : String) : Value :=
  match value with
  | object entries => object (removeEntry key entries)
  | other => other

/-- What `*value.get_mut(key) = new` leaves behind. -/
def writeBack (value : Value) (key : String) (new : Value) : Value :=
  match value with
  | object entries => object (replaceEntry key new entries)
  | other => other

theorem asArray_eq_some_iff {value : Value} {elems : List Value} :
    value.asArray = some elems ↔ value = .array elems := by
  cases value <;> simp [asArray]

theorem asStr_eq_some_iff {value : Value} {text : String} :
    value.asStr = some text ↔ value = .string text := by
  cases value <;> simp [asStr]

theorem get_bind_asArray_eq_some_iff {value : Value} {key : String} {elems : List Value} :
    (value.get key).bind asArray = some elems ↔ value.get key = some (.array elems) := by
  simp [Option.bind_eq_some_iff, asArray_eq_some_iff]

theorem get_bind_asStr_eq_some_iff {value : Value} {key text : String} :
    (value.get key).bind asStr = some text ↔ value.get key = some (.string text) := by
  simp [Option.bind_eq_some_iff, asStr_eq_some_iff]

theorem get_of_asObject_eq_none {value : Value} (hobject : value.asObject = none) (key : String) :
    value.get key = none := by
  rw [get, hobject]
  rfl

theorem insertIfObject_of_asObject_eq_none {value : Value} (hobject : value.asObject = none)
    (key : String) (new : Value) : value.insertIfObject key new = value := by
  cases value with
  | object entries => cases hobject
  | null | bool | number | string | array => rfl

/-- What is left of two values when both being objects is ruled out. -/
theorem asObject_eq_none_or {value value' : Value}
    (hnone : ∀ entries entries', value = .object entries → value' = .object entries' → False) :
    value.asObject = none ∨ value'.asObject = none := by
  cases value with
  | object entries =>
      cases value' with
      | object entries' => exact (hnone entries entries' rfl rfl).elim
      | null | bool | number | string | array => exact Or.inr rfl
  | null | bool | number | string | array => exact Or.inl rfl

theorem lookup_insertEntry_of_ne {key other : String} (hne : other ≠ key) (value : Value)
    (entries : List (String × Value)) :
    (insertEntry key value entries).lookup other = entries.lookup other := by
  have hkey : (other == key) = false := by simpa using hne
  induction entries with
  | nil => simp [insertEntry, List.lookup_cons, hkey]
  | cons entry rest ih =>
      obtain ⟨name, old⟩ := entry
      unfold insertEntry
      split
      · rename_i hname
        subst hname
        simp [List.lookup_cons, hkey]
      · split
        · simp [List.lookup_cons, hkey]
        · simp only [List.lookup_cons, ih]

@[simp]
theorem get_insertIfObject_of_ne {key other : String} (hne : other ≠ key) (value new : Value) :
    (value.insertIfObject key new).get other = value.get other := by
  cases value with
  | object entries => exact lookup_insertEntry_of_ne hne new entries
  | null | bool | number | string | array => rfl

theorem lookup_insertEntry_self (key : String) (value : Value) (entries : List (String × Value)) :
    (insertEntry key value entries).lookup key = some value := by
  induction entries with
  | nil => simp [insertEntry]
  | cons entry rest ih =>
      obtain ⟨name, old⟩ := entry
      unfold insertEntry
      split
      · simp
      · rename_i hname
        have hkey : (key == name) = false := by simpa using Ne.symm hname
        split
        · simp
        · simp only [List.lookup_cons, hkey, ih]

theorem lookup_removeEntry_of_ne {key other : String} (hne : other ≠ key)
    (entries : List (String × Value)) :
    (removeEntry key entries).lookup other = entries.lookup other := by
  induction entries with
  | nil => rfl
  | cons entry rest ih =>
      obtain ⟨name, old⟩ := entry
      simp only [removeEntry] at ih ⊢
      by_cases hname : name = key
      · subst hname
        have hother : (other == name) = false := by simpa using hne
        rw [List.filter_cons_of_neg (by simp), ih, List.lookup_cons, hother]
      · rw [List.filter_cons_of_pos (by simpa using hname), List.lookup_cons, List.lookup_cons, ih]

theorem lookup_removeEntry_self (key : String) (entries : List (String × Value)) :
    (removeEntry key entries).lookup key = none := by
  rw [List.lookup_eq_none_iff]
  intro entry hentry
  have hname : entry.1 ≠ key := by simpa using (List.mem_filter.mp hentry).2
  simpa using hname.symm

theorem lookup_replaceEntry_of_ne {key other : String} (hne : other ≠ key) (value : Value)
    (entries : List (String × Value)) :
    (replaceEntry key value entries).lookup other = entries.lookup other := by
  have hkey : (other == key) = false := by simpa using hne
  induction entries with
  | nil => rfl
  | cons entry rest ih =>
      obtain ⟨name, old⟩ := entry
      unfold replaceEntry
      split
      · rename_i hname
        subst hname
        simp [List.lookup_cons, hkey]
      · simp only [List.lookup_cons, ih]

theorem lookup_replaceEntry_self {key : String} {entries : List (String × Value)} {old : Value}
    (hold : entries.lookup key = some old) (value : Value) :
    (replaceEntry key value entries).lookup key = some value := by
  induction entries with
  | nil => cases hold
  | cons entry rest ih =>
      obtain ⟨name, first⟩ := entry
      unfold replaceEntry
      split
      · simp
      · rename_i hname
        have hkey : (key == name) = false := by simpa using Ne.symm hname
        rw [List.lookup_cons, hkey] at hold ⊢
        exact ih hold

theorem replaceEntry_of_lookup {key : String} {entries : List (String × Value)} {old : Value}
    (hold : entries.lookup key = some old) : replaceEntry key old entries = entries := by
  induction entries with
  | nil => rfl
  | cons entry rest ih =>
      obtain ⟨name, first⟩ := entry
      unfold replaceEntry
      split
      · rename_i hname
        subst hname
        simp at hold
        rw [hold]
      · rename_i hname
        have hkey : (key == name) = false := by simpa using Ne.symm hname
        rw [List.lookup_cons, hkey] at hold
        rw [ih hold]

theorem get_insertIfObject_self {value : Value} {key : String} {old : Value}
    (hold : value.get key = some old) (new : Value) :
    (value.insertIfObject key new).get key = some new := by
  cases value with
  | object entries => exact lookup_insertEntry_self key new entries
  | null | bool | number | string | array => cases hold

@[simp]
theorem get_writeBack_of_ne {key other : String} (hne : other ≠ key) (value new : Value) :
    (value.writeBack key new).get other = value.get other := by
  cases value with
  | object entries => exact lookup_replaceEntry_of_ne hne new entries
  | null | bool | number | string | array => rfl

theorem get_writeBack_self {value : Value} {key : String} {old : Value}
    (hold : value.get key = some old) (new : Value) :
    (value.writeBack key new).get key = some new := by
  cases value with
  | object entries => exact lookup_replaceEntry_self hold new
  | null | bool | number | string | array => cases hold

theorem writeBack_of_get {value : Value} {key : String} {old : Value}
    (hold : value.get key = some old) : value.writeBack key old = value := by
  cases value with
  | object entries => exact congrArg object (replaceEntry_of_lookup hold)
  | null | bool | number | string | array => cases hold

def hexDigit (n : Nat) : Char := if n < 10 then .ofNat (48 + n) else .ofNat (87 + n)

def escape (c : Char) : String :=
  if c = '"' then "\\\""
  else if c = '\\' then "\\\\"
  else if c.toNat = 8 then "\\b"
  else if c.toNat = 9 then "\\t"
  else if c.toNat = 10 then "\\n"
  else if c.toNat = 12 then "\\f"
  else if c.toNat = 13 then "\\r"
  else if c.toNat < 32 then
    "\\u00" ++ String.singleton (hexDigit (c.toNat / 16)) ++
      String.singleton (hexDigit (c.toNat % 16))
  else String.singleton c

def quote (s : String) : String := "\"" ++ String.join (s.toList.map escape) ++ "\""

def commaSeparated : List String → String
  | [] => ""
  | [part] => part
  | part :: rest => part ++ "," ++ commaSeparated rest

mutual

def compact : Value → String
  | null => "null"
  | bool true => "true"
  | bool false => "false"
  | number value => value.compact
  | string value => quote value
  | array elems => "[" ++ commaSeparated (compactElems elems) ++ "]"
  | object entries => "\x7b" ++ commaSeparated (compactEntries entries) ++ "\x7d"

def compactElems : List Value → List String
  | [] => []
  | value :: rest => value.compact :: compactElems rest

def compactEntries : List (String × Value) → List String
  | [] => []
  | (key, value) :: rest => (quote key ++ ":" ++ value.compact) :: compactEntries rest

end

def toVec (value : Value) : ByteArray := value.compact.toUTF8

theorem size_toVec (value : Value) : value.toVec.size = value.compact.utf8ByteSize := rfl

theorem utf8ByteSize_commaSeparated (parts : List String) :
    (commaSeparated parts).utf8ByteSize =
      (parts.map String.utf8ByteSize).sum + (parts.length - 1) := by
  induction parts with
  | nil => rfl
  | cons part rest ih =>
      cases rest with
      | nil => simp [commaSeparated]
      | cons next rest =>
          rw [commaSeparated, String.utf8ByteSize_append, String.utf8ByteSize_append, ih]
          · simp only [List.map_cons, List.sum_cons, List.length_cons]
            have : ",".utf8ByteSize = 1 := rfl
            omega
          · simp

theorem compactEntries_append (before after : List (String × Value)) :
    compactEntries (before ++ after) = compactEntries before ++ compactEntries after := by
  induction before with
  | nil => rfl
  | cons entry rest ih => rw [List.cons_append, compactEntries, compactEntries, ih, List.cons_append]

/-- Where an inserted entry lands does not depend on its value. -/
theorem exists_insertEntry (key : String) (entries : List (String × Value)) :
    ∃ before after, ∀ value, insertEntry key value entries = before ++ (key, value) :: after := by
  induction entries with
  | nil => exact ⟨[], [], fun _ => rfl⟩
  | cons entry rest ih =>
      obtain ⟨other, old⟩ := entry
      obtain ⟨before, after, hrest⟩ := ih
      simp only [insertEntry]
      split
      · exact ⟨[], rest, fun _ => rfl⟩
      · split
        · exact ⟨[], (other, old) :: rest, fun _ => rfl⟩
        · exact ⟨(other, old) :: before, after, fun value => by rw [hrest, List.cons_append]⟩

/-- An inserted value contributes its own length and nothing else. -/
theorem exists_size_insertEntry (key : String) (entries : List (String × Value)) :
    ∃ frame, ∀ value, (object (insertEntry key value entries)).toVec.size =
      frame + value.compact.utf8ByteSize := by
  obtain ⟨before, after, hinsert⟩ := exists_insertEntry key entries
  refine ⟨((compactEntries before).map String.utf8ByteSize).sum +
    ((compactEntries after).map String.utf8ByteSize).sum + (quote key).utf8ByteSize + 1 +
      (compactEntries before).length + (compactEntries after).length + 2, fun value => ?_⟩
  rw [hinsert, size_toVec, compact, String.utf8ByteSize_append, String.utf8ByteSize_append,
    compactEntries_append, compactEntries, utf8ByteSize_commaSeparated]
  simp only [List.map_append, List.map_cons, List.sum_append, List.sum_cons, List.length_append,
    List.length_cons, String.utf8ByteSize_append]
  have hopen : "\x7b".utf8ByteSize = 1 := rfl
  have hclose : "\x7d".utf8ByteSize = 1 := rfl
  have hcolon : ":".utf8ByteSize = 1 := rfl
  omega

end Value

end TokenDog
