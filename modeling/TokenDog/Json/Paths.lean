import TokenDog.Json

/-!
# Locations in a JSON value

A path leads from a value to a value inside it. Two values agree outside a set of locations when no
path that keeps clear of the set tells them apart: the same members are present, arrays have the same
length, and everything else is equal.
-/

namespace TokenDog

namespace Value

inductive Step where
  | key (name : String)
  | index (i : Nat)
  deriving DecidableEq, Repr

def child (value : Value) : Step → Option Value
  | .key name => value.get name
  | .index i => value.asArray.bind fun elems => elems[i]?

def atPath (value : Value) : List Step → Option Value
  | [] => some value
  | step :: rest => (value.child step).bind fun inner => inner.atPath rest

theorem atPath_append (value : Value) (path path' : List Step) :
    value.atPath (path ++ path') = (value.atPath path).bind fun inner => inner.atPath path' := by
  induction path generalizing value with
  | nil => rfl
  | cons step rest ih =>
      rw [List.cons_append, atPath, atPath, Option.bind_assoc]
      congr 1
      funext inner
      exact ih inner

/-- A value without what is inside it. -/
inductive Shape where
  | null
  | bool (value : Bool)
  | number (value : Number)
  | string (value : String)
  | array (length : Nat)
  | object
  deriving DecidableEq, Repr

def shape : Value → Shape
  | null => .null
  | bool value => .bool value
  | number value => .number value
  | string value => .string value
  | array elems => .array elems.length
  | object _ => .object

def shapeAt (value : Value) (path : List Step) : Option Shape := (value.atPath path).map shape

/-- The path ends neither at a touched location nor below one. -/
def Clear (touched : List Step → Prop) (path : List Step) : Prop :=
  ∀ location, touched location → ¬location <+: path

/-- The values can differ only at and below the touched locations. -/
def AgreesOutside (touched : List Step → Prop) (value value' : Value) : Prop :=
  ∀ path, Clear touched path → value.shapeAt path = value'.shapeAt path

variable {touched touched' : List Step → Prop} {value value' value'' : Value}

theorem AgreesOutside.refl (touched : List Step → Prop) (value : Value) :
    AgreesOutside touched value value :=
  fun _ _ => rfl

theorem AgreesOutside.trans (h : AgreesOutside touched value value')
    (h' : AgreesOutside touched value' value'') : AgreesOutside touched value value'' :=
  fun path hclear => (h path hclear).trans (h' path hclear)

theorem AgreesOutside.mono (h : AgreesOutside touched value value')
    (hsub : ∀ location, touched location → touched' location) :
    AgreesOutside touched' value value' :=
  fun path hclear => h path fun location htouched => hclear location (hsub location htouched)

theorem Clear.tail {step : Step} {rest : List Step} (hclear : Clear touched (step :: rest)) :
    Clear (fun location => touched (step :: location)) rest := by
  intro location htouched hinside
  exact hclear _ htouched (List.cons_prefix_cons.mpr ⟨rfl, hinside⟩)

theorem Clear.head {step : Step} {rest : List Step} (hclear : Clear touched (step :: rest)) :
    ¬touched [step] := by
  intro htouched
  exact hclear _ htouched (List.cons_prefix_cons.mpr ⟨rfl, List.nil_prefix⟩)

/-- Values that look alike agree if what every untouched step leads to does. -/
theorem agreesOutside_of_child (hshape : value.shape = value'.shape)
    (hchild : ∀ step, ¬touched [step] → value.child step = value'.child step ∨
      ∃ inner inner', value.child step = some inner ∧ value'.child step = some inner' ∧
        AgreesOutside (fun location => touched (step :: location)) inner inner') :
    AgreesOutside touched value value' := by
  intro path hclear
  cases path with
  | nil => simp [shapeAt, atPath, hshape]
  | cons step rest =>
      rcases hchild step hclear.head with heq | ⟨inner, inner', hinner, hinner', hagrees⟩
      · simp [shapeAt, atPath, heq]
      · have := hagrees rest hclear.tail
        simpa [shapeAt, atPath, hinner, hinner'] using this

theorem agreesOutside_insertIfObject {key : String} (htouched : touched [.key key])
    (value new : Value) : AgreesOutside touched value (value.insertIfObject key new) := by
  apply agreesOutside_of_child
  · cases value <;> rfl
  · intro step hstep
    left
    cases step with
    | key name =>
        have hne : name ≠ key := by
          rintro rfl
          exact hstep htouched
        exact (get_insertIfObject_of_ne hne value new).symm
    | index i => cases value <;> rfl

theorem agreesOutside_writeBack {key : String} {old new : Value} (hold : value.get key = some old)
    (hagrees : AgreesOutside (fun location => touched (.key key :: location)) old new) :
    AgreesOutside touched value (value.writeBack key new) := by
  apply agreesOutside_of_child
  · cases value <;> rfl
  · intro step _
    cases step with
    | key name =>
        by_cases hname : name = key
        · subst hname
          exact Or.inr ⟨old, new, hold, get_writeBack_self hold new, hagrees⟩
        · exact Or.inl (get_writeBack_of_ne hname value new).symm
    | index i => left; cases value <;> rfl

theorem agreesOutside_array {elems elems' : List Value} (hlength : elems.length = elems'.length)
    (hagrees : ∀ i inner inner', elems[i]? = some inner → elems'[i]? = some inner' →
      AgreesOutside (fun location => touched (.index i :: location)) inner inner') :
    AgreesOutside touched (.array elems) (.array elems') := by
  apply agreesOutside_of_child
  · exact congrArg Shape.array hlength
  · intro step _
    cases step with
    | key name => exact Or.inl rfl
    | index i =>
        change elems[i]? = elems'[i]? ∨ _
        by_cases hi : i < elems.length
        · have hi' : i < elems'.length := hlength ▸ hi
          exact Or.inr ⟨elems[i], elems'[i], List.getElem?_eq_getElem hi,
            List.getElem?_eq_getElem hi', hagrees i _ _ (List.getElem?_eq_getElem hi)
              (List.getElem?_eq_getElem hi')⟩
        · rw [List.getElem?_eq_none (by omega), List.getElem?_eq_none (by omega)]
          exact Or.inl rfl

end Value

end TokenDog
