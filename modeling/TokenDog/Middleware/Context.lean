import TokenDog.Http

/-!
# Request context

`extract_context` reads the routing keys of a request from its headers and its JSON body.
-/

namespace TokenDog

/-- `str::char_indices`: each character with the byte position it starts at. -/
def charIndices : Nat → List Char → List (Nat × Char)
  | _, [] => []
  | start, c :: rest => (start, c) :: charIndices (start + c.utf8Size) rest

/-- `&s[..n]`, which panics unless `n` is a character boundary. -/
def sliceTo : List Char → Nat → Except Panic (List Char)
  | _, 0 => .ok []
  | [], _ + 1 => .error .indexOutOfBounds
  | c :: rest, n => do
      if n < c.utf8Size then .error .indexOutOfBounds
      else
        let slice ← sliceTo rest (n - c.utf8Size)
        return c :: slice

/-- Up to 200 characters, clamped at a character boundary. -/
def prefixKeyOf (content : String) : Except Panic String :=
  match ((charIndices 0 content.toList).take 200).getLast? with
  | some (idx, c) => do return String.ofList (← sliceTo content.toList (idx + c.utf8Size))
  | none => .ok content

/-- The first message of the system role, or else the first message. -/
def chosenMessage (messages : List Value) : Option Value :=
  (messages.find? fun message => (message.get "role").bind Value.asStr == some "system").or
    messages.head?

def extractContext (crates : Crates) (body : ByteArray) (headers : Headers) :
    Except Panic RequestContext :=
  let implicitKey := (((headers.get "authorization").or (headers.get "x-forwarded-for")).or
    (headers.get "cookie")).bind HeaderValue.toStr |>.filter (· != "")
  match crates.fromSlice body with
  | .error _ => .ok ⟨implicitKey.getD "default", "default"⟩
  | .ok json => do
      let sessionId := implicitKey.getD
        ((((json.get "user").or (json.get "session_id")).bind Value.asStr).getD "default")
      let content := (((json.get "messages").bind Value.asArray).bind chosenMessage).bind
        fun message => (message.get "content").bind Value.asStr
      let prefixKey ← match content with
        | some text => prefixKeyOf text
        | none => .ok "default"
      return ⟨sessionId, prefixKey⟩

theorem sliceTo_cons {rest slice : List Char} {n : Nat} (hslice : sliceTo rest n = .ok slice)
    (first : Char) : sliceTo (first :: rest) (n + first.utf8Size) = .ok (first :: slice) := by
  obtain ⟨m, hm⟩ := Nat.exists_eq_succ_of_ne_zero
    (show n + first.utf8Size ≠ 0 by have := first.utf8Size_pos; omega)
  rw [hm, sliceTo, if_neg (by omega), ← hm, Nat.add_sub_cancel, hslice]
  · rfl
  · exact Nat.succ_ne_zero m

theorem le_of_mem_charIndices {content : List Char} {start idx : Nat} {c : Char}
    (hmem : (idx, c) ∈ charIndices start content) : start ≤ idx := by
  induction content generalizing start with
  | nil => exact (List.not_mem_nil hmem).elim
  | cons first rest ih =>
      rw [charIndices, List.mem_cons, Prod.mk.injEq] at hmem
      rcases hmem with ⟨rfl, -⟩ | hmem
      · exact le_rfl
      · exact (Nat.le_add_right start _).trans (ih hmem)

theorem sliceTo_eq_take {content : List Char} {start n idx : Nat} {c : Char}
    (hlast : ((charIndices start content).take n).getLast? = some (idx, c)) :
    sliceTo content (idx - start + c.utf8Size) = .ok (content.take n) := by
  induction content generalizing start n with
  | nil => simp [charIndices] at hlast
  | cons first rest ih =>
      cases n with
      | zero => simp at hlast
      | succ n =>
          rw [charIndices, List.take_succ_cons, List.getLast?_cons] at hlast
          cases htail : ((charIndices (start + first.utf8Size) rest).take n).getLast? with
          | none =>
              rw [htail] at hlast
              cases hlast
              have hnil : rest.take n = [] := by
                rw [List.getLast?_eq_none_iff, List.take_eq_nil_iff] at htail
                rcases htail with rfl | hnil
                · rfl
                · cases rest with
                  | nil => exact List.take_nil
                  | cons next rest => cases hnil
              have hzero : sliceTo rest 0 = .ok [] := by cases rest <;> rfl
              rw [Nat.sub_self, List.take_succ_cons, hnil]
              exact sliceTo_cons hzero _
          | some last =>
              rw [htail] at hlast
              cases hlast
              have hle := le_of_mem_charIndices (List.mem_of_mem_take (List.mem_of_getLast? htail))
              rw [show idx - start + c.utf8Size =
                idx - (start + first.utf8Size) + c.utf8Size + first.utf8Size by omega]
              exact sliceTo_cons (ih htail) first

theorem length_charIndices (start : Nat) (content : List Char) :
    (charIndices start content).length = content.length := by
  induction content generalizing start with
  | nil => rfl
  | cons first rest ih => rw [charIndices, List.length_cons, List.length_cons, ih]

theorem prefixKeyOf_eq (content : String) :
    prefixKeyOf content = .ok (String.ofList (content.toList.take 200)) := by
  unfold prefixKeyOf
  split
  · rename_i idx c hlast
    have hslice := sliceTo_eq_take hlast
    rw [Nat.sub_zero] at hslice
    rw [hslice]
    rfl
  · rename_i hnone
    rw [List.getLast?_eq_none_iff, List.take_eq_nil_iff] at hnone
    have hnil : content.toList = [] := by
      rw [← List.length_eq_zero_iff, ← length_charIndices 0, hnone.resolve_left (by decide)]
      rfl
    rw [hnil, List.take_nil, ← hnil, String.ofList_toList]

theorem exists_extractContext (crates : Crates) (body : ByteArray) (headers : Headers) :
    ∃ ctx, extractContext crates body headers = .ok ctx := by
  unfold extractContext
  dsimp only
  split
  · exact ⟨_, rfl⟩
  · split
    · rename_i text _
      rw [prefixKeyOf_eq text]
      exact ⟨_, rfl⟩
    · exact ⟨_, rfl⟩

end TokenDog
