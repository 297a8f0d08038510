import TokenDog.Lib.Interleaved

/-!
# What programs ask for

A program asks for something with every call, and a call may be justified by what the program has
seen before. A program that keeps to the specification of its calls justifies each of them, in every
interleaving, by the part of its history that comes before.
-/

namespace Programs

variable {I : Interface} {σ ι α : Type}

/-- The call that an event answers, or that was dropped. -/
def Event.call : Event I → Option I.Call
  | .replied call _ => some call
  | .dropped call => some call
  | .ran _ _ => none
  | .panicked _ => none

/-- Every call of a history was justified by the events before it. -/
def Justified (may : Trace I → I.Call → Prop) : Trace I → Prop
  | [] => True
  | event :: trace => (∀ call, event.call = some call → may trace call) ∧ Justified may trace

/-- A run may do anything at once, and every call it waits for is justified. -/
def askSpec (may : Trace I → I.Call → Prop) : Spec I where
  may _ _ := True
  ends trace _ :=
    match trace with
    | .dropped call :: earlier => may earlier call
    | _ => True

section AskSpec

variable (may : Trace I → I.Call → Prop) (trace : Trace I) (deferred : List I.Op)

@[simp] theorem askSpec_may (op : I.Op) : (askSpec may).may trace op ↔ True := Iff.rfl

@[simp]
theorem askSpec_ends_dropped (call : I.Call) :
    (askSpec may).ends (.dropped call :: trace) deferred ↔ may trace call := Iff.rfl

@[simp]
theorem askSpec_ends_panicked (during : Option I.Op) :
    (askSpec may).ends (.panicked during :: trace) deferred ↔ True := Iff.rfl

end AskSpec

variable {machine : Machine I σ} {body : ι → Program I α} {may : ι → Trace I → I.Call → Prop}
  {post : ι → α → Trace I → List I.Op → Prop}

/-- If every program justifies its calls alone, all calls of an interleaving are justified. -/
theorem justified_of_reachable
    (hbody : ∀ request, wp (askSpec (may request)) (body request) (post request) [] []) {shared : σ}
    {s : System I σ ι α} (hs : Runs.Reachable (· = .start shared) (Step machine body) s) :
    ∀ history ∈ s.histories, Justified (may history.1) history.2 := by
  refine hs.invariant (fun s => ∀ history ∈ s.histories, Justified (may history.1) history.2) ?_ ?_
  · rintro _ rfl
    exact fun _ h => (Multiset.notMem_zero _ h).elim
  · intro s t hs hjustified hstep
    obtain ⟨hkeeps, -⟩ := keeps_of_reachable hbody hs
    rw [System.forall_mem_histories] at hjustified ⊢
    obtain ⟨hlive, hended⟩ := hjustified
    cases hstep with
    | moves hmoves => exact ⟨hlive, hended⟩
    | start request => exact ⟨Multiset.forall_mem_cons.mpr ⟨trivial, hlive⟩, hended⟩
    | perform hrun hexec =>
        rw [hrun, Multiset.forall_mem_cons] at hlive
        exact ⟨Multiset.forall_mem_cons.mpr
          ⟨⟨fun _ hcall => (by cases hcall), hlive.1⟩, hlive.2⟩, hended⟩
    | reply hrun reply =>
        rw [hrun, Multiset.forall_mem_cons] at hlive hkeeps
        refine ⟨Multiset.forall_mem_cons.mpr ⟨⟨fun _ hcall => ?_, hlive.1⟩, hlive.2⟩, hended⟩
        cases hcall
        exact hkeeps.1.1
    | defer hrun =>
        rw [hrun, Multiset.forall_mem_cons] at hlive
        exact ⟨Multiset.forall_mem_cons.mpr hlive, hended⟩
    | @stop rest run events outcome shared hrun hexits hunwinds =>
        rw [hrun, Multiset.forall_mem_cons] at hlive hkeeps
        refine ⟨hlive.2, Multiset.forall_mem_cons.mpr ⟨?_, hended⟩⟩
        obtain ⟨request, program, trace, deferred⟩ := run
        cases hexits with
        | ret value => exact hlive.1
        | panic => exact ⟨fun _ hcall => (by cases hcall), hlive.1⟩
        | perform hpanics => exact ⟨fun _ hcall => (by cases hcall), hlive.1⟩
        | drop call next =>
            refine ⟨fun _ hcall => ?_, hlive.1⟩
            cases hcall
            exact hkeeps.1.1

section Once

variable {may : Trace I → I.Call → Prop} {trace : Trace I}

/-- The calls of a history, the latest one first. -/
def calls (trace : Trace I) : List I.Call := trace.filterMap Event.call

/-- Calls that are justified only where none of their kind came before are made at most once. -/
theorem Justified.at_most_once (kind : I.Call → Bool)
    (hfirst : ∀ trace call, may trace call → kind call = true → ∀ other ∈ calls trace,
      kind other = false) (h : Justified may trace) : ((calls trace).filter kind).length ≤ 1 := by
  induction trace with
  | nil => exact Nat.zero_le _
  | cons event trace ih =>
      obtain ⟨hevent, hearlier⟩ := h
      cases hcall : event.call with
      | none =>
          rw [calls, List.filterMap_cons_none hcall]
          exact ih hearlier
      | some call =>
          rw [calls, List.filterMap_cons_some hcall]
          cases hkind : kind call with
          | false =>
              rw [List.filter_cons_of_neg (by simp [hkind])]
              exact ih hearlier
          | true =>
              have hnone : (trace.filterMap Event.call).filter kind = [] := by
                refine List.filter_eq_nil_iff.mpr fun other hmem => ?_
                rw [hfirst trace call (hevent call hcall) hkind other hmem]
                exact Bool.false_ne_true
              rw [List.filter_cons_of_pos hkind, hnone]
              exact le_rfl

theorem Justified.mono {may' : Trace I → I.Call → Prop} (h : Justified may trace)
    (hmay : ∀ trace call, may trace call → may' trace call) : Justified may' trace := by
  induction trace with
  | nil => trivial
  | cons event trace ih =>
      exact ⟨fun call hcall => hmay _ _ (h.1 call hcall), ih h.2⟩

/-- A justification that only grows with the history holds of the whole history. -/
theorem Justified.of_mem (h : Justified may trace)
    (hmono : ∀ event trace call, may trace call → may (event :: trace) call) {call : I.Call}
    (hmem : call ∈ calls trace) : may trace call := by
  induction trace with
  | nil => exact (List.not_mem_nil hmem).elim
  | cons event trace ih =>
      apply hmono
      obtain ⟨first, hfirst, hcall⟩ := List.mem_filterMap.mp hmem
      rcases List.mem_cons.mp hfirst with rfl | hearlier
      · exact h.1 call hcall
      · exact ih h.2 (List.mem_filterMap.mpr ⟨first, hearlier, hcall⟩)

/-- A call that is justified only at the beginning is the first event. -/
theorem Justified.getLast?_of_first (h : Justified may trace) {call : I.Call}
    (hfirst : ∀ trace, may trace call → trace = []) {event : Event I} (hmem : event ∈ trace)
    (hcall : event.call = some call) : trace.getLast? = some event := by
  induction trace with
  | nil => exact (List.not_mem_nil hmem).elim
  | cons head trace ih =>
      rcases List.mem_cons.mp hmem with rfl | hearlier
      · rw [hfirst trace (h.1 call hcall)]
        rfl
      · rw [List.getLast?_cons, ih h.2 hearlier]
        rfl

end Once

end Programs
