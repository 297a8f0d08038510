import Mathlib.Tactic.Common

/-!
# Programs that wait

A program over an interface runs operations at once and waits for replies to calls. While it waits
it may be dropped, and any operation may panic; the operations it deferred run when it ends, however
it ends. The rules compute what must hold before a program so that every history it can leave
behind is as specified.
-/

namespace Programs

/-- Operations with their results, and calls with their replies. -/
structure Interface where
  Op : Type
  Result : Op → Type
  Call : Type
  Reply : Call → Type

inductive Program (I : Interface) (α : Type) where
  | ret (value : α)
  | panic
  | perform (op : I.Op) (next : I.Result op → Program I α)
  | await (call : I.Call) (next : I.Reply call → Program I α)
  | defer (op : I.Op) (next : Program I α)

/-- What happened in a run. The code itself can panic as well as an operation. -/
inductive Event (I : Interface) where
  | ran (op : I.Op) (result : I.Result op)
  | replied (call : I.Call) (reply : I.Reply call)
  | dropped (call : I.Call)
  | panicked (during : Option I.Op)

/-- The events of a run, the latest one first. -/
abbrev Trace (I : Interface) := List (Event I)

variable {I : Interface} {α β : Type}

def Program.bind : Program I α → (α → Program I β) → Program I β
  | .ret value, f => f value
  | .panic, _ => .panic
  | .perform op next, f => .perform op fun result => (next result).bind f
  | .await call next, f => .await call fun reply => (next reply).bind f
  | .defer op next, f => .defer op (next.bind f)

instance : Monad (Program I) where
  pure := .ret
  bind := .bind

namespace Program

def run (I : Interface) (op : I.Op) : Program I (I.Result op) := .perform op .ret

def wait (I : Interface) (call : I.Call) : Program I (I.Reply call) := .await call .ret

/-- Leave an operation for the end. -/
def deferred (I : Interface) (op : I.Op) : Program I Unit := .defer op (.ret ())

end Program

/-- What a run has to keep to: when it may run an operation, and in what it may end. -/
structure Spec (I : Interface) where
  may : Trace I → I.Op → Prop
  ends : Trace I → List I.Op → Prop

/-- After the given history, with the given operations deferred, the program keeps to the
specification, and returns in the postcondition. -/
def wp (spec : Spec I) : Program I α → (α → Trace I → List I.Op → Prop) → Trace I → List I.Op → Prop
  | .ret value, post, trace, deferred => post value trace deferred
  | .panic, _, trace, deferred => spec.ends (.panicked none :: trace) deferred
  | .perform op next, post, trace, deferred =>
      spec.may trace op ∧ spec.ends (.panicked (some op) :: trace) deferred ∧
        ∀ result, wp spec (next result) post (.ran op result :: trace) deferred
  | .await call next, post, trace, deferred =>
      spec.ends (.dropped call :: trace) deferred ∧
        ∀ reply, wp spec (next reply) post (.replied call reply :: trace) deferred
  | .defer op next, post, trace, deferred => wp spec next post trace (op :: deferred)

section Rules

variable {spec : Spec I} {post : β → Trace I → List I.Op → Prop} {trace : Trace I}
  {deferred : List I.Op}

theorem wp_bind (program : Program I α) (f : α → Program I β) :
    wp spec (program >>= f) post trace deferred ↔
      wp spec program (fun value => wp spec (f value) post) trace deferred := by
  induction program generalizing trace deferred with
  | ret value => rfl
  | panic => rfl
  | perform op next ih =>
      refine and_congr_right fun _ => and_congr_right fun _ => ?_
      exact forall_congr' fun result => ih result
  | await call next ih => exact and_congr_right fun _ => forall_congr' fun reply => ih reply
  | defer op next ih => exact ih

@[simp]
theorem wp_pure (value : β) :
    wp spec (pure value : Program I β) post trace deferred ↔ post value trace deferred := Iff.rfl

@[simp]
theorem wp_panic : wp spec (.panic : Program I β) post trace deferred ↔
    spec.ends (.panicked none :: trace) deferred := Iff.rfl

@[simp]
theorem wp_run_bind (op : I.Op) (f : I.Result op → Program I β) :
    wp spec (Program.run I op >>= f) post trace deferred ↔
      spec.may trace op ∧ spec.ends (.panicked (some op) :: trace) deferred ∧
        ∀ result, wp spec (f result) post (.ran op result :: trace) deferred := Iff.rfl

@[simp]
theorem wp_wait_bind (call : I.Call) (f : I.Reply call → Program I β) :
    wp spec (Program.wait I call >>= f) post trace deferred ↔
      spec.ends (.dropped call :: trace) deferred ∧
        ∀ reply, wp spec (f reply) post (.replied call reply :: trace) deferred := Iff.rfl

@[simp]
theorem wp_deferred_bind (op : I.Op) (f : Unit → Program I β) :
    wp spec (Program.deferred I op >>= f) post trace deferred ↔
      wp spec (f ()) post trace (op :: deferred) := Iff.rfl

/-- The rule of consequence: a specification may be weakened. -/
theorem wp_weaken {program : Program I β} {spec' : Spec I}
    {post' : β → Trace I → List I.Op → Prop}
    (hmay : ∀ trace op, spec.may trace op → spec'.may trace op)
    (hends : ∀ trace deferred, spec.ends trace deferred → spec'.ends trace deferred)
    (hpost : ∀ value trace deferred, post value trace deferred → post' value trace deferred)
    (h : wp spec program post trace deferred) : wp spec' program post' trace deferred := by
  induction program generalizing trace deferred with
  | ret value => exact hpost value trace deferred h
  | panic => exact hends _ _ h
  | perform op next ih =>
      exact ⟨hmay _ _ h.1, hends _ _ h.2.1, fun result => ih result (h.2.2 result)⟩
  | await call next ih => exact ⟨hends _ _ h.1, fun reply => ih reply (h.2 reply)⟩
  | defer op next ih => exact ih h

theorem wp_mono {program : Program I β} {post' : β → Trace I → List I.Op → Prop}
    (hpost : ∀ value trace deferred, post value trace deferred → post' value trace deferred)
    (h : wp spec program post trace deferred) : wp spec program post' trace deferred :=
  wp_weaken (fun _ _ => id) (fun _ _ => id) hpost h

end Rules

/-- Every call that the program comes to wait for is as specified, whatever the operations return
and as long as the replies are among the given ones. -/
def Calls (replies : (call : I.Call) → I.Reply call → Prop) (specified : I.Call → Prop) :
    Program I α → Prop
  | .ret _ => True
  | .panic => True
  | .perform _ next => ∀ result, Calls replies specified (next result)
  | .await call next =>
      specified call ∧ ∀ reply, replies call reply → Calls replies specified (next reply)
  | .defer _ next => Calls replies specified next

section Calls

variable {replies : (call : I.Call) → I.Reply call → Prop} {specified : I.Call → Prop}

theorem Calls.bind {program : Program I α} {f : α → Program I β}
    (hprogram : Calls replies specified program) (hf : ∀ value, Calls replies specified (f value)) :
    Calls replies specified (program >>= f) := by
  induction program with
  | ret value => exact hf value
  | panic => exact trivial
  | perform op next ih => exact fun result => ih result (hprogram result)
  | await call next ih =>
      exact ⟨hprogram.1, fun reply hreply => ih reply (hprogram.2 reply hreply)⟩
  | defer op next ih => exact ih hprogram

theorem Calls.of_bind {program : Program I α} {f : α → Program I β}
    (h : Calls replies specified (program >>= f)) : Calls replies specified program := by
  induction program with
  | ret value => exact trivial
  | panic => exact trivial
  | perform op next ih => exact fun result => ih result (h result)
  | await call next ih => exact ⟨h.1, fun reply hreply => ih reply (h.2 reply hreply)⟩
  | defer op next ih => exact ih h

end Calls

/-- Every operation that the program runs is as specified, whatever operations and calls return. -/
def Performs (specified : I.Op → Prop) : Program I α → Prop
  | .ret _ => True
  | .panic => True
  | .perform op next => specified op ∧ ∀ result, Performs specified (next result)
  | .await _ next => ∀ reply, Performs specified (next reply)
  | .defer _ next => Performs specified next

section Performs

variable {specified : I.Op → Prop}

theorem Performs.bind {program : Program I α} {f : α → Program I β}
    (hprogram : Performs specified program) (hf : ∀ value, Performs specified (f value)) :
    Performs specified (program >>= f) := by
  induction program with
  | ret value => exact hf value
  | panic => exact trivial
  | perform op next ih => exact ⟨hprogram.1, fun result => ih result (hprogram.2 result)⟩
  | await call next ih => exact fun reply => ih reply (hprogram reply)
  | defer op next ih => exact ih hprogram

@[simp]
theorem performs_deferred_bind (op : I.Op) (f : Unit → Program I β) :
    Performs specified (Program.deferred I op >>= f) ↔ Performs specified (f ()) := Iff.rfl

/-- What a program may do after a history that permits it for good. -/
theorem Performs.wp {program : Program I α} (h : Performs specified program)
    {may : Trace I → I.Op → Prop} (hmono : ∀ event trace op, may trace op → may (event :: trace) op)
    {trace : Trace I} {deferred : List I.Op} (hmay : ∀ op, specified op → may trace op) :
    wp ⟨may, fun _ _ => True⟩ program (fun _ _ _ => True) trace deferred := by
  induction program generalizing trace deferred with
  | ret value => exact trivial
  | panic => exact trivial
  | perform op next ih =>
      refine ⟨hmay op h.1, trivial, fun result => ih result (h.2 result) fun op hop => ?_⟩
      exact hmono _ _ _ (hmay op hop)
  | await call next ih =>
      exact ⟨trivial, fun reply => ih reply (h reply) fun op hop => hmono _ _ _ (hmay op hop)⟩
  | defer op next ih => exact ih h hmay

end Performs

end Programs
