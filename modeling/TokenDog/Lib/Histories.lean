import TokenDog.Lib.Interleaved

/-!
# Histories of one program

What a program has left to do after a history, and the histories it can end in. What is proved of a
program by the rules holds of each of its histories, and the runs of an interleaving have no other
ones.
-/

namespace Programs

variable {I : Interface} {σ ι α : Type} {program : Program I α} {trace : Trace I}
  {deferred : List I.Op}

/-- After the history `trace` the program has deferred `deferred` and goes on with `rest`. -/
inductive After (program : Program I α) : Trace I → List I.Op → Program I α → Prop where
  | start : After program [] [] program
  | perform {trace : Trace I} {deferred : List I.Op} {op : I.Op} {next : I.Result op → Program I α}
      (h : After program trace deferred (.perform op next)) (result : I.Result op) :
      After program (.ran op result :: trace) deferred (next result)
  | await {trace : Trace I} {deferred : List I.Op} {call : I.Call}
      {next : I.Reply call → Program I α} (h : After program trace deferred (.await call next))
      (reply : I.Reply call) : After program (.replied call reply :: trace) deferred (next reply)
  | defer {trace : Trace I} {deferred : List I.Op} {op : I.Op} {next : Program I α}
      (h : After program trace deferred (.defer op next)) : After program trace (op :: deferred) next

/-- The program can end with the history `trace`, and returns the value unless it panics or is
dropped. -/
inductive Leaves (program : Program I α) : Trace I → Option α → Prop where
  | ret {trace : Trace I} {deferred : List I.Op} {value : α}
      (h : After program trace deferred (.ret value)) : Leaves program trace (some value)
  | panic {trace : Trace I} {deferred : List I.Op} (h : After program trace deferred .panic) :
      Leaves program (.panicked none :: trace) none
  | perform {trace : Trace I} {deferred : List I.Op} {op : I.Op} {next : I.Result op → Program I α}
      (h : After program trace deferred (.perform op next)) :
      Leaves program (.panicked (some op) :: trace) none
  | drop {trace : Trace I} {deferred : List I.Op} {call : I.Call} {next : I.Reply call → Program I α}
      (h : After program trace deferred (.await call next)) :
      Leaves program (.dropped call :: trace) none

/-- Whatever the events of a history say, it is `known`. -/
def Tells {β : Type} (read : Event I → Option β) (known : Option β) (trace : Trace I) : Prop :=
  ∀ event ∈ trace, ∀ value, read event = some value → known = some value

section Tells

variable {β : Type} {read : Event I → Option β} {event : Event I}

theorem tells_nil (known : Option β) : Tells read known [] :=
  fun _ hmem => (List.not_mem_nil hmem).elim

theorem Tells.pass {known : Option β} (h : Tells read known trace) (hnone : read event = none) :
    Tells read known (event :: trace) :=
  List.forall_mem_cons.mpr ⟨fun value hvalue => (by cases hnone.symm.trans hvalue), h⟩

theorem Tells.learn (h : Tells read none trace) {value : β} (hsome : read event = some value) :
    Tells read (some value) (event :: trace) :=
  List.forall_mem_cons.mpr ⟨fun _ hvalue => hsome.symm.trans hvalue,
    fun other hmem value hvalue => (by cases h other hmem value hvalue)⟩

end Tells

section Rules

variable {spec : Spec I} {post : α → Trace I → List I.Op → Prop}

/-- What is left of a program keeps to the specification that the program keeps to. -/
theorem After.wp {rest : Program I α} (h : After program trace deferred rest)
    (hwp : wp spec program post [] []) : wp spec rest post trace deferred := by
  induction h with
  | start => exact hwp
  | perform _ result ih => exact ih.2.2 result
  | await _ reply ih => exact ih.2 reply
  | defer _ ih => exact ih

end Rules

/-- Every operation of a history was permitted by the events before it. -/
def Permitted (may : Trace I → I.Op → Prop) : Trace I → Prop
  | [] => True
  | .ran op _ :: trace => may trace op ∧ Permitted may trace
  | _ :: trace => Permitted may trace

section Permitted

variable {may : Trace I → I.Op → Prop} {spec : Spec I} {post : α → Trace I → List I.Op → Prop}

theorem After.permitted {rest : Program I α} (h : After program trace deferred rest)
    (hwp : Programs.wp spec program post [] []) : Permitted spec.may trace := by
  induction h with
  | start => trivial
  | perform h _ ih => exact ⟨(h.wp hwp).1, ih⟩
  | await _ _ ih => exact ih
  | defer _ ih => exact ih

theorem Leaves.permitted {outcome : Option α} (h : Leaves program trace outcome)
    (hwp : Programs.wp spec program post [] []) : Permitted spec.may trace := by
  cases h with
  | ret h => exact h.permitted hwp
  | panic h => exact h.permitted hwp
  | perform h => exact h.permitted hwp
  | drop h => exact h.permitted hwp

/-- A permission that is never taken back holds after the whole history. -/
theorem Permitted.of_mem (h : Permitted may trace)
    (hmono : ∀ event trace op, may trace op → may (event :: trace) op) {op : I.Op}
    {result : I.Result op} (hmem : .ran op result ∈ trace) : may trace op := by
  induction trace with
  | nil => exact (List.not_mem_nil hmem).elim
  | cons event trace ih =>
      apply hmono
      rcases List.mem_cons.mp hmem with rfl | hearlier
      · exact h.1
      · refine ih ?_ hearlier
        cases event with
        | ran op result => exact h.2
        | replied call reply => exact h
        | dropped call => exact h
        | panicked during => exact h

end Permitted

section Complete

variable {P : Trace I → Option α → Prop}

/-- A run may do anything and has to end as the predicate says. -/
def historySpec (P : Trace I → Option α → Prop) : Spec I where
  may _ _ := True
  ends trace _ := P trace none

def historyPost (P : Trace I → Option α → Prop) (value : α) (trace : Trace I) (_deferred : List I.Op) :
    Prop := P trace (some value)

theorem After.wp_of_leaves {rest : Program I α} (h : After program trace deferred rest)
    (hleaves : ∀ trace outcome, Leaves program trace outcome → P trace outcome) :
    Programs.wp (historySpec P) rest (historyPost P) trace deferred := by
  induction rest generalizing trace deferred with
  | ret value => exact hleaves _ _ (.ret h)
  | panic => exact hleaves _ _ (.panic h)
  | perform op next ih =>
      exact ⟨trivial, hleaves _ _ (.perform h), fun result => ih result (h.perform result)⟩
  | await call next ih => exact ⟨hleaves _ _ (.drop h), fun reply => ih reply (h.await reply)⟩
  | defer op next ih => exact ih h.defer

/-- The rules prove of a program what holds of all its histories. -/
theorem wp_historySpec_iff : wp (historySpec P) program (historyPost P) [] [] ↔
    ∀ trace outcome, Leaves program trace outcome → P trace outcome := by
  constructor
  · intro hwp trace outcome hleaves
    cases hleaves with
    | ret h => exact h.wp hwp
    | panic h => exact h.wp hwp
    | perform h => exact (h.wp hwp).2.1
    | drop h => exact (h.wp hwp).1
  · intro hleaves
    exact After.start.wp_of_leaves hleaves

theorem exists_of_wp {β : Type} {program : Program I β} {post : β → Trace I → List I.Op → Prop}
    (hpost : ∀ value trace deferred, post value trace deferred → ∃ outcome, P trace outcome)
    (h : wp (historySpec P) program post trace deferred) :
    ∃ events outcome, P (events ++ trace) outcome := by
  induction program generalizing deferred with
  | ret value =>
      obtain ⟨outcome, hends⟩ := hpost value trace deferred h
      exact ⟨[], outcome, hends⟩
  | panic => exact ⟨[.panicked none], none, h⟩
  | perform op next => exact ⟨[.panicked (some op)], none, h.2.1⟩
  | await call next => exact ⟨[.dropped call], none, h.1⟩
  | defer op next ih => exact ih h

end Complete

theorem After.leaves {rest : Program I α} (h : After program trace deferred rest)
    {machine : Machine I σ} {s : σ} {events : Trace I} {outcome : Option α}
    (hexits : Exits machine s rest events outcome) : Leaves program (events ++ trace) outcome := by
  cases hexits with
  | ret value => exact .ret h
  | panic => exact .panic h
  | perform hpanics => exact .perform h
  | drop call next => exact .drop h

/-- The runs of an interleaving are histories of their programs. -/
theorem histories_of_runs {machine : Machine I σ} {body : ι → Program I α} {shared : σ}
    {s : System I σ ι α} (hs : Runs.Reachable (· = .start shared) (Step machine body) s) :
    (∀ run ∈ s.live, After (body run.request) run.trace run.deferred run.program) ∧
      ∀ run ∈ s.ended, Leaves (body run.request) run.trace run.outcome := by
  refine hs.invariant
    (fun s => (∀ run ∈ s.live, After (body run.request) run.trace run.deferred run.program) ∧
      ∀ run ∈ s.ended, Leaves (body run.request) run.trace run.outcome) ?_ ?_
  · rintro _ rfl
    exact ⟨fun _ h => (Multiset.notMem_zero _ h).elim, fun _ h => (Multiset.notMem_zero _ h).elim⟩
  · rintro s t - ⟨hlive, hended⟩ hstep
    cases hstep with
    | moves hmoves => exact ⟨hlive, hended⟩
    | start request => exact ⟨Multiset.forall_mem_cons.mpr ⟨.start, hlive⟩, hended⟩
    | perform hrun hexec =>
        rw [hrun, Multiset.forall_mem_cons] at hlive
        exact ⟨Multiset.forall_mem_cons.mpr ⟨hlive.1.perform _, hlive.2⟩, hended⟩
    | reply hrun reply =>
        rw [hrun, Multiset.forall_mem_cons] at hlive
        exact ⟨Multiset.forall_mem_cons.mpr ⟨hlive.1.await reply, hlive.2⟩, hended⟩
    | defer hrun =>
        rw [hrun, Multiset.forall_mem_cons] at hlive
        exact ⟨Multiset.forall_mem_cons.mpr ⟨hlive.1.defer, hlive.2⟩, hended⟩
    | stop hrun hexits hunwinds =>
        rw [hrun, Multiset.forall_mem_cons] at hlive
        exact ⟨hlive.2, Multiset.forall_mem_cons.mpr ⟨hlive.1.leaves hexits, hended⟩⟩

/-- Nothing is deferred before the first operation. -/
def DefersLate : Program I α → Prop
  | .ret _ => True
  | .panic => True
  | .perform _ _ => True
  | .await _ next => ∀ reply, DefersLate (next reply)
  | .defer _ _ => False

/-- No operation was run. -/
def Idle (trace : Trace I) : Prop := ∀ op result, .ran op result ∉ trace

theorem Idle.of_cons {event : Event I} (h : Idle (event :: trace)) : Idle trace :=
  fun op result hmem => h op result (List.mem_cons_of_mem _ hmem)

theorem not_idle_ran (op : I.Op) (result : I.Result op) : ¬Idle (.ran op result :: trace) :=
  fun h => h op result List.mem_cons_self

theorem Exits.idle {machine : Machine I σ} {s : σ} {events : Trace I} {outcome : Option α}
    (hexits : Exits machine s program events outcome) (h : Idle (events ++ trace)) : Idle trace := by
  cases hexits with
  | ret value => exact h
  | panic => exact h.of_cons
  | perform hpanics => exact h.of_cons
  | drop call next => exact h.of_cons

/-- A run that has run no operation has deferred none, if all its programs defer late. -/
theorem deferred_of_reachable {machine : Machine I σ} {body : ι → Program I α}
    (hbody : ∀ request, DefersLate (body request)) {shared : σ} {s : System I σ ι α}
    (hs : Runs.Reachable (· = .start shared) (Step machine body) s) :
    (∀ run ∈ s.live, Idle run.trace → run.deferred = []) ∧
      ∀ run ∈ s.ended, Idle run.trace → run.deferred = [] := by
  suffices h : (∀ run ∈ s.live, Idle run.trace → run.deferred = [] ∧ DefersLate run.program) ∧
      ∀ run ∈ s.ended, Idle run.trace → run.deferred = [] from
    ⟨fun run hrun hidle => (h.1 run hrun hidle).1, h.2⟩
  refine hs.invariant
    (fun s => (∀ run ∈ s.live, Idle run.trace → run.deferred = [] ∧ DefersLate run.program) ∧
      ∀ run ∈ s.ended, Idle run.trace → run.deferred = []) ?_ ?_
  · rintro _ rfl
    exact ⟨fun _ h => (Multiset.notMem_zero _ h).elim, fun _ h => (Multiset.notMem_zero _ h).elim⟩
  · rintro s t - ⟨hlive, hended⟩ hstep
    cases hstep with
    | moves hmoves => exact ⟨hlive, hended⟩
    | start request =>
        exact ⟨Multiset.forall_mem_cons.mpr ⟨fun _ => ⟨rfl, hbody request⟩, hlive⟩, hended⟩
    | perform hrun hexec =>
        rw [hrun, Multiset.forall_mem_cons] at hlive
        refine ⟨Multiset.forall_mem_cons.mpr ⟨fun hidle => ?_, hlive.2⟩, hended⟩
        exact absurd hidle (not_idle_ran _ _)
    | reply hrun reply =>
        rw [hrun, Multiset.forall_mem_cons] at hlive
        refine ⟨Multiset.forall_mem_cons.mpr ⟨fun hidle => ?_, hlive.2⟩, hended⟩
        obtain ⟨hdeferred, hlate⟩ := hlive.1 hidle.of_cons
        exact ⟨hdeferred, hlate reply⟩
    | defer hrun =>
        rw [hrun, Multiset.forall_mem_cons] at hlive
        refine ⟨Multiset.forall_mem_cons.mpr ⟨fun hidle => ?_, hlive.2⟩, hended⟩
        exact (hlive.1 hidle).2.elim
    | stop hrun hexits hunwinds =>
        rw [hrun, Multiset.forall_mem_cons] at hlive
        refine ⟨hlive.2, Multiset.forall_mem_cons.mpr ⟨fun hidle => ?_, hended⟩⟩
        exact (hlive.1 (hexits.idle hidle)).1

/-- If every program runs only what it may alone, so do all runs of an interleaving. -/
theorem permitted_of_reachable {machine : Machine I σ} {body : ι → Program I α}
    {spec : ι → Spec I} {post : ι → α → Trace I → List I.Op → Prop}
    (hbody : ∀ request, wp (spec request) (body request) (post request) [] []) {shared : σ}
    {s : System I σ ι α} (hs : Runs.Reachable (· = .start shared) (Step machine body) s) :
    ∀ history ∈ s.histories, Permitted (spec history.1).may history.2 := by
  obtain ⟨hlive, hended⟩ := histories_of_runs hs
  rw [System.forall_mem_histories]
  exact ⟨fun run hrun => (hlive run hrun).permitted (hbody run.request),
    fun run hrun => (hended run hrun).permitted (hbody run.request)⟩

end Programs
