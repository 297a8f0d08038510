import TokenDog.Lib.Programs
import TokenDog.Lib.Runs
import Mathlib.Data.Multiset.AddSub
import Mathlib.Data.Multiset.MapFold

/-!
# Interleaved runs of programs

Any number of programs run over one shared state, one operation or reply at a time in any order. A
run that has ended keeps its history, so that what the runs have done to the shared state can be
counted from their histories. If every program keeps to its specification alone, every run of an
interleaving does.
-/

namespace Programs

variable {I : Interface} {σ ι α : Type}

/-- What the operations do to the shared state, and how it moves by itself. -/
structure Machine (I : Interface) (σ : Type) where
  exec : (op : I.Op) → σ → I.Result op → σ → Prop
  panics : I.Op → σ → Prop
  moves : σ → σ → Prop

/-- A run that goes on: the request that started it, what is left of its program, its history and
the operations it deferred. -/
structure Live (I : Interface) (ι α : Type) where
  request : ι
  program : Program I α
  trace : Trace I
  deferred : List I.Op

/-- A run that ended, with the value it returned unless it was dropped or panicked. -/
structure Ended (I : Interface) (ι α : Type) where
  request : ι
  trace : Trace I
  deferred : List I.Op
  outcome : Option α

structure System (I : Interface) (σ ι α : Type) where
  shared : σ
  live : Multiset (Live I ι α)
  ended : Multiset (Ended I ι α)

/-- How a program can end from where it is. -/
inductive Exits (machine : Machine I σ) (s : σ) : Program I α → Trace I → Option α → Prop where
  | ret (value : α) : Exits machine s (.ret value) [] (some value)
  | panic : Exits machine s .panic [.panicked none] none
  | perform {op : I.Op} {next : I.Result op → Program I α} (hpanics : machine.panics op s) :
      Exits machine s (.perform op next) [.panicked (some op)] none
  | drop (call : I.Call) (next : I.Reply call → Program I α) :
      Exits machine s (.await call next) [.dropped call] none

/-- The deferred operations run, the latest one first. -/
inductive Unwinds (machine : Machine I σ) : List I.Op → σ → σ → Prop where
  | nil (s : σ) : Unwinds machine [] s s
  | cons {op : I.Op} {rest : List I.Op} {result : I.Result op} {s t u : σ}
      (hexec : machine.exec op s result t) (hrest : Unwinds machine rest t u) :
      Unwinds machine (op :: rest) s u

inductive Step (machine : Machine I σ) (body : ι → Program I α) :
    System I σ ι α → System I σ ι α → Prop where
  | moves {s : System I σ ι α} {shared : σ} (hmoves : machine.moves s.shared shared) :
      Step machine body s { s with shared }
  | start (s : System I σ ι α) (request : ι) :
      Step machine body s { s with live := ⟨request, body request, [], []⟩ ::ₘ s.live }
  | perform {s : System I σ ι α} {rest : Multiset (Live I ι α)} {request : ι} {op : I.Op}
      {next : I.Result op → Program I α} {trace : Trace I} {deferred : List I.Op}
      {result : I.Result op} {shared : σ}
      (hlive : s.live = ⟨request, .perform op next, trace, deferred⟩ ::ₘ rest)
      (hexec : machine.exec op s.shared result shared) :
      Step machine body s
        { s with
          shared
          live := ⟨request, next result, .ran op result :: trace, deferred⟩ ::ₘ rest }
  | reply {s : System I σ ι α} {rest : Multiset (Live I ι α)} {request : ι} {call : I.Call}
      {next : I.Reply call → Program I α} {trace : Trace I} {deferred : List I.Op}
      (hlive : s.live = ⟨request, .await call next, trace, deferred⟩ ::ₘ rest)
      (reply : I.Reply call) :
      Step machine body s
        { s with live := ⟨request, next reply, .replied call reply :: trace, deferred⟩ ::ₘ rest }
  | defer {s : System I σ ι α} {rest : Multiset (Live I ι α)} {request : ι} {op : I.Op}
      {next : Program I α} {trace : Trace I} {deferred : List I.Op}
      (hlive : s.live = ⟨request, .defer op next, trace, deferred⟩ ::ₘ rest) :
      Step machine body s { s with live := ⟨request, next, trace, op :: deferred⟩ ::ₘ rest }
  | stop {s : System I σ ι α} {rest : Multiset (Live I ι α)} {run : Live I ι α} {events : Trace I}
      {outcome : Option α} {shared : σ} (hlive : s.live = run ::ₘ rest)
      (hexits : Exits machine s.shared run.program events outcome)
      (hunwinds : Unwinds machine run.deferred s.shared shared) :
      Step machine body s
        { shared
          live := rest
          ended := ⟨run.request, events ++ run.trace, run.deferred, outcome⟩ ::ₘ s.ended }

def System.start (shared : σ) : System I σ ι α := ⟨shared, 0, 0⟩

/-- The requests with what has been done for them so far, of the live runs and of the ended ones. -/
def System.histories (s : System I σ ι α) : Multiset (ι × Trace I) :=
  (s.live.map fun run => (run.request, run.trace)) + s.ended.map fun run => (run.request, run.trace)

theorem System.forall_mem_histories {s : System I σ ι α} {P : ι × Trace I → Prop} :
    (∀ history ∈ s.histories, P history) ↔
      (∀ run ∈ s.live, P (run.request, run.trace)) ∧ ∀ run ∈ s.ended, P (run.request, run.trace) := by
  simp only [histories, Multiset.mem_add, Multiset.mem_map, or_imp, forall_and, forall_exists_index,
    and_imp, forall_apply_eq_imp_iff₂]

variable {machine : Machine I σ} {body : ι → Program I α} {spec : ι → Spec I}
  {post : ι → α → Trace I → List I.Op → Prop}

def Live.Keeps (spec : ι → Spec I) (post : ι → α → Trace I → List I.Op → Prop)
    (run : Live I ι α) : Prop :=
  wp (spec run.request) run.program (post run.request) run.trace run.deferred

def Ended.Kept (spec : ι → Spec I) (post : ι → α → Trace I → List I.Op → Prop)
    (run : Ended I ι α) : Prop :=
  match run.outcome with
  | some value => post run.request value run.trace run.deferred
  | none => (spec run.request).ends run.trace run.deferred

theorem Live.Keeps.kept {run : Live I ι α} (h : run.Keeps spec post) {s : σ} {events : Trace I}
    {outcome : Option α} (hexits : Exits machine s run.program events outcome) :
    Ended.Kept spec post ⟨run.request, events ++ run.trace, run.deferred, outcome⟩ := by
  obtain ⟨request, program, trace, deferred⟩ := run
  cases hexits with
  | ret value => exact h
  | panic => exact h
  | perform hpanics => exact h.2.1
  | drop call next => exact h.1

/-- If every program keeps to its specification from the start, every run of an interleaving does. -/
theorem keeps_of_reachable (hbody : ∀ request, wp (spec request) (body request) (post request) [] [])
    {shared : σ} {s : System I σ ι α}
    (hs : Runs.Reachable (· = .start shared) (Step machine body) s) :
    (∀ run ∈ s.live, run.Keeps spec post) ∧ ∀ run ∈ s.ended, run.Kept spec post := by
  refine hs.invariant
    (fun s => (∀ run ∈ s.live, run.Keeps spec post) ∧ ∀ run ∈ s.ended, run.Kept spec post) ?_ ?_
  · rintro _ rfl
    exact ⟨fun _ h => (Multiset.notMem_zero _ h).elim, fun _ h => (Multiset.notMem_zero _ h).elim⟩
  · rintro s t - ⟨hkeeps, hkept⟩ hstep
    cases hstep with
    | moves hmoves => exact ⟨hkeeps, hkept⟩
    | start request => exact ⟨Multiset.forall_mem_cons.mpr ⟨hbody request, hkeeps⟩, hkept⟩
    | perform hlive hexec =>
        rw [hlive, Multiset.forall_mem_cons] at hkeeps
        exact ⟨Multiset.forall_mem_cons.mpr ⟨hkeeps.1.2.2 _, hkeeps.2⟩, hkept⟩
    | reply hlive reply =>
        rw [hlive, Multiset.forall_mem_cons] at hkeeps
        exact ⟨Multiset.forall_mem_cons.mpr ⟨hkeeps.1.2 reply, hkeeps.2⟩, hkept⟩
    | defer hlive =>
        rw [hlive, Multiset.forall_mem_cons] at hkeeps
        exact ⟨Multiset.forall_mem_cons.mpr hkeeps, hkept⟩
    | stop hlive hexits hunwinds =>
        rw [hlive, Multiset.forall_mem_cons] at hkeeps
        exact ⟨hkeeps.2, Multiset.forall_mem_cons.mpr ⟨hkeeps.1.kept hexits, hkept⟩⟩

/-- What every permitted event keeps holds of the history of every live run. -/
theorem histories_of_reachable {P : ι → Trace I → Prop}
    (hbody : ∀ request, wp (spec request) (body request) (post request) [] [])
    (hstart : ∀ request, P request [])
    (hran : ∀ request trace op result, (spec request).may trace op → P request trace →
      P request (.ran op result :: trace))
    (hreplied : ∀ request trace call reply, P request trace →
      P request (.replied call reply :: trace))
    {shared : σ} {s : System I σ ι α}
    (hs : Runs.Reachable (· = .start shared) (Step machine body) s) :
    ∀ run ∈ s.live, P run.request run.trace := by
  refine hs.invariant (fun s => ∀ run ∈ s.live, P run.request run.trace) ?_ ?_
  · rintro _ rfl
    exact fun _ h => (Multiset.notMem_zero _ h).elim
  · intro s t hs hlive hstep
    obtain ⟨hkeeps, -⟩ := keeps_of_reachable hbody hs
    cases hstep with
    | moves hmoves => exact hlive
    | start request => exact Multiset.forall_mem_cons.mpr ⟨hstart request, hlive⟩
    | perform hrun hexec =>
        rw [hrun, Multiset.forall_mem_cons] at hkeeps hlive
        exact Multiset.forall_mem_cons.mpr ⟨hran _ _ _ _ hkeeps.1.1 hlive.1, hlive.2⟩
    | reply hrun reply =>
        rw [hrun, Multiset.forall_mem_cons] at hlive
        exact Multiset.forall_mem_cons.mpr ⟨hreplied _ _ _ reply hlive.1, hlive.2⟩
    | defer hrun =>
        rw [hrun, Multiset.forall_mem_cons] at hlive
        exact Multiset.forall_mem_cons.mpr hlive
    | stop hrun hexits hunwinds =>
        rw [hrun, Multiset.forall_mem_cons] at hlive
        exact hlive.2

/-- A fact about the shared state that the operations keep is kept by a step unless the state moves
by itself. -/
theorem shared_of_step {P : σ → Prop} {s t : System I σ ι α} (hstep : Step machine body s t)
    (h : P s.shared) (hmoves : machine.moves s.shared t.shared → P t.shared)
    (hexec : ∀ op result s t, P s → machine.exec op s result t → P t) : P t.shared := by
  have hunwound : ∀ {deferred : List I.Op} {s t : σ}, Unwinds machine deferred s t → P s → P t := by
    intro deferred s t hunwinds
    induction hunwinds with
    | nil => exact id
    | cons hfirst _ ih => exact fun h => ih (hexec _ _ _ _ h hfirst)
  cases hstep with
  | moves hmove => exact hmoves hmove
  | start request => exact h
  | perform hlive hrun => exact hexec _ _ _ _ h hrun
  | reply hlive reply => exact h
  | defer hlive => exact h
  | stop hlive hexits hunwinds => exact hunwound hunwinds h

/-- What the moves and the operations keep of the shared state, every interleaving keeps. -/
theorem shared_of_reachable {P : σ → Prop}
    (hmoves : ∀ s t, P s → machine.moves s t → P t)
    (hexec : ∀ op result s t, P s → machine.exec op s result t → P t) {shared : σ}
    (hstart : P shared) {s : System I σ ι α}
    (hs : Runs.Reachable (· = .start shared) (Step machine body) s) : P s.shared := by
  refine hs.invariant (fun s => P s.shared) (by rintro _ rfl; exact hstart) ?_
  intro s t _ h hstep
  exact shared_of_step hstep h (hmoves _ _ h) hexec

theorem returned_of_reachable {P : ι → Prop} {value : α}
    (hbody : ∀ request, P request → body request = .ret value) {shared : σ}
    {s : System I σ ι α} (hs : Runs.Reachable (· = .start shared) (Step machine body) s) :
    (∀ run ∈ s.live, P run.request →
        run.program = .ret value ∧ run.trace = [] ∧ run.deferred = []) ∧
      ∀ run ∈ s.ended, P run.request →
        run.outcome = some value ∧ run.trace = [] ∧ run.deferred = [] := by
  refine hs.invariant (fun s => (∀ run ∈ s.live, P run.request →
      run.program = .ret value ∧ run.trace = [] ∧ run.deferred = []) ∧
    ∀ run ∈ s.ended, P run.request →
      run.outcome = some value ∧ run.trace = [] ∧ run.deferred = []) ?_ ?_
  · rintro _ rfl
    exact ⟨fun _ h => (Multiset.notMem_zero _ h).elim, fun _ h => (Multiset.notMem_zero _ h).elim⟩
  · rintro s t - ⟨hlive, hended⟩ hstep
    cases hstep with
    | moves hmoves => exact ⟨hlive, hended⟩
    | start request =>
        exact ⟨Multiset.forall_mem_cons.mpr ⟨fun h => ⟨hbody request h, rfl, rfl⟩, hlive⟩, hended⟩
    | perform hrun hexec =>
        rw [hrun, Multiset.forall_mem_cons] at hlive
        exact ⟨Multiset.forall_mem_cons.mpr ⟨fun h => (nomatch (hlive.1 h).1), hlive.2⟩, hended⟩
    | reply hrun reply =>
        rw [hrun, Multiset.forall_mem_cons] at hlive
        exact ⟨Multiset.forall_mem_cons.mpr ⟨fun h => (nomatch (hlive.1 h).1), hlive.2⟩, hended⟩
    | defer hrun =>
        rw [hrun, Multiset.forall_mem_cons] at hlive
        exact ⟨Multiset.forall_mem_cons.mpr ⟨fun h => (nomatch (hlive.1 h).1), hlive.2⟩, hended⟩
    | stop hrun hexits hunwinds =>
        rw [hrun, Multiset.forall_mem_cons] at hlive
        refine ⟨hlive.2, Multiset.forall_mem_cons.mpr ⟨fun h => ?_, hended⟩⟩
        obtain ⟨hprogram, htrace, hdeferred⟩ := hlive.1 h
        rw [hprogram] at hexits
        cases hexits with
        | ret => exact ⟨rfl, htrace, hdeferred⟩

/-- What holds of every event when it happens, and of a past event whatever the shared state does
afterwards, holds of all events of an interleaving. Both may use an invariant of the state. -/
theorem attested_of_reachable {P : σ → Prop} {Q : σ → Event I → Prop}
    (hexec : ∀ op result s t, P s → machine.exec op s result t →
      P t ∧ Q t (.ran op result) ∧ ∀ event, Q s event → Q t event)
    (hmoves : ∀ s t, P s → machine.moves s t → P t ∧ ∀ event, Q s event → Q t event)
    (hother : ∀ s event, (∀ op result, event ≠ .ran op result) → Q s event) {shared : σ}
    (hstart : P shared) {s : System I σ ι α}
    (hs : Runs.Reachable (· = .start shared) (Step machine body) s) :
    ∀ history ∈ s.histories, ∀ event ∈ history.2, Q s.shared event := by
  rw [System.forall_mem_histories]
  have hunwound : ∀ {deferred : List I.Op} {s t : σ}, Unwinds machine deferred s t → P s →
      ∀ event, Q s event → Q t event := by
    intro deferred s t hunwinds
    induction hunwinds with
    | nil => exact fun _ _ => id
    | cons hfirst _ ih =>
        intro hinv event h
        obtain ⟨hnext, -, hkept⟩ := hexec _ _ _ _ hinv hfirst
        exact ih hnext event (hkept event h)
  refine hs.invariant (fun s => (∀ run ∈ s.live, ∀ event ∈ run.trace, Q s.shared event) ∧
    ∀ run ∈ s.ended, ∀ event ∈ run.trace, Q s.shared event) ?_ ?_
  · rintro _ rfl
    exact ⟨fun _ h => (Multiset.notMem_zero _ h).elim, fun _ h => (Multiset.notMem_zero _ h).elim⟩
  · rintro s t hs ⟨hlive, hended⟩ hstep
    have hinv : P s.shared := shared_of_reachable (fun s t h hmove => (hmoves s t h hmove).1)
      (fun op result s t h hop => (hexec op result s t h hop).1) hstart hs
    cases hstep with
    | moves hmove =>
        have hkept := (hmoves _ _ hinv hmove).2
        exact ⟨fun run hrun event hevent => hkept event (hlive run hrun event hevent),
          fun run hrun event hevent => hkept event (hended run hrun event hevent)⟩
    | start request =>
        refine ⟨Multiset.forall_mem_cons.mpr ⟨fun _ hevent => ?_, hlive⟩, hended⟩
        exact (List.not_mem_nil hevent).elim
    | perform hrun hop =>
        rw [hrun, Multiset.forall_mem_cons] at hlive
        obtain ⟨-, hran, hkept⟩ := hexec _ _ _ _ hinv hop
        refine ⟨Multiset.forall_mem_cons.mpr ⟨List.forall_mem_cons.mpr ⟨hran, ?_⟩, ?_⟩, ?_⟩
        · exact fun event hevent => hkept event (hlive.1 event hevent)
        · exact fun run hmem event hevent => hkept event (hlive.2 run hmem event hevent)
        · exact fun run hmem event hevent => hkept event (hended run hmem event hevent)
    | reply hrun reply =>
        rw [hrun, Multiset.forall_mem_cons] at hlive
        refine ⟨Multiset.forall_mem_cons.mpr ⟨List.forall_mem_cons.mpr ⟨?_, hlive.1⟩, hlive.2⟩, hended⟩
        exact hother _ _ fun _ _ heq => (by cases heq)
    | defer hrun =>
        rw [hrun, Multiset.forall_mem_cons] at hlive
        exact ⟨Multiset.forall_mem_cons.mpr hlive, hended⟩
    | @stop rest run events outcome shared hrun hexits hunwinds =>
        rw [hrun, Multiset.forall_mem_cons] at hlive
        have hkept := hunwound hunwinds hinv
        have hevents : ∀ event ∈ events, Q s.shared event := by
          obtain ⟨request, program, trace, deferred⟩ := run
          cases hexits with
          | ret value => exact fun _ hmem => (List.not_mem_nil hmem).elim
          | panic => exact List.forall_mem_singleton.mpr (hother _ _ fun _ _ heq => (by cases heq))
          | perform hpanics =>
              exact List.forall_mem_singleton.mpr (hother _ _ fun _ _ heq => (by cases heq))
          | drop call next =>
              exact List.forall_mem_singleton.mpr (hother _ _ fun _ _ heq => (by cases heq))
        refine ⟨fun run hmem event hevent => ?_, Multiset.forall_mem_cons.mpr ⟨?_, ?_⟩⟩
        · exact hkept event (hlive.2 run hmem event hevent)
        · intro event hevent
          exact hkept event ((List.mem_append.mp hevent).elim (hevents event) (hlive.1 event))
        · exact fun run hmem event hevent => hkept event (hended run hmem event hevent)

section Refinement

variable {τ : Type} {abstract : Machine I τ} {abs : σ → τ} {P : σ → Prop}

/-- The same runs over another shared state. -/
def System.map (abs : σ → τ) (s : System I σ ι α) : System I τ ι α := ⟨abs s.shared, s.live, s.ended⟩

/-- Where the invariant holds, it goes on to hold, and what a machine does can be seen through `abs`
in the abstract machine. The moves may be invisible. -/
structure Refines (machine : Machine I σ) (abstract : Machine I τ) (abs : σ → τ) (P : σ → Prop) :
    Prop where
  exec : ∀ op result s t, P s → machine.exec op s result t →
    abstract.exec op (abs s) result (abs t) ∧ P t
  panics : ∀ op s, P s → machine.panics op s → abstract.panics op (abs s)
  moves : ∀ s t, P s → machine.moves s t →
    (abs t = abs s ∨ abstract.moves (abs s) (abs t)) ∧ P t

theorem Refines.exits (h : Refines machine abstract abs inv) {s : σ} (hinv : inv s)
    {program : Program I α} {events : Trace I} {outcome : Option α}
    (hexits : Exits machine s program events outcome) :
    Exits abstract (abs s) program events outcome := by
  cases hexits with
  | ret value => exact .ret value
  | panic => exact .panic
  | perform hpanics => exact .perform (h.panics _ _ hinv hpanics)
  | drop call next => exact .drop call next

theorem Refines.unwinds (h : Refines machine abstract abs inv) {deferred : List I.Op} {s t : σ}
    (hunwinds : Unwinds machine deferred s t) (hinv : inv s) :
    Unwinds abstract deferred (abs s) (abs t) ∧ inv t := by
  induction hunwinds with
  | nil s => exact ⟨.nil (abs s), hinv⟩
  | cons hexec hrest ih =>
      obtain ⟨habs, hnext⟩ := h.exec _ _ _ _ hinv hexec
      obtain ⟨hlater, hlast⟩ := ih hnext
      exact ⟨.cons habs hlater, hlast⟩

theorem Refines.step (h : Refines machine abstract abs inv) {s t : System I σ ι α}
    (hinv : inv s.shared) (hstep : Step machine body s t) :
    (t.map abs = s.map abs ∨ Step abstract body (s.map abs) (t.map abs)) ∧ inv t.shared := by
  cases hstep with
  | moves hmoves =>
      obtain ⟨hseen, hnext⟩ := h.moves _ _ hinv hmoves
      refine ⟨hseen.imp (fun heq => ?_) fun habs => .moves habs, hnext⟩
      rw [System.map, System.map, heq]
  | start request => exact ⟨Or.inr (.start (s.map abs) request), hinv⟩
  | perform hlive hexec =>
      obtain ⟨habs, hnext⟩ := h.exec _ _ _ _ hinv hexec
      exact ⟨Or.inr (.perform hlive habs), hnext⟩
  | reply hlive reply => exact ⟨Or.inr (.reply (s := s.map abs) hlive reply), hinv⟩
  | defer hlive => exact ⟨Or.inr (.defer (s := s.map abs) hlive), hinv⟩
  | stop hlive hexits hunwinds =>
      obtain ⟨habs, hnext⟩ := h.unwinds hunwinds hinv
      exact ⟨Or.inr (.stop hlive (h.exits hinv hexits) habs), hnext⟩

/-- The runs over a machine are runs over the machine it refines. -/
theorem Refines.reachable (h : Refines machine abstract abs inv) {shared : σ} (hstart : inv shared)
    {s : System I σ ι α} (hs : Runs.Reachable (· = .start shared) (Step machine body) s) :
    Runs.Reachable (· = .start (abs shared)) (Step abstract body) (s.map abs) ∧ inv s.shared := by
  refine hs.invariant (fun s =>
    Runs.Reachable (· = .start (abs shared)) (Step abstract body) (s.map abs) ∧ inv s.shared) ?_ ?_
  · rintro _ rfl
    exact ⟨.of_start rfl, hstart⟩
  · rintro s t - ⟨habs, hinv⟩ hstep
    obtain ⟨hseen, hnext⟩ := h.step hinv hstep
    rcases hseen with heq | hseen
    · exact ⟨heq ▸ habs, hnext⟩
    · exact ⟨habs.tail hseen, hnext⟩

end Refinement

end Programs
