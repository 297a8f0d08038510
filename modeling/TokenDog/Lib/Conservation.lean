import TokenDog.Lib.Interleaved
import Mathlib.Algebra.BigOperators.Group.Multiset.Basic

/-!
# What interleaved programs hold

Every history holds units of the shared state, an ended run may leave some behind, and the shared
state counts units. If each operation keeps its own run in step with the count, the count is the sum
over all runs in every interleaving, whatever the state does by itself in between.
-/

namespace Programs

variable {I : Interface} {σ ι α M : Type} [AddCommMonoid M]

/-- What a history holds, what an ended run has left behind, and which units a state counts. -/
structure Accounts (I : Interface) (σ M : Type) where
  held : Trace I → M
  leftBy : Trace I → List I.Op → M
  Counts : σ → M → Prop

/-- Each rule is about one run; `others` stands for what all the other ones hold. -/
structure Accounts.Conserves (accounts : Accounts I σ M) (machine : Machine I σ) (spec : ι → Spec I)
    (post : ι → α → Trace I → List I.Op → Prop) : Prop where
  held_nil : accounts.held [] = 0
  held_other : ∀ event trace, (∀ op result, event ≠ .ran op result) →
    accounts.held (event :: trace) = accounts.held trace
  exec : ∀ request trace op result s t others, (spec request).may trace op →
    machine.exec op s result t → accounts.Counts s (accounts.held trace + others) →
      accounts.Counts t (accounts.held (.ran op result :: trace) + others)
  unwinds : ∀ request trace deferred s t others,
    ((spec request).ends trace deferred ∨ ∃ value, post request value trace deferred) →
      Unwinds machine deferred s t → accounts.Counts s (accounts.held trace + others) →
        accounts.Counts t (accounts.leftBy trace deferred + others)
  moves : ∀ s t held, machine.moves s t → accounts.Counts s held → accounts.Counts t held

variable {accounts : Accounts I σ M} {machine : Machine I σ} {spec : ι → Spec I}
  {post : ι → α → Trace I → List I.Op → Prop} {body : ι → Program I α}

/-- Everything held by the live runs and left behind by the ended ones. -/
def Accounts.total (accounts : Accounts I σ M) (s : System I σ ι α) : M :=
  (s.live.map fun run => accounts.held run.trace).sum +
    (s.ended.map fun run => accounts.leftBy run.trace run.deferred).sum

namespace Accounts

theorem Conserves.held_exits (h : accounts.Conserves machine spec post) {s : σ}
    {program : Program I α} {events : Trace I} {outcome : Option α}
    (hexits : Exits machine s program events outcome) (trace : Trace I) :
    accounts.held (events ++ trace) = accounts.held trace := by
  cases hexits with
  | ret value => rfl
  | panic => exact h.held_other _ _ fun _ _ heq => (by cases heq)
  | perform hpanics => exact h.held_other _ _ fun _ _ heq => (by cases heq)
  | drop call next => exact h.held_other _ _ fun _ _ heq => (by cases heq)

section Total

variable {s : System I σ ι α} {rest : Multiset (Live I ι α)} {run : Live I ι α}

theorem total_of_live (hlive : s.live = run ::ₘ rest) :
    accounts.total s = accounts.held run.trace +
      ((rest.map fun run => accounts.held run.trace).sum +
        (s.ended.map fun run => accounts.leftBy run.trace run.deferred).sum) := by
  rw [total, hlive, Multiset.map_cons, Multiset.sum_cons, add_assoc]

end Total

/-- The shared state counts what all runs hold. -/
theorem Conserves.counts_of_reachable (h : accounts.Conserves machine spec post)
    (hbody : ∀ request, wp (spec request) (body request) (post request) [] []) {shared : σ}
    (hstart : accounts.Counts shared 0) {s : System I σ ι α}
    (hs : Runs.Reachable (· = .start shared) (Step machine body) s) :
    accounts.Counts s.shared (accounts.total s) := by
  refine hs.invariant (fun s => accounts.Counts s.shared (accounts.total s)) ?_ ?_
  · rintro _ rfl
    simpa [total, System.start] using hstart
  · intro s t hs hcounts hstep
    obtain ⟨hkeeps, -⟩ := keeps_of_reachable hbody hs
    cases hstep with
    | moves hmoves => exact h.moves _ _ _ hmoves hcounts
    | start request =>
        rw [total_of_live rfl, h.held_nil, zero_add]
        exact hcounts
    | perform hrun hexec =>
        rw [hrun, Multiset.forall_mem_cons] at hkeeps
        rw [total_of_live hrun] at hcounts
        rw [total_of_live rfl]
        exact h.exec _ _ _ _ _ _ _ hkeeps.1.1 hexec hcounts
    | reply hrun reply =>
        rw [total_of_live hrun] at hcounts
        rw [total_of_live rfl, h.held_other _ _ fun _ _ heq => (by cases heq)]
        exact hcounts
    | defer hrun =>
        rw [total_of_live hrun] at hcounts
        rw [total_of_live rfl]
        exact hcounts
    | @stop rest run events outcome shared hrun hexits hunwinds =>
        rw [hrun, Multiset.forall_mem_cons] at hkeeps
        rw [total_of_live hrun, ← h.held_exits hexits run.trace] at hcounts
        have hkept : (spec run.request).ends (events ++ run.trace) run.deferred ∨
            ∃ value, post run.request value (events ++ run.trace) run.deferred := by
          have hended := hkeeps.1.kept hexits
          cases outcome with
          | some value => exact Or.inr ⟨value, hended⟩
          | none => exact Or.inl hended
        have hnext := h.unwinds _ _ _ _ _ _ hkept hunwinds hcounts
        rw [total, Multiset.map_cons, Multiset.sum_cons, add_left_comm]
        exact hnext

/-- Units that are never given back: what the events of all histories say. -/
def ofEvents (read : Event I → M) (Counts : σ → M → Prop) : Accounts I σ M where
  held trace := (trace.map read).sum
  leftBy trace _ := (trace.map read).sum
  Counts := Counts

variable {read : Event I → M} {Counts : σ → M → Prop}

/-- The operations that a run leaves for its end say nothing. -/
theorem ofEvents_conserves
    (hother : ∀ event, (∀ op result, event ≠ .ran op result) → read event = 0)
    (hexec : ∀ op result s t held, machine.exec op s result t → Counts s held →
      Counts t (read (.ran op result) + held))
    (hdeferred : ∀ request trace deferred,
      ((spec request).ends trace deferred ∨ ∃ value, post request value trace deferred) →
        ∀ op ∈ deferred, ∀ result, read (.ran op result) = 0)
    (hmoves : ∀ s t held, machine.moves s t → Counts s held → Counts t held) :
    (ofEvents read Counts).Conserves machine spec post where
  held_nil := rfl
  held_other event trace h := by
    change ((event :: trace).map read).sum = (trace.map read).sum
    rw [List.map_cons, List.sum_cons, hother event h, zero_add]
  exec _ trace op result s t others _ hop hcounts := by
    change Counts t (((Event.ran op result :: trace).map read).sum + others)
    rw [List.map_cons, List.sum_cons, add_assoc]
    exact hexec op result s t _ hop hcounts
  unwinds request trace deferred s t others hends hunwinds hcounts := by
    have hsilent := hdeferred request trace deferred hends
    clear hends
    induction hunwinds with
    | nil => exact hcounts
    | @cons op deferred result s t u hop hrest ih =>
        refine ih ?_ fun later hlater => hsilent later (List.mem_cons_of_mem _ hlater)
        have hnext := hexec op result _ _ _ hop hcounts
        rwa [hsilent op List.mem_cons_self, zero_add] at hnext
  moves := hmoves

theorem total_ofEvents (s : System I σ ι α) : (ofEvents read Counts).total s =
    (s.histories.map fun history => (history.2.map read).sum).sum := by
  rw [System.histories, Multiset.map_add, Multiset.sum_add, Multiset.map_map, Multiset.map_map]
  rfl

end Accounts

end Programs
