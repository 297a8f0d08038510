import Mathlib.Logic.Relation

/-!
# Runs of a transition system

The states a system reaches from its starts, the induction rule for invariants, and the rule that
carries a run along a simulation. Everything is stated for arbitrary states, starts and steps.
-/

namespace Runs

variable {σ τ : Type*} {start : σ → Prop} {step : σ → σ → Prop}

/-- The states reached from a start by finitely many steps. -/
def Reachable (start : σ → Prop) (step : σ → σ → Prop) (s : σ) : Prop :=
  ∃ s₀, start s₀ ∧ Relation.ReflTransGen step s₀ s

theorem Reachable.of_start {s : σ} (hstart : start s) : Reachable start step s :=
  ⟨s, hstart, .refl⟩

theorem Reachable.tail {s t : σ} (hs : Reachable start step s) (hstep : step s t) :
    Reachable start step t := by
  obtain ⟨s₀, hstart, hrun⟩ := hs
  exact ⟨s₀, hstart, hrun.tail hstep⟩

theorem Reachable.append {s t : σ} (hs : Reachable start step s)
    (hrun : Relation.ReflTransGen step s t) : Reachable start step t := by
  obtain ⟨s₀, hstart, hbefore⟩ := hs
  exact ⟨s₀, hstart, hbefore.trans hrun⟩

/-- What holds of every start and is preserved by every step holds of every reachable state. The
step may use that the state before it is reachable. -/
theorem Reachable.invariant (inv : σ → Prop) (hstart : ∀ s, start s → inv s)
    (hstep : ∀ s t, Reachable start step s → inv s → step s t → inv t) {s : σ}
    (hs : Reachable start step s) : inv s := by
  obtain ⟨s₀, hs₀, hrun⟩ := hs
  induction hrun with
  | refl => exact hstart s₀ hs₀
  | tail hbefore hlast ih => exact hstep _ _ ⟨s₀, hs₀, hbefore⟩ ih hlast

/-- A function that maps starts to starts and steps to runs maps reachable states to reachable
states. -/
theorem Reachable.map {start' : τ → Prop} {step' : τ → τ → Prop} (abs : σ → τ)
    (hstart : ∀ s, start s → start' (abs s))
    (hstep : ∀ s t, step s t → Relation.ReflTransGen step' (abs s) (abs t)) {s : σ}
    (hs : Reachable start step s) : Reachable start' step' (abs s) :=
  hs.invariant (fun s => Reachable start' step' (abs s)) (fun _ hs => .of_start (hstart _ hs))
    fun _ _ _ h hst => h.append (hstep _ _ hst)

end Runs
