import Mathlib.Data.List.Basic
import Mathlib.Logic.Function.Basic

/-!
# Machines in lockstep

A machine answers each input with an output and a next state, or fails. Two machines that start in
related states, answer alike and stay related give the same outputs on every list of inputs. Inputs
may be restricted by the state in which they are given.
-/

namespace Lockstep

variable {ι ο ε σ τ : Type*}

/-- The answers to a list of inputs. A failure is the last one. -/
def outputs (step : ι → σ → Except ε (ο × σ)) : List ι → σ → List (Except ε ο)
  | [], _ => []
  | i :: rest, s =>
      match step i s with
      | .error e => [.error e]
      | .ok (o, s') => .ok o :: outputs step rest s'

/-- Every input is allowed in the state in which it is given. -/
def Admissible (allowed : ι → σ → Prop) (step : ι → σ → Except ε (ο × σ)) : List ι → σ → Prop
  | [], _ => True
  | i :: rest, s => allowed i s ∧ ∀ o s', step i s = .ok (o, s') → Admissible allowed step rest s'

/-- Two answers with the same output, or the same failure, and related states behind them. -/
inductive Matches (rel : σ → τ → Prop) : Except ε (ο × σ) → Except ε (ο × τ) → Prop where
  | error (e : ε) : Matches rel (.error e) (.error e)
  | ok (o : ο) {s : σ} {t : τ} (h : rel s t) : Matches rel (.ok (o, s)) (.ok (o, t))

theorem outputs_eq_of_rel {rel : σ → τ → Prop} {allowed : ι → τ → Prop}
    {step : ι → σ → Except ε (ο × σ)} {step' : ι → τ → Except ε (ο × τ)}
    (hstep : ∀ i s t, rel s t → allowed i t → Matches rel (step i s) (step' i t))
    {inputs : List ι} {s : σ} {t : τ} (h : rel s t) (hinputs : Admissible allowed step' inputs t) :
    outputs step inputs s = outputs step' inputs t := by
  induction inputs generalizing s t with
  | nil => rfl
  | cons i rest ih =>
      obtain ⟨hallowed, hrest⟩ := hinputs
      have hmatches := hstep i s t h hallowed
      rw [outputs, outputs]
      generalize hanswer : step i s = answer at hmatches ⊢
      generalize hanswer' : step' i t = answer' at hmatches ⊢
      cases hmatches with
      | error e => rfl
      | ok o h' =>
          apply congrArg (List.cons _)
          exact ih h' (hrest o _ hanswer')

end Lockstep
