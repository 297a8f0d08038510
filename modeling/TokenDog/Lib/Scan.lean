import Mathlib.Algebra.Order.Field.Basic
import Mathlib.Order.WithBot
import Mathlib.Order.Lattice
import Mathlib.Data.List.Induction
import Mathlib.Tactic.Linarith

/-!
# Running minima and maxima

Two scans over a list of candidates. `improve` keeps an incumbent and replaces it only by a strictly
smaller candidate, so it ends on the first minimum. `tieStep` keeps the best score seen so far and
every candidate that attains it, so it ends on the set of all maxima. The scans are stated over any
linear order and any candidate type. A score that weighs two criteria orders them lexicographically
when the least step of the first outweighs the whole range of the second.
-/

namespace Scan

variable {ι α : Type} [LinearOrder α]

/-- A monadic scan that never fails on its candidates is the pure scan. -/
theorem foldlM_eq_ok {ε σ : Type} {stepM : σ → ι → Except ε σ} {step : σ → ι → σ}
    (candidates : List ι) (start : σ)
    (hstep : ∀ s, ∀ i ∈ candidates, stepM s i = .ok (step s i)) :
    candidates.foldlM stepM start = .ok (candidates.foldl step start) := by
  induction candidates generalizing start with
  | nil => rfl
  | cons i rest ih =>
      rw [List.foldlM_cons, hstep start i (List.mem_cons_self ..)]
      exact ih (step start i) fun s j hj => hstep s j (List.mem_cons_of_mem _ hj)

/-- A monadic scan that does not fail has returned on every candidate. -/
theorem exists_of_foldlM_eq_ok {ε σ : Type} {stepM : σ → ι → Except ε σ} {candidates : List ι}
    {start final : σ} (h : candidates.foldlM stepM start = .ok final) :
    ∀ i ∈ candidates, ∃ s t, stepM s i = .ok t := by
  induction candidates generalizing start with
  | nil => simp
  | cons head rest ih =>
      rw [List.foldlM_cons] at h
      cases hhead : stepM start head with
      | error e =>
          rw [hhead] at h
          cases h
      | ok next =>
          rw [hhead] at h
          intro i hi
          rcases List.mem_cons.mp hi with rfl | hi
          · exact ⟨start, next, hhead⟩
          · exact ih h i hi

/-- Replace the incumbent by a strictly smaller candidate. -/
def improve (value : ι → α) (incumbent : ι × α) (i : ι) : ι × α :=
  if value i < incumbent.2 then (i, value i) else incumbent

theorem foldl_improve_of_forall_le {value : ι → α} {candidates : List ι} {incumbent : ι × α}
    (hle : ∀ i ∈ candidates, incumbent.2 ≤ value i) :
    candidates.foldl (improve value) incumbent = incumbent := by
  induction candidates with
  | nil => rfl
  | cons i rest ih =>
      have hkeep : improve value incumbent i = incumbent :=
        if_neg (not_lt.mpr (hle i (List.mem_cons_self ..)))
      rw [List.foldl_cons, hkeep]
      exact ih fun j hj => hle j (List.mem_cons_of_mem _ hj)

/-- When some candidate beats the incumbent, the scan ends on the first minimum of the list. -/
theorem foldl_improve_of_exists_lt {value : ι → α} {candidates : List ι} {incumbent : ι × α}
    (hlt : ∃ i ∈ candidates, value i < incumbent.2) :
    ∃ before i after, candidates = before ++ i :: after ∧
      candidates.foldl (improve value) incumbent = (i, value i) ∧ value i < incumbent.2 ∧
      (∀ j ∈ before, value i < value j) ∧ ∀ j ∈ after, value i ≤ value j := by
  induction candidates generalizing incumbent with
  | nil => simp at hlt
  | cons head rest ih =>
      by_cases hhead : value head < incumbent.2
      · have hstep : improve value incumbent head = (head, value head) := if_pos hhead
        by_cases hrest : ∃ i ∈ rest, value i < value head
        · obtain ⟨before, i, after, hsplit, hfold, hbelow, hbefore, hafter⟩ :=
            ih (show ∃ i ∈ rest, value i < (head, value head).2 from hrest)
          refine ⟨head :: before, i, after, by rw [hsplit]; rfl, ?_, hbelow.trans hhead, ?_, hafter⟩
          · rw [List.foldl_cons, hstep, hfold]
          · intro j hj
            rcases List.mem_cons.mp hj with rfl | hj
            · exact hbelow
            · exact hbefore j hj
        · push Not at hrest
          refine ⟨[], head, rest, rfl, ?_, hhead, by simp, hrest⟩
          rw [List.foldl_cons, hstep]
          exact foldl_improve_of_forall_le hrest
      · have hstep : improve value incumbent head = incumbent := if_neg hhead
        have hrest : ∃ i ∈ rest, value i < incumbent.2 := by
          obtain ⟨i, hi, hvalue⟩ := hlt
          rcases List.mem_cons.mp hi with rfl | hi
          · exact absurd hvalue hhead
          · exact ⟨i, hi, hvalue⟩
        obtain ⟨before, i, after, hsplit, hfold, hbelow, hbefore, hafter⟩ := ih hrest
        refine ⟨head :: before, i, after, by rw [hsplit]; rfl, ?_, hbelow, ?_, hafter⟩
        · rw [List.foldl_cons, hstep, hfold]
        · intro j hj
          rcases List.mem_cons.mp hj with rfl | hj
          · exact hbelow.trans_le (not_lt.mp hhead)
          · exact hbefore j hj

/-- Index `i` is the first minimum of `value` over the first `n` indices. -/
structure FirstMin (value : ℕ → α) (n i : ℕ) : Prop where
  lt : i < n
  le : ∀ j < n, value i ≤ value j
  before : ∀ j < i, value i < value j

theorem FirstMin.unique {value : ℕ → α} {n i j : ℕ} (hi : FirstMin value n i)
    (hj : FirstMin value n j) : i = j := by
  rcases lt_trichotomy i j with hlt | heq | hgt
  · exact absurd (hj.before i hlt) (not_lt.mpr (hi.le j hj.lt))
  · exact heq
  · exact absurd (hi.before j hgt) (not_lt.mpr (hj.le i hi.lt))

/-- A scan of `1..n` that starts from the value at `0` ends on the first minimum, unless `0` is one
already: then the incumbent stays, whatever it is. -/
theorem foldl_improve_range (value : ℕ → α) (n start : ℕ) :
    ((∀ j < n, value 0 ≤ value j) ∧
        ((List.range' 1 (n - 1)).foldl (improve value) (start, value 0)).1 = start) ∨
      ((∃ j < n, value j < value 0) ∧
        FirstMin value n ((List.range' 1 (n - 1)).foldl (improve value) (start, value 0)).1) := by
  by_cases hbelow : ∃ j < n, value j < value 0
  · refine Or.inr ⟨hbelow, ?_⟩
    have hlt : ∃ j ∈ List.range' 1 (n - 1), value j < (start, value 0).2 := by
      obtain ⟨j, hj, hvalue⟩ := hbelow
      refine ⟨j, ?_, hvalue⟩
      have hpos : j ≠ 0 := by
        rintro rfl
        exact lt_irrefl _ hvalue
      rw [List.mem_range'_1]
      omega
    obtain ⟨before, i, after, hsplit, hfold, hzero, hbefore, hafter⟩ :=
      foldl_improve_of_exists_lt hlt
    rw [hfold]
    have hmem : ∀ j, 1 ≤ j → j < n → j ∈ before ∨ j = i ∨ j ∈ after := by
      intro j hone hj
      have : j ∈ before ++ i :: after := by
        rw [← hsplit, List.mem_range'_1]
        omega
      simpa using this
    have hin : i ∈ List.range' 1 (n - 1) := by
      rw [hsplit]
      simp
    have hsorted : (before ++ i :: after).Pairwise (· < ·) := hsplit ▸ List.pairwise_lt_range'
    rw [List.mem_range'_1] at hin
    refine ⟨by omega, fun j hj => ?_, fun j hj => ?_⟩
    · rcases Nat.eq_zero_or_pos j with rfl | hpos
      · exact hzero.le
      · rcases hmem j hpos hj with hj | rfl | hj
        · exact (hbefore j hj).le
        · exact le_rfl
        · exact hafter j hj
    · rcases Nat.eq_zero_or_pos j with rfl | hpos
      · exact hzero
      · rcases hmem j hpos (by omega) with hmem | rfl | hmem
        · exact hbefore j hmem
        · exact absurd hj (lt_irrefl _)
        · have hlater := (List.pairwise_cons.mp (List.pairwise_append.mp hsorted).2.1).1 j hmem
          omega
  · push Not at hbelow
    refine Or.inl ⟨hbelow, ?_⟩
    rw [foldl_improve_of_forall_le]
    intro j hj
    rw [List.mem_range'_1] at hj
    exact hbelow j (by omega)

/-- Start a new list of ties on a strictly better score and extend it on an equal one. -/
def tieStep (score : ι → α) (state : WithBot α × List ι) (i : ι) : WithBot α × List ι :=
  if state.1 < score i then (score i, [i])
  else if (score i : WithBot α) = state.1 then (state.1, state.2 ++ [i])
  else state

/-- The invariant of the scan: the first component is the best score seen, and the second lists
exactly the candidates that attain it. -/
structure TieInvariant (score : ι → α) (seen : List ι) (state : WithBot α × List ι) : Prop where
  empty : seen = [] → state.1 = ⊥
  bound : ∀ j ∈ seen, (score j : WithBot α) ≤ state.1
  ties : ∀ i, i ∈ state.2 ↔ i ∈ seen ∧ (score i : WithBot α) = state.1
  attained : seen ≠ [] → state.2 ≠ []

theorem TieInvariant.nil (score : ι → α) : TieInvariant score [] (⊥, []) :=
  ⟨fun _ => rfl, by simp, by simp, fun h => absurd rfl h⟩

theorem TieInvariant.bound_append {score : ι → α} {seen : List ι} {state : WithBot α × List ι}
    (hinv : TieInvariant score seen state) {i : ι} {best : WithBot α} (hbest : state.1 ≤ best)
    (hi : (score i : WithBot α) ≤ best) : ∀ j ∈ seen ++ [i], (score j : WithBot α) ≤ best := by
  intro j hj
  rcases List.mem_append.mp hj with hj | hj
  · exact (hinv.bound j hj).trans hbest
  · rw [List.mem_singleton.mp hj]
    exact hi

theorem TieInvariant.tieStep {score : ι → α} {seen : List ι} {state : WithBot α × List ι}
    (hinv : TieInvariant score seen state) (i : ι) :
    TieInvariant score (seen ++ [i]) (Scan.tieStep score state i) := by
  rcases lt_trichotomy state.1 (score i : WithBot α) with hlt | heq | hgt
  · have hstep : Scan.tieStep score state i = (↑(score i), [i]) := if_pos hlt
    rw [hstep]
    refine ⟨by simp, hinv.bound_append hlt.le le_rfl, fun j => ⟨?_, ?_⟩, by simp⟩
    · intro hj
      rw [List.mem_singleton.mp hj]
      simp
    · rintro ⟨hj, hscore⟩
      rcases List.mem_append.mp hj with hj | hj
      · exact absurd hscore ((hinv.bound j hj).trans_lt hlt).ne
      · exact hj
  · have hstep : Scan.tieStep score state i = (state.1, state.2 ++ [i]) := by
      rw [Scan.tieStep, if_neg heq.not_lt, if_pos heq.symm]
    rw [hstep]
    refine ⟨by simp, hinv.bound_append le_rfl heq.ge, fun j => ?_, by simp⟩
    simp only [List.mem_append, List.mem_singleton, hinv.ties j]
    constructor
    · rintro (⟨hj, hscore⟩ | rfl)
      · exact ⟨Or.inl hj, hscore⟩
      · exact ⟨Or.inr rfl, heq.symm⟩
    · rintro ⟨hj | hj, hscore⟩
      · exact Or.inl ⟨hj, hscore⟩
      · exact Or.inr hj
  · have hstep : Scan.tieStep score state i = state := by
      rw [Scan.tieStep, if_neg hgt.not_gt, if_neg hgt.ne]
    have hseen : seen ≠ [] := by
      intro hnil
      rw [hinv.empty hnil] at hgt
      exact not_lt_bot hgt
    rw [hstep]
    refine ⟨by simp, hinv.bound_append le_rfl hgt.le, fun j => ?_, fun _ => hinv.attained hseen⟩
    rw [hinv.ties j, List.mem_append, List.mem_singleton]
    constructor
    · rintro ⟨hj, hscore⟩
      exact ⟨Or.inl hj, hscore⟩
    · rintro ⟨hj | rfl, hscore⟩
      · exact ⟨hj, hscore⟩
      · exact absurd hscore hgt.ne

theorem tieInvariant_foldl (score : ι → α) (candidates : List ι) :
    TieInvariant score candidates (candidates.foldl (tieStep score) (⊥, [])) := by
  induction candidates using List.reverseRecOn with
  | nil => exact TieInvariant.nil score
  | append_singleton seen i ih =>
      rw [List.foldl_append, List.foldl_cons, List.foldl_nil]
      exact ih.tieStep i

/-- The scan ends on the set of all maxima. -/
theorem mem_foldl_tieStep {score : ι → α} {candidates : List ι} {i : ι} :
    i ∈ (candidates.foldl (tieStep score) (⊥, [])).2 ↔
      i ∈ candidates ∧ ∀ j ∈ candidates, score j ≤ score i := by
  have hinv := tieInvariant_foldl score candidates
  rw [hinv.ties]
  constructor
  · rintro ⟨hi, hscore⟩
    refine ⟨hi, fun j hj => ?_⟩
    have hbound := hinv.bound j hj
    rwa [← hscore, WithBot.coe_le_coe] at hbound
  · rintro ⟨hi, hmax⟩
    refine ⟨hi, le_antisymm (hinv.bound i hi) ?_⟩
    obtain ⟨k, hk⟩ := List.exists_mem_of_ne_nil _ (hinv.attained (List.ne_nil_of_mem hi))
    obtain ⟨hkmem, hkscore⟩ := (hinv.ties k).mp hk
    rw [← hkscore, WithBot.coe_le_coe]
    exact hmax k hkmem

theorem foldl_tieStep_ne_nil {score : ι → α} {candidates : List ι} (hne : candidates ≠ []) :
    (candidates.foldl (tieStep score) (⊥, [])).2 ≠ [] :=
  (tieInvariant_foldl score candidates).attained hne

theorem weighted_lt {K : Type} [Field K] [LinearOrder K] [IsStrictOrderedRing K]
    {alpha beta gap first first' second second' : K} (halpha : 0 < alpha) (hbeta : 0 < beta)
    (hgap : beta < alpha * gap) (hstep : gap ≤ first' - first) (hsecond : 0 ≤ second)
    (hsecond' : second' ≤ 1) :
    alpha * first - beta * second < alpha * first' - beta * second' := by
  have hgain : alpha * gap ≤ alpha * (first' - first) :=
    mul_le_mul_of_nonneg_left hstep halpha.le
  have hloss : beta * (second' - second) ≤ beta * 1 :=
    mul_le_mul_of_nonneg_left (by linarith) hbeta.le
  linarith [mul_sub alpha first' first, mul_sub beta second' second]

/-- The first criterion moves in steps of at least `gap`, the second one stays between zero and
one. -/
theorem weighted_le_iff {K : Type} [Field K] [LinearOrder K] [IsStrictOrderedRing K] (gap : K)
    {alpha beta first first' second second' : K} (halpha : 0 < alpha) (hbeta : 0 < beta)
    (hgap : beta < alpha * gap) (hup : first < first' → gap ≤ first' - first)
    (hdown : first' < first → gap ≤ first - first') (hsecond : 0 ≤ second ∧ second ≤ 1)
    (hsecond' : 0 ≤ second' ∧ second' ≤ 1) :
    alpha * first - beta * second ≤ alpha * first' - beta * second' ↔
      first < first' ∨ first = first' ∧ second' ≤ second := by
  rcases lt_trichotomy first first' with hlt | rfl | hgt
  · have hscore := weighted_lt halpha hbeta hgap (hup hlt) hsecond.1 hsecond'.2
    exact iff_of_true hscore.le (Or.inl hlt)
  · rw [sub_le_sub_iff_left, mul_le_mul_iff_right₀ hbeta]
    simp
  · have hscore := weighted_lt halpha hbeta hgap (hdown hgt) hsecond'.1 hsecond.2
    apply iff_of_false hscore.not_ge
    rintro (hlt | ⟨rfl, -⟩)
    · exact absurd hlt hgt.not_gt
    · exact absurd hgt (lt_irrefl _)

end Scan
