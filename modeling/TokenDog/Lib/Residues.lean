import Mathlib.Data.Int.CardIntervalMod

/-!
# Residues in a window

How often each residue modulo `n` occurs among consecutive numbers: once in every window of length
`n`, and as evenly as can be in a window of any length.
-/

namespace Residues

/-- The residues of the `m` numbers from `start` on. -/
def window (n start m : ℕ) : List ℕ := (List.range' start m).map (· % n)

@[simp]
theorem length_window (n start m : ℕ) : (window n start m).length = m := by
  simp [window]

theorem window_succ (n start m : ℕ) :
    window n start (m + 1) = start % n :: window n (start + 1) m := by
  rw [window, List.range'_succ, List.map_cons]
  rfl

theorem window_concat (n start m : ℕ) :
    window n start (m + 1) = window n start m ++ [(start + m) % n] := by
  rw [window, List.range'_1_concat, List.map_append]
  rfl

theorem take_drop_window {n start m k l : ℕ} (h : k + l ≤ m) :
    ((window n start m).drop k).take l = window n (start + k) l := by
  rw [window, window, ← List.map_drop, ← List.map_take, List.drop_range', Nat.mul_one,
    List.take_range'_of_length_ge (by omega)]

theorem count_window_add (n start m i : ℕ) (hi : i < n) :
    (window n start m).count i + start.count (· ≡ i [MOD n]) =
      (start + m).count (· ≡ i [MOD n]) := by
  induction m with
  | zero => simp [window]
  | succ m ih =>
      have hlast : window n start (m + 1) = window n start m ++ [(start + m) % n] := by
        rw [window, List.range'_1_concat, List.map_append]
        rfl
      have hresidue : (start + m) ≡ i [MOD n] ↔ (start + m) % n = i := by
        rw [Nat.ModEq, Nat.mod_eq_of_lt hi]
      rw [hlast, List.count_append, List.count_singleton, ← Nat.add_assoc start m 1, Nat.count_succ,
        ← ih]
      by_cases heq : (start + m) % n = i
      · simp [heq, hresidue.mpr heq]
        omega
      · simp [heq, mt hresidue.mp heq]

/-- Every residue occurs as often as the others, but for one occurrence in the part of the window
that does not fill a turn. -/
theorem count_window {n i : ℕ} (hi : i < n) (start m : ℕ) :
    (window n start m).count i = m / n ∨ m % n ≠ 0 ∧ (window n start m).count i = m / n + 1 := by
  have hpos : 0 < n := by omega
  have hadd := count_window_add n start m i hi
  rw [Nat.count_modEq_card _ hpos, Nat.count_modEq_card _ hpos, Nat.mod_eq_of_lt hi,
    Nat.add_div hpos, Nat.add_mod_eq_ite] at hadd
  have hstart := Nat.mod_lt start hpos
  have hm := Nat.mod_lt m hpos
  split_ifs at hadd <;> omega

theorem count_window_floor_or_ceil {n i : ℕ} (hi : i < n) (start m : ℕ) :
    (window n start m).count i = m / n ∨ (window n start m).count i = (m + n - 1) / n := by
  rcases count_window hi start m with hcount | ⟨hne, hcount⟩
  · exact Or.inl hcount
  · right
    have hmod := Nat.mod_lt m (show 0 < n by omega)
    have hzero : (m % n - 1) / n = 0 := Nat.div_eq_of_lt (by omega)
    have hsplit : m + n - 1 = n * (m / n + 1) + (m % n - 1) := by
      have := Nat.div_add_mod m n
      rw [Nat.mul_add]
      omega
    calc (window n start m).count i
        = m / n + 1 := hcount
      _ = m / n + 1 + (m % n - 1) / n := by rw [hzero, Nat.add_zero]
      _ = (n * (m / n + 1) + (m % n - 1)) / n := (Nat.mul_add_div (by omega) _ _).symm
      _ = (m + n - 1) / n := by rw [hsplit]

theorem count_window_turn {n i : ℕ} (hi : i < n) (start : ℕ) : (window n start n).count i = 1 := by
  rcases count_window hi start n with hcount | ⟨hne, -⟩
  · rw [hcount, Nat.div_self (by omega)]
  · exact absurd (Nat.mod_self n) hne

end Residues
