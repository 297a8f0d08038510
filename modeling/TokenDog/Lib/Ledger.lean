import Mathlib.Data.Multiset.AddSub
import Mathlib.Data.Multiset.Count
import Mathlib.Data.Nat.ModEq
import Mathlib.Logic.Function.Basic

/-!
# Counting what is held

A ledger keeps a number for each key; a multiset says which units are held, each under a key. The
ledger is balanced when every number is the number of units held under its key. Acquiring and
releasing keep the balance, and a balanced ledger never releases at zero. A ledger of machine words
that is also released at zero still knows, up to the size of a word, how many more units were
acquired under a key than released.
-/

namespace Ledger

variable {κ : Type*} [DecidableEq κ]

/-- Every count is the number of units held under its key. -/
def Balanced (counts : κ → ℕ) (held : Multiset κ) : Prop := ∀ k, counts k = held.count k

theorem Balanced.empty {counts : κ → ℕ} (hzero : ∀ k, counts k = 0) : Balanced counts 0 := by
  intro k
  rw [hzero k, Multiset.count_zero]

theorem Balanced.pos {counts : κ → ℕ} {held : Multiset κ} (h : Balanced counts held) {k : κ}
    (hk : k ∈ held) : 0 < counts k := by
  rw [h k]
  exact Multiset.count_pos.mpr hk

theorem Balanced.acquire {counts : κ → ℕ} {held : Multiset κ} (h : Balanced counts held) (k : κ) :
    Balanced (Function.update counts k (counts k + 1)) (k ::ₘ held) := by
  intro j
  by_cases hj : j = k
  · subst hj
    rw [Function.update_self, Multiset.count_cons_self, h j]
  · rw [Function.update_of_ne hj, Multiset.count_cons_of_ne hj, h j]

theorem Balanced.release {counts : κ → ℕ} {held : Multiset κ} (h : Balanced counts held) (k : κ) :
    Balanced (Function.update counts k (counts k - 1)) (held.erase k) := by
  intro j
  by_cases hj : j = k
  · subst hj
    rw [Function.update_self, Multiset.count_erase_self, h j]
  · rw [Function.update_of_ne hj, Multiset.count_erase_of_ne hj, h j]

/-- The counts are words of `m` values, and each is the number of units acquired under its key less
the number released. -/
structure Wrapped (m : ℕ) (counts : κ → ℕ) (acquired released : Multiset κ) : Prop where
  lt : ∀ k, counts k < m
  modEq : ∀ k, counts k + released.count k ≡ acquired.count k [MOD m]

section Wrapped

variable {m : ℕ} {counts : κ → ℕ} {acquired released : Multiset κ}

theorem Wrapped.empty (hm : 0 < m) (hzero : ∀ k, counts k = 0) : Wrapped m counts 0 0 where
  lt k := (hzero k).trans_lt hm
  modEq k := by
    rw [hzero k, Multiset.count_zero]

theorem Wrapped.acquire (h : Wrapped m counts acquired released) (k : κ) :
    Wrapped m (Function.update counts k ((counts k + 1) % m)) (k ::ₘ acquired) released where
  lt j := by
    by_cases hj : j = k
    · subst hj
      rw [Function.update_self]
      exact Nat.mod_lt _ (Nat.zero_lt_of_lt (h.lt j))
    · rw [Function.update_of_ne hj]
      exact h.lt j
  modEq j := by
    by_cases hj : j = k
    · subst hj
      rw [Function.update_self, Multiset.count_cons_self]
      calc (counts j + 1) % m + released.count j
        _ ≡ counts j + 1 + released.count j [MOD m] := (Nat.mod_modEq _ m).add_right _
        _ = counts j + released.count j + 1 := by omega
        _ ≡ acquired.count j + 1 [MOD m] := (h.modEq j).add_right 1
    · rw [Function.update_of_ne hj, Multiset.count_cons_of_ne hj]
      exact h.modEq j

/-- A release at zero wraps around. -/
theorem Wrapped.release (h : Wrapped m counts acquired released) (k : κ) :
    Wrapped m (Function.update counts k (if counts k = 0 then m - 1 else counts k - 1)) acquired
      (k ::ₘ released) where
  lt j := by
    have hlt := h.lt j
    by_cases hj : j = k
    · subst hj
      rw [Function.update_self]
      split <;> omega
    · rw [Function.update_of_ne hj]
      exact hlt
  modEq j := by
    have hlt := h.lt j
    by_cases hj : j = k
    · subst hj
      rw [Function.update_self, Multiset.count_cons_self]
      split
      · rename_i hzero
        have hword : m - 1 + (released.count j + 1) = released.count j + m := by omega
        rw [hword]
        calc released.count j + m
          _ ≡ released.count j [MOD m] := Nat.add_modEq_right
          _ = counts j + released.count j := by rw [hzero, Nat.zero_add]
          _ ≡ acquired.count j [MOD m] := h.modEq j
      · rw [show counts j - 1 + (released.count j + 1) = counts j + released.count j by omega]
        exact h.modEq j
    · rw [Function.update_of_ne hj, Multiset.count_cons_of_ne hj]
      exact h.modEq j

theorem Wrapped.pos_iff (h : Wrapped m counts acquired released) (k : κ) :
    0 < counts k ↔ ¬acquired.count k ≡ released.count k [MOD m] := by
  rw [Nat.pos_iff_ne_zero, not_iff_not]
  constructor
  · intro hzero
    have := h.modEq k
    rw [hzero, Nat.zero_add] at this
    exact this.symm
  · intro heq
    have hzero : counts k + released.count k ≡ 0 + released.count k [MOD m] := by
      rw [Nat.zero_add]
      exact (h.modEq k).trans heq
    exact (Nat.ModEq.add_right_cancel' _ hzero).eq_of_lt_of_lt (h.lt k) (Nat.zero_lt_of_lt (h.lt k))

end Wrapped

end Ledger
