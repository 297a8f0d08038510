import Mathlib.Data.Set.Insert

/-!
# Replacing an element of a set

When an update by value of a set agrees with the intended one. `T` is the part of the set that
should stay and `v` the element that should go.
-/

namespace SetUpdate

variable {α : Type*} {T : Set α} {v w x : α}

theorem insert_sdiff_eq_iff : insert v T \ {x} = T ↔ x ∉ T ∧ (v = x ∨ v ∈ T) := by
  constructor
  · intro h
    have hx : x ∉ T := by
      rw [← h]
      exact fun hmem => hmem.2 rfl
    refine ⟨hx, or_iff_not_imp_left.mpr fun hne => ?_⟩
    rw [← h]
    exact ⟨Set.mem_insert v T, hne⟩
  · rintro ⟨hx, hv⟩
    ext y
    simp only [Set.mem_sdiff, Set.mem_insert_iff, Set.mem_singleton_iff]
    constructor
    · rintro ⟨rfl | hy, hne⟩
      · exact hv.resolve_left hne
      · exact hy
    · intro hy
      exact ⟨Or.inr hy, fun heq => hx (heq ▸ hy)⟩

/-- Removing `x` and adding `w` leaves `T` and `w` when `v` is gone, or was in `T` anyway, and an
element of `T` that was removed is added back. -/
theorem insert_insert_sdiff_eq_iff (hvw : v = w → v = x) :
    insert w (insert v T \ {x}) = insert w T ↔ (v = x ∨ v ∈ T) ∧ (x = w ∨ x ∉ T) := by
  constructor
  · intro h
    constructor
    · refine or_iff_not_imp_left.mpr fun hne => ?_
      have hmem : v ∈ insert w T := by
        rw [← h]
        exact Or.inr ⟨Set.mem_insert v T, hne⟩
      exact hmem.resolve_left fun heq => hne (hvw heq)
    · refine or_iff_not_imp_left.mpr fun hne hx => ?_
      have hmem : x ∈ insert w (insert v T \ {x}) := by
        rw [h]
        exact Or.inr hx
      rcases hmem with heq | hmem
      · exact hne heq
      · exact hmem.2 rfl
  · rintro ⟨hv, hx⟩
    ext y
    simp only [Set.mem_sdiff, Set.mem_insert_iff, Set.mem_singleton_iff]
    constructor
    · rintro (rfl | ⟨rfl | hy, hne⟩)
      · exact Or.inl rfl
      · exact Or.inr (hv.resolve_left hne)
      · exact Or.inr hy
    · rintro (rfl | hy)
      · exact Or.inl rfl
      · by_cases heq : y = x
        · subst heq
          exact Or.inl (hx.resolve_right (not_not.mpr hy))
        · exact Or.inr ⟨Or.inr hy, heq⟩

end SetUpdate
