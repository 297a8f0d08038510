import TokenDog.Json
import Mathlib.Data.String.Basic

/-!
# Entries of an object

An entry is held where `insertEntry` looks for it. Held entries survive what happens to other keys,
also in a list of entries that is not in order.
-/

namespace TokenDog

namespace Value

/-- The entry is where `insertEntry` looks for it. -/
def Holds (key : String) (value : Value) (entries : List (String × Value)) : Prop :=
  ∃ before after, entries = before ++ (key, value) :: after ∧ ∀ entry ∈ before, entry.1 < key

theorem holds_cons {key other : String} {value old : Value} {rest : List (String × Value)}
    (hlt : other < key) (h : Holds key value rest) : Holds key value ((other, old) :: rest) := by
  obtain ⟨before, after, rfl, hbefore⟩ := h
  exact ⟨(other, old) :: before, after, rfl, List.forall_mem_cons.mpr ⟨hlt, hbefore⟩⟩

theorem holds_head (key : String) (value : Value) (rest : List (String × Value)) :
    Holds key value ((key, value) :: rest) :=
  ⟨[], rest, rfl, by simp⟩

/-- Where an entry is held, it is the first one of the list or held by what follows a smaller key. -/
theorem holds_cons_iff {key other : String} {value old : Value} {rest : List (String × Value)} :
    Holds key value ((other, old) :: rest) ↔
      (other = key ∧ old = value) ∨ (other < key ∧ Holds key value rest) := by
  constructor
  · rintro ⟨before, after, heq, hbefore⟩
    cases before with
    | nil =>
        cases heq
        exact Or.inl ⟨rfl, rfl⟩
    | cons entry before =>
        rw [List.cons_append, List.cons.injEq] at heq
        obtain ⟨rfl, hrest⟩ := heq
        rw [List.forall_mem_cons] at hbefore
        exact Or.inr ⟨hbefore.1, before, after, hrest, hbefore.2⟩
  · rintro (⟨rfl, rfl⟩ | ⟨hlt, h⟩)
    · exact holds_head other old rest
    · exact holds_cons hlt h

theorem not_holds_nil (key : String) (value : Value) : ¬Holds key value [] := by
  rintro ⟨before, after, heq, -⟩
  simp at heq

variable {key other : String} {value : Value} {entries : List (String × Value)}

@[elab_as_elim]
theorem Holds.scan {motive : ∀ entries, Holds key value entries → Prop}
    (found : ∀ rest, motive ((key, value) :: rest) (holds_head key value rest))
    (pass : ∀ name old rest (hlt : name < key) (hrest : Holds key value rest),
      motive rest hrest → motive ((name, old) :: rest) (holds_cons hlt hrest))
    (h : Holds key value entries) : motive entries h := by
  induction entries with
  | nil => exact absurd h (not_holds_nil key value)
  | cons entry rest ih =>
      obtain ⟨name, old⟩ := entry
      rcases holds_cons_iff.mp h with ⟨rfl, rfl⟩ | ⟨hlt, hrest⟩
      · exact found rest
      · exact pass name old rest hlt hrest (ih hrest)

theorem Holds.lookup (h : Holds key value entries) : entries.lookup key = some value := by
  induction h using Holds.scan with
  | found rest => simp
  | pass name old rest hlt hrest ih =>
      have hkey : (key == name) = false := by simpa using hlt.ne'
      rw [List.lookup_cons, hkey]
      exact ih

theorem Holds.insertEntry_eq (h : Holds key value entries) : insertEntry key value entries = entries := by
  induction h using Holds.scan with
  | found rest => rw [insertEntry, if_pos rfl]
  | pass name old rest hlt hrest ih => rw [insertEntry, if_neg hlt.ne, if_neg hlt.not_gt, ih]

theorem holds_insertEntry (key : String) (value : Value) (entries : List (String × Value)) :
    Holds key value (insertEntry key value entries) := by
  induction entries with
  | nil => exact holds_head key value []
  | cons entry rest ih =>
      obtain ⟨name, old⟩ := entry
      rw [insertEntry]
      split
      · exact holds_head key value rest
      · rename_i hne
        split
        · exact holds_head key value _
        · rename_i hle
          exact holds_cons (lt_of_le_of_ne (not_lt.mp hle) hne) ih

theorem Holds.insertEntry_of_ne (h : Holds key value entries) (hne : other ≠ key) (new : Value) :
    Holds key value (insertEntry other new entries) := by
  induction h using Holds.scan with
  | found rest =>
      rw [insertEntry, if_neg (Ne.symm hne)]
      split
      · rename_i hother
        exact holds_cons hother (holds_head _ _ rest)
      · exact holds_head _ _ _
  | pass name old rest hlt hrest ih =>
      rw [insertEntry]
      split
      · rename_i hname
        exact holds_cons (hname ▸ hlt) hrest
      · split
        · rename_i hother
          exact holds_cons (hother.trans hlt) (holds_cons hlt hrest)
        · exact holds_cons hlt ih

theorem Holds.removeEntry_of_ne (h : Holds key value entries) (hne : other ≠ key) :
    Holds key value (removeEntry other entries) := by
  obtain ⟨before, after, rfl, hbefore⟩ := h
  refine ⟨removeEntry other before, removeEntry other after, ?_, ?_⟩
  · have hkeep : ((key, value).1 != other) = true := by simpa using hne.symm
    simp only [removeEntry, List.filter_append, List.filter_cons, hkeep, if_true]
  · intro entry hentry
    exact hbefore entry (List.mem_filter.mp hentry).1

theorem removeEntry_of_lookup_none (h : entries.lookup key = none) : removeEntry key entries = entries := by
  rw [removeEntry, List.filter_eq_self]
  intro entry hentry
  have hne : key ≠ entry.1 := by simpa using List.lookup_eq_none_iff.mp h entry hentry
  simpa using hne.symm

/-- The entries differ under the given keys only, and the other entries that are held stay so. -/
structure ChangedOnly (keys : List String) (entries entries' : List (String × Value)) : Prop where
  lookup : ∀ key ∉ keys, entries'.lookup key = entries.lookup key
  holds : ∀ key ∉ keys, ∀ value, Holds key value entries → Holds key value entries'

namespace ChangedOnly

variable {keys keys' : List String} {entries' entries'' : List (String × Value)}

theorem refl (keys : List String) (entries : List (String × Value)) :
    ChangedOnly keys entries entries :=
  ⟨fun _ _ => rfl, fun _ _ _ h => h⟩

theorem trans (h : ChangedOnly keys entries entries') (h' : ChangedOnly keys' entries' entries'') :
    ChangedOnly (keys ++ keys') entries entries'' where
  lookup := by
    intro key hkey
    rw [List.mem_append, not_or] at hkey
    exact (h'.lookup key hkey.2).trans (h.lookup key hkey.1)
  holds := by
    intro key hkey value hholds
    rw [List.mem_append, not_or] at hkey
    exact h'.holds key hkey.2 value (h.holds key hkey.1 value hholds)

theorem insertEntry (key : String) (value : Value) (entries : List (String × Value)) :
    ChangedOnly [key] entries (insertEntry key value entries) where
  lookup := by
    intro other hother
    exact lookup_insertEntry_of_ne (by simpa using hother) value entries
  holds := by
    intro other hother old hholds
    exact hholds.insertEntry_of_ne (Ne.symm (by simpa using hother)) value

theorem removeEntry (key : String) (entries : List (String × Value)) :
    ChangedOnly [key] entries (removeEntry key entries) where
  lookup := by
    intro other hother
    exact lookup_removeEntry_of_ne (by simpa using hother) entries
  holds := by
    intro other hother old hholds
    exact hholds.removeEntry_of_ne (Ne.symm (by simpa using hother))

end ChangedOnly

end Value

end TokenDog
