import Mathlib.Data.List.Basic
import Mathlib.Tactic.Common

/-!
# Files in a directory

Named files in the order of their creation. A write to an existing name replaces the file where it
is, a write to a new name adds one at the end. What is read from all files together grows by what is
written exactly where the name is new, and by less where a file is replaced that held something.
-/

namespace Files

variable {ν δ β : Type*} [DecidableEq ν]

abbrev Directory (ν δ : Type*) := List (ν × δ)

def names (directory : Directory ν δ) : List ν := directory.map Prod.fst

/-- Create the file, or replace the one that exists. -/
def write (name : ν) (data : δ) : Directory ν δ → Directory ν δ
  | [] => [(name, data)]
  | file :: rest => if file.1 = name then (name, data) :: rest else file :: write name data rest

def contents (read : δ → List β) (directory : Directory ν δ) : List β :=
  directory.flatMap fun file => read file.2

theorem write_of_not_mem {name : ν} (data : δ) {directory : Directory ν δ}
    (hnew : name ∉ names directory) : write name data directory = directory ++ [(name, data)] := by
  induction directory with
  | nil => rfl
  | cons file rest ih =>
      rw [names, List.map_cons, List.mem_cons, not_or] at hnew
      rw [write, if_neg (Ne.symm hnew.1), ih hnew.2, List.cons_append]

theorem contents_write_of_not_mem (read : δ → List β) {name : ν} (data : δ)
    {directory : Directory ν δ} (hnew : name ∉ names directory) :
    contents read (write name data directory) = contents read directory ++ read data := by
  rw [write_of_not_mem data hnew, contents, List.flatMap_append, List.flatMap_singleton]
  rfl

theorem forall_mem_write {P : δ → Prop} {name : ν} {data : δ} {directory : Directory ν δ}
    (hdata : P data) (h : ∀ file ∈ directory, P file.2) :
    ∀ file ∈ write name data directory, P file.2 := by
  induction directory with
  | nil => exact List.forall_mem_singleton.mpr hdata
  | cons file rest ih =>
      rw [List.forall_mem_cons] at h
      rw [write]
      split
      · exact List.forall_mem_cons.mpr ⟨hdata, h.2⟩
      · exact List.forall_mem_cons.mpr ⟨h.1, ih h.2⟩

theorem mem_write_of_ne {name : ν} (data : δ) {file : ν × δ} {directory : Directory ν δ}
    (hmem : file ∈ directory) (hname : file.1 ≠ name) : file ∈ write name data directory := by
  induction directory with
  | nil => exact (List.not_mem_nil hmem).elim
  | cons first rest ih =>
      rw [write]
      rcases List.mem_cons.mp hmem with rfl | hrest
      · rw [if_neg hname]
        exact List.mem_cons_self
      · split
        · exact List.mem_cons_of_mem _ hrest
        · exact List.mem_cons_of_mem _ (ih hrest)

theorem eq_or_mem_of_mem_write {name : ν} {data : δ} {file : ν × δ} {directory : Directory ν δ}
    (hmem : file ∈ write name data directory) : file = (name, data) ∨ file ∈ directory := by
  induction directory with
  | nil => exact Or.inl (List.mem_singleton.mp hmem)
  | cons first rest ih =>
      rw [write] at hmem
      split at hmem
      · rcases List.mem_cons.mp hmem with hfile | hrest
        · exact Or.inl hfile
        · exact Or.inr (List.mem_cons_of_mem _ hrest)
      · rcases List.mem_cons.mp hmem with rfl | hrest
        · exact Or.inr List.mem_cons_self
        · exact (ih hrest).imp id (List.mem_cons_of_mem _)

theorem length_contents_write_lt (read : δ → List β) {name : ν} (data : δ)
    {directory : Directory ν δ} (hold : name ∈ names directory)
    (hfull : ∀ file ∈ directory, read file.2 ≠ []) :
    (contents read (write name data directory)).length <
      (contents read directory).length + (read data).length := by
  induction directory with
  | nil => exact (List.not_mem_nil hold).elim
  | cons file rest ih =>
      rw [List.forall_mem_cons] at hfull
      rw [write]
      split
      · have hpos : 0 < (read file.2).length := List.length_pos_of_ne_nil hfull.1
        simp only [contents, List.flatMap_cons, List.length_append]
        omega
      · rename_i hother
        have hrest := ih ((List.mem_cons.mp hold).resolve_left (Ne.symm hother)) hfull.2
        simp only [contents, List.flatMap_cons, List.length_append] at hrest ⊢
        omega

end Files
