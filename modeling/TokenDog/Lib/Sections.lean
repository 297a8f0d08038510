import TokenDog.Lib.Runs

/-!
# Tasks made of atomic sections

A task is a list of sections over a state shared with other tasks. Running a section updates the
state and may put further sections in front of the rest of the task. The rules here say what a task
does when it runs alone, and what any number of tasks keep when they run side by side.
-/

namespace Sections

variable {σ κ α : Type*} {exec : κ → σ → σ × List κ}

/-- A task runs its first section. -/
inductive Step (exec : κ → σ → σ × List κ) : List κ × σ → List κ × σ → Prop where
  | run (first : κ) (rest : List κ) (s : σ) :
      Step exec (first :: rest, s) ((exec first s).2 ++ rest, (exec first s).1)

/-- Alone, the sections take `s` to `t`, whatever the task has to do after them. -/
def Completes (exec : κ → σ → σ × List κ) (sections : List κ) (s t : σ) : Prop :=
  ∀ rest, Relation.ReflTransGen (Step exec) (sections ++ rest, s) (rest, t)

theorem Completes.nil (s : σ) : Completes exec [] s s := fun _ => .refl

theorem Completes.append {before after : List κ} {s t u : σ} (hbefore : Completes exec before s t)
    (hafter : Completes exec after t u) : Completes exec (before ++ after) s u := by
  intro rest
  rw [List.append_assoc]
  exact (hbefore (after ++ rest)).trans (hafter rest)

theorem Completes.run {first : κ} {s t : σ}
    (hnext : Completes exec (exec first s).2 (exec first s).1 t) : Completes exec [first] s t :=
  fun rest => .head (.run first rest s) (hnext rest)

theorem Completes.cons {first : κ} {rest : List κ} {s t u : σ} (hfirst : Completes exec [first] s t)
    (hrest : Completes exec rest t u) : Completes exec (first :: rest) s u :=
  hfirst.append hrest

theorem Completes.foldl {op : α → κ} {f : σ → α → σ}
    (hop : ∀ s a, Completes exec [op a] s (f s a)) (l : List α) (s : σ) :
    Completes exec (l.map op) s (l.foldl f s) := by
  induction l generalizing s with
  | nil => exact .nil s
  | cons a rest ih => exact (hop s a).cons (ih (f s a))

/-- The shared state, and what each task has still to run. -/
structure Tasks (σ κ : Type*) where
  shared : σ
  tasks : List (List κ)

/-- An operation begins as a task of its own, or some task runs its first section. -/
inductive Tasks.Step (exec : κ → σ → σ × List κ) (operation : κ → Prop) :
    Tasks σ κ → Tasks σ κ → Prop where
  | start {first : κ} (hfirst : operation first) (s : σ) (tasks : List (List κ)) :
      Step exec operation ⟨s, tasks⟩ ⟨s, [first] :: tasks⟩
  | run (before after : List (List κ)) (first : κ) (rest : List κ) (s : σ) :
      Step exec operation ⟨s, before ++ (first :: rest) :: after⟩
        ⟨(exec first s).1, before ++ ((exec first s).2 ++ rest) :: after⟩

/-- What holds at the start and is kept by every section alone is kept by all tasks together. -/
theorem Tasks.invariant {start : Tasks σ κ → Prop} {operation : κ → Prop} (inv : σ → Prop)
    (hstart : ∀ s, start s → inv s.shared)
    (hexec : ∀ first s, inv s → inv (exec first s).1) {s : Tasks σ κ}
    (hs : Runs.Reachable start (Tasks.Step exec operation) s) : inv s.shared := by
  apply hs.invariant (fun s => inv s.shared) hstart
  intro s t _ hinv hstep
  cases hstep with
  | start hfirst s tasks => exact hinv
  | run before after first rest s => exact hexec first s hinv

end Sections
