import Mathlib.Tactic.Common

/-!
# A mutex that is poisoned by a panic

A section runs on the value behind the mutex and may fail halfway. The value stays as the section
left it, and after a failure nobody gets in any more.
-/

namespace Locks

variable {σ ε α : Type*}

structure Mutex (σ : Type*) where
  value : σ
  poisoned : Bool

namespace Mutex

/-- A mutex around a value that nobody has locked yet. -/
def new (value : σ) : Mutex σ := ⟨value, false⟩

/-- Run a section under the lock. `refused` is what a poisoned mutex answers. -/
def lock (refused : ε) (body : σ → Except ε α × σ) (mutex : Mutex σ) : Except ε α × Mutex σ :=
  if mutex.poisoned then (.error refused, mutex)
  else
    let (result, value) := body mutex.value
    (result, ⟨value, !result.isOk⟩)

variable {refused : ε} {body : σ → Except ε α × σ} {mutex : Mutex σ}

theorem lock_of_ok (h : mutex.poisoned = false) {a : α} {value : σ}
    (hbody : body mutex.value = (.ok a, value)) :
    mutex.lock refused body = (.ok a, new value) := by
  rw [lock, if_neg (by simp [h]), hbody]
  rfl

theorem lock_of_error (h : mutex.poisoned = false) {e : ε} {value : σ}
    (hbody : body mutex.value = (.error e, value)) :
    mutex.lock refused body = (.error e, ⟨value, true⟩) := by
  rw [lock, if_neg (by simp [h]), hbody]
  rfl

end Mutex

end Locks
