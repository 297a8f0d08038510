import TokenDog.Config.Rotation

/-!
# After a failed rotation

A rotation that fails returns its error and leaves the log as it was, but it does not put the handle
back. A flush copes with that; the next write panics under the lock and poisons it.
-/

namespace TokenDog

def LogCall.IsFlush : LogCall → Prop
  | .write .. => False
  | .flush _ => True

namespace SharedWriter

variable {crates : LogCrates} {shared : SharedWriter}

/-- The call rotates, and a step of the rotation fails. -/
def FailsToRotate (shared : SharedWriter) : LogCall → Prop
  | .write buf _ ops => shared.value.Rotates buf ∧ ∃ e, shared.value.rotation ops = .error e
  | .flush _ => False

/-- One call on a usable writer: it does not panic, it returns the error of a failed rotation
and has lost nothing, and it accepts what it can when all operations succeed. -/
structure Serves (crates : LogCrates) (shared : SharedWriter) (call : LogCall) : Prop where
  returns : ∃ result, (shared.serve crates call).1 = .ok result
  failure : ∀ buf now ops e, call = .write buf now ops → shared.value.Rotates buf →
    shared.value.rotation ops = .error e →
      (shared.serve crates call).1 = .ok (.error e) ∧
        (shared.serve crates call).2.value.log = shared.value.log ∧
        shared.value.KeepsBackups crates now (shared.serve crates call).2.value.backups
  accepts : ∀ write : WriteCall, call = write.logCall →
    (shared.serve crates call).1 = .ok (.ok write.accepted.length)

/-- Every call of the run finds the writer usable. -/
def Usable (crates : LogCrates) (shared : SharedWriter) : List LogCall → Prop
  | [] => True
  | call :: rest => Serves crates shared call ∧ Usable crates (shared.serve crates call).2 rest

/-- After a rotation that fails there are only flushes. -/
def Spared (crates : LogCrates) (shared : SharedWriter) : List LogCall → Prop
  | [] => True
  | call :: rest => (shared.FailsToRotate call → ∀ later ∈ rest, later.IsFlush) ∧
      Spared crates (shared.serve crates call).2 rest

def Open (shared : SharedWriter) : Prop :=
  shared.poisoned = false ∧ ∃ file, shared.value.file = some file

def Closed (shared : SharedWriter) : Prop :=
  shared.poisoned = false ∧ shared.value.file = none

theorem serve_of_ok (h : shared.poisoned = false) {call : LogCall} {result : IoResult Nat}
    {inner : RotatingInner} (hcall : shared.value.call crates call = (.ok result, inner)) :
    shared.serve crates call = (.ok result, Locks.Mutex.new inner) := by
  unfold serve
  exact Locks.Mutex.lock_of_ok h hcall

theorem Open.serve (h : shared.Open) (crates : LogCrates) {call : LogCall}
    (hrotates : ¬shared.FailsToRotate call) :
    Serves crates shared call ∧ Open (shared.serve crates call).2 := by
  obtain ⟨hpoisoned, file, hopen⟩ := h
  cases call with
  | flush result =>
      have hserve : shared.serve crates (.flush result) = _ := serve_of_ok hpoisoned rfl
      refine ⟨⟨?_, nofun, nofun⟩, ?_⟩
      · rw [hserve]
        exact ⟨_, rfl⟩
      · rw [hserve]
        exact ⟨rfl, file, hopen⟩
  | write buf now ops =>
      have hrotation : shared.value.Rotates buf → shared.value.rotation ops = .ok () := by
        intro hbuf
        cases hresult : shared.value.rotation ops with
        | ok _ => rfl
        | error e => exact (hrotates ⟨hbuf, e, hresult⟩).elim
      obtain ⟨inner, hwrite, hopen'⟩ :=
        @RotatingInner.write_of_open crates _ _ hopen buf now ops hrotation
      have hserve : shared.serve crates (.write buf now ops) = _ := serve_of_ok hpoisoned hwrite
      refine ⟨⟨?_, ?_, ?_⟩, ?_⟩
      · rw [hserve]
        exact ⟨_, rfl⟩
      · rintro _ _ _ e ⟨⟩ hbuf hfails
        rw [hrotation hbuf] at hfails
        cases hfails
      · rintro write heq
        rw [hserve]
        cases heq
        rfl
      · rw [hserve]
        exact ⟨rfl, hopen'⟩

theorem Open.serve_failing (h : shared.Open) (crates : LogCrates) {call : LogCall}
    (hfails : shared.FailsToRotate call) :
    Serves crates shared call ∧ Closed (shared.serve crates call).2 := by
  obtain ⟨hpoisoned, file, hopen⟩ := h
  cases call with
  | flush result => exact hfails.elim
  | write buf now ops =>
      obtain ⟨hbuf, e, hrotation⟩ := hfails
      obtain ⟨backups, hkeeps, hwrite⟩ :=
        @RotatingInner.write_of_failed_rotation crates _ _ hopen buf hbuf now ops e hrotation
      have hserve : shared.serve crates (.write buf now ops) = _ := serve_of_ok hpoisoned hwrite
      refine ⟨⟨?_, ?_, ?_⟩, ?_⟩
      · rw [hserve]
        exact ⟨_, rfl⟩
      · rintro _ _ _ e' ⟨⟩ - hfails
        cases hrotation.symm.trans hfails
        rw [hserve]
        exact ⟨rfl, rfl, hkeeps⟩
      · rintro write heq
        cases heq
        rw [RotatingInner.rotation_succeeding] at hrotation
        cases hrotation
      · rw [hserve]
        exact ⟨rfl, rfl⟩

theorem Closed.serve_flush (h : shared.Closed) (crates : LogCrates) (result : IoResult Unit) :
    Serves crates shared (.flush result) ∧ Closed (shared.serve crates (.flush result)).2 := by
  have hserve : shared.serve crates (.flush result) = _ := serve_of_ok h.1 rfl
  refine ⟨⟨?_, nofun, nofun⟩, ?_⟩
  · rw [hserve]
    exact ⟨_, rfl⟩
  · rw [hserve]
    exact ⟨rfl, h.2⟩

/-- A write that finds no handle panics under the lock. -/
theorem Closed.serve_write (h : shared.Closed) (buf : List UInt8) (now : Nat) (ops : FileOps) :
    shared.serve crates (.write buf now ops) = (.error .unwrapOnNone, ⟨shared.value, true⟩) := by
  unfold serve
  apply Locks.Mutex.lock_of_error h.1
  exact RotatingInner.write_of_closed h.2 buf now ops

/-- Without the handle, the writer is usable as long as nobody writes. -/
theorem Closed.usable_iff (h : shared.Closed) (crates : LogCrates) (calls : List LogCall) :
    Usable crates shared calls ↔ ∀ call ∈ calls, call.IsFlush := by
  induction calls generalizing shared with
  | nil => exact iff_of_true trivial (by simp)
  | cons call rest ih =>
      rw [List.forall_mem_cons]
      cases call with
      | flush result =>
          obtain ⟨hserves, hclosed⟩ := h.serve_flush crates result
          exact and_congr (iff_of_true hserves trivial) (ih hclosed)
      | write buf now ops =>
          refine iff_of_false ?_ fun hflush => hflush.1
          rintro ⟨⟨⟨result, hreturns⟩, -, -⟩, -⟩
          rw [h.serve_write] at hreturns
          cases hreturns

theorem spared_of_flushes {calls : List LogCall} (hflush : ∀ call ∈ calls, call.IsFlush) :
    Spared crates shared calls := by
  induction calls generalizing shared with
  | nil => trivial
  | cons call rest ih =>
      rw [List.forall_mem_cons] at hflush
      exact ⟨fun _ => hflush.2, ih hflush.2⟩

/-- From any writer that has its handle, a run finds it usable exactly if no write comes after a
rotation that failed. -/
theorem usable_iff_spared (crates : LogCrates) (h : shared.Open) (calls : List LogCall) :
    Usable crates shared calls ↔ Spared crates shared calls := by
  induction calls generalizing shared with
  | nil => exact Iff.rfl
  | cons call rest ih =>
      by_cases hfails : shared.FailsToRotate call
      · obtain ⟨hserves, hclosed⟩ := h.serve_failing crates hfails
        constructor
        · rintro ⟨-, husable⟩
          have hflush := (hclosed.usable_iff crates rest).mp husable
          exact ⟨fun _ => hflush, spared_of_flushes hflush⟩
        · rintro ⟨hflush, -⟩
          exact ⟨hserves, (hclosed.usable_iff crates rest).mpr (hflush hfails)⟩
      · obtain ⟨hserves, hopen⟩ := h.serve crates hfails
        exact and_congr (iff_of_true hserves fun hrotation => (hfails hrotation).elim) (ih hopen)

/-- The disk is full when the backup is written. -/
def diskFull : FileOps := { FileOps.succeeding 1 with backup := .error ⟨"No space left on device"⟩ }

/-- One byte in the log, which is its limit. -/
def oneByte : SharedWriter := new (some "router.log") [97] [] 1

/-- A flush follows. -/
theorem usable_with_flush :
    Usable RotatingFileWriter.plainLogCrates oneByte [.write [98] 0 diskFull, .flush (.ok ())] :=
  (usable_iff_spared RotatingFileWriter.plainLogCrates ⟨rfl, .appending, rfl⟩ _).mpr
    ⟨fun _ => List.forall_mem_singleton.mpr trivial, nofun, trivial⟩

/-- The same byte is written again, with room on the disk. -/
theorem not_usable_with_write :
    ¬Usable RotatingFileWriter.plainLogCrates oneByte
      [.write [98] 0 diskFull, .write [98] 0 (.succeeding 1)] := by
  rintro ⟨-, ⟨⟨result, hreturns⟩, -, -⟩, -⟩
  cases hreturns

end SharedWriter

end TokenDog
