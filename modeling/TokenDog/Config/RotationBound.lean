import TokenDog.Config.Rotation

/-!
# How long the log gets

While the file operations succeed, the writer knows the length of its log, the log is no longer than
its limit or the last buffer, and what one write has accepted is in one file.
-/

namespace TokenDog

namespace RotatingFileWriter

variable {crates : LogCrates} {writer : RotatingFileWriter}

theorem bytesWritten_write (h : writer.bytesWritten = writer.log.length) (call : WriteCall) :
    (writer.write crates call).bytesWritten = (writer.write crates call).log.length := by
  unfold write
  split
  · simp [append, rotate]
  · simp [append, h]

@[simp]
theorem maxSize_write (call : WriteCall) : (writer.write crates call).maxSize = writer.maxSize := by
  unfold write
  split <;> rfl

/-- Behind a rotation the log holds nothing but the buffer, and without one there was room for it or
the log was empty. -/
theorem length_log_write_le (h : writer.bytesWritten = writer.log.length) (call : WriteCall) :
    (writer.write crates call).log.length ≤ max writer.maxSize call.buf.length := by
  have haccepted : call.accepted.length ≤ call.buf.length := List.length_take_le' _ _
  unfold write
  split
  · simp only [append, rotate, List.nil_append]
    omega
  · rename_i hstays
    simp only [append, List.length_append]
    unfold Rotates at hstays
    omega

/-- The pieces of `past` were rotated away, a group at a time and none without content, and those of
`current` are in the log. A backup that was not found at the start holds one of the groups. -/
structure Groups (crates : LogCrates) (found : Files.Directory String (List UInt8))
    (past : List (List (List UInt8))) (current : List (List UInt8)) (writer : RotatingFileWriter) :
    Prop where
  log : writer.log = current.flatten
  full : ∀ group ∈ past, group.flatten ≠ []
  backups : ∀ backup ∈ writer.backups,
    backup ∈ found ∨ ∃ group ∈ past, backup.2 = crates.gzipCompress group.flatten

variable {found : Files.Directory String (List UInt8)} {past : List (List (List UInt8))}
  {current : List (List UInt8)}

theorem Groups.append (h : Groups crates found past current writer) (call : WriteCall) :
    Groups crates found past (current ++ [call.accepted]) (writer.append call) where
  log := by
    rw [List.flatten_append, List.flatten_singleton, ← h.log]
    rfl
  full := h.full
  backups := h.backups

theorem Groups.rotate (h : Groups crates found past current writer) (hlog : writer.log ≠ [])
    (now : Nat) : Groups crates found (past ++ [current]) [] (writer.rotate crates now) where
  log := rfl
  full := by
    rw [List.forall_mem_append, List.forall_mem_singleton, ← h.log]
    exact ⟨h.full, hlog⟩
  backups := by
    intro backup hbackup
    rw [rotate_eq hlog] at hbackup
    rcases Files.eq_or_mem_of_mem_write hbackup with rfl | hmem
    · exact Or.inr ⟨current, by simp, by rw [h.log]⟩
    · rcases h.backups backup hmem with hfound | ⟨group, hgroup, heq⟩
      · exact Or.inl hfound
      · exact Or.inr ⟨group, List.mem_append_left _ hgroup, heq⟩

theorem Groups.write (h : Groups crates found past current writer)
    (hlength : writer.bytesWritten = writer.log.length) (call : WriteCall) :
    ∃ past' current', past'.flatten ++ current' = past.flatten ++ current ++ [call.accepted] ∧
      Groups crates found past' current' (writer.write crates call) := by
  unfold RotatingFileWriter.write
  split
  · rename_i hrotates
    have hlog : writer.log ≠ [] := by
      apply List.ne_nil_of_length_pos
      rw [← hlength]
      exact hrotates.2
    refine ⟨past ++ [current], [call.accepted], ?_, (h.rotate hlog call.now).append call⟩
    rw [List.flatten_append, List.flatten_singleton]
  · exact ⟨past, current ++ [call.accepted], (List.append_assoc _ _ _).symm, h.append call⟩

theorem Groups.run (h : Groups crates found past current writer)
    (hlength : writer.bytesWritten = writer.log.length) (calls : List WriteCall) :
    ∃ past' current',
      past'.flatten ++ current' = past.flatten ++ current ++ calls.map WriteCall.accepted ∧
        Groups crates found past' current' (writer.run crates calls) := by
  induction calls generalizing writer past current with
  | nil => exact ⟨past, current, by simp, h⟩
  | cons call rest ih =>
      obtain ⟨past₁, current₁, hpieces₁, hgroups₁⟩ := h.write hlength call
      obtain ⟨past₂, current₂, hpieces₂, hgroups₂⟩ := ih hgroups₁ (bytesWritten_write hlength call)
      refine ⟨past₂, current₂, ?_, hgroups₂⟩
      rw [hpieces₂, hpieces₁, List.map_cons, List.append_assoc _ [_], List.singleton_append]

theorem bytesWritten_run (h : writer.bytesWritten = writer.log.length) (calls : List WriteCall) :
    (writer.run crates calls).bytesWritten = (writer.run crates calls).log.length := by
  induction calls generalizing writer with
  | nil => exact h
  | cons call rest ih => exact ih (bytesWritten_write h call)

theorem maxSize_run (crates : LogCrates) (writer : RotatingFileWriter) (calls : List WriteCall) :
    (writer.run crates calls).maxSize = writer.maxSize := by
  induction calls generalizing writer with
  | nil => rfl
  | cons call rest ih => exact (ih _).trans (maxSize_write call)

end RotatingFileWriter

/-- The writer after some writes. The pieces are what its file held at first and what each write has
accepted. -/
structure Bounded (crates : LogCrates) (content : List UInt8)
    (found : Files.Directory String (List UInt8)) (maxSize : Nat) (calls : List WriteCall)
    (writer : RotatingFileWriter) : Prop where
  bytesWritten : writer.bytesWritten = writer.log.length
  size : ∀ call ∈ calls.getLast?, writer.log.length ≤ max maxSize call.buf.length
  pieces : ∃ past current,
    past.flatten ++ current = content :: calls.map WriteCall.accepted ∧
      RotatingFileWriter.Groups crates found past current writer

theorem RotatingFileWriter.bounded_run (crates : LogCrates) {writer : RotatingFileWriter}
    (h : writer.bytesWritten = writer.log.length) (calls : List WriteCall) :
    Bounded crates writer.log writer.backups writer.maxSize calls (writer.run crates calls) where
  bytesWritten := bytesWritten_run h calls
  size := by
    intro call hlast
    obtain ⟨before, rfl⟩ := List.getLast?_eq_some_iff.mp hlast
    have hrun : writer.run crates (before ++ [call]) =
        (writer.run crates before).write crates call :=
      List.foldl_append
    rw [hrun, ← maxSize_run crates writer before]
    exact length_log_write_le (bytesWritten_run h before) call
  pieces := by
    have hstart : Groups crates writer.backups [] [writer.log] writer :=
      ⟨by simp, by simp, fun _ hbackup => Or.inl hbackup⟩
    exact hstart.run h calls

namespace SharedWriter

/-- For every initial content, limit and sequence of writes, each of which accepts what it likes of
its buffer: all of them return, and the log is bounded after the last one. -/
theorem bounded_after_writes (crates : LogCrates) (fileName : Option String) (content : List UInt8)
    (found : Files.Directory String (List UInt8)) (maxSize : Nat) (calls : List WriteCall) :
    Bounded crates content found maxSize calls
        ((new fileName content found maxSize).after crates
          (calls.map WriteCall.logCall)).value.toRotatingFileWriter ∧
      ∀ call : WriteCall, (((new fileName content found maxSize).after crates
        (calls.map WriteCall.logCall)).serve crates call.logCall).1 =
          .ok (.ok call.accepted.length) := by
  have hcarries := (carries_new fileName content found maxSize).after crates calls
  refine ⟨?_, fun call => (hcarries.serve crates call).1⟩
  rw [hcarries.2.1]
  exact @RotatingFileWriter.bounded_run crates
    { RotatingFileWriter.new fileName content maxSize with backups := found } rfl calls

end SharedWriter

end TokenDog
