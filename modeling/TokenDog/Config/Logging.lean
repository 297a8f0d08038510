import TokenDog.Lib.Files
import Mathlib.Algebra.Group.Nat.Defs

/-!
# Log rotation

`RotatingFileWriter` moves the log to a compressed backup before a write that would make it too long.
The backup is named after the second of the rotation, and a file of that name is replaced.

Clones share one writer behind a mutex, so that writes through any of them are calls on it one after
the other. Every file operation succeeds; a write may take only a part of the buffer.
-/

namespace TokenDog

/-- The crates behind the writer: gzip, and the local time of an instant, formatted to the second. -/
structure LogCrates where
  gzipCompress : List UInt8 → List UInt8
  decompress : List UInt8 → List UInt8
  localTime : Nat → String

def LogCrates.Lossless (crates : LogCrates) : Prop :=
  ∀ data, crates.decompress (crates.gzipCompress data) = data

/-- The writer, the file it appends to and the backups beside it. -/
structure RotatingFileWriter where
  bytesWritten : Nat
  maxSize : Nat
  fileName : Option String
  log : List UInt8
  backups : Files.Directory String (List UInt8)

/-- A call of `write`, the time at which it rotates if it does, and how many bytes the file takes. -/
structure WriteCall where
  buf : List UInt8
  now : Nat
  taken : Nat

/-- The bytes a call reports as written. -/
def WriteCall.accepted (call : WriteCall) : List UInt8 := call.buf.take call.taken

namespace RotatingFileWriter

/-- Open a file for appending. Its name is `none` where it is not valid Unicode. -/
def new (fileName : Option String) (content : List UInt8) (maxSize : Nat) : RotatingFileWriter :=
  ⟨content.length, maxSize, fileName, content, []⟩

def makeBackupPath (crates : LogCrates) (fileName : Option String) (now : Nat) : String :=
  fileName.getD "router.log" ++ "." ++ crates.localTime now ++ ".gz"

def rotate (crates : LogCrates) (writer : RotatingFileWriter) (now : Nat) : RotatingFileWriter :=
  let content := writer.log
  let backups :=
    if content.isEmpty then writer.backups
    else Files.write (makeBackupPath crates writer.fileName now) (crates.gzipCompress content)
      writer.backups
  { writer with log := [], bytesWritten := 0, backups }

def Rotates (writer : RotatingFileWriter) (buf : List UInt8) : Prop :=
  writer.maxSize < writer.bytesWritten + buf.length ∧ 0 < writer.bytesWritten

instance (writer : RotatingFileWriter) (buf : List UInt8) : Decidable (writer.Rotates buf) :=
  inferInstanceAs (Decidable (_ ∧ _))

def append (writer : RotatingFileWriter) (call : WriteCall) : RotatingFileWriter :=
  { writer with
    log := writer.log ++ call.accepted
    bytesWritten := writer.bytesWritten + call.accepted.length }

def write (crates : LogCrates) (writer : RotatingFileWriter) (call : WriteCall) :
    RotatingFileWriter :=
  if writer.Rotates call.buf then (writer.rotate crates call.now).append call
  else writer.append call

/-- The backups, decompressed, and the log behind them. -/
def stored (crates : LogCrates) (writer : RotatingFileWriter) : List UInt8 :=
  Files.contents crates.decompress writer.backups ++ writer.log

/-- The writer knows the length of its file, and no backup is empty. -/
structure Sound (crates : LogCrates) (writer : RotatingFileWriter) : Prop where
  bytesWritten_eq : writer.bytesWritten = writer.log.length
  backups_ne_nil : ∀ file ∈ writer.backups, crates.decompress file.2 ≠ []

/-- A backup that the call makes gets a name of its own. -/
def NewName (crates : LogCrates) (writer : RotatingFileWriter) (call : WriteCall) : Prop :=
  writer.Rotates call.buf →
    makeBackupPath crates writer.fileName call.now ∉ Files.names writer.backups

instance (crates : LogCrates) (writer : RotatingFileWriter) (call : WriteCall) :
    Decidable (writer.NewName crates call) :=
  inferInstanceAs (Decidable (_ → _))

variable {crates : LogCrates} {writer : RotatingFileWriter}

theorem sound_new (fileName : Option String) (content : List UInt8) (maxSize : Nat) :
    (new fileName content maxSize).Sound crates :=
  ⟨rfl, fun _ hmem => (List.not_mem_nil hmem).elim⟩

theorem Sound.append (h : writer.Sound crates) (call : WriteCall) :
    (writer.append call).Sound crates where
  bytesWritten_eq := by
    simp only [RotatingFileWriter.append, List.length_append]
    rw [h.bytesWritten_eq]
  backups_ne_nil := h.backups_ne_nil

theorem Sound.log_ne_nil (h : writer.Sound crates) {buf : List UInt8}
    (hrotates : writer.Rotates buf) : writer.log ≠ [] := by
  apply List.ne_nil_of_length_pos
  rw [← h.bytesWritten_eq]
  exact hrotates.2

theorem rotate_eq (hlog : writer.log ≠ []) (now : Nat) :
    writer.rotate crates now =
      { writer with
        log := []
        bytesWritten := 0
        backups := Files.write (makeBackupPath crates writer.fileName now)
          (crates.gzipCompress writer.log) writer.backups } := by
  have hempty : writer.log.isEmpty = false := by simpa using hlog
  simp only [rotate, hempty, Bool.false_eq_true, if_false]

theorem Sound.rotate (hcrates : crates.Lossless) (h : writer.Sound crates)
    (hlog : writer.log ≠ []) (now : Nat) : (writer.rotate crates now).Sound crates := by
  have hcontent : crates.decompress (crates.gzipCompress writer.log) ≠ [] := by
    rw [hcrates]
    exact hlog
  rw [rotate_eq hlog]
  exact ⟨rfl, Files.forall_mem_write (P := fun data => crates.decompress data ≠ []) hcontent
    h.backups_ne_nil⟩

theorem stored_append (call : WriteCall) :
    (writer.append call).stored crates = writer.stored crates ++ call.accepted :=
  (List.append_assoc _ _ _).symm

theorem stored_rotate (hcrates : crates.Lossless) (hlog : writer.log ≠ []) {now : Nat}
    (hnew : makeBackupPath crates writer.fileName now ∉ Files.names writer.backups) :
    (writer.rotate crates now).stored crates = writer.stored crates := by
  rw [rotate_eq hlog]
  change Files.contents crates.decompress (Files.write _ _ writer.backups) ++ [] = _
  rw [Files.contents_write_of_not_mem _ _ hnew, hcrates, List.append_nil]
  rfl

theorem length_stored_rotate_lt (hcrates : crates.Lossless) (h : writer.Sound crates)
    (hlog : writer.log ≠ []) {now : Nat}
    (hold : makeBackupPath crates writer.fileName now ∈ Files.names writer.backups) :
    ((writer.rotate crates now).stored crates).length < (writer.stored crates).length := by
  have hlost := Files.length_contents_write_lt crates.decompress (crates.gzipCompress writer.log)
    hold h.backups_ne_nil
  rw [hcrates] at hlost
  rw [rotate_eq hlog]
  simpa only [stored, List.append_nil, List.length_append] using hlost

theorem Sound.write (hcrates : crates.Lossless) (h : writer.Sound crates) (call : WriteCall) :
    (writer.write crates call).Sound crates := by
  unfold RotatingFileWriter.write
  split
  · rename_i hrotates
    exact (h.rotate hcrates (h.log_ne_nil hrotates) call.now).append call
  · exact h.append call

theorem stored_write (hcrates : crates.Lossless) (h : writer.Sound crates) {call : WriteCall}
    (hnew : writer.NewName crates call) :
    (writer.write crates call).stored crates = writer.stored crates ++ call.accepted := by
  unfold write
  split
  · rename_i hrotates
    rw [stored_append, stored_rotate hcrates (h.log_ne_nil hrotates) (hnew hrotates)]
  · exact stored_append call

theorem length_stored_write_lt (hcrates : crates.Lossless) (h : writer.Sound crates)
    {call : WriteCall} (hold : ¬writer.NewName crates call) :
    ((writer.write crates call).stored crates).length <
      (writer.stored crates).length + call.accepted.length := by
  obtain ⟨hrotates, htaken⟩ := Classical.not_imp.mp hold
  rw [write, if_pos hrotates, stored_append, List.length_append, Nat.add_lt_add_iff_right]
  exact length_stored_rotate_lt hcrates h (h.log_ne_nil hrotates) (Classical.not_not.mp htaken)

theorem length_stored_write_le (hcrates : crates.Lossless) (h : writer.Sound crates)
    (call : WriteCall) : ((writer.write crates call).stored crates).length ≤
      (writer.stored crates).length + call.accepted.length := by
  by_cases hnew : writer.NewName crates call
  · apply Nat.le_of_eq
    rw [stored_write hcrates h hnew, List.length_append]
  · exact Nat.le_of_lt (length_stored_write_lt hcrates h hnew)

def run (crates : LogCrates) (writer : RotatingFileWriter) (calls : List WriteCall) :
    RotatingFileWriter :=
  calls.foldl (write crates) writer

def accepted (calls : List WriteCall) : List UInt8 := calls.flatMap WriteCall.accepted

def NewNames (crates : LogCrates) (writer : RotatingFileWriter) : List WriteCall → Prop
  | [] => True
  | call :: rest => writer.NewName crates call ∧ NewNames crates (writer.write crates call) rest

theorem accepted_cons (call : WriteCall) (rest : List WriteCall) :
    accepted (call :: rest) = call.accepted ++ accepted rest := List.flatMap_cons

theorem length_stored_run_le (hcrates : crates.Lossless) (h : writer.Sound crates)
    (calls : List WriteCall) : ((writer.run crates calls).stored crates).length ≤
      (writer.stored crates).length + (accepted calls).length := by
  induction calls generalizing writer with
  | nil => exact Nat.le_refl _
  | cons call rest ih =>
      calc ((writer.run crates (call :: rest)).stored crates).length
        _ ≤ ((writer.write crates call).stored crates).length + (accepted rest).length :=
          ih (h.write hcrates call)
        _ ≤ (writer.stored crates).length + call.accepted.length + (accepted rest).length :=
          Nat.add_le_add_right (length_stored_write_le hcrates h call) _
        _ = (writer.stored crates).length + (accepted (call :: rest)).length := by
          rw [accepted_cons, List.length_append, Nat.add_assoc]

/-- What a run loses it never gets back: nothing is lost exactly if all names are new. -/
theorem stored_run_iff (hcrates : crates.Lossless) (h : writer.Sound crates)
    (calls : List WriteCall) :
    (writer.run crates calls).stored crates = writer.stored crates ++ accepted calls ↔
      writer.NewNames crates calls := by
  induction calls generalizing writer with
  | nil => exact ⟨fun _ => trivial, fun _ => (List.append_nil _).symm⟩
  | cons call rest ih =>
      have hrun : writer.run crates (call :: rest) = (writer.write crates call).run crates rest :=
        rfl
      have hsound := h.write hcrates call
      by_cases hnew : writer.NewName crates call
      · rw [hrun, accepted_cons, ← List.append_assoc, ← stored_write hcrates h hnew, ih hsound]
        exact ⟨fun hrest => ⟨hnew, hrest⟩, And.right⟩
      · refine iff_of_false (fun heq => ?_) fun hnames => hnew hnames.1
        have hlost := length_stored_write_lt hcrates h hnew
        have hrest := length_stored_run_le hcrates hsound rest
        have hlength := congrArg List.length heq
        rw [hrun, accepted_cons, List.length_append, List.length_append] at hlength
        omega

/-- After any calls on a new writer, the backups and the log hold what the file held at first and
what was accepted since, exactly if every rotation found a name that no backup had. -/
theorem stored_iff_newNames (hcrates : crates.Lossless) (fileName : Option String)
    (content : List UInt8) (maxSize : Nat) (calls : List WriteCall) :
    ((new fileName content maxSize).run crates calls).stored crates = content ++ accepted calls ↔
      (new fileName content maxSize).NewNames crates calls :=
  stored_run_iff hcrates (sound_new fileName content maxSize) calls

/-- Compression that puts the magic bytes in front, and a clock in nanoseconds that starts with the
epoch. -/
def plainLogCrates : LogCrates where
  gzipCompress data := 31 :: 139 :: data
  decompress data := data.drop 2
  localTime now := if now < 10 ^ 9 then "1970-01-01T00-00-00" else "1970-01-01T00-00-01"

/-- Three bytes in a log of one byte, in half-second steps: the second rotation falls into the second
of the first one and the first byte is lost. -/
theorem not_stored_of_two_rotations :
    plainLogCrates.Lossless ∧
      ((new (some "router.log") [] 1).run plainLogCrates
          [⟨[97], 0, 1⟩, ⟨[98], 0, 1⟩, ⟨[99], 500000000, 1⟩]).stored plainLogCrates = [98, 99] ∧
      [] ++ accepted [⟨[97], 0, 1⟩, ⟨[98], 0, 1⟩, ⟨[99], 500000000, 1⟩] = [97, 98, 99] :=
  ⟨fun _ => rfl, by decide, by decide⟩

/-- A second later nothing is lost. -/
theorem stored_of_two_rotations :
    ((new (some "router.log") [] 1).run plainLogCrates
        [⟨[97], 0, 1⟩, ⟨[98], 0, 1⟩, ⟨[99], 1000000000, 1⟩]).stored plainLogCrates =
      [] ++ accepted [⟨[97], 0, 1⟩, ⟨[98], 0, 1⟩, ⟨[99], 1000000000, 1⟩] := by
  refine (stored_iff_newNames (fun _ => rfl) _ _ _ _).mpr ⟨?_, ?_, ?_, trivial⟩
  · decide
  · decide
  · decide

end RotatingFileWriter

end TokenDog
