import TokenDog.Config.Logging
import TokenDog.Lib.Mutex
import TokenDog.Policies.Basic

/-!
# Rotation step by step

`RotatingInner` with its file handle and the outcome of every file operation. A rotation takes the
handle out first and puts a new one in last. Where all operations succeed, the writer behind the
mutex is the one of `Config/Logging`.

The lengths of a file and of a buffer are below `2 ^ 63`, so that their sum does not overflow.
-/

namespace TokenDog

structure IoError where
  text : String
  deriving DecidableEq, Repr

abbrev IoResult (α : Type) := Except IoError α

/-- An open file, by where the next bytes go. -/
inductive File where
  | appending
  | positioned (offset : Nat)
  deriving DecidableEq, Repr

def File.write (file : File) (data content : List UInt8) : File × List UInt8 :=
  match file with
  | appending => (appending, content ++ data)
  | positioned offset => (positioned (offset + data.length),
      content.take offset ++ data ++ content.drop (offset + data.length))

/-- The next bytes go to the end of the content. -/
def File.AtEnd (file : File) (content : List UInt8) : Prop :=
  match file with
  | appending => True
  | positioned offset => offset = content.length

theorem File.write_of_atEnd {file : File} {content : List UInt8} (h : file.AtEnd content)
    (data : List UInt8) :
    (file.write data content).2 = content ++ data ∧
      (file.write data content).1.AtEnd (content ++ data) := by
  cases file with
  | appending => exact ⟨rfl, trivial⟩
  | positioned offset =>
      cases h
      simp [File.write, File.AtEnd]

/-- How the file operations of a call of `write` end: those of the rotation, in this order, and the
write itself, which may take a part of the buffer. A backup that fails leaves behind no file, or one
with the first bytes. -/
structure FileOps where
  flush : IoResult Unit
  read : IoResult Unit
  compress : IoResult Unit
  backup : IoResult Unit
  leftBehind : Option Nat
  reopen : IoResult Unit
  write : IoResult Nat

def FileOps.succeeding (taken : Nat) : FileOps where
  flush := .ok ()
  read := .ok ()
  compress := .ok ()
  backup := .ok ()
  leftBehind := none
  reopen := .ok ()
  write := .ok taken

structure RotatingInner extends RotatingFileWriter where
  file : Option File

namespace RotatingInner

/-- The log is opened for appending. -/
def new (fileName : Option String) (content : List UInt8)
    (backups : Files.Directory String (List UInt8)) (maxSize : Nat) : RotatingInner :=
  { RotatingFileWriter.new fileName content maxSize with backups, file := some .appending }

/-- `fs::read(..).unwrap_or_default()`. -/
def content (inner : RotatingInner) (ops : FileOps) : List UInt8 :=
  match ops.read with
  | .ok _ => inner.log
  | .error _ => []

/-- Compress the content to a backup, unless there is none. -/
def backUp (crates : LogCrates) (inner : RotatingInner) (now : Nat) (ops : FileOps) :
    IoResult Unit × RotatingInner :=
  if (inner.content ops).isEmpty then (.ok (), inner)
  else
    match ops.compress with
    | .error e => (.error e, inner)
    | .ok _ =>
        let compressed := crates.gzipCompress (inner.content ops)
        let backupPath := RotatingFileWriter.makeBackupPath crates inner.fileName now
        match ops.backup, ops.leftBehind with
        | .ok _, _ =>
            (.ok (), { inner with backups := Files.write backupPath compressed inner.backups })
        | .error e, some n =>
            (.error e,
              { inner with backups := Files.write backupPath (compressed.take n) inner.backups })
        | .error e, none => (.error e, inner)

def rotate (crates : LogCrates) (inner : RotatingInner) (now : Nat) (ops : FileOps) :
    Except Panic (IoResult Unit) × RotatingInner :=
  match inner.file with
  | none => (.error .unwrapOnNone, inner)
  | some _ =>
      let inner := { inner with file := none }
      match ops.flush with
      | .error e => (.ok (.error e), inner)
      | .ok _ =>
          match inner.backUp crates now ops with
          | (.error e, inner) => (.ok (.error e), inner)
          | (.ok _, inner) =>
              match ops.reopen with
              | .error e => (.ok (.error e), inner)
              | .ok _ =>
                  (.ok (.ok ()),
                    { inner with file := some (.positioned 0), log := [], bytesWritten := 0 })

/-- The write to the file, behind the rotation. -/
def writeFile (inner : RotatingInner) (buf : List UInt8) (ops : FileOps) :
    Except Panic (IoResult Nat) × RotatingInner :=
  match inner.file with
  | none => (.error .unwrapOnNone, inner)
  | some file =>
      match ops.write with
      | .error e => (.ok (.error e), inner)
      | .ok taken =>
          let accepted := buf.take taken
          let (file, log) := file.write accepted inner.log
          (.ok (.ok accepted.length),
            { inner with file := some file, log, bytesWritten := inner.bytesWritten + accepted.length })

def write (crates : LogCrates) (inner : RotatingInner) (buf : List UInt8) (now : Nat)
    (ops : FileOps) : Except Panic (IoResult Nat) × RotatingInner :=
  if inner.Rotates buf then
    match inner.rotate crates now ops with
    | (.ok (.ok _), inner) => inner.writeFile buf ops
    | (.ok (.error e), inner) => (.ok (.error e), inner)
    | (.error panic, inner) => (.error panic, inner)
  else inner.writeFile buf ops

def flush (inner : RotatingInner) (result : IoResult Unit) : IoResult Unit :=
  match inner.file with
  | some _ => result
  | none => .ok ()

def backingUp (inner : RotatingInner) (ops : FileOps) : IoResult Unit :=
  if (inner.content ops).isEmpty then .ok ()
  else do
    ops.compress
    ops.backup

/-- The steps of a rotation, up to the first one that fails. -/
def rotation (inner : RotatingInner) (ops : FileOps) : IoResult Unit := do
  ops.flush
  inner.backingUp ops
  ops.reopen

/-- The backups of any other name than that of the rotation are still there. -/
def KeepsBackups (crates : LogCrates) (inner : RotatingInner) (now : Nat)
    (backups : Files.Directory String (List UInt8)) : Prop :=
  ∀ backup ∈ inner.backups,
    backup.1 ≠ RotatingFileWriter.makeBackupPath crates inner.fileName now → backup ∈ backups

variable {crates : LogCrates} {inner : RotatingInner} {file : File}

theorem backUp_spec (crates : LogCrates) (inner : RotatingInner) (now : Nat) (ops : FileOps) :
    ∃ backups, inner.backUp crates now ops = (inner.backingUp ops, { inner with backups }) ∧
      inner.KeepsBackups crates now backups := by
  unfold backUp backingUp
  split
  · exact ⟨inner.backups, rfl, fun _ hbackup _ => hbackup⟩
  · cases hcompress : ops.compress with
    | error e => exact ⟨inner.backups, rfl, fun _ hbackup _ => hbackup⟩
    | ok _ =>
        cases hbackup : ops.backup with
        | ok _ => exact ⟨_, rfl, fun _ hmem hname => Files.mem_write_of_ne _ hmem hname⟩
        | error e =>
            cases hleft : ops.leftBehind with
            | none => exact ⟨inner.backups, rfl, fun _ hbackup _ => hbackup⟩
            | some n => exact ⟨_, rfl, fun _ hmem hname => Files.mem_write_of_ne _ hmem hname⟩

/-- What is left of the writer behind a rotation with the given outcome and the given backups. -/
def rotated (inner : RotatingInner) (backups : Files.Directory String (List UInt8)) :
    IoResult Unit → RotatingInner
  | .ok _ => { inner with file := some (.positioned 0), log := [], bytesWritten := 0, backups }
  | .error _ => { inner with file := none, backups }

theorem rotate_spec (hopen : inner.file = some file) (now : Nat) (ops : FileOps) :
    ∃ backups, inner.KeepsBackups crates now backups ∧
      inner.rotate crates now ops =
        (.ok (inner.rotation ops), inner.rotated backups (inner.rotation ops)) := by
  unfold rotation rotate
  rw [hopen]
  cases hflush : ops.flush with
  | error e => exact ⟨inner.backups, fun _ hbackup _ => hbackup, rfl⟩
  | ok _ =>
      obtain ⟨backups, hbackUp, hkeeps⟩ := backUp_spec crates { inner with file := none } now ops
      refine ⟨backups, hkeeps, ?_⟩
      dsimp only
      rw [hbackUp]
      change _ = (Except.ok (inner.backingUp ops >>= fun _ => ops.reopen),
        inner.rotated backups (inner.backingUp ops >>= fun _ => ops.reopen))
      have hsame : RotatingInner.backingUp { inner with file := none } ops = inner.backingUp ops := rfl
      rw [hsame]
      cases inner.backingUp ops with
      | error e => rfl
      | ok _ => cases ops.reopen <;> rfl

theorem writeFile_of_open (hopen : inner.file = some file) (buf : List UInt8) (ops : FileOps) :
    ∃ inner', inner.writeFile buf ops =
        (.ok (ops.write.map fun taken => (buf.take taken).length), inner') ∧
      ∃ file', inner'.file = some file' := by
  unfold writeFile
  rw [hopen]
  cases ops.write with
  | error e => exact ⟨inner, rfl, file, hopen⟩
  | ok taken => exact ⟨_, rfl, _, rfl⟩

theorem write_of_open (hopen : inner.file = some file) {buf : List UInt8} (now : Nat) {ops : FileOps}
    (hrotation : inner.Rotates buf → inner.rotation ops = .ok ()) :
    ∃ inner', inner.write crates buf now ops =
        (.ok (ops.write.map fun taken => (buf.take taken).length), inner') ∧
      ∃ file', inner'.file = some file' := by
  unfold write
  split
  · rename_i hrotates
    obtain ⟨backups, -, hrotate⟩ := @rotate_spec crates _ _ hopen now ops
    rw [hrotate, hrotation hrotates]
    exact writeFile_of_open rfl buf ops
  · exact writeFile_of_open hopen buf ops

theorem write_of_failed_rotation (hopen : inner.file = some file) {buf : List UInt8}
    (hrotates : inner.Rotates buf) (now : Nat) {ops : FileOps} {e : IoError}
    (hrotation : inner.rotation ops = .error e) :
    ∃ backups, inner.KeepsBackups crates now backups ∧
      inner.write crates buf now ops = (.ok (.error e), { inner with file := none, backups }) := by
  obtain ⟨backups, hkeeps, hrotate⟩ := @rotate_spec crates _ _ hopen now ops
  refine ⟨backups, hkeeps, ?_⟩
  rw [write, if_pos hrotates, hrotate, hrotation]
  rfl

theorem writeFile_of_closed (hclosed : inner.file = none) (buf : List UInt8) (ops : FileOps) :
    inner.writeFile buf ops = (.error .unwrapOnNone, inner) := by
  rw [writeFile, hclosed]

/-- Without a handle every write panics, whether it rotates or not. -/
theorem write_of_closed (hclosed : inner.file = none) (buf : List UInt8) (now : Nat) (ops : FileOps) :
    inner.write crates buf now ops = (.error .unwrapOnNone, inner) := by
  have hrotate : inner.rotate crates now ops = (.error .unwrapOnNone, inner) := by
    rw [rotate, hclosed]
  unfold write
  split
  · rw [hrotate]
  · exact writeFile_of_closed hclosed buf ops

theorem rotation_succeeding (inner : RotatingInner) (taken : Nat) :
    inner.rotation (.succeeding taken) = .ok () := by
  unfold rotation backingUp
  split <;> rfl

theorem backUp_succeeding (crates : LogCrates) (inner : RotatingInner) (now taken : Nat) :
    inner.backUp crates now (.succeeding taken) =
      (.ok (), { inner with backups := (inner.toRotatingFileWriter.rotate crates now).backups }) := by
  have hcontent : inner.content (.succeeding taken) = inner.log := rfl
  unfold backUp RotatingFileWriter.rotate
  rw [hcontent]
  split
  · rename_i hempty
    simp only [hempty, if_true]
  · rename_i hfull
    simp only [hfull]
    rfl

theorem rotate_succeeding (hopen : inner.file = some file) (now taken : Nat) :
    inner.rotate crates now (.succeeding taken) = (.ok (.ok ()),
      { inner.toRotatingFileWriter.rotate crates now with file := some (.positioned 0) }) := by
  unfold rotate
  rw [hopen]
  dsimp only
  rw [backUp_succeeding]
  rfl

theorem writeFile_succeeding (hopen : inner.file = some file) (hend : file.AtEnd inner.log)
    (call : WriteCall) :
    ∃ file' : File, file'.AtEnd (inner.toRotatingFileWriter.append call).log ∧
      inner.writeFile call.buf (.succeeding call.taken) = (.ok (.ok call.accepted.length),
        { inner.toRotatingFileWriter.append call with file := some file' }) := by
  obtain ⟨hlog, hend'⟩ := File.write_of_atEnd hend call.accepted
  refine ⟨(file.write call.accepted inner.log).1, hend', ?_⟩
  rw [writeFile, hopen, RotatingFileWriter.append, ← hlog]
  rfl

/-- Where all operations succeed, this is the write that knows no failures. -/
theorem write_succeeding (hopen : inner.file = some file) (hend : file.AtEnd inner.log)
    (call : WriteCall) :
    ∃ file' : File, file'.AtEnd (inner.toRotatingFileWriter.write crates call).log ∧
      inner.write crates call.buf call.now (.succeeding call.taken) =
        (.ok (.ok call.accepted.length),
          { inner.toRotatingFileWriter.write crates call with file := some file' }) := by
  unfold write RotatingFileWriter.write
  split
  · rw [rotate_succeeding hopen]
    exact @writeFile_succeeding
      { inner.toRotatingFileWriter.rotate crates call.now with file := some (.positioned 0) } _ rfl rfl
      call
  · exact writeFile_succeeding hopen hend call

end RotatingInner

inductive LogCall where
  | write (buf : List UInt8) (now : Nat) (ops : FileOps)
  | flush (result : IoResult Unit)

/-- The body of a method, under the lock. A flush accepts no bytes. -/
def RotatingInner.call (crates : LogCrates) (inner : RotatingInner) :
    LogCall → Except Panic (IoResult Nat) × RotatingInner
  | .write buf now ops => inner.write crates buf now ops
  | .flush result => (.ok ((inner.flush result).map fun _ => 0), inner)

/-- A write for which all operations succeed. -/
def WriteCall.logCall (call : WriteCall) : LogCall := .write call.buf call.now (.succeeding call.taken)

/-- What the clones share. -/
abbrev SharedWriter := Locks.Mutex RotatingInner

namespace SharedWriter

/-- `RotatingFileWriter::new`, with the content of the log and the backups that are there. -/
def new (fileName : Option String) (content : List UInt8)
    (backups : Files.Directory String (List UInt8)) (maxSize : Nat) : SharedWriter :=
  Locks.Mutex.new (RotatingInner.new fileName content backups maxSize)

/-- A call under the lock. -/
def serve (crates : LogCrates) (shared : SharedWriter) (call : LogCall) :
    Except Panic (IoResult Nat) × SharedWriter :=
  shared.lock .poisoned fun inner => inner.call crates call

/-- The calls of all clones, in the order in which they get the lock. -/
def after (crates : LogCrates) (shared : SharedWriter) (calls : List LogCall) : SharedWriter :=
  calls.foldl (fun shared call => (shared.serve crates call).2) shared

/-- The shared writer is open at the end of its log, and is otherwise `writer`. -/
def Carries (shared : SharedWriter) (writer : RotatingFileWriter) : Prop :=
  shared.poisoned = false ∧ shared.value.toRotatingFileWriter = writer ∧
    ∃ file, shared.value.file = some file ∧ file.AtEnd writer.log

variable {shared : SharedWriter} {writer : RotatingFileWriter}

theorem carries_new (fileName : Option String) (content : List UInt8)
    (backups : Files.Directory String (List UInt8)) (maxSize : Nat) :
    Carries (new fileName content backups maxSize)
      { RotatingFileWriter.new fileName content maxSize with backups } :=
  ⟨rfl, rfl, .appending, rfl, trivial⟩

theorem Carries.serve (h : shared.Carries writer) (crates : LogCrates) (call : WriteCall) :
    (shared.serve crates call.logCall).1 = .ok (.ok call.accepted.length) ∧
      Carries (shared.serve crates call.logCall).2 (writer.write crates call) := by
  obtain ⟨hpoisoned, rfl, file, hopen, hend⟩ := h
  obtain ⟨file', hend', hwrite⟩ := RotatingInner.write_succeeding hopen hend call
  have hserve : shared.serve crates call.logCall = _ := Locks.Mutex.lock_of_ok hpoisoned hwrite
  rw [hserve]
  exact ⟨rfl, rfl, rfl, file', rfl, hend'⟩

theorem Carries.after (h : shared.Carries writer) (crates : LogCrates) (calls : List WriteCall) :
    Carries (shared.after crates (calls.map WriteCall.logCall)) (writer.run crates calls) := by
  induction calls generalizing shared writer with
  | nil => exact h
  | cons call rest ih => exact ih (h.serve crates call).2

end SharedWriter

end TokenDog
