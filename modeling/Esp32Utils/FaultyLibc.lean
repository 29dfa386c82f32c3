import Esp32Utils.SpiffsIdfDriver

/-! # A C library whose calls may fail

What a stream prints is buffered until it is closed. Each call works or fails in its own
way, a print, a read or a close after any part of its bytes. -/
namespace FaultyLibc

open ByteStrings InteractionProgram FileSystemDriver Libc

/-- What becomes of a call. A failing one reports a code and handles some of its bytes. -/
inductive Outcome where
  | works
  | fails (code amount : ℕ)
  deriving DecidableEq

def Outcome.limit : Outcome → ℕ → ℕ
  | .works, n => n
  | .fails _ amount, n => min amount n

def Outcome.answer : Outcome → ℤ → ℤ
  | .works, value => value
  | .fails code _, _ => Int.negSucc code

/-- The file systems, with what each stream has printed and not yet written. -/
structure Flash where
  vfs : Vfs
  buffered : ℕ → Bytes

def Flash.undefined (s : Flash) : Flash := { s with vfs := s.vfs.undefined }

def Flash.file (s : Flash) (filename : Bytes) : Option Bytes := s.vfs.files.lookup (cStr filename)

def Flash.print (s : Flash) (file : ℕ) (bytes : Bytes) : Flash :=
  { s with buffered := Function.update s.buffered file (s.buffered file ++ bytes) }

def Flash.close (s : Flash) (file : ℕ) (t : OpenFile) (amount : ℕ) : Flash :=
  { s with vfs := { s.vfs with
      files := s.vfs.files.insert t.path (s.vfs.content t ++ (s.buffered file).take amount)
      streams := Function.update s.vfs.streams file none } }

/-- A call that works does on the file systems what the healthy library does. -/
def Flash.healthy (s : Flash) (c : LibcCall) : LibcInterface.Resp c × Flash :=
  ((libc (fun _ => true) c s.vfs).1, { s with vfs := (libc (fun _ => true) c s.vfs).2 })

def flashLibc : Environment LibcInterface Outcome Flash
  | .fopen path mode, .works, s =>
    { s with buffered := Function.update s.buffered s.vfs.opened [] }.healthy (.fopen path mode)
  | .fopen _ _, .fails _ _, s => (none, s)
  | .fprintf file format, outcome, s =>
    match s.vfs.streams file, printfExpand format with
    | some _, some out =>
      (outcome.answer out.length, s.print file (out.take (outcome.limit out.length)))
    | _, _ => (0, s.undefined)
  | .fclose file, outcome, s =>
    match s.vfs.streams file with
    | some t => (outcome.answer 0, s.close file t (outcome.limit (s.buffered file).length))
    | none => (0, s.undefined)
  | .fread size nmemb file, .fails _ amount, s =>
    ((0, (s.healthy (.fread (min amount (size * nmemb)) 1 file)).1.2),
      (s.healthy (.fread (min amount (size * nmemb)) 1 file)).2)
  | .fseekEnd _, .fails code _, s => (Int.negSucc code, s)
  | .ftell _, .fails _ _, s => (-1, s)
  | .rewind _, .fails _ _, s => ((), s)
  | .stat _, .fails _ _, s => (none, s)
  | .unlink _, .fails code _, s => (Int.negSucc code, s)
  | .opendir _, .fails _ _, s => (none, s)
  | .closedir, .fails code _, s => (Int.negSucc code, s)
  | c, _, s => s.healthy c

structure PlainText where
  bytes : Bytes
  ne_nil : bytes ≠ []
  noPercent : percent ∉ bytes
  noNul : 0 ∉ bytes

section Streams

variable {s : Flash} {file : ℕ} {t : OpenFile} {content : PlainText} {outcome : Outcome}

theorem PlainText.printed (content : PlainText) :
    printfExpand (cStr content.bytes) = some content.bytes := by
  rw [cStr_eq_self.mpr content.noNul, printfExpand_eq_self content.noPercent]

/-- The driver never sees a print of plain text fail, since a failure is not zero. -/
theorem PlainText.answer_ne (content : PlainText) : outcome.answer content.bytes.length ≠ 0 := by
  have hpos := List.length_pos_of_ne_nil content.ne_nil
  cases outcome with
  | works =>
    rw [Outcome.answer]
    omega
  | fails code amount => exact Int.negSucc_ne_zero code

theorem limit_le (n : ℕ) : outcome.limit n ≤ n := by
  cases outcome with
  | works => exact le_rfl
  | fails code amount => exact Nat.min_le_right _ _

theorem flash_fprintf (hs : s.vfs.streams file = some t) :
    flashLibc (.fprintf file (cStr content.bytes)) outcome s =
      (outcome.answer content.bytes.length,
        s.print file (content.bytes.take (outcome.limit content.bytes.length))) := by
  simp only [flashLibc, hs, content.printed]

theorem flash_fclose (hs : s.vfs.streams file = some t) : flashLibc (.fclose file) outcome s =
    (outcome.answer 0, s.close file t (outcome.limit (s.buffered file).length)) := by
  simp only [flashLibc, hs]

end Streams

end FaultyLibc
