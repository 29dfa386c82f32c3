import Esp32Utils.FileSystemDriver
import Mathlib.Logic.Function.Basic

/-! # The C library calls of the SPIFFS driver

The interface as the driver uses it, and a healthy file system behind it: every call
whose path resolves does what it should. -/
namespace Libc

open ByteStrings InteractionProgram FileSystemDriver

inductive OpenMode where
  | r
  | w
  | a
  deriving DecidableEq

inductive FileKind where
  | regular
  | directory
  deriving DecidableEq

structure Dirent where
  d_name : Bytes
  d_type : FileKind
  deriving DecidableEq

inductive LibcCall where
  | fopen (path : Bytes) (mode : OpenMode)
  | fprintf (file : ℕ) (format : Bytes)
  | fseekEnd (file : ℕ)
  | ftell (file : ℕ)
  | rewind (file : ℕ)
  | fread (size nmemb file : ℕ)
  | fclose (file : ℕ)
  | stat (path : Bytes)
  | unlink (path : Bytes)
  | opendir (path : Bytes)
  | closedir
  | undefinedBehaviour

/-- `fread` answers with the blocks it read and the bytes it stored. A directory stream
is the list of the entries that `readdir` has yet to yield. -/
abbrev LibcInterface : Interface where
  Call := LibcCall
  Resp
    | .fopen _ _ => Option ℕ
    | .fprintf _ _ => ℤ
    | .fseekEnd _ => ℤ
    | .ftell _ => ℤ
    | .rewind _ => Unit
    | .fread _ _ _ => ℕ × Bytes
    | .fclose _ => ℤ
    | .stat _ => Option FileKind
    | .unlink _ => ℤ
    | .opendir _ => Option (List Dirent)
    | .closedir => ℤ
    | .undefinedBehaviour => Unit

abbrev LibcProgram := Program LibcInterface

def fopen (path : Bytes) (mode : OpenMode) : LibcProgram (Option ℕ) :=
  @perform LibcInterface (.fopen path mode)

def fprintf (file : ℕ) (format : Bytes) : LibcProgram ℤ :=
  @perform LibcInterface (.fprintf file format)

def fseekEnd (file : ℕ) : LibcProgram ℤ := @perform LibcInterface (.fseekEnd file)

def ftell (file : ℕ) : LibcProgram ℤ := @perform LibcInterface (.ftell file)

def rewind (file : ℕ) : LibcProgram Unit := @perform LibcInterface (.rewind file)

def fread (size nmemb file : ℕ) : LibcProgram (ℕ × Bytes) :=
  @perform LibcInterface (.fread size nmemb file)

def fclose (file : ℕ) : LibcProgram ℤ := @perform LibcInterface (.fclose file)

def stat (path : Bytes) : LibcProgram (Option FileKind) :=
  @perform LibcInterface (.stat path)

def unlink (path : Bytes) : LibcProgram ℤ := @perform LibcInterface (.unlink path)

def opendir (path : Bytes) : LibcProgram (Option (List Dirent)) :=
  @perform LibcInterface (.opendir path)

def closedir : LibcProgram ℤ := @perform LibcInterface .closedir

def undefinedBehaviour : LibcProgram Unit := @perform LibcInterface .undefinedBehaviour

section Calls

variable {σ : Type} (h : Handler LibcInterface σ) (path format : Bytes) (mode : OpenMode)
  (size nmemb file : ℕ) (s : σ)

@[simp] theorem run_fopen : (fopen path mode).run h s = h (.fopen path mode) s := rfl

@[simp] theorem run_fprintf : (fprintf file format).run h s = h (.fprintf file format) s := rfl

@[simp] theorem run_fseekEnd : (fseekEnd file).run h s = h (.fseekEnd file) s := rfl

@[simp] theorem run_ftell : (ftell file).run h s = h (.ftell file) s := rfl

@[simp] theorem run_rewind : (rewind file).run h s = h (.rewind file) s := rfl

@[simp] theorem run_fread : (fread size nmemb file).run h s = h (.fread size nmemb file) s := rfl

@[simp] theorem run_fclose : (fclose file).run h s = h (.fclose file) s := rfl

@[simp] theorem run_stat : (stat path).run h s = h (.stat path) s := rfl

@[simp] theorem run_unlink : (unlink path).run h s = h (.unlink path) s := rfl

@[simp] theorem run_opendir : (opendir path).run h s = h (.opendir path) s := rfl

@[simp] theorem run_closedir : closedir.run h s = h .closedir s := rfl

@[simp] theorem run_undefinedBehaviour : undefinedBehaviour.run h s = h .undefinedBehaviour s := rfl

end Calls

structure OpenFile where
  path : Bytes
  position : ℕ

/-- The mounted file systems with the streams opened on them. Streams are numbered in
the order in which they were opened. -/
structure Vfs where
  files : Disk
  directories : List Bytes
  streams : ℕ → Option OpenFile
  opened : ℕ
  isUndefined : Bool

def mounted (files : Disk) : Vfs := ⟨files, [], fun _ => none, 0, false⟩

def Vfs.undefined (v : Vfs) : Vfs := { v with isUndefined := true }

def Vfs.openStream (v : Vfs) (path : Bytes) : Option ℕ × Vfs :=
  (some v.opened, { v with
    streams := Function.update v.streams v.opened (some ⟨path, 0⟩)
    opened := v.opened + 1 })

def Vfs.content (v : Vfs) (s : OpenFile) : Bytes := (v.files.lookup s.path).getD []

def Vfs.seek (v : Vfs) (file : ℕ) (s : OpenFile) (position : ℕ) : Vfs :=
  { v with streams := Function.update v.streams file (some { s with position }) }

def Vfs.dirents (v : Vfs) (path : Bytes) : List Dirent :=
  (Disk.entries v.files path).map (⟨·, .regular⟩) ++
    (v.directories.filterMap (entryName path)).map (⟨·, .directory⟩)

/-- A healthy file system. A stream opened for writing or appending is only printed to,
so that its position is the end of the file. -/
def libc (resolves : Bytes → Bool) : Handler LibcInterface Vfs
  | .fopen path mode, v =>
    if resolves path then
      match mode with
      | .r => if (v.files.lookup path).isSome then v.openStream path else (none, v)
      | .w => { v with files := v.files.insert path [] }.openStream path
      | .a =>
        { v with files := v.files.insert path ((v.files.lookup path).getD []) }.openStream path
    else (none, v)
  | .fprintf file format, v =>
    match v.streams file, printfExpand format with
    | some s, some out =>
      (out.length, { v with files := v.files.insert s.path (v.content s ++ out) })
    | _, _ => (0, v.undefined)
  | .fseekEnd file, v =>
    match v.streams file with
    | some s => (0, v.seek file s (v.content s).length)
    | none => (0, v.undefined)
  | .ftell file, v =>
    match v.streams file with
    | some s => (s.position, v)
    | none => (0, v.undefined)
  | .rewind file, v =>
    match v.streams file with
    | some s => ((), v.seek file s 0)
    | none => ((), v.undefined)
  | .fread size nmemb file, v =>
    match v.streams file with
    | some s =>
      let bytes := ((v.content s).drop s.position).take (size * nmemb)
      ((bytes.length / size, bytes), v.seek file s (s.position + bytes.length))
    | none => ((0, []), v.undefined)
  | .fclose file, v =>
    match v.streams file with
    | some _ => (0, { v with streams := Function.update v.streams file none })
    | none => (0, v.undefined)
  | .stat path, v =>
    if resolves path then
      if (v.files.lookup path).isSome then (some .regular, v)
      else if path ∈ v.directories then (some .directory, v)
      else (none, v)
    else (none, v)
  | .unlink path, v =>
    if resolves path && (v.files.lookup path).isSome then
      (0, { v with files := v.files.erase path })
    else (-1, v)
  | .opendir path, v => (if resolves path then some (v.dirents path) else none, v)
  | .closedir, v => (0, v)
  | .undefinedBehaviour, v => ((), v.undefined)

end Libc
