import Esp32Utils.FileSystemDriver
import Mathlib.Logic.Function.Basic

/-! # The SPIFFS object of Arduino

The calls that `SPIFFSDriver` makes, and a flash behind them. Any call may fail. A stream keeps
what it has taken until it is closed, unless some of it is flushed earlier. -/
namespace ArduinoSpiffs

open ByteStrings InteractionProgram FileSystemDriver

inductive FileMode where
  | fileRead
  | fileWrite
  | fileAppend
  deriving DecidableEq

/-- A `File` that is true. A directory yields no more entries than it had when it was opened. -/
structure File where
  handle : ℕ
  name : Bytes
  entries : List Bytes
  deriving DecidableEq

inductive SpiffsCall where
  | begin
  | format
  | exists (path : Bytes)
  | open (path : Bytes) (mode : FileMode)
  | remove (path : Bytes)
  | write (file : File) (data : Bytes)
  | size (file : File)
  | readBytes (file : File) (length : ℕ)
  | openNextFile (file : File)
  | close (file : Option File)

/-- `write` answers with the number of bytes that it took, `readBytes` with those it stored. -/
abbrev SpiffsInterface : Interface where
  Call := SpiffsCall
  Resp
    | .begin => Bool
    | .format => Bool
    | .exists _ => Bool
    | .open _ _ => Option File
    | .remove _ => Bool
    | .write _ _ => ℕ
    | .size _ => ℕ
    | .readBytes _ _ => Bytes
    | .openNextFile _ => Option File
    | .close _ => Unit

abbrev SpiffsProgram := Program SpiffsInterface

namespace SPIFFS

def begin : SpiffsProgram Bool := @perform SpiffsInterface .begin

def format : SpiffsProgram Bool := @perform SpiffsInterface .format

def «exists» (path : Bytes) : SpiffsProgram Bool := @perform SpiffsInterface (.exists path)

def «open» (path : Bytes) (mode : FileMode) : SpiffsProgram (Option File) :=
  @perform SpiffsInterface (.open path mode)

def remove (path : Bytes) : SpiffsProgram Bool := @perform SpiffsInterface (.remove path)

end SPIFFS

def File.write (file : File) (data : Bytes) : SpiffsProgram ℕ :=
  @perform SpiffsInterface (.write file data)

def File.size (file : File) : SpiffsProgram ℕ := @perform SpiffsInterface (.size file)

def File.readBytes (file : File) (length : ℕ) : SpiffsProgram Bytes :=
  @perform SpiffsInterface (.readBytes file length)

def File.openNextFile (file : File) : SpiffsProgram (Option File) :=
  @perform SpiffsInterface (.openNextFile file)

/-- Closing a `File` that is false does nothing. -/
def close (file : Option File) : SpiffsProgram Unit := @perform SpiffsInterface (.close file)

section Calls

variable {σ : Type} (h : Handler SpiffsInterface σ) (path : Bytes) (mode : FileMode) (file : File)
  (s : σ)

@[simp] theorem run_exists : (SPIFFS.exists path).run h s = h (.exists path) s := rfl

@[simp] theorem run_open : (SPIFFS.open path mode).run h s = h (.open path mode) s := rfl

@[simp] theorem run_remove : (SPIFFS.remove path).run h s = h (.remove path) s := rfl

@[simp] theorem run_write (data : Bytes) : (file.write data).run h s = h (.write file data) s := rfl

@[simp] theorem run_size : file.size.run h s = h (.size file) s := rfl

@[simp] theorem run_readBytes (length : ℕ) :
    (file.readBytes length).run h s = h (.readBytes file length) s := rfl

@[simp] theorem run_close (file : Option File) : (close file).run h s = h (.close file) s := rfl

end Calls

/-- What becomes of a call. One that does not work may have handled some of its bytes. Some of
what a stream has taken may be flushed in any case. -/
structure Outcome where
  works : Bool
  handled : ℕ
  flushed : ℕ
  deriving DecidableEq, Inhabited

/-- An open `File`. `entries` are those that a directory has yet to yield. -/
structure Stream where
  path : Bytes
  position : ℕ
  buffered : Bytes
  entries : List Bytes

structure Flash where
  files : Disk
  streams : ℕ → Option Stream
  opened : ℕ

def mounted (files : Disk) : Flash := ⟨files, fun _ => none, 0⟩

/-- The library refuses other paths. -/
def fromRoot (path : Bytes) : Bool := path.head? == some slash

def Flash.openStream (s : Flash) (path : Bytes) (entries : List Bytes) : Option File × Flash :=
  (some ⟨s.opened, path, entries⟩, { s with
    streams := Function.update s.streams s.opened (some ⟨path, 0, [], entries⟩)
    opened := s.opened + 1 })

def Flash.content (s : Flash) (path : Bytes) : Bytes := (s.files.lookup path).getD []

def Flash.prepared (s : Flash) (path : Bytes) : FileMode → Disk
  | .fileRead => s.files
  | .fileWrite => s.files.insert path []
  | .fileAppend => s.files.insert path (s.content path)

/-- `n` bytes of what a stream has taken reach the file. -/
def Flash.flush (s : Flash) (t : Stream) (n : ℕ) : Disk :=
  if t.buffered.take n = [] then s.files
  else s.files.insert t.path (s.content t.path ++ t.buffered.take n)

/-- What the platform promises: that closing a stream flushes it, that every check for a file
finds it, and that the size of an open file is told right. -/
structure Guarantees where
  closeFlushes : Bool
  existsFinds : Bool
  sizeRight : Bool
  deriving DecidableEq

/-- What is opened for reading and is no file is a directory. `listing` gives the names of its
entries, as `File::name` does. -/
def flash (g : Guarantees) (listing : Disk → Bytes → List Bytes) :
    Environment SpiffsInterface Outcome Flash
  | .begin, o, s => (o.works, s)
  | .format, o, s => (o.works, if o.works then { s with files := ∅ } else s)
  | .exists path, o, s =>
    (fromRoot path && (g.existsFinds || o.works) && (s.files.lookup path).isSome, s)
  | .open path mode, o, s =>
    if fromRoot path then
      let files := s.prepared path mode
      if o.works then
        { s with files := files }.openStream path
          (if (files.lookup path).isSome then [] else listing files path)
      else (none, if o.handled = 0 then s else { s with files := files })
    else (none, s)
  | .remove path, o, s =>
    if fromRoot path then
      if o.works then ((s.files.lookup path).isSome, { s with files := s.files.erase path })
      else (false, if o.handled = 0 then s else { s with files := s.files.erase path })
    else (false, s)
  | .write file data, o, s =>
    match s.streams file.handle with
    | some t =>
      let taken := if o.works then data else data.take o.handled
      let t := { t with buffered := t.buffered ++ taken }
      let left := { t with buffered := t.buffered.drop o.flushed }
      (taken.length, { s with
        files := s.flush t o.flushed
        streams := Function.update s.streams file.handle (some left) })
    | none => (0, s)
  | .size file, o, s =>
    match s.streams file.handle with
    | some t => (if g.sizeRight || o.works then (s.content t.path).length else o.handled, s)
    | none => (0, s)
  | .readBytes file length, o, s =>
    match s.streams file.handle with
    | some t =>
      let bytes := ((s.content t.path).drop t.position).take
        (if o.works then length else min length o.handled)
      let t := { t with position := t.position + bytes.length }
      (bytes, { s with streams := Function.update s.streams file.handle (some t) })
    | none => ([], s)
  | .openNextFile file, o, s =>
    match s.streams file.handle with
    | some t =>
      match t.entries with
      | name :: entries =>
        let left := { t with entries := entries }
        if o.works then
          { s with
            streams := Function.update s.streams file.handle (some left) }.openStream name []
        else (none, s)
      | [] => (none, s)
    | none => (none, s)
  | .close none, _, s => ((), s)
  | .close (some file), o, s =>
    match s.streams file.handle with
    | some t =>
      ((), { s with
        files := s.flush t (if g.closeFlushes || o.works then t.buffered.length else o.flushed)
        streams := Function.update s.streams file.handle none })
    | none => ((), s)

def healthy (listing : Disk → Bytes → List Bytes) : Handler SpiffsInterface Flash := fun c s =>
  flash ⟨true, true, true⟩ listing c ⟨true, 0, 0⟩ s

end ArduinoSpiffs
