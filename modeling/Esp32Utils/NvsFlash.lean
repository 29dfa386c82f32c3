import Esp32Utils.ByteStrings
import Esp32Utils.Interaction.Program
import Mathlib.Logic.Function.Basic

/-! # The non-volatile storage of the platform

The calls of `nvs.h` that the wrapper makes. Any of them may report an error, and then
changes nothing; one that does not report an error has done what it says. -/
namespace NvsFlash

open ByteStrings InteractionProgram

abbrev NvsHandle := ℕ

inductive NvsErr where
  | notFound
  | invalidHandle
  | typeMismatch
  | invalidLength
  | other (code : ℕ)
  deriving DecidableEq, Repr

/-- What the calls report, with `ESP_OK` for no error. -/
abbrev EspErr := Option NvsErr

inductive NvsOpenMode where
  | readonly
  | readwrite
  deriving DecidableEq, Repr

inductive NvsValue where
  | i64 (v : Int64)
  | str (s : CString)
  deriving DecidableEq

inductive NvsCall where
  | nvsOpen (storage : Bytes) (mode : NvsOpenMode)
  | nvsSetI64 (handle : NvsHandle) (tag : Bytes) (val : Int64)
  | nvsSetStr (handle : NvsHandle) (tag : Bytes) (val : CString)
  | nvsEraseKey (handle : NvsHandle) (tag : Bytes)
  | nvsCommit (handle : NvsHandle)
  | nvsGetI64 (handle : NvsHandle) (tag : Bytes)
  | nvsGetStrLength (handle : NvsHandle) (tag : Bytes)
  | nvsGetStr (handle : NvsHandle) (tag : Bytes) (length : ℕ)
  | nvsClose (handle : NvsHandle)

/-- Getting the length is `nvs_get_str` without a buffer. What `nvs_get_str` puts into a
buffer ends with a NUL. -/
abbrev NvsInterface : Interface where
  Call := NvsCall
  Resp
    | .nvsOpen _ _ => Except NvsErr NvsHandle
    | .nvsGetI64 _ _ => Except NvsErr Int64
    | .nvsGetStrLength _ _ => Except NvsErr ℕ
    | .nvsGetStr _ _ _ => Except NvsErr Bytes
    | .nvsClose _ => Unit
    | _ => EspErr

abbrev NvsProgram := Program NvsInterface

section Calls

variable (handle : NvsHandle) (storage tag : Bytes)

def nvsOpen (mode : NvsOpenMode) : NvsProgram (Except NvsErr NvsHandle) :=
  @perform NvsInterface (.nvsOpen storage mode)

def nvsSetI64 (val : Int64) : NvsProgram EspErr :=
  @perform NvsInterface (.nvsSetI64 handle tag val)

def nvsSetStr (val : CString) : NvsProgram EspErr :=
  @perform NvsInterface (.nvsSetStr handle tag val)

def nvsEraseKey : NvsProgram EspErr := @perform NvsInterface (.nvsEraseKey handle tag)

def nvsCommit : NvsProgram EspErr := @perform NvsInterface (.nvsCommit handle)

def nvsGetI64 : NvsProgram (Except NvsErr Int64) :=
  @perform NvsInterface (.nvsGetI64 handle tag)

def nvsGetStrLength : NvsProgram (Except NvsErr ℕ) :=
  @perform NvsInterface (.nvsGetStrLength handle tag)

def nvsGetStr (length : ℕ) : NvsProgram (Except NvsErr Bytes) :=
  @perform NvsInterface (.nvsGetStr handle tag length)

def nvsClose : NvsProgram Unit := @perform NvsInterface (.nvsClose handle)

variable {σ : Type} (h : Handler NvsInterface σ) (s : σ)

@[simp] theorem run_nvsOpen (mode : NvsOpenMode) :
    (nvsOpen storage mode).run h s = h (.nvsOpen storage mode) s := rfl

@[simp] theorem run_nvsCommit : (nvsCommit handle).run h s = h (.nvsCommit handle) s := rfl

@[simp] theorem run_nvsGetI64 :
    (nvsGetI64 handle tag).run h s = h (.nvsGetI64 handle tag) s := rfl

@[simp] theorem run_nvsGetStrLength :
    (nvsGetStrLength handle tag).run h s = h (.nvsGetStrLength handle tag) s := rfl

@[simp] theorem run_nvsGetStr (length : ℕ) :
    (nvsGetStr handle tag length).run h s = h (.nvsGetStr handle tag length) s := rfl

@[simp] theorem run_nvsClose : (nvsClose handle).run h s = h (.nvsClose handle) s := rfl

end Calls

abbrev Key := Bytes × Bytes

structure NvsState where
  entries : Key → Option NvsValue
  opened : NvsHandle → Option Bytes
  count : ℕ

def NvsState.put (s : NvsState) (key : Key) (value : Option NvsValue) : NvsState :=
  { s with entries := Function.update s.entries key value }

/-- Setting and erasing, where `failure` is the error that is reported if any. -/
def NvsState.modify (s : NvsState) (handle : NvsHandle) (tag : Bytes) (value : Option NvsValue)
    (failure : EspErr) : EspErr × NvsState :=
  match failure, s.opened handle with
  | some err, _ => (some err, s)
  | none, none => (some .invalidHandle, s)
  | none, some storage => (none, s.put (storage, tag) value)

def NvsState.get (s : NvsState) (handle : NvsHandle) (tag : Bytes) (failure : EspErr) :
    Except NvsErr NvsValue :=
  match failure, s.opened handle with
  | some err, _ => .error err
  | none, none => .error .invalidHandle
  | none, some storage =>
    match s.entries (storage, tag) with
    | none => .error .notFound
    | some value => .ok value

def NvsValue.getI64 : NvsValue → Except NvsErr Int64
  | .i64 v => .ok v
  | .str _ => .error .typeMismatch

def NvsValue.getStrLength : NvsValue → Except NvsErr ℕ
  | .i64 _ => .error .typeMismatch
  | .str s => .ok (s.bytes.length + 1)

def NvsValue.getStr (length : ℕ) : NvsValue → Except NvsErr Bytes
  | .i64 _ => .error .typeMismatch
  | .str s => if s.bytes.length + 1 ≤ length then .ok (s.bytes ++ [0]) else .error .invalidLength

def NvsState.openHandle (s : NvsState) (storage : Bytes) : NvsState :=
  { s with opened := Function.update s.opened s.count (some storage), count := s.count + 1 }

def NvsState.closeHandle (s : NvsState) (handle : NvsHandle) : NvsState :=
  { s with opened := Function.update s.opened handle none }

def nvs : Environment NvsInterface EspErr NvsState
  | .nvsOpen storage _, none, s => (.ok s.count, s.openHandle storage)
  | .nvsOpen _ _, some err, s => (.error err, s)
  | .nvsSetI64 handle tag val, failure, s => s.modify handle tag (some (.i64 val)) failure
  | .nvsSetStr handle tag val, failure, s => s.modify handle tag (some (.str val)) failure
  | .nvsEraseKey handle tag, failure, s => s.modify handle tag none failure
  | .nvsCommit _, failure, s => (failure, s)
  | .nvsGetI64 handle tag, failure, s => ((s.get handle tag failure).bind NvsValue.getI64, s)
  | .nvsGetStrLength handle tag, failure, s =>
    ((s.get handle tag failure).bind NvsValue.getStrLength, s)
  | .nvsGetStr handle tag length, failure, s =>
    ((s.get handle tag failure).bind (NvsValue.getStr length), s)
  | .nvsClose handle, _, s => ((), s.closeHandle handle)

section Handles

variable {s : NvsState} {storage tag : Bytes} {value : Option NvsValue}

@[simp] theorem openHandle_opened : (s.openHandle storage).opened s.count = some storage := by
  simp [NvsState.openHandle]

@[simp] theorem openHandle_entries : (s.openHandle storage).entries = s.entries := rfl

@[simp] theorem closeHandle_entries (handle : NvsHandle) :
    (s.closeHandle handle).entries = s.entries := rfl

@[simp] theorem put_entries (key : Key) :
    (s.put key value).entries = Function.update s.entries key value := rfl

theorem modify_opened (failure : EspErr) :
    (s.openHandle storage).modify s.count tag value failure =
      match failure with
      | some err => (some err, s.openHandle storage)
      | none => (none, (s.openHandle storage).put (storage, tag) value) := by
  cases failure with
  | some err => simp [NvsState.modify]
  | none => simp [NvsState.modify]

theorem get_opened :
    (s.openHandle storage).get s.count tag none =
      match s.entries (storage, tag) with
      | none => .error .notFound
      | some value => .ok value := by
  simp [NvsState.get]

end Handles

end NvsFlash
