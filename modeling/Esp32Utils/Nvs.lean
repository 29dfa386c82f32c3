import Esp32Utils.NvsFlash

/-! # NVS

Values by storage and tag. The member `_handle` is only used by a call that has opened it
itself, so it is the handle that the call has opened. -/
namespace Nvs

open ByteStrings InteractionProgram NvsFlash

def openToRead (storage : Bytes) : NvsProgram (Option NvsHandle) := do
  match ← nvsOpen storage .readonly with
  | .error _ => return none
  | .ok handle => return some handle

def openToWrite (storage : Bytes) : NvsProgram (Option NvsHandle) := do
  match ← nvsOpen storage .readwrite with
  | .error _ => return none
  | .ok handle => return some handle

/-- What the two writes and the erase have in common. The error of the change is replaced
by that of the commit. -/
def change (modify : NvsHandle → NvsProgram EspErr) (storage : Bytes) : NvsProgram Bool := do
  match ← openToWrite storage with
  | none => return false
  | some handle =>
    let _ ← modify handle
    let err ← nvsCommit handle
    nvsClose handle
    return err.isNone

def writeI64 (storage tag : Bytes) (val : Int64) : NvsProgram Bool :=
  change (fun handle => nvsSetI64 handle tag val) storage

def writeStr (storage tag : Bytes) (val : CString) : NvsProgram Bool :=
  change (fun handle => nvsSetStr handle tag val) storage

def erase (storage tag : Bytes) : NvsProgram Bool :=
  change (fun handle => nvsEraseKey handle tag) storage

/-- The result, and `res` after the call. -/
def readI64 (storage tag : Bytes) (res : Int64) : NvsProgram (Bool × Int64) := do
  match ← openToRead storage with
  | none => return (false, res)
  | some handle =>
    let err ← nvsGetI64 handle tag
    nvsClose handle
    match err with
    | .ok readRes => return (true, readRes)
    | .error _ => return (false, res)

/-- The buffer is as long as the first call says, and a NUL is put behind what the second
call has read. -/
def readStr (storage tag res : Bytes) : NvsProgram (Bool × Bytes) := do
  match ← openToRead storage with
  | none => return (false, res)
  | some handle =>
    let length ← nvsGetStrLength handle tag
    let readLength := match length with
      | .ok n => n
      | .error _ => 0
    let err ← nvsGetStr handle tag readLength
    nvsClose handle
    match err with
    | .ok charArr => return (true, cStr (charArr ++ [0]))
    | .error _ => return (false, res)

end Nvs
