import Esp32Utils.ArduinoSpiffs
import Mathlib.Algebra.Group.Nat.Defs

/-! # SPIFFSDriver

The driver as programs over the SPIFFS object of Arduino. -/
namespace SpiffsDriver

open ByteStrings InteractionProgram FileSystemDriver ArduinoSpiffs

namespace SPIFFSDriver

def maxFileNameLength : ℕ := 31

def initializeDriver : SpiffsProgram Bool := do
  if (← SPIFFS.begin) = false then
    let _ ← SPIFFS.format
    SPIFFS.begin
  else return true

def format : SpiffsProgram Bool := SPIFFS.format

def printContentToStream (content : Bytes) (stream : File) : SpiffsProgram Bool := do
  let printedBytes ← stream.write content
  return printedBytes == content.length

def doWriteContentToFile (content filename : Bytes) (append : Bool) : SpiffsProgram Bool := do
  let modeKey := if append then FileMode.fileAppend else FileMode.fileWrite
  let file ← SPIFFS.open (cStr filename) modeKey
  let result ← match file with
    | some stream => printContentToStream content stream
    | none => pure false
  close file
  return result

def writeContentToFile (content filename : Bytes) : SpiffsProgram Bool :=
  if filename.length > maxFileNameLength then return false
  else doWriteContentToFile content filename false

def appendContentToFile (content filename : Bytes) : SpiffsProgram Bool :=
  if filename.length > maxFileNameLength then return false
  else doWriteContentToFile content filename true

def doesFileExist (filename : Bytes) : SpiffsProgram Bool :=
  if filename.length > maxFileNameLength then return false
  else SPIFFS.exists (cStr filename)

/-- The buffer starts zeroed. -/
def readEntireFileToString (filename : Bytes) : SpiffsProgram (Option Bytes) := do
  if filename.length > maxFileNameLength then
    return none
  if (← doesFileExist filename) = false then
    return none
  match ← SPIFFS.open (cStr filename) .fileRead with
  | none => return none
  | some file =>
    let fileSize ← file.size
    let bytes ← file.readBytes fileSize
    let tempBuffer := bytes ++ List.replicate (fileSize - bytes.length) (0 : UInt8)
    close (some file)
    if fileSize = bytes.length then return some tempBuffer else return none

def deleteFile (filename : Bytes) : SpiffsProgram Bool := do
  if filename.length > maxFileNameLength then
    return false
  if (← doesFileExist filename) = false then
    return true
  SPIFFS.remove (cStr filename)

/-- The loop over a directory, with its result and the last `file`. -/
def overEntries {β : Type} (next : β → File → β) (root : File) :
    List Bytes → β → SpiffsProgram (β × Option File)
  | [], ret => do
    let file ← root.openNextFile
    return (ret, file)
  | _ :: entries, ret => do
    match ← root.openNextFile with
    | none => return (ret, none)
    | some file =>
      let ret := next ret file
      close (some file)
      overEntries next root entries ret

def overDirectory {β : Type} (next : β → File → β) (ret : β) (path : Bytes) :
    SpiffsProgram β := do
  match ← SPIFFS.open (cStr path) .fileRead with
  | none =>
    close none
    return ret
  | some root =>
    let (ret, file) ← overEntries next root root.entries ret
    close (some root)
    close file
    return ret

def filesList : Bytes → SpiffsProgram (List Bytes) :=
  overDirectory (fun ret file => ret ++ [file.name]) []

/-- The result is a `uint32_t`. -/
def countFiles : Bytes → SpiffsProgram ℕ := overDirectory (fun ret _ => (ret + 1) % 2 ^ 32) 0

def methods : (c : DriverCall) → SpiffsProgram (IFileSystemDriver.Resp c)
  | .writeContentToFile content filename => writeContentToFile content filename
  | .appendContentToFile content filename => appendContentToFile content filename
  | .readEntireFileToString filename => readEntireFileToString filename
  | .doesFileExist filename => doesFileExist filename
  | .deleteFile fullFileName => deleteFile fullFileName
  | .filesList path => filesList path
  | .countFiles path => countFiles path

end SPIFFSDriver

end SpiffsDriver
