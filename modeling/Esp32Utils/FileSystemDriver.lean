import Esp32Utils.ByteStrings
import Esp32Utils.Interaction.Program
import Mathlib.Data.List.AList

/-! # The file system driver interface

`IFileSystemDriver` as an interface of calls, the digest lookup that
`AbstractFileSystemDriver` builds from two of them, and a driver that never fails.
A read that reports failure leaves its output parameter alone, so its answer is
the content or nothing. -/
namespace FileSystemDriver

open ByteStrings InteractionProgram

inductive DriverCall where
  | writeContentToFile (content filename : Bytes)
  | appendContentToFile (content filename : Bytes)
  | readEntireFileToString (filename : Bytes)
  | doesFileExist (filename : Bytes)
  | deleteFile (fullFileName : Bytes)
  | filesList (path : Bytes)
  | countFiles (path : Bytes)
  deriving DecidableEq

abbrev IFileSystemDriver : Interface where
  Call := DriverCall
  Resp
    | .writeContentToFile _ _ => Bool
    | .appendContentToFile _ _ => Bool
    | .readEntireFileToString _ => Option Bytes
    | .doesFileExist _ => Bool
    | .deleteFile _ => Bool
    | .filesList _ => List Bytes
    | .countFiles _ => ℕ

abbrev DriverProgram := Program IFileSystemDriver

def IFileSystemDriver.writeContentToFile (content filename : Bytes) : DriverProgram Bool :=
  @perform IFileSystemDriver (.writeContentToFile content filename)

def IFileSystemDriver.appendContentToFile (content filename : Bytes) : DriverProgram Bool :=
  @perform IFileSystemDriver (.appendContentToFile content filename)

def IFileSystemDriver.readEntireFileToString (filename : Bytes) : DriverProgram (Option Bytes) :=
  @perform IFileSystemDriver (.readEntireFileToString filename)

def IFileSystemDriver.doesFileExist (filename : Bytes) : DriverProgram Bool :=
  @perform IFileSystemDriver (.doesFileExist filename)

def IFileSystemDriver.deleteFile (fullFileName : Bytes) : DriverProgram Bool :=
  @perform IFileSystemDriver (.deleteFile fullFileName)

def IFileSystemDriver.filesList (path : Bytes) : DriverProgram (List Bytes) :=
  @perform IFileSystemDriver (.filesList path)

def IFileSystemDriver.countFiles (path : Bytes) : DriverProgram ℕ :=
  @perform IFileSystemDriver (.countFiles path)

section Calls

variable {σ : Type} (h : Handler IFileSystemDriver σ) (content filename path : Bytes) (s : σ)

@[simp] theorem run_writeContentToFile :
    (IFileSystemDriver.writeContentToFile content filename).run h s =
      h (.writeContentToFile content filename) s := rfl

@[simp] theorem run_appendContentToFile :
    (IFileSystemDriver.appendContentToFile content filename).run h s =
      h (.appendContentToFile content filename) s := rfl

@[simp] theorem run_readEntireFileToString :
    (IFileSystemDriver.readEntireFileToString filename).run h s =
      h (.readEntireFileToString filename) s := rfl

@[simp] theorem run_doesFileExist :
    (IFileSystemDriver.doesFileExist filename).run h s = h (.doesFileExist filename) s := rfl

@[simp] theorem run_deleteFile :
    (IFileSystemDriver.deleteFile filename).run h s = h (.deleteFile filename) s := rfl

@[simp] theorem run_filesList :
    (IFileSystemDriver.filesList path).run h s = h (.filesList path) s := rfl

@[simp] theorem run_countFiles :
    (IFileSystemDriver.countFiles path).run h s = h (.countFiles path) s := rfl

end Calls

/-- `AbstractFileSystemDriver::getFileMd5`: either failure is reported as the empty string. -/
def AbstractFileSystemDriver.getFileMd5 (getMD5String : Bytes → Bytes) (filename : Bytes) :
    DriverProgram Bytes := do
  if (← IFileSystemDriver.doesFileExist filename) = false then
    return []
  match ← IFileSystemDriver.readEntireFileToString filename with
  | none => return []
  | some fileContent => return getMD5String fileContent

/-- The MD5 digests of a few contents, to run the model on; others get a placeholder. -/
def sampleMd5 (content : Bytes) : Bytes :=
  if content = ascii "a" then ascii "0cc175b9c0f1b6a831c399e269772661"
  else if content = ascii "b" then ascii "92eb5ffee6ae2fec3ad71c777531578f"
  else if content = ascii "aa" then ascii "4124bc0a9335c27f086f24ba207a4912"
  else if content = ascii "ba" then ascii "07159c47ee1b19ae4fb9c40d480856c4"
  else ascii "00000000000000000000000000000000"

theorem sampleMd5_length (content : Bytes) : (sampleMd5 content).length = 32 := by
  unfold sampleMd5
  split_ifs <;> rfl

theorem sampleMd5_ne_nil (content : Bytes) : sampleMd5 content ≠ [] :=
  List.ne_nil_of_length_pos (by rw [sampleMd5_length]; decide)

/-- Regular files by full path, without repetition. -/
abbrev Disk := AList (fun _ : Bytes => Bytes)

def slash : UInt8 := 0x2f

def entryName (path full : Bytes) : Option Bytes :=
  if path ++ [slash] <+: full ∧ slash ∉ full.drop (path.length + 1) then
    some (full.drop (path.length + 1))
  else none

def Disk.entries (d : Disk) (path : Bytes) : List Bytes := d.keys.filterMap (entryName path)

/-- The driver that never fails. Deleting an absent file succeeds, as in both drivers. -/
def Disk.answer : Handler IFileSystemDriver Disk
  | .writeContentToFile content filename, d => (true, d.insert filename content)
  | .appendContentToFile content filename, d =>
    (true, d.insert filename ((d.lookup filename).getD [] ++ content))
  | .readEntireFileToString filename, d => (d.lookup filename, d)
  | .doesFileExist filename, d => ((d.lookup filename).isSome, d)
  | .deleteFile fullFileName, d => (true, d.erase fullFileName)
  | .filesList path, d => (Disk.entries d path, d)
  | .countFiles path, d => ((Disk.entries d path).length, d)

theorem Disk.erase_of_absent {d : Disk} {filename : Bytes} (h : d.lookup filename = none) :
    d.erase filename = d :=
  AList.ext (List.kerase_of_notMem_keys (AList.lookup_eq_none.mp h))

end FileSystemDriver
