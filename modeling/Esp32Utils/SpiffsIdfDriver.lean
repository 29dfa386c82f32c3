import Esp32Utils.Libc
import Mathlib.Algebra.Group.Nat.Defs

/-! # SPIFFS_IDFDriver

The driver as programs over the C library. A result of `ftell` converted to `size_t`
wraps around only for the failure value, since a file fits in the address space. -/
namespace SpiffsIdfDriver

open ByteStrings InteractionProgram FileSystemDriver Libc

namespace SPIFFS_IDFDriver

def doWriteContentToFile (content : Bytes) (file : ℕ) : LibcProgram Bool := do
  let blocksWritten ← fprintf file (cStr content)
  if blocksWritten = 0 then
    let _ ← fclose file
    return false
  let _ ← fclose file
  return true

def writeContentToFile (content filename : Bytes) : LibcProgram Bool := do
  match ← fopen (cStr filename) .w with
  | none => return false
  | some file => doWriteContentToFile content file

def appendContentToFile (content filename : Bytes) : LibcProgram Bool := do
  match ← fopen (cStr filename) .a with
  | none => return false
  | some file => doWriteContentToFile content file

def doesFileExist (filename : Bytes) : LibcProgram Bool := do
  return (← stat (cStr filename)) == some .regular

def deleteFile (filename : Bytes) : LibcProgram Bool := do
  if (← doesFileExist filename) = false then
    return true
  return (← unlink (cStr filename)) == 0

def sizeMax : ℕ := 2 ^ 32 - 1

def toSizeT (fileSize : ℤ) : ℕ := if 0 ≤ fileSize then fileSize.toNat else sizeMax

def streamSize (file : ℕ) : LibcProgram ℤ := do
  let _ ← fseekEnd file
  let fileSize ← ftell file
  rewind file
  return fileSize

/-- The block read of `readEntireFileToString`. The buffer starts zeroed; storing past
its end is undefined. -/
def readBuffer (fileSize : ℤ) (file : ℕ) : LibcProgram (Option Bytes) := do
  let pBuffer := List.replicate (fileSize + 1).toNat (0 : UInt8)
  let (blocksRead, bytes) ← fread (toSizeT fileSize) 1 file
  if pBuffer.length < bytes.length then
    undefinedBehaviour
  let pBuffer := bytes ++ pBuffer.drop bytes.length
  if blocksRead = 0 then
    let _ ← fclose file
    return none
  if fileSize < 0 then
    undefinedBehaviour
  let pBuffer := pBuffer.set fileSize.toNat 0
  let _ ← fclose file
  return some (cStr pBuffer)

def readEntireFileToString (filename : Bytes) : LibcProgram (Option Bytes) := do
  if (← doesFileExist filename) = false then
    return none
  match ← fopen (cStr filename) .r with
  | none => return none
  | some file =>
    let fileSize ← streamSize file
    readBuffer fileSize file

def listEntries : List Dirent → List Bytes → List Bytes
  | [], ret => ret
  | entry :: dirp, ret =>
    if entry.d_type = .regular then listEntries dirp (ret ++ [entry.d_name])
    else listEntries dirp ret

def filesList (path : Bytes) : LibcProgram (List Bytes) := do
  match ← opendir (cStr path) with
  | none => return []
  | some dirp =>
    let ret := listEntries dirp []
    let _ ← closedir
    return ret

def countEntries : List Dirent → ℕ → ℕ
  | [], count => count
  | direntp :: dir_ptr, count =>
    if direntp.d_name = ascii "." ∨ direntp.d_name = ascii ".." then countEntries dir_ptr count
    else if direntp.d_type = .regular then countEntries dir_ptr (count + 1)
    else countEntries dir_ptr count

def countFiles (path : Bytes) : LibcProgram ℕ := do
  match ← opendir (cStr path) with
  | none => return 0
  | some dir_ptr =>
    let count := countEntries dir_ptr 0
    let _ ← closedir
    return count

def methods : (c : DriverCall) → LibcProgram (IFileSystemDriver.Resp c)
  | .writeContentToFile content filename => writeContentToFile content filename
  | .appendContentToFile content filename => appendContentToFile content filename
  | .readEntireFileToString filename => readEntireFileToString filename
  | .doesFileExist filename => doesFileExist filename
  | .deleteFile fullFileName => deleteFile fullFileName
  | .filesList path => filesList path
  | .countFiles path => countFiles path

end SPIFFS_IDFDriver

def spiffs (resolves : Bytes → Bool) : Handler IFileSystemDriver Vfs := fun c v =>
  (SPIFFS_IDFDriver.methods c).run (libc resolves) v

section Healthy

variable {resolves : Bytes → Bool} {content filename path out data : Bytes} {v : Vfs} {file : ℕ}

def afterStream (v : Vfs) (files : Disk) : Vfs :=
  { v with
    files
    streams := Function.update v.streams v.opened none
    opened := v.opened + 1 }

theorem run_spiffsExists :
    (SPIFFS_IDFDriver.doesFileExist filename).run (libc resolves) v =
      (resolves (cStr filename) && (v.files.lookup (cStr filename)).isSome, v) := by
  by_cases hr : resolves (cStr filename) = true
  · by_cases hf : (v.files.lookup (cStr filename)).isSome = true
    · simp [SPIFFS_IDFDriver.doesFileExist, libc, hr, hf]
    · by_cases hd : cStr filename ∈ v.directories <;>
        simp [SPIFFS_IDFDriver.doesFileExist, libc, hr, hf, hd]
  · simp [SPIFFS_IDFDriver.doesFileExist, libc, hr]

theorem run_spiffsDelete_unresolved (h : resolves (cStr filename) = false) :
    (SPIFFS_IDFDriver.deleteFile filename).run (libc resolves) v = (true, v) := by
  simp [SPIFFS_IDFDriver.deleteFile, run_spiffsExists, h]

theorem listEntries_eq (dirp : List Dirent) (ret : List Bytes) :
    SPIFFS_IDFDriver.listEntries dirp ret =
      ret ++ (dirp.filter (·.d_type = .regular)).map Dirent.d_name := by
  induction dirp generalizing ret with
  | nil => simp [SPIFFS_IDFDriver.listEntries]
  | cons entry dirp ih =>
    unfold SPIFFS_IDFDriver.listEntries
    by_cases h : entry.d_type = .regular <;> simp [h, ih]

def listed (resolves : Bytes → Bool) (v : Vfs) (path : Bytes) : List Bytes :=
  if resolves (cStr path) then Disk.entries v.files (cStr path) else []

theorem run_spiffsFilesList :
    (SPIFFS_IDFDriver.filesList path).run (libc resolves) v = (listed resolves v path, v) := by
  unfold listed
  by_cases hr : resolves (cStr path) = true
  · simp [SPIFFS_IDFDriver.filesList, libc, hr, Vfs.dirents, listEntries_eq, List.filter_map,
      Function.comp_def]
  · simp [SPIFFS_IDFDriver.filesList, libc, hr]

theorem run_doWriteContentToFile {s : OpenFile} (hs : v.streams file = some s) :
    (SPIFFS_IDFDriver.doWriteContentToFile content file).run (libc resolves) v =
      match printfExpand (cStr content) with
      | some out => (!out.isEmpty, { v with
          files := v.files.insert s.path (v.content s ++ out)
          streams := Function.update v.streams file none })
      | none => (false, { v.undefined with streams := Function.update v.streams file none }) := by
  cases hp : printfExpand (cStr content) with
  | none => simp [SPIFFS_IDFDriver.doWriteContentToFile, libc, hs, hp, Vfs.undefined]
  | some out =>
    cases out with
    | nil => simp [SPIFFS_IDFDriver.doWriteContentToFile, libc, hs, hp]
    | cons b out =>
      have hne : ((b :: out).length : ℤ) ≠ 0 := Int.natCast_ne_zero.mpr (Nat.succ_ne_zero _)
      simp only [SPIFFS_IDFDriver.doWriteContentToFile, run_bind, run_fprintf, libc, hs, hp,
        if_neg hne, run_fclose]
      rfl

def printed (content path data : Bytes) (v : Vfs) : Bool × Vfs :=
  match printfExpand (cStr content) with
  | some out => (!out.isEmpty, afterStream v (v.files.insert path (data ++ out)))
  | none => (false, afterStream v.undefined (v.files.insert path data))

theorem run_doWrite_opened :
    (SPIFFS_IDFDriver.doWriteContentToFile content v.opened).run (libc resolves)
        ({ v with files := v.files.insert path data }.openStream path).2 =
      printed content path data v := by
  refine (run_doWriteContentToFile (Function.update_self _ _ _)).trans ?_
  unfold printed
  cases printfExpand (cStr content) <;>
    simp [Vfs.openStream, afterStream, Vfs.content, Vfs.undefined]

theorem run_spiffsWrite (hr : resolves (cStr filename) = true) :
    (SPIFFS_IDFDriver.writeContentToFile content filename).run (libc resolves) v =
      printed content (cStr filename) [] v := by
  simp only [SPIFFS_IDFDriver.writeContentToFile, run_bind, run_fopen, libc, hr, if_true]
  exact @run_doWrite_opened resolves content (cStr filename) [] v

theorem run_spiffsAppend (hr : resolves (cStr filename) = true) :
    (SPIFFS_IDFDriver.appendContentToFile content filename).run (libc resolves) v =
      printed content (cStr filename) ((v.files.lookup (cStr filename)).getD []) v := by
  simp only [SPIFFS_IDFDriver.appendContentToFile, run_bind, run_fopen, libc, hr, if_true]
  exact @run_doWrite_opened resolves content (cStr filename) _ v

theorem run_streamSize {s : OpenFile} (hs : v.streams file = some s) :
    (SPIFFS_IDFDriver.streamSize file).run (libc resolves) v =
      (((v.content s).length : ℤ), v.seek file s 0) := by
  simp [SPIFFS_IDFDriver.streamSize, libc, hs, Vfs.seek]

/-- A file of the size just measured is read as a whole; the result ends at its first
NUL, and an empty file is a block that cannot be read. -/
theorem run_readBuffer {s : OpenFile} (hs : v.streams file = some s) (h0 : s.position = 0) :
    (SPIFFS_IDFDriver.readBuffer (v.content s).length file).run (libc resolves) v =
      (if v.content s = [] then none else some (cStr (v.content s)),
        { v with streams := Function.update v.streams file none }) := by
  have hsize : SPIFFS_IDFDriver.toSizeT ((v.content s).length : ℤ) = (v.content s).length := by
    simp [SPIFFS_IDFDriver.toSizeT]
  have hbytes : ((v.content s).drop s.position).take ((v.content s).length * 1) = v.content s := by
    simp [h0]
  simp only [SPIFFS_IDFDriver.readBuffer, run_bind, run_fread, libc, hs, hsize, hbytes]
  by_cases hd : v.content s = []
  · simp [hd, libc, Vfs.seek]
  · have hpos : 0 < (v.content s).length := List.length_pos_of_ne_nil hd
    have hneg : ¬ ((v.content s).length : ℤ) < 0 := by omega
    have hfits : ¬ (v.content s).length + 1 < (v.content s).length := by omega
    simp [hd, hneg, hfits, Nat.div_self hpos, cStr_append_zero, libc, Vfs.seek]

theorem run_measured {s : OpenFile} (hs : v.streams file = some s) :
    (do SPIFFS_IDFDriver.readBuffer (← SPIFFS_IDFDriver.streamSize file) file).run
        (libc resolves) v =
      (if v.content s = [] then none else some (cStr (v.content s)),
        { v with streams := Function.update v.streams file none }) := by
  rw [run_bind, run_streamSize hs]
  refine (@run_readBuffer resolves (v.seek file s 0) file { s with position := 0 }
    (Function.update_self _ _ _) rfl).trans ?_
  simp only [Vfs.seek, Vfs.content, Function.update_idem]
  rfl

theorem run_spiffsRead (hr : resolves (cStr filename) = true)
    (hd : v.files.lookup (cStr filename) = some data) :
    (SPIFFS_IDFDriver.readEntireFileToString filename).run (libc resolves) v =
      (if data = [] then none else some (cStr data), afterStream v v.files) := by
  simp only [SPIFFS_IDFDriver.readEntireFileToString, run_bind, run_spiffsExists, run_fopen, libc,
    hr, hd, Option.isSome_some, Bool.and_self, Bool.true_eq_false, if_true, if_false]
  have hs : (v.openStream (cStr filename)).2.streams v.opened = some ⟨cStr filename, 0⟩ :=
    Function.update_self _ _ _
  refine (run_measured hs).trans ?_
  simp [Vfs.content, Vfs.openStream, afterStream, hd]

end Healthy

end SpiffsIdfDriver
