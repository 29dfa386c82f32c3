import Esp32Utils.FileSystemDriver
import Esp32Utils.Interaction.WhileLoops

/-! # SafeFileManipulator

The manipulator as programs over the driver interface. A logical file is one physical
file in `modeNormal` and a data file with its digest file in `modeUseMd5`; the backup
mode is a stub in the source. `getMD5String` stands for the digest of `cpp_utils`. -/
namespace SafeFileManipulator

open ByteStrings InteractionProgram WhileLoops FileSystemDriver

inductive SafeFileSaverMode where
  | modeNormal
  | modeUseMd5
  | modeUseMd5AndBackup
  | modeInvalid
  deriving DecidableEq, Repr

inductive SafeSaverFileType where
  | fileMain
  | fileBackup
  | fileMd5Main
  | fileMd5Backup
  deriving DecidableEq, Repr

def dataExtension : Bytes := ascii ".d"
def md5Extension : Bytes := ascii ".m"
def backupExtension : Bytes := ascii ".b"
def backupPostfix : Bytes := ascii "_b"

def getFileNameWithExtension (filename : Bytes) : SafeSaverFileType → Bytes
  | .fileMain => filename ++ dataExtension
  | .fileBackup => filename ++ backupExtension
  | .fileMd5Main => filename ++ md5Extension
  | .fileMd5Backup => filename ++ backupPostfix ++ md5Extension

def mainFileName (filename : Bytes) : Bytes := getFileNameWithExtension filename .fileMain

def mainMd5FileName (filename : Bytes) : Bytes :=
  getFileNameWithExtension filename .fileMd5Main

@[simp] theorem mainFileName_inj {f g : Bytes} : mainFileName f = mainFileName g ↔ f = g :=
  List.append_left_inj dataExtension

@[simp] theorem mainMd5FileName_inj {f g : Bytes} :
    mainMd5FileName f = mainMd5FileName g ↔ f = g :=
  List.append_left_inj md5Extension

/-- Names of logical files may contain dots or end in an extension. -/
@[simp] theorem mainFileName_ne_mainMd5FileName (f g : Bytes) :
    mainFileName f ≠ mainMd5FileName g := by
  intro h
  have he : dataExtension = md5Extension := List.append_inj_right' h (by decide)
  exact absurd he (by decide)

@[simp] theorem mainMd5FileName_ne_mainFileName (f g : Bytes) :
    mainMd5FileName f ≠ mainFileName g :=
  (mainFileName_ne_mainMd5FileName g f).symm

section Save

variable (getMD5String : Bytes → Bytes)

def maxSaveTriesInNormalMode : ℕ := 3
def maxSaveTriesInMd5Mode : ℕ := 3

/-- `append ? _driver->appendContentToFile(..) : _driver->writeContentToFile(..)` -/
def updateFile (append : Bool) (content filename : Bytes) : DriverProgram Bool :=
  if append then IFileSystemDriver.appendContentToFile content filename
  else IFileSystemDriver.writeContentToFile content filename

def saveInNormalMode (content filename : Bytes) (append : Bool) : DriverProgram Bool :=
  retry (updateFile append content filename) maxSaveTriesInNormalMode

/-- The second half of a try: write the digest file and compare what it then holds. -/
def storeMd5 (mainFileMd5 filename : Bytes) : DriverProgram Bool := do
  if (← IFileSystemDriver.writeContentToFile mainFileMd5 (mainMd5FileName filename)) = false then
    return false
  match ← IFileSystemDriver.readEntireFileToString (mainMd5FileName filename) with
  | none => return false
  | some readMd5 => return readMd5 == mainFileMd5

/-- The loop body of `saveInMd5Mode`; `continue` is a try that reports `false`. -/
def md5SaveTry (content filename : Bytes) (append : Bool) : DriverProgram Bool := do
  if (← updateFile append content (mainFileName filename)) = false then
    return false
  let mainFileMd5 ← AbstractFileSystemDriver.getFileMd5 getMD5String (mainFileName filename)
  storeMd5 mainFileMd5 filename

theorem md5SaveTry_splits {χ σ : Type} {env : Environment IFileSystemDriver χ σ} {s t : σ}
    {xs : List χ} {b : Bool} {content filename : Bytes} {append : Bool} :
    (md5SaveTry getMD5String content filename append).Plays env s xs b t ↔
      ((updateFile append content (mainFileName filename)).Plays env s xs false t ∧ b = false) ∨
      ∃ us gs ys u v md5, xs = us ++ (gs ++ ys) ∧
        (updateFile append content (mainFileName filename)).Plays env s us true u ∧
        (AbstractFileSystemDriver.getFileMd5 getMD5String (mainFileName filename)).Plays
          env u gs md5 v ∧
        (storeMd5 md5 filename).Plays env v ys b t := by
  unfold md5SaveTry
  rw [plays_guard]
  simp only [plays_bind]
  refine or_congr_right ?_
  constructor
  · intro h
    obtain ⟨us, -, u, rfl, hu, gs, ys, md5, v, rfl, hg, hs⟩ := h
    exact ⟨us, gs, ys, u, v, md5, rfl, hu, hg, hs⟩
  · intro h
    obtain ⟨us, gs, ys, u, v, md5, rfl, hu, hg, hs⟩ := h
    exact ⟨us, gs ++ ys, u, rfl, hu, gs, ys, md5, v, rfl, hg, hs⟩

def saveInMd5Mode (content filename : Bytes) (append : Bool) : DriverProgram Bool :=
  retry (md5SaveTry getMD5String content filename append) maxSaveTriesInMd5Mode

def saveInMd5BackupMode (_content _filename : Bytes) (_append : Bool) : DriverProgram Bool :=
  pure false

/-- The invalid mode fails an assertion; what follows it returns `false`. -/
def saveInMode (mode : SafeFileSaverMode) (content filename : Bytes) (append : Bool) :
    DriverProgram Bool :=
  match mode with
  | .modeNormal => saveInNormalMode content filename append
  | .modeUseMd5 => saveInMd5Mode getMD5String content filename append
  | .modeUseMd5AndBackup => saveInMd5BackupMode content filename append
  | .modeInvalid => pure false

def saveContentToFile (mode : SafeFileSaverMode) (content filename : Bytes) :
    DriverProgram Bool :=
  saveInMode getMD5String mode content filename false

def appendContentToFile (mode : SafeFileSaverMode) (content filename : Bytes) :
    DriverProgram Bool :=
  saveInMode getMD5String mode content filename true

end Save

def doesFileExist (mode : SafeFileSaverMode) (filename : Bytes) : DriverProgram Bool :=
  match mode with
  | .modeNormal => IFileSystemDriver.doesFileExist filename
  | .modeUseMd5 => do
    if (← IFileSystemDriver.doesFileExist (mainFileName filename)) = false then
      return false
    IFileSystemDriver.doesFileExist (mainMd5FileName filename)
  | .modeUseMd5AndBackup => pure false
  | .modeInvalid => pure false

def deleteFile (mode : SafeFileSaverMode) (filename : Bytes) : DriverProgram Bool :=
  match mode with
  | .modeNormal => IFileSystemDriver.deleteFile filename
  | .modeUseMd5 => do
    if (← IFileSystemDriver.deleteFile (mainFileName filename)) = false then
      return false
    IFileSystemDriver.deleteFile (mainMd5FileName filename)
  | .modeUseMd5AndBackup => pure true
  | .modeInvalid => pure false

section Load

variable (getMD5String : Bytes → Bytes)

def loadInNormalMode (filename : Bytes) : DriverProgram (Bool × Bytes) := do
  if (← doesFileExist .modeNormal filename) = false then
    return (false, [])
  match ← IFileSystemDriver.readEntireFileToString filename with
  | none => return (false, [])
  | some loadedString => return (true, loadedString)

def loadInMd5Mode (filename : Bytes) : DriverProgram (Bool × Bytes) := do
  if (← doesFileExist .modeUseMd5 filename) = false then
    return (false, [])
  match ← IFileSystemDriver.readEntireFileToString (mainMd5FileName filename) with
  | none => return (false, [])
  | some md5FileContent =>
    match ← IFileSystemDriver.readEntireFileToString (mainFileName filename) with
    | none => return (false, [])
    | some fileContent =>
      if getMD5String fileContent = md5FileContent then return (true, fileContent)
      else return (false, [])

def loadInMd5BackupMode (_filename : Bytes) : DriverProgram (Bool × Bytes) := pure (false, [])

def loadContentFromFile (mode : SafeFileSaverMode) (filename : Bytes) :
    DriverProgram (Bool × Bytes) :=
  match mode with
  | .modeNormal => loadInNormalMode filename
  | .modeUseMd5 => loadInMd5Mode getMD5String filename
  | .modeUseMd5AndBackup => loadInMd5BackupMode filename
  | .modeInvalid => pure (false, [])

end Load

def dot : UInt8 := 0x2e

/-- The variables of `dataFilesList`. An iterator is an index, which stays in place when its
element is erased. -/
structure Variables where
  allFilesList : List Bytes
  it : ℕ
  dataFilesList : List Bytes

/-- `begin()` of what is left. -/
def Variables.rewind (s : Variables) : Variables := { s with it := 0 }

/-- `find_first_of('.')`, with none for `npos`. -/
def findFirstOf (name : Bytes) : Option ℕ := name.idxOf? dot

/-- The first loop erases the names without a dot. -/
def undottedLoop : Loop Variables where
  condition s := s.it != s.allFilesList.length
  body s := do
    let name ← s.allFilesList[s.it]?
    match findFirstOf name with
    | none => return { s with allFilesList := s.allFilesList.eraseIdx s.it }
    | some _ => return { s with it := s.it + 1 }

/-- The second loop erases the data files and takes up those with a digest. A `substr` at `npos`
is an exception. -/
def dataFilesLoop : Loop Variables where
  condition s := s.it != s.allFilesList.length
  body s := do
    let name ← s.allFilesList[s.it]?
    let dotIndex ← findFirstOf name
    let extension := name.drop dotIndex
    if extension = dataExtension then
      let filename := name.take dotIndex
      let md5FileName := filename ++ md5Extension
      if md5FileName ∈ s.allFilesList then
        return ⟨s.allFilesList.eraseIdx s.it, s.it, s.dataFilesList ++ [filename]⟩
      else return { s with allFilesList := s.allFilesList.eraseIdx s.it }
    else return { s with it := s.it + 1 }

/-- An iteration erases an element or goes past one. -/
def filtered (allFilesList : List Bytes) : Option (List Bytes) := do
  let first ← undottedLoop.run allFilesList.length ⟨allFilesList, 0, []⟩
  let second ← dataFilesLoop.run first.allFilesList.length first.rewind
  return second.dataFilesList

/-- No list makes the loops fail. -/
def dataFilesList (mode : SafeFileSaverMode) (directory : Bytes) :
    DriverProgram (List Bytes) :=
  match mode with
  | .modeNormal => IFileSystemDriver.filesList directory
  | .modeUseMd5 => do
    let allFilesList ← IFileSystemDriver.filesList directory
    return (filtered allFilesList).getD []
  | .modeUseMd5AndBackup => pure []
  | .modeInvalid => pure []

/-- The result is a `uint32_t`, the type of a `size_t` on this target. -/
def countFilesInDirectory (mode : SafeFileSaverMode) (directory : Bytes) : DriverProgram ℕ :=
  match mode with
  | .modeNormal => IFileSystemDriver.countFiles directory
  | .modeUseMd5 => do
    return (← dataFilesList .modeUseMd5 directory).length
  | .modeUseMd5AndBackup => pure 0
  | .modeInvalid => pure 0

/-- The loop of `deleteAllFiles`, which breaks at the first failure. -/
def deleteEach (mode : SafeFileSaverMode) : List Bytes → DriverProgram Bool
  | [] => pure true
  | file :: filesInDirectory => do
    if (← deleteFile mode file) = false then
      return false
    deleteEach mode filesInDirectory

def deleteAllFiles (mode : SafeFileSaverMode) (directory : Bytes) : DriverProgram Bool := do
  let filesInDirectory ← dataFilesList mode directory
  deleteEach mode filesInDirectory

end SafeFileManipulator
