import Esp32Utils.Interaction.Layers
import Esp32Utils.ReliableDriver

/-! # The manipulator refines a map

Seen through its operations on a driver that never fails, the manipulator is a map from
logical names to contents, in either mode. In MD5 mode an entry of the map is a data
file and its digest file; a name is absent when both are. -/
namespace ManipulatorMap

open ByteStrings InteractionProgram ObservationalRefinement FileSystemDriver
open SafeFileManipulator ReliableDriver

inductive FileOp where
  | save (content filename : Bytes)
  | append (content filename : Bytes)
  | delete (filename : Bytes)
  | load (filename : Bytes)
  | doesExist (filename : Bytes)
  deriving DecidableEq

inductive Answer where
  | result (res : Bool)
  | loaded (res : Bool × Bytes)
  deriving DecidableEq

def manipulatorStep (getMD5String : Bytes → Bytes) (mode : SafeFileSaverMode) :
    FileOp → Disk → Answer × Disk
  | .save content filename, d =>
    ((saveContentToFile getMD5String mode content filename).run Disk.answer d).map .result id
  | .append content filename, d =>
    ((appendContentToFile getMD5String mode content filename).run Disk.answer d).map .result id
  | .delete filename, d => ((deleteFile mode filename).run Disk.answer d).map .result id
  | .load filename, d =>
    ((loadContentFromFile getMD5String mode filename).run Disk.answer d).map .loaded id
  | .doesExist filename, d => ((doesFileExist mode filename).run Disk.answer d).map .result id

def manipulator (getMD5String : Bytes → Bytes) (mode : SafeFileSaverMode) :
    Machine FileOp Answer :=
  ⟨Disk, ∅, manipulatorStep getMD5String mode⟩

def mapStep : FileOp → (Bytes → Option Bytes) → Answer × (Bytes → Option Bytes)
  | .save content filename, m => (.result true, Function.update m filename (some content))
  | .append content filename, m =>
    (.result true, Function.update m filename (some ((m filename).getD [] ++ content)))
  | .delete filename, m => (.result true, Function.update m filename none)
  | .load filename, m =>
    (.loaded (match m filename with
      | some content => (true, content)
      | none => (false, [])), m)
  | .doesExist filename, m => (.result (m filename).isSome, m)

/-- What the manipulator is for: contents under logical names. -/
def contentMap : Machine FileOp Answer := ⟨Bytes → Option Bytes, fun _ => none, mapStep⟩

variable {getMD5String : Bytes → Bytes} {filename : Bytes} {d : Disk} {m : Bytes → Option Bytes}

def RepresentsNormal (d : Disk) (m : Bytes → Option Bytes) : Prop := ∀ f, d.lookup f = m f

/-- In MD5 mode each entry is a data file with the digest of its content beside it. -/
def RepresentsMd5 (getMD5String : Bytes → Bytes) (d : Disk) (m : Bytes → Option Bytes) : Prop :=
  ∀ f, d.lookup (mainFileName f) = m f ∧
    d.lookup (mainMd5FileName f) = (m f).map getMD5String

theorem RepresentsNormal.insert (h : RepresentsNormal d m) (content : Bytes) :
    RepresentsNormal (d.insert filename content) (Function.update m filename (some content)) := by
  intro f
  by_cases hf : f = filename
  · subst hf
    simp
  · simp [hf, h f]

theorem RepresentsNormal.erase (h : RepresentsNormal d m) :
    RepresentsNormal (d.erase filename) (Function.update m filename none) := by
  intro f
  by_cases hf : f = filename
  · subst hf
    simp
  · simp [hf, h f]

theorem RepresentsMd5.insert (h : RepresentsMd5 getMD5String d m) (content : Bytes) :
    RepresentsMd5 getMD5String (certified getMD5String filename content d)
      (Function.update m filename (some content)) := by
  intro f
  by_cases hf : f = filename
  · subst hf
    simp
  · rw [certified_data_ne hf, certified_digest_ne hf, Function.update_of_ne hf]
    exact h f

theorem RepresentsMd5.erase (h : RepresentsMd5 getMD5String d m) :
    RepresentsMd5 getMD5String ((d.erase (mainFileName filename)).erase (mainMd5FileName filename))
      (Function.update m filename none) := by
  intro f
  by_cases hf : f = filename
  · subst hf
    simp
  · simp [hf, h f]

theorem RepresentsNormal.step (h : RepresentsNormal d m) (op : FileOp) :
    (manipulatorStep getMD5String .modeNormal op d).1 = (mapStep op m).1 ∧
      RepresentsNormal (manipulatorStep getMD5String .modeNormal op d).2 (mapStep op m).2 := by
  cases op with
  | save content filename =>
    simp only [manipulatorStep, saveContentToFile, saveInMode, run_saveInNormalMode]
    exact ⟨rfl, h.insert content⟩
  | append content filename =>
    simp only [manipulatorStep, appendContentToFile, saveInMode, run_saveInNormalMode, updated,
      h filename]
    exact ⟨rfl, h.insert _⟩
  | delete filename => exact ⟨rfl, h.erase⟩
  | load filename =>
    simp only [manipulatorStep, mapStep, loadContentFromFile, run_loadInNormalMode, h filename]
    exact ⟨rfl, h⟩
  | doesExist filename =>
    refine ⟨?_, h⟩
    simp [manipulatorStep, mapStep, doesFileExist, Disk.answer, h filename]

theorem RepresentsMd5.step (h : RepresentsMd5 getMD5String d m) (op : FileOp) :
    (manipulatorStep getMD5String .modeUseMd5 op d).1 = (mapStep op m).1 ∧
      RepresentsMd5 getMD5String (manipulatorStep getMD5String .modeUseMd5 op d).2
        (mapStep op m).2 := by
  cases op with
  | save content filename =>
    simp only [manipulatorStep, saveContentToFile, saveInMode, run_saveInMd5Mode]
    exact ⟨rfl, h.insert content⟩
  | append content filename =>
    simp only [manipulatorStep, appendContentToFile, saveInMode, run_saveInMd5Mode, updated,
      (h filename).1]
    exact ⟨rfl, h.insert _⟩
  | delete filename =>
    simp only [manipulatorStep, run_deleteFile_md5]
    exact ⟨rfl, h.erase⟩
  | load filename =>
    simp only [manipulatorStep, mapStep, loadContentFromFile, run_loadInMd5Mode, h filename]
    refine ⟨?_, h⟩
    cases m filename <;> simp
  | doesExist filename =>
    simp only [manipulatorStep, mapStep, run_doesFileExist_md5, h filename]
    refine ⟨?_, h⟩
    cases m filename <;> rfl

def normalSimulation (getMD5String : Bytes → Bytes) :
    Simulation (manipulator getMD5String .modeNormal) contentMap :=
  ⟨RepresentsNormal, fun _ => rfl, fun op _ _ h => RepresentsNormal.step h op⟩

def md5Simulation (getMD5String : Bytes → Bytes) :
    Simulation (manipulator getMD5String .modeUseMd5) contentMap :=
  ⟨RepresentsMd5 getMD5String, fun _ => ⟨rfl, rfl⟩, fun op _ _ h => RepresentsMd5.step h op⟩

/-- Any operations on any names are answered as the map answers them, so that the two
modes cannot be told apart. -/
theorem manipulator_refines_map (getMD5String : Bytes → Bytes) (ops : List FileOp) :
    (manipulator getMD5String .modeNormal).observe ops = contentMap.observe ops ∧
      (manipulator getMD5String .modeUseMd5).observe ops = contentMap.observe ops :=
  ⟨congrFun (normalSimulation getMD5String).observe_eq ops,
    congrFun (md5Simulation getMD5String).observe_eq ops⟩

end ManipulatorMap
