import Esp32Utils.FallibleDriver
import Esp32Utils.Interaction.Layers
import Esp32Utils.ManipulatorMap

/-! # The files an operation touches

Each operation of the manipulator as one program, and the names of the files that its calls
are made on, whatever the driver answers. -/
namespace FilesTouched

open ByteStrings InteractionProgram InteractionCrash InteractionDiscipline InteractionLayers
open FileSystemDriver SafeFileManipulator ManipulatorMap FallibleDriver

def operation (getMD5String : Bytes → Bytes) (mode : SafeFileSaverMode) :
    FileOp → DriverProgram Answer
  | .save content filename => do
    return .result (← saveContentToFile getMD5String mode content filename)
  | .append content filename => do
    return .result (← appendContentToFile getMD5String mode content filename)
  | .delete filename => do return .result (← deleteFile mode filename)
  | .load filename => do return .loaded (← loadContentFromFile getMD5String mode filename)
  | .doesExist filename => do return .result (← doesFileExist mode filename)

def target : FileOp → Bytes
  | .save _ filename => filename
  | .append _ filename => filename
  | .delete filename => filename
  | .load filename => filename
  | .doesExist filename => filename

def physicalNames : SafeFileSaverMode → Bytes → List Bytes
  | .modeNormal, filename => [filename]
  | .modeUseMd5, filename => [mainFileName filename, mainMd5FileName filename]
  | .modeUseMd5AndBackup, _ => []
  | .modeInvalid, _ => []

def OnFiles (N : Bytes → Prop) : DriverCall → Prop
  | .writeContentToFile _ filename => N filename
  | .appendContentToFile _ filename => N filename
  | .readEntireFileToString filename => N filename
  | .doesFileExist filename => N filename
  | .deleteFile filename => N filename
  | .filesList _ => False
  | .countFiles _ => False

def Reads : DriverCall → Prop
  | .readEntireFileToString _ => True
  | .doesFileExist _ => True
  | _ => False

section Calls

variable {getMD5String : Bytes → Bytes} {mode : SafeFileSaverMode} {P : DriverCall → Prop}
  {content filename name md5 : Bytes} {append : Bool}

theorem updateFile_calls (hwrite : P (.writeContentToFile content name))
    (happend : P (.appendContentToFile content name)) :
    Calls P (updateFile append content name) := by
  cases append with
  | true => exact ⟨happend, fun _ => trivial⟩
  | false => exact ⟨hwrite, fun _ => trivial⟩

theorem getFileMd5_calls (hexists : P (.doesFileExist name))
    (hread : P (.readEntireFileToString name)) :
    Calls P (AbstractFileSystemDriver.getFileMd5 getMD5String name) := by
  refine ⟨hexists, fun found => ?_⟩
  cases found with
  | false => trivial
  | true =>
    refine ⟨hread, fun r => ?_⟩
    cases r <;> trivial

theorem storeMd5_calls (hwrite : P (.writeContentToFile md5 (mainMd5FileName filename)))
    (hread : P (.readEntireFileToString (mainMd5FileName filename))) :
    Calls P (storeMd5 md5 filename) := by
  refine ⟨hwrite, fun stored => ?_⟩
  cases stored with
  | false => trivial
  | true =>
    refine ⟨hread, fun r => ?_⟩
    cases r <;> trivial

theorem doesFileExist_calls (h : ∀ name ∈ physicalNames mode filename, P (.doesFileExist name)) :
    Calls P (doesFileExist mode filename) := by
  cases mode with
  | modeNormal => exact ⟨h _ (by simp [physicalNames]), fun _ => trivial⟩
  | modeUseMd5 =>
    refine ⟨h (mainFileName filename) (by simp [physicalNames]), fun found => ?_⟩
    cases found with
    | false => trivial
    | true => exact ⟨h (mainMd5FileName filename) (by simp [physicalNames]), fun _ => trivial⟩
  | modeUseMd5AndBackup => trivial
  | modeInvalid => trivial

theorem loadContentFromFile_calls
    (h : ∀ name ∈ physicalNames mode filename, P (.doesFileExist name))
    (hread : ∀ name ∈ physicalNames mode filename, P (.readEntireFileToString name)) :
    Calls P (loadContentFromFile getMD5String mode filename) := by
  cases mode with
  | modeNormal =>
    refine (doesFileExist_calls h).bind fun found => ?_
    cases found with
    | false => trivial
    | true =>
      refine ⟨hread _ (by simp [physicalNames]), fun r => ?_⟩
      cases r <;> trivial
  | modeUseMd5 =>
    refine (doesFileExist_calls h).bind fun found => ?_
    cases found with
    | false => trivial
    | true =>
      refine ⟨hread (mainMd5FileName filename) (by simp [physicalNames]), fun md5 => ?_⟩
      cases md5 with
      | none => trivial
      | some md5 =>
        refine ⟨hread (mainFileName filename) (by simp [physicalNames]), fun r => ?_⟩
        cases r with
        | none => trivial
        | some fileContent =>
          change Calls _ (if getMD5String fileContent = md5 then .ret (true, fileContent)
            else .ret (false, []))
          split <;> trivial
  | modeUseMd5AndBackup => trivial
  | modeInvalid => trivial

theorem deleteFile_calls (h : ∀ name ∈ physicalNames mode filename, P (.deleteFile name)) :
    Calls P (deleteFile mode filename) := by
  cases mode with
  | modeNormal => exact ⟨h _ (by simp [physicalNames]), fun _ => trivial⟩
  | modeUseMd5 =>
    refine ⟨h (mainFileName filename) (by simp [physicalNames]), fun deleted => ?_⟩
    cases deleted with
    | false => trivial
    | true => exact ⟨h (mainMd5FileName filename) (by simp [physicalNames]), fun _ => trivial⟩
  | modeUseMd5AndBackup => trivial
  | modeInvalid => trivial

end Calls

section Files

variable {getMD5String : Bytes → Bytes} {mode : SafeFileSaverMode} {N : Bytes → Prop}
  {content filename : Bytes} {append : Bool}

theorem md5SaveTry_calls (hdata : N (mainFileName filename))
    (hdigest : N (mainMd5FileName filename)) :
    Calls (OnFiles N) (md5SaveTry getMD5String content filename append) := by
  refine (updateFile_calls hdata hdata).bind fun updated => ?_
  cases updated with
  | false => trivial
  | true => exact (getFileMd5_calls hdata hdata).bind fun _ => storeMd5_calls hdigest hdigest

theorem saveInMode_calls (h : ∀ name ∈ physicalNames mode filename, N name) :
    Calls (OnFiles N) (saveInMode getMD5String mode content filename append) := by
  cases mode with
  | modeNormal =>
    have hname : N filename := h _ (by simp [physicalNames])
    exact Calls.retry (updateFile_calls hname hname) _
  | modeUseMd5 =>
    exact (md5SaveTry_calls (h _ (by simp [physicalNames])) (h _ (by simp [physicalNames]))).retry _
  | modeUseMd5AndBackup => trivial
  | modeInvalid => trivial

/-- Whatever the driver answers, an operation makes calls on the files of its target only. -/
theorem operation_calls {op : FileOp} (h : ∀ name ∈ physicalNames mode (target op), N name) :
    Calls (OnFiles N) (operation getMD5String mode op) := by
  cases op with
  | save content filename => exact (saveInMode_calls h).bind fun _ => trivial
  | append content filename => exact (saveInMode_calls h).bind fun _ => trivial
  | delete filename => exact (deleteFile_calls h).bind fun _ => trivial
  | load filename => exact (loadContentFromFile_calls h h).bind fun _ => trivial
  | doesExist filename => exact (doesFileExist_calls h).bind fun _ => trivial

end Files

section Fallible

variable {c : DriverCall} {d e : Disk} {name : Bytes}

theorem fallible_reads (hc : Reads c) (x : Fault) (d : Disk) : (fallible c x d).2 = d := by
  cases c with
  | readEntireFileToString name => cases x <;> rfl
  | doesFileExist name => cases x <;> rfl
  | _ => exact hc.elim

theorem reads_keep {α : Type} {p : DriverProgram α} (hp : Calls Reads p) (d : Disk) :
    CrashSafe fallible (fun _ t => t = d) (fun t => t = d) p d := by
  induction p with
  | ret b => exact ⟨rfl, rfl⟩
  | call c k ih =>
    refine ⟨rfl, fun x => ?_⟩
    rw [fallible_reads hp.1]
    exact ih _ (hp.2 _)

theorem fallible_local (hc : OnFiles (· = name) c) (x : Fault)
    (h : d.lookup name = e.lookup name) :
    (fallible c x d).1 = (fallible c x e).1 ∧
      (fallible c x d).2.lookup name = (fallible c x e).2.lookup name := by
  cases c with
  | filesList path => exact hc.elim
  | countFiles path => exact hc.elim
  | writeContentToFile content filename =>
    obtain rfl := hc
    rcases x with _ | _ | _ | _ <;> simp [fallible, Disk.answer, Residue.write, h]
  | appendContentToFile content filename =>
    obtain rfl := hc
    rcases x with _ | _ | _ | _ <;> simp [fallible, Disk.answer, Residue.append, h]
  | readEntireFileToString filename =>
    obtain rfl := hc
    cases x <;> simp [fallible, Disk.answer, h]
  | doesFileExist filename =>
    obtain rfl := hc
    cases x <;> simp [fallible, Disk.answer, h]
  | deleteFile filename =>
    obtain rfl := hc
    rcases x with _ | _ | _ | _ <;> simp [fallible, Disk.answer, Residue.delete, h]

theorem fallible_frame (hc : OnFiles (· = name) c) (x : Fault) {other : Bytes}
    (hother : other ≠ name) (d : Disk) : (fallible c x d).2.lookup other = d.lookup other := by
  cases c with
  | filesList path => exact hc.elim
  | countFiles path => exact hc.elim
  | writeContentToFile content filename =>
    obtain rfl := hc
    rcases x with _ | _ | _ | _ <;> simp [fallible, Disk.answer, Residue.write, hother]
  | appendContentToFile content filename =>
    obtain rfl := hc
    rcases x with _ | _ | _ | _ <;> simp [fallible, Disk.answer, Residue.append, hother]
  | readEntireFileToString filename => cases x <;> rfl
  | doesFileExist filename => cases x <;> rfl
  | deleteFile filename =>
    obtain rfl := hc
    rcases x with _ | _ | _ | _ <;> simp [fallible, Disk.answer, Residue.delete, hother]

theorem onFiles_name {N : Bytes → Prop} (hc : OnFiles N c) :
    ∃ name, N name ∧ OnFiles (· = name) c := by
  cases c with
  | filesList path => exact hc.elim
  | countFiles path => exact hc.elim
  | writeContentToFile content filename => exact ⟨filename, hc, rfl⟩
  | appendContentToFile content filename => exact ⟨filename, hc, rfl⟩
  | readEntireFileToString filename => exact ⟨filename, hc, rfl⟩
  | doesFileExist filename => exact ⟨filename, hc, rfl⟩
  | deleteFile filename => exact ⟨filename, hc, rfl⟩

end Fallible

theorem operation_run {getMD5String : Bytes → Bytes} {mode : SafeFileSaverMode} {op : FileOp}
    {d : Disk} :
    (operation getMD5String mode op).run Disk.answer d =
      manipulatorStep getMD5String mode op d := by
  cases op <;> simp only [operation, run_bind, pure_eq_ret, run_ret] <;> rfl

end FilesTouched
