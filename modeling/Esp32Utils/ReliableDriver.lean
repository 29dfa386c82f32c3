import Esp32Utils.SafeFileManipulator

/-! # The manipulator on a driver that never fails

What each operation returns and leaves, in terms of lookups. A load after some other
operation is always this one, run on the disk that operation left. -/
namespace ReliableDriver

open ByteStrings InteractionProgram FileSystemDriver SafeFileManipulator

variable {getMD5String : Bytes → Bytes} {mode : SafeFileSaverMode} {append : Bool}
  {content filename name md5 : Bytes} {d : Disk}

def updated (append : Bool) (content name : Bytes) (d : Disk) : Bytes :=
  if append then (d.lookup name).getD [] ++ content else content

/-- The disk with the data file and its digest file in step. -/
def certified (getMD5String : Bytes → Bytes) (filename content : Bytes) (d : Disk) : Disk :=
  (d.insert (mainFileName filename) content).insert (mainMd5FileName filename)
    (getMD5String content)

@[simp] theorem certified_data :
    (certified getMD5String filename content d).lookup (mainFileName filename) = some content := by
  simp [certified]

@[simp] theorem certified_digest :
    (certified getMD5String filename content d).lookup (mainMd5FileName filename) =
      some (getMD5String content) :=
  AList.lookup_insert _

theorem certified_data_ne {g : Bytes} (h : g ≠ filename) :
    (certified getMD5String filename content d).lookup (mainFileName g) =
      d.lookup (mainFileName g) := by
  simp [certified, h]

theorem certified_digest_ne {g : Bytes} (h : g ≠ filename) :
    (certified getMD5String filename content d).lookup (mainMd5FileName g) =
      d.lookup (mainMd5FileName g) := by
  simp [certified, h]

theorem run_updateFile :
    (updateFile append content name).run Disk.answer d =
      (true, d.insert name (updated append content name d)) := by
  cases append <;> rfl

theorem run_saveInNormalMode :
    (saveInNormalMode content filename append).run Disk.answer d =
      (true, d.insert filename (updated append content filename d)) :=
  run_retry_of_success run_updateFile 2

theorem run_getFileMd5 (h : d.lookup name = some content) :
    (AbstractFileSystemDriver.getFileMd5 getMD5String name).run Disk.answer d =
      (getMD5String content, d) := by
  simp [AbstractFileSystemDriver.getFileMd5, Disk.answer, h]

theorem run_storeMd5 :
    (storeMd5 md5 filename).run Disk.answer d =
      (true, d.insert (mainMd5FileName filename) md5) := by
  simp [storeMd5, Disk.answer]

theorem run_saveInMd5Mode :
    (saveInMd5Mode getMD5String content filename append).run Disk.answer d =
      (true, certified getMD5String filename
        (updated append content (mainFileName filename) d) d) := by
  refine run_retry_of_success ?_ 2
  simp only [md5SaveTry, run_bind, run_updateFile, Bool.true_eq_false, if_false,
    run_getFileMd5 (AList.lookup_insert d), run_storeMd5, certified]

def load (getMD5String : Bytes → Bytes) (mode : SafeFileSaverMode) (filename : Bytes) (d : Disk) :
    Bool × Bytes :=
  ((loadContentFromFile getMD5String mode filename).run Disk.answer d).1

theorem run_doesFileExist_md5 :
    (doesFileExist .modeUseMd5 filename).run Disk.answer d =
      ((d.lookup (mainFileName filename)).isSome && (d.lookup (mainMd5FileName filename)).isSome,
        d) := by
  cases h : d.lookup (mainFileName filename) <;> simp [doesFileExist, Disk.answer, h]

theorem run_deleteFile_md5 :
    (deleteFile .modeUseMd5 filename).run Disk.answer d =
      (true, (d.erase (mainFileName filename)).erase (mainMd5FileName filename)) := by
  simp [deleteFile, Disk.answer]

theorem run_loadInNormalMode :
    (loadInNormalMode filename).run Disk.answer d =
      (match d.lookup filename with
        | some content => (true, content)
        | none => (false, []), d) := by
  cases h : d.lookup filename <;> simp [loadInNormalMode, doesFileExist, Disk.answer, h]

theorem run_loadInMd5Mode :
    (loadInMd5Mode getMD5String filename).run Disk.answer d =
      (match d.lookup (mainFileName filename), d.lookup (mainMd5FileName filename) with
        | some content, some md5 =>
          if getMD5String content = md5 then (true, content) else (false, [])
        | _, _ => (false, []), d) := by
  cases hc : d.lookup (mainFileName filename) with
  | none => simp [loadInMd5Mode, doesFileExist, Disk.answer, hc]
  | some content =>
    cases hm : d.lookup (mainMd5FileName filename) with
    | none => simp [loadInMd5Mode, doesFileExist, Disk.answer, hc, hm]
    | some md5 =>
      simp only [loadInMd5Mode, doesFileExist, Disk.answer, run_bind, run_doesFileExist, hc]
      by_cases he : getMD5String content = md5 <;> simp [he, Disk.answer, hc, hm]

/-- In MD5 mode a load returns what the digest file certifies, and nothing else. -/
theorem load_md5_eq_true :
    load getMD5String .modeUseMd5 filename d = (true, content) ↔
      d.lookup (mainFileName filename) = some content ∧
        d.lookup (mainMd5FileName filename) = some (getMD5String content) := by
  unfold load loadContentFromFile
  rw [run_loadInMd5Mode]
  cases hc : d.lookup (mainFileName filename) with
  | none => simp
  | some c =>
    cases hm : d.lookup (mainMd5FileName filename) with
    | none => simp
    | some m =>
      simp only [Option.some.injEq]
      split
      · rename_i he
        simp only [Prod.mk.injEq, true_and]
        constructor
        · rintro rfl
          exact ⟨rfl, he.symm⟩
        · exact And.left
      · rename_i he
        simp only [Prod.mk.injEq, Bool.false_eq_true, false_and, false_iff]
        intro h
        obtain ⟨rfl, rfl⟩ := h
        exact he rfl

theorem load_normal_eq_true :
    load getMD5String .modeNormal filename d = (true, content) ↔
      d.lookup filename = some content := by
  unfold load loadContentFromFile
  rw [run_loadInNormalMode]
  cases h : d.lookup filename <;> simp

end ReliableDriver
