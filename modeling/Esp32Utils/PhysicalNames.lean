import Esp32Utils.SafeFileManipulator
import Mathlib.Data.List.Infix

/-! # Physical file names

Each role of a file has a suffix. The suffix of the digest ends the suffix of the digest of the
backup, which no mode that is implemented uses. -/
namespace PhysicalNames

open ByteStrings SafeFileManipulator

section Written

variable {α R : Type} {suffix : R → List α} {a f g : List α} {r s : R}

def written (suffix : R → List α) (name : List α) (role : R) : List α := name ++ suffix role

theorem written_eq_iff : written suffix f r = written suffix g s ↔
    ∃ c, (f = g ++ c ∧ suffix s = c ++ suffix r) ∨ (g = f ++ c ∧ suffix r = c ++ suffix s) := by
  rw [written, written, List.append_eq_append_iff]
  constructor
  · intro h
    rcases h with ⟨c, hg, hr⟩ | ⟨c, hf, hs⟩
    · exact ⟨c, Or.inr ⟨hg, hr⟩⟩
    · exact ⟨c, Or.inl ⟨hf, hs⟩⟩
  · intro h
    rcases h with ⟨c, ⟨hf, hs⟩ | ⟨hg, hr⟩⟩
    · exact Or.inr ⟨c, hf, hs⟩
    · exact Or.inl ⟨c, hg, hr⟩

theorem written_of_ends (h : suffix s = a ++ suffix r) :
    written suffix (f ++ a) r = written suffix f s := by
  rw [written, written, h, List.append_assoc]

end Written

def suffix : SafeSaverFileType → Bytes
  | .fileMain => dataExtension
  | .fileBackup => backupExtension
  | .fileMd5Main => md5Extension
  | .fileMd5Backup => backupPostfix ++ md5Extension

section Suffixes

variable {f g c : Bytes} {r s : SafeSaverFileType}

theorem getFileNameWithExtension_eq : getFileNameWithExtension f r = written suffix f r := by
  cases r with
  | fileMd5Backup => exact List.append_assoc f backupPostfix md5Extension
  | _ => rfl

theorem suffix_ends (h : suffix r <:+ suffix s) :
    r = s ∨ (r = .fileMd5Main ∧ s = .fileMd5Backup) := by
  cases r with
  | fileMain =>
    cases s with
    | fileMain => exact Or.inl rfl
    | _ => exact absurd h (by decide)
  | fileBackup =>
    cases s with
    | fileBackup => exact Or.inl rfl
    | _ => exact absurd h (by decide)
  | fileMd5Main =>
    cases s with
    | fileMd5Main => exact Or.inl rfl
    | fileMd5Backup => exact Or.inr ⟨rfl, rfl⟩
    | _ => exact absurd h (by decide)
  | fileMd5Backup =>
    cases s with
    | fileMd5Backup => exact Or.inl rfl
    | _ => exact absurd h (by decide)

theorem suffix_split (h : suffix s = c ++ suffix r) :
    (r = s ∧ c = []) ∨ (r = .fileMd5Main ∧ s = .fileMd5Backup ∧ c = backupPostfix) := by
  rcases suffix_ends ⟨c, h.symm⟩ with rfl | ⟨rfl, rfl⟩
  · exact Or.inl ⟨rfl, List.append_left_eq_self.mp h.symm⟩
  · exact Or.inr ⟨rfl, rfl, List.append_cancel_right h.symm⟩

end Suffixes

/-- Two physical names are equal exactly when name and role are, or when one is the digest of a
name that ends with the postfix and the other the digest of the backup of that name without it. -/
theorem names_equal_iff (f g : Bytes) (r s : SafeSaverFileType) :
    getFileNameWithExtension f r = getFileNameWithExtension g s ↔
      (f = g ∧ r = s) ∨
      (r = .fileMd5Main ∧ s = .fileMd5Backup ∧ f = g ++ backupPostfix) ∨
      (r = .fileMd5Backup ∧ s = .fileMd5Main ∧ g = f ++ backupPostfix) := by
  rw [getFileNameWithExtension_eq, getFileNameWithExtension_eq]
  constructor
  · intro h
    rcases written_eq_iff.mp h with ⟨c, ⟨hf, hs⟩ | ⟨hg, hr⟩⟩
    · rcases suffix_split hs with ⟨hrs, rfl⟩ | ⟨hmain, hbackup, rfl⟩
      · exact Or.inl ⟨hf.trans (List.append_nil g), hrs⟩
      · exact Or.inr (Or.inl ⟨hmain, hbackup, hf⟩)
    · rcases suffix_split hr with ⟨hsr, rfl⟩ | ⟨hmain, hbackup, rfl⟩
      · exact Or.inl ⟨(hg.trans (List.append_nil f)).symm, hsr.symm⟩
      · exact Or.inr (Or.inr ⟨hbackup, hmain, hg⟩)
  · intro h
    rcases h with ⟨rfl, rfl⟩ | ⟨rfl, rfl, rfl⟩ | ⟨rfl, rfl, rfl⟩
    · rfl
    · apply written_of_ends
      rfl
    · symm
      apply written_of_ends
      rfl

/-- The digest of the backup of one file is the digest of another. -/
theorem backup_digest_is_digest :
    getFileNameWithExtension (ascii "x") .fileMd5Backup =
        getFileNameWithExtension (ascii "x_b") .fileMd5Main ∧
      ¬ ∀ f g r s, getFileNameWithExtension f r = getFileNameWithExtension g s →
        f = g ∧ r = s := by
  have hequal : getFileNameWithExtension (ascii "x") .fileMd5Backup =
      getFileNameWithExtension (ascii "x_b") .fileMd5Main := by decide
  refine ⟨hequal, ?_⟩
  intro hall
  exact absurd (hall _ _ _ _ hequal).2 (by decide)

end PhysicalNames
