import Esp32Utils.DirectoryListing
import Esp32Utils.SpiffsIdfDriver

/-! # Deleting all files of a directory through SPIFFS_IDFDriver

A listing yields bare entry names, and these are handed to the driver as they are. A
bare name does not resolve, and deleting a name that is not found is a success. So the
operation removes nothing and reports success, whatever the directory holds. -/
namespace DeleteAllFiles

open ByteStrings InteractionProgram FileSystemDriver SafeFileManipulator DirectoryListing
open Libc SpiffsIdfDriver

variable {resolves : Bytes → Bool} {mode : SafeFileSaverMode} {directory name : Bytes} {v : Vfs}

def NothingListed : SafeFileSaverMode → List Bytes → Prop
  | .modeUseMd5, entries =>
    ∀ b, dot ∉ b → ¬ (b ++ dataExtension ∈ entries ∧ b ++ md5Extension ∈ entries)
  | _, entries => entries = []

/-- A reported success means that nothing is listed any more and that every file outside
the directory is as it was. -/
def TellsTruth (resolves : Bytes → Bool) (mode : SafeFileSaverMode) (directory : Bytes)
    (v : Vfs) : Prop :=
  let after := (deleteAllFiles mode directory).run (spiffs resolves) v
  after.1 = true →
    ((dataFilesList mode directory).run (spiffs resolves) after.2).1 = [] ∧
      ∀ path, entryName (cStr directory) path = none →
        after.2.files.lookup path = v.files.lookup path

theorem listed_bare (h : name ∈ listed resolves v directory) : slash ∉ name := by
  unfold listed at h
  split at h
  · exact (mem_entries.mp h).2
  · cases h

theorem delete_bare (hbare : ∀ name, slash ∉ name → resolves name = false) (h : slash ∉ name) :
    spiffs resolves (.deleteFile name) v = (true, v) := by
  have hc : slash ∉ cStr name := fun hs => h ((List.takeWhile_prefix _).subset hs)
  exact run_spiffsDelete_unresolved (hbare _ hc)

theorem run_deleteFile_bare (hbare : ∀ name, slash ∉ name → resolves name = false)
    (hmode : mode = .modeNormal ∨ mode = .modeUseMd5) (h : slash ∉ name) :
    (deleteFile mode name).run (spiffs resolves) v = (true, v) := by
  rcases hmode with rfl | rfl
  · exact delete_bare hbare h
  · have hd : slash ∉ mainFileName name := by
      rw [mainFileName, getFileNameWithExtension, List.mem_append, not_or]
      exact ⟨h, by decide⟩
    have hm : slash ∉ mainMd5FileName name := by
      rw [mainMd5FileName, getFileNameWithExtension, List.mem_append, not_or]
      exact ⟨h, by decide⟩
    simp [deleteFile, delete_bare hbare hd, delete_bare hbare hm]

theorem run_deleteEach {σ : Type} {h : Handler IFileSystemDriver σ} {s : σ} {files : List Bytes}
    (hf : ∀ f ∈ files, (deleteFile mode f).run h s = (true, s)) :
    (deleteEach mode files).run h s = (true, s) := by
  induction files with
  | nil => rfl
  | cons f files ih =>
    have hhead := hf f List.mem_cons_self
    have htail := ih fun g hg => hf g (List.mem_cons_of_mem _ hg)
    simp [deleteEach, hhead, htail]

theorem run_listing (hmode : mode = .modeNormal ∨ mode = .modeUseMd5) :
    ∃ names, (dataFilesList mode directory).run (spiffs resolves) v = (names, v) ∧
      (∀ n ∈ names, slash ∉ n) ∧
      (names = [] ↔ NothingListed mode (listed resolves v directory)) := by
  have hl : spiffs resolves (.filesList directory) v = (listed resolves v directory, v) :=
    run_spiffsFilesList
  rcases hmode with rfl | rfl
  · exact ⟨_, hl, fun n hn => listed_bare hn, Iff.rfl⟩
  · refine ⟨_, run_dataFilesList hl, fun n hn hs => ?_, ?_⟩
    · exact listed_bare (mem_listing.mp hn).2.1 (List.mem_append_left _ hs)
    · rw [List.eq_nil_iff_forall_not_mem]
      simp only [mem_listing, NothingListed, not_and]

/-- The operation tells the truth exactly when there was nothing to delete. -/
theorem delete_all_truthful_iff (resolves : Bytes → Bool)
    (hbare : ∀ name, slash ∉ name → resolves name = false) (mode : SafeFileSaverMode)
    (hmode : mode = .modeNormal ∨ mode = .modeUseMd5) (directory : Bytes) (v : Vfs) :
    TellsTruth resolves mode directory v ↔
      NothingListed mode (listed resolves v directory) := by
  obtain ⟨names, hrun, hnames, hempty⟩ := @run_listing resolves mode directory v hmode
  have hdelete : (deleteEach mode names).run (spiffs resolves) v = (true, v) :=
    run_deleteEach fun f hf => run_deleteFile_bare hbare hmode (hnames f hf)
  have hafter : (deleteAllFiles mode directory).run (spiffs resolves) v = (true, v) := by
    simp only [deleteAllFiles, run_bind, hrun, hdelete]
  rw [← hempty]
  simp [TellsTruth, hafter, hrun]

def underSpiffs (path : Bytes) : Bool := spiffsDirectory.isPrefixOf path

theorem underSpiffs_bare (name : Bytes) (h : slash ∉ name) : underSpiffs name = false := by
  rw [← Bool.not_eq_true, underSpiffs, List.isPrefixOf_iff_prefix]
  intro hp
  exact h (hp.subset (by decide))

theorem delete_all_truthful_iff_sample :
    TellsTruth underSpiffs .modeUseMd5 spiffsDirectory (mounted (savedDisk "a")) ↔
      NothingListed .modeUseMd5 (listed underSpiffs (mounted (savedDisk "a")) spiffsDirectory) :=
  delete_all_truthful_iff underSpiffs underSpiffs_bare .modeUseMd5 (Or.inr rfl) spiffsDirectory _

/-- One saved file: deleting all files succeeds in either mode, and it is still listed. -/
theorem delete_all_keeps_files :
    let v := mounted (savedDisk "a")
    let normal := (deleteAllFiles .modeNormal spiffsDirectory).run (spiffs underSpiffs) v
    let md5 := (deleteAllFiles .modeUseMd5 spiffsDirectory).run (spiffs underSpiffs) v
    normal.1 = true ∧
      ((dataFilesList .modeNormal spiffsDirectory).run (spiffs underSpiffs) normal.2).1 =
        [ascii "a.m", ascii "a.d"] ∧
    md5.1 = true ∧
      ((dataFilesList .modeUseMd5 spiffsDirectory).run (spiffs underSpiffs) md5.2).1 =
        [ascii "a"] := by
  decide

end DeleteAllFiles
