import Esp32Utils.ReliableDriver

/-! # Appends to a corrupted file

An append in MD5 mode takes the digest of whatever the data file holds afterwards and
overwrites the old one, without comparing that with the data first. So the first append
makes a corrupted file loadable again, with its corrupted bytes. -/
namespace AppendLaundering

open ByteStrings InteractionProgram FileSystemDriver SafeFileManipulator ReliableDriver

variable {getMD5String : Bytes → Bytes} {filename data c : Bytes} {contents : List Bytes}
  {d : Disk}

/-- Both physical files exist and the digest is not the one of the data. -/
structure Corrupted (getMD5String : Bytes → Bytes) (filename data : Bytes) (d : Disk) : Prop where
  data_file : d.lookup (mainFileName filename) = some data
  digest_file : ∃ md5, d.lookup (mainMd5FileName filename) = some md5 ∧ md5 ≠ getMD5String data

theorem Corrupted.load_fails (h : Corrupted getMD5String filename data d) :
    load getMD5String .modeUseMd5 filename d = (false, []) := by
  obtain ⟨md5, hm, hne⟩ := h.digest_file
  simp only [load, loadContentFromFile, run_loadInMd5Mode, h.data_file, hm, if_neg hne.symm]

def appendEach (getMD5String : Bytes → Bytes) (filename : Bytes) (d : Disk)
    (contents : List Bytes) : Disk :=
  contents.foldl (fun d content =>
    ((appendContentToFile getMD5String .modeUseMd5 content filename).run Disk.answer d).2) d

/-- The first append needs only the data file; from then on the digest is in step. -/
theorem load_append (h : d.lookup (mainFileName filename) = some data) :
    load getMD5String .modeUseMd5 filename (appendEach getMD5String filename d [c]) =
      (true, data ++ c) := by
  simp only [appendEach, List.foldl_cons, List.foldl_nil, appendContentToFile, saveInMode,
    run_saveInMd5Mode, load_md5_eq_true, updated, h]
  simp

theorem load_appendEach (h : load getMD5String .modeUseMd5 filename d = (true, data)) :
    load getMD5String .modeUseMd5 filename (appendEach getMD5String filename d contents) =
      (true, data ++ contents.flatten) := by
  induction contents generalizing d data with
  | nil => simpa [appendEach] using h
  | cons c contents ih =>
    have hc := @load_append getMD5String filename data c d (load_md5_eq_true.mp h).1
    rw [List.flatten_cons, ← List.append_assoc]
    exact ih hc

/-- Any appends to a corrupted file make it load, corrupted bytes included. -/
theorem append_launders (getMD5String : Bytes → Bytes) (d : Disk) (filename data : Bytes)
    (hd : Corrupted getMD5String filename data d) (contents : List Bytes) (hne : contents ≠ []) :
    load getMD5String .modeUseMd5 filename (appendEach getMD5String filename d contents) =
      (true, data ++ contents.flatten) := by
  obtain ⟨c, contents, rfl⟩ := List.exists_cons_of_ne_nil hne
  have hc := @load_append getMD5String filename data c d hd.data_file
  rw [List.flatten_cons, ← List.append_assoc]
  exact load_appendEach hc

def corruptedDisk : Disk :=
  AList.insert (mainFileName (ascii "f")) (ascii "b")
    (AList.insert (mainMd5FileName (ascii "f")) (sampleMd5 (ascii "a")) ∅)

theorem corruptedDisk_corrupted : Corrupted sampleMd5 (ascii "f") (ascii "b") corruptedDisk :=
  ⟨by decide, sampleMd5 (ascii "a"), by decide, by decide⟩

theorem append_launders_sample :
    load sampleMd5 .modeUseMd5 (ascii "f")
      (appendEach sampleMd5 (ascii "f") corruptedDisk [ascii "a", []]) =
        (true, ascii "b" ++ [ascii "a", []].flatten) :=
  append_launders sampleMd5 corruptedDisk (ascii "f") (ascii "b") corruptedDisk_corrupted
    [ascii "a", []] (by simp)

theorem corrupted_file_loads :
    load sampleMd5 .modeUseMd5 (ascii "f") corruptedDisk = (false, []) ∧
      load sampleMd5 .modeUseMd5 (ascii "f")
        (appendEach sampleMd5 (ascii "f") corruptedDisk [ascii "a"]) = (true, ascii "ba") :=
  ⟨corruptedDisk_corrupted.load_fails, by decide⟩

end AppendLaundering
