import Esp32Utils.FilteringLoops
import Mathlib.Data.Set.Card

/-! # Listing against existence in MD5 mode

A listing splits each entry at its first dot, while existence appends the extensions to
the name. The two agree on names without a dot; a file saved under a dotted name exists
and is neither listed nor counted. -/
namespace DirectoryListing

open ByteStrings InteractionProgram FileSystemDriver SafeFileManipulator FilteringLoops

variable {entries : List Bytes}

section Driver

variable {σ : Type} {h : Handler IFileSystemDriver σ} {s : σ} {directory n : Bytes}

theorem run_dataFilesList (hl : h (.filesList directory) s = (entries, s)) :
    (dataFilesList .modeUseMd5 directory).run h s = (entries.filterMap (dataName entries), s) := by
  simp [dataFilesList, hl, filtered_eq]

def inDirectory (directory n : Bytes) : Bytes := directory ++ [slash] ++ n

/-- A driver that lists each entry name of the directory once and answers for full paths. -/
structure Lists (h : Handler IFileSystemDriver σ) (s : σ) (directory : Bytes)
    (entries : List Bytes) : Prop where
  filesList : h (.filesList directory) s = (entries, s)
  nodup : entries.Nodup
  bare : ∀ e ∈ entries, slash ∉ e
  doesFileExist : ∀ n, slash ∉ n →
    h (.doesFileExist (inDirectory directory n)) s = (decide (n ∈ entries), s)

theorem run_exists (hl : Lists h s directory entries) (hn : slash ∉ n) :
    (doesFileExist .modeUseMd5 (inDirectory directory n)).run h s =
      (decide (n ++ dataExtension ∈ entries ∧ n ++ md5Extension ∈ entries), s) := by
  have hd := hl.doesFileExist (n ++ dataExtension) (by simpa using ⟨hn, by decide⟩)
  have hm := hl.doesFileExist (n ++ md5Extension) (by simpa using ⟨hn, by decide⟩)
  have he : ∀ e, inDirectory directory (n ++ e) = inDirectory directory n ++ e :=
    fun e => (List.append_assoc _ n e).symm
  rw [he] at hd hm
  by_cases hin : n ++ dataExtension ∈ entries <;>
    simp [doesFileExist, mainFileName, mainMd5FileName, getFileNameWithExtension, hd, hm, hin]

theorem mem_listing :
    n ∈ entries.filterMap (dataName entries) ↔
      dot ∉ n ∧ n ++ dataExtension ∈ entries ∧ n ++ md5Extension ∈ entries := by
  rw [List.mem_filterMap]
  constructor
  · intro hn
    obtain ⟨e, he, hn⟩ := hn
    obtain ⟨hd, rfl, hm⟩ := dataName_eq_some.mp hn
    exact ⟨hd, he, hm⟩
  · intro hn
    exact ⟨_, hn.2.1, dataName_eq_some.mpr ⟨hn.1, rfl, hn.2.2⟩⟩

theorem nodup_listing (hnd : entries.Nodup) : (entries.filterMap (dataName entries)).Nodup := by
  refine List.Nodup.filterMap (fun e e' b hb hb' => ?_) hnd
  rw [(dataName_eq_some.mp hb).2.1, (dataName_eq_some.mp hb').2.1]

/-- The listing and the count of a directory are what existence says. -/
def Agrees (h : Handler IFileSystemDriver σ) (s : σ) (directory : Bytes) : Prop :=
  (∀ n, slash ∉ n → ((dataFilesList .modeUseMd5 directory).run h s).1.count n =
    if ((doesFileExist .modeUseMd5 (inDirectory directory n)).run h s).1 then 1 else 0) ∧
  ((countFilesInDirectory .modeUseMd5 directory).run h s).1 = Set.ncard {n | slash ∉ n ∧
    ((doesFileExist .modeUseMd5 (inDirectory directory n)).run h s).1 = true}

/-- A listing agrees with existence exactly when no dotted name has both physical files. -/
theorem listing_agrees_iff (h : Handler IFileSystemDriver σ) (s : σ) (directory : Bytes)
    (entries : List Bytes) (hl : Lists h s directory entries) :
    Agrees h s directory ↔
      ∀ n, n ++ dataExtension ∈ entries → n ++ md5Extension ∈ entries → dot ∉ n := by
  have hbare : ∀ n, n ++ dataExtension ∈ entries → slash ∉ n :=
    fun n hn hs => hl.bare _ hn (List.mem_append_left _ hs)
  have hlist := run_dataFilesList hl.filesList
  have hcount : ∀ n, (entries.filterMap (dataName entries)).count n =
      if dot ∉ n ∧ n ++ dataExtension ∈ entries ∧ n ++ md5Extension ∈ entries then 1 else 0 := by
    intro n
    rw [(nodup_listing hl.nodup).count]
    simp only [mem_listing]
  constructor
  · intro ha n hd hm hdot
    have hn := ha.1 n (hbare n hd)
    rw [hlist, run_exists hl (hbare n hd), hcount] at hn
    simp [hd, hm, hdot] at hn
  · intro hc
    constructor
    · intro n hs
      rw [hlist, run_exists hl hs, hcount]
      by_cases hd : n ++ dataExtension ∈ entries <;>
        by_cases hm : n ++ md5Extension ∈ entries <;> simp [hd, hm]
      exact hc n hd hm
    · have hset : {n | slash ∉ n ∧
          ((doesFileExist .modeUseMd5 (inDirectory directory n)).run h s).1 = true} =
            ↑(entries.filterMap (dataName entries)).toFinset := by
        ext n
        rw [List.coe_toFinset, Set.mem_ofPred_eq, Set.mem_ofPred_eq, mem_listing]
        constructor
        · intro hn
          rw [run_exists hl hn.1, decide_eq_true_eq] at hn
          exact ⟨hc n hn.2.1 hn.2.2, hn.2⟩
        · intro hn
          have hs := hbare n hn.2.1
          rw [run_exists hl hs, decide_eq_true_eq]
          exact ⟨hs, hn.2⟩
      rw [hset, Set.ncard_coe_finset, List.toFinset_card_of_nodup (nodup_listing hl.nodup)]
      simp [countFilesInDirectory, hlist]

end Driver

section Disk

variable {d : Disk} {path full n : Bytes}

theorem entryName_eq_some :
    entryName path full = some n ↔ full = inDirectory path n ∧ slash ∉ n := by
  unfold entryName inDirectory
  have hlen : (path ++ [slash]).length = path.length + 1 := by simp
  constructor
  · intro h
    split at h
    · rename_i hc
      obtain rfl := Option.some.inj h
      obtain ⟨t, rfl⟩ := hc.1
      rw [← hlen, List.drop_left] at hc ⊢
      exact ⟨rfl, hc.2⟩
    · cases h
  · intro h
    obtain ⟨rfl, hn⟩ := h
    rw [← hlen, List.drop_left]
    simp [hn]

theorem mem_entries : n ∈ Disk.entries d path ↔ inDirectory path n ∈ d ∧ slash ∉ n := by
  unfold Disk.entries
  rw [List.mem_filterMap]
  constructor
  · intro h
    obtain ⟨full, hf, hn⟩ := h
    obtain ⟨rfl, hs⟩ := entryName_eq_some.mp hn
    exact ⟨hf, hs⟩
  · intro h
    exact ⟨_, h.1, entryName_eq_some.mpr ⟨rfl, h.2⟩⟩

theorem nodup_entries (d : Disk) (path : Bytes) : (Disk.entries d path).Nodup := by
  refine List.Nodup.filterMap (fun f f' n hn hn' => ?_) d.keys_nodup
  rw [(entryName_eq_some.mp hn).1, (entryName_eq_some.mp hn').1]

theorem disk_lists (d : Disk) (directory : Bytes) :
    Lists Disk.answer d directory (Disk.entries d directory) where
  filesList := rfl
  nodup := nodup_entries d directory
  bare := fun _ he => (mem_entries.mp he).2
  doesFileExist := by
    intro n hn
    refine Prod.ext ?_ rfl
    rw [Bool.eq_iff_iff, decide_eq_true_eq, mem_entries, and_iff_left hn]
    change (d.lookup _).isSome = true ↔ _
    exact AList.lookup_isSome

def spiffsDirectory : Bytes := ascii "/spiffs"

def savedDisk (name : String) : Disk :=
  ((saveContentToFile sampleMd5 .modeUseMd5 (ascii "a")
    (inDirectory spiffsDirectory (ascii name))).run Disk.answer ∅).2

theorem listing_agrees_iff_sample :
    Agrees Disk.answer (savedDisk "a") spiffsDirectory ↔
      ∀ n, n ++ dataExtension ∈ Disk.entries (savedDisk "a") spiffsDirectory →
        n ++ md5Extension ∈ Disk.entries (savedDisk "a") spiffsDirectory → dot ∉ n :=
  listing_agrees_iff Disk.answer (savedDisk "a") spiffsDirectory _ (disk_lists _ _)

/-- A file saved under a dotted name exists, and is neither listed nor counted. -/
theorem dotted_name_not_listed :
    let d := savedDisk "a.b"
    ((doesFileExist .modeUseMd5 (inDirectory spiffsDirectory (ascii "a.b"))).run
        Disk.answer d).1 = true ∧
      ((dataFilesList .modeUseMd5 spiffsDirectory).run Disk.answer d).1 = [] ∧
      ((countFilesInDirectory .modeUseMd5 spiffsDirectory).run Disk.answer d).1 = 0 := by
  decide

end Disk

end DirectoryListing
