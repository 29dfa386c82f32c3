import Esp32Utils.FallibleDriver
import Esp32Utils.FilesTouched
import Esp32Utils.SpiffsDriver

/-! # SPIFFSDriver is an honest driver that may fail

On a flash whose calls may fail, each function of the driver on one file answers and leaves what
a fallible driver may, wherever it is cut off. This needs three promises of the platform, and
needs them all. -/
namespace HonestDriver

open ByteStrings InteractionProgram InteractionCrash InteractionLayers FileSystemDriver
open SafeFileManipulator ReliableDriver FallibleDriver FilesTouched ArduinoSpiffs SpiffsDriver

def Holds (s : Flash) (d : Disk) : Prop := s.files = d

/-- A name that reaches the flash as it is and is not refused there. -/
def Proper (name : Bytes) : Prop := fromRoot name = true ∧ 0 ∉ name

section Names

variable {mode : SafeFileSaverMode} {f name : Bytes}

def extensionLength : SafeFileSaverMode → ℕ
  | .modeUseMd5 => dataExtension.length
  | _ => 0

theorem physical_name (hname : name ∈ physicalNames mode f) :
    ∃ extension, name = f ++ extension ∧ extension.length = extensionLength mode ∧
      0 ∉ extension ∧ fromRoot extension = false := by
  cases mode with
  | modeNormal =>
    obtain rfl := List.mem_singleton.mp hname
    exact ⟨[], (List.append_nil _).symm, rfl, List.not_mem_nil, rfl⟩
  | modeUseMd5 =>
    simp only [physicalNames, List.mem_cons, List.not_mem_nil, or_false] at hname
    rcases hname with rfl | rfl
    · exact ⟨dataExtension, rfl, rfl, by decide, by decide⟩
    · exact ⟨md5Extension, rfl, rfl, by decide, by decide⟩
  | modeUseMd5AndBackup => cases hname
  | modeInvalid => cases hname

theorem fromRoot_physical (hname : name ∈ physicalNames mode f) : fromRoot name = fromRoot f := by
  obtain ⟨extension, rfl, -, -, hroot⟩ := physical_name hname
  cases f with
  | nil => exact hroot
  | cons a f => rfl

theorem noNul_physical (hf : 0 ∉ f) (hname : name ∈ physicalNames mode f) : 0 ∉ name := by
  obtain ⟨extension, rfl, -, hnoNul, -⟩ := physical_name hname
  exact fun h => (List.mem_append.mp h).elim hf hnoNul

theorem Proper.physical (h : Proper f) (hname : name ∈ physicalNames mode f) : Proper name :=
  ⟨(fromRoot_physical hname).trans h.1, noNul_physical h.2 hname⟩

end Names

abbrev Named : DriverCall → Prop := OnFiles Proper

variable {g : Guarantees} {listing : Disk → Bytes → List Bytes} {d : Disk} {s : Flash}
  {content filename path old : Bytes}

theorem flush_eq {t : Stream} (h : s.files = d.insert t.path old) (n : ℕ) :
    s.flush t n = d.insert t.path (old ++ t.buffered.take n) := by
  unfold Flash.flush
  split
  · rename_i hnil
    rw [hnil, List.append_nil]
    exact h
  · rw [Flash.content, h, AList.lookup_insert, Option.getD_some, AList.insert_insert]

/-- A stream has taken some bytes: the first are in the file and the rest are buffered. -/
def Writing (file : File) (d : Disk) (path old taken : Bytes) (s : Flash) : Prop :=
  ∃ t flushed, s.streams file.handle = some t ∧ t.path = path ∧
    s.files = d.insert path (old ++ flushed) ∧ flushed ++ t.buffered = taken

variable {file : File} {taken : Bytes}

theorem Writing.write (h : Writing file d path old taken s) (g : Guarantees)
    (listing : Disk → Bytes → List Bytes) (data : Bytes) (o : Outcome) :
    ∃ more, more <+: data ∧ (o.works = true → more = data) ∧
      (flash g listing (.write file data) o s).1 = more.length ∧
      Writing file d path old (taken ++ more) (flash g listing (.write file data) o s).2 := by
  obtain ⟨t, flushed, hstream, rfl, hfiles, rfl⟩ := h
  let more := if o.works then data else data.take o.handled
  have hmore : more <+: data := by
    unfold more
    split
    · exact List.prefix_rfl
    · exact List.take_prefix _ _
  have hflush := flush_eq (t := { t with buffered := t.buffered ++ more }) hfiles o.flushed
  rw [List.append_assoc] at hflush
  refine ⟨more, hmore, fun hw => if_pos hw, ?_, ?_⟩
  · simp only [flash, hstream, more]
  · simp only [flash, hstream]
    refine ⟨_, _, Function.update_self .., rfl, hflush, ?_⟩
    rw [List.append_assoc, List.take_append_drop, List.append_assoc]

theorem Writing.close (h : Writing file d path old taken s) (hg : g.closeFlushes = true)
    (listing : Disk → Bytes → List Bytes) (o : Outcome) :
    (flash g listing (.close (some file)) o s).2.files = d.insert path (old ++ taken) := by
  obtain ⟨t, flushed, hstream, rfl, hfiles, rfl⟩ := h
  simp only [flash, hstream, hg, Bool.true_or, if_true]
  rw [flush_eq hfiles, List.take_length, List.append_assoc]

/-- The file holds its old content and the beginning of the new one, or was not opened. -/
def Begun (d : Disk) (path old content : Bytes) (s : Flash) : Prop :=
  s.files = d ∨ ∃ part, part <+: content ∧ s.files = d.insert path (old ++ part)

theorem Writing.begun (h : Writing file d path old taken s) (ht : taken <+: content) :
    Begun d path old content s := by
  obtain ⟨t, flushed, -, -, hfiles, rfl⟩ := h
  exact Or.inr ⟨flushed, (List.prefix_append _ _).trans ht, hfiles⟩

theorem printed_safe (hg : g.closeFlushes = true) (h : Writing file d path old [] s) :
    CrashSafe (flash g listing)
      (fun b t => Begun d path old content t ∧
        (b = true → t.files = d.insert path (old ++ content)))
      (Begun d path old content)
      (do
        let result ← SPIFFSDriver.printContentToStream content file
        close (some file)
        return result) s := by
  refine ⟨h.begun List.nil_prefix, fun o => ?_⟩
  obtain ⟨taken, htaken, -, hlen, hwrite⟩ := h.write g listing content o
  refine ⟨hwrite.begun htaken, fun o' => ?_⟩
  have hfiles := hwrite.close hg listing o'
  have hend : Begun d path old content (flash g listing (.close (some file)) o'
      (flash g listing (.write file content) o s).2).2 := Or.inr ⟨taken, htaken, hfiles⟩
  refine ⟨hend, hend, fun hb => ?_⟩
  rw [hlen, beq_iff_eq] at hb
  rw [hfiles, htaken.eq_of_length hb, List.nil_append]

def kept (append : Bool) (path : Bytes) (d : Disk) : Bytes :=
  if append then (d.lookup path).getD [] else []

theorem prepared_writing (s : Flash) (path : Bytes) (append : Bool) :
    s.prepared path (if append then .fileAppend else .fileWrite) =
      s.files.insert path (kept append path s.files ++ []) := by
  rw [List.append_nil]
  cases append <;> rfl

theorem open_writing (s : Flash) (append : Bool) (hroot : fromRoot path = true) {o : Outcome}
    (hw : o.works = true) :
    ∃ file t, flash g listing (.open path (if append then .fileAppend else .fileWrite)) o s =
        (some file, t) ∧
      Writing file s.files path (kept append path s.files) [] t := by
  refine ⟨_, _, by simp only [flash, hroot, hw, if_true]; rfl, ⟨path, 0, [], _⟩, [],
    Function.update_self .., rfl, ?_, rfl⟩
  exact prepared_writing s path append

/-- A file that could not be opened may have been created. -/
theorem open_failed (append : Bool) {o : Outcome} (hw : o.works = false) :
    ∃ t, flash g listing (.open path (if append then .fileAppend else .fileWrite)) o s =
        (none, t) ∧
      Begun s.files path (kept append path s.files) content t := by
  have hstay : Begun s.files path (kept append path s.files) content s := Or.inl rfl
  have hempty := prepared_writing s path append
  simp only [flash, hw, Bool.false_eq_true, if_false]
  split
  · refine ⟨_, rfl, ?_⟩
    split
    · exact hstay
    · exact Or.inr ⟨[], List.nil_prefix, hempty⟩
  · exact ⟨s, rfl, hstay⟩

theorem open_reading_failed {o : Outcome} (hw : o.works = false) :
    flash g listing (.open path .fileRead) o s = (none, s) := by
  simp only [flash, hw, Bool.false_eq_true, if_false, Flash.prepared, ite_self]

theorem write_safe (hg : g.closeFlushes = true) (append : Bool) (hname : Proper filename) :
    CrashSafe (flash g listing)
      (fun b t => Begun s.files filename (kept append filename s.files) content t ∧
        (b = true → t.files = s.files.insert filename (kept append filename s.files ++ content)))
      (Begun s.files filename (kept append filename s.files) content)
      (SPIFFSDriver.doWriteContentToFile content filename append) s := by
  have hstart : Begun s.files filename (kept append filename s.files) content s := Or.inl rfl
  unfold SPIFFSDriver.doWriteContentToFile
  rw [cStr_eq_self.mpr hname.2]
  refine ⟨hstart, fun o => ?_⟩
  cases hw : o.works with
  | true =>
    obtain ⟨file, t, heq, hopen⟩ := open_writing s append hname.1 hw
    rw [heq]
    exact printed_safe hg hopen
  | false =>
    obtain ⟨t, heq, hbegun⟩ := open_failed append hw
    rw [heq]
    exact ⟨hbegun, fun _ => ⟨hbegun, hbegun, fun hb => by cases hb⟩⟩

theorem Begun.residue {append : Bool} (h : Begun d filename (kept append filename d) content s) :
    ∃ left : Residue, s.files = left.update append content filename d := by
  rcases h with h | ⟨part, hpart, h⟩
  · refine ⟨.unchanged, ?_⟩
    cases append <;> exact h
  · refine ⟨.partly part.length, ?_⟩
    rw [List.prefix_iff_eq_take.mp hpart] at h
    cases append <;> exact h

variable {filename : Bytes}

theorem update_refines (hg : g.closeFlushes = true) (append : Bool) (hname : Proper filename)
    {next : Fault → Bool × Disk}
    (hok : next .ok = (true, d.insert filename (updated append content filename d)))
    (hfail : ∀ left : Residue, next (.fail left) =
      (false, left.update append content filename d)) (hs : Holds s d) :
    CrashSafe (flash g listing) (fun b t => ∃ x, (next x).1 = b ∧ Holds t (next x).2)
      (fun t => Holds t d ∨ ∃ x, Holds t (next x).2)
      (if filename.length > SPIFFSDriver.maxFileNameLength then .ret false
        else SPIFFSDriver.doWriteContentToFile content filename append) s := by
  have hleft : ∀ t, Begun d filename (kept append filename d) content t →
      ∃ left, (next (.fail left)).1 = false ∧ Holds t (next (.fail left)).2 := by
    intro t ht
    obtain ⟨left, h⟩ := ht.residue
    exact ⟨left, by rw [hfail], by rw [hfail]; exact h⟩
  split
  · obtain ⟨left, hb, ht⟩ := hleft s (Or.inl hs)
    exact ⟨Or.inl hs, _, hb, ht⟩
  obtain rfl := hs
  refine ((write_safe hg append hname).mono ?_).weaken ?_
  · intro b t _ h
    cases b with
    | false =>
      obtain ⟨left, hb, ht⟩ := hleft t h.1
      exact ⟨_, hb, ht⟩
    | true =>
      refine ⟨.ok, by rw [hok], ?_⟩
      rw [hok, Holds, h.2 rfl]
      cases append <;> rfl
  · intro t h
    obtain ⟨left, -, ht⟩ := hleft t h
    exact Or.inr ⟨_, ht⟩

theorem exists_keeps {o : Outcome} : (flash g listing (.exists path) o s).2 = s := rfl

theorem open_reading {bytes : Bytes} (hroot : fromRoot path = true)
    (h : s.files.lookup path = some bytes) {o : Outcome} (hw : o.works = true) :
    flash g listing (.open path .fileRead) o s = s.openStream path [] := by
  simp only [flash, hroot, hw, if_true, Flash.prepared, h, Option.isSome_some]

theorem reading_safe {file : File} {bytes : Bytes} (hg : g.sizeRight = true) (hs : Holds s d)
    (hbytes : d.lookup path = some bytes)
    (hfile : s.streams file.handle = some ⟨path, 0, [], []⟩) :
    CrashSafe (flash g listing)
      (fun r t => Holds t d ∧ (r = none ∨ r = some bytes)) (fun t => Holds t d)
      (do
        let fileSize ← file.size
        let bytes ← file.readBytes fileSize
        let tempBuffer := bytes ++ List.replicate (fileSize - bytes.length) (0 : UInt8)
        close (some file)
        if fileSize = bytes.length then return some tempBuffer else return none) s := by
  obtain rfl := hs
  refine ⟨rfl, fun o => ?_⟩
  simp only [flash, hfile, hg, Bool.true_or, if_true, Flash.content, hbytes, Option.getD_some]
  refine ⟨rfl, fun o => ?_⟩
  simp only [flash, hfile, Flash.content, hbytes, Option.getD_some, List.drop_zero]
  refine ⟨rfl, fun o' => ?_⟩
  simp only [flash, Function.update_self, Flash.flush, List.take_nil, if_true]
  generalize hpart : bytes.take (if o.works then bytes.length else min bytes.length o.handled) =
    part
  have hread : part <+: bytes := hpart ▸ List.take_prefix _ _
  by_cases hlen : bytes.length = part.length
  · obtain rfl := hread.eq_of_length hlen.symm
    simp only [Nat.sub_self, List.replicate_zero, List.append_nil, if_true]
    exact ⟨rfl, rfl, Or.inr rfl⟩
  · simp only [hlen, if_false]
    exact ⟨rfl, rfl, Or.inl rfl⟩

theorem read_refines (hg : g.sizeRight = true) (hname : Proper filename) (hs : Holds s d) :
    CrashSafe (flash g listing)
      (fun r t => Holds t d ∧ (r = none ∨ r = d.lookup filename))
      (fun t => Holds t d) (SPIFFSDriver.readEntireFileToString filename) s := by
  unfold SPIFFSDriver.readEntireFileToString SPIFFSDriver.doesFileExist
  rw [cStr_eq_self.mpr hname.2]
  split
  · exact ⟨hs, hs, Or.inl rfl⟩
  obtain rfl := hs
  refine ⟨rfl, fun o => ?_⟩
  cases hlookup : s.files.lookup filename with
  | none =>
    simp only [flash, hlookup, Option.isSome_none, Bool.and_false]
    exact ⟨rfl, rfl, Or.inl rfl⟩
  | some bytes =>
    cases hfound : (flash g listing (.exists filename) o s).1 with
    | false => exact ⟨rfl, rfl, Or.inl rfl⟩
    | true =>
      refine ⟨rfl, fun o' => ?_⟩
      rw [exists_keeps]
      cases hw : o'.works with
      | false =>
        rw [open_reading_failed hw]
        exact ⟨rfl, rfl, Or.inl rfl⟩
      | true =>
        rw [open_reading hname.1 hlookup hw]
        exact reading_safe hg rfl hlookup (Function.update_self ..)

theorem exists_refines (hname : Proper filename) (hs : Holds s d) :
    CrashSafe (flash g listing)
      (fun b t => Holds t d ∧ (b = false ∨ b = (d.lookup filename).isSome))
      (fun t => Holds t d) (SPIFFSDriver.doesFileExist filename) s := by
  unfold SPIFFSDriver.doesFileExist
  rw [cStr_eq_self.mpr hname.2]
  split
  · exact ⟨hs, hs, Or.inl rfl⟩
  obtain rfl := hs
  refine ⟨rfl, fun o => ⟨rfl, rfl, ?_⟩⟩
  cases hfound : g.existsFinds || o.works with
  | true => exact Or.inr (by simp only [flash, hname.1, hfound, Bool.true_and])
  | false => exact Or.inl (by simp only [flash, hfound, Bool.and_false, Bool.false_and])

/-- A file that was not found counts as deleted. -/
theorem delete_refines (hg : g.existsFinds = true) (hname : Proper filename) (hs : Holds s d) :
    CrashSafe (flash g listing)
      (fun b t => Holds t (d.erase filename) ∨ b = false ∧ Holds t d)
      (fun t => Holds t d ∨ Holds t (d.erase filename))
      (SPIFFSDriver.deleteFile filename) s := by
  unfold SPIFFSDriver.deleteFile SPIFFSDriver.doesFileExist
  rw [cStr_eq_self.mpr hname.2]
  split
  · exact ⟨Or.inl hs, Or.inr ⟨rfl, hs⟩⟩
  obtain rfl := hs
  refine ⟨Or.inl rfl, fun o => ?_⟩
  simp only [flash, hname.1, hg, Bool.true_or, Bool.true_and]
  cases hlookup : s.files.lookup filename with
  | none => exact ⟨Or.inl rfl, Or.inl (Disk.erase_of_absent hlookup).symm⟩
  | some bytes =>
    refine ⟨Or.inl rfl, fun o' => ?_⟩
    simp only [flash, hname.1, if_true]
    cases o'.works with
    | true => exact ⟨Or.inr rfl, Or.inl rfl⟩
    | false =>
      by_cases hnone : o'.handled = 0
      · simp only [hnone]
        exact ⟨Or.inl rfl, Or.inr ⟨rfl, rfl⟩⟩
      · simp only [hnone]
        exact ⟨Or.inr rfl, Or.inl rfl⟩

theorem driver_refines (hclose : g.closeFlushes = true) (hexists : g.existsFinds = true)
    (hsize : g.sizeRight = true) :
    Refines (flash g listing) SPIFFSDriver.methods fallible Named Holds := by
  intro c s d hnamed hs
  cases c with
  | writeContentToFile content filename =>
    exact update_refines hclose false hnamed rfl (fun _ => rfl) hs
  | appendContentToFile content filename =>
    exact update_refines hclose true hnamed rfl (fun _ => rfl) hs
  | readEntireFileToString filename =>
    refine ((read_refines hsize hnamed hs).mono ?_).weaken fun t ht => Or.inl ht
    rintro r t - ⟨ht, rfl | rfl⟩
    · exact ⟨.fail .unchanged, rfl, ht⟩
    · exact ⟨.ok, rfl, ht⟩
  | doesFileExist filename =>
    refine ((exists_refines hnamed hs).mono ?_).weaken fun t ht => Or.inl ht
    rintro b t - ⟨ht, rfl | rfl⟩
    · exact ⟨.fail .unchanged, rfl, ht⟩
    · exact ⟨.ok, rfl, ht⟩
  | deleteFile filename =>
    refine ((delete_refines hexists hnamed hs).mono ?_).weaken ?_
    · rintro b t - (ht | ⟨rfl, ht⟩)
      · cases b with
        | true => exact ⟨.ok, rfl, ht⟩
        | false => exact ⟨.fail .absent, rfl, ht⟩
      · exact ⟨.fail .unchanged, rfl, ht⟩
    · intro t ht
      exact ht.imp_right fun h => ⟨.ok, h⟩
  | filesList path => exact hnamed.elim
  | countFiles path => exact hnamed.elim

theorem proper_f : Proper (ascii "/f") := by
  unfold Proper
  decide

end HonestDriver
