import Esp32Utils.HonestDriver

/-! # The manipulator over SPIFFSDriver refines a bounded map

On a flash on which nothing fails the stack of manipulator and driver is a map that takes names
from the root up to a length, which the mode decides. It stores nothing under other names. -/
namespace SpiffsStack

open ByteStrings InteractionProgram InteractionDiscipline InteractionLayers ObservationalRefinement
open FileSystemDriver SafeFileManipulator ManipulatorMap FilesTouched
open ArduinoSpiffs SpiffsDriver HonestDriver

variable {listing : Disk → Bytes → List Bytes} {s : Flash} {content filename : Bytes}

theorem run_doWrite (append : Bool) (hname : Proper filename) :
    let result := (SPIFFSDriver.doWriteContentToFile content filename append).run
      (healthy listing) s
    result.1 = true ∧
      result.2.files = s.files.insert filename (kept append filename s.files ++ content) := by
  obtain ⟨file, t, heq, hopen⟩ :=
    @open_writing ⟨true, true, true⟩ listing filename s append hname.1 ⟨true, 0, 0⟩ rfl
  obtain ⟨more, -, hmore, hlen, hwrite⟩ :=
    hopen.write ⟨true, true, true⟩ listing content ⟨true, 0, 0⟩
  obtain rfl := hmore rfl
  have hclose := hwrite.close (g := ⟨true, true, true⟩) rfl listing ⟨true, 0, 0⟩
  unfold SPIFFSDriver.doWriteContentToFile SPIFFSDriver.printContentToStream
  simp only [cStr_eq_self.mpr hname.2, run_bind, run_open, healthy, heq, run_write, run_close,
    pure_eq_ret, run_ret, hlen, hclose, List.nil_append, beq_self_eq_true, and_self]

def Short (name : Bytes) : Prop := name.length ≤ SPIFFSDriver.maxFileNameLength

def Storable (name : Bytes) : Prop := Proper name ∧ Short name

theorem run_doesFileExist (h : Storable filename) :
    (SPIFFSDriver.doesFileExist filename).run (healthy listing) s =
      ((s.files.lookup filename).isSome, s) := by
  unfold SPIFFSDriver.doesFileExist
  rw [if_neg (Nat.not_lt.mpr h.2), cStr_eq_self.mpr h.1.2]
  simp [healthy, flash, h.1.1]

theorem run_readEntireFileToString (h : Storable filename) :
    let result := (SPIFFSDriver.readEntireFileToString filename).run (healthy listing) s
    result.1 = s.files.lookup filename ∧ result.2.files = s.files := by
  unfold SPIFFSDriver.readEntireFileToString
  rw [if_neg (Nat.not_lt.mpr h.2)]
  simp only [run_bind, run_doesFileExist h]
  cases hlookup : s.files.lookup filename with
  | none => exact ⟨rfl, rfl⟩
  | some bytes =>
    simp [cStr_eq_self.mpr h.1.2, healthy, flash, h.1.1, Flash.prepared, Flash.openStream,
      Flash.content, Flash.flush, hlookup]

theorem run_deleteFile (h : Storable filename) :
    let result := (SPIFFSDriver.deleteFile filename).run (healthy listing) s
    result.1 = true ∧ result.2.files = s.files.erase filename := by
  unfold SPIFFSDriver.deleteFile
  rw [if_neg (Nat.not_lt.mpr h.2)]
  simp only [run_bind, run_doesFileExist h]
  cases hlookup : s.files.lookup filename with
  | none => exact ⟨rfl, (Disk.erase_of_absent hlookup).symm⟩
  | some bytes => simp [cStr_eq_self.mpr h.1.2, healthy, flash, h.1.1, hlookup]

theorem methods_run {c : DriverCall} (hc : OnFiles Storable c) {d : Disk} (hs : Holds s d) :
    ((SPIFFSDriver.methods c).run (healthy listing) s).1 = (Disk.answer c d).1 ∧
      Holds ((SPIFFSDriver.methods c).run (healthy listing) s).2 (Disk.answer c d).2 := by
  obtain rfl := hs
  cases c with
  | writeContentToFile content filename =>
    obtain ⟨hname, hlen⟩ := id hc
    simp only [SPIFFSDriver.methods, SPIFFSDriver.writeContentToFile, if_neg (Nat.not_lt.mpr hlen)]
    exact run_doWrite false hname
  | appendContentToFile content filename =>
    obtain ⟨hname, hlen⟩ := id hc
    simp only [SPIFFSDriver.methods, SPIFFSDriver.appendContentToFile, if_neg (Nat.not_lt.mpr hlen)]
    exact run_doWrite true hname
  | readEntireFileToString filename => exact run_readEntireFileToString hc
  | doesFileExist filename =>
    simp only [SPIFFSDriver.methods, run_doesFileExist hc]
    exact ⟨rfl, rfl⟩
  | deleteFile filename => exact run_deleteFile hc
  | filesList path => exact hc.elim
  | countFiles path => exact hc.elim

section Refusals

/-- The answers to calls with other names. A file that is not found counts as deleted, one with
a name that is too long does not. -/
def refuse (deleted : Bool) : Handler IFileSystemDriver Flash
  | .writeContentToFile _ _, s => (false, s)
  | .appendContentToFile _ _, s => (false, s)
  | .readEntireFileToString _, s => (none, s)
  | .doesFileExist _, s => (false, s)
  | .deleteFile _, s => (deleted, s)
  | .filesList _, s => ([], s)
  | .countFiles _, s => (0, s)

def Foreign (name : Bytes) : Prop := (fromRoot name = false ∧ 0 ∉ name) ∧ Short name

theorem methods_refuse_long {c : DriverCall} (hc : OnFiles (fun name => ¬ Short name) c) :
    (SPIFFSDriver.methods c).run (healthy listing) s = refuse false c s := by
  cases c with
  | filesList path => exact hc.elim
  | countFiles path => exact hc.elim
  | _ =>
    have hlong : _ > SPIFFSDriver.maxFileNameLength := Nat.lt_of_not_le hc
    simp only [SPIFFSDriver.methods, SPIFFSDriver.writeContentToFile,
      SPIFFSDriver.appendContentToFile, SPIFFSDriver.readEntireFileToString,
      SPIFFSDriver.doesFileExist, SPIFFSDriver.deleteFile, if_pos hlong, refuse, pure_eq_ret,
      run_ret]

theorem methods_refuse_foreign {c : DriverCall} (hc : OnFiles Foreign c) :
    (SPIFFSDriver.methods c).run (healthy listing) s = refuse true c s := by
  cases c with
  | filesList path => exact hc.elim
  | countFiles path => exact hc.elim
  | _ =>
    obtain ⟨⟨hroot, hname⟩, hlen⟩ := id hc
    simp [SPIFFSDriver.methods, SPIFFSDriver.writeContentToFile,
      SPIFFSDriver.appendContentToFile, SPIFFSDriver.doWriteContentToFile,
      SPIFFSDriver.readEntireFileToString, SPIFFSDriver.doesFileExist, SPIFFSDriver.deleteFile,
      if_neg (Nat.not_lt.mpr hlen), cStr_eq_self.mpr hname, healthy, flash, hroot, refuse]

def refused (deleted : Bool) : FileOp → Answer
  | .load _ => .loaded (false, [])
  | .delete _ => .result deleted
  | _ => .result false

variable {getMD5String : Bytes → Bytes} {mode : SafeFileSaverMode} {deleted : Bool}

theorem operation_refused (op : FileOp)
    (hmode : mode = .modeNormal ∨ mode = .modeUseMd5) :
    (operation getMD5String mode op).run (refuse deleted) s = (refused deleted op, s) := by
  rcases hmode with rfl | rfl <;> cases deleted <;> cases op <;> rfl

end Refusals

section Names

variable {mode : SafeFileSaverMode} {f name : Bytes}

/-- In MD5 mode the extension counts. -/
def nameLimit (mode : SafeFileSaverMode) : ℕ :=
  SPIFFSDriver.maxFileNameLength - extensionLength mode

theorem short_physical_iff (hname : name ∈ physicalNames mode f) :
    Short name ↔ f.length ≤ nameLimit mode := by
  obtain ⟨extension, rfl, hlen, -, -⟩ := physical_name hname
  have hsmall : extensionLength mode ≤ SPIFFSDriver.maxFileNameLength := by
    cases mode <;> decide
  rw [Short, nameLimit, List.length_append, hlen]
  omega

end Names

abbrev NamedOp := { op : FileOp // 0 ∉ target op }

def stackStep (getMD5String : Bytes → Bytes) (mode : SafeFileSaverMode)
    (listing : Disk → Bytes → List Bytes) (op : NamedOp) (s : Flash) : Answer × Flash :=
  (lowered SPIFFSDriver.methods (operation getMD5String mode op.1)).run (healthy listing) s

def stack (getMD5String : Bytes → Bytes) (mode : SafeFileSaverMode)
    (listing : Disk → Bytes → List Bytes) : Machine NamedOp Answer :=
  ⟨Flash, mounted ∅, stackStep getMD5String mode listing⟩

def boundedStep (limit : ℕ) (op : NamedOp) (m : Bytes → Option Bytes) :
    Answer × (Bytes → Option Bytes) :=
  if (target op.1).length ≤ limit then
    if fromRoot (target op.1) then mapStep op.1 m else (refused true op.1, m)
  else (refused false op.1, m)

/-- A map of names from the root that are no longer than a limit. -/
def boundedMap (limit : ℕ) : Machine NamedOp Answer :=
  ⟨Bytes → Option Bytes, fun _ => none, boundedStep limit⟩

section Simulation

variable {getMD5String : Bytes → Bytes} {mode : SafeFileSaverMode} {m : Bytes → Option Bytes}
  {Represents : Disk → (Bytes → Option Bytes) → Prop} {d : Disk} {op : NamedOp}

theorem stackStep_stored (hlen : (target op.1).length ≤ nameLimit mode)
    (hroot : fromRoot (target op.1) = true) :
    (stackStep getMD5String mode listing op s).1 =
        (manipulatorStep getMD5String mode op.1 s.files).1 ∧
      Holds (stackStep getMD5String mode listing op s).2
        (manipulatorStep getMD5String mode op.1 s.files).2 := by
  have hcalls : Calls (OnFiles Storable) (operation getMD5String mode op.1) :=
    operation_calls fun name hname =>
      ⟨Proper.physical ⟨hroot, op.2⟩ hname, (short_physical_iff hname).mpr hlen⟩
  rw [stackStep, run_lowered, ← operation_run]
  exact run_related (R := Holds) (g := fun c => (SPIFFSDriver.methods c).run (healthy listing))
    (fun c s t hc hs => methods_run hc hs) hcalls.always rfl

theorem stackStep_refused {N : Bytes → Prop} {deleted : Bool}
    (hmode : mode = .modeNormal ∨ mode = .modeUseMd5)
    (hrefuse : ∀ c s, OnFiles N c →
      (SPIFFSDriver.methods c).run (healthy listing) s = refuse deleted c s)
    (hN : ∀ name ∈ physicalNames mode (target op.1), N name) :
    stackStep getMD5String mode listing op s = (refused deleted op.1, s) := by
  have hcalls : Calls (OnFiles N) (operation getMD5String mode op.1) := operation_calls hN
  obtain ⟨hans, hsame⟩ := run_related (R := Eq)
    (g := fun c => (SPIFFSDriver.methods c).run (healthy listing))
    (fun c s t hc hs => by
      obtain rfl := hs
      rw [hrefuse c s hc]
      exact ⟨rfl, rfl⟩)
    (hcalls.always (h := refuse deleted) (s := s)) rfl
  rw [operation_refused op.1 hmode] at hans hsame
  rw [stackStep, run_lowered]
  exact Prod.ext hans hsame

theorem stack_step (hmode : mode = .modeNormal ∨ mode = .modeUseMd5)
    (hmap : ∀ op d m, Represents d m →
      (manipulatorStep getMD5String mode op d).1 = (mapStep op m).1 ∧
        Represents (manipulatorStep getMD5String mode op d).2 (mapStep op m).2)
    (op : NamedOp) (h : Represents s.files m) :
    (stackStep getMD5String mode listing op s).1 = (boundedStep (nameLimit mode) op m).1 ∧
      Represents (stackStep getMD5String mode listing op s).2.files
        (boundedStep (nameLimit mode) op m).2 := by
  unfold boundedStep
  split
  · rename_i hlen
    split
    · rename_i hroot
      obtain ⟨hans, hfiles⟩ := @stackStep_stored listing s getMD5String mode op hlen hroot
      rw [hans, hfiles]
      exact hmap op.1 s.files m h
    · rename_i hroot
      rw [stackStep_refused hmode (fun _ _ hc => methods_refuse_foreign hc) fun name hname =>
        ⟨⟨(fromRoot_physical hname).trans (Bool.eq_false_iff.mpr hroot),
          noNul_physical op.2 hname⟩, (short_physical_iff hname).mpr hlen⟩]
      exact ⟨rfl, h⟩
  · rename_i hlen
    rw [stackStep_refused hmode (fun _ _ hc => methods_refuse_long hc) fun name hname =>
      (short_physical_iff hname).not.mpr hlen]
    exact ⟨rfl, h⟩

end Simulation

def normalSimulation (getMD5String : Bytes → Bytes) (listing : Disk → Bytes → List Bytes) :
    Simulation (stack getMD5String .modeNormal listing) (boundedMap (nameLimit .modeNormal)) :=
  ⟨fun s m => RepresentsNormal s.files m, fun _ => rfl, fun op _ _ h =>
    stack_step (Or.inl rfl) (fun op _ _ h => h.step op) op h⟩

def md5Simulation (getMD5String : Bytes → Bytes) (listing : Disk → Bytes → List Bytes) :
    Simulation (stack getMD5String .modeUseMd5 listing) (boundedMap (nameLimit .modeUseMd5)) :=
  ⟨fun s m => RepresentsMd5 getMD5String s.files m, fun _ => ⟨rfl, rfl⟩, fun op _ _ h =>
    stack_step (Or.inr rfl) (fun op _ _ h => h.step op) op h⟩

/-- Any operations on names without NUL are answered as a map of names from the root answers
them, with a limit of 31 bytes on their length, or of 29 in MD5 mode. -/
theorem stack_refines_bounded_map (getMD5String : Bytes → Bytes)
    (listing : Disk → Bytes → List Bytes) (ops : List NamedOp) :
    (stack getMD5String .modeNormal listing).observe ops = (boundedMap 31).observe ops ∧
      (stack getMD5String .modeUseMd5 listing).observe ops = (boundedMap 29).observe ops :=
  ⟨congrFun (normalSimulation getMD5String listing).observe_eq ops,
    congrFun (md5Simulation getMD5String listing).observe_eq ops⟩

end SpiffsStack
