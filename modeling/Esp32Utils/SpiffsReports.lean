import Esp32Utils.FaultyLibc
import Esp32Utils.Interaction.CallDiscipline

/-! # What the SPIFFS driver reports

Which outcomes of the C library calls make the driver report success for a file that does
not hold the content, or read outside its buffer. -/
namespace SpiffsReports

open ByteStrings InteractionProgram InteractionDiscipline FileSystemDriver Libc SpiffsIdfDriver
  FaultyLibc

abbrev Script := Stream' Outcome

/-- The operation returns true only if the file on flash then holds `expected`. -/
def Truthful (operation : LibcProgram Bool) (filename expected : Bytes) (script : Script)
    (s : Flash) : Prop :=
  (operation.runScript flashLibc script s).1 = true →
    (operation.runScript flashLibc script s).2.file filename = some expected

/-- The print is buffered and the close writes it, all of it. -/
def Stored (script : Script) (n : ℕ) : Prop :=
  (script.get 1).limit n = n ∧ (script.get 2).limit n = n

/-- What writing and appending have in common. -/
def printTo (mode : OpenMode) (content filename : Bytes) : LibcProgram Bool := do
  match ← fopen (cStr filename) mode with
  | none => return false
  | some file => SPIFFS_IDFDriver.doWriteContentToFile content file

theorem writeContentToFile_eq (content filename : Bytes) :
    SPIFFS_IDFDriver.writeContentToFile content filename = printTo .w content filename := rfl

theorem appendContentToFile_eq (content filename : Bytes) :
    SPIFFS_IDFDriver.appendContentToFile content filename = printTo .a content filename := rfl

section Writing

variable {s : Flash} {file : ℕ} {t : OpenFile} {content : PlainText} {filename : Bytes}
  {script : Script}

def stored (content : Bytes) (fprintf fclose : Outcome) : Bytes :=
  (content.take (fprintf.limit content.length)).take
    (fclose.limit (content.take (fprintf.limit content.length)).length)

theorem stored_eq_iff {content : Bytes} {fprintf fclose : Outcome} :
    stored content fprintf fclose = content ↔
      fprintf.limit content.length = content.length ∧
        fclose.limit content.length = content.length := by
  have hprint := @limit_le fprintf content.length
  have hclose := @limit_le fclose content.length
  constructor
  · intro h
    have hlength := congrArg List.length h
    simp only [stored, List.length_take] at hlength
    have hall : fprintf.limit content.length = content.length := by omega
    rw [hall, Nat.min_self] at hlength
    exact ⟨hall, by omega⟩
  · intro h
    rw [stored, h.1, List.take_length, h.2, List.take_length]

/-- The driver reports success whatever becomes of the print and of the close. -/
theorem run_doWrite (hs : s.vfs.streams file = some t) (hb : s.buffered file = []) :
    ((SPIFFS_IDFDriver.doWriteContentToFile content.bytes file).run (scripted flashLibc)
        (script, s)).1 = true ∧
      ((SPIFFS_IDFDriver.doWriteContentToFile content.bytes file).run (scripted flashLibc)
        (script, s)).2.2.vfs.files.lookup t.path =
          some (s.vfs.content t ++ stored content.bytes (script.get 0) (script.get 1)) := by
  have hprint : flashLibc (.fprintf file (cStr content.bytes)) script.head s = _ :=
    flash_fprintf hs
  have hclose : ∀ bytes, flashLibc (.fclose file) script.tail.head (s.print file bytes) = _ :=
    fun bytes => flash_fclose hs
  have hzero : script.head.answer content.bytes.length ≠ 0 := content.answer_ne
  simp only [SPIFFS_IDFDriver.doWriteContentToFile, run_bind, run_fprintf, scripted, hprint,
    if_neg hzero, run_fclose, hclose, pure_eq_ret, run_ret, true_and]
  simp only [Flash.close, Flash.print, Function.update_self, hb, List.nil_append,
    AList.lookup_insert]
  rfl

def opened (s : Flash) (path old : Bytes) : Flash :=
  ⟨({ s.vfs with files := s.vfs.files.insert path old }.openStream path).2,
    Function.update s.buffered s.vfs.opened []⟩

theorem opened_write : flashLibc (.fopen (cStr filename) .w) .works s =
    (some s.vfs.opened, opened s (cStr filename) []) := rfl

theorem opened_append : flashLibc (.fopen (cStr filename) .a) .works s =
    (some s.vfs.opened, opened s (cStr filename) ((s.file filename).getD [])) := rfl

theorem run_opened {mode : OpenMode} {old : Bytes} (hopen : script.head = .works)
    (hfile : flashLibc (.fopen (cStr filename) mode) .works s =
      (some s.vfs.opened, opened s (cStr filename) old)) :
    ((printTo mode content.bytes filename).runScript flashLibc script s).1 = true ∧
      ((printTo mode content.bytes filename).runScript flashLibc script s).2.file filename =
        some (old ++ stored content.bytes (script.get 1) (script.get 2)) := by
  have hrun := @run_doWrite (opened s (cStr filename) old) s.vfs.opened ⟨cStr filename, 0⟩ content
    script.tail (Function.update_self _ _ _) (Function.update_self _ _ _)
  simp only [printTo, Program.runScript, run_bind, run_fopen, scripted, hopen, hfile]
  simp only [opened, Vfs.content, Vfs.openStream, AList.lookup_insert, Option.getD_some] at hrun
  exact hrun

theorem run_unopened {mode : OpenMode} (hopen : script.head ≠ .works) :
    ((printTo mode content.bytes filename).runScript flashLibc script s).1 = false := by
  cases hhead : script.head with
  | works => exact absurd hhead hopen
  | fails code amount => simp [printTo, Program.runScript, scripted, flashLibc, hhead]

/-- Success is true exactly when nothing of the content gets lost behind an open file. -/
theorem printTo_truthful_iff {mode : OpenMode} {old : Bytes}
    (hfile : flashLibc (.fopen (cStr filename) mode) .works s =
      (some s.vfs.opened, opened s (cStr filename) old)) :
    Truthful (printTo mode content.bytes filename) filename (old ++ content.bytes) script s ↔
      (script.get 0 = .works → Stored script content.bytes.length) := by
  by_cases hopen : script.head = .works
  · obtain ⟨htrue, hstored⟩ := @run_opened s content filename script mode old hopen hfile
    rw [Truthful, htrue, hstored, Stored, ← stored_eq_iff]
    simp only [Option.some.injEq, List.append_cancel_left_eq, forall_const]
    exact ⟨fun h _ => h, fun h => h hopen⟩
  · have hfalse := @run_unopened s content filename script mode hopen
    rw [Truthful, hfalse]
    exact iff_of_true (fun h => absurd h Bool.false_ne_true) fun h => absurd h hopen

end Writing

/-- `readEntireFileToString` with its output parameter. -/
def readEntireFileToStringInto (filename output : Bytes) : LibcProgram (Bool × Bytes) := do
  if (← SPIFFS_IDFDriver.doesFileExist filename) = false then
    return (false, output)
  match ← fopen (cStr filename) .r with
  | none => return (false, output)
  | some file =>
    let fileSize ← SPIFFS_IDFDriver.streamSize file
    match ← SPIFFS_IDFDriver.readBuffer fileSize file with
    | none => return (false, output)
    | some pBuffer => return (true, pBuffer)

/-- A read returns true only with the content of the file, leaves the output alone otherwise,
and stays within its buffer. -/
def Sound (filename output : Bytes) (script : Script) (s : Flash) : Prop :=
  let operation := readEntireFileToStringInto filename output
  ((operation.runScript flashLibc script s).1.1 = true →
    s.file filename = some (operation.runScript flashLibc script s).1.2) ∧
  ((operation.runScript flashLibc script s).1.1 = false →
    (operation.runScript flashLibc script s).1.2 = output) ∧
  Always (scripted flashLibc) (fun c _ => c ≠ .undefinedBehaviour) operation (script, s)

def sizeSeen (fseek ftell : Outcome) (n : ℕ) : ℤ :=
  match ftell, fseek with
  | .works, .works => n
  | .works, .fails _ _ => 0
  | .fails _ _, _ => -1

def readFrom (fseek rewind : Outcome) (n : ℕ) : ℕ :=
  match rewind, fseek with
  | .works, _ => 0
  | .fails _ _, .works => n
  | .fails _ _, .fails _ _ => 0

section Reading

variable {s : Flash} {file : ℕ} {t : OpenFile} {filename output : Bytes} {script : Script}
  {fileSize : ℤ}

def moved (s : Flash) (file : ℕ) (t : OpenFile) (position : ℕ) : Flash :=
  ⟨s.vfs.seek file t position, s.buffered⟩

theorem moved_self (hs : s.vfs.streams file = some t) : moved s file t t.position = s := by
  rw [moved, Vfs.seek, ← hs, Function.update_eq_self]

def movedTo (outcome : Outcome) (position target : ℕ) : ℕ :=
  match outcome with
  | .works => target
  | .fails _ _ => position

theorem flash_fseekEnd {outcome : Outcome} (hs : s.vfs.streams file = some t) :
    (flashLibc (.fseekEnd file) outcome s).2 =
      moved s file t (movedTo outcome t.position (s.vfs.content t).length) := by
  cases outcome with
  | works => simp [flashLibc, Flash.healthy, libc, hs, moved, movedTo]
  | fails code amount => exact (moved_self hs).symm

theorem flash_ftell {outcome : Outcome} {position : ℕ} :
    (flashLibc (.ftell file) outcome (moved s file t position)).2 = moved s file t position ∧
      (flashLibc (.ftell file) outcome (moved s file t position)).1 =
        match outcome with
        | .works => (position : ℤ)
        | .fails _ _ => -1 := by
  cases outcome with
  | works => simp [flashLibc, Flash.healthy, libc, moved, Vfs.seek]
  | fails code amount => exact ⟨rfl, rfl⟩

theorem flash_rewind {outcome : Outcome} {position : ℕ} :
    (flashLibc (.rewind file) outcome (moved s file t position)).2 =
      moved s file t (movedTo outcome position 0) := by
  cases outcome with
  | works => simp [flashLibc, Flash.healthy, libc, moved, movedTo, Vfs.seek]
  | fails code amount => rfl

theorem sizeSeen_eq {fseek ftell : Outcome} {n : ℕ} : sizeSeen fseek ftell n =
    match ftell with
    | .works => (movedTo fseek 0 n : ℤ)
    | .fails _ _ => -1 := by
  cases ftell with
  | works =>
    cases fseek with
    | works => rfl
    | fails code amount => rfl
  | fails code amount => rfl

theorem readFrom_eq {fseek rewind : Outcome} {n : ℕ} :
    readFrom fseek rewind n = movedTo rewind (movedTo fseek 0 n) 0 := by
  cases rewind with
  | works => rfl
  | fails code amount =>
    cases fseek with
    | works => rfl
    | fails code amount => rfl

theorem run_streamSize (hs : s.vfs.streams file = some t) (h0 : t.position = 0) :
    (SPIFFS_IDFDriver.streamSize file).run (scripted flashLibc) (script, s) =
      (sizeSeen (script.get 0) (script.get 1) (s.vfs.content t).length, script.tail.tail.tail,
        moved s file t
          (readFrom (script.get 0) (script.get 2) (s.vfs.content t).length)) := by
  simp only [SPIFFS_IDFDriver.streamSize, run_bind, run_fseekEnd, run_ftell, run_rewind, scripted,
    flash_fseekEnd hs, flash_ftell, flash_rewind, h0, pure_eq_ret, run_ret]
  rw [sizeSeen_eq, readFrom_eq]
  rfl

def blocksRead (fread : Outcome) (size length : ℕ) : ℕ :=
  match fread with
  | .works => length / size
  | .fails _ _ => 0

theorem flash_fread {outcome : Outcome} {size : ℕ} (hs : s.vfs.streams file = some t) :
    let bytes := ((s.vfs.content t).drop t.position).take (outcome.limit size)
    flashLibc (.fread size 1 file) outcome s =
      ((blocksRead outcome size bytes.length, bytes),
        moved s file t (t.position + bytes.length)) := by
  cases outcome with
  | works => simp [flashLibc, Flash.healthy, libc, hs, Outcome.limit, blocksRead, moved]
  | fails code amount => simp [flashLibc, Flash.healthy, libc, hs, Outcome.limit, blocksRead, moved]

def afterRead (fileSize : ℤ) (file : ℕ) (read : ℕ × Bytes) : LibcProgram (Option Bytes) := do
  let pBuffer := List.replicate (fileSize + 1).toNat (0 : UInt8)
  if pBuffer.length < read.2.length then
    undefinedBehaviour
  let pBuffer := read.2 ++ pBuffer.drop read.2.length
  if read.1 = 0 then
    let _ ← fclose file
    return none
  if fileSize < 0 then
    undefinedBehaviour
  let pBuffer := pBuffer.set fileSize.toNat 0
  let _ ← fclose file
  return some (cStr pBuffer)

theorem readBuffer_eq (fileSize : ℤ) (file : ℕ) : SPIFFS_IDFDriver.readBuffer fileSize file =
    fread (SPIFFS_IDFDriver.toSizeT fileSize) 1 file >>= afterRead fileSize file := rfl

section Answers

variable {α σ : Type} {h : Handler LibcInterface σ} {s : σ} {read : ℕ × Bytes}

def bufferText (fileSize : ℤ) (bytes : Bytes) : Bytes :=
  cStr ((bytes ++ (List.replicate (fileSize + 1).toNat 0).drop bytes.length).set fileSize.toNat 0)

theorem run_afterRead : ((afterRead fileSize file read).run h s).1 =
    if read.1 = 0 then none else some (bufferText fileSize read.2) := by
  by_cases hblocks : read.1 = 0
  · simp only [afterRead, if_pos hblocks]
    split <;> rfl
  · simp only [afterRead, if_neg hblocks]
    split <;> split <;> rfl

/-- Nothing is stored or read outside of an object. -/
abbrev InBounds (h : Handler LibcInterface σ) (p : LibcProgram α) (s : σ) : Prop :=
  Always h (fun c _ => c ≠ .undefinedBehaviour) p s

theorem inBounds_call {c : LibcCall} (hc : c ≠ .undefinedBehaviour) :
    InBounds h (@perform LibcInterface c) s := by
  rw [InBounds, always_perform]
  exact hc

theorem not_inBounds_undefined {f : Unit → LibcProgram α} :
    ¬ InBounds h (undefinedBehaviour >>= f) s := by
  rw [InBounds, undefinedBehaviour, always_bind, always_perform]
  exact fun hb => hb.1 rfl

theorem inBounds_fclose_pure {a : α} : InBounds h (fclose file >>= fun _ => pure a) s := by
  rw [InBounds, always_bind]
  exact ⟨inBounds_call LibcCall.noConfusion, trivial⟩

theorem inBounds_afterRead : InBounds h (afterRead fileSize file read) s ↔
    read.2.length ≤ (fileSize + 1).toNat ∧ (read.1 ≠ 0 → 0 ≤ fileSize) := by
  simp only [afterRead, List.length_replicate]
  by_cases hfits : (fileSize + 1).toNat < read.2.length
  · simp only [if_pos hfits]
    exact iff_of_false not_inBounds_undefined fun hb => absurd hb.1 (Nat.not_le.mpr hfits)
  · simp only [if_neg hfits]
    rw [and_iff_right (Nat.not_lt.mp hfits)]
    by_cases hblocks : read.1 = 0
    · simp only [if_pos hblocks]
      exact iff_of_true inBounds_fclose_pure fun hne => absurd hblocks hne
    · simp only [if_neg hblocks]
      by_cases hneg : fileSize < 0
      · simp only [if_pos hneg]
        exact iff_of_false not_inBounds_undefined fun hb => absurd (hb hblocks) (by omega)
      · simp only [if_neg hneg]
        exact iff_of_true inBounds_fclose_pure fun _ => by omega

end Answers

def readAnswer (fseek ftell rewind fread : Outcome) (data : Bytes) : ℕ × Bytes :=
  let size := SPIFFS_IDFDriver.toSizeT (sizeSeen fseek ftell data.length)
  let bytes := (data.drop (readFrom fseek rewind data.length)).take (fread.limit size)
  (blocksRead fread size bytes.length, bytes)

def readOpened (file : ℕ) : LibcProgram (Option Bytes) := do
  SPIFFS_IDFDriver.readBuffer (← SPIFFS_IDFDriver.streamSize file) file

theorem flash_fread_moved {outcome : Outcome} {size position : ℕ} :
    (flashLibc (.fread size 1 file) outcome (moved s file t position)).1 =
      let bytes := ((s.vfs.content t).drop position).take (outcome.limit size)
      (blocksRead outcome size bytes.length, bytes) := by
  have hmoved : (moved s file t position).vfs.streams file = some { t with position } :=
    Function.update_self _ _ _
  rw [flash_fread hmoved]
  rfl

theorem inBounds_streamSize {σ : Type} {h : Handler LibcInterface σ} {s : σ} :
    InBounds h (SPIFFS_IDFDriver.streamSize file) s := by
  simp only [InBounds, SPIFFS_IDFDriver.streamSize, always_bind]
  exact ⟨inBounds_call LibcCall.noConfusion, inBounds_call LibcCall.noConfusion,
    inBounds_call LibcCall.noConfusion, trivial⟩

theorem run_readOpened (hs : s.vfs.streams file = some t) (h0 : t.position = 0) :
    let fileSize := sizeSeen (script.get 0) (script.get 1) (s.vfs.content t).length
    let read := readAnswer (script.get 0) (script.get 1) (script.get 2) (script.get 3)
      (s.vfs.content t)
    ((readOpened file).run (scripted flashLibc) (script, s)).1 =
        (if read.1 = 0 then none else some (bufferText fileSize read.2)) ∧
      (InBounds (scripted flashLibc) (readOpened file) (script, s) ↔
        read.2.length ≤ (fileSize + 1).toNat ∧ (read.1 ≠ 0 → 0 ≤ fileSize)) := by
  intro fileSize read
  have hread : ∀ size, (scripted flashLibc (.fread size 1 file) (script.tail.tail.tail,
      moved s file t (readFrom (script.get 0) (script.get 2) (s.vfs.content t).length))).1 = _ :=
    fun size => flash_fread_moved
  constructor
  · simp only [readOpened, readBuffer_eq, run_bind, run_streamSize hs h0, run_fread, run_afterRead,
      hread]
    rfl
  · simp only [InBounds, readOpened, readBuffer_eq, always_bind, run_streamSize hs h0, run_fread,
      hread]
    rw [and_iff_right inBounds_streamSize]
    refine (and_iff_right (inBounds_call ?_)).trans inBounds_afterRead
    exact LibcCall.noConfusion

/-- The file is not read past the buffer, and what is read of it is all of it. -/
def ReadsWell (fseek ftell rewind fread : Outcome) (data : Bytes) : Prop :=
  (ftell ≠ .works → (data.drop (readFrom fseek rewind data.length)).take
    (fread.limit SPIFFS_IDFDriver.sizeMax) = []) ∧
  (fseek = .works → ftell = .works → rewind = .works → fread = .works → 0 ∉ data)

theorem bufferText_self (data : Bytes) : bufferText data.length data = cStr data := by
  have hlength : ((data.length : ℤ) + 1).toNat = data.length + 1 := by omega
  rw [bufferText, hlength, List.replicate_succ', Int.toNat_natCast]
  simp [cStr_append_zero]

/-- What the driver makes of the read is the file, and it stays within the buffer. -/
def ReadsRight (fseek ftell rewind fread : Outcome) (data : Bytes) : Prop :=
  let fileSize := sizeSeen fseek ftell data.length
  let read := readAnswer fseek ftell rewind fread data
  (read.1 ≠ 0 → bufferText fileSize read.2 = data) ∧
    read.2.length ≤ (fileSize + 1).toNat ∧ (read.1 ≠ 0 → 0 ≤ fileSize)

section Answers

variable {fseek ftell rewind fread : Outcome} {data : Bytes} {size length : ℕ}

theorem blocksRead_zero : blocksRead fread size 0 = 0 := by
  cases fread with
  | works => exact Nat.zero_div size
  | fails code amount => rfl

theorem readsRight_unsized (hfail : ftell ≠ .works) :
    ReadsRight fseek ftell rewind fread data ↔
      (data.drop (readFrom fseek rewind data.length)).take
        (fread.limit SPIFFS_IDFDriver.sizeMax) = [] := by
  have hsize : sizeSeen fseek ftell data.length = -1 := by
    cases ftell with
    | works => exact absurd rfl hfail
    | fails code amount => rfl
  rw [ReadsRight, readAnswer, hsize]
  constructor
  · intro h
    exact List.length_eq_zero_iff.mp (Nat.le_zero.mp h.2.1)
  · intro hnil
    have hmax : SPIFFS_IDFDriver.toSizeT (-1) = SPIFFS_IDFDriver.sizeMax := rfl
    simp only [hmax, hnil, List.length_nil, blocksRead_zero, ne_eq, not_true_eq_false,
      IsEmpty.forall_iff, Nat.zero_le, and_self]

theorem readsRight_unsought (hfail : fseek ≠ .works) :
    ReadsRight fseek .works rewind fread data := by
  have hsize : sizeSeen fseek .works data.length = 0 := by
    cases fseek with
    | works => exact absurd rfl hfail
    | fails code amount => rfl
  have hzero : fread.limit (SPIFFS_IDFDriver.toSizeT 0) = 0 := Nat.le_zero.mp (limit_le 0)
  rw [ReadsRight, readAnswer, hsize]
  simp only [hzero, List.take_zero, List.length_nil, blocksRead_zero, ne_eq, not_true_eq_false,
    IsEmpty.forall_iff, Nat.zero_le, and_self]

theorem readsRight_sized : ReadsRight .works .works rewind fread data ↔
    (rewind = .works → fread = .works → 0 ∉ data) := by
  have hsize : sizeSeen .works .works data.length = data.length := rfl
  have htoSize : SPIFFS_IDFDriver.toSizeT (data.length : ℤ) = data.length := by
    simp [SPIFFS_IDFDriver.toSizeT]
  have hfits : ∀ bytes : Bytes, (bytes.take (fread.limit data.length)).length ≤
      ((data.length : ℤ) + 1).toNat := by
    intro bytes
    have hle := @limit_le fread data.length
    rw [List.length_take]
    omega
  rw [ReadsRight, readAnswer, hsize, htoSize,
    and_iff_left ⟨hfits _, fun _ => Int.natCast_nonneg _⟩]
  cases rewind with
  | fails code amount =>
    have hbehind : data.drop (readFrom .works (.fails code amount) data.length) = [] :=
      List.drop_length
    rw [hbehind, List.take_nil, List.length_nil, blocksRead_zero]
    exact iff_of_true (fun hne => absurd rfl hne) fun hw => Outcome.noConfusion hw
  | works =>
    cases fread with
    | fails code amount =>
      exact iff_of_true (fun hne => absurd rfl hne) fun _ hw => Outcome.noConfusion hw
    | works =>
      have hall : (data.drop (readFrom .works .works data.length)).take
          (Outcome.works.limit data.length) = data := List.take_length
      rw [hall, bufferText_self, cStr_eq_self]
      by_cases hnil : data = []
      · subst hnil
        exact iff_of_true (fun _ => List.not_mem_nil) fun _ _ => List.not_mem_nil
      · have hblocks : blocksRead .works data.length data.length = 1 :=
          Nat.div_self (List.length_pos_of_ne_nil hnil)
        rw [hblocks]
        exact ⟨fun h _ _ => h Nat.one_ne_zero, fun h _ => h rfl rfl⟩

end Answers

theorem readsRight_iff {fseek ftell rewind fread : Outcome} {data : Bytes} :
    ReadsRight fseek ftell rewind fread data ↔ ReadsWell fseek ftell rewind fread data := by
  by_cases htell : ftell = .works
  · subst htell
    by_cases hseek : fseek = .works
    · subst hseek
      rw [readsRight_sized]
      exact ⟨fun h => ⟨fun hne => absurd rfl hne, fun _ _ => h⟩, fun h => h.2 rfl rfl⟩
    · exact iff_of_true (readsRight_unsought hseek)
        ⟨fun hne => absurd rfl hne, fun hw => absurd hw hseek⟩
  · rw [readsRight_unsized htell]
    exact ⟨fun h => ⟨fun _ => h, fun _ hw => absurd hw htell⟩, fun h => h.1 htell⟩

section Files

variable {data : Bytes}

theorem run_exists :
    (SPIFFS_IDFDriver.doesFileExist filename).run (scripted flashLibc) (script, s) =
      (decide (script.head = .works) && (s.file filename).isSome, script.tail, s) := by
  cases hhead : script.head with
  | fails code amount =>
    simp [SPIFFS_IDFDriver.doesFileExist, scripted, flashLibc, hhead]
  | works =>
    have hstat := @run_spiffsExists (fun _ => true) filename s.vfs
    simp only [SPIFFS_IDFDriver.doesFileExist, run_bind, run_stat, pure_eq_ret, run_ret,
      Bool.true_and, Prod.mk.injEq] at hstat
    simp only [SPIFFS_IDFDriver.doesFileExist, run_bind, run_stat, pure_eq_ret, run_ret, scripted,
      hhead, flashLibc, Flash.healthy, hstat.1, hstat.2, decide_true, Bool.true_and]
    rfl

theorem inBounds_exists {σ : Type} {h : Handler LibcInterface σ} {s : σ} :
    InBounds h (SPIFFS_IDFDriver.doesFileExist filename) s := by
  simp only [InBounds, SPIFFS_IDFDriver.doesFileExist, always_bind]
  exact ⟨inBounds_call LibcCall.noConfusion, trivial⟩

def intoOutput (output : Bytes) : Option Bytes → Bool × Bytes
  | none => (false, output)
  | some pBuffer => (true, pBuffer)

theorem intoOutput_right_iff {result : Option Bytes} :
    ((intoOutput output result).1 = true → some data = some (intoOutput output result).2) ∧
      ((intoOutput output result).1 = false → (intoOutput output result).2 = output) ↔
    ∀ out, result = some out → out = data := by
  cases result with
  | none =>
    refine iff_of_true ⟨fun h => absurd h Bool.false_ne_true, fun _ => rfl⟩ ?_
    intro out hout
    cases hout
  | some pBuffer =>
    constructor
    · intro h out hout
      rw [← Option.some.inj hout]
      exact (Option.some.inj (h.1 rfl)).symm
    · intro h
      exact ⟨fun _ => congrArg some (h pBuffer rfl).symm, fun hno => nomatch hno⟩

def readIntoOpened (file : ℕ) (output : Bytes) : LibcProgram (Bool × Bytes) := do
  let fileSize ← SPIFFS_IDFDriver.streamSize file
  match ← SPIFFS_IDFDriver.readBuffer fileSize file with
  | none => return (false, output)
  | some pBuffer => return (true, pBuffer)

theorem readEntireFileToStringInto_eq (filename output : Bytes) :
    readEntireFileToStringInto filename output = (do
      if (← SPIFFS_IDFDriver.doesFileExist filename) = false then
        return (false, output)
      match ← fopen (cStr filename) .r with
      | none => return (false, output)
      | some file => readIntoOpened file output) := rfl

section Opened

variable {σ : Type} {h : Handler LibcInterface σ} {s : σ}

theorem run_readIntoOpened : ((readIntoOpened file output).run h s).1 =
    intoOutput output ((readOpened file).run h s).1 := by
  simp only [readIntoOpened, readOpened, run_bind]
  cases ((SPIFFS_IDFDriver.readBuffer _ file).run h _).1 with
  | none => rfl
  | some pBuffer => rfl

theorem inBounds_readIntoOpened : InBounds h (readIntoOpened file output) s ↔
    InBounds h (readOpened file) s := by
  simp only [InBounds, readIntoOpened, readOpened, always_bind]
  apply and_congr_right
  intro _
  rw [and_iff_left_iff_imp]
  intro _
  split
  · trivial
  · trivial

end Opened

theorem sound_of_failed (hfailed :
    ((readEntireFileToStringInto filename output).runScript flashLibc script s).1 = (false, output))
    (hbounds : InBounds (scripted flashLibc) (readEntireFileToStringInto filename output)
      (script, s)) : Sound filename output script s := by
  rw [Sound, hfailed]
  exact ⟨fun hno => absurd hno Bool.false_ne_true, fun _ => rfl, hbounds⟩

theorem sound_absent (habsent : (decide (script.head = .works) && (s.file filename).isSome) =
    false) : Sound filename output script s := by
  have hexists := @run_exists s filename script
  rw [habsent] at hexists
  have hrun : (readEntireFileToStringInto filename output).run (scripted flashLibc) (script, s) =
      ((false, output), script.tail, s) := by
    simp only [readEntireFileToStringInto, run_bind, hexists, if_true, pure_eq_ret, run_ret]
  have hbounds : InBounds (scripted flashLibc) (readEntireFileToStringInto filename output)
      (script, s) := by
    simp only [InBounds, readEntireFileToStringInto, always_bind, hexists, if_true]
    exact ⟨inBounds_exists, trivial⟩
  apply sound_of_failed _ hbounds
  simp only [Program.runScript, hrun]

theorem sound_unopened (hfound : (decide (script.head = .works) && (s.file filename).isSome) =
    true) (hopen : script.tail.head ≠ .works) : Sound filename output script s := by
  have hexists := @run_exists s filename script
  rw [hfound] at hexists
  have hnone : ∀ outcome : Outcome, outcome ≠ .works →
      flashLibc (.fopen (cStr filename) .r) outcome s = (none, s) := by
    intro outcome hne
    cases outcome with
    | works => exact absurd rfl hne
    | fails code amount => rfl
  have hrun : (readEntireFileToStringInto filename output).run (scripted flashLibc) (script, s) =
      ((false, output), script.tail.tail, s) := by
    simp only [readEntireFileToStringInto, run_bind, hexists, Bool.true_eq_false, if_false,
      run_fopen, scripted, hnone _ hopen, pure_eq_ret, run_ret]
  have hbounds : InBounds (scripted flashLibc) (readEntireFileToStringInto filename output)
      (script, s) := by
    simp only [InBounds, readEntireFileToStringInto, always_bind, hexists, Bool.true_eq_false,
      if_false, run_fopen, scripted, hnone _ hopen]
    exact ⟨inBounds_exists, inBounds_call LibcCall.noConfusion, trivial⟩
  apply sound_of_failed _ hbounds
  simp only [Program.runScript, hrun]

def reading (s : Flash) (path : Bytes) : Flash :=
  ⟨(s.vfs.openStream path).2, Function.update s.buffered s.vfs.opened []⟩

theorem opened_read (hfile : s.file filename = some data) :
    flashLibc (.fopen (cStr filename) .r) .works s =
      (some s.vfs.opened, reading s (cStr filename)) := by
  have hsome : (s.vfs.files.lookup (cStr filename)).isSome = true := by
    rw [show s.vfs.files.lookup (cStr filename) = some data from hfile]
    rfl
  simp only [flashLibc, Flash.healthy, libc, hsome, if_true]
  rfl

theorem sound_opened (hfile : s.file filename = some data) (hstat : script.get 0 = .works)
    (hopen : script.get 1 = .works) : Sound filename output script s ↔
      ReadsRight (script.get 2) (script.get 3) (script.get 4) (script.get 5) data := by
  have hexists := @run_exists s filename script
  rw [show script.head = .works from hstat, hfile] at hexists
  have hopened := @opened_read s filename data hfile
  have hstream : (reading s (cStr filename)).vfs.streams s.vfs.opened = some ⟨cStr filename, 0⟩ :=
    Function.update_self _ _ _
  have hcontent : (reading s (cStr filename)).vfs.content ⟨cStr filename, 0⟩ = data := by
    rw [Vfs.content]
    exact congrArg (Option.getD · []) hfile
  obtain ⟨hresult, hbounds⟩ := @run_readOpened (reading s (cStr filename)) s.vfs.opened
    ⟨cStr filename, 0⟩ script.tail.tail hstream rfl
  rw [hcontent] at hresult hbounds
  have hrun : ((readEntireFileToStringInto filename output).runScript flashLibc script s).1 =
      intoOutput output ((readOpened s.vfs.opened).run (scripted flashLibc)
        (script.tail.tail, reading s (cStr filename))).1 := by
    rw [← run_readIntoOpened]
    simp only [Program.runScript, readEntireFileToStringInto_eq, run_bind, hexists, decide_true,
      Option.isSome_some, Bool.and_self, Bool.true_eq_false, if_false, run_fopen, scripted,
      show script.tail.head = .works from hopen, hopened]
  have hinBounds : InBounds (scripted flashLibc) (readEntireFileToStringInto filename output)
      (script, s) ↔ InBounds (scripted flashLibc) (readOpened s.vfs.opened)
        (script.tail.tail, reading s (cStr filename)) := by
    rw [← @inBounds_readIntoOpened _ output]
    simp only [InBounds, readEntireFileToStringInto_eq, always_bind, hexists, decide_true,
      Option.isSome_some, Bool.and_self, Bool.true_eq_false, if_false, run_fopen, scripted,
      show script.tail.head = .works from hopen, hopened]
    refine (and_iff_right inBounds_exists).trans (and_iff_right (inBounds_call ?_))
    exact LibcCall.noConfusion
  change (_ → _) ∧ (_ → _) ∧ InBounds _ _ _ ↔ _
  rw [hrun, hresult, hinBounds, hbounds, hfile]
  change _ ↔ (_ → _) ∧ _ ∧ _
  rw [← and_assoc]
  apply and_congr_left'
  rw [intoOutput_right_iff]
  constructor
  · intro h hblocks
    exact h _ (if_neg hblocks)
  · intro h out hout
    by_cases hblocks : (readAnswer (script.get 2) (script.get 3) (script.get 4) (script.get 5)
        data).1 = 0
    · exact absurd ((if_pos hblocks).symm.trans hout) (Option.some_ne_none out).symm
    · rw [← h hblocks]
      exact Option.some.inj (hout.symm.trans (if_neg hblocks))

end Files

end Reading

/-- Writing and appending are truthful exactly when the print and the close lose nothing of the
content behind an open file. A read is sound exactly when, of a file that is found and
opened, nothing is stored for want of a size and a whole content has no NUL. -/
theorem reports_truthful_iff (content : PlainText) (filename output : Bytes) (script : Script)
    (s : Flash) :
    (Truthful (SPIFFS_IDFDriver.writeContentToFile content.bytes filename) filename content.bytes
        script s ↔ (script.get 0 = .works → Stored script content.bytes.length)) ∧
    (Truthful (SPIFFS_IDFDriver.appendContentToFile content.bytes filename) filename
        ((s.file filename).getD [] ++ content.bytes) script s ↔
      (script.get 0 = .works → Stored script content.bytes.length)) ∧
    (Sound filename output script s ↔ ∀ data, s.file filename = some data →
      script.get 0 = .works → script.get 1 = .works →
        ReadsWell (script.get 2) (script.get 3) (script.get 4) (script.get 5) data) := by
  rw [writeContentToFile_eq, appendContentToFile_eq]
  refine ⟨printTo_truthful_iff opened_write, printTo_truthful_iff opened_append, ?_⟩
  cases hfound : decide (script.head = .works) && (s.file filename).isSome with
  | false =>
    refine iff_of_true (sound_absent hfound) fun data hfile hstat _ => ?_
    rw [show script.head = .works from hstat, hfile] at hfound
    cases hfound
  | true =>
    obtain ⟨hstat, hsome⟩ := Bool.and_eq_true_iff.mp hfound
    obtain ⟨data, hfile⟩ := Option.isSome_iff_exists.mp hsome
    by_cases hopen : script.get 1 = .works
    · rw [sound_opened hfile (of_decide_eq_true hstat) hopen, readsRight_iff]
      constructor
      · intro h data' hfile' _ _
        obtain rfl := Option.some.inj (hfile.symm.trans hfile')
        exact h
      · intro h
        exact h data hfile (of_decide_eq_true hstat) hopen
    · exact iff_of_true (sound_unopened hfound hopen) fun _ _ _ h => absurd h hopen

section Sample

def outcomes (xs : List Outcome) : Script := xs ++ₛ Stream'.const .works

def letterA : PlainText := ⟨ascii "a", by decide, by decide, by decide⟩

def emptyFlash : Flash := ⟨mounted ∅, fun _ => []⟩

/-- The print fails, and the driver reports a written file. -/
theorem failed_print_reported_as_success :
    ((SPIFFS_IDFDriver.writeContentToFile letterA.bytes (ascii "f")).runScript flashLibc
        (outcomes [.works, .fails 0 0]) emptyFlash).1 = true ∧
      ((SPIFFS_IDFDriver.writeContentToFile letterA.bytes (ascii "f")).runScript flashLibc
        (outcomes [.works, .fails 0 0]) emptyFlash).2.file (ascii "f") = some [] ∧
      ¬ Truthful (SPIFFS_IDFDriver.writeContentToFile letterA.bytes (ascii "f")) (ascii "f")
        letterA.bytes (outcomes [.works, .fails 0 0]) emptyFlash := by
  have htrue : ((SPIFFS_IDFDriver.writeContentToFile letterA.bytes (ascii "f")).runScript flashLibc
      (outcomes [.works, .fails 0 0]) emptyFlash).1 = true := by decide
  have hfile : ((SPIFFS_IDFDriver.writeContentToFile letterA.bytes (ascii "f")).runScript flashLibc
      (outcomes [.works, .fails 0 0]) emptyFlash).2.file (ascii "f") = some [] := by decide
  refine ⟨htrue, hfile, ?_⟩
  intro htruthful
  exact absurd (hfile.symm.trans (htruthful htrue)) (by decide)

end Sample

end SpiffsReports
