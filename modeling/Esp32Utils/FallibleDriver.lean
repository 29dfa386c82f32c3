import Esp32Utils.Interaction.CrashLogic
import Esp32Utils.ReliableDriver

/-! # An honest driver that may fail

Every call may report failure. A call that reports success has done exactly what it
says; a failed read or check changes nothing; a failed write leaves the file as it was,
absent, or holding a prefix of the new bytes, and a failed append leaves any prefix
appended. A power cut inside a call leaves what a failure of that call may leave. -/
namespace FallibleDriver

open ByteStrings InteractionProgram FileSystemDriver SafeFileManipulator ReliableDriver

inductive Residue where
  | unchanged
  | absent
  | partly (n : ℕ)
  deriving DecidableEq, Repr

inductive Fault where
  | ok
  | fail (left : Residue)
  deriving DecidableEq, Repr, Inhabited

def Residue.write (content filename : Bytes) (d : Disk) : Residue → Disk
  | .unchanged => d
  | .absent => d.erase filename
  | .partly n => d.insert filename (content.take n)

def Residue.added (content : Bytes) : Residue → Bytes
  | .partly n => content.take n
  | _ => []

def Residue.append (content filename : Bytes) (d : Disk) : Residue → Disk
  | .partly n => d.insert filename ((d.lookup filename).getD [] ++ content.take n)
  | _ => d

def Residue.delete (filename : Bytes) (d : Disk) : Residue → Disk
  | .absent => d.erase filename
  | _ => d

def fallible : Environment IFileSystemDriver Fault Disk
  | c, .ok, d => Disk.answer c d
  | .writeContentToFile content filename, .fail left, d =>
    (false, left.write content filename d)
  | .appendContentToFile content filename, .fail left, d =>
    (false, left.append content filename d)
  | .readEntireFileToString _, .fail _, d => (none, d)
  | .doesFileExist _, .fail _, d => (false, d)
  | .deleteFile fullFileName, .fail left, d => (false, left.delete fullFileName d)
  | .filesList _, .fail _, d => ([], d)
  | .countFiles _, .fail _, d => (0, d)

/-- The faults met while `getFileMd5` looks up a file that exists, and whether its
digest was computed. -/
inductive Lookup : List Fault → Bool → Prop where
  | missed (left) : Lookup [.fail left] false
  | unread (left) : Lookup [.ok, .fail left] false
  | found : Lookup [.ok, .ok] true

inductive FailedTry : List Fault → Prop where
  | mainWrite (left) : FailedTry [.fail left]
  | md5Write {g b} (hg : Lookup g b) (left) : FailedTry (.ok :: g ++ [.fail left])
  | md5Read {g b} (hg : Lookup g b) (left) : FailedTry (.ok :: g ++ [.ok, .fail left])

inductive PassedTry : List Fault → Bool → Prop where
  | mk {g b} (hg : Lookup g b) : PassedTry (.ok :: g ++ [.ok, .ok]) b

section Transcripts

variable {getMD5String : Bytes → Bytes} {content filename name : Bytes} {append b : Bool}
  {d d' : Disk} {xs : List Fault}

theorem Residue.write_lookup_ne {other : Bytes} (h : other ≠ name) (left : Residue) :
    (left.write content name d).lookup other = d.lookup other := by
  cases left with
  | unchanged => rfl
  | absent => exact AList.lookup_erase_ne h
  | partly n => exact AList.lookup_insert_ne h

def Residue.update (append : Bool) (content name : Bytes) (d : Disk) (left : Residue) : Disk :=
  if append then left.append content name d else left.write content name d

def dataOf (d : Disk) (name : Bytes) : Bytes := (d.lookup name).getD []

theorem dataOf_residue_append (left : Residue) :
    dataOf (left.append content name d) name = dataOf d name ++ left.added content := by
  cases left <;> simp [Residue.append, Residue.added, dataOf]

theorem updateFile_plays :
    (updateFile append content name).Plays fallible d xs b d' ↔
      (xs = [.ok] ∧ b = true ∧ d' = d.insert name (updated append content name d)) ∨
      ∃ left, xs = [.fail left] ∧ b = false ∧ d' = left.update append content name d := by
  unfold updateFile updated Residue.update
  constructor
  · intro h
    cases append <;> obtain ⟨x, ys, rfl, rfl, rfl, rfl⟩ := h <;> cases x with
    | ok => exact Or.inl ⟨rfl, rfl, rfl⟩
    | fail left => exact Or.inr ⟨left, rfl, rfl, rfl⟩
  · rintro (⟨rfl, rfl, rfl⟩ | ⟨left, rfl, rfl, rfl⟩) <;> cases append <;>
      exact ⟨_, [], rfl, rfl, rfl, rfl⟩

/-- What a try computes from the data file: its digest, or nothing when it was lost. -/
def lookedUp (getMD5String : Bytes → Bytes) (data : Bytes) (found : Bool) : Bytes :=
  if found then getMD5String data else []

theorem getFileMd5_plays {data md5 : Bytes} (hd : d.lookup name = some data) :
    (AbstractFileSystemDriver.getFileMd5 getMD5String name).Plays fallible d xs md5 d' ↔
      d' = d ∧ ∃ found, Lookup xs found ∧ md5 = lookedUp getMD5String data found := by
  constructor
  · intro h
    obtain ⟨x, ys, rfl, h⟩ := h
    cases x with
    | fail left =>
      obtain ⟨rfl, rfl, rfl⟩ := h
      exact ⟨rfl, false, .missed left, rfl⟩
    | ok =>
      simp only [fallible, Disk.answer, hd, Option.isSome_some] at h
      obtain ⟨y, zs, rfl, h⟩ := h
      cases y with
      | fail left =>
        obtain ⟨rfl, rfl, rfl⟩ := h
        exact ⟨rfl, false, .unread left, rfl⟩
      | ok =>
        simp only [fallible, Disk.answer, hd] at h
        obtain ⟨rfl, rfl, rfl⟩ := h
        exact ⟨rfl, true, .found, rfl⟩
  · intro h
    obtain ⟨rfl, b, hl, rfl⟩ := h
    have he : (Disk.answer (.doesFileExist name) d').1 = true := by simp [Disk.answer, hd]
    cases hl with
    | missed left => exact ⟨_, [], rfl, rfl, rfl, rfl⟩
    | unread left =>
      refine ⟨.ok, [.fail left], rfl, ?_⟩
      simp only [fallible, he]
      exact ⟨_, [], rfl, rfl, rfl, rfl⟩
    | found =>
      refine ⟨.ok, [.ok], rfl, ?_⟩
      simp only [fallible, he]
      refine ⟨.ok, [], rfl, ?_⟩
      simp only [fallible, Disk.answer, hd]
      exact ⟨rfl, rfl, rfl⟩

theorem storeMd5_plays {md5 : Bytes} :
    (storeMd5 md5 filename).Plays fallible d xs b d' ↔
      (∃ left, xs = [.fail left] ∧ b = false ∧
        d' = left.write md5 (mainMd5FileName filename) d) ∨
      (∃ left, xs = [.ok, .fail left] ∧ b = false ∧ d' = d.insert (mainMd5FileName filename) md5) ∨
      (xs = [.ok, .ok] ∧ b = true ∧ d' = d.insert (mainMd5FileName filename) md5) := by
  constructor
  · intro h
    obtain ⟨x, ys, rfl, h⟩ := h
    cases x with
    | fail left =>
      obtain ⟨rfl, rfl, rfl⟩ := h
      exact Or.inl ⟨left, rfl, rfl, rfl⟩
    | ok =>
      obtain ⟨y, zs, rfl, h⟩ := h
      cases y with
      | fail left =>
        obtain ⟨rfl, rfl, rfl⟩ := h
        exact Or.inr (Or.inl ⟨left, rfl, rfl, rfl⟩)
      | ok =>
        simp only [fallible, Disk.answer, AList.lookup_insert] at h
        obtain ⟨rfl, hb, rfl⟩ := h
        exact Or.inr (Or.inr ⟨rfl, hb.symm.trans (beq_self_eq_true md5), rfl⟩)
  · intro h
    rcases h with ⟨left, rfl, rfl, rfl⟩ | ⟨left, rfl, rfl, rfl⟩ | ⟨rfl, rfl, rfl⟩
    · exact ⟨_, [], rfl, rfl, rfl, rfl⟩
    · exact ⟨_, _, rfl, _, [], rfl, rfl, rfl, rfl⟩
    · refine ⟨.ok, [.ok], rfl, .ok, [], rfl, ?_⟩
      simp only [fallible, Disk.answer, AList.lookup_insert]
      exact ⟨rfl, beq_self_eq_true md5, rfl⟩

theorem md5SaveTry_plays :
    (md5SaveTry getMD5String content filename append).Plays fallible d xs b d' ↔
      (∃ left, xs = [.fail left] ∧ b = false ∧
        d' = left.update append content (mainFileName filename) d) ∨
      ∃ g found ys, Lookup g found ∧ xs = .ok :: (g ++ ys) ∧
        (storeMd5 (lookedUp getMD5String (updated append content (mainFileName filename) d) found)
          filename).Plays fallible (d.insert (mainFileName filename)
            (updated append content (mainFileName filename) d)) ys b d' := by
  rw [md5SaveTry_splits]
  constructor
  · intro h
    rcases h with ⟨hu, rfl⟩ | ⟨us, g, ys, u, v, md5, rfl, hu, hg, h⟩
    · rcases updateFile_plays.mp hu with ⟨-, hb, -⟩ | ⟨left, rfl, -, rfl⟩
      · cases hb
      · exact Or.inl ⟨left, rfl, rfl, rfl⟩
    · rcases updateFile_plays.mp hu with ⟨rfl, -, rfl⟩ | ⟨left, -, hb, -⟩
      · obtain ⟨rfl, found, hl, rfl⟩ := (getFileMd5_plays (AList.lookup_insert _)).mp hg
        exact Or.inr ⟨g, found, ys, hl, rfl, h⟩
      · cases hb
  · intro h
    rcases h with ⟨left, rfl, rfl, rfl⟩ | ⟨g, found, ys, hl, rfl, h⟩
    · exact Or.inl ⟨updateFile_plays.mpr (Or.inr ⟨left, rfl, rfl, rfl⟩), rfl⟩
    · have hu := (@updateFile_plays content (mainFileName filename) append true d _ [.ok]).mpr
        (Or.inl ⟨rfl, rfl, rfl⟩)
      exact Or.inr ⟨[.ok], g, ys, _, _, _, rfl, hu,
        (getFileMd5_plays (AList.lookup_insert _)).mpr ⟨rfl, found, hl, rfl⟩, h⟩

def stored (getMD5String : Bytes → Bytes) (filename data : Bytes) (found : Bool) (d : Disk) :
    Disk :=
  (d.insert (mainFileName filename) data).insert (mainMd5FileName filename)
    (lookedUp getMD5String data found)

theorem load_stored {data c : Bytes} (found : Bool) (hmd5 : getMD5String data ≠ []) :
    load getMD5String .modeUseMd5 filename (stored getMD5String filename data found d) =
      (true, c) ↔ found = true ∧ data = c := by
  rw [load_md5_eq_true]
  simp only [stored, ne_eq, mainFileName_ne_mainMd5FileName, not_false_eq_true,
    AList.lookup_insert_ne, AList.lookup_insert, Option.some.injEq, lookedUp]
  cases found with
  | true => simp +contextual
  | false =>
    simp only [Bool.false_eq_true, if_false, false_and, iff_false]
    intro h
    obtain ⟨rfl, h⟩ := h
    exact hmd5 h.symm

theorem md5SaveTry_passed :
    (md5SaveTry getMD5String content filename append).Plays fallible d xs true d' ↔
      ∃ found, PassedTry xs found ∧ d' = stored getMD5String filename
        (updated append content (mainFileName filename) d) found d := by
  rw [md5SaveTry_plays]
  constructor
  · intro h
    rcases h with ⟨left, -, h, -⟩ | ⟨g, found, ys, hl, rfl, h⟩
    · cases h
    · rcases storeMd5_plays.mp h with ⟨_, -, h, -⟩ | ⟨_, -, h, -⟩ | ⟨rfl, -, rfl⟩
      · cases h
      · cases h
      · exact ⟨found, .mk hl, rfl⟩
  · intro h
    obtain ⟨found, ⟨hl⟩, rfl⟩ := h
    exact Or.inr ⟨_, _, [.ok, .ok], hl, rfl, storeMd5_plays.mpr (Or.inr (Or.inr ⟨rfl, rfl, rfl⟩))⟩

theorem md5SaveTry_failed :
    (∃ d', (md5SaveTry getMD5String content filename append).Plays fallible d xs false d') ↔
      FailedTry xs := by
  constructor
  · intro h
    obtain ⟨d', h⟩ := h
    rcases md5SaveTry_plays.mp h with ⟨left, rfl, -⟩ | ⟨g, found, ys, hl, rfl, hs⟩
    · exact .mainWrite left
    · rcases storeMd5_plays.mp hs with ⟨left, rfl, -⟩ | ⟨left, rfl, -⟩ | ⟨-, h, -⟩
      · exact .md5Write hl left
      · exact .md5Read hl left
      · cases h
  · intro h
    rcases h with ⟨left⟩ | ⟨hl, left⟩ | ⟨hl, left⟩
    · exact ⟨_, md5SaveTry_plays.mpr (Or.inl ⟨left, rfl, rfl, rfl⟩)⟩
    · exact ⟨_, md5SaveTry_plays.mpr (Or.inr ⟨_, _, [.fail left], hl, rfl,
        storeMd5_plays.mpr (Or.inl ⟨left, rfl, rfl, rfl⟩)⟩)⟩
    · exact ⟨_, md5SaveTry_plays.mpr (Or.inr ⟨_, _, [.ok, .fail left], hl, rfl,
        storeMd5_plays.mpr (Or.inr (Or.inl ⟨left, rfl, rfl, rfl⟩))⟩)⟩

theorem failing_exists {tries : List (List Fault)} (h : ∀ t ∈ tries, FailedTry t) (d : Disk) :
    ∃ d', Failing fallible (md5SaveTry getMD5String content filename append) tries d d' :=
  failing_of_forall (fun _ ht _ => md5SaveTry_failed.mpr ht) h d

theorem failing_scripts {tries : List (List Fault)}
    (h : Failing fallible (md5SaveTry getMD5String content filename append) tries d d') :
    ∀ t ∈ tries, FailedTry t :=
  h.forall fun _ _ u hu => md5SaveTry_failed.mp ⟨u, hu⟩

/-- A save or append in MD5 mode that reports success: some failed tries, then one that passes. -/
theorem saveInMd5Mode_runScript {faults : Stream' Fault} :
    (saveInMd5Mode getMD5String content filename append).runScript fallible faults d = (true, d') ↔
      ∃ tries last rest found u, tries.length < maxSaveTriesInMd5Mode ∧
        faults = (tries.flatten ++ last) ++ₛ rest ∧ PassedTry last found ∧
        Failing fallible (md5SaveTry getMD5String content filename append) tries d u ∧
        d' = stored getMD5String filename (updated append content (mainFileName filename) u)
          found u := by
  unfold saveInMd5Mode
  rw [runScript_retry_true]
  constructor
  · intro h
    obtain ⟨tries, last, rest, u, hn, rfl, hf, hl⟩ := h
    obtain ⟨found, hpass, rfl⟩ := md5SaveTry_passed.mp hl
    exact ⟨tries, last, rest, found, u, hn, rfl, hpass, hf, rfl⟩
  · intro h
    obtain ⟨tries, last, rest, found, u, hn, rfl, hpass, hf, rfl⟩ := h
    exact ⟨tries, last, rest, u, hn, rfl, hf, md5SaveTry_passed.mpr ⟨found, hpass, rfl⟩⟩

end Transcripts

end FallibleDriver
