import Esp32Utils.FallibleDriver

/-! # Which appends repeat bytes

Both modes retry a failed try, and a try may fail after bytes have reached the data
file. Those bytes stay, and the next try appends the whole content behind them. -/
namespace AppendExactlyOnce

open ByteStrings InteractionProgram FileSystemDriver SafeFileManipulator FallibleDriver
open ReliableDriver

variable {getMD5String : Bytes → Bytes} {content filename name old c : Bytes} {d d' : Disk}

/-- The bytes that a failed try leaves behind, by its first fault. -/
def leaves (content : Bytes) : List Fault → Bytes
  | .ok :: _ => content
  | .fail left :: _ => left.added content
  | [] => []

inductive FailedAppend : SafeFileSaverMode → List Fault → Prop where
  | normal (left) : FailedAppend .modeNormal [.fail left]
  | md5 {t} : FailedTry t → FailedAppend .modeUseMd5 t

/-- The faults of one try that leaves a file which can be loaded. -/
inductive LoadableAppend : SafeFileSaverMode → List Fault → Prop where
  | normal : LoadableAppend .modeNormal [.ok]
  | md5 {t} : PassedTry t true → LoadableAppend .modeUseMd5 t

theorem dataOf_normal_failed {u : Disk} {t : List Fault}
    (h : (updateFile true content name).Plays fallible d t false u) :
    FailedAppend .modeNormal t ∧ dataOf u name = dataOf d name ++ leaves content t := by
  rcases updateFile_plays.mp h with ⟨-, h, -⟩ | ⟨left, rfl, -, rfl⟩
  · cases h
  · exact ⟨.normal left, dataOf_residue_append left⟩

theorem dataOf_md5_failed {u : Disk} {t : List Fault}
    (h : (md5SaveTry getMD5String content filename true).Plays fallible d t false u) :
    FailedAppend .modeUseMd5 t ∧ dataOf u (mainFileName filename) =
      dataOf d (mainFileName filename) ++ leaves content t := by
  refine ⟨.md5 (md5SaveTry_failed.mp ⟨u, h⟩), ?_⟩
  rcases md5SaveTry_plays.mp h with ⟨left, rfl, -, rfl⟩ | ⟨g, found, ys, hl, rfl, hs⟩
  · exact dataOf_residue_append left
  · -- the content has been appended, and only the digest file changes after that
    have hmain : u.lookup (mainFileName filename) =
        some (updated true content (mainFileName filename) d) := by
      rcases storeMd5_plays.mp hs with ⟨left, -, -, rfl⟩ | ⟨left, -, -, rfl⟩ | ⟨-, hb, -⟩
      · rw [Residue.write_lookup_ne (mainFileName_ne_mainMd5FileName _ _), AList.lookup_insert]
      · rw [AList.lookup_insert_ne (mainFileName_ne_mainMd5FileName _ _), AList.lookup_insert]
      · cases hb
    simp [dataOf, hmain, leaves, updated]

theorem dataOf_failing {attempt : DriverProgram Bool} {tries : List (List Fault)} {u : Disk}
    (hstep : ∀ d t u, attempt.Plays fallible d t false u →
      dataOf u name = dataOf d name ++ leaves content t)
    (h : Failing fallible attempt tries d u) :
    dataOf u name = dataOf d name ++ (tries.map (leaves content)).flatten := by
  induction tries generalizing d with
  | nil =>
    obtain rfl := h
    simp
  | cons t tries ih =>
    obtain ⟨v, hv, h⟩ := h
    rw [ih h, hstep d t v hv]
    simp

def AppendScript (mode : SafeFileSaverMode) (faults : Stream' Fault)
    (tries : List (List Fault)) : Prop :=
  ∃ (last : List Fault) (rest : Stream' Fault), tries.length < 3 ∧
    (∀ t ∈ tries, FailedAppend mode t) ∧ LoadableAppend mode last ∧
    faults = (tries.flatten ++ last) ++ₛ rest

/-- What a loop of three tries makes loadable, from what one try does: a failed try leaves
its bytes, and a try that passes appends the content to what it finds. -/
theorem retry_append_loaded {mode : SafeFileSaverMode} {attempt : DriverProgram Bool}
    {faults : Stream' Fault}
    (hfail : ∀ d t u, attempt.Plays fallible d t false u →
      FailedAppend mode t ∧ dataOf u name = dataOf d name ++ leaves content t)
    (hplay : ∀ t, FailedAppend mode t → ∀ d, ∃ u, attempt.Plays fallible d t false u)
    (hpass : ∀ d t c, (∃ u, attempt.Plays fallible d t true u ∧
        load getMD5String mode filename u = (true, c)) ↔
      LoadableAppend mode t ∧ c = dataOf d name ++ content) :
    (∃ d', (retry attempt 3).runScript fallible faults d = (true, d') ∧
      load getMD5String mode filename d' = (true, c)) ↔
    ∃ tries, AppendScript mode faults tries ∧
      c = dataOf d name ++ (tries.map (leaves content)).flatten ++ content := by
  have hdata : ∀ {tries u}, Failing fallible attempt tries d u →
      dataOf u name = dataOf d name ++ (tries.map (leaves content)).flatten :=
    fun h => dataOf_failing (fun d t u h => (hfail d t u h).2) h
  constructor
  · intro h
    obtain ⟨d', hrun, hload⟩ := h
    obtain ⟨tries, last, rest, u, hn, rfl, hf, hl⟩ := runScript_retry_true.mp hrun
    obtain ⟨hlast, rfl⟩ := (hpass u last c).mp ⟨d', hl, hload⟩
    have hscripts := hf.forall fun t d u h => (hfail d t u h).1
    exact ⟨tries, ⟨last, rest, hn, hscripts, hlast, rfl⟩, by rw [hdata hf]⟩
  · intro h
    obtain ⟨tries, ⟨last, rest, hn, hscripts, hlast, rfl⟩, rfl⟩ := h
    obtain ⟨u, hf⟩ := failing_of_forall hplay hscripts d
    obtain ⟨d', hl, hload⟩ := (hpass u last _).mpr ⟨hlast, rfl⟩
    refine ⟨d', runScript_retry_true.mpr ⟨tries, last, rest, u, hn, rfl, hf, hl⟩, ?_⟩
    rw [hload, hdata hf]

/-- The name holds `old`: it loads as `old`, or none of its physical files exists. -/
inductive Holds (getMD5String : Bytes → Bytes) (filename : Bytes) (d : Disk) :
    SafeFileSaverMode → Bytes → Prop where
  | loads {mode old} : load getMD5String mode filename d = (true, old) →
      Holds getMD5String filename d mode old
  | normalAbsent : d.lookup filename = none → Holds getMD5String filename d .modeNormal []
  | md5Absent : d.lookup (mainFileName filename) = none →
      d.lookup (mainMd5FileName filename) = none → Holds getMD5String filename d .modeUseMd5 []

theorem normal_append_loaded {faults : Stream' Fault}
    (hold : Holds getMD5String filename d .modeNormal old) :
    (∃ d', (appendContentToFile getMD5String .modeNormal content filename).runScript
        fallible faults d = (true, d') ∧
      load getMD5String .modeNormal filename d' = (true, c)) ↔
    ∃ tries, AppendScript .modeNormal faults tries ∧
      c = old ++ (tries.map (leaves content)).flatten ++ content := by
  have hdata : dataOf d filename = old := by
    cases hold with
    | loads h => simp [dataOf, load_normal_eq_true.mp h]
    | normalAbsent h => simp [dataOf, h]
  rw [← hdata]
  refine retry_append_loaded (fun d t u => dataOf_normal_failed) ?_ ?_
  · rintro t ⟨left⟩ d
    exact ⟨_, updateFile_plays.mpr (Or.inr ⟨left, rfl, rfl, rfl⟩)⟩
  · intro d t c
    constructor
    · intro h
      obtain ⟨u, hu, hload⟩ := h
      rcases updateFile_plays.mp hu with ⟨rfl, -, rfl⟩ | ⟨_, -, h, -⟩
      · rw [load_normal_eq_true, AList.lookup_insert, Option.some.injEq] at hload
        exact ⟨.normal, hload.symm⟩
      · cases h
    · intro h
      obtain ⟨⟨⟩, rfl⟩ := h
      exact ⟨_, updateFile_plays.mpr (Or.inl ⟨rfl, rfl, rfl⟩),
        load_normal_eq_true.mpr (AList.lookup_insert _)⟩

theorem md5_append_loaded (hmd5 : ∀ c, getMD5String c ≠ []) {faults : Stream' Fault}
    (hold : Holds getMD5String filename d .modeUseMd5 old) :
    (∃ d', (appendContentToFile getMD5String .modeUseMd5 content filename).runScript
        fallible faults d = (true, d') ∧
      load getMD5String .modeUseMd5 filename d' = (true, c)) ↔
    ∃ tries, AppendScript .modeUseMd5 faults tries ∧
      c = old ++ (tries.map (leaves content)).flatten ++ content := by
  have hdata : dataOf d (mainFileName filename) = old := by
    cases hold with
    | loads h => simp [dataOf, (load_md5_eq_true.mp h).1]
    | md5Absent h _ => simp [dataOf, h]
  rw [← hdata]
  refine retry_append_loaded (fun d t u => dataOf_md5_failed) ?_ ?_
  · rintro t ⟨⟩ d
    rename_i ht
    exact md5SaveTry_failed.mpr ht
  · intro d t c
    constructor
    · intro h
      obtain ⟨u, hu, hload⟩ := h
      obtain ⟨found, hpass, rfl⟩ := md5SaveTry_passed.mp hu
      obtain ⟨rfl, rfl⟩ := (load_stored found (hmd5 _)).mp hload
      exact ⟨.md5 hpass, rfl⟩
    · intro h
      obtain ⟨⟨⟩, rfl⟩ := h
      rename_i hpass
      exact ⟨_, md5SaveTry_passed.mpr ⟨true, hpass, rfl⟩,
        (load_stored true (hmd5 _)).mpr ⟨rfl, rfl⟩⟩

/-- Some try before the one that succeeds leaves bytes of the content in the data file. -/
def RepeatsBytes (mode : SafeFileSaverMode) (content : Bytes) (faults : Stream' Fault) : Prop :=
  ∃ tries, AppendScript mode faults tries ∧ ∃ t ∈ tries, leaves content t ≠ []

/-- An append takes effect exactly once under the fault patterns that do not repeat bytes. -/
theorem append_once_iff (getMD5String : Bytes → Bytes) (hmd5 : ∀ c, getMD5String c ≠ [])
    (mode : SafeFileSaverMode) (hmode : mode = .modeNormal ∨ mode = .modeUseMd5)
    (d : Disk) (content filename old : Bytes) (hold : Holds getMD5String filename d mode old)
    (faults : Stream' Fault) :
    (∀ d' c, (appendContentToFile getMD5String mode content filename).runScript
        fallible faults d = (true, d') →
      load getMD5String mode filename d' = (true, c) → c = old ++ content) ↔
    ¬ RepeatsBytes mode content faults := by
  have hloaded : ∀ c, (∃ d', (appendContentToFile getMD5String mode content filename).runScript
        fallible faults d = (true, d') ∧ load getMD5String mode filename d' = (true, c)) ↔
      ∃ tries, AppendScript mode faults tries ∧
        c = old ++ (tries.map (leaves content)).flatten ++ content := by
    rcases hmode with rfl | rfl
    · exact fun c => normal_append_loaded hold
    · exact fun c => md5_append_loaded hmd5 hold
  constructor
  · rintro h ⟨tries, hs, t, ht, hne⟩
    obtain ⟨d', hrun, hload⟩ := (hloaded _).mpr ⟨tries, hs, rfl⟩
    have heq := h d' _ hrun hload
    rw [List.append_left_inj, List.append_right_eq_self] at heq
    exact hne (List.flatten_eq_nil_iff.mp heq _ (List.mem_map_of_mem ht))
  · intro h d' c hrun hload
    obtain ⟨tries, hs, rfl⟩ := (hloaded c).mp ⟨d', hrun, hload⟩
    have hnil : (tries.map (leaves content)).flatten = [] := by
      rw [List.flatten_eq_nil_iff]
      intro l hl
      obtain ⟨t, ht, rfl⟩ := List.mem_map.mp hl
      by_contra hne
      exact h ⟨tries, hs, t, ht, hne⟩
    rw [hnil, List.append_nil]

def byteStored : Disk := stored sampleMd5 (ascii "f") (ascii "a") true ∅

/-- The first try fails and leaves nothing. -/
theorem append_once_iff_sample :
    (∀ d' c, (appendContentToFile sampleMd5 .modeUseMd5 (ascii "b") (ascii "f")).runScript
        fallible ([.fail .unchanged] ++ₛ Stream'.const .ok) byteStored = (true, d') →
      load sampleMd5 .modeUseMd5 (ascii "f") d' = (true, c) → c = ascii "a" ++ ascii "b") ↔
    ¬ RepeatsBytes .modeUseMd5 (ascii "b") ([.fail .unchanged] ++ₛ Stream'.const .ok) :=
  append_once_iff sampleMd5 sampleMd5_ne_nil .modeUseMd5 (Or.inr rfl) byteStored (ascii "b")
    (ascii "f") (ascii "a") (.loads (by decide)) ([.fail .unchanged] ++ₛ Stream'.const .ok)

/-- One failure is enough in either mode: an append cut short after its bytes reached the
file, or a digest write that fails once the data file has been extended. -/
theorem append_repeats_bytes :
    let normal := (appendContentToFile sampleMd5 .modeNormal (ascii "a") (ascii "f")).runScript
      fallible ([.fail (.partly 1)] ++ₛ Stream'.const .ok) ∅
    let md5 := (appendContentToFile sampleMd5 .modeUseMd5 (ascii "a") (ascii "f")).runScript
      fallible ([.ok, .ok, .ok, .fail .unchanged] ++ₛ Stream'.const .ok) ∅
    Holds sampleMd5 (ascii "f") ∅ .modeNormal [] ∧ normal.1 = true ∧
      load sampleMd5 .modeNormal (ascii "f") normal.2 = (true, ascii "aa") ∧
    Holds sampleMd5 (ascii "f") ∅ .modeUseMd5 [] ∧ md5.1 = true ∧
      load sampleMd5 .modeUseMd5 (ascii "f") md5.2 = (true, ascii "aa") :=
  ⟨.normalAbsent rfl, by decide, by decide, .md5Absent rfl rfl, by decide, by decide⟩

end AppendExactlyOnce
