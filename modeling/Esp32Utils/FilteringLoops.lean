import Esp32Utils.SafeFileManipulator

/-! # The filtering loops of a listing

The two loops of `dataFilesList` erase from the list that they go through, and end with the
names of the data files without other dots that have a digest. -/
namespace FilteringLoops

open ByteStrings InteractionProgram WhileLoops FileSystemDriver SafeFileManipulator

section Names

variable {entries : List Bytes} {entry b : Bytes}

def dataName (entries : List Bytes) (entry : Bytes) : Option Bytes :=
  let filename := entry.take (entry.idxOf dot)
  if entry = filename ++ dataExtension ∧ filename ++ md5Extension ∈ entries then some filename
  else none

theorem dot_notMem_take (entry : Bytes) : dot ∉ entry.take (entry.idxOf dot) := by
  intro h
  have hm := List.mem_of_mem_take h
  exact lt_irrefl _ ((List.mem_take_iff_idxOf_lt hm).mp h)

theorem take_dot (h : dot ∉ b) :
    (b ++ dataExtension).take ((b ++ dataExtension).idxOf dot) = b := by
  rw [List.idxOf_append_of_notMem h]
  exact List.take_left

theorem dataName_eq_some :
    dataName entries entry = some b ↔
      dot ∉ b ∧ entry = b ++ dataExtension ∧ b ++ md5Extension ∈ entries := by
  unfold dataName
  constructor
  · intro h
    dsimp only at h
    split at h
    · rename_i hc
      obtain rfl := Option.some.inj h
      exact ⟨dot_notMem_take entry, hc⟩
    · cases h
  · intro h
    obtain ⟨hb, rfl, hm⟩ := h
    simp only [take_dot hb, hm, and_self, if_true]

theorem filterMap_dotted : (entries.filter (dot ∈ ·)).filterMap (dataName entries) =
    entries.filterMap (dataName entries) := by
  rw [List.filterMap_filter]
  refine List.filterMap_congr fun e _ => ?_
  by_cases he : dot ∈ e
  · simp [he]
  · have hn : dataName entries e = none := by
      rw [Option.eq_none_iff_forall_ne_some]
      intro b hb
      obtain ⟨-, rfl, -⟩ := dataName_eq_some.mp hb
      exact he (List.mem_append_right b (by decide))
    simp [he, hn]

end Names

/-- The variables with `kept` before the iterator and `rest` from it on. -/
def positioned (kept rest dataFilesList : List Bytes) : Variables :=
  ⟨kept ++ rest, kept.length, dataFilesList⟩

def remaining (s : Variables) : ℕ := s.allFilesList.length - s.it

section Positions

variable {kept rest acc names whole : List Bytes} {name : Bytes} {s : Variables}

theorem current_eq : (kept ++ name :: rest)[kept.length]? = some name := by
  rw [List.getElem?_append_right le_rfl, Nat.sub_self, List.getElem?_cons_zero]

theorem erase_current : (kept ++ name :: rest).eraseIdx kept.length = kept ++ rest := by
  rw [List.eraseIdx_append_of_length_le le_rfl, Nat.sub_self, List.eraseIdx_cons_zero]

theorem positioned_next : positioned (kept ++ [name]) rest acc =
    ⟨kept ++ name :: rest, kept.length + 1, acc⟩ := by
  simp [positioned]

theorem remaining_positioned : remaining (positioned kept rest acc) = rest.length := by
  simp [remaining, positioned]

theorem at_end_iff :
    ((positioned kept rest acc).it != (positioned kept rest acc).allFilesList.length) = false ↔
      rest = [] := by
  simp [positioned]

theorem findFirstOf_eq (h : dot ∈ name) : findFirstOf name = some (name.idxOf dot) := by
  cases hfound : findFirstOf name with
  | none => exact absurd h (List.idxOf?_eq_none_iff.mp hfound)
  | some i =>
    rw [List.idxOf_eq_getD_idxOf?]
    change some i = some ((findFirstOf name).getD name.length)
    rw [hfound, Option.getD_some]

theorem undotted_body : undottedLoop.body (positioned kept (name :: rest) acc) =
    some (if dot ∈ name then positioned (kept ++ [name]) rest acc
      else positioned kept rest acc) := by
  by_cases h : dot ∈ name
  · rw [if_pos h, positioned_next]
    simp only [undottedLoop, positioned, current_eq, findFirstOf_eq h, Option.bind_eq_bind,
      Option.bind_some, Option.pure_def]
  · have hnone : findFirstOf name = none := List.idxOf?_eq_none_iff.mpr h
    rw [if_neg h]
    simp only [undottedLoop, positioned, current_eq, hnone, Option.bind_eq_bind, Option.bind_some,
      Option.pure_def, erase_current]

def collected (files acc : List Bytes) (name : Bytes) : List Bytes :=
  if name.take (name.idxOf dot) ++ md5Extension ∈ files then acc ++ [name.take (name.idxOf dot)]
  else acc

theorem dataFiles_body (h : dot ∈ name) :
    dataFilesLoop.body (positioned kept (name :: rest) acc) =
      some (if name.drop (name.idxOf dot) = dataExtension then
          positioned kept rest (collected (kept ++ name :: rest) acc name)
        else positioned (kept ++ [name]) rest acc) := by
  by_cases hext : name.drop (name.idxOf dot) = dataExtension
  · simp only [dataFilesLoop, positioned, current_eq, findFirstOf_eq h, Option.bind_eq_bind,
      Option.bind_some, Option.pure_def, if_pos hext, erase_current, collected]
    by_cases hmd5 : name.take (name.idxOf dot) ++ md5Extension ∈ kept ++ name :: rest
    · rw [if_pos hmd5, if_pos hmd5]
    · rw [if_neg hmd5, if_neg hmd5]
  · rw [if_neg hext, positioned_next]
    simp only [dataFilesLoop, positioned, current_eq, findFirstOf_eq h, Option.bind_eq_bind,
      Option.bind_some, Option.pure_def, if_neg hext]

def SameDigests (files whole : List Bytes) : Prop :=
  ∀ b, b ++ md5Extension ∈ files ↔ b ++ md5Extension ∈ whole

theorem take_dataExtension (hext : name.drop (name.idxOf dot) = dataExtension) :
    name.take (name.idxOf dot) ++ dataExtension = name := by
  rw [← hext, List.take_append_drop]

theorem SameDigests.erase (h : SameDigests (kept ++ name :: rest) whole)
    (hext : name.drop (name.idxOf dot) = dataExtension) : SameDigests (kept ++ rest) whole := by
  intro b
  have hne : b ++ md5Extension ≠ name := by
    rw [← take_dataExtension hext]
    exact mainMd5FileName_ne_mainFileName b _
  rw [← h b]
  simp [hne]

theorem collected_eq (h : SameDigests names whole)
    (hext : name.drop (name.idxOf dot) = dataExtension) :
    collected names acc name ++ rest.filterMap (dataName whole) =
      acc ++ (name :: rest).filterMap (dataName whole) := by
  unfold collected
  by_cases hm : name.take (name.idxOf dot) ++ md5Extension ∈ whole
  · have hn : dataName whole name = some (name.take (name.idxOf dot)) :=
      dataName_eq_some.mpr ⟨dot_notMem_take name, (take_dataExtension hext).symm, hm⟩
    rw [if_pos ((h _).mpr hm), List.filterMap_cons_some hn, List.append_assoc,
      List.singleton_append]
  · have hn : dataName whole name = none := by simp [dataName, hm]
    rw [if_neg fun hk => hm ((h _).mp hk), List.filterMap_cons_none hn]

theorem passed_eq (hext : name.drop (name.idxOf dot) ≠ dataExtension) :
    (name :: rest).filterMap (dataName whole) = rest.filterMap (dataName whole) := by
  have hsplit := List.take_append_drop (name.idxOf dot) name
  have hne : name ≠ name.take (name.idxOf dot) ++ dataExtension := by
    intro he
    exact hext (List.append_cancel_left (hsplit.trans he))
  exact List.filterMap_cons_none (by simp [dataName, hne])

def Filtering (names : List Bytes) (s : Variables) : Prop :=
  ∃ kept rest, s = positioned kept rest [] ∧
    kept ++ rest.filter (dot ∈ ·) = names.filter (dot ∈ ·)

def Collecting (whole names : List Bytes) (s : Variables) : Prop :=
  ∃ kept rest acc, s = positioned kept rest acc ∧ (∀ name ∈ rest, dot ∈ name) ∧
    SameDigests (kept ++ rest) whole ∧
    acc ++ rest.filterMap (dataName whole) = names.filterMap (dataName whole)

theorem Filtering.step (h : Filtering names s) (hc : undottedLoop.condition s = true) :
    ∃ t, undottedLoop.body s = some t ∧ Filtering names t ∧ remaining t < remaining s := by
  obtain ⟨kept, rest, rfl, heq⟩ := h
  cases rest with
  | nil => exact absurd hc (Bool.eq_false_iff.mp (at_end_iff.mpr rfl))
  | cons name rest =>
    refine ⟨_, undotted_body, ?_⟩
    by_cases hdot : dot ∈ name
    · rw [if_pos hdot, remaining_positioned, remaining_positioned]
      refine ⟨⟨_, _, rfl, ?_⟩, Nat.lt_succ_self _⟩
      rw [← heq, List.filter_cons_of_pos (by simpa using hdot), List.append_assoc,
        List.singleton_append]
    · rw [if_neg hdot, remaining_positioned, remaining_positioned]
      refine ⟨⟨_, _, rfl, ?_⟩, Nat.lt_succ_self _⟩
      rw [← heq, List.filter_cons_of_neg (by simpa using hdot)]

theorem Collecting.step (h : Collecting whole names s) (hc : dataFilesLoop.condition s = true) :
    ∃ t, dataFilesLoop.body s = some t ∧ Collecting whole names t ∧
      remaining t < remaining s := by
  obtain ⟨kept, rest, acc, rfl, hdots, hsame, heq⟩ := h
  cases rest with
  | nil => exact absurd hc (Bool.eq_false_iff.mp (at_end_iff.mpr rfl))
  | cons name rest =>
    obtain ⟨hdot, hrest⟩ := List.forall_mem_cons.mp hdots
    refine ⟨_, dataFiles_body hdot, ?_⟩
    by_cases hext : name.drop (name.idxOf dot) = dataExtension
    · rw [if_pos hext, remaining_positioned, remaining_positioned]
      refine ⟨⟨_, _, _, rfl, hrest, hsame.erase hext, ?_⟩, Nat.lt_succ_self _⟩
      rw [collected_eq hsame hext, heq]
    · rw [if_neg hext, remaining_positioned, remaining_positioned]
      refine ⟨⟨_, _, _, rfl, hrest, ?_, ?_⟩, Nat.lt_succ_self _⟩
      · rw [List.append_assoc, List.singleton_append]
        exact hsame
      · rw [← heq, passed_eq hext]

theorem undotted_run (names : List Bytes) :
    ∃ t, undottedLoop.run names.length ⟨names, 0, []⟩ = some t ∧
      t.allFilesList = names.filter (dot ∈ ·) ∧ t.dataFilesList = [] := by
  obtain ⟨t, hrun, ⟨kept, rest, rfl, heq⟩, hexit⟩ :=
    run_of_measure (Filtering names) remaining (fun _ => Filtering.step) ⟨[], names, rfl, rfl⟩
      (le_of_eq remaining_positioned)
  obtain rfl := at_end_iff.mp hexit
  exact ⟨_, hrun, heq, rfl⟩

theorem dataFiles_run (hdots : ∀ name ∈ names, dot ∈ name) (hsame : SameDigests names whole) :
    ∃ t, dataFilesLoop.run names.length ⟨names, 0, []⟩ = some t ∧
      t.dataFilesList = names.filterMap (dataName whole) := by
  obtain ⟨t, hrun, ⟨kept, rest, acc, rfl, -, -, heq⟩, hexit⟩ :=
    run_of_measure (Collecting whole names) remaining (fun _ => Collecting.step)
      ⟨[], names, [], rfl, hdots, hsame, rfl⟩ (le_of_eq remaining_positioned)
  obtain rfl := at_end_iff.mp hexit
  exact ⟨_, hrun, (List.append_nil acc).symm.trans heq⟩

end Positions

/-- Neither loop fails, and together they leave the data files that have a digest. -/
theorem loops_run (names : List Bytes) : ∃ first second,
    undottedLoop.run names.length ⟨names, 0, []⟩ = some first ∧
    dataFilesLoop.run first.allFilesList.length first.rewind = some second ∧
    second.dataFilesList = names.filterMap (dataName names) := by
  obtain ⟨first, hfirst, hfiles, hnone⟩ := undotted_run names
  have hdots : ∀ name ∈ first.allFilesList, dot ∈ name := by
    intro name hname
    rw [hfiles] at hname
    exact of_decide_eq_true (List.mem_filter.mp hname).2
  have hsame : SameDigests first.allFilesList names := by
    intro b
    have hdot : dot ∈ b ++ md5Extension := List.mem_append_right b (by decide)
    rw [hfiles, List.mem_filter]
    exact and_iff_left (decide_eq_true hdot)
  have hrewind : first.rewind = ⟨first.allFilesList, 0, []⟩ := by
    rw [Variables.rewind, hnone]
  obtain ⟨second, hsecond, hresult⟩ := dataFiles_run hdots hsame
  rw [← hrewind] at hsecond
  refine ⟨first, second, hfirst, hsecond, ?_⟩
  rw [hresult, hfiles, filterMap_dotted]

theorem filtered_eq (names : List Bytes) :
    filtered names = some (names.filterMap (dataName names)) := by
  obtain ⟨first, second, hfirst, hsecond, hresult⟩ := loops_run names
  simp only [filtered, hfirst, hsecond, hresult, Option.bind_eq_bind, Option.bind_some,
    Option.pure_def]

/-- Both loops end, with no access outside of the list or of a name, and leave the result. -/
def Filters (names result : List Bytes) : Prop :=
  ∃ first second, undottedLoop.Ends ⟨names, 0, []⟩ first ∧
    dataFilesLoop.Ends first.rewind second ∧ second.dataFilesList = result

theorem filters_listing (names : List Bytes) :
    Filters names (names.filterMap (dataName names)) := by
  obtain ⟨first, second, hfirst, hsecond, hresult⟩ := loops_run names
  exact ⟨first, second, ⟨_, hfirst⟩, ⟨_, hsecond⟩, hresult⟩

theorem Filters.unique {names result result' : List Bytes} (h : Filters names result)
    (h' : Filters names result') : result = result' := by
  obtain ⟨first, second, hfirst, hsecond, rfl⟩ := h
  obtain ⟨first', second', hfirst', hsecond', rfl⟩ := h'
  obtain rfl := hfirst.unique hfirst'
  rw [hsecond.unique hsecond']

/-- For every list of names the loops end, and leave in the order of the list the names of the
data files without other dots that have a digest. -/
theorem filtering_exact {σ : Type} (h : Handler IFileSystemDriver σ) (s : σ) (directory : Bytes) :
    let names := (h (.filesList directory) s).1
    (∀ result, Filters names result ↔ result = names.filterMap (dataName names)) ∧
      ((dataFilesList .modeUseMd5 directory).run h s).1 = names.filterMap (dataName names) ∧
      ∀ entry b, dataName names entry = some b ↔
        entry = b ++ dataExtension ∧ dot ∉ b ∧ b ++ md5Extension ∈ names := by
  intro names
  refine ⟨?_, ?_, ?_⟩
  · intro result
    constructor
    · intro hresult
      exact hresult.unique (filters_listing names)
    · intro hresult
      rw [hresult]
      exact filters_listing names
  · simp [dataFilesList, filtered_eq, names]
  · intro entry b
    rw [dataName_eq_some, and_left_comm]

end FilteringLoops
