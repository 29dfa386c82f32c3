import Esp32Utils.FilesTouched
import Esp32Utils.SpiffsRoundTrip

/-! # The manipulator over SPIFFS_IDFDriver

On a healthy file system the stack of manipulator and driver is a map that stores what a
formatted print makes of a content. It is the map of contents where the prints copy them. -/
namespace IdfStack

open ByteStrings InteractionProgram InteractionDiscipline InteractionLayers ObservationalRefinement
open FileSystemDriver SafeFileManipulator ReliableDriver ManipulatorMap FilesTouched
open Libc SpiffsIdfDriver SpiffsRoundTrip

variable {resolves : Bytes → Bool} {content filename name out : Bytes} {v : Vfs} {d : Disk}

def expanded (content : Bytes) : Bytes := (printfExpand (cStr content)).getD []

def Writes (content : Bytes) : Prop :=
  printfExpand (cStr content) = some (expanded content) ∧ expanded content ≠ []

theorem expand_noNul {format : Bytes} (h : printfExpand format = some out) (hz : 0 ∉ format) :
    0 ∉ out := by
  fun_induction printfExpand format generalizing out with
  | case1 =>
    obtain rfl := Option.some.inj h
    exact hz
  | case2 => cases h
  | case3 =>
    obtain rfl := Option.some.inj h
    exact hz
  | case4 format ih =>
    obtain ⟨rest, hr, rfl⟩ := Option.map_eq_some_iff.mp h
    rw [List.mem_cons, not_or]
    exact ⟨by decide, ih hr fun hm => hz (List.mem_cons_of_mem _ (List.mem_cons_of_mem _ hm))⟩
  | case5 => cases h
  | case6 b c format hb ih =>
    obtain ⟨rest, hr, rfl⟩ := Option.map_eq_some_iff.mp h
    rw [List.mem_cons, not_or] at hz ⊢
    exact ⟨hz.1, ih hr hz.2⟩

theorem Writes.noNul (h : Writes content) : 0 ∉ expanded content :=
  expand_noNul h.1 (zero_not_mem_cStr content)

def Text (d : Disk) : Prop := ∀ name data, d.lookup name = some data → data ≠ [] ∧ 0 ∉ data

theorem Text.insert (h : Text d) (hne : out ≠ []) (hz : 0 ∉ out) : Text (d.insert name out) := by
  intro other data hdata
  by_cases ho : other = name
  · subst ho
    rw [AList.lookup_insert, Option.some.injEq] at hdata
    exact hdata ▸ ⟨hne, hz⟩
  · rw [AList.lookup_insert_ne ho] at hdata
    exact h other data hdata

theorem Text.erase (h : Text d) : Text (d.erase name) := by
  intro other data hdata
  by_cases ho : other = name
  · subst ho
    rw [AList.lookup_erase] at hdata
    cases hdata
  · rw [AList.lookup_erase_ne ho] at hdata
    exact h other data hdata

structure Holds (v : Vfs) (d : Disk) : Prop where
  files : v.files = d
  closed : ∀ i, v.streams i = none
  defined : v.isUndefined = false
  text : Text d

theorem Holds.afterStream (h : Holds v d) {files : Disk} (ht : Text files) :
    Holds (afterStream v files) files := by
  refine ⟨rfl, fun i => ?_, h.defined, ht⟩
  by_cases hi : i = v.opened
  · subst hi
    exact Function.update_self ..
  · exact (Function.update_of_ne hi ..).trans (h.closed i)

/-- A driver that stores what a print makes of the contents. -/
def printing : Handler IFileSystemDriver Disk
  | .writeContentToFile content filename, d =>
    Disk.answer (.writeContentToFile (expanded content) filename) d
  | .appendContentToFile content filename, d =>
    Disk.answer (.appendContentToFile (expanded content) filename) d
  | c, d => Disk.answer c d

def Plain (resolves : Bytes → Bool) : DriverCall → Prop
  | .writeContentToFile content filename =>
    Writes content ∧ 0 ∉ filename ∧ resolves filename = true
  | .appendContentToFile content filename =>
    Writes content ∧ 0 ∉ filename ∧ resolves filename = true
  | .readEntireFileToString filename => 0 ∉ filename ∧ resolves filename = true
  | .doesFileExist filename => 0 ∉ filename ∧ resolves filename = true
  | .deleteFile filename => 0 ∉ filename ∧ resolves filename = true
  | .filesList _ => False
  | .countFiles _ => False

theorem printed_holds {data : Bytes} (h : Holds v d) (hw : Writes content) (hz : 0 ∉ data) :
    (printed content name data v).1 = true ∧
      Holds (printed content name data v).2 (d.insert name (data ++ expanded content)) := by
  have hne : data ++ expanded content ≠ [] := List.append_ne_nil_of_right_ne_nil _ hw.2
  have hnoNul : 0 ∉ data ++ expanded content :=
    fun hm => (List.mem_append.mp hm).elim hz hw.noNul
  obtain rfl := h.files
  unfold printed
  rw [hw.1]
  exact ⟨by simp [hw.2], h.afterStream (h.text.insert hne hnoNul)⟩

theorem exists_resolved (hz : 0 ∉ filename) (hr : resolves filename = true) :
    (SPIFFS_IDFDriver.doesFileExist filename).run (libc resolves) v =
      ((v.files.lookup filename).isSome, v) := by
  have hself := cStr_eq_self.mpr hz
  rw [run_spiffsExists, hself, hr, Bool.true_and]

theorem spiffs_reads {filename : Bytes} (hz : 0 ∉ filename) (hr : resolves filename = true)
    (h : Holds v d) :
    (spiffs resolves (.readEntireFileToString filename) v).1 = d.lookup filename ∧
      Holds (spiffs resolves (.readEntireFileToString filename) v).2 d := by
  obtain rfl := h.files
  cases hdata : v.files.lookup filename with
  | none =>
    have hmissing := exists_resolved (v := v) hz hr
    rw [hdata] at hmissing
    simp only [spiffs, SPIFFS_IDFDriver.methods, SPIFFS_IDFDriver.readEntireFileToString,
      run_bind, hmissing]
    exact ⟨rfl, h⟩
  | some data =>
    rw [← cStr_eq_self.mpr hz] at hr
    have hread : (SPIFFS_IDFDriver.readEntireFileToString filename).run (libc resolves) v =
        (if data = [] then none else some (cStr data), afterStream v v.files) :=
      run_spiffsRead hr (by rw [cStr_eq_self.mpr hz, hdata])
    obtain ⟨hne, hnoNul⟩ := h.text _ _ hdata
    rw [if_neg hne, cStr_eq_self.mpr hnoNul] at hread
    simp only [spiffs, SPIFFS_IDFDriver.methods, hread]
    exact ⟨trivial, h.afterStream h.text⟩

theorem spiffs_deletes {filename : Bytes} (hz : 0 ∉ filename) (hr : resolves filename = true)
    (h : Holds v d) :
    (spiffs resolves (.deleteFile filename) v).1 = true ∧
      Holds (spiffs resolves (.deleteFile filename) v).2 (d.erase filename) := by
  obtain rfl := h.files
  have hexists := exists_resolved (v := v) hz hr
  cases hdata : v.files.lookup filename with
  | none =>
    rw [hdata] at hexists
    simp only [spiffs, SPIFFS_IDFDriver.methods, SPIFFS_IDFDriver.deleteFile, run_bind, hexists]
    rw [Disk.erase_of_absent hdata]
    exact ⟨rfl, h⟩
  | some data =>
    have hunlink : libc resolves (.unlink filename) v =
        (0, { v with files := v.files.erase filename }) := by
      simp only [libc, hr, hdata, Option.isSome_some, Bool.and_self, if_true]
    rw [hdata] at hexists
    simp only [spiffs, SPIFFS_IDFDriver.methods, SPIFFS_IDFDriver.deleteFile, run_bind, hexists,
      Option.isSome_some, Bool.true_eq_false, if_false, run_unlink, cStr_eq_self.mpr hz, hunlink]
    exact ⟨rfl, rfl, h.closed, h.defined, h.text.erase⟩

theorem spiffs_answers {c : DriverCall} (hc : Plain resolves c) (h : Holds v d) :
    (spiffs resolves c v).1 = (printing c d).1 ∧
      Holds (spiffs resolves c v).2 (printing c d).2 := by
  obtain rfl := h.files
  cases c with
  | writeContentToFile content filename =>
    obtain ⟨hw, hz, hr⟩ := hc
    rw [← cStr_eq_self.mpr hz] at hr
    have hrun : (SPIFFS_IDFDriver.writeContentToFile content filename).run (libc resolves) v =
        printed content (cStr filename) [] v := run_spiffsWrite hr
    rw [cStr_eq_self.mpr hz] at hrun
    simp only [spiffs, SPIFFS_IDFDriver.methods, hrun]
    exact printed_holds h hw List.not_mem_nil
  | appendContentToFile content filename =>
    obtain ⟨hw, hz, hr⟩ := hc
    rw [← cStr_eq_self.mpr hz] at hr
    have hrun : (SPIFFS_IDFDriver.appendContentToFile content filename).run (libc resolves) v =
        printed content (cStr filename) ((v.files.lookup (cStr filename)).getD []) v :=
      run_spiffsAppend hr
    rw [cStr_eq_self.mpr hz] at hrun
    simp only [spiffs, SPIFFS_IDFDriver.methods, hrun]
    refine printed_holds h hw ?_
    cases hold : v.files.lookup filename with
    | none => exact List.not_mem_nil
    | some old => exact (h.text _ _ hold).2
  | readEntireFileToString filename => exact spiffs_reads hc.1 hc.2 h
  | doesFileExist filename =>
    simp only [spiffs, SPIFFS_IDFDriver.methods, exists_resolved hc.1 hc.2]
    exact ⟨rfl, h⟩
  | deleteFile filename => exact spiffs_deletes hc.1 hc.2 h
  | filesList path => exact hc.elim
  | countFiles path => exact hc.elim

section Operations

variable {getMD5String : Bytes → Bytes} {mode : SafeFileSaverMode} {append : Bool} {md5 : Bytes}

abbrev AllPlain (resolves : Bytes → Bool) {α : Type} (p : DriverProgram α) (d : Disk) : Prop :=
  Always printing (fun c _ => Plain resolves c) p d

def Accessible (resolves : Bytes → Bool) (name : Bytes) : Prop :=
  0 ∉ name ∧ resolves name = true

theorem run_updateFile :
    (updateFile append content name).run printing d =
      (true, d.insert name (updated append (expanded content) name d)) := by
  cases append <;> rfl

theorem updateFile_plain (hw : Writes content) (ha : Accessible resolves name) :
    AllPlain resolves (updateFile append content name) d := by
  cases append <;> exact ⟨⟨hw, ha⟩, trivial⟩

theorem writes_of_printable (h : Printable md5) : Writes md5 ∧ expanded md5 = md5 := by
  have hself : expanded md5 = md5 := by rw [expanded, h.expand, Option.getD_some]
  exact ⟨⟨by rw [hself, h.expand], by rw [hself]; exact h.1⟩, hself⟩

theorem run_getFileMd5 {data : Bytes} (h : d.lookup name = some data) :
    (AbstractFileSystemDriver.getFileMd5 getMD5String name).run printing d =
      (getMD5String data, d) := by
  simp [AbstractFileSystemDriver.getFileMd5, printing, Disk.answer, h]

theorem run_storeMd5 (h : Printable md5) :
    (storeMd5 md5 filename).run printing d = (true, d.insert (mainMd5FileName filename) md5) := by
  simp [storeMd5, printing, Disk.answer, (writes_of_printable h).2]

theorem retry_plain {attempt : DriverProgram Bool} {t : Disk} (hp : AllPlain resolves attempt d)
    (ha : attempt.run printing d = (true, t)) (n : ℕ) :
    AllPlain resolves (retry attempt (n + 1)) d := by
  unfold retry
  rw [AllPlain, always_bind, ha]
  exact ⟨hp, trivial⟩

theorem run_md5SaveTry (hmd5 : ∀ c, Printable (getMD5String c)) :
    (md5SaveTry getMD5String content filename append).run printing d =
      (true, certified getMD5String filename
        (updated append (expanded content) (mainFileName filename) d) d) := by
  simp only [md5SaveTry, run_bind, run_updateFile, Bool.true_eq_false, if_false,
    run_getFileMd5 (AList.lookup_insert d), run_storeMd5 (hmd5 _), certified]

theorem md5SaveTry_plain (hmd5 : ∀ c, Printable (getMD5String c)) (hw : Writes content)
    (ha : ∀ name ∈ physicalNames .modeUseMd5 filename, Accessible resolves name) :
    AllPlain resolves (md5SaveTry getMD5String content filename append) d := by
  have hdata := ha (mainFileName filename) (by simp [physicalNames])
  have hdigest := ha (mainMd5FileName filename) (by simp [physicalNames])
  unfold md5SaveTry
  rw [AllPlain, always_bind, run_updateFile]
  refine ⟨updateFile_plain hw hdata, ?_⟩
  simp only [Bool.true_eq_false, if_false]
  rw [always_bind, run_getFileMd5 (AList.lookup_insert d)]
  exact ⟨(getFileMd5_calls hdata hdata).always,
    (storeMd5_calls ⟨(writes_of_printable (hmd5 _)).1, hdigest⟩ hdigest).always⟩

def expandedOp : FileOp → FileOp
  | .save content filename => .save (expanded content) filename
  | .append content filename => .append (expanded content) filename
  | op => op

def contentOf : FileOp → Option Bytes
  | .save content _ => some content
  | .append content _ => some content
  | _ => none

def Reachable (resolves : Bytes → Bool) (mode : SafeFileSaverMode) (op : FileOp) : Prop :=
  ∀ name ∈ physicalNames mode (target op), Accessible resolves name

/-- An operation whose files resolve and whose content, if any, a print writes. -/
def Fits (resolves : Bytes → Bool) (mode : SafeFileSaverMode) (op : FileOp) : Prop :=
  Reachable resolves mode op ∧ ∀ content ∈ contentOf op, Writes content

theorem saveInMode_plain (filename : Bytes) (append : Bool) (d : Disk)
    (hmd5 : ∀ c, Printable (getMD5String c))
    (hmode : mode = .modeNormal ∨ mode = .modeUseMd5) (hw : Writes content)
    (ha : ∀ name ∈ physicalNames mode filename, Accessible resolves name) :
    AllPlain resolves (saveInMode getMD5String mode content filename append) d ∧
      (saveInMode getMD5String mode content filename append).run printing d =
        (saveInMode getMD5String mode (expanded content) filename append).run Disk.answer d := by
  rcases hmode with rfl | rfl
  · have hname := ha filename (by simp [physicalNames])
    refine ⟨retry_plain (updateFile_plain hw hname) run_updateFile 2, ?_⟩
    exact (run_retry_of_success run_updateFile 2).trans run_saveInNormalMode.symm
  · refine ⟨retry_plain (md5SaveTry_plain hmd5 hw ha) (run_md5SaveTry hmd5) 2, ?_⟩
    exact (run_retry_of_success (run_md5SaveTry hmd5) 2).trans run_saveInMd5Mode.symm

def Carries : DriverCall → Prop
  | .writeContentToFile _ _ => False
  | .appendContentToFile _ _ => False
  | _ => True

theorem run_printing {α : Type} {p : DriverProgram α} (hp : Calls Carries p) :
    p.run printing d = p.run Disk.answer d := by
  obtain ⟨hans, hdisk⟩ := run_related (R := Eq) (g := printing) (h := Disk.answer)
    (fun c s t hc hs => by
      subst hs
      cases c with
      | writeContentToFile content filename => exact hc.elim
      | appendContentToFile content filename => exact hc.elim
      | _ => exact ⟨rfl, rfl⟩)
    (hp.always (s := d)) rfl
  exact Prod.ext hans hdisk

theorem operation_plain (hmd5 : ∀ c, Printable (getMD5String c))
    (hmode : mode = .modeNormal ∨ mode = .modeUseMd5) {op : FileOp} (h : Fits resolves mode op) :
    AllPlain resolves (operation getMD5String mode op) d ∧
      (operation getMD5String mode op).run printing d =
        manipulatorStep getMD5String mode (expandedOp op) d := by
  rw [← operation_run]
  obtain ⟨ha, hw⟩ := h
  cases op with
  | save content filename =>
    obtain ⟨hplain, hrun⟩ := saveInMode_plain filename false d hmd5 hmode (hw content rfl) ha
    refine ⟨always_bind.mpr ⟨hplain, trivial⟩, ?_⟩
    simp only [operation, saveContentToFile, run_bind, hrun, expandedOp]
    rfl
  | append content filename =>
    obtain ⟨hplain, hrun⟩ := saveInMode_plain filename true d hmd5 hmode (hw content rfl) ha
    refine ⟨always_bind.mpr ⟨hplain, trivial⟩, ?_⟩
    simp only [operation, appendContentToFile, run_bind, hrun, expandedOp]
    rfl
  | delete filename =>
    have hcalls : Calls (Plain resolves) (deleteFile mode filename) :=
      deleteFile_calls fun name hname => ha name hname
    exact ⟨always_bind.mpr ⟨hcalls.always, trivial⟩,
      run_printing ((deleteFile_calls fun _ _ => trivial).bind fun _ => trivial)⟩
  | load filename =>
    have hcalls : Calls (Plain resolves) (loadContentFromFile getMD5String mode filename) :=
      loadContentFromFile_calls (fun name hname => ha name hname) fun name hname => ha name hname
    exact ⟨always_bind.mpr ⟨hcalls.always, trivial⟩,
      run_printing ((loadContentFromFile_calls (fun _ _ => trivial) fun _ _ => trivial).bind
        fun _ => trivial)⟩
  | doesExist filename =>
    have hcalls : Calls (Plain resolves) (doesFileExist mode filename) :=
      doesFileExist_calls fun name hname => ha name hname
    exact ⟨always_bind.mpr ⟨hcalls.always, trivial⟩,
      run_printing ((doesFileExist_calls fun _ _ => trivial).bind fun _ => trivial)⟩

end Operations

def stack (getMD5String : Bytes → Bytes) (mode : SafeFileSaverMode) (resolves : Bytes → Bool) :
    Machine FileOp Answer :=
  ⟨Vfs, mounted ∅, fun op =>
    (lowered SPIFFS_IDFDriver.methods (operation getMD5String mode op)).run (libc resolves)⟩

def Represents (getMD5String : Bytes → Bytes) (mode : SafeFileSaverMode) (v : Vfs)
    (m : Bytes → Option Bytes) : Prop :=
  ∃ d, Holds v d ∧ match mode with
    | .modeNormal => RepresentsNormal d m
    | .modeUseMd5 => RepresentsMd5 getMD5String d m
    | _ => False

section Stack

variable {getMD5String : Bytes → Bytes} {mode : SafeFileSaverMode} {m : Bytes → Option Bytes}

theorem stack_step (hmd5 : ∀ c, Printable (getMD5String c)) {op : FileOp}
    (hop : Fits resolves mode op) (h : Represents getMD5String mode v m) :
    ((stack getMD5String mode resolves).step op v).1 = (mapStep (expandedOp op) m).1 ∧
      Represents getMD5String mode ((stack getMD5String mode resolves).step op v).2
        (mapStep (expandedOp op) m).2 := by
  obtain ⟨d, hd, hm⟩ := h
  have hmode : mode = .modeNormal ∨ mode = .modeUseMd5 := by
    cases mode with
    | modeNormal => exact Or.inl rfl
    | modeUseMd5 => exact Or.inr rfl
    | _ => exact hm.elim
  obtain ⟨hplain, hrun⟩ := operation_plain (d := d) hmd5 hmode hop
  obtain ⟨hans, hholds⟩ := run_related (g := spiffs resolves) (R := Holds)
    (fun c s t hc hs => spiffs_answers hc hs) hplain hd
  rw [hrun] at hans hholds
  have hover : (stack getMD5String mode resolves).step op v =
      (operation getMD5String mode op).run (spiffs resolves) v := run_lowered _ _
  rw [hover, hans]
  rcases hmode with rfl | rfl
  · obtain ⟨hmap, hrep⟩ := @RepresentsNormal.step getMD5String d m hm (expandedOp op)
    exact ⟨hmap, _, hholds, hrep⟩
  · obtain ⟨hmap, hrep⟩ := RepresentsMd5.step hm (expandedOp op)
    exact ⟨hmap, _, hholds, hrep⟩

theorem stack_answers (hmd5 : ∀ c, Printable (getMD5String c))
    (hmode : mode = .modeNormal ∨ mode = .modeUseMd5) {ops : List FileOp}
    (hops : ∀ op ∈ ops, Fits resolves mode op) :
    (stack getMD5String mode resolves).observe ops = contentMap.observe (ops.map expandedOp) ∧
      ∃ m, Represents getMD5String mode ((stack getMD5String mode resolves).after ops) m := by
  have hstart : Represents getMD5String mode (mounted ∅) fun _ => none := by
    have hholds : Holds (mounted ∅) ∅ :=
      ⟨rfl, fun _ => rfl, rfl, fun name data h => by simp at h⟩
    rcases hmode with rfl | rfl
    · exact ⟨∅, hholds, fun _ => rfl⟩
    · exact ⟨∅, hholds, fun _ => ⟨rfl, rfl⟩⟩
  exact answers_translated (c := stack getMD5String mode resolves)
    (a := contentMap) (R := Represents getMD5String mode)
    (fun op v m hop h => stack_step hmd5 hop h) hops hstart

/-- Operations that fit are answered as the map answers them with what a print makes of their
contents. They leave no stream open, and nothing that they do is undefined. -/
theorem stack_stores_expansions (getMD5String : Bytes → Bytes)
    (hmd5 : ∀ c, Printable (getMD5String c)) (mode : SafeFileSaverMode)
    (hmode : mode = .modeNormal ∨ mode = .modeUseMd5) (resolves : Bytes → Bool)
    (ops : List FileOp) (hops : ∀ op ∈ ops, Fits resolves mode op) :
    (stack getMD5String mode resolves).observe ops = contentMap.observe (ops.map expandedOp) ∧
      (∀ i, ((stack getMD5String mode resolves).after ops).streams i = none) ∧
      ((stack getMD5String mode resolves).after ops).isUndefined = false := by
  obtain ⟨hans, m, d, hend, -⟩ := stack_answers hmd5 hmode hops
  exact ⟨hans, hend.closed, hend.defined⟩

theorem sampleMd5_printable (c : Bytes) : Printable (sampleMd5 c) := by
  unfold sampleMd5 Printable
  split_ifs <;> decide

/-- A doubled percent sign is stored as one, and counts as one where more is appended. -/
theorem stack_stores_expansions_sample :
    (stack sampleMd5 .modeUseMd5 fun _ => true).observe
        [.save (ascii "5%%") (ascii "f"), .append (ascii "a") (ascii "f"), .load (ascii "f")] =
      [.result true, .result true, .loaded (true, ascii "5%a")] := by
  have hfits : ∀ op ∈ [FileOp.save (ascii "5%%") (ascii "f"), .append (ascii "a") (ascii "f"),
      .load (ascii "f")], Fits (fun _ => true) .modeUseMd5 op := by
    unfold Fits Reachable Accessible Writes
    decide
  exact (stack_stores_expansions sampleMd5 sampleMd5_printable .modeUseMd5 (Or.inr rfl)
    (fun _ => true) _ hfits).1.trans (by decide)

theorem expanded_eq_iff (h : Writes content) : expanded content = content ↔ Printable content := by
  constructor
  · intro heq
    have hself : cStr ([] ++ expanded content) = [] ++ content := by
      rw [List.nil_append, List.nil_append, cStr_eq_self.mpr h.noNul, heq]
    obtain ⟨-, hz, hpercent, -⟩ := out_eq_content h.1 hself
    exact ⟨heq ▸ h.2, hz, hpercent⟩
  · intro hp
    exact (writes_of_printable hp).2

theorem spiffs_write_fails (hw : ¬ Writes content) (ha : Accessible resolves filename) :
    (spiffs resolves (.writeContentToFile content filename) v).1 = false := by
  have hr : resolves (cStr filename) = true := by rw [cStr_eq_self.mpr ha.1, ha.2]
  simp only [spiffs, SPIFFS_IDFDriver.methods, run_spiffsWrite hr, printed]
  cases hp : printfExpand (cStr content) with
  | none => rfl
  | some out =>
    have hnil : out = [] := by
      by_contra hne
      exact hw ⟨by rw [expanded, hp, Option.getD_some], by rwa [expanded, hp, Option.getD_some]⟩
    simp [hnil]

theorem save_fails (hmode : mode = .modeNormal ∨ mode = .modeUseMd5) (hw : ¬ Writes content)
    (ha : ∀ name ∈ physicalNames mode filename, Accessible resolves name) :
    ((saveContentToFile getMD5String mode content filename).run (spiffs resolves) v).1 = false := by
  rcases hmode with rfl | rfl
  · have hname := ha filename (by simp [physicalNames])
    have hfail : ∀ s : Vfs,
        ((updateFile false content filename).run (spiffs resolves) s).1 = false :=
      fun s => spiffs_write_fails hw hname
    exact run_retry_of_failure hfail 3 v
  · have hdata := ha (mainFileName filename) (by simp [physicalNames])
    refine run_retry_of_failure (fun s => ?_) 3 v
    have hfail := spiffs_write_fails (v := s) hw hdata
    simp only [md5SaveTry, updateFile, Bool.false_eq_true, if_false, run_bind,
      run_writeContentToFile, hfail, if_true, pure_eq_ret, run_ret]

section SaveAndLoad

variable {f c : Bytes}

theorem saveAndLoad_ops {P : Bytes → Prop}
    (hf : ∀ name ∈ physicalNames mode f, Accessible resolves name) (hc : P c) :
    ∀ op ∈ [FileOp.save c f, .load f],
      Reachable resolves mode op ∧ ∀ content ∈ contentOf op, P content := by
  intro op hop
  rcases List.mem_cons.mp hop with rfl | hop
  · exact ⟨hf, fun content hcontent => Option.mem_some.mp hcontent ▸ hc⟩
  · obtain rfl := List.mem_singleton.mp hop
    exact ⟨hf, fun content hcontent => by cases hcontent⟩

theorem map_saveAndLoad :
    contentMap.observe [.save c f, .load f] = [.result true, .loaded (true, c)] := by
  simp [contentMap, Machine.observe, Machine.answers, mapStep]

theorem stack_save :
    (stack getMD5String mode resolves).observe [.save c f, .load f] =
      [.result ((saveContentToFile getMD5String mode c f).run (spiffs resolves) (mounted ∅)).1,
        ((stack getMD5String mode resolves).step (.load f)
          ((stack getMD5String mode resolves).step (.save c f) (mounted ∅)).2).1] := by
  have hover : ((stack getMD5String mode resolves).step (.save c f) (mounted ∅)).1 =
      ((operation getMD5String mode (.save c f)).run (spiffs resolves) (mounted ∅)).1 :=
    congrArg Prod.fst (run_lowered _ _)
  have hresult : ((operation getMD5String mode (.save c f)).run (spiffs resolves) (mounted ∅)).1 =
      .result ((saveContentToFile getMD5String mode c f).run (spiffs resolves) (mounted ∅)).1 := by
    simp only [operation, run_bind, pure_eq_ret, run_ret]
  simp only [Machine.observe, Machine.answers]
  rw [← hresult, ← hover]
  rfl

end SaveAndLoad

/-- The stack is the map of contents just when every content is one that prints copy. -/
theorem stack_is_map_iff (getMD5String : Bytes → Bytes) (hmd5 : ∀ c, Printable (getMD5String c))
    (mode : SafeFileSaverMode) (hmode : mode = .modeNormal ∨ mode = .modeUseMd5)
    (resolves : Bytes → Bool) (f : Bytes)
    (hf : ∀ name ∈ physicalNames mode f, Accessible resolves name) (contents : Set Bytes) :
    (∀ ops, (∀ op ∈ ops, Reachable resolves mode op ∧ ∀ c ∈ contentOf op, c ∈ contents) →
        (stack getMD5String mode resolves).observe ops = contentMap.observe ops) ↔
      ∀ c ∈ contents, Printable c := by
  constructor
  · intro h c hc
    have hobserved := h _ (saveAndLoad_ops hf hc)
    rw [map_saveAndLoad] at hobserved
    by_cases hw : Writes c
    · have hstored := (stack_answers hmd5 hmode (saveAndLoad_ops hf hw)).1
      have hloaded : contentMap.observe [.save (expanded c) f, .load f] =
          [.result true, .loaded (true, c)] := hstored.symm.trans hobserved
      rw [map_saveAndLoad] at hloaded
      simp only [List.cons.injEq, Answer.loaded.injEq, Prod.mk.injEq, true_and, and_true]
        at hloaded
      exact (expanded_eq_iff hw).mp hloaded
    · rw [stack_save, save_fails hmode hw hf] at hobserved
      simp at hobserved
  · intro h ops hops
    have hfits : ∀ op ∈ ops, Fits resolves mode op := fun op hop =>
      ⟨(hops op hop).1, fun c hc => (writes_of_printable (h c ((hops op hop).2 c hc))).1⟩
    have hsame : ∀ op ∈ ops, expandedOp op = op := by
      intro op hop
      have hcontent := fun c hc => (writes_of_printable (h c ((hops op hop).2 c hc))).2
      cases op with
      | save content filename => rw [expandedOp, hcontent content rfl]
      | append content filename => rw [expandedOp, hcontent content rfl]
      | _ => rfl
    rw [(stack_answers hmd5 hmode hfits).1,
      List.map_congr_left hsame, List.map_id']

theorem stack_is_map_iff_sample :
    ¬ ∀ ops, (∀ op ∈ ops, Reachable (fun _ => true) .modeNormal op ∧
        ∀ c ∈ contentOf op, c ∈ ({ascii "a", ascii "5%"} : Set Bytes)) →
      (stack sampleMd5 .modeNormal fun _ => true).observe ops = contentMap.observe ops := by
  have hf : ∀ name ∈ physicalNames .modeNormal (ascii "f"), Accessible (fun _ => true) name := by
    unfold Accessible
    decide
  rw [stack_is_map_iff sampleMd5 sampleMd5_printable .modeNormal (Or.inl rfl) (fun _ => true)
    (ascii "f") hf]
  intro h
  have hprintable := h (ascii "5%") (Or.inr rfl)
  exact absurd hprintable.2.2 (by decide)

end Stack

end IdfStack
