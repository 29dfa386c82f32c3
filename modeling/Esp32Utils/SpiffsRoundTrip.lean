import Esp32Utils.SpiffsIdfDriver

/-! # Which contents survive SPIFFS_IDFDriver

The content is written as the format of a formatted print and read back as a C string.
On a healthy file system this agrees for contents that are not empty and hold neither a
percent sign nor a NUL, appended to files that hold no NUL. -/
namespace SpiffsRoundTrip

open ByteStrings InteractionProgram FileSystemDriver Libc SpiffsIdfDriver

variable {content filename data : Bytes} {v : Vfs} {files : Disk}

abbrev healthy : Handler LibcInterface Vfs := libc fun _ => true

/-- Contents that a print and a C string both leave alone, and that a print counts. -/
def Printable (content : Bytes) : Prop := content ≠ [] ∧ 0 ∉ content ∧ percent ∉ content

theorem Printable.expand (h : Printable content) :
    printfExpand (cStr content) = some content := by
  rw [cStr_eq_self.mpr h.2.1]
  exact printfExpand_eq_self h.2.2

/-- A print to a file that holds `data` reports success and reads back as `data` and the
content, with nothing undefined on the way. -/
def ReadsBack (content filename data : Bytes) (w : Bool × Vfs) : Prop :=
  let r := (SPIFFS_IDFDriver.readEntireFileToString filename).run healthy w.2
  w.1 = true ∧ r.1 = some (data ++ content) ∧ r.2.isUndefined = false

theorem out_eq_content {out : Bytes} (hp : printfExpand (cStr content) = some out)
    (h : cStr (data ++ out) = data ++ content) : out = content ∧ 0 ∉ content ∧ percent ∉ content ∧
      0 ∉ data := by
  obtain ⟨hle, hlt⟩ := printfExpand_length hp
  have hc := cStr_length_le content
  have hlen : (data ++ content).length ≤ (data ++ out).length := by
    rw [← h]
    exact cStr_length_le _
  simp only [List.length_append] at hlen
  have hself : cStr content = content := cStr_eq_self_of_length (by omega)
  rw [hself] at hp hle hlt
  have hpercent : percent ∉ content := by
    intro hmem
    have := hlt hmem
    omega
  rw [printfExpand_eq_self hpercent, Option.some.injEq] at hp
  subst hp
  have hzero := cStr_eq_self.mp h
  simp only [List.mem_append, not_or] at hzero
  exact ⟨rfl, hzero.2, hpercent, hzero.1⟩

theorem printed_readsBack (hv : v.isUndefined = false) :
    ReadsBack content filename data (printed content (cStr filename) data v) ↔
      Printable content ∧ 0 ∉ data := by
  constructor
  · intro h
    obtain ⟨hok, hread, -⟩ := h
    cases hp : printfExpand (cStr content) with
    | none => simp [printed, hp] at hok
    | some out =>
      simp only [printed, hp, Bool.not_eq_true', List.isEmpty_eq_false_iff] at hok hread
      rw [run_spiffsRead rfl (AList.lookup_insert _)] at hread
      have hne : data ++ out ≠ [] := by simp [hok]
      simp only [if_neg hne, Option.some.injEq] at hread
      obtain ⟨rfl, hzero, hpercent, hdata⟩ := out_eq_content hp hread
      exact ⟨⟨hok, hzero, hpercent⟩, hdata⟩
  · intro h
    obtain ⟨hc, hdata⟩ := h
    have hne : data ++ content ≠ [] := by simp [hc.1]
    have hself : cStr (data ++ content) = data ++ content := by
      rw [cStr_eq_self, List.mem_append, not_or]
      exact ⟨hdata, hc.2.1⟩
    simp only [ReadsBack, printed, hc.expand]
    rw [run_spiffsRead rfl (AList.lookup_insert _), if_neg hne, hself]
    exact ⟨by simp [hc.1], rfl, hv⟩

/-- Writing and appending both read back exactly for printable contents, where the file
that is there already holds no NUL. -/
theorem round_trip_iff (files : Disk) (content filename : Bytes) :
    (ReadsBack content filename [] ((SPIFFS_IDFDriver.writeContentToFile content filename).run
        healthy (mounted files)) ∧
      ∀ old, files.lookup (cStr filename) = some old → ReadsBack content filename old
        ((SPIFFS_IDFDriver.appendContentToFile content filename).run healthy (mounted files))) ↔
    Printable content ∧ ∀ old, files.lookup (cStr filename) = some old → 0 ∉ old := by
  rw [run_spiffsWrite rfl, run_spiffsAppend rfl, printed_readsBack rfl]
  constructor
  · intro h
    refine ⟨h.1.1, fun old hold => ?_⟩
    have ha := h.2 old hold
    simp only [mounted, hold, Option.getD_some] at ha
    exact ((printed_readsBack rfl).mp ha).2
  · intro h
    refine ⟨⟨h.1, List.not_mem_nil⟩, fun old hold => ?_⟩
    simp only [mounted, hold, Option.getD_some]
    exact (printed_readsBack rfl).mpr ⟨h.1, h.2 old hold⟩

/-- A doubled percent sign comes back single, an empty content is reported as a failure,
a NUL ends the content, and a single conversion is undefined. -/
theorem contents_not_read_back :
    let after := fun content => (SPIFFS_IDFDriver.writeContentToFile content (ascii "f")).run
      healthy (mounted ∅)
    let read := fun content =>
      ((SPIFFS_IDFDriver.readEntireFileToString (ascii "f")).run healthy (after content).2).1
    (after (ascii "%%")).1 = true ∧ read (ascii "%%") = some (ascii "%") ∧
      (after []).1 = false ∧
      (after (ascii "a" ++ [0] ++ ascii "b")).1 = true ∧
      read (ascii "a" ++ [0] ++ ascii "b") = some (ascii "a") ∧
      (after (ascii "%s")).2.isUndefined = true := by
  decide

end SpiffsRoundTrip
