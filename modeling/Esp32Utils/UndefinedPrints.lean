import Esp32Utils.IdfStack
import Mathlib.Data.List.Induction

/-! # When the stack over SPIFFS_IDFDriver is undefined

The only undefined calls are prints of contents that end a conversion or hold one. Operations
with any names run into one as soon as a file of theirs can be opened. -/
namespace UndefinedPrints

open ByteStrings InteractionProgram InteractionDiscipline InteractionLayers ObservationalRefinement
open FileSystemDriver SafeFileManipulator ManipulatorMap FilesTouched Libc SpiffsIdfDriver
open SpiffsRoundTrip IdfStack

variable {resolves : Bytes → Bool} {v : Vfs} {getMD5String : Bytes → Bytes}
  {mode : SafeFileSaverMode} {content filename : Bytes}

def PrintDefined (content : Bytes) : Prop := (printfExpand (cStr content)).isSome = true

def undefines (resolves : Bytes → Bool) : DriverCall → Bool
  | .writeContentToFile content filename =>
    resolves (cStr filename) && (printfExpand (cStr content)).isNone
  | .appendContentToFile content filename =>
    resolves (cStr filename) && (printfExpand (cStr content)).isNone
  | _ => false

theorem printed_isUndefined {name data : Bytes} :
    (printed content name data v).2.isUndefined =
      (v.isUndefined || (printfExpand (cStr content)).isNone) := by
  unfold printed
  cases printfExpand (cStr content) <;> simp [afterStream, Vfs.undefined]

theorem spiffs_isUndefined (c : DriverCall) :
    (spiffs resolves c v).2.isUndefined = (v.isUndefined || undefines resolves c) := by
  cases c with
  | writeContentToFile content filename =>
    cases hr : resolves (cStr filename) with
    | true =>
      simp only [spiffs, SPIFFS_IDFDriver.methods, run_spiffsWrite hr, printed_isUndefined,
        undefines, hr, Bool.true_and]
    | false =>
      simp [spiffs, SPIFFS_IDFDriver.methods, SPIFFS_IDFDriver.writeContentToFile, libc, undefines,
        hr]
  | appendContentToFile content filename =>
    cases hr : resolves (cStr filename) with
    | true =>
      simp only [spiffs, SPIFFS_IDFDriver.methods, run_spiffsAppend hr, printed_isUndefined,
        undefines, hr, Bool.true_and]
    | false =>
      simp [spiffs, SPIFFS_IDFDriver.methods, SPIFFS_IDFDriver.appendContentToFile, libc,
        undefines, hr]
  | readEntireFileToString filename =>
    simp only [undefines, Bool.or_false]
    cases hr : resolves (cStr filename) with
    | false =>
      simp only [spiffs, SPIFFS_IDFDriver.methods, SPIFFS_IDFDriver.readEntireFileToString,
        run_bind, run_spiffsExists, hr, Bool.false_and, if_true, pure_eq_ret, run_ret]
    | true =>
      cases hdata : v.files.lookup (cStr filename) with
      | none =>
        simp only [spiffs, SPIFFS_IDFDriver.methods, SPIFFS_IDFDriver.readEntireFileToString,
          run_bind, run_spiffsExists, hdata, Option.isSome_none, Bool.and_false, if_true,
          pure_eq_ret, run_ret]
      | some data =>
        simp only [spiffs, SPIFFS_IDFDriver.methods, run_spiffsRead hr hdata, afterStream]
  | doesFileExist filename =>
    simp only [spiffs, SPIFFS_IDFDriver.methods, run_spiffsExists, undefines, Bool.or_false]
  | deleteFile filename =>
    simp only [undefines, Bool.or_false]
    cases hfound : resolves (cStr filename) && (v.files.lookup (cStr filename)).isSome with
    | false =>
      simp only [spiffs, SPIFFS_IDFDriver.methods, SPIFFS_IDFDriver.deleteFile, run_bind,
        run_spiffsExists, hfound, if_true, pure_eq_ret, run_ret]
    | true =>
      simp only [spiffs, SPIFFS_IDFDriver.methods, SPIFFS_IDFDriver.deleteFile, run_bind,
        run_spiffsExists, hfound, Bool.true_eq_false, if_false, run_unlink, libc, if_true,
        pure_eq_ret, run_ret]
  | filesList path =>
    simp only [spiffs, SPIFFS_IDFDriver.methods, run_spiffsFilesList, undefines, Bool.or_false]
  | countFiles path =>
    cases hr : resolves (cStr path) <;>
      simp [spiffs, SPIFFS_IDFDriver.methods, SPIFFS_IDFDriver.countFiles, libc, undefines, hr]

theorem run_isUndefined {α : Type} {p : DriverProgram α}
    (hp : Calls (fun c => undefines resolves c = false) p) :
    (p.run (spiffs resolves) v).2.isUndefined = v.isUndefined := by
  induction p generalizing v with
  | ret a => rfl
  | call c k ih =>
    have hcall := @spiffs_isUndefined resolves v c
    rw [hp.1, Bool.or_false] at hcall
    exact (ih _ (hp.2 _)).trans hcall

theorem run_undefined {α : Type} (p : DriverProgram α) (h : v.isUndefined = true) :
    (p.run (spiffs resolves) v).2.isUndefined = true := by
  induction p generalizing v with
  | ret a => exact h
  | call c k ih =>
    apply ih
    rw [spiffs_isUndefined, h, Bool.true_or]

theorem call_undefined {α : Type} {c : DriverCall}
    {k : IFileSystemDriver.Resp c → DriverProgram α}
    (h : (spiffs resolves c v).2.isUndefined = true) :
    ((Program.call c k : DriverProgram α).run (spiffs resolves) v).2.isUndefined = true :=
  run_undefined (k (spiffs resolves c v).1) h

section Operations

variable {append : Bool} {op : FileOp} {f c : Bytes}

theorem not_undefines (h : PrintDefined content) : (printfExpand (cStr content)).isNone = false :=
  Option.isNone_eq_false_iff.mpr h

theorem updateFile_defined (hc : PrintDefined content) :
    Calls (fun c => undefines resolves c = false) (updateFile append content filename) := by
  apply updateFile_calls <;> simp only [undefines, not_undefines hc, Bool.and_false]

theorem storeMd5_defined {md5 : Bytes} (hmd5 : PrintDefined md5) :
    Calls (fun c => undefines resolves c = false) (storeMd5 md5 filename) := by
  apply storeMd5_calls
  · simp only [undefines, not_undefines hmd5, Bool.and_false]
  · rfl

/-- The digest of a file that could not be read is empty, and its print is defined. -/
theorem md5SaveTry_defined (hmd5 : ∀ c, PrintDefined (getMD5String c))
    (hc : PrintDefined content) :
    Calls (fun c => undefines resolves c = false)
      (md5SaveTry getMD5String content filename append) := by
  refine (updateFile_defined hc).bind fun updated => ?_
  cases updated with
  | false => trivial
  | true =>
    refine ⟨rfl, fun found => ?_⟩
    cases found with
    | false => exact storeMd5_defined rfl
    | true =>
      refine ⟨rfl, fun r => ?_⟩
      cases r with
      | none => exact storeMd5_defined rfl
      | some fileContent => exact storeMd5_defined (hmd5 fileContent)

theorem saveInMode_defined (hmd5 : ∀ c, PrintDefined (getMD5String c))
    (hc : PrintDefined content) :
    Calls (fun c => undefines resolves c = false)
      (saveInMode getMD5String mode content filename append) := by
  cases mode with
  | modeNormal => exact (updateFile_defined hc).retry _
  | modeUseMd5 => exact (md5SaveTry_defined hmd5 hc).retry _
  | modeUseMd5AndBackup => trivial
  | modeInvalid => trivial

theorem operation_defined (hmd5 : ∀ c, PrintDefined (getMD5String c))
    (hop : ∀ c ∈ contentOf op, PrintDefined c) :
    Calls (fun c => undefines resolves c = false) (operation getMD5String mode op) := by
  cases op with
  | save content filename =>
    exact (saveInMode_defined hmd5 (hop content rfl)).bind fun _ => trivial
  | append content filename =>
    exact (saveInMode_defined hmd5 (hop content rfl)).bind fun _ => trivial
  | delete filename => exact (deleteFile_calls fun _ _ => rfl).bind fun _ => trivial
  | load filename =>
    exact (loadContentFromFile_calls (fun _ _ => rfl) fun _ _ => rfl).bind fun _ => trivial
  | doesExist filename => exact (doesFileExist_calls fun _ _ => rfl).bind fun _ => trivial

theorem save_undefined (hmode : mode = .modeNormal ∨ mode = .modeUseMd5)
    (hf : ∀ name ∈ physicalNames mode f, Accessible resolves name) (hc : ¬ PrintDefined c) :
    ((operation getMD5String mode (.save c f)).run (spiffs resolves) v).2.isUndefined = true := by
  have hnone : (printfExpand (cStr c)).isNone = true := by
    rw [PrintDefined, Bool.not_eq_true, Option.isSome_eq_false_iff] at hc
    exact hc
  have hfirst : ∀ name, Accessible resolves name →
      (spiffs resolves (.writeContentToFile c name) v).2.isUndefined = true := by
    intro name ha
    have hresolved : resolves (cStr name) = true := by rw [cStr_eq_self.mpr ha.1, ha.2]
    rw [spiffs_isUndefined, undefines, hresolved, hnone, Bool.and_self, Bool.or_true]
  rcases hmode with rfl | rfl
  · exact call_undefined (hfirst f (hf f (by simp [physicalNames])))
  · exact call_undefined (hfirst (mainFileName f) (hf _ (by simp [physicalNames])))

theorem after_isUndefined (hmd5 : ∀ c, PrintDefined (getMD5String c)) {ops : List FileOp}
    (hops : ∀ op ∈ ops, ∀ c ∈ contentOf op, PrintDefined c) :
    ((stack getMD5String mode resolves).after ops).isUndefined = false := by
  induction ops using List.reverseRec with
  | nil => rfl
  | append_singleton ops op ih =>
    have hlast := hops op (List.mem_append_right ops (List.mem_singleton_self op))
    have hbefore := ih fun op hop => hops op (List.mem_append_left _ hop)
    have hcalls : Calls (fun c => undefines resolves c = false)
        (operation getMD5String mode op) := operation_defined hmd5 hlast
    have hstep := run_isUndefined (v := (stack getMD5String mode resolves).after ops) hcalls
    rw [Machine.after, List.foldl_append]
    refine Eq.trans ?_ (hstep.trans hbefore)
    exact congrArg Vfs.isUndefined (congrArg Prod.snd (run_lowered _ _))

/-- No history of operations, on whatever names, does anything undefined just when every
content that it may store is a defined format. -/
theorem never_undefined_iff (getMD5String : Bytes → Bytes)
    (hmd5 : ∀ c, PrintDefined (getMD5String c)) (mode : SafeFileSaverMode)
    (hmode : mode = .modeNormal ∨ mode = .modeUseMd5) (resolves : Bytes → Bool) (f : Bytes)
    (hf : ∀ name ∈ physicalNames mode f, Accessible resolves name) (contents : Set Bytes) :
    (∀ ops, (∀ op ∈ ops, ∀ c ∈ contentOf op, c ∈ contents) →
        ((stack getMD5String mode resolves).after ops).isUndefined = false) ↔
      ∀ c ∈ contents, PrintDefined c := by
  constructor
  · intro h c hc
    by_contra hundefined
    have hsafe := h [.save c f] (by
      intro op hop content hcontent
      obtain rfl := List.mem_singleton.mp hop
      exact Option.mem_some.mp hcontent ▸ hc)
    have hsave := @save_undefined resolves (mounted ∅) getMD5String mode f c hmode hf hundefined
    have hover : ((stack getMD5String mode resolves).after [.save c f]).isUndefined = true :=
      (congrArg Vfs.isUndefined (congrArg Prod.snd (run_lowered _ _))).trans hsave
    rw [hover] at hsafe
    cases hsafe
  · intro h ops hops
    exact after_isUndefined hmd5 fun op hop c hc => h c (hops op hop c hc)

theorem never_undefined_iff_sample :
    ¬ ∀ ops, (∀ op ∈ ops, ∀ c ∈ contentOf op, c ∈ ({ascii "a", ascii "5%"} : Set Bytes)) →
      ((stack sampleMd5 .modeUseMd5 fun _ => true).after ops).isUndefined = false := by
  have hmd5 : ∀ c, PrintDefined (sampleMd5 c) := fun c => by
    rw [PrintDefined, (sampleMd5_printable c).expand, Option.isSome_some]
  have hf : ∀ name ∈ physicalNames .modeUseMd5 (ascii "f"), Accessible (fun _ => true) name := by
    unfold Accessible
    decide
  rw [never_undefined_iff sampleMd5 hmd5 .modeUseMd5 (Or.inr rfl) (fun _ => true) (ascii "f") hf]
  intro h
  exact absurd (h (ascii "5%") (Or.inr rfl)) (by unfold PrintDefined; decide)

end Operations

end UndefinedPrints
