import Esp32Utils.AppendHistories
import Esp32Utils.CrashConsistency
import Esp32Utils.HonestDriver

/-! # No wrong content is loaded through SPIFFSDriver

Runs of the manipulator over the driver over a flash. Power may go inside any call on the flash;
then what is buffered is lost and the driver is built anew, which may format. What an operation
leaves here it may leave over the fallible driver. -/
namespace StackRuns

open ByteStrings InteractionProgram InteractionCrash InteractionDiscipline InteractionLayers
open FileSystemDriver SafeFileManipulator FallibleDriver FilesTouched ArduinoSpiffs SpiffsDriver
open HonestDriver
open AppendHistories (Mutation)
open CrashConsistency (Certified Current)

abbrev onDriver {α : Type} (p : DriverProgram α) : SpiffsProgram α := lowered SPIFFSDriver.methods p

/-- What happens to the files, or to the bytes of a data file without a call. -/
inductive Event where
  | did (e : AppendHistories.Event)
  | corrupted (filename bytes : Bytes)
  deriving DecidableEq

/-- The flash after an execution. What was in memory is gone when power is lost. -/
def powered {α : Type} (r : Option α) (s : Flash) : Flash :=
  if r.isSome then s else mounted s.files

def booted (before after : Disk) : List Event := if after = before then [] else [.did .formatted]

/-- Runs from an empty flash. An execution that was cut off has no result. -/
inductive Run (getMD5String : Bytes → Bytes) (g : Guarantees)
    (listing : Disk → Bytes → List Bytes) : List Event → Flash → Prop where
  | start : Run getMD5String g listing [] (mounted ∅)
  | called {h s t m r} : Run getMD5String g listing h s → Proper m.filename →
      Ends (flash g listing) (onDriver (m.program getMD5String)) s r t →
      Run getMD5String g listing (h ++ [.did (.called m r)]) (powered r t)
  | load {h s t f r} : Run getMD5String g listing h s → Proper f →
      Ends (flash g listing) (onDriver (loadContentFromFile getMD5String .modeUseMd5 f)) s r t →
      Run getMD5String g listing h (powered r t)
  | corrupt {h s f bytes} : Run getMD5String g listing h s →
      Run getMD5String g listing (h ++ [.corrupted f bytes])
        { s with files := s.files.insert (mainFileName f) bytes }
  | boot {h s t r} : Run getMD5String g listing h s →
      Ends (flash g listing) SPIFFSDriver.initializeDriver (mounted s.files) r t →
      Run getMD5String g listing (h ++ booted s.files t.files) (powered r t)

variable {getMD5String : Bytes → Bytes} {g : Guarantees} {listing : Disk → Bytes → List Bytes}
  {h : List Event} {s t : Flash} {f c : Bytes}

@[simp] theorem powered_files {α : Type} (r : Option α) : (powered r s).files = s.files := by
  cases r <;> rfl

/-- Building the driver keeps the files or, when it formats, loses them all. -/
theorem boot_safe :
    CrashSafe (flash g listing) (fun _ t => t.files = s.files ∨ t.files = ∅)
      (fun t => t.files = s.files ∨ t.files = ∅) SPIFFSDriver.initializeDriver s := by
  refine ⟨Or.inl rfl, fun o => ?_⟩
  cases hw : (flash g listing .begin o s).1 with
  | true => exact ⟨Or.inl rfl, Or.inl rfl⟩
  | false =>
    refine ⟨Or.inl rfl, fun o' => ?_⟩
    have hformat : (flash g listing .format o' s).2.files = s.files ∨
        (flash g listing .format o' s).2.files = ∅ := by
      cases hf : o'.works with
      | true => exact Or.inr (by simp only [flash, hf, if_true])
      | false => exact Or.inl (by simp only [flash, hf, Bool.false_eq_true, if_false])
    exact ⟨hformat, fun _ => ⟨hformat, hformat⟩⟩

section Steps

variable {α : Type} {p : DriverProgram α} {r : Option α} {m : Mutation}

/-- Where the platform keeps its promises, executions of the stack are some of the fallible
driver. -/
theorem ends_onDriver (hp : Calls Named p)
    (he : Ends (flash ⟨true, true, true⟩ listing) (onDriver p) s r t) :
    Ends fallible p s.files r t.files := by
  obtain ⟨d, hd, rfl⟩ := (driver_refines rfl rfl rfl).ends hp rfl he
  exact hd

theorem called_onDriver {r : Option Bool} (hm : Proper m.filename)
    (he : Ends (flash ⟨true, true, true⟩ listing) (onDriver (m.program getMD5String)) s r t) :
    Ends fallible (m.program getMD5String) s.files r t.files :=
  ends_onDriver (Mutation.calls fun _ hname => hm.physical hname) he

theorem load_onDriver {r : Option (Bool × Bytes)} (hf : Proper f)
    (he : Ends (flash ⟨true, true, true⟩ listing)
      (onDriver (loadContentFromFile getMD5String .modeUseMd5 f)) s r t) :
    Ends fallible (loadContentFromFile getMD5String .modeUseMd5 f) s.files r t.files :=
  ends_onDriver (loadContentFromFile_calls (fun _ hname => hf.physical hname)
    fun _ hname => hf.physical hname) he

theorem load_keeps {r : Option (Bool × Bytes)} (hf : Proper f)
    (he : Ends (flash ⟨true, true, true⟩ listing)
      (onDriver (loadContentFromFile getMD5String .modeUseMd5 f)) s r t) : t.files = s.files :=
  ((reads_keep (loadContentFromFile_calls (fun _ _ => trivial) fun _ _ => trivial) _).ends
    (load_onDriver hf he)).1

end Steps

section Saves

/-- The event as a history of saves and deletions has it. A file system that was formatted is
one whose digests are all gone. -/
def saved : Event → Option CrashConsistency.Event
  | .did (.called (.save c f) r) => some (.save f c r)
  | .did (.called (.delete f) r) => some (.delete f r)
  | .did (.called (.append _ _) _) => none
  | .did .formatted => none
  | .corrupted f bytes => some (.corrupt f bytes)

theorem saved_eq_save {e : Event} {r : Option Bool} (h : saved e = some (.save f c r)) :
    e = .did (.called (.save c f) r) := by
  rcases e with (⟨_ | _ | _, _⟩ | _) | _ <;> simp_all [saved]

theorem certified_boot {L : ℕ} {h : List CrashConsistency.Event} {d d' : Disk}
    (hd : Certified getMD5String L h d) (hfiles : d' = d ∨ d' = ∅) :
    Certified getMD5String L h d' := by
  rcases hfiles with rfl | rfl
  · exact hd
  · intro f x hx
    simp at hx

theorem run_certified {L : ℕ} (hL : ∀ c, (getMD5String c).length = L)
    (hr : Run getMD5String ⟨true, true, true⟩ listing h s)
    (hh : ∀ c f r, .did (.called (.append c f) r) ∉ h) :
    Certified getMD5String L (h.filterMap saved) s.files := by
  induction hr with
  | start =>
    intro f x hx
    simp [mounted] at hx
  | @called h s t m r _ hm he ih =>
    have hbefore := ih fun c f r hmem => hh c f r (List.mem_append_left _ hmem)
    have hends := called_onDriver hm he
    rw [List.filterMap_append, powered_files]
    cases m with
    | save c f => exact CrashConsistency.step_certified hL hbefore (.save hends)
    | append c f => exact absurd (List.mem_append_right h List.mem_cons_self) (hh c f r)
    | delete f => exact CrashConsistency.step_certified hL hbefore (.delete hends)
  | load _ hf he ih =>
    rw [powered_files, load_keeps hf he]
    exact ih hh
  | corrupt _ ih =>
    have hbefore := ih fun c f r hmem => hh c f r (List.mem_append_left _ hmem)
    rw [List.filterMap_append]
    exact CrashConsistency.step_certified hL hbefore (.corrupt _ _ _)
  | @boot h s t r _ he ih =>
    have hbefore := ih fun c f r hmem => hh c f r (List.mem_append_left _ hmem)
    have hnothing : (booted s.files t.files).filterMap saved = [] := by
      unfold booted
      split <;> rfl
    rw [powered_files, List.filterMap_append, hnothing, List.append_nil]
    exact certified_boot hbefore (boot_safe.ends he).1

end Saves

/-- In every run of saves and deletions of proper names, what loads is the content of a save of
that name no earlier than its last successful save or deletion. -/
def NeverWrong (g : Guarantees) : Prop :=
  ∀ (getMD5String : Bytes → Bytes) (L : ℕ), (∀ c, (getMD5String c).length = L) →
    ∀ listing h s, Run getMD5String g listing h s →
      (∀ c f r, .did (.called (.append c f) r) ∉ h) → ∀ f c t, Proper f →
      Set.InjOn getMD5String {x | x = c ∨ ∃ name r, .did (.called (.save x name) r) ∈ h} →
      May (flash g listing) (onDriver (loadContentFromFile getMD5String .modeUseMd5 f)) s
        (true, c) t →
      Current (h.filterMap saved) f c

theorem never_wrong : NeverWrong ⟨true, true, true⟩ := by
  intro getMD5String L hL listing h s hr hh f c t hf hinj hload
  have hends := load_onDriver (r := some (true, c)) hf hload
  obtain ⟨-, hm⟩ := SaveSteps.may_load hends
  rcases run_certified hL hr hh f _ hm with hlt | ⟨c', heq, hc⟩
  · rw [hL] at hlt
    exact absurd hlt (lt_irrefl L)
  · obtain ⟨i, r, hi, -⟩ := id hc
    obtain ⟨e, he, hsaved⟩ := List.mem_filterMap.mp (List.mem_of_getElem? hi)
    rw [saved_eq_save hsaved] at he
    have hcc : c = c' := hinj (Or.inl rfl) (Or.inr ⟨f, r, he⟩) heq
    rwa [hcc]

section Failures

def works : Stream' Outcome := Stream'.const ⟨true, 0, 0⟩

def failsAt (n : ℕ) : Stream' Outcome :=
  (List.replicate n ⟨true, 0, 0⟩ ++ [⟨false, 0, 0⟩]) ++ₛ works

def misses : Stream' Outcome := Stream'.const ⟨false, 0, 0⟩

def nothingListed : Disk → Bytes → List Bytes := fun _ _ => []

def savedOnce : List AppendHistories.Event :=
  [.called (.save (ascii "a") (ascii "/f")) (some true)]

def savedAndDeleted : List AppendHistories.Event :=
  [.called (.save (ascii "a") (ascii "/f")) (some true), .called (.delete (ascii "/f")) (some true)]

theorem may_script {α : Type} {p : SpiffsProgram α} {a : α} (script : Stream' Outcome)
    (h : (p.runScript (flash g listing) script s).1 = a) :
    May (flash g listing) p s a (p.runScript (flash g listing) script s).2 :=
  may_iff_runScript.mpr ⟨script, Prod.ext h rfl⟩

/-- A run after which a content loads that it should not: a save reports success after the data
it wrote was lost or was taken for nothing, or a deletion that did not find the file. -/
def WrongLoad (g : Guarantees) (h : List AppendHistories.Event) (c : Bytes) : Prop :=
  ∃ s t, Run sampleMd5 g nothingListed (h.map .did) s ∧
    May (flash g nothingListed)
      (onDriver (loadContentFromFile sampleMd5 .modeUseMd5 (ascii "/f"))) s (true, c) t

theorem wrong_saved {c : Bytes} (saving loading : Stream' Outcome)
    (hsave : ((onDriver (saveContentToFile sampleMd5 .modeUseMd5 (ascii "a")
      (ascii "/f"))).runScript (flash g nothingListed) saving (mounted ∅)).1 = true)
    (hload : ((onDriver (loadContentFromFile sampleMd5 .modeUseMd5 (ascii "/f"))).runScript
      (flash g nothingListed) loading ((onDriver (saveContentToFile sampleMd5 .modeUseMd5
        (ascii "a") (ascii "/f"))).runScript (flash g nothingListed) saving (mounted ∅)).2).1 =
      (true, c)) : WrongLoad g savedOnce c :=
  ⟨_, _, .called (m := .save (ascii "a") (ascii "/f")) (r := some true) .start proper_f
    (may_script saving hsave), may_script loading hload⟩

theorem wrong_of_close (existsFinds sizeRight : Bool) :
    WrongLoad ⟨false, existsFinds, sizeRight⟩ savedOnce [] :=
  wrong_saved (failsAt 2) works (by cases existsFinds <;> cases sizeRight <;> decide)
    (by cases existsFinds <;> cases sizeRight <;> decide)

theorem wrong_of_size (closeFlushes existsFinds : Bool) :
    WrongLoad ⟨closeFlushes, existsFinds, false⟩ savedOnce [] :=
  wrong_saved (failsAt 6) (failsAt 9) (by cases closeFlushes <;> cases existsFinds <;> decide)
    (by cases closeFlushes <;> cases existsFinds <;> decide)

theorem wrong_of_exists (closeFlushes sizeRight : Bool) :
    WrongLoad ⟨closeFlushes, false, sizeRight⟩ savedAndDeleted (ascii "a") := by
  have hsave : Run sampleMd5 ⟨closeFlushes, false, sizeRight⟩ nothingListed
      ([] ++ [.did (.called (.save (ascii "a") (ascii "/f")) (some true))]) _ :=
    .called .start proper_f
      (may_script works (by cases closeFlushes <;> cases sizeRight <;> decide))
  have hdelete := Run.called (m := .delete (ascii "/f")) (r := some true) hsave proper_f
    (may_script misses (by cases closeFlushes <;> cases sizeRight <;> decide))
  exact ⟨_, _, hdelete, may_script works (by cases closeFlushes <;> cases sizeRight <;> decide)⟩

theorem wrong_load
    (hg : ¬ (g.closeFlushes = true ∧ g.existsFinds = true ∧ g.sizeRight = true)) :
    WrongLoad g savedOnce [] ∨ WrongLoad g savedAndDeleted (ascii "a") := by
  obtain ⟨_ | _, _ | _, _ | _⟩ := g
  all_goals first
    | exact Or.inl (wrong_of_close _ _)
    | exact Or.inr (wrong_of_exists _ _)
    | exact Or.inl (wrong_of_size _ _)
    | exact absurd ⟨rfl, rfl, rfl⟩ hg

theorem not_current_saved : ¬ Current ((savedOnce.map .did).filterMap saved) (ascii "/f") [] := by
  rintro ⟨i, r, hi, -⟩
  exact absurd (List.mem_of_getElem? hi) (by simp [savedOnce, saved, ascii])

theorem not_current_deleted :
    ¬ Current ((savedAndDeleted.map .did).filterMap saved) (ascii "/f") (ascii "a") := by
  rintro ⟨i, r, hi, hlast⟩
  have hle : 1 ≤ i := hlast 1 (.delete (ascii "/f") (some true)) rfl rfl
  have hlt := (List.getElem?_eq_some_iff.mp hi).1
  have hone : i = 1 := Nat.le_antisymm (Nat.le_of_lt_succ hlt) hle
  subst hone
  cases hi

theorem distinct_saved {l : List AppendHistories.Event} {c : Bytes} (hc : c = [] ∨ c = ascii "a")
    (hl : l = savedOnce ∨ l = savedAndDeleted) :
    Set.InjOn sampleMd5 {x | x = c ∨ ∃ name r,
      Event.did (.called (.save x name) r) ∈ l.map Event.did} := by
  have hmem : ∀ x, (x = c ∨ ∃ name r, Event.did (.called (.save x name) r) ∈ l.map Event.did) →
      x = [] ∨ x = ascii "a" := by
    rintro x (rfl | ⟨name, r, hx⟩)
    · exact hc
    · have hx : (x = ascii "a" ∧ name = ascii "/f") ∧ r = some true := by
        rcases hl with rfl | rfl
        · simpa [savedOnce] using hx
        · simpa [savedAndDeleted] using hx
      exact Or.inr hx.1.1
  intro x hx y hy heq
  rcases hmem x hx with rfl | rfl <;> rcases hmem y hy with rfl | rfl
  · rfl
  · exact absurd heq (by decide)
  · exact absurd heq (by decide)
  · rfl

end Failures

/-- No wrong content is loaded on any flash that keeps its promises, and two of them are not
enough. -/
theorem neverWrong_iff (g : Guarantees) :
    NeverWrong g ↔ g.closeFlushes = true ∧ g.existsFinds = true ∧ g.sizeRight = true := by
  constructor
  · intro h
    by_contra hg
    rcases wrong_load hg with ⟨s, t, hr, hload⟩ | ⟨s, t, hr, hload⟩
    · have hcurrent := h sampleMd5 32 sampleMd5_length _ _ _ hr (by simp [savedOnce]) _ _ _ proper_f
        (distinct_saved (Or.inl rfl) (Or.inl rfl)) hload
      exact not_current_saved hcurrent
    · have hcurrent := h sampleMd5 32 sampleMd5_length _ _ _ hr (by simp [savedAndDeleted]) _ _ _
        proper_f (distinct_saved (Or.inr rfl) (Or.inr rfl)) hload
      exact not_current_deleted hcurrent
  · intro hg
    obtain ⟨closeFlushes, existsFinds, sizeRight⟩ := g
    obtain ⟨rfl, rfl, rfl⟩ : closeFlushes = true ∧ existsFinds = true ∧ sizeRight = true := hg
    exact never_wrong

end StackRuns
