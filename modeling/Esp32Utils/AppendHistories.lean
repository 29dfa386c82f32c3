import Esp32Utils.FilesTouched
import Esp32Utils.SaveSteps
import Mathlib.Data.Set.Function

/-! # Histories with appends

Saves, appends and deletions in MD5 mode over the fallible driver, any of them cut off by power
loss. A failed try leaves its bytes and the next one adds to them, so a file may hold pieces of
what was appended. `Assembled` says which contents a history may leave in the data file, and
`Whole` which of them may be loaded. -/
namespace AppendHistories

open ByteStrings InteractionProgram InteractionCrash InteractionDiscipline InteractionLayers
open FileSystemDriver SafeFileManipulator ReliableDriver FallibleDriver FilesTouched SaveSteps

inductive Mutation where
  | save (content filename : Bytes)
  | append (content filename : Bytes)
  | delete (filename : Bytes)
  deriving DecidableEq

def Mutation.filename : Mutation → Bytes
  | .save _ filename => filename
  | .append _ filename => filename
  | .delete filename => filename

def Mutation.program (getMD5String : Bytes → Bytes) : Mutation → DriverProgram Bool
  | .save content filename => saveContentToFile getMD5String .modeUseMd5 content filename
  | .append content filename => appendContentToFile getMD5String .modeUseMd5 content filename
  | .delete filename => deleteFile .modeUseMd5 filename

theorem Mutation.calls {N : Bytes → Prop} {getMD5String : Bytes → Bytes} {m : Mutation}
    (h : ∀ name ∈ physicalNames .modeUseMd5 m.filename, N name) :
    Calls (OnFiles N) (m.program getMD5String) := by
  cases m with
  | save content filename => exact saveInMode_calls h
  | append content filename => exact saveInMode_calls h
  | delete filename =>
    change Calls (OnFiles N) (SafeFileManipulator.deleteFile .modeUseMd5 filename)
    exact deleteFile_calls h

/-- A call has no result when power was lost during it. The driver formats when it is built and
does not find a file system. -/
inductive Event where
  | called (m : Mutation) (result : Option Bool)
  | formatted
  deriving DecidableEq

inductive Step (getMD5String : Bytes → Bytes) : Disk → Event → Disk → Prop where
  | called {d d' m r} : Ends fallible (m.program getMD5String) d r d' →
      Step getMD5String d (.called m r) d'
  | formatted (d) : Step getMD5String d .formatted ∅

abbrev Run (getMD5String : Bytes → Bytes) : List Event → Disk → Prop :=
  History (Step getMD5String) ∅

/-- What was stored under the name before the event no longer counts after it. -/
def Settles (f : Bytes) : Event → Prop
  | .called m (some true) => m.filename = f
  | .called _ _ => False
  | .formatted => True

/-- What the data file of `f` may hold after a history. A save leaves the beginning of its
content, and all of it when it reports success; an append adds up to three pieces of its
content, the last of them whole when it reports success. -/
inductive Assembled (f : Bytes) : List Event → Bytes → Prop where
  | start : Assembled f [] []
  | save {h c p r} : p <+: c → (r = some true → p = c) →
      Assembled f (h ++ [.called (.save c f) r]) p
  | append {h x c r} {pieces : List Bytes} : Assembled f h x → pieces.length ≤ 3 →
      (∀ p ∈ pieces, p <+: c) → (r = some true → pieces.getLast? = some c) →
      Assembled f (h ++ [.called (.append c f) r]) (x ++ pieces.flatten)
  | delete {h r} : Assembled f (h ++ [.called (.delete f) r]) []
  | formatted {h} : Assembled f (h ++ [.formatted]) []
  | other {h x e} : Assembled f h x → ¬ Settles f e → Assembled f (h ++ [e]) x

/-- What ends in the whole content of a save or an append that is no earlier than the last
success on `f`. -/
inductive Whole (f : Bytes) : List Event → Bytes → Prop where
  | save {h c r} : Whole f (h ++ [.called (.save c f) r]) c
  | append {h x c r} {pieces : List Bytes} : Assembled f h x → pieces.length ≤ 2 →
      (∀ p ∈ pieces, p <+: c) →
      Whole f (h ++ [.called (.append c f) r]) (x ++ pieces.flatten ++ c)
  | other {h x e} : Whole f h x → ¬ Settles f e → Whole f (h ++ [e]) x

variable {getMD5String : Bytes → Bytes} {append : Bool} {c f x y z : Bytes} {n : ℕ}

theorem forall_mem_concat {pieces : List Bytes} (h : ∀ p ∈ pieces, p <+: c) :
    ∀ p ∈ pieces ++ [c], p <+: c := by
  intro p hp
  rcases List.mem_append.mp hp with hp | hp
  · exact h p hp
  · obtain rfl := List.mem_singleton.mp hp
    exact List.prefix_rfl

theorem Whole.assembled {h : List Event} (hw : Whole f h x) : Assembled f h x := by
  induction hw with
  | save => exact .save List.prefix_rfl fun _ => rfl
  | @append h x c r pieces hx hlen hpieces =>
    have hadd : Assembled f (h ++ [.called (.append c f) r]) (x ++ (pieces ++ [c]).flatten) := by
      refine .append hx ?_ (forall_mem_concat hpieces) fun _ => List.getLast?_concat
      simp only [List.length_append, List.length_singleton]
      omega
    simpa using hadd
  | other _ he ih => exact ih.other he

section Soundness

variable {h : List Event} {d d' : Disk} {L : ℕ} {m : Mutation} {r : Option Bool} {e : Event}

/-- The data file of `f` holds what the history may leave in it, and the digest file is too
short for a digest or holds that of a content that may be loaded. -/
structure Sound (getMD5String : Bytes → Bytes) (L : ℕ) (f : Bytes) (h : List Event) (d : Disk) :
    Prop where
  data : Assembled f h (dataOf d (mainFileName f))
  digest : ∀ y, d.lookup (mainMd5FileName f) = some y →
    y.length < L ∨ ∃ x, y = getMD5String x ∧ Whole f h x

theorem settles_called : Settles f (.called m r) ↔ r = some true ∧ m.filename = f := by
  rcases r with _ | _ | _ <;> simp [Settles]

theorem Sound.other (hd : Sound getMD5String L f h d) (he : ¬ Settles f e) :
    Sound getMD5String L f (h ++ [e]) d := by
  refine ⟨hd.data.other he, fun y hy => ?_⟩
  rcases hd.digest y hy with hshort | ⟨x, rfl, hx⟩
  · exact Or.inl hshort
  · exact Or.inr ⟨x, rfl, hx.other he⟩

theorem Sound.congr (hd : Sound getMD5String L f h d)
    (hdata : d'.lookup (mainFileName f) = d.lookup (mainFileName f))
    (hdigest : d'.lookup (mainMd5FileName f) = d.lookup (mainMd5FileName f)) :
    Sound getMD5String L f h d' := by
  constructor
  · rw [dataOf, hdata]
    exact hd.data
  · intro y hy
    rw [hdigest] at hy
    exact hd.digest y hy

theorem Sound.confined {D : Bytes → Prop} {P : Option Bytes → Prop}
    (hd : Sound getMD5String L m.filename h d) (ht : Confined D P m.filename d d')
    (hdata : Assembled m.filename (h ++ [.called m r]) (dataOf d' (mainFileName m.filename)))
    (hpart : ∀ y, P (some y) → y.length < L ∨
      ∃ x, y = getMD5String x ∧ Whole m.filename (h ++ [.called m r]) x)
    (hdone : r = some true → P (d'.lookup (mainMd5FileName m.filename))) :
    Sound getMD5String L m.filename (h ++ [.called m r]) d' := by
  refine ⟨hdata, fun y hy => ?_⟩
  by_cases hr : r = some true
  · exact hpart y (hy ▸ hdone hr)
  · rcases ht.digest with heq | hP
    · exact (hd.other fun hs => hr (settles_called.mp hs).1).digest y (heq ▸ hy)
    · exact hpart y (hy ▸ hP)

def Updated (getMD5String : Bytes → Bytes) (append : Bool) (c f : Bytes) (d t : Disk) : Prop :=
  Certifies getMD5String append c (dataOf d (mainFileName f)) (t.lookup (mainMd5FileName f)) ∧
    ∃ z, TriesLeave append c 2 (dataOf d (mainFileName f)) z ∧
      dataOf t (mainFileName f) = base append z ++ c

theorem Sound.saved (hL : ∀ x, (getMD5String x).length = L) (hd : Sound getMD5String L f h d)
    (ht : Confined (TriesLeave false c 3 (dataOf d (mainFileName f)))
      (Certifies getMD5String false c (dataOf d (mainFileName f))) f d d')
    (hdone : r = some true → Updated getMD5String false c f d d') :
    Sound getMD5String L f (h ++ [.called (.save c f) r]) d' := by
  refine Sound.confined (m := .save c f) hd ht ?_ ?_ fun hr => (hdone hr).1
  · by_cases hr : r = some true
    · obtain ⟨-, z, -, hdata⟩ := hdone hr
      have hwhole : dataOf d' (mainFileName f) = c := hdata
      rw [Mutation.filename, hwhole]
      exact .save List.prefix_rfl fun _ => rfl
    · rcases triesLeave_save ht.data with heq | hp
      · rw [Mutation.filename, heq]
        exact hd.data.other fun hs => hr (settles_called.mp hs).1
      · exact .save hp fun h => absurd h hr
  · rintro y ⟨z, -, hy⟩
    rcases prefix_of_digest hL hy with hshort | rfl
    · exact Or.inl hshort
    · exact Or.inr ⟨c, rfl, .save⟩

theorem Sound.appended (hL : ∀ x, (getMD5String x).length = L) (hd : Sound getMD5String L f h d)
    (ht : Confined (TriesLeave true c 3 (dataOf d (mainFileName f)))
      (Certifies getMD5String true c (dataOf d (mainFileName f))) f d d')
    (hdone : r = some true → Updated getMD5String true c f d d') :
    Sound getMD5String L f (h ++ [.called (.append c f) r]) d' := by
  refine Sound.confined (m := .append c f) hd ht ?_ ?_ fun hr => (hdone hr).1
  · by_cases hr : r = some true
    · obtain ⟨-, z, hz, hdata⟩ := hdone hr
      obtain ⟨pieces, hlen, hpieces, rfl⟩ := triesLeave_append hz
      have hflat : dataOf d' (mainFileName f) =
          dataOf d (mainFileName f) ++ (pieces ++ [c]).flatten := by
        simpa [base] using hdata
      rw [Mutation.filename, hflat]
      refine .append hd.data ?_ ?_ fun _ => List.getLast?_concat
      · simp only [List.length_append, List.length_singleton]
        omega
      · exact forall_mem_concat hpieces
    · obtain ⟨pieces, hlen, hpieces, heq⟩ := triesLeave_append ht.data
      rw [Mutation.filename, heq]
      exact .append hd.data hlen hpieces fun h => absurd h hr
  · rintro y ⟨z, hz, hy⟩
    obtain ⟨pieces, hlen, hpieces, rfl⟩ := triesLeave_append hz
    rcases prefix_of_digest hL hy with hshort | rfl
    · exact Or.inl hshort
    · exact Or.inr ⟨_, rfl, .append hd.data hlen hpieces⟩

theorem Sound.deleted (hd : Sound getMD5String L f h d)
    (ht : Confined (fun y => y = dataOf d (mainFileName f) ∨ y = []) (· = none) f d d')
    (hdone : r = some true → d'.lookup (mainMd5FileName f) = none ∧
      dataOf d' (mainFileName f) = []) :
    Sound getMD5String L f (h ++ [.called (.delete f) r]) d' := by
  refine Sound.confined (m := .delete f) hd ht ?_ (fun y hy => by cases hy) fun hr => (hdone hr).1
  by_cases hr : r = some true
  · rw [Mutation.filename, (hdone hr).2]
    exact .delete
  · rcases ht.data with heq | heq
    · rw [Mutation.filename, heq]
      exact hd.data.other fun hs => hr (settles_called.mp hs).1
    · rw [Mutation.filename, heq]
      exact .delete

/-- A call keeps its name sound at every moment, counted as having no result until it has
returned. -/
theorem Sound.called_safe (hL : ∀ x, (getMD5String x).length = L)
    (hd : Sound getMD5String L m.filename h d) :
    CrashSafe fallible (fun b t => Sound getMD5String L m.filename (h ++ [.called m (some b)]) t)
      (fun t => Sound getMD5String L m.filename (h ++ [.called m none]) t)
      (m.program getMD5String) d := by
  cases m with
  | save c f =>
    refine ((saveInMd5Mode_safe d rfl).mono ?_).weaken fun t ht => hd.saved hL ht (by simp)
    exact fun b t _ ht => hd.saved hL ht.1 fun hr => ht.2 (Option.some.inj hr)
  | append c f =>
    refine ((saveInMd5Mode_safe d rfl).mono ?_).weaken fun t ht => hd.appended hL ht (by simp)
    exact fun b t _ ht => hd.appended hL ht.1 fun hr => ht.2 (Option.some.inj hr)
  | delete f =>
    refine ((deleteFile_safe d rfl).mono ?_).weaken fun t ht => hd.deleted ht (by simp)
    exact fun b t _ ht => hd.deleted ht.1 fun hr => ht.2 (Option.some.inj hr)

theorem called_confined (he : Ends fallible (m.program getMD5String) d r d') :
    ∃ D P, Confined D P m.filename d d' := by
  cases m with
  | save c f => exact ⟨_, _, ((saveInMd5Mode_safe d rfl).ends he).1⟩
  | append c f => exact ⟨_, _, ((saveInMd5Mode_safe d rfl).ends he).1⟩
  | delete f => exact ⟨_, _, ((deleteFile_safe d rfl).ends he).1⟩

theorem sound_step (hL : ∀ x, (getMD5String x).length = L)
    (hd : ∀ f, Sound getMD5String L f h d) (hs : Step getMD5String d e d') (f : Bytes) :
    Sound getMD5String L f (h ++ [e]) d' := by
  cases hs with
  | @called _ m r he =>
    by_cases hf : f = m.filename
    · subst hf
      obtain ⟨hcut, hdone⟩ := ((hd m.filename).called_safe hL).ends he
      cases r with
      | none => exact hcut
      | some b => exact hdone b rfl
    · obtain ⟨D, P, hc⟩ := called_confined he
      have hkeep := (hd f).congr (hc.other_data f hf) (hc.other_digest f hf)
      exact hkeep.other fun hs => hf (settles_called.mp hs).2.symm
  | formatted => exact ⟨.formatted, fun y hy => by simp at hy⟩

theorem sound_start (f : Bytes) : Sound getMD5String L f [] ∅ :=
  ⟨.start, fun y hy => by simp at hy⟩

theorem run_sound (hL : ∀ x, (getMD5String x).length = L) (hr : Run getMD5String h d) (f : Bytes) :
    Sound getMD5String L f h d :=
  hr.invariant (J := fun h d => ∀ f, Sound getMD5String L f h d) sound_start
    (fun _ _ _ _ hd hs => sound_step hL hd hs) f

/-- What loads is a content that may be loaded: the digest beside it is that of one. -/
theorem whole_of_load (hL : ∀ x, (getMD5String x).length = L) (hr : Run getMD5String h d)
    (hinj : Set.InjOn getMD5String {x | Assembled f h x})
    (hload : May fallible (loadContentFromFile getMD5String .modeUseMd5 f) d (true, c) d') :
    Whole f h c := by
  have hsound := run_sound hL hr f
  obtain ⟨hc, hm⟩ := may_load hload
  have hdata : Assembled f h c := by
    have hx := hsound.data
    rwa [dataOf, hc, Option.getD_some] at hx
  rcases hsound.digest _ hm with hlt | ⟨x, heq, hx⟩
  · rw [hL] at hlt
    exact absurd hlt (lt_irrefl L)
  · rwa [hinj hdata hx.assembled heq]

end Soundness

end AppendHistories
