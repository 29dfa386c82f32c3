import Esp32Utils.SaveSteps
import Mathlib.Data.Set.Function

/-! # No wrong content is loaded after faults, power loss and corruption

Runs of saves and deletes in MD5 mode over the fallible driver. Any call may be cut off
by power loss, and between calls the bytes of data files may change. The invariant speaks
of digest files only: each is too short for a digest, or the digest of a content saved
under that name since the last call on it that reported success. -/
namespace CrashConsistency

open ByteStrings InteractionProgram InteractionCrash FileSystemDriver SafeFileManipulator
open FallibleDriver SaveSteps

/-- What happens between two points at which no call runs. The result of a call is missing
when power was lost during it. -/
inductive Event where
  | save (filename content : Bytes) (result : Option Bool)
  | delete (filename : Bytes) (result : Option Bool)
  | corrupt (filename bytes : Bytes)
  deriving DecidableEq

inductive Step (getMD5String : Bytes → Bytes) : Disk → Event → Disk → Prop where
  | save {d d' f c r} :
      Ends fallible (saveContentToFile getMD5String .modeUseMd5 c f) d r d' →
      Step getMD5String d (.save f c r) d'
  | delete {d d' f r} : Ends fallible (deleteFile .modeUseMd5 f) d r d' →
      Step getMD5String d (.delete f r) d'
  | corrupt (d f bytes) :
      Step getMD5String d (.corrupt f bytes) (d.insert (mainFileName f) bytes)

abbrev Run (getMD5String : Bytes → Bytes) : List Event → Disk → Prop :=
  History (Step getMD5String) ∅

def Succeeded (f : Bytes) : Event → Prop
  | .save g _ (some true) => g = f
  | .delete g (some true) => g = f
  | _ => False

/-- `c` is the content of a save of `f` no earlier than the last success on `f`. -/
def Current (h : List Event) (f c : Bytes) : Prop :=
  ∃ (i : ℕ) (r : Option Bool), h[i]? = some (.save f c r) ∧
    ∀ (j : ℕ) (e : Event), h[j]? = some e → Succeeded f e → j ≤ i

variable {getMD5String : Bytes → Bytes} {h : List Event} {e : Event} {f c : Bytes} {r : Option Bool}

theorem Current.last (r : Option Bool) : Current (h ++ [.save f c r]) f c := by
  refine ⟨h.length, r, by simp, fun j e hj _ => ?_⟩
  obtain ⟨hlt, -⟩ := List.getElem?_eq_some_iff.mp hj
  simp only [List.length_append, List.length_singleton] at hlt
  omega

theorem Current.extend (hc : Current h f c) (he : ¬ Succeeded f e) : Current (h ++ [e]) f c := by
  obtain ⟨i, r, hi, hmax⟩ := hc
  have hlt : i < h.length := (List.getElem?_eq_some_iff.mp hi).1
  refine ⟨i, r, by rw [List.getElem?_append_left hlt]; exact hi, fun j e' hj hs => ?_⟩
  by_cases hjl : j < h.length
  · rw [List.getElem?_append_left hjl] at hj
    exact hmax j e' hj hs
  · rw [List.getElem?_append_right (by omega)] at hj
    obtain rfl := List.mem_singleton.mp (List.mem_of_getElem? hj)
    exact absurd hs he

/-- Every digest file is too short for a digest or holds that of a current content. -/
def Certified (getMD5String : Bytes → Bytes) (L : ℕ) (h : List Event) (d : Disk) : Prop :=
  ∀ f x, d.lookup (mainMd5FileName f) = some x →
    x.length < L ∨ ∃ c, x = getMD5String c ∧ Current h f c

variable {L : ℕ} {d d' : Disk}

theorem Certified.kept {x : Bytes} (hd : Certified getMD5String L h d) (he : ¬ Succeeded f e)
    (hx : d.lookup (mainMd5FileName f) = some x) :
    x.length < L ∨ ∃ c, x = getMD5String c ∧ Current (h ++ [e]) f c :=
  (hd f x hx).imp_right fun ⟨c, heq, hc⟩ => ⟨c, heq, hc.extend he⟩

/-- What becomes of the invariant when at most the files of `f` change: other names keep their
digests, and a success on `f` has to leave something that is certified anew. -/
theorem Certified.confined {D : Bytes → Prop} {P : Option Bytes → Prop}
    (hd : Certified getMD5String L h d) (hp : Confined D P f d d')
    (hother : ∀ g, g ≠ f → ¬ Succeeded g e)
    (hnew : ∀ x, P (some x) →
      x.length < L ∨ ∃ c, x = getMD5String c ∧ Current (h ++ [e]) f c)
    (hdone : Succeeded f e → P (d'.lookup (mainMd5FileName f))) :
    Certified getMD5String L (h ++ [e]) d' := by
  intro g x hx
  by_cases hg : g = f
  · subst hg
    by_cases hs : Succeeded g e
    · exact hnew x (hx ▸ hdone hs)
    · rcases hp.digest with heq | hP
      · exact hd.kept hs (heq ▸ hx)
      · exact hnew x (hx ▸ hP)
  · exact hd.kept (hother g hg) ((hp.other_digest g hg) ▸ hx)

theorem succeeded_save {g : Bytes} : Succeeded g (.save f c r) ↔ r = some true ∧ f = g := by
  rcases r with _ | _ | _ <;> simp [Succeeded]

theorem succeeded_delete {g : Bytes} : Succeeded g (.delete f r) ↔ r = some true ∧ f = g := by
  rcases r with _ | _ | _ <;> simp [Succeeded]

theorem step_certified (hL : ∀ c, (getMD5String c).length = L)
    (hd : Certified getMD5String L h d) (hs : Step getMD5String d e d') :
    Certified getMD5String L (h ++ [e]) d' := by
  cases hs with
  | @save d' f c r he =>
    obtain ⟨hp, hdone⟩ := (saveInMd5Mode_safe d rfl).ends he
    refine hd.confined hp (fun g hg hs => hg (succeeded_save.mp hs).2.symm) ?_ ?_
    · rintro x ⟨z, -, hx⟩
      exact (prefix_of_digest hL hx).imp_right fun heq => ⟨c, heq, .last r⟩
    · exact fun hs => ((hdone true (succeeded_save.mp hs).1).2 rfl).1
  | @delete d' f r he =>
    obtain ⟨hp, hdone⟩ := (deleteFile_safe d rfl).ends he
    refine hd.confined hp (fun g hg hs => hg (succeeded_delete.mp hs).2.symm) ?_ ?_
    · exact fun x hx => by cases hx
    · exact fun hs => ((hdone true (succeeded_delete.mp hs).1).2 rfl).1
  | corrupt f bytes =>
    intro g x hx
    rw [AList.lookup_insert_ne (mainMd5FileName_ne_mainFileName g f)] at hx
    exact hd.kept (fun hs => hs) hx

theorem run_certified (hL : ∀ c, (getMD5String c).length = L) (hr : Run getMD5String h d) :
    Certified getMD5String L h d :=
  hr.invariant (fun f x hx => by simp at hx) fun _ _ _ _ hd hs => step_certified hL hd hs

/-- At every point of every run, what loads under a name is the content of a save of that
name no earlier than its last successful save or delete. -/
theorem no_wrong_content (getMD5String : Bytes → Bytes) (L : ℕ)
    (hL : ∀ c, (getMD5String c).length = L) {h : List Event} {d d' : Disk}
    (hr : Run getMD5String h d) (f c : Bytes)
    (hinj : Set.InjOn getMD5String {x | x = c ∨ ∃ g r, Event.save g x r ∈ h})
    (hload : May fallible (loadContentFromFile getMD5String .modeUseMd5 f) d (true, c) d') :
    Current h f c := by
  obtain ⟨-, hm⟩ := may_load hload
  rcases run_certified hL hr f _ hm with hlt | ⟨c', heq, hc⟩
  · rw [hL] at hlt
    exact absurd hlt (lt_irrefl L)
  · obtain ⟨i, r, hi, -⟩ := id hc
    have hcc : c = c' := hinj (Or.inl rfl) (Or.inr ⟨f, r, List.mem_of_getElem? hi⟩) heq
    rwa [hcc]

theorem no_wrong_content_sample :
    Current [.save (ascii "f") (ascii "a") (some true), .save (ascii "f") (ascii "b") none]
      (ascii "f") (ascii "a") := by
  let d := ((saveContentToFile sampleMd5 .modeUseMd5 (ascii "a") (ascii "f")).runScript
    fallible (Stream'.const .ok) ∅).2
  have hsave : Step sampleMd5 ∅ (.save (ascii "f") (ascii "a") (some true)) d :=
    .save (r := some true) (may_iff_runScript.mpr ⟨Stream'.const .ok, Prod.ext (by decide) rfl⟩)
  have hcut : Step sampleMd5 d (.save (ascii "f") (ascii "b") none) d := .save (Cut.before _ _)
  refine no_wrong_content sampleMd5 32 sampleMd5_length ((History.start.step hsave).step hcut)
    (ascii "f") (ascii "a") ?_ (may_iff_runScript.mpr ⟨Stream'.const .ok, Prod.ext (by decide) rfl⟩)
  have hmem : ∀ x, (x = ascii "a" ∨ ∃ g r, Event.save g x r ∈
      [.save (ascii "f") (ascii "a") (some true), .save (ascii "f") (ascii "b") none]) →
      x = ascii "a" ∨ x = ascii "b" := by
    rintro x (rfl | ⟨g, r, hx⟩)
    · exact Or.inl rfl
    · simp only [List.mem_cons, Event.save.injEq, List.not_mem_nil, or_false] at hx
      exact hx.imp (fun h => h.2.1) (fun h => h.2.1)
  intro x hx y hy h
  rcases hmem x hx with rfl | rfl <;> rcases hmem y hy with rfl | rfl
  · rfl
  · exact absurd h (by decide)
  · exact absurd h (by decide)
  · rfl

end CrashConsistency
