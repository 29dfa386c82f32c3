import Esp32Utils.ReliableDriver

/-! # What the stored digest certifies

A driver whose reads are truthful but whose writes may store anything: each write
reports what it likes and leaves what it likes in the file. A save takes the digest of
what the data file then holds, so it certifies those bytes and not the ones given. -/
namespace DigestCertification

open ByteStrings InteractionProgram FileSystemDriver SafeFileManipulator ReliableDriver

/-- One call to the driver: what it reports and, for a call that writes, what it leaves
in the file. A read or an existence check uses the report alone. -/
structure Outcome where
  reported : Bool
  stored : Option Bytes
  deriving DecidableEq

def put (filename : Bytes) (d : Disk) : Option Bytes → Disk
  | none => d.erase filename
  | some content => d.insert filename content

@[simp] theorem put_lookup (filename : Bytes) (d : Disk) (stored : Option Bytes) :
    (put filename d stored).lookup filename = stored := by
  cases stored <;> simp [put]

@[simp] theorem put_lookup_ne {filename other : Bytes} (h : other ≠ filename) (d : Disk)
    (stored : Option Bytes) : (put filename d stored).lookup other = d.lookup other := by
  cases stored <;> simp [put, h]

/-- Reads may fail but never invent bytes; writes may store other bytes than those given. -/
def lying : Environment IFileSystemDriver Outcome Disk
  | .writeContentToFile _ filename, o, d => (o.reported, put filename d o.stored)
  | .appendContentToFile _ filename, o, d => (o.reported, put filename d o.stored)
  | .readEntireFileToString filename, o, d => (if o.reported then d.lookup filename else none, d)
  | .doesFileExist filename, o, d => (o.reported && (d.lookup filename).isSome, d)
  | .deleteFile fullFileName, o, d => (o.reported, put fullFileName d o.stored)
  | .filesList path, _, d => Disk.answer (.filesList path) d
  | .countFiles path, _, d => Disk.answer (.countFiles path) d

/-- `LookedUp getMD5String stored g md5`: looking up the digest of a file that holds
`stored` under the outcomes `g` gives `md5`. -/
inductive LookedUp (getMD5String : Bytes → Bytes) : Option Bytes → List Outcome → Bytes → Prop where
  | missed {stored e} (he : (e.reported && stored.isSome) = false) :
    LookedUp getMD5String stored [e] []
  | unread {c e r} (he : e.reported = true) (hr : r.reported = false) :
    LookedUp getMD5String (some c) [e, r] []
  | found {c e r} (he : e.reported = true) (hr : r.reported = true) :
    LookedUp getMD5String (some c) [e, r] (getMD5String c)

/-- The outcomes of writing and reading back the digest `md5`, and what the try reports. -/
inductive Verified (md5 : Bytes) : List Outcome → Option Bytes → Bool → Prop where
  | unwritten {s} (hs : s.reported = false) : Verified md5 [s] s.stored false
  | compared {s v} (hs : s.reported = true) :
    Verified md5 [s, v] s.stored (v.reported && s.stored == some md5)

inductive FailedTry (getMD5String : Bytes → Bytes) : List Outcome → Prop where
  | mainWrite {w} (hw : w.reported = false) : FailedTry getMD5String [w]
  | md5File {w g m ys s} (hw : w.reported = true) (hg : LookedUp getMD5String w.stored g m)
    (hv : Verified m ys s false) : FailedTry getMD5String (w :: (g ++ ys))

inductive PassedTry (getMD5String : Bytes → Bytes) :
    List Outcome → Option Bytes → Option Bytes → Prop where
  | mk {w g m ys s} (hw : w.reported = true) (hg : LookedUp getMD5String w.stored g m)
    (hv : Verified m ys s true) : PassedTry getMD5String (w :: (g ++ ys)) w.stored s

section Transcripts

variable {getMD5String : Bytes → Bytes} {content filename name md5 : Bytes} {append b : Bool}
  {d d' : Disk} {xs : List Outcome}

theorem updateFile_plays :
    (updateFile append content name).Plays lying d xs b d' ↔
      ∃ w : Outcome, xs = [w] ∧ b = w.reported ∧ d' = put name d w.stored := by
  unfold updateFile
  constructor
  · intro h
    cases append <;> obtain ⟨w, ys, rfl, rfl, rfl, rfl⟩ := h <;> exact ⟨w, rfl, rfl, rfl⟩
  · intro h
    obtain ⟨w, rfl, rfl, rfl⟩ := h
    cases append <;> exact ⟨w, [], rfl, rfl, rfl, rfl⟩

theorem getFileMd5_plays :
    (AbstractFileSystemDriver.getFileMd5 getMD5String name).Plays lying d xs md5 d' ↔
      LookedUp getMD5String (d.lookup name) xs md5 ∧ d' = d := by
  constructor
  · intro h
    obtain ⟨e, ys, rfl, h⟩ := h
    cases he : (e.reported && (d.lookup name).isSome) with
    | false =>
      simp only [lying, he] at h
      obtain ⟨rfl, rfl, rfl⟩ := h
      exact ⟨.missed he, rfl⟩
    | true =>
      simp only [lying, he] at h
      obtain ⟨r, zs, rfl, h⟩ := h
      obtain ⟨he, hc⟩ := (Bool.and_eq_true _ _).mp he
      obtain ⟨c, hc⟩ := Option.isSome_iff_exists.mp hc
      cases hr : r.reported with
      | false =>
        simp only [lying, hr] at h
        obtain ⟨rfl, rfl, rfl⟩ := h
        rw [hc]
        exact ⟨.unread he hr, rfl⟩
      | true =>
        simp only [lying, hr, hc] at h
        obtain ⟨rfl, rfl, rfl⟩ := h
        rw [hc]
        exact ⟨.found he hr, rfl⟩
  · intro h
    obtain ⟨h, rfl⟩ := h
    generalize hs : d'.lookup name = stored at h
    cases h with
    | missed he =>
      rw [← hs] at he
      refine ⟨_, [], rfl, ?_⟩
      simp only [lying, he]
      exact ⟨rfl, rfl, rfl⟩
    | unread he hr =>
      refine ⟨_, _, rfl, ?_⟩
      simp only [lying, he, hs, Option.isSome_some, Bool.and_self]
      refine ⟨_, [], rfl, ?_⟩
      simp only [lying, hr]
      exact ⟨rfl, rfl, rfl⟩
    | found he hr =>
      refine ⟨_, _, rfl, ?_⟩
      simp only [lying, he, hs, Option.isSome_some, Bool.and_self]
      refine ⟨_, [], rfl, ?_⟩
      simp only [lying, hr, hs]
      exact ⟨rfl, rfl, rfl⟩

theorem storeMd5_plays :
    (storeMd5 md5 filename).Plays lying d xs b d' ↔
      ∃ s, Verified md5 xs s b ∧ d' = put (mainMd5FileName filename) d s := by
  constructor
  · intro h
    obtain ⟨s, ys, rfl, h⟩ := h
    cases hs : s.reported with
    | false =>
      simp only [lying, hs] at h
      obtain ⟨rfl, rfl, rfl⟩ := h
      exact ⟨s.stored, .unwritten hs, rfl⟩
    | true =>
      simp only [lying, hs] at h
      obtain ⟨v, zs, rfl, h⟩ := h
      simp only [lying, put_lookup] at h
      have hb : zs = [] ∧ (v.reported && s.stored == some md5) = b ∧
          put (mainMd5FileName filename) d s.stored = d' := by
        cases hv : v.reported <;> cases hm : s.stored <;> simp only [hv, hm] at h <;> exact h
      obtain ⟨rfl, rfl, rfl⟩ := hb
      exact ⟨s.stored, .compared hs, rfl⟩
  · intro h
    obtain ⟨_, h, rfl⟩ := h
    cases h with
    | unwritten hs =>
      refine ⟨_, [], rfl, ?_⟩
      simp only [lying, hs]
      exact ⟨rfl, rfl, rfl⟩
    | @compared s v hs =>
      refine ⟨s, [v], rfl, ?_⟩
      simp only [lying, hs]
      refine ⟨v, [], rfl, ?_⟩
      simp only [lying, put_lookup]
      cases v.reported <;> cases s.stored <;> exact ⟨rfl, rfl, rfl⟩

theorem md5SaveTry_plays :
    (md5SaveTry getMD5String content filename append).Plays lying d xs b d' ↔
      (∃ w : Outcome, xs = [w] ∧ w.reported = false ∧ b = false ∧
        d' = put (mainFileName filename) d w.stored) ∨
      ∃ (w : Outcome) (g : List Outcome) (m : Bytes) (ys : List Outcome) (s : Option Bytes),
        xs = w :: (g ++ ys) ∧ w.reported = true ∧ LookedUp getMD5String w.stored g m ∧
        Verified m ys s b ∧
        d' = put (mainMd5FileName filename) (put (mainFileName filename) d w.stored) s := by
  rw [md5SaveTry_splits]
  constructor
  · intro h
    rcases h with ⟨hu, rfl⟩ | ⟨us, g, ys, u, v, m, rfl, hu, hmd5, hstore⟩
    · obtain ⟨w, rfl, hw, rfl⟩ := updateFile_plays.mp hu
      exact Or.inl ⟨w, rfl, hw.symm, rfl, rfl⟩
    · obtain ⟨w, rfl, hw, rfl⟩ := updateFile_plays.mp hu
      obtain ⟨hg, rfl⟩ := getFileMd5_plays.mp hmd5
      obtain ⟨s, hs, rfl⟩ := storeMd5_plays.mp hstore
      rw [put_lookup] at hg
      exact Or.inr ⟨w, g, m, ys, s, rfl, hw.symm, hg, hs, rfl⟩
  · intro h
    rcases h with ⟨w, rfl, hw, rfl, rfl⟩ | ⟨w, g, m, ys, s, rfl, hw, hg, hs, rfl⟩
    · exact Or.inl ⟨updateFile_plays.mpr ⟨w, rfl, hw.symm, rfl⟩, rfl⟩
    · rw [← put_lookup (mainFileName filename) d w.stored] at hg
      exact Or.inr ⟨[w], g, ys, _, _, m, rfl, updateFile_plays.mpr ⟨w, rfl, hw.symm, rfl⟩,
        getFileMd5_plays.mpr ⟨hg, rfl⟩, storeMd5_plays.mpr ⟨s, hs, rfl⟩⟩

theorem md5SaveTry_failed :
    (∃ d', (md5SaveTry getMD5String content filename append).Plays lying d xs false d') ↔
      FailedTry getMD5String xs := by
  constructor
  · intro h
    obtain ⟨d', h⟩ := h
    rcases md5SaveTry_plays.mp h with ⟨w, rfl, hw, -⟩ | ⟨w, g, m, ys, s, rfl, hw, hg, hs, -⟩
    · exact .mainWrite hw
    · exact .md5File hw hg hs
  · intro h
    rcases h with ⟨hw⟩ | ⟨hw, hg, hs⟩
    · exact ⟨_, md5SaveTry_plays.mpr (Or.inl ⟨_, rfl, hw, rfl, rfl⟩)⟩
    · exact ⟨_, md5SaveTry_plays.mpr (Or.inr ⟨_, _, _, _, _, rfl, hw, hg, hs, rfl⟩)⟩

theorem md5SaveTry_passed :
    (md5SaveTry getMD5String content filename append).Plays lying d xs true d' ↔
      ∃ data md5, PassedTry getMD5String xs data md5 ∧
        d' = put (mainMd5FileName filename) (put (mainFileName filename) d data) md5 := by
  rw [md5SaveTry_plays]
  constructor
  · intro h
    rcases h with ⟨w, -, -, h, -⟩ | ⟨w, g, m, ys, s, rfl, hw, hg, hs, rfl⟩
    · cases h
    · exact ⟨w.stored, s, .mk hw hg hs, rfl⟩
  · intro h
    obtain ⟨data, md5, ⟨hw, hg, hs⟩, rfl⟩ := h
    exact Or.inr ⟨_, _, _, _, _, rfl, hw, hg, hs, rfl⟩

theorem saveInMd5Mode_runScript {outcomes : Stream' Outcome} :
    (saveInMd5Mode getMD5String content filename append).runScript lying outcomes d = (true, d') ↔
      ∃ tries last rest data md5 u, tries.length < maxSaveTriesInMd5Mode ∧
        outcomes = (tries.flatten ++ last) ++ₛ rest ∧ PassedTry getMD5String last data md5 ∧
        Failing lying (md5SaveTry getMD5String content filename append) tries d u ∧
        d' = put (mainMd5FileName filename) (put (mainFileName filename) u data) md5 := by
  unfold saveInMd5Mode
  rw [runScript_retry_true]
  constructor
  · intro h
    obtain ⟨tries, last, rest, u, hn, rfl, hf, hl⟩ := h
    obtain ⟨data, md5, hpass, rfl⟩ := md5SaveTry_passed.mp hl
    exact ⟨tries, last, rest, data, md5, u, hn, rfl, hpass, hf, rfl⟩
  · intro h
    obtain ⟨tries, last, rest, data, md5, u, hn, rfl, hpass, hf, rfl⟩ := h
    exact ⟨tries, last, rest, u, hn, rfl, hf, md5SaveTry_passed.mpr ⟨data, md5, hpass, rfl⟩⟩

end Transcripts

/-- The first try that reports success has left other bytes than the given ones in the
data file, with their digest in the digest file. -/
def CertifiesOther (getMD5String : Bytes → Bytes) (content : Bytes)
    (outcomes : Stream' Outcome) : Prop :=
  ∃ (tries : List (List Outcome)) (last : List Outcome) (rest : Stream' Outcome) (data : Bytes),
    tries.length < maxSaveTriesInMd5Mode ∧ (∀ t ∈ tries, FailedTry getMD5String t) ∧
    PassedTry getMD5String last (some data) (some (getMD5String data)) ∧
    outcomes = (tries.flatten ++ last) ++ₛ rest ∧ data ≠ content

/-- Only the given content can be loaded after a save that reports success exactly when
the driver does not store other bytes in the last try. -/
theorem save_certifies_iff (getMD5String : Bytes → Bytes) (d : Disk) (content filename : Bytes)
    (outcomes : Stream' Outcome) :
    (∀ d' c, (saveContentToFile getMD5String .modeUseMd5 content filename).runScript
        lying outcomes d = (true, d') →
      load getMD5String .modeUseMd5 filename d' = (true, c) → c = content) ↔
    ¬ CertifiesOther getMD5String content outcomes := by
  constructor
  · rintro h ⟨tries, last, rest, data, hn, hf, hl, rfl, hne⟩
    obtain ⟨u, hu⟩ := failing_of_forall (fun _ ht _ => md5SaveTry_failed.mpr ht) hf d
    have hrun := saveInMd5Mode_runScript.mpr ⟨tries, last, rest, _, _, u, hn, rfl, hl, hu, rfl⟩
    exact hne (h _ data hrun (load_md5_eq_true.mpr (by simp)))
  · intro h d' c hrun hload
    obtain ⟨tries, last, rest, data, md5, u, hn, rfl, hl, hu, rfl⟩ :=
      saveInMd5Mode_runScript.mp hrun
    have hf := hu.forall fun _ _ v hv => md5SaveTry_failed.mp ⟨v, hv⟩
    obtain ⟨hdata, hmd5⟩ := load_md5_eq_true.mp hload
    simp only [ne_eq, mainFileName_ne_mainMd5FileName, not_false_eq_true, put_lookup_ne,
      put_lookup] at hdata hmd5
    subst hdata hmd5
    by_contra hne
    exact h ⟨tries, last, rest, c, hn, hf, hl, rfl, hne⟩

/-- The data file keeps `b` for `a`, and every later call is honest. -/
theorem save_certifies_other :
    let r := (saveContentToFile sampleMd5 .modeUseMd5 (ascii "a") (ascii "f")).runScript lying
      ([⟨true, some (ascii "b")⟩, ⟨true, none⟩, ⟨true, none⟩,
        ⟨true, some (sampleMd5 (ascii "b"))⟩] ++ₛ Stream'.const ⟨true, none⟩) ∅
    r.1 = true ∧ load sampleMd5 .modeUseMd5 (ascii "f") r.2 = (true, ascii "b") ∧
      sampleMd5 (ascii "a") ≠ sampleMd5 (ascii "b") := by
  decide

end DigestCertification
