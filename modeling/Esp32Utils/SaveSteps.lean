import Esp32Utils.FallibleDriver

/-! # What a call may leave

Saves, appends and deletions in MD5 mode over the fallible driver, at any moment and when they
report success. Only the files of one name change. A failed try leaves its bytes in the data
file and the next one adds to them; the digest file is left as it was, or as a part of the
digest of a content that was whole in the data file. -/
namespace SaveSteps

open ByteStrings InteractionProgram InteractionCrash FileSystemDriver SafeFileManipulator
open FallibleDriver ReliableDriver

variable {getMD5String : Bytes → Bytes} {append : Bool} {c f x y z : Bytes} {n : ℕ}

section Tries

def base (append : Bool) (x : Bytes) : Bytes := if append then x else []

def TryLeaves (append : Bool) (c x y : Bytes) : Prop :=
  y = x ∨ ∃ p, p <+: c ∧ y = base append x ++ p

def TriesLeave (append : Bool) (c : Bytes) : ℕ → Bytes → Bytes → Prop
  | 0, x, y => y = x
  | n + 1, x, y => ∃ z, TriesLeave append c n x z ∧ TryLeaves append c z y

theorem TriesLeave.succ (h : TriesLeave append c n x y) : TriesLeave append c (n + 1) x y :=
  ⟨y, h, Or.inl rfl⟩

theorem TriesLeave.mono {m : ℕ} (hnm : n ≤ m) (h : TriesLeave append c n x y) :
    TriesLeave append c m x y := by
  induction hnm with
  | refl => exact h
  | step _ ih => exact ih.succ

theorem triesLeave_save (h : TriesLeave false c n x y) : y = x ∨ y <+: c := by
  induction n generalizing y with
  | zero => exact Or.inl h
  | succ n ih =>
    obtain ⟨z, hz, rfl | ⟨p, hp, rfl⟩⟩ := h
    · exact ih hz
    · exact Or.inr hp

theorem triesLeave_append (h : TriesLeave true c n x y) :
    ∃ pieces : List Bytes, pieces.length ≤ n ∧ (∀ p ∈ pieces, p <+: c) ∧
      y = x ++ pieces.flatten := by
  induction n generalizing y with
  | zero =>
    obtain rfl := h
    exact ⟨[], Nat.le_refl 0, by simp, by simp⟩
  | succ n ih =>
    obtain ⟨z, hz, hy⟩ := h
    obtain ⟨pieces, hlen, hpieces, rfl⟩ := ih hz
    rcases hy with rfl | ⟨p, hp, rfl⟩
    · exact ⟨pieces, by omega, hpieces, rfl⟩
    · refine ⟨pieces ++ [p], ?_, ?_, ?_⟩
      · simp only [List.length_append, List.length_singleton]
        omega
      · intro q hq
        rcases List.mem_append.mp hq with hq | hq
        · exact hpieces q hq
        · rw [List.mem_singleton.mp hq]
          exact hp
      · simp [base]

end Tries

section Calls

variable {D D' : Bytes → Prop} {P P' : Option Bytes → Prop} {d₀ s t : Disk}

/-- From `d₀` to `t` only the files of `f` changed: its data file to what `D` allows, and its
digest file to what `P` allows, or not at all. -/
structure Confined (D : Bytes → Prop) (P : Option Bytes → Prop) (f : Bytes) (d₀ t : Disk) :
    Prop where
  other_data : ∀ g, g ≠ f → t.lookup (mainFileName g) = d₀.lookup (mainFileName g)
  other_digest : ∀ g, g ≠ f → t.lookup (mainMd5FileName g) = d₀.lookup (mainMd5FileName g)
  data : D (dataOf t (mainFileName f))
  digest : t.lookup (mainMd5FileName f) = d₀.lookup (mainMd5FileName f) ∨
    P (t.lookup (mainMd5FileName f))

theorem Confined.refl (hD : D (dataOf d₀ (mainFileName f))) : Confined D P f d₀ d₀ :=
  ⟨fun _ _ => rfl, fun _ _ => rfl, hD, Or.inl rfl⟩

theorem Confined.mono (h : Confined D P f d₀ t) (hD : ∀ y, D y → D' y) : Confined D' P f d₀ t :=
  ⟨h.other_data, h.other_digest, hD _ h.data, h.digest⟩

theorem Confined.of_data (h : Confined D P f d₀ s)
    (hkeep : ∀ name, name ≠ mainFileName f → t.lookup name = s.lookup name)
    (hD : D' (dataOf t (mainFileName f))) : Confined D' P f d₀ t where
  other_data g hg := by
    rw [hkeep _ fun he => hg (mainFileName_inj.mp he)]
    exact h.other_data g hg
  other_digest g hg := by
    rw [hkeep _ (mainMd5FileName_ne_mainFileName g f)]
    exact h.other_digest g hg
  data := hD
  digest := by
    rw [hkeep _ (mainMd5FileName_ne_mainFileName f f)]
    exact h.digest

theorem Confined.of_digest (h : Confined D P f d₀ s)
    (hkeep : ∀ name, name ≠ mainMd5FileName f → t.lookup name = s.lookup name)
    (hP : t.lookup (mainMd5FileName f) = s.lookup (mainMd5FileName f) ∨
      P (t.lookup (mainMd5FileName f))) : Confined D P f d₀ t where
  other_data g hg := by
    rw [hkeep _ (mainFileName_ne_mainMd5FileName g f)]
    exact h.other_data g hg
  other_digest g hg := by
    rw [hkeep _ fun he => hg (mainMd5FileName_inj.mp he)]
    exact h.other_digest g hg
  data := by
    rw [dataOf, hkeep _ (mainFileName_ne_mainMd5FileName f f)]
    exact h.data
  digest := by
    rcases hP with heq | hP
    · rw [heq]
      exact h.digest
    · exact Or.inr hP

theorem updated_eq {name : Bytes} :
    updated append c name s = base append (dataOf s name) ++ c := by
  cases append <;> rfl

theorem residue_update_leaves {name : Bytes} (left : Residue) :
    TryLeaves append c (dataOf s name) (dataOf (left.update append c name s) name) := by
  cases append with
  | true =>
    refine Or.inr ⟨left.added c, ?_, dataOf_residue_append left⟩
    cases left with
    | partly n => exact List.take_prefix n c
    | _ => exact List.nil_prefix
  | false =>
    cases left with
    | unchanged => exact Or.inl rfl
    | absent =>
      exact Or.inr ⟨[], List.nil_prefix, by simp [Residue.update, Residue.write, dataOf, base]⟩
    | partly n =>
      exact Or.inr ⟨c.take n, List.take_prefix n c,
        by simp [Residue.update, Residue.write, dataOf, base]⟩

theorem residue_update_lookup_ne {name other : Bytes} (h : other ≠ name) (left : Residue) :
    (left.update append c name s).lookup other = s.lookup other := by
  cases append with
  | true =>
    cases left with
    | partly n => exact AList.lookup_insert_ne h
    | _ => rfl
  | false => exact left.write_lookup_ne h

theorem updateFile_safe (h : Confined D P f d₀ s) (hD : ∀ y, D y → D' y)
    (hleave : ∀ y, TryLeaves append c (dataOf s (mainFileName f)) y → D' y) :
    CrashSafe fallible
      (fun b t => Confined D' P f d₀ t ∧ (b = true →
        t.lookup (mainFileName f) = some (base append (dataOf s (mainFileName f)) ++ c)))
      (Confined D' P f d₀) (updateFile append c (mainFileName f)) s := by
  have hok : Confined D' P f d₀
      (s.insert (mainFileName f) (base append (dataOf s (mainFileName f)) ++ c)) := by
    refine h.of_data (fun name hn => AList.lookup_insert_ne hn) (hleave _ (Or.inr ⟨c, ?_, ?_⟩))
    · exact List.prefix_rfl
    · rw [dataOf, AList.lookup_insert, Option.getD_some]
  have hfail : ∀ left : Residue, Confined D' P f d₀ (left.update append c (mainFileName f) s) :=
    fun left => h.of_data (fun name hn => residue_update_lookup_ne hn left)
      (hleave _ (residue_update_leaves left))
  have hnow := h.mono hD
  cases append with
  | true =>
    refine ⟨hnow, fun o => ?_⟩
    cases o with
    | ok => exact ⟨hok, hok, fun _ => AList.lookup_insert s⟩
    | fail left => exact ⟨hfail left, hfail left, fun hb => by cases hb⟩
  | false =>
    refine ⟨hnow, fun o => ?_⟩
    cases o with
    | ok => exact ⟨hok, hok, fun _ => AList.lookup_insert s⟩
    | fail left => exact ⟨hfail left, hfail left, fun hb => by cases hb⟩

theorem getFileMd5_safe (hx : s.lookup (mainFileName f) = some x) :
    CrashSafe fallible (fun md5 t => t = s ∧ md5 <+: getMD5String x) (fun t => t = s)
      (AbstractFileSystemDriver.getFileMd5 getMD5String (mainFileName f)) s := by
  refine ⟨rfl, fun o => ?_⟩
  cases o with
  | fail left => exact ⟨rfl, rfl, List.nil_prefix⟩
  | ok =>
    simp only [fallible, Disk.answer, hx, Option.isSome_some]
    refine ⟨rfl, fun o' => ?_⟩
    cases o' with
    | fail left => exact ⟨rfl, rfl, List.nil_prefix⟩
    | ok =>
      simp only [fallible, Disk.answer, hx]
      exact ⟨rfl, rfl, List.prefix_rfl⟩

theorem storeMd5_safe {md5 : Bytes} (h : Confined D P f d₀ s) (hnone : P none)
    (hpart : ∀ y, y <+: md5 → P (some y)) :
    CrashSafe fallible
      (fun b t => Confined D P f d₀ t ∧ (b = true → P (t.lookup (mainMd5FileName f))))
      (Confined D P f d₀) (storeMd5 md5 f) s := by
  have hwrite : ∀ y, y <+: md5 → Confined D P f d₀ (s.insert (mainMd5FileName f) y) := by
    intro y hy
    refine h.of_digest (fun name hn => AList.lookup_insert_ne hn) (Or.inr ?_)
    rw [AList.lookup_insert]
    exact hpart y hy
  refine ⟨h, fun o => ?_⟩
  cases o with
  | fail left =>
    have ht : Confined D P f d₀ (left.write md5 (mainMd5FileName f) s) := by
      cases left with
      | unchanged => exact h
      | absent =>
        refine h.of_digest (fun name hn => AList.lookup_erase_ne hn) (Or.inr ?_)
        rw [Residue.write, AList.lookup_erase]
        exact hnone
      | partly n => exact hwrite _ (List.take_prefix n md5)
    exact ⟨ht, ht, fun hb => by cases hb⟩
  | ok =>
    have ht := hwrite md5 List.prefix_rfl
    refine ⟨ht, fun o' => ?_⟩
    cases o' with
    | fail left => exact ⟨ht, ht, fun hb => by cases hb⟩
    | ok =>
      simp only [fallible, Disk.answer, AList.lookup_insert]
      refine ⟨ht, ht, fun _ => ?_⟩
      rw [AList.lookup_insert]
      exact hpart md5 List.prefix_rfl

theorem prefix_of_digest {L : ℕ} (hL : ∀ x, (getMD5String x).length = L)
    (hy : y <+: getMD5String x) : y.length < L ∨ y = getMD5String x := by
  have hle := hy.length_le
  rw [hL] at hle
  rcases Nat.lt_or_eq_of_le hle with hlt | heq
  · exact Or.inl hlt
  · exact Or.inr (hy.eq_of_length (by rw [heq, hL]))

/-- What a save or an append may leave in the digest file, when it changes it. -/
def Certifies (getMD5String : Bytes → Bytes) (append : Bool) (c x : Bytes) :
    Option Bytes → Prop
  | none => True
  | some y => ∃ z, TriesLeave append c 2 x z ∧ y <+: getMD5String (base append z ++ c)

theorem md5SaveTry_safe (hn : n < 3)
    (h : Confined (TriesLeave append c n x) (Certifies getMD5String append c x) f d₀ s) :
    CrashSafe fallible
      (fun b t => Confined (TriesLeave append c (n + 1) x)
          (Certifies getMD5String append c x) f d₀ t ∧
        (b = true → Certifies getMD5String append c x (t.lookup (mainMd5FileName f)) ∧
          ∃ z, TriesLeave append c 2 x z ∧ dataOf t (mainFileName f) = base append z ++ c))
      (Confined (TriesLeave append c (n + 1) x) (Certifies getMD5String append c x) f d₀)
      (md5SaveTry getMD5String c f append) s := by
  have hleft : TriesLeave append c 2 x (dataOf s (mainFileName f)) := h.data.mono (by omega)
  have hleave : ∀ y, TryLeaves append c (dataOf s (mainFileName f)) y →
      TriesLeave append c (n + 1) x y := fun y hy => ⟨_, h.data, hy⟩
  refine CrashSafe.bind ((updateFile_safe h (fun _ hy => hy.succ) hleave).mono ?_)
  rintro b u - ⟨hu, hb⟩
  cases b with
  | false => exact ⟨hu, hu, fun hb => by cases hb⟩
  | true =>
    have hdata := hb rfl
    have hwhole : TriesLeave append c (n + 1) x
        (base append (dataOf s (mainFileName f)) ++ c) :=
      hleave _ (Or.inr ⟨c, List.prefix_rfl, rfl⟩)
    have hkeep : Confined (· = base append (dataOf s (mainFileName f)) ++ c)
        (Certifies getMD5String append c x) f d₀ u :=
      hu.of_data (fun _ _ => rfl) (by rw [dataOf, hdata, Option.getD_some])
    refine CrashSafe.bind (((getFileMd5_safe hdata).weaken ?_).mono ?_)
    · rintro v rfl
      exact hu
    rintro md5 v - ⟨rfl, hmd5⟩
    refine ((storeMd5_safe hkeep trivial ?_).weaken ?_).mono ?_
    · exact fun y hy => ⟨_, hleft, hy.trans hmd5⟩
    · exact fun t ht => ht.mono fun y hy => hy ▸ hwhole
    · rintro b t ht ⟨hdone, hb⟩
      exact ⟨ht, fun hbt => ⟨hb hbt, _, hleft, hdone.data⟩⟩

/-- A save or an append: what it may leave at any moment, and what it has done when it reports
success. -/
theorem saveInMd5Mode_safe (d₀ : Disk) (hx : dataOf d₀ (mainFileName f) = x) :
    CrashSafe fallible
      (fun b t => Confined (TriesLeave append c 3 x)
          (Certifies getMD5String append c x) f d₀ t ∧
        (b = true → Certifies getMD5String append c x (t.lookup (mainMd5FileName f)) ∧
          ∃ z, TriesLeave append c 2 x z ∧ dataOf t (mainFileName f) = base append z ++ c))
      (Confined (TriesLeave append c 3 x) (Certifies getMD5String append c x) f d₀)
      (saveInMd5Mode getMD5String c f append) d₀ := by
  let J : ℕ → Disk → Prop := fun left t => ∃ n, n + left = 3 ∧
    Confined (TriesLeave append c n x) (Certifies getMD5String append c x) f d₀ t
  refine CrashSafe.retry (J := J) ?_ ?_ 3 ⟨0, rfl, Confined.refl hx⟩
  · rintro t ⟨n, hn, ht⟩
    obtain rfl : n = 3 := by omega
    exact ⟨ht, ht, fun hb => by cases hb⟩
  · rintro left s ⟨n, hn, hs⟩
    have hthree : ∀ t, Confined (TriesLeave append c (n + 1) x)
        (Certifies getMD5String append c x) f d₀ t → Confined (TriesLeave append c 3 x)
        (Certifies getMD5String append c x) f d₀ t :=
      fun t ht => ht.mono fun y hy => hy.mono (by omega)
    refine ((md5SaveTry_safe (by omega) hs).weaken hthree).mono ?_
    rintro b t ht ⟨hu, hb⟩
    cases b with
    | true => exact ⟨ht, hb⟩
    | false => exact ⟨n + 1, by omega, hu⟩

theorem deleteFile_safe (d₀ : Disk) (hx : dataOf d₀ (mainFileName f) = x) :
    CrashSafe fallible
      (fun b t => Confined (fun y => y = x ∨ y = []) (· = none) f d₀ t ∧
        (b = true → t.lookup (mainMd5FileName f) = none ∧ dataOf t (mainFileName f) = []))
      (Confined (fun y => y = x ∨ y = []) (· = none) f d₀) (deleteFile .modeUseMd5 f) d₀ := by
  have hstart : Confined (fun y => y = x ∨ y = []) (· = none) f d₀ d₀ := Confined.refl (Or.inl hx)
  have hgone : dataOf (d₀.erase (mainFileName f)) (mainFileName f) = [] := by
    rw [dataOf, AList.lookup_erase, Option.getD_none]
  have hmain : Confined (· = []) (· = none) f d₀ (d₀.erase (mainFileName f)) :=
    hstart.of_data (fun name hn => AList.lookup_erase_ne hn) hgone
  have hdigest : Confined (· = []) (· = none) f d₀
      ((d₀.erase (mainFileName f)).erase (mainMd5FileName f)) :=
    hmain.of_digest (fun name hn => AList.lookup_erase_ne hn) (Or.inr (AList.lookup_erase _ _))
  have hempty : ∀ {t}, Confined (· = []) (· = none) f d₀ t →
      Confined (fun y => y = x ∨ y = []) (· = none) f d₀ t := fun ht => ht.mono fun _ => Or.inr
  refine ⟨hstart, fun o => ?_⟩
  cases o with
  | fail left =>
    have ht : Confined (fun y => y = x ∨ y = []) (· = none) f d₀
        (left.delete (mainFileName f) d₀) := by
      cases left with
      | absent => exact hempty hmain
      | unchanged => exact hstart
      | partly n => exact hstart
    exact ⟨ht, ht, fun hb => by cases hb⟩
  | ok =>
    refine ⟨hempty hmain, fun o' => ?_⟩
    cases o' with
    | ok => exact ⟨hempty hdigest, hempty hdigest, fun _ => ⟨AList.lookup_erase _ _, hdigest.data⟩⟩
    | fail left =>
      have ht : Confined (· = []) (· = none) f d₀
          (left.delete (mainMd5FileName f) (d₀.erase (mainFileName f))) := by
        cases left with
        | absent => exact hdigest
        | unchanged => exact hmain
        | partly n => exact hmain
      exact ⟨hempty ht, hempty ht, fun hb => by cases hb⟩

end Calls

section Loads

variable {d d' : Disk}

theorem may_doesFileExist {name : Bytes} {b : Bool}
    (hm : May fallible (IFileSystemDriver.doesFileExist name) d b d') : d' = d := by
  obtain ⟨xs, x, ys, -, -, -, rfl⟩ := hm
  cases x <;> rfl

theorem may_readEntireFileToString {name : Bytes} {r : Option Bytes}
    (hm : May fallible (IFileSystemDriver.readEntireFileToString name) d r d') :
    d' = d ∧ ∀ x, r = some x → d.lookup name = some x := by
  obtain ⟨xs, x, ys, -, -, rfl, rfl⟩ := hm
  cases x with
  | ok => exact ⟨rfl, fun x h => h⟩
  | fail left => exact ⟨rfl, fun x h => by cases h⟩

/-- A load that returns a content has read it and its digest, whatever else failed. -/
theorem may_load
    (hm : May fallible (loadContentFromFile getMD5String .modeUseMd5 f) d (true, c) d') :
    d.lookup (mainFileName f) = some c ∧
      d.lookup (mainMd5FileName f) = some (getMD5String c) := by
  rcases may_guard.mp hm with ⟨-, h⟩ | ⟨u, hexist, hread⟩
  · cases h
  rcases may_guard.mp hexist with ⟨-, h⟩ | ⟨v, hdata, hdigest⟩
  · cases h
  obtain rfl := may_doesFileExist hdata
  obtain rfl := may_doesFileExist hdigest
  obtain ⟨md5, w, hw, hm⟩ := may_bind.mp hread
  obtain ⟨rfl, hmd5⟩ := may_readEntireFileToString hw
  cases md5 with
  | none =>
    obtain ⟨h, -⟩ := may_ret.mp hm
    cases h
  | some md5 =>
    obtain ⟨content, w', hw', hm⟩ := may_bind.mp hm
    obtain ⟨rfl, hcontent⟩ := may_readEntireFileToString hw'
    cases content with
    | none =>
      obtain ⟨h, -⟩ := may_ret.mp hm
      cases h
    | some content =>
      dsimp only at hm
      split at hm
      · rename_i he
        obtain ⟨h, -⟩ := may_ret.mp hm
        obtain rfl := congrArg Prod.snd h
        exact ⟨hcontent _ rfl, by rw [he]; exact hmd5 _ rfl⟩
      · obtain ⟨h, -⟩ := may_ret.mp hm
        cases h

end Loads

end SaveSteps
