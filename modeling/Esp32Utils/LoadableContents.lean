import Esp32Utils.AppendHistories
import Mathlib.Algebra.Group.Action.Defs
import Mathlib.Algebra.Order.BigOperators.Group.List
import Mathlib.Algebra.Order.Ring.Nat
import Mathlib.Data.List.Induction

/-! # Which contents a history makes loadable

The faults that bring a content about: a try cut short for each piece, then one that passes, or
one whose digest cannot be read back. -/
namespace LoadableContents

open ByteStrings InteractionProgram InteractionCrash FileSystemDriver SafeFileManipulator
open ReliableDriver FallibleDriver SaveSteps AppendHistories

variable {getMD5String : Bytes → Bytes} {append : Bool} {c f p x : Bytes} {d : Disk} {n : ℕ}
  {pieces : List Bytes}

section Tries

def cutShort (p : Bytes) : List Fault := [.fail (.partly p.length)]

theorem cutShort_plays (hp : p <+: c) :
    (md5SaveTry getMD5String c f append).Plays fallible d (cutShort p) false
      (d.insert (mainFileName f) (base append (dataOf d (mainFileName f)) ++ p)) := by
  refine md5SaveTry_plays.mpr (Or.inl ⟨.partly p.length, rfl, rfl, ?_⟩)
  have htake : c.take p.length = p := (List.prefix_iff_eq_take.mp hp).symm
  cases append <;> simp [Residue.update, Residue.write, Residue.append, base, dataOf, htake]

def loadable (getMD5String : Bytes → Bytes) (append : Bool) (c f : Bytes) (d : Disk) : Disk :=
  certified getMD5String f (base append (dataOf d (mainFileName f)) ++ c) d

theorem passed_plays :
    (md5SaveTry getMD5String c f append).Plays fallible d [.ok, .ok, .ok, .ok, .ok] true
      (loadable getMD5String append c f d) := by
  refine md5SaveTry_passed.mpr ⟨true, .mk .found, ?_⟩
  rw [updated_eq]
  rfl

theorem unread_plays :
    (md5SaveTry getMD5String c f append).Plays fallible d [.ok, .ok, .ok, .ok, .fail .unchanged]
      false (loadable getMD5String append c f d) := by
  refine md5SaveTry_plays.mpr (Or.inr ⟨[.ok, .ok], true, [.ok, .fail .unchanged], .found, rfl, ?_⟩)
  refine storeMd5_plays.mpr (Or.inr (Or.inl ⟨.unchanged, rfl, rfl, ?_⟩))
  rw [updated_eq]
  rfl

theorem same_plays :
    (md5SaveTry getMD5String c f append).Plays fallible d [.fail .unchanged] false d :=
  md5SaveTry_plays.mpr (Or.inl ⟨.unchanged, rfl, rfl, by cases append <;> rfl⟩)

theorem failing_pieces (hpieces : ∀ p ∈ pieces, p <+: c) (d : Disk) :
    ∃ u, Failing fallible (md5SaveTry getMD5String c f true) (pieces.map cutShort) d u ∧
      dataOf u (mainFileName f) = dataOf d (mainFileName f) ++ pieces.flatten := by
  induction pieces generalizing d with
  | nil => exact ⟨d, rfl, by simp⟩
  | cons p pieces ih =>
    have hplay := @cutShort_plays getMD5String true c f p d (hpieces p List.mem_cons_self)
    obtain ⟨u, hu, hdata⟩ := ih (fun q hq => hpieces q (List.mem_cons_of_mem _ hq))
      (d.insert (mainFileName f) (base true (dataOf d (mainFileName f)) ++ p))
    refine ⟨u, ⟨_, hplay, hu⟩, ?_⟩
    rw [hdata, dataOf, AList.lookup_insert, Option.getD_some]
    simp [base]

theorem padded (hlen : pieces.length ≤ n) (hpieces : ∀ p ∈ pieces, p <+: c) :
    ∃ qs : List Bytes, qs.length = n ∧ (∀ q ∈ qs, q <+: c) ∧ qs.flatten = pieces.flatten := by
  refine ⟨pieces ++ List.replicate (n - pieces.length) [], ?_, ?_, ?_⟩
  · rw [List.length_append, List.length_replicate]
    omega
  · intro q hq
    rcases List.mem_append.mp hq with hq | hq
    · exact hpieces q hq
    · rw [List.eq_of_mem_replicate hq]
      exact List.nil_prefix
  · simp

theorem append_pieces (hlen : pieces.length ≤ 3) (hpieces : ∀ p ∈ pieces, p <+: c) (d : Disk) :
    ∃ u, May fallible (saveInMd5Mode getMD5String c f true) d false u ∧
      dataOf u (mainFileName f) = dataOf d (mainFileName f) ++ pieces.flatten := by
  obtain ⟨qs, hqs, hprefix, hflat⟩ := padded hlen hpieces
  obtain ⟨u, hu, hdata⟩ := @failing_pieces getMD5String c f qs hprefix d
  have hm := may_retry_false hu
  rw [List.length_map, hqs] at hm
  exact ⟨u, hm, by rw [hdata, hflat]⟩

/-- An append that leaves pieces and then all of its content, reporting success or not. -/
theorem append_whole (hlen : pieces.length ≤ 2) (hpieces : ∀ p ∈ pieces, p <+: c) (d : Disk)
    (b : Bool) :
    ∃ u, May fallible (saveInMd5Mode getMD5String c f true) d b
        (loadable getMD5String true c f u) ∧
      dataOf u (mainFileName f) = dataOf d (mainFileName f) ++ pieces.flatten := by
  obtain ⟨qs, hqs, hprefix, hflat⟩ := padded hlen hpieces
  obtain ⟨u, hu, hdata⟩ := @failing_pieces getMD5String c f qs hprefix d
  refine ⟨u, ?_, by rw [hdata, hflat]⟩
  cases b with
  | true => exact may_retry_true (by rw [List.length_map, hqs]; decide) hu ⟨_, passed_plays⟩
  | false =>
    have hm := may_retry_false (hu.concat unread_plays)
    rw [List.length_append, List.length_map, hqs] at hm
    exact hm

end Tries

section Steps

variable {d' : Disk} {m : Mutation} {r : Option Bool} {e : Event} {h : List Event}

theorem may_succeed (m : Mutation) (d : Disk) :
    ∃ d', May fallible (m.program getMD5String) d true d' := by
  cases m with
  | save c f =>
    exact ⟨_, may_retry_at_once (by decide) ⟨_, passed_plays⟩⟩
  | append c f =>
    exact ⟨_, may_retry_at_once (by decide) ⟨_, passed_plays⟩⟩
  | delete f => exact ⟨_, [.ok, .ok], .ok, [.ok], rfl, .ok, [], rfl, rfl, rfl, rfl⟩

theorem may_fail (m : Mutation) (d : Disk) : May fallible (m.program getMD5String) d false d := by
  have hthree : ∀ {append c f}, Failing fallible (md5SaveTry getMD5String c f append)
      (List.replicate 3 [.fail .unchanged]) d d :=
    ⟨d, same_plays, d, same_plays, d, same_plays, rfl⟩
  cases m with
  | save c f => exact may_retry_false hthree
  | append c f => exact may_retry_false hthree
  | delete f => exact ⟨[.fail .unchanged], .fail .unchanged, [], rfl, rfl, rfl, rfl⟩

theorem ends_of_failure {p : DriverProgram Bool} (hr : r ≠ some true)
    (hm : May fallible p d false d') : Ends fallible p d r d' := by
  refine ends_of_may hm fun b hb => ?_
  cases b with
  | false => rfl
  | true => exact absurd hb hr

theorem exists_step (d : Disk) (e : Event) : ∃ d', Step getMD5String d e d' := by
  cases e with
  | called m r =>
    by_cases hr : r = some true
    · obtain ⟨d', hm⟩ := @may_succeed getMD5String m d
      subst hr
      exact ⟨d', .called hm⟩
    · exact ⟨d, .called (ends_of_failure hr (may_fail m d))⟩
  | formatted => exact ⟨∅, .formatted d⟩

theorem exists_run (h : List Event) : ∃ d, Run getMD5String h d := by
  induction h using List.reverseRec with
  | nil => exact ⟨∅, .start⟩
  | append_singleton h e ih =>
    obtain ⟨d, hd⟩ := ih
    obtain ⟨d', hs⟩ := exists_step d e
    exact ⟨d', hd.step hs⟩

theorem exists_step_keeping (d : Disk) (he : ¬ Settles f e) :
    ∃ d', Step getMD5String d e d' ∧ d'.lookup (mainFileName f) = d.lookup (mainFileName f) ∧
      d'.lookup (mainMd5FileName f) = d.lookup (mainMd5FileName f) := by
  cases e with
  | formatted => exact absurd trivial he
  | called m r =>
    by_cases hf : m.filename = f
    · have hr : r ≠ some true := fun hr => he (settles_called.mpr ⟨hr, hf⟩)
      exact ⟨d, .called (ends_of_failure hr (may_fail m d)), rfl, rfl⟩
    · obtain ⟨d', hs⟩ := @exists_step getMD5String d (.called m r)
      refine ⟨d', hs, ?_⟩
      cases hs with
      | called hends =>
        obtain ⟨D, P, hd⟩ := called_confined hends
        exact ⟨hd.other_data f (Ne.symm hf), hd.other_digest f (Ne.symm hf)⟩

end Steps

section Histories

variable {h : List Event} {r : Option Bool}

theorem save_leaves (hp : p <+: c) (hr : r = some true → p = c) (d : Disk) :
    ∃ d', Step getMD5String d (.called (.save c f) r) d' ∧ dataOf d' (mainFileName f) = p := by
  by_cases hs : r = some true
  · obtain rfl := hr hs
    subst hs
    refine ⟨_, .called (may_retry_at_once (by decide) ⟨_, passed_plays⟩), ?_⟩
    rw [dataOf, loadable, certified_data]
    rfl
  · have hplay : ∀ d, (md5SaveTry getMD5String c f false).Plays fallible d (cutShort p) false
        (d.insert (mainFileName f) p) := fun d => cutShort_plays hp
    have hthree : Failing fallible (md5SaveTry getMD5String c f false)
        [cutShort p, cutShort p, cutShort p] d
        (((d.insert (mainFileName f) p).insert (mainFileName f) p).insert (mainFileName f) p) :=
      ⟨_, hplay _, _, hplay _, _, hplay _, rfl⟩
    refine ⟨_, .called (ends_of_failure hs (may_retry_false hthree)), ?_⟩
    rw [dataOf, AList.lookup_insert, Option.getD_some]

theorem append_leaves (hlen : pieces.length ≤ 3) (hpieces : ∀ p ∈ pieces, p <+: c)
    (hr : r = some true → pieces.getLast? = some c) (d : Disk) :
    ∃ d', Step getMD5String d (.called (.append c f) r) d' ∧
      dataOf d' (mainFileName f) = dataOf d (mainFileName f) ++ pieces.flatten := by
  by_cases hs : r = some true
  · obtain ⟨qs, rfl⟩ := List.getLast?_eq_some_iff.mp (hr hs)
    subst hs
    rw [List.length_append, List.length_singleton] at hlen
    obtain ⟨u, hm, hdata⟩ := @append_whole getMD5String c f qs (by omega)
      (fun q hq => hpieces q (List.mem_append_left _ hq)) d true
    refine ⟨_, .called hm, ?_⟩
    rw [dataOf, loadable, certified_data, Option.getD_some, hdata]
    simp [base]
  · obtain ⟨u, hm, hdata⟩ := @append_pieces getMD5String c f pieces hlen hpieces d
    exact ⟨u, .called (ends_of_failure hs hm), hdata⟩

theorem delete_leaves (r : Option Bool) (d : Disk) :
    ∃ d', Step getMD5String d (.called (.delete f) r) d' ∧ dataOf d' (mainFileName f) = [] := by
  by_cases hs : r = some true
  · subst hs
    refine ⟨_, .called ⟨[.ok, .ok], .ok, [.ok], rfl, .ok, [], rfl, rfl, rfl, rfl⟩, ?_⟩
    simp [dataOf, fallible, Disk.answer]
  · have hm : May fallible (deleteFile .modeUseMd5 f) d false (d.erase (mainFileName f)) :=
      ⟨[.ok, .fail .unchanged], .ok, [.fail .unchanged], rfl, .fail .unchanged, [], rfl, rfl, rfl,
        rfl⟩
    refine ⟨_, .called (ends_of_failure hs hm), ?_⟩
    rw [dataOf, AList.lookup_erase, Option.getD_none]

theorem assembled_reached (hx : Assembled f h x) :
    ∃ d, Run getMD5String h d ∧ dataOf d (mainFileName f) = x := by
  induction hx with
  | start => exact ⟨∅, .start, rfl⟩
  | @save h c p r hp hr =>
    obtain ⟨d, hd⟩ := @exists_run getMD5String h
    obtain ⟨d', hs, hdata⟩ := save_leaves hp hr d
    exact ⟨d', hd.step hs, hdata⟩
  | append _ hlen hpieces hr ih =>
    obtain ⟨d, hd, rfl⟩ := ih
    obtain ⟨d', hs, hdata⟩ := append_leaves hlen hpieces hr d
    exact ⟨d', hd.step hs, hdata⟩
  | @delete h r =>
    obtain ⟨d, hd⟩ := @exists_run getMD5String h
    obtain ⟨d', hs, hdata⟩ := delete_leaves r d
    exact ⟨d', hd.step hs, hdata⟩
  | @formatted h =>
    obtain ⟨d, hd⟩ := @exists_run getMD5String h
    exact ⟨∅, hd.step (.formatted d), rfl⟩
  | other _ he ih =>
    obtain ⟨d, hd, rfl⟩ := ih
    obtain ⟨d', hs, hdata, -⟩ := exists_step_keeping d he
    exact ⟨d', hd.step hs, by rw [dataOf, hdata, dataOf]⟩

/-- What a call may leave with either result it may leave when it is cut off. -/
theorem ends_of_either {p : DriverProgram Bool} {d : Disk} {Q : Disk → Prop}
    (h : ∀ b, ∃ d', May fallible p d b d' ∧ Q d') (r : Option Bool) :
    ∃ d', Ends fallible p d r d' ∧ Q d' := by
  cases r with
  | none =>
    obtain ⟨d', hm, hq⟩ := h true
    exact ⟨d', cut_of_may hm, hq⟩
  | some b => exact h b

theorem loadable_lookup {d : Disk} (hx : base append (dataOf d (mainFileName f)) ++ c = x) :
    (loadable getMD5String append c f d).lookup (mainFileName f) = some x ∧
      (loadable getMD5String append c f d).lookup (mainMd5FileName f) = some (getMD5String x) := by
  subst hx
  exact ⟨certified_data, certified_digest⟩

theorem save_whole (d : Disk) (b : Bool) :
    ∃ d', May fallible (saveInMd5Mode getMD5String c f false) d b d' ∧
      d'.lookup (mainFileName f) = some c ∧
      d'.lookup (mainMd5FileName f) = some (getMD5String c) := by
  cases b with
  | true =>
    refine ⟨_, may_retry_at_once (by decide) ⟨_, passed_plays⟩, ?_⟩
    exact loadable_lookup rfl
  | false =>
    have hthree : Failing fallible (md5SaveTry getMD5String c f false)
        (List.replicate 3 [.ok, .ok, .ok, .ok, .fail .unchanged]) d _ :=
      ⟨_, unread_plays, _, unread_plays, _, unread_plays, rfl⟩
    refine ⟨_, may_retry_false hthree, ?_⟩
    exact loadable_lookup rfl

theorem whole_reached (hx : Whole f h x) :
    ∃ d, Run getMD5String h d ∧ d.lookup (mainFileName f) = some x ∧
      d.lookup (mainMd5FileName f) = some (getMD5String x) := by
  induction hx with
  | @save h c r =>
    obtain ⟨d, hd⟩ := @exists_run getMD5String h
    obtain ⟨d', hs, hlookup⟩ := ends_of_either (@save_whole getMD5String c f d) r
    exact ⟨d', hd.step (.called hs), hlookup⟩
  | @append h x c r pieces hx hlen hpieces =>
    obtain ⟨d, hd, rfl⟩ := @assembled_reached getMD5String f x h hx
    obtain ⟨d', hs, hlookup⟩ := ends_of_either (p := saveInMd5Mode getMD5String c f true)
      (Q := fun t => t.lookup (mainFileName f) =
          some (dataOf d (mainFileName f) ++ pieces.flatten ++ c) ∧
        t.lookup (mainMd5FileName f) =
          some (getMD5String (dataOf d (mainFileName f) ++ pieces.flatten ++ c)))
      (fun b => by
        obtain ⟨u, hm, hdata⟩ := @append_whole getMD5String c f pieces hlen hpieces d b
        exact ⟨_, hm, loadable_lookup (by rw [hdata]; rfl)⟩) r
    exact ⟨d', hd.step (.called hs), hlookup⟩
  | other _ he ih =>
    obtain ⟨d, hd, hdata, hdigest⟩ := ih
    obtain ⟨d', hs, hdata', hdigest'⟩ := exists_step_keeping d he
    exact ⟨d', hd.step hs, hdata'.trans hdata, hdigest'.trans hdigest⟩

theorem whole_loads (hx : Whole f h x) :
    ∃ d d', Run getMD5String h d ∧
      May fallible (loadContentFromFile getMD5String .modeUseMd5 f) d (true, x) d' := by
  obtain ⟨d, hr, hlookup⟩ := @whole_reached getMD5String f x h hx
  have hload := load_md5_eq_true.mpr hlookup
  have hm := @may_run _ _ _ _ fallible Disk.answer .ok (fun _ _ => rfl)
    (loadContentFromFile getMD5String .modeUseMd5 f) d
  rw [← load, hload] at hm
  exact ⟨d, _, hr, hm⟩

/-- After a history of saves, appends and deletions that may fail and be cut off, the contents
that may be loaded under a name are the whole ones, and each of them may. -/
theorem loadable_iff (getMD5String : Bytes → Bytes) (L : ℕ)
    (hL : ∀ x, (getMD5String x).length = L) (h : List Event) (f : Bytes)
    (hinj : Set.InjOn getMD5String {x | Assembled f h x}) (c : Bytes) :
    (∃ d d', Run getMD5String h d ∧
      May fallible (loadContentFromFile getMD5String .modeUseMd5 f) d (true, c) d') ↔
    Whole f h c := by
  constructor
  · rintro ⟨d, d', hr, hload⟩
    exact whole_of_load hL hr hinj hload
  · exact whole_loads

theorem assembled_concat {e : Event} (hx : Assembled f (h ++ [e]) x) :
    (∃ c r, e = .called (.save c f) r ∧ x <+: c ∧ (r = some true → x = c)) ∨
    (∃ c r y, ∃ pieces : List Bytes, e = .called (.append c f) r ∧ Assembled f h y ∧
      pieces.length ≤ 3 ∧ (∀ p ∈ pieces, p <+: c) ∧ x = y ++ pieces.flatten) ∨
    ((e = .formatted ∨ ∃ r, e = .called (.delete f) r) ∧ x = []) ∨
    (Assembled f h x ∧ ¬ Settles f e) := by
  generalize hl : h ++ [e] = l at hx
  cases hx with
  | start => simp at hl
  | save hp hr =>
    obtain ⟨rfl, rfl⟩ := List.append_singleton_inj.mp hl
    exact Or.inl ⟨_, _, rfl, hp, hr⟩
  | append hy hlen hpieces hr =>
    obtain ⟨rfl, rfl⟩ := List.append_singleton_inj.mp hl
    exact Or.inr (Or.inl ⟨_, _, _, _, rfl, hy, hlen, hpieces, rfl⟩)
  | delete =>
    obtain ⟨rfl, rfl⟩ := List.append_singleton_inj.mp hl
    exact Or.inr (Or.inr (Or.inl ⟨Or.inr ⟨_, rfl⟩, rfl⟩))
  | formatted =>
    obtain ⟨rfl, rfl⟩ := List.append_singleton_inj.mp hl
    exact Or.inr (Or.inr (Or.inl ⟨Or.inl rfl, rfl⟩))
  | other hx he =>
    obtain ⟨rfl, rfl⟩ := List.append_singleton_inj.mp hl
    exact Or.inr (Or.inr (Or.inr ⟨hx, he⟩))

theorem assembled_saved (hx : Assembled f (h ++ [.called (.save c f) (some true)]) x) : x = c := by
  rcases assembled_concat hx with ⟨c', r, heq, -, hr⟩ | ⟨_, _, _, _, heq, -⟩ | ⟨heq, -⟩ | ⟨-, hs⟩
  · obtain ⟨⟨rfl, -⟩, rfl⟩ : (c = c' ∧ f = f) ∧ some true = r := by simpa using heq
    exact hr rfl
  · simp at heq
  · simp at heq
  · exact absurd (settles_called.mpr ⟨rfl, rfl⟩) hs

/-- An append of one byte that failed may have left it as often as there were tries. -/
theorem assembled_byte {b : UInt8} {r : Option Bool}
    (hx : Assembled f (h ++ [.called (.save c f) (some true)] ++ [.called (.append [b] f) r]) x) :
    ∃ n, n ≤ 3 ∧ x = c ++ List.replicate n b := by
  rcases assembled_concat hx with ⟨_, _, heq, -⟩ |
    ⟨c', r', y, pieces, heq, hy, hlen, hpieces, rfl⟩ | ⟨heq, -⟩ | ⟨hx, -⟩
  · simp at heq
  · obtain ⟨⟨rfl, -⟩, -⟩ : ([b] = c' ∧ f = f) ∧ r = r' := by simpa using heq
    obtain rfl := assembled_saved hy
    have hbytes : ∀ a ∈ pieces.flatten, a = b := by
      intro a ha
      obtain ⟨p, hp, hap⟩ := List.mem_flatten.mp ha
      exact List.mem_singleton.mp ((hpieces p hp).subset hap)
    have hone : ∀ n ∈ pieces.map List.length, n ≤ 1 := by
      intro n hn
      obtain ⟨p, hp, rfl⟩ := List.mem_map.mp hn
      exact (hpieces p hp).length_le
    have hsum := List.sum_le_card_nsmul _ 1 hone
    refine ⟨pieces.flatten.length, ?_, by rw [← List.eq_replicate_of_mem hbytes]⟩
    rw [List.length_flatten]
    simp only [List.length_map, smul_eq_mul, Nat.mul_one] at hsum
    omega
  · simp at heq
  · exact ⟨0, Nat.zero_le 3, by rw [assembled_saved hx, List.replicate_zero, List.append_nil]⟩

/-- A digest that tells contents of fewer than 256 bytes apart by their length. -/
def lengthDigest (x : Bytes) : Bytes := List.replicate 32 (UInt8.ofNat x.length)

/-- An append whose digest could not be read back reports failure, and what it left loads. -/
theorem loadable_iff_sample :
    (∃ d d', Run lengthDigest [.called (.save (ascii "a") (ascii "f")) (some true),
        .called (.append (ascii "b") (ascii "f")) (some false)] d ∧
      May fallible (loadContentFromFile lengthDigest .modeUseMd5 (ascii "f")) d
        (true, ascii "ab") d') ↔
    Whole (ascii "f") [.called (.save (ascii "a") (ascii "f")) (some true),
      .called (.append (ascii "b") (ascii "f")) (some false)] (ascii "ab") := by
  refine loadable_iff lengthDigest 32 (fun x => List.length_replicate) _ _ ?_ _
  intro x hx y hy heq
  obtain ⟨n, hn, rfl⟩ := @assembled_byte (ascii "a") (ascii "f") x [] _ _ hx
  obtain ⟨m, hm, rfl⟩ := @assembled_byte (ascii "a") (ascii "f") y [] _ _ hy
  have hlength : ∀ n ≤ 3, ∀ m ≤ 3, UInt8.ofNat (1 + n) = UInt8.ofNat (1 + m) → n = m := by decide
  have hbyte := List.head_eq_of_cons_eq heq
  rw [List.length_append, List.length_append, List.length_replicate, List.length_replicate] at hbyte
  rw [hlength n hn m hm hbyte]

end Histories

end LoadableContents
