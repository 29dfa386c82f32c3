import Esp32Utils.ByteStrings
import Mathlib.Data.List.Basic
import Mathlib.Algebra.GroupWithZero.Nat

/-! # The body of a request

`Webserver::getContent` receives until as many bytes have come as the header announced.
The receive calls answer with the given results, one after the other; `none` means that
the loop is still waiting when they are used up. -/
namespace RequestContent

open ByteStrings

def httpdSockErrTimeout : ℤ := -3

/-- A request, with the part of its body that has not been received. -/
structure HttpdReq where
  contentLen : ℕ
  body : Bytes

def overwrite (memory : Bytes) (pos : ℕ) (bs : Bytes) : Bytes :=
  memory.take pos ++ bs ++ memory.drop (pos + bs.length)

/-- The receiving loop. Every call is given the start of `ret`. -/
def receive : List ℤ → Bytes → ℕ → Bytes → Option Bytes
  | [], _, remaining, ret => if remaining > 0 then none else some ret
  | bytesRead :: results, body, remaining, ret =>
    if remaining > 0 then
      if bytesRead ≤ 0 then
        if bytesRead = httpdSockErrTimeout then receive results body remaining ret
        else some []
      else
        receive results (body.drop bytesRead.toNat) (remaining - bytesRead.toNat)
          (overwrite ret 0 (body.take bytesRead.toNat))
    else some ret

def getContent (req : Option HttpdReq) (results : List ℤ) : Option Bytes :=
  match req with
  | none => some []
  | some req => receive results req.body req.contentLen (List.replicate req.contentLen 0)

def Uninterrupted (results : List ℤ) : Prop :=
  ∀ r ∈ results, 0 < r ∨ r = httpdSockErrTimeout

def sizes (results : List ℤ) : List ℕ := (results.filter (0 < ·)).map Int.toNat

def pieces : List ℕ → Bytes → List Bytes
  | [], _ => []
  | k :: ks, body => body.take k :: pieces ks (body.drop k)

/-- The byte that the last chunk long enough has at a position. -/
def lastByte (chunks : List Bytes) (i : ℕ) : UInt8 :=
  (chunks.reverse.findSome? fun chunk => chunk[i]?).getD 0

def Delivered (body : Bytes) (results : List ℤ) : Prop :=
  Uninterrupted results ∧ (sizes results).sum = body.length

def CutOff (body : Bytes) (results : List ℤ) : Prop :=
  ∃ before r after, results = before ++ r :: after ∧ Uninterrupted before ∧
    (sizes before).sum < body.length ∧ r ≤ 0 ∧ r ≠ httpdSockErrTimeout

def laidOver (chunks : List Bytes) (ret : Bytes) : Bytes :=
  chunks.foldl (fun ret c => overwrite ret 0 c) ret

section Loop

variable {results before : List ℤ} {body ret bs : Bytes} {remaining i : ℕ} {chunks : List Bytes}

@[simp] theorem receive_zero : receive results body 0 ret = some ret := by
  cases results <;> rfl

theorem overwrite_zero_getElem? : (overwrite ret 0 bs)[i]? = bs[i]?.or ret[i]? := by
  simp only [overwrite, List.take_zero, List.nil_append, Nat.zero_add]
  by_cases hi : i < bs.length
  · rw [List.getElem?_append_left hi, List.getElem?_eq_getElem hi, Option.some_or]
  · have hbs : bs[i]? = none := List.getElem?_eq_none (by omega)
    rw [List.getElem?_append_right (by omega), List.getElem?_drop, hbs, Option.none_or]
    congr 1
    omega

theorem overwrite_zero_length (h : bs.length ≤ ret.length) :
    (overwrite ret 0 bs).length = ret.length := by
  simp only [overwrite, List.take_zero, List.nil_append, List.length_append, List.length_drop]
  omega

theorem laidOver_getElem? :
    (laidOver chunks ret)[i]? = (chunks.reverse.findSome? fun chunk => chunk[i]?).or ret[i]? := by
  induction chunks generalizing ret with
  | nil => rfl
  | cons c chunks ih =>
    change (laidOver chunks (overwrite ret 0 c))[i]? = _
    rw [ih, overwrite_zero_getElem?, List.reverse_cons, List.findSome?_append, Option.or_assoc]
    congr 2
    simp

theorem laidOver_length (h : ∀ c ∈ chunks, c.length ≤ ret.length) :
    (laidOver chunks ret).length = ret.length := by
  induction chunks generalizing ret with
  | nil => rfl
  | cons c chunks ih =>
    have hc := overwrite_zero_length (h c List.mem_cons_self)
    change (laidOver chunks (overwrite ret 0 c)).length = _
    rw [ih, hc]
    intro d hd
    rw [hc]
    exact h d (List.mem_cons_of_mem _ hd)

theorem pieces_length_le {ks : List ℕ} {c : Bytes} (h : c ∈ pieces ks body) :
    c.length ≤ body.length := by
  induction ks generalizing body with
  | nil => cases h
  | cons k ks ih =>
    rcases List.mem_cons.mp h with rfl | h
    · exact List.length_take_le' _ _
    · have hc := ih h
      rw [List.length_drop] at hc
      omega

theorem sizes_cons_pos {r : ℤ} (h : 0 < r) :
    sizes (r :: results) = r.toNat :: sizes results := by
  simp [sizes, h]

theorem sizes_cons_nonpos {r : ℤ} (h : r ≤ 0) : sizes (r :: results) = sizes results := by
  simp [sizes, h]

theorem receive_uninterrupted {rest : List ℤ} (hu : Uninterrupted before)
    (hs : (sizes before).sum ≤ remaining) :
    receive (before ++ rest) body remaining ret =
      receive rest (body.drop (sizes before).sum) (remaining - (sizes before).sum)
        (laidOver (pieces (sizes before) body) ret) := by
  induction before generalizing body remaining ret with
  | nil => rfl
  | cons r before ih =>
    have hu' : Uninterrupted before := fun q hq => hu q (List.mem_cons_of_mem _ hq)
    rcases hu r List.mem_cons_self with hr | hr
    · rw [sizes_cons_pos hr, List.sum_cons] at hs ⊢
      have hpos : remaining > 0 := by omega
      rw [List.cons_append, receive, if_pos hpos, if_neg (by omega), ih hu' (by omega),
        List.drop_drop, Nat.sub_add_eq]
      rfl
    · have hneg : r ≤ 0 := by
        rw [hr]
        decide
      rw [sizes_cons_nonpos hneg] at hs ⊢
      by_cases hpos : remaining > 0
      · rw [List.cons_append, receive, if_pos hpos, if_pos hneg, if_pos hr, ih hu' hs]
      · have hzero : remaining = 0 := by omega
        have hrest := @ih body ret remaining hu' hs
        subst remaining
        rw [receive_zero] at hrest ⊢
        exact hrest

end Loop

section Deliveries

variable {results : List ℤ} {body : Bytes} {chunks : List Bytes}

theorem getContent_delivered (h : Delivered body results) :
    getContent (some ⟨body.length, body⟩) results =
      some (laidOver (pieces (sizes results) body) (List.replicate body.length 0)) := by
  have hrun := @receive_uninterrupted results body (List.replicate body.length 0) body.length []
    h.1 h.2.le
  rw [List.append_nil, h.2, Nat.sub_self, receive_zero] at hrun
  exact hrun

theorem getContent_cutOff (h : CutOff body results) :
    getContent (some ⟨body.length, body⟩) results = some [] := by
  obtain ⟨before, r, after, rfl, hu, hs, hr, hne⟩ := h
  have hpos : body.length - (sizes before).sum > 0 := by omega
  rw [getContent, receive_uninterrupted hu hs.le, receive, if_pos hpos, if_pos hr, if_neg hne]

theorem laidOver_eq_iff (h : ∀ c ∈ chunks, c.length ≤ body.length) :
    laidOver chunks (List.replicate body.length 0) = body ↔
      ∀ i, i < body.length → body[i]? = some (lastByte chunks i) := by
  have hbyte : ∀ i, i < body.length →
      (laidOver chunks (List.replicate body.length 0))[i]? = some (lastByte chunks i) := by
    intro i hi
    rw [laidOver_getElem?, List.getElem?_replicate, if_pos hi, lastByte]
    cases chunks.reverse.findSome? fun chunk => chunk[i]? with
    | none => rfl
    | some b => rfl
  constructor
  · intro heq i hi
    rw [← hbyte i hi, heq]
  · intro hall
    have hlength : (laidOver chunks (List.replicate body.length 0)).length = body.length := by
      rw [laidOver_length, List.length_replicate]
      intro c hc
      rw [List.length_replicate]
      exact h c hc
    apply List.ext_getElem?
    intro i
    by_cases hi : i < body.length
    · rw [hbyte i hi, hall i hi]
    · rw [List.getElem?_eq_none (by omega), List.getElem?_eq_none (by omega)]

end Deliveries

/-- A whole delivery gives the body back exactly when every byte of it is the one that the last
chunk long enough to have a byte at its position has there. -/
theorem delivered_right_iff (body : Bytes) {results : List ℤ} (hd : Delivered body results) :
    getContent (some ⟨body.length, body⟩) results = some body ↔
      ∀ i, i < body.length → body[i]? = some (lastByte (pieces (sizes results) body) i) := by
  rw [getContent_delivered hd, Option.some.injEq]
  exact laidOver_eq_iff fun c hc => pieces_length_le hc

section Sizes

variable {ks : List ℕ} {k : ℕ} {body : Bytes} {results : List ℤ}

theorem pieces_append_singleton :
    pieces (ks ++ [k]) body = pieces ks body ++ [(body.drop ks.sum).take k] := by
  induction ks generalizing body with
  | nil => rfl
  | cons j ks ih => rw [List.cons_append, pieces, ih, pieces, List.drop_drop, List.sum_cons,
      List.cons_append]

theorem sizes_pos (h : k ∈ sizes results) : 0 < k := by
  simp only [sizes, List.mem_map, List.mem_filter, decide_eq_true_eq] at h
  obtain ⟨r, ⟨-, hr⟩, rfl⟩ := h
  omega

theorem lastByte_append_singleton {chunks : List Bytes} {last : Bytes} {b : UInt8} {i : ℕ}
    (h : last[i]? = some b) : lastByte (chunks ++ [last]) i = b := by
  simp [lastByte, h]

theorem lastByte_pieces_zero {n : ℕ} {b : UInt8} (hks : 0 < ks.sum) (hk : 0 < k)
    (hn : (ks ++ [k]).sum = n + 1) :
    lastByte (pieces (ks ++ [k]) (b :: List.replicate n 0)) 0 = 0 := by
  simp only [List.sum_append, List.sum_cons, List.sum_nil, Nat.add_zero] at hn
  rw [pieces_append_singleton]
  apply lastByte_append_singleton
  obtain ⟨m, hm⟩ := Nat.exists_eq_add_of_lt hks
  rw [Nat.zero_add] at hm
  rw [List.getElem?_take_of_lt hk, List.getElem?_drop, hm, Nat.add_zero, List.getElem?_cons_succ,
    List.getElem?_replicate, if_pos (by omega)]

/-- A delivery in two chunks or more gives some body back wrong: one that begins with the only
byte that is not zero. -/
theorem exists_wrong (hu : Uninterrupted results) (h : 1 < (sizes results).length) :
    ∃ body, Delivered body results ∧
      getContent (some ⟨body.length, body⟩) results ≠ some body := by
  obtain ⟨ks, k, hks⟩ := (List.eq_nil_or_concat' (sizes results)).resolve_left fun hnil => by
    simp [hnil] at h
  have hk : 0 < k := sizes_pos (hks ▸ List.mem_append_right ks List.mem_cons_self)
  have hsum : 0 < ks.sum := by
    cases ks with
    | nil => simp [hks] at h
    | cons j ks =>
      have hj : 0 < j := sizes_pos (hks ▸ List.mem_append_left [k] List.mem_cons_self)
      rw [List.sum_cons]
      omega
  obtain ⟨n, hn⟩ : ∃ n, (sizes results).sum = n + 1 := by
    rw [hks, List.sum_append]
    exact Nat.exists_eq_succ_of_ne_zero (by omega)
  have hd : Delivered (1 :: List.replicate n 0) results := ⟨hu, by simp [hn]⟩
  refine ⟨_, hd, fun hright => ?_⟩
  have hfirst := (delivered_right_iff _ hd).mp hright 0 (by simp)
  rw [hks, lastByte_pieces_zero hsum hk (hks ▸ hn)] at hfirst
  exact absurd hfirst (by simp)

theorem delivered_at_once (hd : Delivered body results) (h : (sizes results).length ≤ 1) :
    getContent (some ⟨body.length, body⟩) results = some body := by
  rw [delivered_right_iff body hd]
  intro i hi
  have hbody := hd.2
  match hs : sizes results with
  | [] =>
    rw [hs, List.sum_nil] at hbody
    omega
  | [k] =>
    rw [hs, List.sum_singleton] at hbody
    simp [pieces, lastByte, hbody, hi]
  | _ :: _ :: _ => simp [hs] at h

end Sizes

/-- A way of delivery gives back whatever body is delivered, and nothing of one that is cut off,
exactly when the bodies come in one chunk at most. -/
theorem getContent_right_iff (results : List ℤ) :
    (∀ body : Bytes,
      (Delivered body results → getContent (some ⟨body.length, body⟩) results = some body) ∧
      (CutOff body results → getContent (some ⟨body.length, body⟩) results = some [])) ↔
    (Uninterrupted results → (sizes results).length ≤ 1) := by
  constructor
  · intro h hu
    by_contra hlen
    obtain ⟨body, hd, hwrong⟩ := exists_wrong hu (Nat.lt_of_not_le hlen)
    exact hwrong ((h body).1 hd)
  · intro h body
    exact ⟨fun hd => delivered_at_once hd (h hd.1), getContent_cutOff⟩

/-- Four bytes in two chunks come back as the second chunk and two NULs. -/
theorem getContent_overwrites :
    Delivered (ascii "abcd") [2, 2] ∧
      getContent (some ⟨4, ascii "abcd"⟩) [2, 2] = some (ascii "cd" ++ [0, 0]) ∧
      getContent (some ⟨4, ascii "abcd"⟩) [2, 2] ≠ some (ascii "abcd") := by
  refine ⟨⟨?_, ?_⟩, ?_, ?_⟩
  · intro r hr
    simp only [List.mem_cons, List.not_mem_nil, or_false, or_self] at hr
    rw [hr]
    decide
  · decide
  · decide
  · decide

end RequestContent
