import Esp32Utils.HttpUtils

/-! # The URLs that are accepted

Every URL with a marker falls into protocol, host and target, and the four functions are
read off its parts. -/
namespace UrlGrammar

open ByteStrings FirstOccurrence StdString HttpUtils

/-- A URL around its first marker; the host ends before the first slash behind it. -/
structure Parts (url p h t : Bytes) : Prop where
  url_eq : url = p ++ (protocolMarker ++ (h ++ t))
  first : firstOccurrence protocolMarker url 0 = some p.length
  host : slash ∉ h
  target : t = [] ∨ ∃ u, t = slash :: u

section Parts

variable {lib : StringUtils} {url p h t out : Bytes}

theorem host_and_target (s : Bytes) :
    ∃ h t, s = h ++ t ∧ slash ∉ h ∧ (t = [] ∨ ∃ u, t = slash :: u) := by
  by_cases hmem : slash ∈ s
  · obtain ⟨h, u, rfl, hh⟩ := List.eq_append_cons_of_mem hmem
    exact ⟨h, slash :: u, rfl, hh, Or.inr ⟨u, rfl⟩⟩
  · exact ⟨s, [], (List.append_nil s).symm, hmem, Or.inl rfl⟩

theorem parts_of_first {i : ℕ} (hf : firstOccurrence protocolMarker url 0 = some i) :
    ∃ p h t, Parts url p h t := by
  obtain ⟨p, s, hurl, hp⟩ := firstOccurrence_splits hf
  obtain ⟨h, t, rfl, hh, ht⟩ := host_and_target s
  exact ⟨p, h, t, hurl, hp ▸ hf, hh, ht⟩

theorem marker_length : protocolMarker.length = 3 := by decide

theorem Parts.length_eq (hp : Parts url p h t) :
    url.length = p.length + 3 + h.length + t.length := by
  rw [hp.url_eq]
  simp only [List.length_append, marker_length]
  omega

theorem Parts.getProtocolIndex_eq (hp : Parts url p h t) : getProtocolIndex url = p.length := by
  rw [getProtocolIndex, find, hp.first, Option.getD_some]

theorem Parts.protocolIndex_eq (hp : Parts url p h t) (hlen : url.length < 2 ^ 31) :
    toInt (getProtocolIndex url) = p.length := by
  have hl := hp.length_eq
  rw [hp.getProtocolIndex_eq]
  exact toInt_of_lt (by omega)

theorem toInt_marker : toInt protocolMarker.length = 3 := by decide

theorem Parts.hostStart_eq (hp : Parts url p h t) (hlen : url.length < 2 ^ 31) :
    toSize (p.length + 3) = (p ++ protocolMarker).length := by
  have hl := hp.length_eq
  rw [toSize_of_nonneg (by omega) (by omega), List.length_append, marker_length]
  omega

/-- The slash that ends the host, or -1 when there is none. -/
theorem Parts.slashIndex_eq (hp : Parts url p h t) (hlen : url.length < 2 ^ 31) :
    toInt (find url [slash] (p ++ protocolMarker).length) =
      if t = [] then -1 else (p.length + 3 + h.length : ℤ) := by
  have hl := hp.length_eq
  have hurl : url = (p ++ protocolMarker) ++ (h ++ t) := by
    rw [hp.url_eq, List.append_assoc]
  rw [hurl, find_append_zero]
  rcases hp.target with rfl | ⟨u, rfl⟩
  · rw [List.append_nil, firstOccurrence_absent hp.host, Option.map_none, Option.getD_none,
      toInt_npos, if_pos rfl]
  · have hs : firstOccurrence [slash] (h ++ slash :: u) 0 = some h.length :=
      firstOccurrence_behind hp.host
    rw [hs, Option.map_some, Option.getD_some, toInt_of_lt, if_neg (List.cons_ne_nil _ _)]
    · simp only [List.length_append, marker_length]
      omega
    · simp only [List.length_append, marker_length]
      omega

def Accepted (lib : StringUtils) (url p h : Bytes) : Prop :=
  lib.containsSpace url = false ∧
    (lib.caseInsEquals p (ascii "http") = true ∨ lib.caseInsEquals p (ascii "https") = true) ∧
    h ≠ []

instance (lib : StringUtils) (url p h : Bytes) : Decidable (Accepted lib url p h) :=
  inferInstanceAs (Decidable (_ ∧ _ ∧ _))

theorem Parts.protocol_eq (hp : Parts url p h t) (hlen : url.length < 2 ^ 31) :
    substr url 0 (toSize p.length) = some p := by
  have hl := hp.length_eq
  rw [toSize_of_nonneg (by omega) (by omega), Int.toNat_natCast, hp.url_eq, substr_zero_length]

theorem Parts.hostLength_eq (hp : Parts url p h t) (hlen : url.length < 2 ^ 31) :
    let slashIndex := toInt (find url [slash] (p ++ protocolMarker).length)
    (if slashIndex > 0 then slashIndex - ((p.length : ℤ) + 3)
      else toInt (toSize (url.length - ((p.length : ℤ) + 3)))) = h.length := by
  have hl := hp.length_eq
  intro slashIndex
  have hs : slashIndex = _ := hp.slashIndex_eq hlen
  rw [hs]
  by_cases ht : t = []
  · subst t
    rw [if_pos rfl, if_neg (by omega), toSize_of_nonneg (by omega) (by omega), toInt_of_lt]
    · simp only [List.length_nil] at hl
      omega
    · omega
  · rw [if_neg ht, if_pos (by omega)]
    omega

theorem Parts.isUrlCorrect_eq (hp : Parts url p h t) (hlen : url.length < 2 ^ 31) :
    isUrlCorrect lib url = some (decide (Accepted lib url p h)) := by
  have hl := hp.length_eq
  have hhost := hp.hostLength_eq hlen
  have hne : url.length ≠ 0 := by omega
  have hpos : ¬ (p.length : ℤ) < 0 := by omega
  simp only [isUrlCorrect, hp.protocolIndex_eq hlen, toInt_marker, hp.hostStart_eq hlen,
    hp.protocol_eq hlen, hhost, hne, hpos, if_false, Option.bind_eq_bind, Option.bind_some]
  have hempty : (h.length : ℤ) ≤ 0 ↔ h = [] := by
    rw [← List.length_eq_zero_iff]
    omega
  simp only [hempty]
  cases hs : lib.containsSpace url with
  | true => simp [Accepted, hs]
  | false =>
    by_cases hproto : lib.caseInsEquals p (ascii "http") = false ∧
        lib.caseInsEquals p (ascii "https") = false
    · simp [Accepted, hs, hproto]
    · rw [if_neg hproto]
      rw [not_and_or, Bool.not_eq_false, Bool.not_eq_false] at hproto
      by_cases hh : h = []
      · simp [Accepted, hh]
      · simp [Accepted, hs, hproto, hh]

theorem isUrlCorrect_of_absent (hn : firstOccurrence protocolMarker url 0 = none) :
    isUrlCorrect lib url = some false := by
  have hi : getProtocolIndex url = npos := by rw [getProtocolIndex, find, hn, Option.getD_none]
  have hneg : (-1 : ℤ) < 0 := by decide
  by_cases hlen : url.length = 0
  · simp [isUrlCorrect, hlen]
  · cases hs : lib.containsSpace url with
    | true => simp [isUrlCorrect, hlen, hs]
    | false => simp [isUrlCorrect, hlen, hs, hi]

theorem Parts.getProtocolFromUrl_eq (hp : Parts url p h t) (hlen : url.length < 2 ^ 31) :
    getProtocolFromUrl url out = some (true, p) := by
  have hl := hp.length_eq
  have hne : npos ≠ p.length := by
    unfold npos
    omega
  have hsub : substr url 0 p.length = some p := by rw [hp.url_eq, substr_zero_length]
  simp only [getProtocolFromUrl, hp.getProtocolIndex_eq, if_neg hne, hsub]
  rfl

/-- The rest of the URL from the end of the host. -/
def requestTarget (t : Bytes) : Bytes := if t = [] then [slash] else t

theorem Parts.trimHostFromUrl_eq (hp : Parts url p h t) (hlen : url.length < 2 ^ 31)
    (hc : isUrlCorrect lib url = some true) :
    trimHostFromUrl lib url out = some (true, requestTarget t) := by
  have hl := hp.length_eq
  simp only [trimHostFromUrl, hc, hp.protocolIndex_eq hlen, toInt_marker, hp.hostStart_eq hlen,
    hp.slashIndex_eq hlen, Option.bind_eq_bind, Option.bind_some, Bool.true_eq_false, if_false]
  by_cases ht : t = []
  · rw [if_pos ht, if_pos rfl, requestTarget, if_pos ht]
    rfl
  · have hne : (-1 : ℤ) ≠ p.length + 3 + h.length := by omega
    have hpos : toSize (p.length + 3 + h.length) = (p ++ (protocolMarker ++ h)).length := by
      rw [toSize_of_nonneg (by omega) (by omega), List.length_append, List.length_append,
        marker_length]
      omega
    have hurl : url = (p ++ (protocolMarker ++ h)) ++ t := by
      rw [hp.url_eq]
      simp only [List.append_assoc]
    have hsub : substr url (p ++ (protocolMarker ++ h)).length npos = some t := by
      rw [hurl]
      apply substr_append
      unfold npos
      omega
    rw [if_neg ht, if_neg hne, hpos, hsub, requestTarget, if_neg ht]
    rfl

theorem Parts.getHostFromUrl_eq (hp : Parts url p h t) (hlen : url.length < 2 ^ 31)
    (hc : isUrlCorrect lib url = some true) :
    getHostFromUrl lib url out = some (true, h) := by
  have hl := hp.length_eq
  have hurl : url = (p ++ protocolMarker) ++ (h ++ t) := by
    rw [hp.url_eq, List.append_assoc]
  simp only [getHostFromUrl, hc, hp.protocolIndex_eq hlen, toInt_marker, hp.hostStart_eq hlen,
    hp.slashIndex_eq hlen, Option.bind_eq_bind, Option.bind_some, Bool.true_eq_false, if_false]
  by_cases ht : t = []
  · have hneg : ¬ (-1 : ℤ) ≥ 0 := by decide
    have hsub : substr url (p ++ protocolMarker).length npos = some h := by
      rw [hurl, ht, List.append_nil]
      apply substr_append
      unfold npos
      omega
    rw [if_pos ht, if_neg hneg, hsub]
    rfl
  · have hpos : (p.length + 3 + h.length : ℤ) ≥ 0 := by omega
    have hlength : toSize ((p.length + 3 + h.length : ℤ) - (p.length + 3)) = h.length := by
      rw [toSize_of_nonneg (by omega) (by omega)]
      omega
    rw [if_neg ht, if_pos hpos, hlength, hurl, substr_append_length]
    rfl

end Parts

structure Decomposition (url p h t : Bytes) : Prop where
  url_eq : url = p ++ ascii "://" ++ h ++ t
  protocol : p.map asciiLower = ascii "http" ∨ p.map asciiLower = ascii "https"
  host_ne : h ≠ []
  host : slash ∉ h
  target : t = [] ∨ ∃ u, t = slash :: u

section Grammar

variable {lib : StringUtils} {url p h t : Bytes}

theorem Decomposition.colon_not_mem (hd : Decomposition url p h t) : 0x3A ∉ p := by
  intro hmem
  have hlower : 0x3A ∈ p.map asciiLower := List.mem_map.mpr ⟨0x3A, hmem, by decide⟩
  rcases hd.protocol with hp | hp
  · rw [hp] at hlower
    exact absurd hlower (by decide)
  · rw [hp] at hlower
    exact absurd hlower (by decide)

theorem Decomposition.parts (hd : Decomposition url p h t) : Parts url p h t where
  url_eq := by rw [hd.url_eq, List.append_assoc, List.append_assoc, protocolMarker]
  first := by
    rw [hd.url_eq, List.append_assoc, List.append_assoc]
    exact firstOccurrence_behind hd.colon_not_mem
  host := hd.host
  target := hd.target

theorem accepted_iff (hlib : lib.Documented) (hp : Parts url p h t) :
    Accepted lib url p h ↔ space ∉ url ∧ Decomposition url p h t := by
  have hhttp : (ascii "http").map asciiLower = ascii "http" := by decide
  have hhttps : (ascii "https").map asciiLower = ascii "https" := by decide
  rw [Accepted, hlib.caseInsEquals_iff, hlib.caseInsEquals_iff, hhttp, hhttps,
    ← Bool.not_eq_true, hlib.containsSpace_iff]
  constructor
  · intro ha
    obtain ⟨hspace, hproto, hne⟩ := ha
    have hurl : url = p ++ ascii "://" ++ h ++ t := by
      rw [hp.url_eq, protocolMarker]
      simp only [List.append_assoc]
    exact ⟨hspace, hurl, hproto, hne, hp.host, hp.target⟩
  · intro hd
    exact ⟨hd.1, hd.2.protocol, hd.2.host_ne⟩

theorem isUrlCorrect_iff (hlib : lib.Documented) (hlen : url.length < 2 ^ 31) :
    isUrlCorrect lib url = some true ↔ space ∉ url ∧ ∃ p h t, Decomposition url p h t := by
  constructor
  · intro hc
    cases hf : firstOccurrence protocolMarker url 0 with
    | none =>
      rw [isUrlCorrect_of_absent hf] at hc
      cases hc
    | some i =>
      obtain ⟨p, h, t, hp⟩ := parts_of_first hf
      rw [hp.isUrlCorrect_eq hlen, Option.some.injEq, decide_eq_true_eq,
        accepted_iff hlib hp] at hc
      exact ⟨hc.1, p, h, t, hc.2⟩
  · intro hc
    obtain ⟨hspace, p, h, t, hd⟩ := hc
    rw [hd.parts.isUrlCorrect_eq hlen, Option.some.injEq, decide_eq_true_eq,
      accepted_iff hlib hd.parts]
    exact ⟨hspace, hd⟩

theorem isUrlCorrect_total (hlen : url.length < 2 ^ 31) :
    isUrlCorrect lib url = some true ∨ isUrlCorrect lib url = some false := by
  cases hf : firstOccurrence protocolMarker url 0 with
  | none => exact Or.inr (isUrlCorrect_of_absent hf)
  | some i =>
    obtain ⟨p, h, t, hp⟩ := parts_of_first hf
    rw [hp.isUrlCorrect_eq hlen]
    by_cases ha : Accepted lib url p h
    · exact Or.inl (by rw [decide_eq_true ha])
    · exact Or.inr (by rw [decide_eq_false ha])

theorem Decomposition.unique {p' h' t' : Bytes} (hlen : url.length < 2 ^ 31)
    (hc : isUrlCorrect lib url = some true) (hd : Decomposition url p h t)
    (hd' : Decomposition url p' h' t') : p' = p ∧ h' = h ∧ t' = t := by
  have hproto : some (true, p') = some (true, p) :=
    (@Parts.getProtocolFromUrl_eq url p' h' t' [] hd'.parts hlen).symm.trans
      (hd.parts.getProtocolFromUrl_eq hlen)
  have hhost : some (true, h') = some (true, h) :=
    (@Parts.getHostFromUrl_eq lib url p' h' t' [] hd'.parts hlen hc).symm.trans
      (hd.parts.getHostFromUrl_eq hlen hc)
  obtain rfl : p' = p := by simpa using hproto
  obtain rfl : h' = h := by simpa using hhost
  have hurl := hd'.url_eq.symm.trans hd.url_eq
  exact ⟨rfl, rfl, List.append_cancel_left hurl⟩

end Grammar

/-- What is accepted, how it decomposes and what the functions make of it. -/
theorem url_grammar (lib : StringUtils) (hlib : lib.Documented) (url : Bytes)
    (hlen : url.length < 2 ^ 31) :
    (isUrlCorrect lib url = some true ↔ space ∉ url ∧ ∃ p h t, Decomposition url p h t) ∧
    (isUrlCorrect lib url = some true → ∃ p h t, Decomposition url p h t ∧
      (∀ p' h' t', Decomposition url p' h' t' → p' = p ∧ h' = h ∧ t' = t) ∧
      ∀ out, getProtocolFromUrl url out = some (true, p) ∧
        getHostFromUrl lib url out = some (true, h) ∧
        trimHostFromUrl lib url out = some (true, requestTarget t)) ∧
    (isUrlCorrect lib url ≠ some true → isUrlCorrect lib url = some false ∧
      ∀ out, getHostFromUrl lib url out = some (false, out) ∧
        trimHostFromUrl lib url out = some (false, out)) := by
  refine ⟨isUrlCorrect_iff hlib hlen, fun hc => ?_, fun hc => ?_⟩
  · obtain ⟨-, p, h, t, hd⟩ := (isUrlCorrect_iff hlib hlen).mp hc
    have hp := hd.parts
    exact ⟨p, h, t, hd, fun p' h' t' hd' => hd.unique hlen hc hd', fun out =>
      ⟨hp.getProtocolFromUrl_eq hlen, hp.getHostFromUrl_eq hlen hc,
        hp.trimHostFromUrl_eq hlen hc⟩⟩
  · have hfalse := (@isUrlCorrect_total lib url hlen).resolve_left hc
    refine ⟨hfalse, fun out => ⟨?_, ?_⟩⟩
    · simp [getHostFromUrl, hfalse]
    · simp [trimHostFromUrl, hfalse]

def asciiStringUtils : StringUtils where
  containsSpace s := s.contains space
  caseInsEquals s t := s.map asciiLower == t.map asciiLower

theorem url_grammar_sample :
    let url := ascii "HTTP://a.b/c"
    ∃ p h t, Decomposition url p h t ∧
      (∀ p' h' t', Decomposition url p' h' t' → p' = p ∧ h' = h ∧ t' = t) ∧
      ∀ out, getProtocolFromUrl url out = some (true, p) ∧
        getHostFromUrl asciiStringUtils url out = some (true, h) ∧
        trimHostFromUrl asciiStringUtils url out = some (true, requestTarget t) := by
  intro url
  have hlib : asciiStringUtils.Documented :=
    ⟨fun s => by simp [asciiStringUtils], fun s t => by simp [asciiStringUtils]⟩
  have hgrammar := url_grammar asciiStringUtils hlib url (by decide)
  exact hgrammar.2.1 (by decide)

example : getHostFromUrl asciiStringUtils (ascii "https://a://b/c/") [] =
    some (true, ascii "a:") := by decide

end UrlGrammar
