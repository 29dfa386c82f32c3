import Esp32Utils.HttpRequests
import Esp32Utils.UrlAuthority

/-! # Two checks of a URL

A request is valid when its protocol is; the URL is correct when it also has a host and no
space. -/
namespace RequestValidity

open ByteStrings FirstOccurrence StdString HttpUtils UrlGrammar UrlAuthority HttpRequests

/-- Both checks give the same answer, and what passes can be taken apart. -/
def Agree (lib : StringUtils) (url : Bytes) : Prop :=
  ((HttpRequest.init url []).isValid lib = some true ↔ isUrlCorrect lib url = some true) ∧
  ((HttpRequest.init url []).isValid lib = some true →
    ∃ host target, host ≠ [] ∧ TakenApart lib url host target)

structure Marked (url p rest : Bytes) : Prop where
  url_eq : url = p ++ ascii "://" ++ rest
  protocol : p.map asciiLower = ascii "http" ∨ p.map asciiLower = ascii "https"

/-- A protocol that both checks take, and a space or no host. -/
def Flawed (url : Bytes) : Prop :=
  ∃ p rest, Marked url p rest ∧ (space ∈ url ∨ rest = [] ∨ rest.head? = some slash)

section Checks

variable {lib : StringUtils} {url p h t q rest : Bytes}

theorem isValid_of_absent (hn : firstOccurrence protocolMarker url 0 = none) :
    (HttpRequest.init url []).isValid lib = some false := by
  have hindex : getProtocolIndex url = npos := by
    rw [getProtocolIndex, find, hn, Option.getD_none]
  have hno : getProtocolFromUrl url [] = some (false, []) := by
    rw [getProtocolFromUrl, hindex]
    exact if_pos rfl
  simp [HttpRequest.isValid, HttpRequest.init, hno]

theorem isValid_eq (hp : Parts url p h t) (hlen : url.length < 2 ^ 31) :
    (HttpRequest.init url []).isValid lib = some (isProtocolValid lib p) := by
  have hfound : getProtocolFromUrl url [] = some (true, p) := hp.getProtocolFromUrl_eq hlen
  cases hv : isProtocolValid lib p with
  | false => simp [HttpRequest.isValid, HttpRequest.init, hfound, hv]
  | true => simp [HttpRequest.isValid, HttpRequest.init, hfound, hv]

theorem isProtocolValid_iff (hlib : lib.Documented) : isProtocolValid lib p = true ↔
    p.map asciiLower = ascii "http" ∨ p.map asciiLower = ascii "https" := by
  have hhttp : (ascii "http").map asciiLower = ascii "http" := by decide
  have hhttps : (ascii "https").map asciiLower = ascii "https" := by decide
  rw [isProtocolValid, Bool.or_eq_true, hlib.caseInsEquals_iff, hlib.caseInsEquals_iff, hhttp,
    hhttps]

theorem Marked.first (hm : Marked url q rest) :
    firstOccurrence protocolMarker url 0 = some q.length := by
  have hcolon : 0x3A ∉ q := by
    intro hmem
    have hlower : 0x3A ∈ q.map asciiLower := List.mem_map.mpr ⟨0x3A, hmem, by decide⟩
    rcases hm.protocol with hq | hq
    · rw [hq] at hlower
      exact absurd hlower (by decide)
    · rw [hq] at hlower
      exact absurd hlower (by decide)
  rw [hm.url_eq, List.append_assoc]
  exact firstOccurrence_behind hcolon

theorem Marked.protocol_length (hm : Marked url q rest) : q.length = 4 ∨ q.length = 5 := by
  rcases hm.protocol with hq | hq
  · exact Or.inl ((List.length_map asciiLower).symm.trans (congrArg List.length hq))
  · exact Or.inr ((List.length_map asciiLower).symm.trans (congrArg List.length hq))

theorem marked_iff (hp : Parts url p h t) : Marked url q rest ↔
    (q = p ∧ rest = h ++ t) ∧
      (p.map asciiLower = ascii "http" ∨ p.map asciiLower = ascii "https") := by
  have hurl : url = p ++ ascii "://" ++ (h ++ t) := by
    rw [hp.url_eq, List.append_assoc, protocolMarker]
  constructor
  · intro hm
    have hlength : q.length = p.length := Option.some.inj (hm.first.symm.trans hp.first)
    have hsplit := hm.url_eq.symm.trans hurl
    rw [List.append_assoc, List.append_assoc] at hsplit
    obtain ⟨hq, hbehind⟩ := List.append_inj hsplit hlength
    exact ⟨⟨hq, List.append_cancel_left hbehind⟩, hq ▸ hm.protocol⟩
  · intro hm
    obtain ⟨⟨rfl, rfl⟩, hprotocol⟩ := hm
    exact ⟨hurl, hprotocol⟩

theorem no_host_iff (hp : Parts url p h t) :
    (h ++ t = [] ∨ (h ++ t).head? = some slash) ↔ h = [] := by
  cases h with
  | nil =>
    apply iff_of_true _ rfl
    rcases hp.target with rfl | ⟨u, rfl⟩
    · exact Or.inl rfl
    · exact Or.inr rfl
  | cons b h =>
    apply iff_of_false _ (List.cons_ne_nil b h)
    intro hno
    rcases hno with hnil | hslash
    · exact absurd hnil (List.cons_ne_nil _ _)
    · rw [List.cons_append, List.head?_cons, Option.some.injEq] at hslash
      exact hp.host (hslash ▸ List.mem_cons_self)

theorem flawed_iff (hp : Parts url p h t) : Flawed url ↔
    (p.map asciiLower = ascii "http" ∨ p.map asciiLower = ascii "https") ∧
      (space ∈ url ∨ h = []) := by
  constructor
  · intro hf
    obtain ⟨q, rest, hm, hflaw⟩ := hf
    obtain ⟨⟨rfl, rfl⟩, hprotocol⟩ := (marked_iff hp).mp hm
    rw [no_host_iff hp] at hflaw
    exact ⟨hprotocol, hflaw⟩
  · intro hf
    refine ⟨p, h ++ t, (marked_iff hp).mpr ⟨⟨rfl, rfl⟩, hf.1⟩, ?_⟩
    rw [no_host_iff hp]
    exact hf.2

theorem checks_agree_iff (hlib : lib.Documented) (hlen : url.length < 2 ^ 31) :
    ((HttpRequest.init url []).isValid lib = some true ↔ isUrlCorrect lib url = some true) ↔
      ¬ Flawed url := by
  cases hfirst : firstOccurrence protocolMarker url 0 with
  | none =>
    rw [isValid_of_absent hfirst, isUrlCorrect_of_absent hfirst]
    apply iff_of_true Iff.rfl
    intro hf
    obtain ⟨q, rest, hm, -⟩ := hf
    exact absurd (hm.first.symm.trans hfirst) (Option.some_ne_none _)
  | some i =>
    obtain ⟨p, h, t, hp⟩ := parts_of_first hfirst
    have hspace : lib.containsSpace url = false ↔ space ∉ url := by
      rw [← hlib.containsSpace_iff, Bool.not_eq_true]
    rw [isValid_eq hp hlen, hp.isUrlCorrect_eq hlen, flawed_iff hp, Option.some.injEq,
      Option.some.injEq, decide_eq_true_eq, Accepted, hspace, ← Bool.or_eq_true,
      ← isProtocolValid, isProtocolValid_iff hlib]
    tauto

end Checks

/-- The two checks agree exactly on the URLs that do not have a valid protocol before a host
that is missing or a URL with spaces. -/
theorem validators_agree_iff (lib : StringUtils) (hlib : lib.Documented) (url : Str) :
    Agree lib url.bytes ↔ ¬ Flawed url.bytes := by
  rw [Agree, checks_agree_iff hlib url.short]
  constructor
  · intro h
    exact h.1
  · intro h
    refine ⟨h, fun hvalid => ?_⟩
    have hcorrect := ((checks_agree_iff hlib url.short).mpr h).mp hvalid
    obtain ⟨p, host, t, -, hne, htaken⟩ := accepted_takenApart hlib url.short hcorrect
    exact ⟨host, _, hne, (htaken _ _).mpr ⟨rfl, rfl⟩⟩

section Sample

theorem validators_agree_sample : Agree asciiStringUtils (ascii "ftp://a b") := by
  refine (validators_agree_iff asciiStringUtils asciiStringUtils_documented
    ⟨ascii "ftp://a b", by decide⟩).mpr ?_
  intro hf
  obtain ⟨p, rest, hm, -⟩ := hf
  have hlength := Option.some.inj (hm.first.symm.trans
    (show firstOccurrence protocolMarker (ascii "ftp://a b") 0 = some 3 by decide))
  rcases hm.protocol_length with hp | hp
  · omega
  · omega

/-- A request without a host is valid. -/
theorem valid_without_host :
    (HttpRequest.init (ascii "http://") []).isValid asciiStringUtils = some true ∧
      isUrlCorrect asciiStringUtils (ascii "http://") = some false ∧
      ¬ Agree asciiStringUtils (ascii "http://") := by
  refine ⟨by decide, by decide, ?_⟩
  intro hagree
  exact absurd (hagree.1.mp (by decide)) (by decide)

end Sample

end RequestValidity
