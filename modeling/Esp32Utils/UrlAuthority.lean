import Esp32Utils.UrlGrammar

/-! # Where the host ends

The functions end the host at the first slash behind the marker. The authority of a URL ends
at the first slash, question mark or hash. -/
namespace UrlAuthority

open ByteStrings FirstOccurrence StdString HttpUtils UrlGrammar

def questionMark : UInt8 := 0x3F

def hash : UInt8 := 0x23

def behindMarker (url : Bytes) : Bytes :=
  ((firstOccurrence protocolMarker url 0).map fun i => url.drop (i + protocolMarker.length)).getD []

def endsAuthority (b : UInt8) : Bool := b = slash || b = questionMark || b = hash

/-- What ends at the first of the three delimiters. -/
def authority (url : Bytes) : Bytes := (behindMarker url).takeWhile fun b => !endsAuthority b

def authorityTarget (url : Bytes) : Bytes :=
  let rest := (behindMarker url).dropWhile fun b => !endsAuthority b
  if rest.head? = some slash then rest else slash :: rest

def hostText (url : Bytes) : Bytes := (behindMarker url).takeWhile (· ≠ slash)

def hostTarget (url : Bytes) : Bytes :=
  requestTarget ((behindMarker url).dropWhile (· ≠ slash))

/-- The two functions take the URL apart into this host and this target. -/
def TakenApart (lib : StringUtils) (url host target : Bytes) : Prop :=
  ∀ out, getHostFromUrl lib url out = some (true, host) ∧
    trimHostFromUrl lib url out = some (true, target)

section Parts

variable {lib : StringUtils} {url p h t : Bytes}

theorem behindMarker_eq (hp : Parts url p h t) : behindMarker url = h ++ t := by
  have hdrop : url.drop (p.length + protocolMarker.length) = h ++ t := by
    rw [hp.url_eq, ← List.append_assoc, ← List.length_append, List.drop_left]
  rw [behindMarker, hp.first, Option.map_some, Option.getD_some, hdrop]

theorem hostText_eq (hp : Parts url p h t) : hostText url = h := by
  have hall : ∀ b ∈ h, decide (b ≠ slash) = true := by
    intro b hb
    exact decide_eq_true (ne_of_mem_of_not_mem hb hp.host)
  rw [hostText, behindMarker_eq hp, List.takeWhile_append_of_pos hall]
  rcases hp.target with rfl | ⟨u, rfl⟩
  · exact List.append_nil h
  · simp

theorem hostTarget_eq (hp : Parts url p h t) : hostTarget url = requestTarget t := by
  have hall : ∀ b ∈ h, decide (b ≠ slash) = true := by
    intro b hb
    exact decide_eq_true (ne_of_mem_of_not_mem hb hp.host)
  rw [hostTarget, behindMarker_eq hp, List.dropWhile_append_of_pos hall]
  rcases hp.target with rfl | ⟨u, rfl⟩
  · rfl
  · simp

theorem authority_eq (hp : Parts url p h t) (hquestion : questionMark ∉ h)
    (hhash : hash ∉ h) : authority url = h ∧ authorityTarget url = requestTarget t := by
  have hall : ∀ b ∈ h, (!endsAuthority b) = true := by
    intro b hb
    have hslash := ne_of_mem_of_not_mem hb hp.host
    have hq := ne_of_mem_of_not_mem hb hquestion
    have hh := ne_of_mem_of_not_mem hb hhash
    simp [endsAuthority, hslash, hq, hh]
  rw [authority, authorityTarget, behindMarker_eq hp, List.takeWhile_append_of_pos hall,
    List.dropWhile_append_of_pos hall]
  rcases hp.target with rfl | ⟨u, rfl⟩
  · exact ⟨List.append_nil h, rfl⟩
  · have hends : endsAuthority slash = true := rfl
    simp [hends, requestTarget]

theorem authority_ends : questionMark ∉ authority url ∧ hash ∉ authority url := by
  constructor
  · intro hmem
    exact absurd (List.mem_takeWhile_imp hmem) (by decide)
  · intro hmem
    exact absurd (List.mem_takeWhile_imp hmem) (by decide)

theorem accepted_takenApart (hlib : lib.Documented) (hlen : url.length < 2 ^ 31)
    (hc : isUrlCorrect lib url = some true) : ∃ p h t, Parts url p h t ∧ h ≠ [] ∧
      ∀ host target, TakenApart lib url host target ↔ host = h ∧ target = requestTarget t := by
  obtain ⟨-, p, h, t, hd⟩ := (isUrlCorrect_iff hlib hlen).mp hc
  have hp := hd.parts
  refine ⟨p, h, t, hp, hd.host_ne, fun host target => ?_⟩
  have hhost : ∀ out, getHostFromUrl lib url out = some (true, h) :=
    fun out => hp.getHostFromUrl_eq hlen hc
  have htarget : ∀ out, trimHostFromUrl lib url out = some (true, requestTarget t) :=
    fun out => hp.trimHostFromUrl_eq hlen hc
  constructor
  · intro htaken
    obtain ⟨h1, h2⟩ := htaken []
    rw [hhost] at h1
    rw [htarget] at h2
    simp only [Option.some.injEq, Prod.mk.injEq, true_and] at h1 h2
    exact ⟨h1.symm, h2.symm⟩
  · intro heq out
    rw [heq.1, heq.2]
    exact ⟨hhost out, htarget out⟩

end Parts

/-- The host is the text up to the first slash, and it is the authority exactly when neither a
question mark nor a hash occurs in it. -/
theorem host_is_authority_iff (lib : StringUtils) (hlib : lib.Documented) (url : Str)
    (hc : isUrlCorrect lib url.bytes = some true) :
    (hostText url.bytes ≠ [] ∧
      TakenApart lib url.bytes (hostText url.bytes) (hostTarget url.bytes)) ∧
    (authority url.bytes ≠ [] ∧
        TakenApart lib url.bytes (authority url.bytes) (authorityTarget url.bytes) ↔
      questionMark ∉ hostText url.bytes ∧ hash ∉ hostText url.bytes) := by
  obtain ⟨p, h, t, hp, hne, htaken⟩ := accepted_takenApart hlib url.short hc
  rw [htaken, htaken, hostText_eq hp, hostTarget_eq hp]
  refine ⟨⟨hne, rfl, rfl⟩, ?_⟩
  constructor
  · intro hread
    rw [← hread.2.1]
    exact authority_ends
  · intro hplain
    obtain ⟨hauthority, htarget⟩ := authority_eq hp hplain.1 hplain.2
    exact ⟨hauthority ▸ hne, hauthority, htarget⟩

section Sample

theorem asciiStringUtils_documented : asciiStringUtils.Documented :=
  ⟨fun s => by simp [asciiStringUtils], fun s t => by simp [asciiStringUtils]⟩

theorem host_is_authority_sample :
    TakenApart asciiStringUtils (ascii "http://a.b/c?d") (ascii "a.b") (ascii "/c?d") := by
  have hread := (host_is_authority_iff asciiStringUtils asciiStringUtils_documented
    ⟨ascii "http://a.b/c?d", by decide⟩ (by decide)).1.2
  exact hread

/-- A query directly behind the host is taken for a part of it. -/
theorem query_taken_for_host :
    isUrlCorrect asciiStringUtils (ascii "http://a?b=c") = some true ∧
      getHostFromUrl asciiStringUtils (ascii "http://a?b=c") [] =
        some (true, ascii "a?b=c") ∧
      trimHostFromUrl asciiStringUtils (ascii "http://a?b=c") [] = some (true, ascii "/") ∧
      authority (ascii "http://a?b=c") = ascii "a" ∧
      authorityTarget (ascii "http://a?b=c") = ascii "/?b=c" ∧
      ¬ TakenApart asciiStringUtils (ascii "http://a?b=c") (authority (ascii "http://a?b=c"))
        (authorityTarget (ascii "http://a?b=c")) := by
  refine ⟨by decide, by decide, by decide, by decide, by decide, ?_⟩
  intro htaken
  exact absurd (htaken []).1 (by decide)

end Sample

end UrlAuthority
