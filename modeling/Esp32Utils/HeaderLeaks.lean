import Esp32Utils.HttpExchanges
import Mathlib.Data.List.Induction

/-! # Headers that are kept in the request

Received headers are put among those of the request, and so is the connection header; the
headers of the response stay empty. -/
namespace HeaderLeaks

open ByteStrings HttpRequests HttpClient HttpExchanges

def HandsOver (headers : List (Bytes × Bytes)) (expected : Bytes → Option Bytes) : Prop :=
  (headers.map Prod.fst).Nodup ∧
    ∀ name value, (name, value) ∈ headers ↔ expected name = some value

/-- What has been put under a header name: by the user, and by others since then. -/
structure Slot where
  keep : Bool
  set : Option Bytes
  foreign : Option Bytes

def Slot.next (name : Bytes) (slot : Slot) : Event → Slot
  | .setHeader header value =>
    if name = header then { slot with set := some value, foreign := none } else slot
  | .setKeepConnection val => { slot with keep := val }
  | .createResponse => slot
  | .request _ x =>
    if x.initialised then
      { slot with
        foreign := (receivedHeader name x.events).or
          (if slot.keep ∧ name = connectionHeader then some keepAlive else slot.foreign) }
    else slot

def slotAfter (req : HttpRequest) (es : List Event) (name : Bytes) : Slot :=
  es.foldl (Slot.next name) ⟨req.keepConnection, req.headers.lookup name, none⟩

def expected (req : HttpRequest) (es : List Event) (name : Bytes) : Option Bytes :=
  let slot := slotAfter req es name
  if slot.keep ∧ name = connectionHeader then some keepAlive else slot.set

/-- Since the user set the header, nobody else has put another value under its name. -/
def Own (slot : Slot) : Prop := ∀ value, slot.foreign = some value → slot.set = some value

/-- The next call can send what it should: no NUL cuts a header short, and nothing foreign
is among the headers. -/
def Clean (req : HttpRequest) (es : List Event) : Prop :=
  (∀ name value, expected req es name = some value → 0 ∉ name ∧ 0 ∉ value) ∧
    ∀ name, ¬ ((slotAfter req es name).keep = true ∧ name = connectionHeader) →
      Own (slotAfter req es name)

/-- The headers sent are the ones that were set, and the response of a call that succeeds
has the last value received for each name. -/
def HeadersRight (client : ESP32HttpClient) (req : HttpRequest) (before : List Event)
    (method : HttpMethod) (x : Exchange) : Prop :=
  (x.initialised = true →
    HandsOver (handed (performed client (after client req before) method x).2)
      (expected req before)) ∧
  ((performed client (after client req before) method x).1.1 = true →
    ∀ name, (responseHeaders (performed client (after client req before) method x).1.2).lookup
      name = receivedHeader name x.events)

section Slots

variable {client : ESP32HttpClient} {req : HttpRequest} {es : List Event} {e : Event}
  {name value : Bytes} {events : List ClientEvent} {method : HttpMethod} {x : Exchange}

theorem slotAfter_append :
    slotAfter req (es ++ [e]) name = (slotAfter req es name).next name e := by
  simp [slotAfter]

theorem outgoing_lookup : (outgoing req).lookup name =
    if req.keepConnection = true ∧ name = connectionHeader then some keepAlive
    else req.headers.lookup name := by
  cases hk : req.keepConnection with
  | true =>
    by_cases hn : name = connectionHeader
    · subst hn
      simp [outgoing, hk]
    · simp [outgoing, hk, hn]
  | false => simp [outgoing, hk]

theorem after_slot : (after client req es).keepConnection = (slotAfter req es name).keep ∧
    (after client req es).headers.lookup name =
      (slotAfter req es name).foreign.or (slotAfter req es name).set := by
  induction es using List.reverseRecOn with
  | nil => exact ⟨rfl, rfl⟩
  | append_singleton es e ih =>
    rw [after_append, slotAfter_append]
    cases e with
    | setHeader header value =>
      by_cases hn : name = header
      · subst hn
        simp only [Slot.next, if_true, next, HttpRequest.setHeader]
        exact ⟨ih.1, AList.lookup_insert _⟩
      · simp only [Slot.next, if_neg hn, next, HttpRequest.setHeader, AList.lookup_insert_ne hn]
        exact ih
    | setKeepConnection val => exact ⟨rfl, ih.2⟩
    | createResponse => exact ih
    | request method x =>
      cases hx : x.initialised with
      | true =>
        simp only [next, performed_request hx, Slot.next, hx, if_true, finished_keepConnection,
          finished_headers_lookup, outgoing_lookup, Option.or_assoc, ih.1, ih.2, true_and]
        congr 1
        by_cases hn : (slotAfter req es name).keep = true ∧ name = connectionHeader
        · rw [if_pos hn, if_pos hn, Option.some_or]
        · rw [if_neg hn, if_neg hn]
      | false =>
        simp only [next, performed_uninitialised hx, Slot.next, hx, Bool.false_eq_true, if_false]
        exact ih

theorem receivedHeader_noNul (h : receivedHeader name events = some value) :
    0 ∉ name ∧ 0 ∉ value := by
  induction events with
  | nil => cases h
  | cons e events ih =>
    cases e with
    | onHeader key val =>
      rw [receivedHeader, Option.or_eq_some_iff] at h
      rcases h with h | ⟨-, h⟩
      · exact ih h
      · by_cases hn : name = key.bytes
        · rw [if_pos hn, Option.some.injEq] at h
          exact ⟨hn ▸ key.noNul, h ▸ val.noNul⟩
        · rw [if_neg hn] at h
          cases h
    | error => exact ih h
    | onConnected => exact ih h
    | headerSent => exact ih h
    | onData data => exact ih h
    | onFinish => exact ih h
    | disconnected => exact ih h
    | redirect => exact ih h

theorem keepAlive_noNul : 0 ∉ connectionHeader ∧ 0 ∉ keepAlive := by decide

theorem foreign_noNul (h : (slotAfter req es name).foreign = some value) :
    0 ∉ name ∧ 0 ∉ value := by
  induction es using List.reverseRecOn with
  | nil => cases h
  | append_singleton es e ih =>
    rw [slotAfter_append] at h
    cases e with
    | setHeader header val =>
      by_cases hn : name = header
      · rw [Slot.next, if_pos hn] at h
        cases h
      · rw [Slot.next, if_neg hn] at h
        exact ih h
    | setKeepConnection val => exact ih h
    | createResponse => exact ih h
    | request method x =>
      cases hx : x.initialised with
      | true =>
        simp only [Slot.next, hx, if_true, Option.or_eq_some_iff] at h
        rcases h with h | ⟨-, h⟩
        · exact receivedHeader_noNul h
        · by_cases hn : (slotAfter req es name).keep = true ∧ name = connectionHeader
          · rw [if_pos hn, Option.some.injEq] at h
            exact ⟨hn.2 ▸ keepAlive_noNul.1, h ▸ keepAlive_noNul.2⟩
          · rw [if_neg hn] at h
            exact ih h
      | false =>
        simp only [Slot.next, hx, Bool.false_eq_true, if_false] at h
        exact ih h

end Slots

section Sending

variable {client : ESP32HttpClient} {req : HttpRequest} {es : List Event} {name value : Bytes}
  {m : StringMap} {f : Bytes → Option Bytes} {method : HttpMethod} {x : Exchange}

theorem cStrings_eq (hname : 0 ∉ name) (hvalue : 0 ∉ value) :
    cStrings ⟨name, value⟩ = (name, value) := by
  rw [cStrings, cStr_eq_self.mpr hname, cStr_eq_self.mpr hvalue]

theorem mem_entries : ⟨name, value⟩ ∈ m.entries ↔ m.lookup name = some value := by
  rw [← AList.mem_lookup_iff, Option.mem_def]

theorem handsOver_of_lookup (hnul : ∀ name value, f name = some value → 0 ∉ name ∧ 0 ∉ value)
    (hm : ∀ name, m.lookup name = f name) : HandsOver (m.entries.map cStrings) f := by
  have hpairs : m.entries.map cStrings = m.entries.map fun h => (h.1, h.2) := by
    apply List.map_congr_left
    intro h hh
    have hf : f h.1 = some h.2 := (hm h.1).symm.trans (mem_entries.mp hh)
    exact cStrings_eq (hnul _ _ hf).1 (hnul _ _ hf).2
  rw [hpairs]
  constructor
  · rw [List.map_map]
    exact m.keys_nodup
  · intro name value
    rw [← hm name, ← mem_entries, List.mem_map]
    constructor
    · intro h
      obtain ⟨⟨a, b⟩, hab, heq⟩ := h
      rw [Prod.mk.injEq] at heq
      obtain ⟨rfl, rfl⟩ := heq
      exact hab
    · intro h
      exact ⟨⟨name, value⟩, h, rfl⟩

theorem noNul_of_handsOver (h : HandsOver (m.entries.map cStrings) f) (hf : f name = some value) :
    0 ∉ name ∧ 0 ∉ value := by
  obtain ⟨entry, -, heq⟩ := List.mem_map.mp ((h.2 name value).mpr hf)
  rw [cStrings, Prod.mk.injEq] at heq
  obtain ⟨rfl, rfl⟩ := heq
  exact ⟨zero_not_mem_cStr _, zero_not_mem_cStr _⟩

theorem outgoing_slot : (outgoing (after client req es)).lookup name =
    if (slotAfter req es name).keep = true ∧ name = connectionHeader then some keepAlive
    else (slotAfter req es name).foreign.or (slotAfter req es name).set := by
  obtain ⟨hkeep, hlookup⟩ := @after_slot client req es name
  rw [outgoing_lookup, hkeep, hlookup]

theorem own_iff {slot : Slot} : Own slot ↔ slot.foreign.or slot.set = slot.set := by
  unfold Own
  cases slot.foreign with
  | none => simp
  | some value => simp [eq_comm]

theorem handsOver_iff :
    HandsOver ((outgoing (after client req es)).entries.map cStrings) (expected req es) ↔
      Clean req es := by
  constructor
  · intro h
    refine ⟨fun name value hf => noNul_of_handsOver h hf, fun name hn value hv => ?_⟩
    have hnul := foreign_noNul hv
    have hlookup : (outgoing (after client req es)).lookup name = some value := by
      rw [outgoing_slot, if_neg hn, hv, Option.some_or]
    have hmem := List.mem_map_of_mem (f := cStrings) (mem_entries.mpr hlookup)
    rw [cStrings_eq hnul.1 hnul.2, h.2] at hmem
    simpa only [expected, if_neg hn] using hmem
  · intro h
    refine handsOver_of_lookup h.1 fun name => ?_
    rw [outgoing_slot, expected]
    by_cases hn : (slotAfter req es name).keep = true ∧ name = connectionHeader
    · simp only [if_pos hn]
    · simp only [if_neg hn]
      exact own_iff.mp (h.2 name hn)

theorem after_responseHeaders (hnew : responseHeaders req = ∅) :
    responseHeaders (after client req es) = ∅ := by
  induction es using List.reverseRecOn with
  | nil => exact hnew
  | append_singleton es e ih =>
    rw [after_append]
    cases e with
    | setHeader header val => exact ih
    | setKeepConnection val => exact ih
    | createResponse => rfl
    | request method x =>
      cases hx : x.initialised with
      | true =>
        rw [next, performed_request hx, responseHeaders, finished_response, Option.map_some,
          Option.getD_some]
        exact ih
      | false =>
        rw [next, performed_uninitialised hx]
        exact ih

end Sending

/-- Every call of a history has its headers right exactly when, before each one that gets
a client, nothing but the headers of the user is in the request, and each one that
succeeds receives no headers. -/
theorem headers_right_iff (client : ESP32HttpClient) (req : HttpRequest) (es : List Event)
    (hnew : responseHeaders req = ∅) :
    (∀ before method x rest, es = before ++ .request method x :: rest →
      HeadersRight client req before method x) ↔
    ∀ before method x rest, es = before ++ .request method x :: rest → x.initialised = true →
      Clean req before ∧ (x.ok = true → ∀ name, receivedHeader name x.events = none) := by
  have hcall : ∀ before method x, x.initialised = true →
      (HeadersRight client req before method x ↔
        Clean req before ∧ (x.ok = true → ∀ name, receivedHeader name x.events = none)) := by
    intro before method x hx
    have hheaders : responseHeaders (performed client (after client req before) method x).1.2 =
        ∅ := by
      rw [performed_request hx, responseHeaders, finished_response, Option.map_some,
        Option.getD_some, after_responseHeaders hnew]
    rw [HeadersRight, performed_handed hx, handsOver_iff, performed_true_iff, hheaders]
    simp only [hx, true_implies, true_and, AList.lookup_empty, eq_comm]
  constructor
  · intro h before method x rest hes hx
    exact (hcall before method x hx).mp (h before method x rest hes)
  · intro h before method x rest hes
    cases hx : x.initialised with
    | true => exact (hcall before method x hx).mpr (h before method x rest hes hx)
    | false =>
      refine ⟨fun hx' => absurd (hx.symm.trans hx') (by decide), fun hret => ?_⟩
      exact absurd (hx.symm.trans (performed_true_iff.mp hret).1) (by decide)

def cookieHeader : ClientEvent :=
  .onHeader ⟨ascii "Set-Cookie", by decide⟩ ⟨ascii "a=1", by decide⟩

def cookieAnswer : Exchange := ⟨true, [cookieHeader, .onFinish], true, 200, 0⟩

theorem headers_right_sample :
    let es := [Event.setHeader (ascii "Accept") (ascii "text/plain"),
      Event.request .get ⟨true, [.onFinish], true, 200, 0⟩]
    (∀ before method x rest, es = before ++ .request method x :: rest →
      HeadersRight smallClient pageRequest before method x) ↔
    ∀ before method x rest, es = before ++ .request method x :: rest → x.initialised = true →
      Clean pageRequest before ∧ (x.ok = true → ∀ name, receivedHeader name x.events = none) :=
  headers_right_iff smallClient pageRequest _ rfl

/-- The cookie is not among the headers of the response, and the next call sends it. -/
theorem received_header_sent :
    (responseHeaders (performed smallClient pageRequest .get cookieAnswer).1.2).lookup
        (ascii "Set-Cookie") = none ∧
      receivedHeader (ascii "Set-Cookie") cookieAnswer.events = some (ascii "a=1") ∧
      (ascii "Set-Cookie", ascii "a=1") ∈ handed (performed smallClient
        (after smallClient pageRequest [.request .get cookieAnswer]) .get cookieAnswer).2 ∧
      expected pageRequest [.request .get cookieAnswer] (ascii "Set-Cookie") = none ∧
      ¬ HeadersRight smallClient pageRequest [.request .get cookieAnswer] .get cookieAnswer := by
  have hsent : (ascii "Set-Cookie", ascii "a=1") ∈ handed (performed smallClient
      (after smallClient pageRequest [.request .get cookieAnswer]) .get cookieAnswer).2 := by
    decide
  have hnone : expected pageRequest [.request .get cookieAnswer] (ascii "Set-Cookie") = none := by
    decide
  refine ⟨by decide, by decide, hsent, hnone, fun h => ?_⟩
  have hexpected := ((h.1 rfl).2 _ _).mp hsent
  rw [hnone] at hexpected
  cases hexpected

end HeaderLeaks
