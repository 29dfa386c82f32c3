import Esp32Utils.ResponseBody

/-! # The limit of the response body

The limit that a client is constructed with is not looked at while data comes in, so the
body grows with the data. -/
namespace ResponseLimit

open ByteStrings HttpRequests HttpClient HttpExchanges ResponseBody

/-- The body stays within the limit of the client, behind every event and after the call. -/
def Limited (client : ESP32HttpClient) (req : HttpRequest) (method : HttpMethod)
    (x : Exchange) : Prop :=
  (x.initialised = true → ∀ seen, seen <+: x.events →
    (bodyOf (seen.foldl httpClientEventHandler (begun req))).length ≤
      client.maxResponseBodyLength) ∧
  (bodyOf (performed client req method x).1.2).length ≤ client.maxResponseBodyLength

section Bodies

variable {client : ESP32HttpClient} {req : HttpRequest} {method : HttpMethod} {x : Exchange}
  {events seen rest : List ClientEvent}

theorem received_append : received (seen ++ rest) = received seen ++ received rest := by
  induction seen with
  | nil => rfl
  | cons e seen ih =>
    cases e with
    | onData data => rw [List.cons_append, received, received, ih, List.append_assoc]
    | _ => exact ih

theorem received_length_le (h : seen <+: events) :
    (received seen).length ≤ (received events).length := by
  obtain ⟨rest, rfl⟩ := h
  rw [received_append, List.length_append]
  exact Nat.le_add_right _ _

theorem bodyOf_begun : bodyOf (begun req) = bodyOf req := by
  unfold bodyOf begun
  cases req.response with
  | none => rfl
  | some response => rfl

theorem begun_response : ∃ response, (begun req).response = some response := by
  unfold begun
  cases req.response with
  | none => exact ⟨_, rfl⟩
  | some response => exact ⟨_, rfl⟩

theorem bodyOf_events : bodyOf (events.foldl httpClientEventHandler (begun req)) =
    bodyOf req ++ received events := by
  obtain ⟨response, hresponse⟩ := @begun_response req
  rw [← @bodyOf_begun req, bodyOf, bodyOf, handler_response, hresponse]
  rfl

theorem performed_body_uninitialised (hx : x.initialised = false) :
    bodyOf (performed client req method x).1.2 = bodyOf req := by
  rw [performed_uninitialised hx]
  rfl

end Bodies

/-- The limit holds exactly when the server does not send more, or is never asked. -/
theorem limited_iff (client : ESP32HttpClient) (req : HttpRequest) (method : HttpMethod)
    (x : Exchange) (hnew : req.response = none) : Limited client req method x ↔
      (x.initialised = true → (received x.events).length ≤ client.maxResponseBodyLength) := by
  have hempty : bodyOf req = [] := by rw [bodyOf, hnew]; rfl
  cases hx : x.initialised with
  | false =>
    rw [Limited, performed_body_uninitialised hx, hempty, hx]
    exact iff_of_true ⟨fun h => absurd h Bool.false_ne_true, Nat.zero_le _⟩
      fun h => absurd h Bool.false_ne_true
  | true =>
    rw [Limited, performed_request hx, finished_bodyOf, hempty, List.nil_append]
    constructor
    · intro h _
      exact h.2
    · intro h
      refine ⟨fun _ seen hseen => ?_, h rfl⟩
      rw [bodyOf_events, hempty, List.nil_append]
      exact (received_length_le hseen).trans (h rfl)

section Sample

def byteClient : ESP32HttpClient := ⟨2048, 1, none, 0⟩

theorem limited_sample : Limited byteClient pageRequest .get (answered "a") :=
  (limited_iff byteClient pageRequest .get (answered "a") rfl).mpr fun _ => by decide

/-- Two bytes are taken. -/
theorem limit_not_enforced : byteClient.maxResponseBodyLength = 1 ∧
    bodyOf (performed byteClient pageRequest .get (answered "ab")).1.2 = ascii "ab" ∧
    ¬ Limited byteClient pageRequest .get (answered "ab") := by
  refine ⟨rfl, by decide, ?_⟩
  intro hlimited
  exact absurd hlimited.2 (by decide)

end Sample

end ResponseLimit
