import Esp32Utils.HttpClient

/-! # Exchanges on one request object

What one GET or POST does to the request object, given how the library answers, and
histories of calls on the object. -/
namespace HttpExchanges

open ByteStrings InteractionProgram HttpRequests HttpClient

structure Exchange where
  initialised : Bool
  events : List ClientEvent
  ok : Bool
  statusCode : ℤ
  contentLength : ℤ

def library (x : Exchange) : Handler ClientInterface (List ClientCall)
  | .init config, log => (x.initialised, log ++ [.init config])
  | .perform, log => ((x.events, x.ok), log ++ [.perform])
  | .getStatusCode, log => (x.statusCode, log ++ [.getStatusCode])
  | .getContentLength, log => (x.contentLength, log ++ [.getContentLength])
  | .setHeader key value, log => ((), log ++ [.setHeader key value])
  | .setMethod method, log => ((), log ++ [.setMethod method])
  | .setPostField data, log => ((), log ++ [.setPostField data])
  | .cleanup, log => ((), log ++ [.cleanup])

def performed (client : ESP32HttpClient) (req : HttpRequest) (method : HttpMethod)
    (x : Exchange) : (Bool × HttpRequest) × List ClientCall :=
  (client.performRequest req method).run (library x) []

def received : List ClientEvent → Bytes
  | [] => []
  | .onData data :: events => data ++ received events
  | _ :: events => received events

def receivedHeader (name : Bytes) : List ClientEvent → Option Bytes
  | [] => none
  | .onHeader key value :: events =>
    (receivedHeader name events).or (if name = key.bytes then some value.bytes else none)
  | _ :: events => receivedHeader name events

def handed (log : List ClientCall) : List (Bytes × Bytes) :=
  log.filterMap fun c => match c with
    | .setHeader key value => some (key, value)
    | _ => none

section Handler

variable {req : HttpRequest} {events : List ClientEvent} {name : Bytes}

theorem handler_headers_lookup :
    (events.foldl httpClientEventHandler req).headers.lookup name =
      (receivedHeader name events).or (req.headers.lookup name) := by
  induction events generalizing req with
  | nil => rfl
  | cons e events ih =>
    rw [List.foldl_cons, ih]
    cases e with
    | onHeader key value =>
      rw [receivedHeader, Option.or_assoc]
      congr 1
      by_cases hk : name = key.bytes
      · rw [if_pos hk, hk]
        exact AList.lookup_insert _
      · rw [if_neg hk]
        exact AList.lookup_insert_ne hk
    | _ => rfl

theorem handler_response :
    (events.foldl httpClientEventHandler req).response =
      req.response.map fun r => { r with body := r.body ++ received events } := by
  induction events generalizing req with
  | nil => cases h : req.response <;> simp [received, h]
  | cons e events ih =>
    rw [List.foldl_cons, ih]
    cases e with
    | onData data =>
      simp [httpClientEventHandler, HttpRequest.onResponse, received, Function.comp_def]
    | _ => rfl

theorem handler_keepConnection :
    (events.foldl httpClientEventHandler req).keepConnection = req.keepConnection := by
  induction events generalizing req with
  | nil => rfl
  | cons e events ih =>
    rw [List.foldl_cons, ih]
    cases e <;> rfl

end Handler

section Run

variable {client : ESP32HttpClient} {req : HttpRequest} {method : HttpMethod} {x : Exchange}
  {log : List ClientCall} {name : Bytes}

def cStrings (header : Sigma fun _ : Bytes => Bytes) : Bytes × Bytes :=
  (cStr header.1, cStr header.2)

theorem setHeaders_run (headers : List (Sigma fun _ : Bytes => Bytes)) :
    (setHeaders headers).run (library x) log =
      ((), log ++ headers.map fun h => .setHeader (cStr h.1) (cStr h.2)) := by
  induction headers generalizing log with
  | nil => simp [setHeaders]
  | cons h headers ih => simp [setHeaders, library, ih]

/-- The headers as they are when the library is given them. -/
def outgoing (req : HttpRequest) : StringMap :=
  if req.keepConnection then req.headers.insert connectionHeader keepAlive else req.headers

def begun (req : HttpRequest) : HttpRequest :=
  { req with
    headers := outgoing req
    status := .pending
    response := req.response.or (some ⟨[], ∅, 0⟩) }

def finished (x : Exchange) (req : HttpRequest) : HttpRequest :=
  ((x.events.foldl httpClientEventHandler (begun req)).onResponse fun response =>
    { response with code := x.statusCode }).setStatus (if x.ok then .ok else .failed)

def preparing (client : ESP32HttpClient) (req : HttpRequest) : List ClientCall :=
  [.cleanup, .init (client.config req)] ++
    (outgoing req).entries.map fun h => .setHeader (cStr h.1) (cStr h.2)

def sending (req : HttpRequest) (method : HttpMethod) (ok : Bool) : List ClientCall :=
  [.setMethod method] ++ (if req.body.length = 0 then [] else [.setPostField req.body]) ++
    [.perform, .getStatusCode] ++ if ok then [.getContentLength] else []

theorem initClient_run (hx : x.initialised = true) :
    (client.initClient req).run (library x) log =
      ((true, { req with headers := outgoing req }), log ++ preparing client req) := by
  cases hk : req.keepConnection with
  | true =>
    simp [ESP32HttpClient.initClient, library, hx, hk, setHeaders_run, outgoing,
      HttpRequest.setHeader, preparing]
  | false =>
    have hout : outgoing req = req.headers := by simp [outgoing, hk]
    rw [preparing, hout]
    simp [ESP32HttpClient.initClient, library, hx, hk, setHeaders_run]
    rw [← hk]

theorem performed_uninitialised (hx : x.initialised = false) :
    performed client req method x =
      ((false, req.setStatus .failed), [.cleanup, .init (client.config req)]) := by
  simp [performed, ESP32HttpClient.performRequest, ESP32HttpClient.initClient, library, hx]

/-- The request object as the library finds it: with a response, old or new. -/
theorem begun_eq :
    (if (HttpRequest.setStatus { req with headers := outgoing req } .pending).response.isNone then
      (HttpRequest.setStatus { req with headers := outgoing req } .pending).createResponse
    else HttpRequest.setStatus { req with headers := outgoing req } .pending) = begun req := by
  cases hr : req.response with
  | none => simp [HttpRequest.setStatus, HttpRequest.createResponse, begun, hr]
  | some response => simp [HttpRequest.setStatus, begun, hr]

theorem performed_run (hx : x.initialised = true) : performed client req method x =
    ((x.ok, finished x req), preparing client req ++ sending req method x.ok) := by
  simp only [performed, ESP32HttpClient.performRequest, run_bind, initClient_run hx,
    Bool.true_eq_false, if_false, begun_eq]
  by_cases hb : req.body.length = 0
  · cases hok : x.ok <;> simp [HttpRequest.setStatus, hb, library, hok, finished, sending]
  · cases hok : x.ok <;> simp [HttpRequest.setStatus, hb, library, hok, finished, sending]

theorem performed_request (hx : x.initialised = true) :
    (performed client req method x).1 = (x.ok, finished x req) := by
  rw [performed_run hx]

theorem handed_append {log log' : List ClientCall} :
    handed (log ++ log') = handed log ++ handed log' := List.filterMap_append

theorem handed_preparing :
    handed (preparing client req) = (outgoing req).entries.map cStrings := by
  rw [preparing, handed_append, handed, handed, List.filterMap_map, ← List.filterMap_eq_map]
  rfl

theorem handed_sending {ok : Bool} : handed (sending req method ok) = [] := by
  by_cases hb : req.body.length = 0
  · rw [sending, if_pos hb]
    cases ok <;> rfl
  · rw [sending, if_neg hb]
    cases ok <;> rfl

theorem performed_handed (hx : x.initialised = true) :
    handed (performed client req method x).2 = (outgoing req).entries.map cStrings := by
  rw [performed_run hx, handed_append, handed_preparing, handed_sending, List.append_nil]

end Run

inductive Event where
  | setHeader (header value : Bytes)
  | setKeepConnection (val : Bool)
  | createResponse
  | request (method : HttpMethod) (x : Exchange)

def next (client : ESP32HttpClient) (req : HttpRequest) : Event → HttpRequest
  | .setHeader header value => req.setHeader header value
  | .setKeepConnection val => { req with keepConnection := val }
  | .createResponse => req.createResponse
  | .request method x => (performed client req method x).1.2

def after (client : ESP32HttpClient) (req : HttpRequest) (es : List Event) : HttpRequest :=
  es.foldl (next client) req

def bodyOf (req : HttpRequest) : Bytes := (req.response.map HttpResponse.body).getD []

def responseHeaders (req : HttpRequest) : StringMap :=
  (req.response.map HttpResponse.headers).getD ∅

section Finished

variable {client : ESP32HttpClient} {req : HttpRequest} {method : HttpMethod} {x : Exchange}
  {name : Bytes} {es : List Event} {e : Event}

theorem finished_response : (finished x req).response =
    some ⟨bodyOf req ++ received x.events, responseHeaders req, x.statusCode⟩ := by
  simp only [finished, HttpRequest.setStatus, HttpRequest.onResponse, handler_response, begun]
  cases hr : req.response with
  | none => simp [bodyOf, responseHeaders, hr]
  | some response => simp [bodyOf, responseHeaders, hr]

theorem finished_headers_lookup : (finished x req).headers.lookup name =
    (receivedHeader name x.events).or ((outgoing req).lookup name) := by
  simp only [finished, HttpRequest.setStatus, HttpRequest.onResponse, handler_headers_lookup]
  rfl

theorem finished_keepConnection : (finished x req).keepConnection = req.keepConnection := by
  simp only [finished, HttpRequest.setStatus, HttpRequest.onResponse, handler_keepConnection]
  rfl

theorem performed_true_iff :
    (performed client req method x).1.1 = true ↔ x.initialised = true ∧ x.ok = true := by
  cases hx : x.initialised with
  | true => simp [performed_request hx]
  | false => simp [performed_uninitialised hx]

theorem after_append : after client req (es ++ [e]) = next client (after client req es) e := by
  simp [after]

end Finished

def smallClient : ESP32HttpClient := ⟨2048, 2048, none, 0⟩

def pageRequest : HttpRequest := .init (ascii "http://a/") []

end HttpExchanges
