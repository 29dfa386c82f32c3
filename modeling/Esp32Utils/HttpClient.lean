import Esp32Utils.HttpRequests
import Esp32Utils.Interaction.Program

/-! # ESP32HttpClient

One GET or POST over the client library of the platform. While a request is performed, the
library delivers its events to the handler, which works on the request object. -/
namespace HttpClient

open ByteStrings StdString InteractionProgram HttpRequests

inductive HttpMethod where
  | get
  | post
  deriving DecidableEq, Repr

inductive ClientEvent where
  | error
  | onConnected
  | headerSent
  | onHeader (headerKey headerValue : CString)
  | onData (data : Bytes)
  | onFinish
  | disconnected
  | redirect

structure ClientConfig where
  url : Bytes
  port : ℤ
  username : Option Bytes
  password : Option Bytes
  authType : ℕ
  certPem : Option Bytes
  certLen : ℕ
  timeoutMs : ℤ
  maxRedirectionCount : ℤ
  maxAuthorizationRetries : ℤ
  bufferSize : ℤ
  bufferSizeTx : ℤ

inductive ClientCall where
  | init (config : ClientConfig)
  | setHeader (key value : Bytes)
  | setMethod (method : HttpMethod)
  | setPostField (data : Bytes)
  | perform
  | getStatusCode
  | getContentLength
  | cleanup

/-- Whether `init` gives a client, the events and the success of `perform`, the status and the
length that the server has announced. Errors of setting the method or the data abort the
program. -/
abbrev ClientInterface : Interface where
  Call := ClientCall
  Resp
    | .init _ => Bool
    | .perform => List ClientEvent × Bool
    | .getStatusCode => ℤ
    | .getContentLength => ℤ
    | _ => Unit

abbrev ClientProgram := Program ClientInterface

def espHttpClientInit (config : ClientConfig) : ClientProgram Bool :=
  @perform ClientInterface (.init config)

def espHttpClientSetHeader (key value : Bytes) : ClientProgram Unit :=
  @perform ClientInterface (.setHeader key value)

def espHttpClientSetMethod (method : HttpMethod) : ClientProgram Unit :=
  @perform ClientInterface (.setMethod method)

def espHttpClientSetPostField (data : Bytes) : ClientProgram Unit :=
  @perform ClientInterface (.setPostField data)

def espHttpClientPerform : ClientProgram (List ClientEvent × Bool) :=
  @perform ClientInterface .perform

def espHttpClientGetStatusCode : ClientProgram ℤ :=
  @perform ClientInterface .getStatusCode

def espHttpClientGetContentLength : ClientProgram ℤ :=
  @perform ClientInterface .getContentLength

def espHttpClientCleanup : ClientProgram Unit :=
  @perform ClientInterface .cleanup

section Calls

variable {σ : Type} (h : Handler ClientInterface σ) (s : σ)

@[simp] theorem run_espHttpClientInit (config : ClientConfig) :
    (espHttpClientInit config).run h s = h (.init config) s := rfl

@[simp] theorem run_espHttpClientSetHeader (key value : Bytes) :
    (espHttpClientSetHeader key value).run h s = h (.setHeader key value) s := rfl

@[simp] theorem run_espHttpClientSetMethod (method : HttpMethod) :
    (espHttpClientSetMethod method).run h s = h (.setMethod method) s := rfl

@[simp] theorem run_espHttpClientSetPostField (data : Bytes) :
    (espHttpClientSetPostField data).run h s = h (.setPostField data) s := rfl

@[simp] theorem run_espHttpClientPerform :
    espHttpClientPerform.run h s = h .perform s := rfl

@[simp] theorem run_espHttpClientGetStatusCode :
    espHttpClientGetStatusCode.run h s = h .getStatusCode s := rfl

@[simp] theorem run_espHttpClientGetContentLength :
    espHttpClientGetContentLength.run h s = h .getContentLength s := rfl

@[simp] theorem run_espHttpClientCleanup :
    espHttpClientCleanup.run h s = h .cleanup s := rfl

end Calls

structure ESP32HttpClient where
  bufferSize : ℕ
  maxResponseBodyLength : ℕ
  cert : Option Bytes
  certLength : ℕ

def connectionHeader : Bytes := ascii "Connection"

def keepAlive : Bytes := ascii "keep-alive"

def maxRedirections : ℤ := 3

def maxAuthTries : ℤ := 3

def httpClientEventHandler (req : HttpRequest) : ClientEvent → HttpRequest
  | .onHeader headerKey headerValue => req.setHeader headerKey.bytes headerValue.bytes
  | .onData data => req.onResponse fun response => { response with body := response.body ++ data }
  | _ => req

def ESP32HttpClient.config (client : ESP32HttpClient) (req : HttpRequest) : ClientConfig where
  url := cStr req.url
  port := toInt req.port
  username := if req.username.length ≠ 0 then some (cStr req.username) else none
  password := if req.password.length ≠ 0 then some (cStr req.password) else none
  authType := req.authType
  certPem := client.cert
  certLen := client.certLength
  timeoutMs := toInt req.timeoutMs
  maxRedirectionCount := maxRedirections
  maxAuthorizationRetries := maxAuthTries
  bufferSize := toInt client.bufferSize
  bufferSizeTx := toInt client.bufferSize

def setHeaders : List (Sigma fun _ : Bytes => Bytes) → ClientProgram Unit
  | [] => return ()
  | header :: headers => do
    espHttpClientSetHeader (cStr header.1) (cStr header.2)
    setHeaders headers

def ESP32HttpClient.initClient (client : ESP32HttpClient) (req : HttpRequest) :
    ClientProgram (Bool × HttpRequest) := do
  espHttpClientCleanup
  if (← espHttpClientInit (client.config req)) = false then
    return (false, req)
  let req := if req.keepConnection then req.setHeader connectionHeader keepAlive else req
  setHeaders req.headers.entries
  return (true, req)

/-- The result and the request object after the call. -/
def ESP32HttpClient.performRequest (client : ESP32HttpClient) (req : HttpRequest)
    (method : HttpMethod) : ClientProgram (Bool × HttpRequest) := do
  let (initialised, req) ← client.initClient req
  if initialised = false then
    return (false, req.setStatus .failed)
  let req := req.setStatus .pending
  espHttpClientSetMethod method
  if req.body.length ≠ 0 then
    espHttpClientSetPostField req.body
  let req := if req.response.isNone then req.createResponse else req
  let (events, ok) ← espHttpClientPerform
  let req := events.foldl httpClientEventHandler req
  let code ← espHttpClientGetStatusCode
  let req := req.onResponse fun response => { response with code := code }
  if ok then
    -- the length is only logged
    let _contentLength ← espHttpClientGetContentLength
    return (true, req.setStatus .ok)
  else
    return (false, req.setStatus .failed)

def ESP32HttpClient.GET (client : ESP32HttpClient) (req : HttpRequest) :
    ClientProgram (Bool × HttpRequest) := client.performRequest req .get

def ESP32HttpClient.POST (client : ESP32HttpClient) (req : HttpRequest) :
    ClientProgram (Bool × HttpRequest) := client.performRequest req .post

end HttpClient
