import Esp32Utils.HttpUtils
import Mathlib.Data.List.AList

/-! # Requests and responses

The request object that is handed to the HTTP client, with the response it owns. -/
namespace HttpRequests

open ByteStrings HttpUtils

abbrev StringMap := AList fun _ : Bytes => Bytes

inductive RequestStatus where
  | iddle
  | ok
  | failed
  | pending
  deriving DecidableEq, Repr

structure HttpResponse where
  body : Bytes
  headers : StringMap
  code : ℤ

structure HttpRequest where
  url : Bytes
  body : Bytes
  timeoutMs : ℕ
  keepConnection : Bool
  port : ℕ
  username : Bytes
  password : Bytes
  status : RequestStatus
  authType : ℕ
  headers : StringMap
  response : Option HttpResponse

def httpDefaultTimeoutMs : ℕ := 30000

def httpDefaultPort : ℕ := 80

def HttpRequest.init (uri body : Bytes) : HttpRequest where
  url := uri
  body := body
  timeoutMs := httpDefaultTimeoutMs
  keepConnection := true
  port := httpDefaultPort
  username := []
  password := []
  status := .iddle
  authType := 0
  headers := ∅
  response := none

def HttpRequest.setHeader (req : HttpRequest) (header value : Bytes) : HttpRequest :=
  { req with headers := req.headers.insert header value }

def HttpRequest.setContentType (req : HttpRequest) (value : Bytes) : HttpRequest :=
  req.setHeader (ascii "Content-Type") value

def HttpRequest.createResponse (req : HttpRequest) : HttpRequest :=
  { req with response := some ⟨[], ∅, 0⟩ }

def HttpRequest.setStatus (req : HttpRequest) (status : RequestStatus) : HttpRequest :=
  { req with status := status }

/-- A write through the shared pointer to the response. -/
def HttpRequest.onResponse (req : HttpRequest) (f : HttpResponse → HttpResponse) : HttpRequest :=
  { req with response := req.response.map f }

def isProtocolValid (lib : StringUtils) (protocol : Bytes) : Bool :=
  lib.caseInsEquals protocol (ascii "http") || lib.caseInsEquals protocol (ascii "https")

/-- As for the functions on URLs, `none` is an exception. -/
def HttpRequest.isValid (lib : StringUtils) (req : HttpRequest) : Option Bool := do
  let (found, protocol) ← getProtocolFromUrl req.url []
  if found = false then
    return false
  if isProtocolValid lib protocol = false then
    return false
  return true

end HttpRequests
