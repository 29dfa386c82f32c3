import Esp32Utils.ByteStrings
import Esp32Utils.Interaction.Program
import Mathlib.Logic.Function.Basic

/-! # The HTTP server of the platform

The four calls of `esp_http_server` that a web server object makes, and the tables behind
them. A handle that is NULL or belongs to a stopped server is rejected without effect. -/
namespace Httpd

open ByteStrings InteractionProgram

/-- C enumerations and function pointers are compared by value only. -/
abbrev HttpdMethod := ℕ
abbrev HttpdErrCode := ℕ
abbrev UriHandler := ℕ
abbrev ErrorHandler := ℕ
abbrev HttpdHandle := ℕ

inductive HttpdError where
  | invalidArg
  | handlersFull
  | handlerExists
  | allocMem
  | task
  deriving DecidableEq, Repr

/-- `esp_err_t`, with `ESP_OK` for no error. -/
abbrev EspErr := Option HttpdError

abbrev espOk : EspErr := none

structure HttpdUri where
  uri : Bytes
  method : HttpdMethod
  handler : UriHandler
  deriving DecidableEq

structure HttpdConfig where
  maxUriHandlers : ℕ

inductive HttpdCall where
  | httpdStart (config : HttpdConfig)
  | httpdStop (handle : Option HttpdHandle)
  | httpdRegisterUriHandler (handle : Option HttpdHandle) (uriHandler : HttpdUri)
  | httpdRegisterErrHandler (handle : Option HttpdHandle) (code : HttpdErrCode)
      (handler : ErrorHandler)

/-- A start that fails leaves the handle variable alone. -/
abbrev HttpdInterface : Interface where
  Call := HttpdCall
  Resp
    | .httpdStart _ => Except HttpdError HttpdHandle
    | _ => EspErr

abbrev HttpdProgram := Program HttpdInterface

def httpdStart (config : HttpdConfig) : HttpdProgram (Except HttpdError HttpdHandle) :=
  @perform HttpdInterface (.httpdStart config)

def httpdStop (handle : Option HttpdHandle) : HttpdProgram EspErr :=
  @perform HttpdInterface (.httpdStop handle)

def httpdRegisterUriHandler (handle : Option HttpdHandle) (uriHandler : HttpdUri) :
    HttpdProgram EspErr :=
  @perform HttpdInterface (.httpdRegisterUriHandler handle uriHandler)

def httpdRegisterErrHandler (handle : Option HttpdHandle) (code : HttpdErrCode)
    (handler : ErrorHandler) : HttpdProgram EspErr :=
  @perform HttpdInterface (.httpdRegisterErrHandler handle code handler)

section Calls

variable {σ : Type} (h : Handler HttpdInterface σ) (s : σ) (config : HttpdConfig)
  (handle : Option HttpdHandle) (uriHandler : HttpdUri) (code : HttpdErrCode)
  (handler : ErrorHandler)

@[simp] theorem run_httpdStart : (httpdStart config).run h s = h (.httpdStart config) s := rfl

@[simp] theorem run_httpdStop : (httpdStop handle).run h s = h (.httpdStop handle) s := rfl

@[simp] theorem run_httpdRegisterUriHandler :
    (httpdRegisterUriHandler handle uriHandler).run h s =
      h (.httpdRegisterUriHandler handle uriHandler) s := rfl

@[simp] theorem run_httpdRegisterErrHandler :
    (httpdRegisterErrHandler handle code handler).run h s =
      h (.httpdRegisterErrHandler handle code handler) s := rfl

end Calls

structure Server where
  maxUriHandlers : ℕ
  uriHandlers : List HttpdUri
  errHandlers : HttpdErrCode → Option ErrorHandler

def HttpdUri.key (u : HttpdUri) : Bytes × HttpdMethod := (u.uri, u.method)

def Server.registerUri (server : Server) (u : HttpdUri) : EspErr × Server :=
  if u.key ∈ server.uriHandlers.map HttpdUri.key then (some .handlerExists, server)
  else if server.uriHandlers.length < server.maxUriHandlers then
    (espOk, { server with uriHandlers := server.uriHandlers ++ [u] })
  else (some .handlersFull, server)

/-- The servers that are running, by handle; handles are never reused. -/
structure Servers where
  live : HttpdHandle → Option Server
  started : ℕ

def Servers.put (s : Servers) (k : HttpdHandle) (server : Option Server) : Servers :=
  { s with live := Function.update s.live k server }

def Servers.launch (s : Servers) (server : Server) : Servers where
  live := Function.update s.live s.started (some server)
  started := s.started + 1

def Servers.on (s : Servers) (handle : Option HttpdHandle)
    (f : Server → EspErr × Option Server) : EspErr × Servers :=
  match handle with
  | none => (some .invalidArg, s)
  | some k =>
    match s.live k with
    | none => (some .invalidArg, s)
    | some server => ((f server).1, s.put k (f server).2)

/-- The HTTP server, where `outcome` is what becomes of a start. -/
def httpd (outcome : EspErr) : Handler HttpdInterface Servers
  | .httpdStart config, s =>
    match outcome with
    | some err => (.error err, s)
    | none => (.ok s.started, s.launch ⟨config.maxUriHandlers, [], fun _ => none⟩)
  | .httpdStop handle, s => s.on handle fun _ => (espOk, none)
  | .httpdRegisterUriHandler handle u, s =>
    s.on handle fun server => ((server.registerUri u).1, some (server.registerUri u).2)
  | .httpdRegisterErrHandler handle code handler, s =>
    s.on handle fun server => (espOk, some { server with
      errHandlers := Function.update server.errHandlers code (some handler) })

section Tables

variable {s : Servers} {k : HttpdHandle} {server : Server} {u : HttpdUri}
  {handle : Option HttpdHandle} {f : Server → EspErr × Option Server}

@[simp] theorem Servers.put_live_self (s : Servers) (k : HttpdHandle) (server : Option Server) :
    (s.put k server).live k = server := by
  simp [Servers.put]

@[simp] theorem Servers.put_put (s : Servers) (k : HttpdHandle) (server server' : Option Server) :
    (s.put k server).put k server' = s.put k server' := by
  simp [Servers.put]

@[simp] theorem Servers.launch_live_self (s : Servers) (server : Server) :
    (s.launch server).live s.started = some server := by
  simp [Servers.launch]

@[simp] theorem Servers.launch_put (s : Servers) (server server' : Server) :
    (s.launch server).put s.started (some server') = s.launch server' := by
  simp [Servers.launch, Servers.put]

theorem Servers.put_self (h : s.live k = some server) : s.put k (some server) = s := by
  simp [Servers.put, ← h]

theorem Servers.on_dead (h : ∀ k, handle = some k → s.live k = none) :
    s.on handle f = (some .invalidArg, s) := by
  cases handle with
  | none => rfl
  | some k => simp [Servers.on, h k rfl]

theorem Servers.on_live (h : s.live k = some server) :
    s.on (some k) f = ((f server).1, s.put k (f server).2) := by
  simp [Servers.on, h]

theorem Server.registerUri_ok (hfresh : u.key ∉ server.uriHandlers.map HttpdUri.key)
    (hroom : server.uriHandlers.length < server.maxUriHandlers) :
    server.registerUri u = (espOk, { server with uriHandlers := server.uriHandlers ++ [u] }) := by
  simp [Server.registerUri, hfresh, hroom]

end Tables

end Httpd
