import Esp32Utils.Httpd
import Mathlib.Data.List.AList

/-! # Webserver

The object that keeps URI and error handlers and registers them with the HTTP server, each
method with its error code and the object after it. Then the object together with the server,
one client call at a time, and what each call does when a server runs and when none does. -/
namespace HttpWebserver

open ByteStrings InteractionProgram Httpd

structure Webserver where
  server : Option HttpdHandle
  config : HttpdConfig
  handlers : List HttpdUri
  errHandlers : AList fun _ : HttpdErrCode => ErrorHandler

def Webserver.init (config : HttpdConfig) : Webserver := ⟨none, config, [], ∅⟩

/-- The registering loop of `start`, which leaves at the first error. -/
def registerEach (server : Option HttpdHandle) : List HttpdUri → EspErr → HttpdProgram EspErr
  | [], ret => pure ret
  | handler :: handlers, _ => do
    let ret ← httpdRegisterUriHandler server handler
    if ret ≠ espOk then
      return ret
    registerEach server handlers ret

def start (w : Webserver) : HttpdProgram (EspErr × Webserver) := do
  match ← httpdStart w.config with
  | .error err => return (some err, w)
  | .ok handle =>
    let w := { w with server := some handle }
    let ret ← registerEach w.server w.handlers espOk
    return (ret, w)

def stop (w : Webserver) : HttpdProgram (EspErr × Webserver) := do
  let ret ← httpdStop w.server
  return (ret, w)

def setUriHandler (w : Webserver) (uri : Bytes) (method : HttpdMethod) (handler : UriHandler) :
    HttpdProgram (EspErr × Webserver) := do
  let w := { w with handlers := w.handlers ++ [⟨uri, method, handler⟩] }
  let ret ← httpdRegisterUriHandler w.server ⟨uri, method, handler⟩
  return (ret, w)

def setErrorHandler (w : Webserver) (code : HttpdErrCode) (handler : ErrorHandler) :
    HttpdProgram (EspErr × Webserver) := do
  let w := { w with errHandlers := w.errHandlers.insert code handler }
  let ret ← httpdRegisterErrHandler w.server code handler
  return (ret, w)

end HttpWebserver

namespace WebserverRuns

open InteractionProgram Httpd HttpWebserver

structure State where
  object : Webserver
  servers : Servers

def initial (config : HttpdConfig) : State := ⟨.init config, ⟨fun _ => none, 0⟩⟩

/-- The calls of a client; a start comes with what `httpd_start` answers. -/
inductive Event where
  | setUriHandler (u : HttpdUri)
  | setErrorHandler (code : HttpdErrCode) (handler : ErrorHandler)
  | start (outcome : EspErr)
  | stop
  deriving DecidableEq

def step (σ : State) (e : Event) : EspErr × State :=
  let r := match e with
    | .setUriHandler u =>
      (setUriHandler σ.object u.uri u.method u.handler).run (httpd espOk) σ.servers
    | .setErrorHandler code handler =>
      (setErrorHandler σ.object code handler).run (httpd espOk) σ.servers
    | .start outcome => (start σ.object).run (httpd outcome) σ.servers
    | .stop => (stop σ.object).run (httpd espOk) σ.servers
  (r.1.1, ⟨r.1.2, r.2⟩)

def NothingRuns (σ : State) : Prop := ∀ k, σ.servers.live k = none

/-- Distinct routes, within the limit of the server. -/
def Acceptable (config : HttpdConfig) (us : List HttpdUri) : Prop :=
  (us.map HttpdUri.key).Nodup ∧ us.length ≤ config.maxUriHandlers

section Calls

variable {σ : State} {k : HttpdHandle} {server : Server} {u : HttpdUri} {us : List HttpdUri}
  {code : HttpdErrCode} {handler : ErrorHandler} {s : Servers} {outcome ret : EspErr}
  {handle : Option HttpdHandle}

theorem httpd_registerUri (hs : s.live k = some server)
    (hnodup : ((server.uriHandlers ++ u :: us).map HttpdUri.key).Nodup)
    (hroom : (server.uriHandlers ++ u :: us).length ≤ server.maxUriHandlers) :
    httpd outcome (.httpdRegisterUriHandler (some k) u) s =
      (espOk, s.put k (some { server with uriHandlers := server.uriHandlers ++ [u] })) := by
  have hfresh : u.key ∉ server.uriHandlers.map HttpdUri.key := by
    rw [List.map_append, List.nodup_append] at hnodup
    intro hmem
    exact hnodup.2.2 _ hmem _ List.mem_cons_self rfl
  have hlt : server.uriHandlers.length < server.maxUriHandlers := by
    simp only [List.length_append, List.length_cons] at hroom
    omega
  simp only [httpd, Servers.on_live hs, Server.registerUri_ok hfresh hlt]

theorem run_registerEach_ok (h : (httpd outcome (.httpdRegisterUriHandler handle u) s).1 = espOk) :
    (registerEach handle (u :: us) ret).run (httpd outcome) s =
      (registerEach handle us espOk).run (httpd outcome)
        (httpd outcome (.httpdRegisterUriHandler handle u) s).2 := by
  simp only [registerEach, run_bind, run_httpdRegisterUriHandler, h, ne_eq, not_true_eq_false,
    if_false]

theorem run_registerEach_error
    (h : (httpd outcome (.httpdRegisterUriHandler handle u) s).1 ≠ espOk) :
    (registerEach handle (u :: us) ret).run (httpd outcome) s =
      httpd outcome (.httpdRegisterUriHandler handle u) s := by
  simp only [registerEach, run_bind, run_httpdRegisterUriHandler, h, ne_eq, not_false_eq_true,
    if_true, pure_eq_ret, run_ret]

theorem run_registerEach (hs : s.live k = some server)
    (hnodup : ((server.uriHandlers ++ us).map HttpdUri.key).Nodup)
    (hroom : (server.uriHandlers ++ us).length ≤ server.maxUriHandlers) :
    (registerEach (some k) us espOk).run (httpd outcome) s =
      (espOk, s.put k (some { server with uriHandlers := server.uriHandlers ++ us })) := by
  induction us generalizing s server with
  | nil => simp only [registerEach, pure_eq_ret, run_ret, List.append_nil, Servers.put_self hs]
  | cons u us ih =>
    have hsplit : server.uriHandlers ++ u :: us = (server.uriHandlers ++ [u]) ++ us := by simp
    have hfirst := @httpd_registerUri k server u us s outcome hs hnodup hroom
    have hrest := @ih { server with uriHandlers := server.uriHandlers ++ [u] }
      (s.put k (some { server with uriHandlers := server.uriHandlers ++ [u] }))
      (Servers.put_live_self _ _ _) (hsplit ▸ hnodup) (hsplit ▸ hroom)
    simp only [registerEach, run_bind, run_httpdRegisterUriHandler, hfirst, ne_eq,
      not_true_eq_false, if_false, hrest, Servers.put_put, hsplit]

def freshServer (σ : State) : Servers :=
  σ.servers.launch ⟨σ.object.config.maxUriHandlers, [], fun _ => none⟩

theorem step_start_none : step σ (.start none) =
    (((registerEach (some σ.servers.started) σ.object.handlers espOk).run (httpd none)
        (freshServer σ)).1,
      ⟨{ σ.object with server := some σ.servers.started },
        ((registerEach (some σ.servers.started) σ.object.handlers espOk).run (httpd none)
          (freshServer σ)).2⟩) := by
  simp only [step, start, run_bind, run_httpdStart, httpd, pure_eq_ret, run_ret, freshServer]

theorem step_start_ok (hok : Acceptable σ.object.config σ.object.handlers) :
    step σ (.start none) = (espOk, ⟨{ σ.object with server := some σ.servers.started },
      σ.servers.launch ⟨σ.object.config.maxUriHandlers, σ.object.handlers, fun _ => none⟩⟩) := by
  have hrun := @run_registerEach σ.servers.started
    ⟨σ.object.config.maxUriHandlers, [], fun _ => none⟩ σ.object.handlers
    (σ.servers.launch ⟨σ.object.config.maxUriHandlers, [], fun _ => none⟩) none
    (Servers.launch_live_self _ _) hok.1 hok.2
  simp only [step, start, run_bind, run_httpdStart, httpd, hrun, List.nil_append,
    Servers.launch_put]
  rfl

theorem step_start_error (err : HttpdError) : step σ (.start (some err)) = (some err, σ) := by
  simp [step, start, httpd]

theorem step_stop_live (ho : σ.object.server = some k) (hs : σ.servers.live k = some server) :
    step σ .stop = (espOk, ⟨σ.object, σ.servers.put k none⟩) := by
  simp [step, stop, httpd, ho, Servers.on_live hs]

theorem step_stop_dead (hn : NothingRuns σ) : step σ .stop = (some .invalidArg, σ) := by
  simp [step, stop, httpd, Servers.on_dead fun k _ => hn k]

theorem step_setUriHandler_live (ho : σ.object.server = some k)
    (hs : σ.servers.live k = some server)
    (hnodup : ((server.uriHandlers ++ [u]).map HttpdUri.key).Nodup)
    (hroom : (server.uriHandlers ++ [u]).length ≤ server.maxUriHandlers) :
    step σ (.setUriHandler u) = (espOk,
      ⟨{ σ.object with handlers := σ.object.handlers ++ [u] },
        σ.servers.put k (some { server with uriHandlers := server.uriHandlers ++ [u] })⟩) := by
  simp [step, setUriHandler, ho, httpd_registerUri hs hnodup hroom]

theorem step_setUriHandler_dead (hn : NothingRuns σ) :
    step σ (.setUriHandler u) = (some .invalidArg,
      ⟨{ σ.object with handlers := σ.object.handlers ++ [u] }, σ.servers⟩) := by
  simp [step, setUriHandler, httpd, Servers.on_dead fun k _ => hn k]

theorem step_setErrorHandler_live (ho : σ.object.server = some k)
    (hs : σ.servers.live k = some server) :
    step σ (.setErrorHandler code handler) = (espOk,
      ⟨{ σ.object with errHandlers := σ.object.errHandlers.insert code handler },
        σ.servers.put k (some { server with
          errHandlers := Function.update server.errHandlers code (some handler) })⟩) := by
  simp [step, setErrorHandler, httpd, ho, Servers.on_live hs]

theorem step_setErrorHandler_dead (hn : NothingRuns σ) :
    step σ (.setErrorHandler code handler) = (some .invalidArg,
      ⟨{ σ.object with errHandlers := σ.object.errHandlers.insert code handler },
        σ.servers⟩) := by
  simp [step, setErrorHandler, httpd, Servers.on_dead fun k _ => hn k]

end Calls

end WebserverRuns
