import Esp32Utils.RegistrationLoop

/-! # A start that fails

The start of the server and every registration may report an error, for the reasons that the
server has or for others. A start that cannot register a handler leaves the server running. -/
namespace FailedStart

open ByteStrings InteractionProgram Httpd HttpWebserver WebserverRuns RegistrationLoop

/-- The HTTP server, where a registration may fail of itself and then does nothing. -/
def faultyHttpd : Environment HttpdInterface EspErr Servers
  | .httpdRegisterUriHandler _ _, some err, s => (some err, s)
  | .httpdRegisterErrHandler _ _ _, some err, s => (some err, s)
  | c, failure, s => httpd failure c s

abbrev Script := Stream' EspErr

def started (w : Webserver) (script : Script) (s : Servers) : (EspErr × Webserver) × Servers :=
  (start w).runScript faultyHttpd script s

/-- After an error nothing runs; otherwise a server runs with every stored handler. -/
def Clean (w : Webserver) (script : Script) (s : Servers) : Prop :=
  ((started w script s).1.1 ≠ espOk → ∀ k, (started w script s).2.live k = none) ∧
  ((started w script s).1.1 = espOk → ∃ k server, (started w script s).1.2.server = some k ∧
    (started w script s).2.live k = some server ∧ server.uriHandlers = w.handlers)

def Quiet (script : Script) (n : ℕ) : Prop := ∀ i, i < n → script.get i = espOk

section Registrations

variable {handle : Option HttpdHandle} {u : HttpdUri} {us : List HttpdUri} {ret : EspErr}
  {script : Script} {s : Servers} {k : HttpdHandle} {server : Server} {n : ℕ}

theorem quiet_succ : Quiet script (n + 1) ↔ script.head = espOk ∧ Quiet script.tail n := by
  constructor
  · intro h
    exact ⟨h 0 (Nat.succ_pos n), fun i hi => h (i + 1) (Nat.succ_lt_succ hi)⟩
  · intro h i hi
    cases i with
    | zero => exact h.1
    | succ i => exact h.2 i (Nat.lt_of_succ_lt_succ hi)

theorem register_quiet : faultyHttpd (.httpdRegisterUriHandler handle u) none s =
    httpd none (.httpdRegisterUriHandler handle u) s := rfl

theorem registerEach_cons : (registerEach handle (u :: us) ret).runScript faultyHttpd script s =
    if (faultyHttpd (.httpdRegisterUriHandler handle u) script.head s).1 = espOk then
      (registerEach handle us espOk).runScript faultyHttpd script.tail
        (faultyHttpd (.httpdRegisterUriHandler handle u) script.head s).2
    else faultyHttpd (.httpdRegisterUriHandler handle u) script.head s := by
  by_cases hok : (faultyHttpd (.httpdRegisterUriHandler handle u) script.head s).1 = espOk
  · simp [Program.runScript, registerEach, scripted, hok]
  · simp [Program.runScript, registerEach, scripted, hok]

theorem registerEach_quiet (hs : s.live k = some server) (hq : Quiet script us.length) :
    (registerEach (some k) us espOk).runScript faultyHttpd script s =
      ((registerAll server us).1, s.put k (some (registerAll server us).2)) := by
  rw [← @run_registerEach_eq server us s k none hs]
  induction us generalizing script s server with
  | nil => rfl
  | cons u us ih =>
    obtain ⟨hhead, hrest⟩ := quiet_succ.mp hq
    rw [registerEach_cons, hhead, register_quiet]
    by_cases hok : (httpd none (.httpdRegisterUriHandler (some k) u) s).1 = espOk
    · have hlive : (httpd none (.httpdRegisterUriHandler (some k) u) s).2.live k =
          some (server.registerUri u).2 := by
        rw [httpd, Servers.on_live hs]
        exact Servers.put_live_self _ _ _
      rw [if_pos hok, run_registerEach_ok hok]
      exact ih hlive hrest
    · rw [if_neg hok, run_registerEach_error hok]

theorem registerEach_disturbed (hq : ¬ Quiet script us.length) :
    ((registerEach handle us ret).runScript faultyHttpd script s).1 ≠ espOk := by
  induction us generalizing script s ret with
  | nil =>
    apply absurd _ hq
    intro i hi
    exact absurd hi (Nat.not_lt_zero i)
  | cons u us ih =>
    rw [registerEach_cons]
    by_cases hok : (faultyHttpd (.httpdRegisterUriHandler handle u) script.head s).1 = espOk
    · rw [if_pos hok]
      apply ih
      intro hrest
      apply hq
      refine quiet_succ.mpr ⟨?_, hrest⟩
      cases hhead : script.head with
      | none => rfl
      | some err =>
        rw [hhead] at hok
        exact absurd hok (Option.some_ne_none err)
    · rw [if_neg hok]
      exact hok

theorem register_live {failure : EspErr} (hs : s.live k ≠ none) :
    (faultyHttpd (.httpdRegisterUriHandler (some k) u) failure s).2.live k ≠ none := by
  cases failure with
  | some err => exact hs
  | none =>
    obtain ⟨server, hserver⟩ := Option.ne_none_iff_exists'.mp hs
    rw [register_quiet, httpd, Servers.on_live hserver, Servers.put_live_self]
    exact Option.some_ne_none _

theorem registerEach_live (hs : s.live k ≠ none) :
    ((registerEach (some k) us ret).runScript faultyHttpd script s).2.live k ≠ none := by
  induction us generalizing script s ret with
  | nil => exact hs
  | cons u us ih =>
    rw [registerEach_cons]
    split
    · exact ih (register_live hs)
    · exact register_live hs

end Registrations

section Starts

variable {w : Webserver} {script : Script} {s : Servers}

theorem started_failed (hfail : script.head ≠ espOk) :
    started w script s = ((script.head, w), s) := by
  cases hhead : script.head with
  | none => exact absurd hhead hfail
  | some err => simp [started, Program.runScript, start, scripted, faultyHttpd, httpd, hhead]

def registered (w : Webserver) (script : Script) (s : Servers) : EspErr × Servers :=
  (registerEach (some s.started) w.handlers espOk).runScript faultyHttpd script.tail
    (s.launch (emptyServer w.config))

theorem started_registers (hstart : script.head = espOk) : started w script s =
    (((registered w script s).1, { w with server := some s.started }),
      (registered w script s).2) := by
  simp [started, registered, Program.runScript, start, scripted, faultyHttpd, httpd, hstart,
    emptyServer]

theorem registered_live : (registered w script s).2.live s.started ≠ none := by
  apply registerEach_live
  rw [Servers.launch_live_self]
  exact Option.some_ne_none _

theorem registered_ok_iff : (registered w script s).1 = espOk ↔
    Acceptable w.config w.handlers ∧ Quiet script.tail w.handlers.length := by
  by_cases hq : Quiet script.tail w.handlers.length
  · rw [registered, registerEach_quiet (Servers.launch_live_self _ _) hq, registerAll_empty_ok_iff]
    exact (and_iff_left hq).symm
  · exact iff_of_false (registerEach_disturbed hq) fun h => hq h.2

theorem registered_table (hok : (registered w script s).1 = espOk) :
    (registered w script s).2.live s.started =
      some { emptyServer w.config with uriHandlers := w.handlers } := by
  have hq := (registered_ok_iff.mp hok).2
  have hlive := Servers.launch_live_self s (emptyServer w.config)
  rw [registered, registerEach_quiet hlive hq] at hok ⊢
  rw [Servers.put_live_self, registerAll_table hok]
  rfl

end Starts

/-- A start is clean exactly when the server itself does not start, or the stored handlers
have distinct routes within the limit and no registration fails of itself. -/
theorem clean_iff (w : Webserver) (script : Script) (s : Servers)
    (hstopped : ∀ k, s.live k = none) : Clean w script s ↔
      script.head ≠ espOk ∨
        Acceptable w.config w.handlers ∧ Quiet script.tail w.handlers.length := by
  by_cases hstart : script.head = espOk
  · rw [Clean, started_registers hstart, ← @registered_ok_iff w script s]
    constructor
    · intro hc
      by_contra hno
      rw [not_or] at hno
      exact registered_live (hc.1 hno.2 s.started)
    · intro h
      have hok := h.resolve_left (not_not.mpr hstart)
      refine ⟨fun hne => absurd hok hne, fun _ => ?_⟩
      exact ⟨s.started, _, rfl, registered_table hok, rfl⟩
  · rw [Clean, started_failed hstart]
    exact iff_of_true ⟨fun _ => hstopped, fun hok => absurd hok hstart⟩ (Or.inl hstart)

section Sample

def page : HttpdUri := ⟨ascii "/", 1, 0⟩

def noServers : Servers := ⟨fun _ => none, 0⟩

def form : HttpdUri := ⟨ascii "/", 3, 1⟩

def style : HttpdUri := ⟨ascii "/style", 1, 2⟩

/-- Three handlers, two of them for one path, and no call that fails. -/
theorem clean_sample :
    Clean ⟨none, ⟨3⟩, [page, form, style], ∅⟩ (Stream'.const espOk) noServers := by
  refine (clean_iff _ _ _ fun _ => rfl).mpr (Or.inr ⟨⟨by decide, by decide⟩, ?_⟩)
  intro i _
  rfl

/-- A route that is stored twice makes the start fail with the server running. -/
theorem failed_start_keeps_server :
    (started ⟨none, ⟨8⟩, [page, page], ∅⟩ (Stream'.const espOk) noServers).1.1 =
        some .handlerExists ∧
      ((started ⟨none, ⟨8⟩, [page, page], ∅⟩ (Stream'.const espOk) noServers).2.live 0).isSome ∧
      ¬ Clean ⟨none, ⟨8⟩, [page, page], ∅⟩ (Stream'.const espOk) noServers := by
  refine ⟨by decide, by decide, ?_⟩
  intro hc
  have hnone := hc.1 (by decide) 0
  exact absurd hnone (by decide)

end Sample

end FailedStart
