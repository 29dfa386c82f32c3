import Esp32Utils.WebserverRuns
import Mathlib.Data.List.Induction

/-! # What a running server has registered

A start registers the URI handlers kept by the object and not its error handlers, so that
a server has those error handlers only that were set while it was running. -/
namespace RegisteredHandlers

open ByteStrings Httpd HttpWebserver WebserverRuns

def Enabled (σ : State) : Event → Prop
  | .start _ => NothingRuns σ
  | _ => True

abbrev History := List (Event × EspErr)

inductive Run (config : HttpdConfig) : History → State → Prop where
  | init : Run config [] (initial config)
  | step {h σ e} : Run config h σ → Enabled σ e →
      Run config (h ++ [(e, (step σ e).1)]) (step σ e).2

/-- A start has returned `ESP_OK` and no stop has been called since. -/
def running (h : History) : Bool :=
  h.foldl (fun up c => match c with
    | (.start _, none) => true
    | (.stop, _) => false
    | _ => up) false

def urisSet (h : History) : List HttpdUri :=
  h.filterMap fun c => match c.1 with
    | .setUriHandler u => some u
    | _ => none

def setError (code : HttpdErrCode) (last : Option ErrorHandler) : Event → Option ErrorHandler
  | .setErrorHandler code' handler => if code = code' then some handler else last
  | _ => last

def lastError (h : History) (code : HttpdErrCode) : Option ErrorHandler :=
  h.foldl (fun last c => setError code last c.1) none

def lastErrorSinceStart (h : History) (code : HttpdErrCode) : Option ErrorHandler :=
  h.foldl (fun last c => if c.1 = .start none then none else setError code last c.1) none

section History

variable {h : History} {c : Event × EspErr} {code : HttpdErrCode} {handler : ErrorHandler}

theorem running_append : running (h ++ [c]) = match c with
    | (.start _, none) => true
    | (.stop, _) => false
    | _ => running h := by
  simp [running]

theorem urisSet_append : urisSet (h ++ [c]) = urisSet h ++ urisSet [c] :=
  List.filterMap_append

theorem lastError_append : lastError (h ++ [c]) code = setError code (lastError h code) c.1 := by
  simp [lastError]

theorem lastErrorSinceStart_append :
    lastErrorSinceStart (h ++ [c]) code =
      if c.1 = .start none then none else setError code (lastErrorSinceStart h code) c.1 := by
  simp [lastErrorSinceStart]

theorem setError_eq_some {last : Option ErrorHandler} {e : Event} :
    setError code last e = some handler ↔
      e = .setErrorHandler code handler ∨
        (∀ handler', e ≠ .setErrorHandler code handler') ∧ last = some handler := by
  cases e with
  | setErrorHandler code' handler' =>
    by_cases hc : code = code'
    · simp [setError, hc]
    · simp [setError, hc, Ne.symm hc]
  | setUriHandler u => simp [setError]
  | start outcome => simp [setError]
  | stop => simp [setError]

theorem lastError_of_sinceStart (hs : lastErrorSinceStart h code = some handler) :
    lastError h code = some handler := by
  induction h using List.reverseRecOn with
  | nil => cases hs
  | append_singleton h c ih =>
    rw [lastErrorSinceStart_append] at hs
    rw [lastError_append]
    split at hs
    · cases hs
    · rw [setError_eq_some] at hs ⊢
      exact hs.imp_right fun hk => ⟨hk.1, ih hk.2⟩

end History

/-- While a server runs, it is the only one, and it has every handler set so far. -/
def Complete (h : History) (σ : State) : Prop :=
  running h = true → ∃ k server,
    σ.servers.live = Function.update (fun _ => none) k (some server) ∧
    server.uriHandlers = urisSet h ∧ ∀ code, server.errHandlers code = lastError h code

variable {config : HttpdConfig} {h : History} {σ : State} {e : Event}

def expected (config : HttpdConfig) (h : History) : Server :=
  ⟨config.maxUriHandlers, urisSet h, lastErrorSinceStart h⟩

structure Invariant (config : HttpdConfig) (h : History) (σ : State) : Prop where
  config_eq : σ.object.config = config
  handlers_eq : σ.object.handlers = urisSet h
  up : running h = true → ∃ k, σ.object.server = some k ∧
    σ.servers.live = Function.update (fun _ => none) k (some (expected config h))
  down : running h = false → NothingRuns σ

theorem initial_invariant : Invariant config [] (initial config) where
  config_eq := rfl
  handlers_eq := rfl
  up := fun h => by cases h
  down := fun _ _ => rfl

section Only

variable {s : Servers} {k : HttpdHandle} {server : Server}

theorem only_live (hl : s.live = Function.update (fun _ => none) k (some server)) :
    s.live k = some server := by
  rw [hl, Function.update_self]

theorem only_put (hl : s.live = Function.update (fun _ => none) k (some server))
    (new : Option Server) : (s.put k new).live = Function.update (fun _ => none) k new := by
  rw [Servers.put, hl, Function.update_idem]

end Only

theorem Invariant.setUriHandler {u : HttpdUri} (hi : Invariant config h σ)
    (hok : Acceptable config (urisSet h ++ [u])) :
    Invariant config (h ++ [(.setUriHandler u, (step σ (.setUriHandler u)).1)])
      (step σ (.setUriHandler u)).2 := by
  have huris : ∀ ret, urisSet (h ++ [(.setUriHandler u, ret)]) = urisSet h ++ [u] :=
    fun ret => urisSet_append
  cases hr : running h with
  | true =>
    obtain ⟨k, ho, hl⟩ := hi.up hr
    rw [step_setUriHandler_live ho (only_live hl) hok.1 hok.2]
    refine ⟨hi.config_eq, by rw [huris, hi.handlers_eq], fun _ => ⟨k, ho, ?_⟩, ?_⟩
    · have herr : ∀ ret, lastErrorSinceStart (h ++ [(.setUriHandler u, ret)]) =
          lastErrorSinceStart h := by
        intro ret
        funext code
        simp [lastErrorSinceStart_append, setError]
      simp [only_put hl, expected, huris, herr]
    · simp [running_append, hr]
  | false =>
    rw [step_setUriHandler_dead (hi.down hr)]
    refine ⟨hi.config_eq, by rw [huris, hi.handlers_eq], ?_, fun _ => hi.down hr⟩
    simp [running_append, hr]

theorem Invariant.setErrorHandler {code : HttpdErrCode} {handler : ErrorHandler}
    (hi : Invariant config h σ) :
    Invariant config (h ++ [(.setErrorHandler code handler,
      (step σ (.setErrorHandler code handler)).1)]) (step σ (.setErrorHandler code handler)).2 := by
  have huris : ∀ ret, urisSet (h ++ [(.setErrorHandler code handler, ret)]) = urisSet h :=
    fun ret => urisSet_append.trans (List.append_nil _)
  cases hr : running h with
  | true =>
    obtain ⟨k, ho, hl⟩ := hi.up hr
    rw [step_setErrorHandler_live ho (only_live hl)]
    refine ⟨hi.config_eq, by rw [huris, hi.handlers_eq], fun _ => ⟨k, ho, ?_⟩, ?_⟩
    · have herr : ∀ ret, lastErrorSinceStart (h ++ [(.setErrorHandler code handler, ret)]) =
          Function.update (lastErrorSinceStart h) code (some handler) := by
        intro ret
        funext code'
        simp [lastErrorSinceStart_append, setError, Function.update_apply]
      simp [only_put hl, expected, huris, herr]
    · simp [running_append, hr]
  | false =>
    rw [step_setErrorHandler_dead (hi.down hr)]
    refine ⟨hi.config_eq, by rw [huris, hi.handlers_eq], ?_, fun _ => hi.down hr⟩
    simp [running_append, hr]

theorem Invariant.stop (hi : Invariant config h σ) :
    Invariant config (h ++ [(.stop, (step σ .stop).1)]) (step σ .stop).2 := by
  have huris : ∀ ret, urisSet (h ++ [(.stop, ret)]) = urisSet h :=
    fun ret => urisSet_append.trans (List.append_nil _)
  cases hr : running h with
  | true =>
    obtain ⟨k, ho, hl⟩ := hi.up hr
    rw [step_stop_live ho (only_live hl)]
    refine ⟨hi.config_eq, by rw [huris, hi.handlers_eq], by simp [running_append], fun _ j => ?_⟩
    simp [only_put hl, Function.update_apply]
  | false =>
    rw [step_stop_dead (hi.down hr)]
    exact ⟨hi.config_eq, by rw [huris, hi.handlers_eq], by simp [running_append],
      fun _ => hi.down hr⟩

theorem Invariant.start {outcome : EspErr} (hi : Invariant config h σ) (hn : NothingRuns σ)
    (hok : Acceptable config (urisSet h)) :
    Invariant config (h ++ [(.start outcome, (step σ (.start outcome)).1)])
      (step σ (.start outcome)).2 := by
  have huris : ∀ ret, urisSet (h ++ [(.start outcome, ret)]) = urisSet h :=
    fun ret => urisSet_append.trans (List.append_nil _)
  cases outcome with
  | none =>
    rw [← hi.handlers_eq, ← hi.config_eq] at hok
    rw [step_start_ok hok]
    refine ⟨hi.config_eq, by rw [huris, hi.handlers_eq],
      fun _ => ⟨σ.servers.started, rfl, ?_⟩, by simp [running_append]⟩
    have hnone : σ.servers.live = fun _ => none := funext hn
    have herr : ∀ ret, lastErrorSinceStart (h ++ [(.start none, ret)]) = fun _ => none :=
      fun ret => funext fun _ => lastErrorSinceStart_append
    simp [Servers.launch, hnone, expected, huris, herr, hi.handlers_eq, hi.config_eq]
  | some err =>
    rw [step_start_error]
    refine ⟨hi.config_eq, by rw [huris, hi.handlers_eq], fun hr => ?_, fun _ => hn⟩
    have herr : lastErrorSinceStart (h ++ [(.start (some err), some err)]) =
        lastErrorSinceStart h := by
      funext code
      simp [lastErrorSinceStart_append, setError]
    rw [running_append] at hr
    rw [expected, huris, herr]
    exact hi.up hr

theorem Acceptable.of_append {us vs : List HttpdUri} (h : Acceptable config (us ++ vs)) :
    Acceptable config us := by
  have hsub : us.Sublist (us ++ vs) := List.sublist_append_left us vs
  exact ⟨(hsub.map HttpdUri.key).nodup h.1, hsub.length_le.trans h.2⟩

theorem step_invariant (hi : Invariant config h σ) (he : Enabled σ e)
    (hok : Acceptable config (urisSet (h ++ [(e, (step σ e).1)]))) :
    Invariant config (h ++ [(e, (step σ e).1)]) (step σ e).2 := by
  cases e with
  | setUriHandler u =>
    rw [urisSet_append] at hok
    exact hi.setUriHandler hok
  | setErrorHandler code handler => exact hi.setErrorHandler
  | start outcome => exact hi.start he (Acceptable.of_append (urisSet_append ▸ hok))
  | stop => exact hi.stop

theorem run_invariant (hr : Run config h σ) (hok : Acceptable config (urisSet h)) :
    Invariant config h σ := by
  induction hr with
  | init => exact initial_invariant
  | @step h σ e hr he ih =>
    have hh : Acceptable config (urisSet h) := Acceptable.of_append (urisSet_append ▸ hok)
    exact step_invariant (ih hh) he hok

/-- At every point of every run, the running server has all handlers set so far exactly
when each error code with a handler has been given one since the last start. -/
theorem handlers_complete_iff (config : HttpdConfig) (h : History) (σ : State)
    (hr : Run config h σ) (hok : Acceptable config (urisSet h)) :
    Complete h σ ↔ (running h = true →
      ∀ code, lastError h code ≠ none → lastErrorSinceStart h code ≠ none) := by
  have hi := run_invariant hr hok
  constructor
  · intro hc hrun code hlast hsince
    obtain ⟨k, server, hl, -, herr⟩ := hc hrun
    obtain ⟨j, -, hl'⟩ := hi.up hrun
    have hk := only_live hl
    have hserver : server = expected config h := by
      rw [hl', Function.update_apply] at hk
      split at hk
      · exact (Option.some.inj hk).symm
      · cases hk
    apply hlast
    rw [← herr code, hserver]
    exact hsince
  · intro hc hrun
    obtain ⟨k, -, hl⟩ := hi.up hrun
    refine ⟨k, expected config h, hl, rfl, fun code => ?_⟩
    change lastErrorSinceStart h code = lastError h code
    cases hs : lastErrorSinceStart h code with
    | some handler => exact (lastError_of_sinceStart hs).symm
    | none =>
      by_contra hne
      exact hc hrun code (Ne.symm hne) hs

def indexPage : HttpdUri := ⟨ascii "/", 1, 0⟩

theorem handlers_complete_iff_sample :
    let h : History := [(.setUriHandler indexPage, some .invalidArg), (.start none, none),
      (.setErrorHandler 404 7, none)]
    let σ := (step (step (step (initial ⟨8⟩) (.setUriHandler indexPage)).2 (.start none)).2
      (.setErrorHandler 404 7)).2
    Complete h σ ↔ (running h = true →
      ∀ code, lastError h code ≠ none → lastErrorSinceStart h code ≠ none) := by
  intro h σ
  have huri := @Run.step ⟨8⟩ _ _ (.setUriHandler indexPage) .init trivial
  have hstart := @Run.step ⟨8⟩ _ _ (.start none) huri fun _ => rfl
  have herr := @Run.step ⟨8⟩ _ _ (.setErrorHandler 404 7) hstart trivial
  exact handlers_complete_iff ⟨8⟩ h σ herr ⟨by decide, by decide⟩

/-- The same error handler set before the start is kept and never registered. -/
theorem error_handler_not_registered :
    let h : History := [(.setErrorHandler 404 7, some .invalidArg), (.start none, none)]
    let σ := (step (step (initial ⟨8⟩) (.setErrorHandler 404 7)).2 (.start none)).2
    Run ⟨8⟩ h σ ∧ Acceptable ⟨8⟩ (urisSet h) ∧ running h = true ∧
      σ.object.errHandlers.lookup 404 = some 7 ∧ ¬ Complete h σ := by
  intro h σ
  have hset := @Run.step ⟨8⟩ _ _ (.setErrorHandler 404 7) .init trivial
  have hstart := @Run.step ⟨8⟩ _ _ (.start none) hset fun _ => rfl
  refine ⟨hstart, ⟨by decide, by decide⟩, by decide, by decide, fun hc => ?_⟩
  obtain ⟨k, server, hl, -, herr⟩ := hc (by decide)
  have hlive : σ.servers.live k = Function.update (fun _ => none) 0
      (some ⟨8, [], fun _ => none⟩) k := rfl
  rw [hl, Function.update_self, Function.update_apply] at hlive
  split at hlive
  · obtain rfl := Option.some.inj hlive
    have hlast : lastError h 404 = some 7 := by decide
    exact absurd ((herr 404).trans hlast) (by simp)
  · cases hlive

end RegisteredHandlers
