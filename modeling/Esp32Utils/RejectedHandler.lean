import Esp32Utils.RegisteredHandlers
import Esp32Utils.RegistrationLoop
import Mathlib.Data.Finset.Dedup

/-! # A handler that was rejected

The object keeps a handler that the running server has rejected and tries to register it
again at every later start, where it stops the loop. -/
namespace RejectedHandler

open ByteStrings InteractionProgram Httpd HttpWebserver WebserverRuns RegisteredHandlers
  RegistrationLoop

def registered (s : Servers) (k : HttpdHandle) : Option (Finset HttpdUri) :=
  (s.live k).map fun server => server.uriHandlers.toFinset

/-- What each call returns, and what is registered after it. -/
def observations : State → List Event → List (EspErr × (HttpdHandle → Option (Finset HttpdUri)))
  | _, [] => []
  | σ, e :: es =>
    ((step σ e).1, registered (step σ e).2.servers) :: observations (step σ e).2 es

def urisOf (es : List Event) : List HttpdUri :=
  es.filterMap fun e => match e with
    | .setUriHandler u => some u
    | _ => none

def answer (config : HttpdConfig) (us : List HttpdUri) (u : HttpdUri) : EspErr :=
  ((Server.mk config.maxUriHandlers us fun _ => none).registerUri u).1

/-- A start that finds the handlers `vs` set since the rejected one stops at the first of
them for the same reason. -/
def Alike (config : HttpdConfig) (us : List HttpdUri) (u : HttpdUri) (vs : List HttpdUri) : Prop :=
  ∃ v, vs.head? = some v ∧ answer config us v = answer config us u

/-- No start shows the rejected handler: either an earlier one stops the loop already, or
the first handler that was set after it stops the loop in the same way. -/
def Unnoticed (config : HttpdConfig) (us : List HttpdUri) (u : HttpdUri) (es : List Event) :
    Prop :=
  Acceptable config us → ∀ before rest, es = before ++ .start none :: rest →
    Alike config us u (urisOf before)

section Object

variable {σ : State} {e : Event} {config : HttpdConfig} {h : History}

theorem step_object_config : (step σ e).2.object.config = σ.object.config := by
  cases e with
  | setUriHandler u => rfl
  | setErrorHandler code handler => rfl
  | start outcome =>
    cases outcome with
    | none => rw [step_start_none_eq]
    | some err => rw [step_start_error]
  | stop => rfl

theorem step_object_handlers :
    (step σ e).2.object.handlers = σ.object.handlers ++ urisOf [e] := by
  cases e with
  | setUriHandler u => rfl
  | setErrorHandler code handler => exact (List.append_nil _).symm
  | start outcome =>
    cases outcome with
    | none =>
      rw [step_start_none_eq]
      exact (List.append_nil _).symm
    | some err =>
      rw [step_start_error]
      exact (List.append_nil _).symm
  | stop => exact (List.append_nil _).symm

theorem run_object (hr : Run config h σ) :
    σ.object.config = config ∧ σ.object.handlers = urisSet h := by
  induction hr with
  | init => exact ⟨rfl, rfl⟩
  | @step h σ e hr he ih =>
    refine ⟨step_object_config.trans ih.1, ?_⟩
    have huris : urisOf [e] = urisSet [(e, (step σ e).1)] := by cases e <;> rfl
    rw [step_object_handlers, ih.2, urisSet_append, huris]

end Object

section Twin

variable {config : HttpdConfig} {us vs : List HttpdUri} {u v : HttpdUri} {σ : State} {e : Event}
  {es : List Event}

/-- The state as it would be with the rejected handler behind `us`. -/
def twin (us : List HttpdUri) (u : HttpdUri) (vs : List HttpdUri) (σ : State) : State :=
  ⟨{ σ.object with handlers := us ++ u :: vs }, σ.servers⟩

theorem step_twin (hne : e ≠ .start none) :
    (step (twin us u vs σ) e).1 = (step σ e).1 ∧
      (step (twin us u vs σ) e).2 = twin us u (vs ++ urisOf [e]) (step σ e).2 := by
  cases e with
  | setUriHandler w =>
    have hlist : us ++ u :: vs ++ [w] = us ++ u :: (vs ++ [w]) := by simp
    refine ⟨rfl, ?_⟩
    change State.mk { σ.object with handlers := us ++ u :: vs ++ [w] } _ = _
    rw [hlist]
    rfl
  | setErrorHandler code handler =>
    rw [show urisOf [Event.setErrorHandler code handler] = [] from rfl, List.append_nil]
    exact ⟨rfl, rfl⟩
  | start outcome =>
    cases outcome with
    | none => exact absurd rfl hne
    | some err =>
      rw [step_start_error, step_start_error, show urisOf [Event.start (some err)] = [] from rfl,
        List.append_nil]
      exact ⟨rfl, rfl⟩
  | stop =>
    rw [show urisOf [Event.stop] = [] from rfl, List.append_nil]
    exact ⟨rfl, rfl⟩

theorem registerAll_unacceptable (hbad : ¬ Acceptable config us) (ws : List HttpdUri) :
    registerAll (emptyServer config) (us ++ ws) = registerAll (emptyServer config) us := by
  apply registerAll_append_error
  rw [Ne, registerAll_empty_ok_iff]
  exact hbad

theorem registerAll_acceptable (hok : Acceptable config us) (ws : List HttpdUri) :
    registerAll (emptyServer config) (us ++ ws) =
      registerAll ⟨config.maxUriHandlers, us, fun _ => none⟩ ws := by
  have hall := registerAll_empty_ok_iff.mpr hok
  rw [registerAll_append_ok hall, registerAll_table hall]
  rfl

theorem registerAll_rejected (hok : Acceptable config us) (hrej : answer config us u ≠ espOk) :
    registerAll (emptyServer config) (us ++ u :: vs) =
      (answer config us u, ⟨config.maxUriHandlers, us, fun _ => none⟩) := by
  rw [registerAll_acceptable hok, registerAll_cons_error hrej]
  rfl

theorem registerAll_alike_iff (hok : Acceptable config us) (hrej : answer config us u ≠ espOk) :
    ((registerAll (emptyServer config) (us ++ u :: vs)).1 =
        (registerAll (emptyServer config) (us ++ vs)).1 ∧
      (registerAll (emptyServer config) (us ++ u :: vs)).2.uriHandlers.toFinset =
        (registerAll (emptyServer config) (us ++ vs)).2.uriHandlers.toFinset) ↔
      Alike config us u vs := by
  rw [registerAll_rejected hok hrej, registerAll_acceptable hok]
  cases vs with
  | nil => simp [registerAll, Alike, hrej]
  | cons v vs =>
    by_cases hv : answer config us v = espOk
    · have hfresh := (registerUri_ok_iff.mp hv).1
      rw [registerAll_cons_ok hv]
      refine iff_of_false (fun h => ?_) (fun h => ?_)
      · have hmem : v ∈ (registerAll ⟨config.maxUriHandlers, us ++ [v], fun _ => none⟩
            vs).2.uriHandlers := mem_registerAll (List.mem_append_right us List.mem_cons_self)
        rw [← List.mem_toFinset, ← h.2, List.mem_toFinset] at hmem
        exact hfresh (List.mem_map_of_mem hmem)
      · obtain ⟨w, hw, heq⟩ := h
        obtain rfl : v = w := by simpa using hw
        exact hrej (heq.symm.trans hv)
    · rw [registerAll_cons_error hv]
      simp only [and_true, Alike, List.head?_cons, Option.some.injEq, exists_eq_left']
      exact eq_comm

theorem registerAll_of_alike (hok : Acceptable config us) (hrej : answer config us u ≠ espOk)
    (hal : Alike config us u vs) :
    registerAll (emptyServer config) (us ++ u :: vs) =
      registerAll (emptyServer config) (us ++ vs) := by
  obtain ⟨v, hv, heq⟩ := hal
  obtain ⟨ws, rfl⟩ := List.head?_eq_some_iff.mp hv
  rw [registerAll_rejected hok hrej, registerAll_rejected hok (heq ▸ hrej), heq]

theorem Alike.append (hal : Alike config us u vs) (ws : List HttpdUri) :
    Alike config us u (vs ++ ws) := by
  obtain ⟨v, hv, heq⟩ := hal
  exact ⟨v, by simp [hv], heq⟩

theorem step_twin_start (hc : σ.object.config = config) :
    step (twin us u vs σ) (.start none) =
      ((registerAll (emptyServer config) (us ++ u :: vs)).1,
        ⟨{ σ.object with server := some σ.servers.started, handlers := us ++ u :: vs },
          σ.servers.launch (registerAll (emptyServer config) (us ++ u :: vs)).2⟩) := by
  rw [step_start_none_eq, ← hc]
  rfl

theorem step_twin_same (hc : σ.object.config = config) (hh : σ.object.handlers = us ++ vs)
    (hloop : registerAll (emptyServer config) (us ++ u :: vs) =
      registerAll (emptyServer config) (us ++ vs)) :
    step (twin us u vs σ) (.start none) =
      ((step σ (.start none)).1, twin us u vs (step σ (.start none)).2) := by
  rw [step_twin_start hc, hloop, step_start_none_eq, hc, hh]
  rfl

theorem registered_launch (s : Servers) (server : Server) :
    registered (s.launch server) s.started = some server.uriHandlers.toFinset := by
  rw [registered, Servers.launch_live_self, Option.map_some]

theorem start_seen (hc : σ.object.config = config) (hh : σ.object.handlers = us ++ vs)
    (hret : (step (twin us u vs σ) (.start none)).1 = (step σ (.start none)).1)
    (hreg : registered (step (twin us u vs σ) (.start none)).2.servers =
      registered (step σ (.start none)).2.servers) :
    (registerAll (emptyServer config) (us ++ u :: vs)).1 =
        (registerAll (emptyServer config) (us ++ vs)).1 ∧
      (registerAll (emptyServer config) (us ++ u :: vs)).2.uriHandlers.toFinset =
        (registerAll (emptyServer config) (us ++ vs)).2.uriHandlers.toFinset := by
  rw [step_twin_start hc, step_start_none_eq, hc, hh] at hret hreg
  have htable := congrFun hreg σ.servers.started
  rw [registered_launch, registered_launch] at htable
  exact ⟨hret, Option.some.inj htable⟩

def Hidden (config : HttpdConfig) (us : List HttpdUri) (u : HttpdUri) (vs : List HttpdUri)
    (es : List Event) : Prop :=
  Acceptable config us → ∀ before rest, es = before ++ .start none :: rest →
    Alike config us u (vs ++ urisOf before)

theorem hidden_nil : Hidden config us u vs [] := by
  intro _ before rest h
  exact absurd h.symm (by simp)

theorem hidden_start : Hidden config us u vs (.start none :: es) ↔
    (Acceptable config us → Alike config us u vs) := by
  constructor
  · intro h hok
    have hal := h hok [] es rfl
    exact List.append_nil vs ▸ hal
  · intro h hok before rest _
    exact (h hok).append _

theorem hidden_other (he : e ≠ .start none) :
    Hidden config us u vs (e :: es) ↔ Hidden config us u (vs ++ urisOf [e]) es := by
  have huris : ∀ before, vs ++ urisOf (e :: before) = vs ++ urisOf [e] ++ urisOf before := by
    intro before
    rw [List.append_assoc, urisOf, urisOf, urisOf, ← List.filterMap_append,
      List.singleton_append]
  constructor
  · intro h hok before rest hes
    rw [← huris]
    apply h hok (e :: before) rest
    rw [hes, List.cons_append]
  · intro h hok before rest hes
    cases before with
    | nil => exact absurd (List.cons.inj hes).1 he
    | cons d before =>
      obtain ⟨rfl, hrest⟩ := List.cons.inj hes
      rw [huris]
      exact h hok before rest hrest

theorem registerAll_same (hrej : Acceptable config us → answer config us u ≠ espOk)
    (hal : Acceptable config us → Alike config us u vs) :
    registerAll (emptyServer config) (us ++ u :: vs) =
      registerAll (emptyServer config) (us ++ vs) := by
  by_cases hok : Acceptable config us
  · exact registerAll_of_alike hok (hrej hok) (hal hok)
  · exact (registerAll_unacceptable hok (u :: vs)).trans (registerAll_unacceptable hok vs).symm

theorem start_same_iff (hc : σ.object.config = config) (hh : σ.object.handlers = us ++ vs)
    (hrej : Acceptable config us → answer config us u ≠ espOk) :
    ((step (twin us u vs σ) (.start none)).1 = (step σ (.start none)).1 ∧
      registered (step (twin us u vs σ) (.start none)).2.servers =
        registered (step σ (.start none)).2.servers) ↔
      (Acceptable config us → Alike config us u vs) := by
  constructor
  · intro h hok
    apply (registerAll_alike_iff hok (hrej hok)).mp
    exact start_seen hc hh h.1 h.2
  · intro hal
    rw [step_twin_same hc hh (registerAll_same hrej hal)]
    exact ⟨rfl, rfl⟩

theorem observations_twin_iff (hc : σ.object.config = config)
    (hh : σ.object.handlers = us ++ vs)
    (hrej : Acceptable config us → answer config us u ≠ espOk) :
    observations (twin us u vs σ) es = observations σ es ↔ Hidden config us u vs es := by
  induction es generalizing σ vs with
  | nil => exact iff_of_true rfl hidden_nil
  | cons e es ih =>
    have hc' : (step σ e).2.object.config = config := step_object_config.trans hc
    have hh' : (step σ e).2.object.handlers = us ++ (vs ++ urisOf [e]) := by
      rw [step_object_handlers, hh, List.append_assoc]
    rw [observations, observations, List.cons.injEq, Prod.mk.injEq]
    by_cases he : e = .start none
    · subst e
      rw [start_same_iff hc hh hrej, hidden_start]
      apply and_iff_left_of_imp
      intro hal
      have hnone : urisOf [Event.start none] = [] := rfl
      rw [hnone, List.append_nil] at hh'
      rw [step_twin_same hc hh (registerAll_same hrej hal)]
      apply (ih hc' hh').mpr
      intro hok before rest _
      exact (hal hok).append _
    · obtain ⟨hret, hstate⟩ := @step_twin us vs u σ e he
      rw [hret, hstate, hidden_other he, ih hc' hh']
      exact and_iff_right ⟨rfl, rfl⟩

end Twin

section Reachable

variable {config : HttpdConfig} {h : History} {σ : State} {k : HttpdHandle} {server : Server}
  {u : HttpdUri}

theorem running_table (hr : Run config h σ) (ho : σ.object.server = some k)
    (hs : σ.servers.live k = some server) (hok : Acceptable config σ.object.handlers) :
    server = expected config h := by
  rw [(run_object hr).2] at hok
  have hi := run_invariant hr hok
  cases hrun : running h with
  | true =>
    obtain ⟨j, hj, hl⟩ := hi.up hrun
    obtain rfl : k = j := Option.some.inj (ho.symm.trans hj)
    rw [hl, Function.update_self] at hs
    exact (Option.some.inj hs).symm
  | false =>
    rw [hi.down hrun k] at hs
    cases hs

theorem answer_of_rejected (hr : Run config h σ) (ho : σ.object.server = some k)
    (hs : σ.servers.live k = some server) (hrej : (step σ (.setUriHandler u)).1 ≠ espOk)
    (hok : Acceptable config σ.object.handlers) :
    answer config σ.object.handlers u ≠ espOk := by
  have hret : (step σ (.setUriHandler u)).1 = (server.registerUri u).1 := by
    have hcall := @Servers.on_live σ.servers k server
      (fun server => ((server.registerUri u).1, some (server.registerUri u).2)) hs
    simp only [step, setUriHandler, ho, run_bind, run_httpdRegisterUriHandler, httpd, hcall,
      pure_eq_ret, run_ret]
  rw [hret, Ne, registerUri_ok_iff, running_table hr ho hs hok] at hrej
  rw [answer, Ne, registerUri_ok_iff, (run_object hr).2]
  exact hrej

theorem rejected_twin (ho : σ.object.server = some k) (hs : σ.servers.live k = some server)
    (hrej : (step σ (.setUriHandler u)).1 ≠ espOk) :
    (step σ (.setUriHandler u)).2 = twin σ.object.handlers u [] σ := by
  have hcall := @Servers.on_live σ.servers k server
    (fun server => ((server.registerUri u).1, some (server.registerUri u).2)) hs
  simp only [step, setUriHandler, ho, run_bind, run_httpdRegisterUriHandler, httpd, hcall,
    pure_eq_ret, run_ret] at hrej ⊢
  rw [registerUri_rejected hrej, Servers.put_self hs, twin]
  cases u
  rw [← ho]

end Reachable

/-- After a call that the running server rejects, every later sequence of calls is seen as
if it had not been made exactly when no start shows the handler that was kept. -/
theorem rejected_unseen_iff (config : HttpdConfig) (h : History) (σ : State) (k : HttpdHandle)
    (server : Server) (u : HttpdUri) (es : List Event) (hr : Run config h σ)
    (ho : σ.object.server = some k) (hs : σ.servers.live k = some server)
    (hrej : (step σ (.setUriHandler u)).1 ≠ espOk) :
    observations (step σ (.setUriHandler u)).2 es = observations σ es ↔
      Unnoticed config σ.object.handlers u es := by
  rw [rejected_twin ho hs hrej]
  exact observations_twin_iff (run_object hr).1 (List.append_nil _).symm
    (answer_of_rejected hr ho hs hrej)

def servingIndex : State := (step (step (initial ⟨8⟩) (.start none)).2 (.setUriHandler indexPage)).2

theorem run_servingIndex :
    Run ⟨8⟩ [(.start none, espOk), (.setUriHandler indexPage, espOk)] servingIndex :=
  have hstart := @Run.step ⟨8⟩ _ _ (.start none) .init fun _ => rfl
  @Run.step ⟨8⟩ _ _ (.setUriHandler indexPage) hstart trivial

/-- A second index page is rejected; a third, set once the server is stopped, would make the
next start fail anyway. -/
theorem rejected_unseen_sample :
    let es := [Event.stop, .setUriHandler indexPage, .start none]
    observations (step servingIndex (.setUriHandler indexPage)).2 es =
        observations servingIndex es ↔
      Unnoticed ⟨8⟩ servingIndex.object.handlers indexPage es :=
  rejected_unseen_iff ⟨8⟩ _ servingIndex 0 ⟨8, [indexPage], fun _ => none⟩ indexPage _
    run_servingIndex rfl rfl (by decide)

/-- After the rejected call, the server can be stopped but not be started again without
an error. -/
theorem rejected_handler_noticed :
    Run ⟨8⟩ [(.start none, espOk), (.setUriHandler indexPage, espOk)] servingIndex ∧
      servingIndex.object.server = some 0 ∧ (servingIndex.servers.live 0).isSome = true ∧
      (step servingIndex (.setUriHandler indexPage)).1 = some .handlerExists ∧
      observations (step servingIndex (.setUriHandler indexPage)).2 [.stop, .start none] ≠
        observations servingIndex [.stop, .start none] := by
  refine ⟨run_servingIndex, rfl, rfl, by decide, fun h => ?_⟩
  have hresults := congrArg (List.map Prod.fst) h
  exact absurd hresults (by decide)

end RejectedHandler
