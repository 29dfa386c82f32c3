import Esp32Utils.Interaction.CallDiscipline
import Esp32Utils.WebserverRuns
import Mathlib.Data.List.Induction

/-! # Handles of stopped servers

The object keeps the handle of the last server it started, also after stopping it, and
passes it on with every later call. -/
namespace LiveHandles

open ByteStrings InteractionProgram InteractionDiscipline Httpd HttpWebserver WebserverRuns

def Servers.accepts (s : Servers) (handle : Option HttpdHandle) : Bool :=
  handle.all fun k => (s.live k).isSome

/-- The handle that is passed is NULL or that of a running server. -/
def OnLive (c : HttpdCall) (s : Servers) : Prop :=
  match c with
  | .httpdStart _ => True
  | .httpdStop handle => Servers.accepts s handle = true
  | .httpdRegisterUriHandler handle _ => Servers.accepts s handle = true
  | .httpdRegisterErrHandler handle _ _ => Servers.accepts s handle = true

def program (w : Webserver) : Event → HttpdProgram (EspErr × Webserver)
  | .setUriHandler u => setUriHandler w u.uri u.method u.handler
  | .setErrorHandler code handler => setErrorHandler w code handler
  | .start _ => start w
  | .stop => stop w

def outcome : Event → EspErr
  | .start outcome => outcome
  | _ => espOk

def OnLiveHandles (σ : State) (e : Event) : Prop :=
  Always (httpd (outcome e)) OnLive (program σ.object e) σ.servers

def after (config : HttpdConfig) (es : List Event) : State :=
  es.foldl (fun σ e => (step σ e).2) (initial config)

/-- What has become of the last handle that a start gave. -/
inductive Lifecycle where
  | null
  | running
  | ended
  deriving DecidableEq, Repr

def Lifecycle.next : Lifecycle → Event → Lifecycle
  | _, .start none => .running
  | .running, .stop => .ended
  | l, _ => l

def lifecycle (es : List Event) : Lifecycle := es.foldl Lifecycle.next .null

def isStart : Event → Bool
  | .start _ => true
  | _ => false

def Tracks (σ : State) : Lifecycle → Prop
  | .null => σ.object.server = none
  | .running => ∃ k, σ.object.server = some k ∧ (σ.servers.live k).isSome = true
  | .ended => ∃ k, σ.object.server = some k ∧ (σ.servers.live k).isSome = false

section Calls

variable {s : Servers} {handle : Option HttpdHandle} {k : HttpdHandle} {u : HttpdUri}
  {us : List HttpdUri} {code : HttpdErrCode} {handler : ErrorHandler} {o ret : EspErr}
  {f : Server → EspErr × Option Server}

theorem on_isSome (hf : ∀ server, (f server).2.isSome = true) :
    ((s.on handle f).2.live k).isSome = (s.live k).isSome := by
  cases handle with
  | none => rfl
  | some j =>
    cases hl : s.live j with
    | none => simp [Servers.on, hl]
    | some server =>
      simp only [Servers.on_live hl, Servers.put, Function.update_apply]
      by_cases hk : k = j
      · rw [if_pos hk, hf, hk, hl]
        rfl
      · rw [if_neg hk]

theorem registerUri_isSome :
    ((httpd o (.httpdRegisterUriHandler handle u) s).2.live k).isSome = (s.live k).isSome :=
  on_isSome fun _ => rfl

theorem registerErr_isSome :
    ((httpd o (.httpdRegisterErrHandler handle code handler) s).2.live k).isSome =
      (s.live k).isSome :=
  on_isSome fun _ => rfl

theorem registerEach_isSome :
    (((registerEach handle us ret).run (httpd o) s).2.live k).isSome = (s.live k).isSome := by
  induction us generalizing s ret with
  | nil => rfl
  | cons u us ih =>
    by_cases hret : (httpd o (.httpdRegisterUriHandler handle u) s).1 = espOk
    · rw [run_registerEach_ok hret, ih, registerUri_isSome]
    · rw [run_registerEach_error hret, registerUri_isSome]

theorem registerEach_onLive (hk : (s.live k).isSome = true) :
    Always (httpd o) OnLive (registerEach (some k) us ret) s := by
  induction us generalizing s ret with
  | nil => trivial
  | cons u us ih =>
    simp only [registerEach]
    rw [always_bind]
    refine ⟨(always_perform _).mpr hk, ?_⟩
    apply always_ite
    · intro _
      trivial
    · intro _
      exact ih (registerUri_isSome.trans hk)

end Calls

section Steps

variable {σ : State} {l : Lifecycle} {e : Event} {u : HttpdUri} {config : HttpdConfig}
  {es : List Event}

theorem freshServer_isSome : ((freshServer σ).live σ.servers.started).isSome = true := by
  rw [freshServer, Servers.launch_live_self, Option.isSome_some]

theorem Tracks.of_isSome {σ' : State} (ht : Tracks σ l) (ho : σ'.object.server = σ.object.server)
    (hs : ∀ k, (σ'.servers.live k).isSome = (σ.servers.live k).isSome) : Tracks σ' l := by
  cases l with
  | null => exact ho.trans ht
  | running =>
    obtain ⟨k, hk, hl⟩ := ht
    exact ⟨k, ho.trans hk, (hs k).trans hl⟩
  | ended =>
    obtain ⟨k, hk, hl⟩ := ht
    exact ⟨k, ho.trans hk, (hs k).trans hl⟩

theorem stop_tracks (ht : Tracks σ l) : Tracks (step σ .stop).2 (l.next .stop) := by
  have hstep : (step σ .stop).2 =
      ⟨σ.object, (σ.servers.on σ.object.server fun _ => (espOk, none)).2⟩ := by
    simp only [step, stop, run_bind, run_httpdStop, httpd, pure_eq_ret, run_ret]
  rw [hstep]
  cases l with
  | null =>
    exact ht
  | running =>
    obtain ⟨k, hk, hl⟩ := ht
    obtain ⟨server, hserver⟩ := Option.isSome_iff_exists.mp hl
    refine ⟨k, hk, ?_⟩
    rw [hk, Servers.on_live hserver, Servers.put_live_self, Option.isSome_none]
  | ended =>
    obtain ⟨k, hk, hl⟩ := ht
    refine ⟨k, hk, ?_⟩
    have hdead : ∀ j, σ.object.server = some j → σ.servers.live j = none := by
      intro j hj
      obtain rfl : k = j := Option.some.inj (hk.symm.trans hj)
      exact Option.not_isSome_iff_eq_none.mp (by rw [hl]; decide)
    rw [Servers.on_dead hdead]
    exact hl

theorem step_tracks (ht : Tracks σ l) : Tracks (step σ e).2 (l.next e) := by
  cases e with
  | setUriHandler u =>
    have hl : l.next (.setUriHandler u) = l := by cases l <;> rfl
    rw [hl]
    exact ht.of_isSome rfl fun k => registerUri_isSome
  | setErrorHandler code handler =>
    have hl : l.next (.setErrorHandler code handler) = l := by cases l <;> rfl
    rw [hl]
    exact ht.of_isSome rfl fun k => registerErr_isSome
  | start outcome =>
    cases outcome with
    | none =>
      have hl : l.next (.start none) = .running := by cases l <;> rfl
      rw [hl, step_start_none]
      exact ⟨σ.servers.started, rfl, registerEach_isSome.trans freshServer_isSome⟩
    | some err =>
      have hl : l.next (.start (some err)) = l := by cases l <;> rfl
      rw [hl, step_start_error]
      exact ht
  | stop => exact stop_tracks ht

theorem after_append : after config (es ++ [e]) = (step (after config es) e).2 := by
  simp [after]

theorem lifecycle_append : lifecycle (es ++ [e]) = (lifecycle es).next e := by
  simp [lifecycle]

theorem after_tracks (config : HttpdConfig) (es : List Event) :
    Tracks (after config es) (lifecycle es) := by
  induction es using List.reverseRecOn with
  | nil => rfl
  | append_singleton es e ih =>
    rw [after_append, lifecycle_append]
    exact step_tracks ih

theorem Tracks.accepts_iff (ht : Tracks σ l) :
    Servers.accepts σ.servers σ.object.server = true ↔ l ≠ .ended := by
  cases l with
  | null =>
    rw [show σ.object.server = none from ht]
    simp [Servers.accepts]
  | running =>
    obtain ⟨k, hk, hl⟩ := ht
    simp [Servers.accepts, hk, hl]
  | ended =>
    obtain ⟨k, hk, hl⟩ := ht
    simp [Servers.accepts, hk, hl]

theorem onLiveHandles_iff (ht : Tracks σ l) :
    OnLiveHandles σ e ↔ (l = .ended → isStart e = true) := by
  have haccepts := ht.accepts_iff
  cases e with
  | setUriHandler u =>
    have hcall : OnLiveHandles σ (.setUriHandler u) ↔
        Servers.accepts σ.servers σ.object.server = true :=
      always_perform_pure _ _
    simp [hcall, haccepts, isStart]
  | setErrorHandler code handler =>
    have hcall : OnLiveHandles σ (.setErrorHandler code handler) ↔
        Servers.accepts σ.servers σ.object.server = true :=
      always_perform_pure _ _
    simp [hcall, haccepts, isStart]
  | stop =>
    have hcall : OnLiveHandles σ .stop ↔ Servers.accepts σ.servers σ.object.server = true :=
      always_perform_pure _ _
    simp [hcall, haccepts, isStart]
  | start o =>
    have hstart : OnLiveHandles σ (.start o) := by
      rw [OnLiveHandles, program, start, always_bind]
      refine ⟨(always_perform _).mpr trivial, ?_⟩
      cases o with
      | some err => trivial
      | none => exact always_bind.mpr ⟨registerEach_onLive freshServer_isSome, trivial⟩
    exact iff_of_true hstart fun _ => rfl

end Steps

/-- The calls of a client only ever use live handles exactly when, once a stop has ended
the handle of the last server, the next call is a start until one succeeds. -/
theorem live_handles_iff (config : HttpdConfig) (es : List Event) :
    (∀ before e rest, es = before ++ e :: rest → OnLiveHandles (after config before) e) ↔
      ∀ before e rest, es = before ++ e :: rest → lifecycle before = .ended → isStart e = true := by
  constructor
  · intro h before e rest hes
    exact (onLiveHandles_iff (after_tracks config before)).mp (h before e rest hes)
  · intro h before e rest hes
    exact (onLiveHandles_iff (after_tracks config before)).mpr (h before e rest hes)

/-- A handler set after a stop goes to the server that is gone. -/
theorem stale_handle_used :
    let es : List Event := [.start none, .stop, .setUriHandler ⟨ascii "/", 1, 0⟩]
    let before : List Event := [.start none, .stop]
    es = before ++ [.setUriHandler ⟨ascii "/", 1, 0⟩] ∧
      (after ⟨8⟩ before).object.server = some 0 ∧ (after ⟨8⟩ before).servers.live 0 = none ∧
      ¬ OnLiveHandles (after ⟨8⟩ before) (.setUriHandler ⟨ascii "/", 1, 0⟩) := by
  intro es before
  refine ⟨rfl, rfl, rfl, ?_⟩
  rw [onLiveHandles_iff (after_tracks _ _)]
  intro h
  exact absurd (h (by decide)) (by decide)

end LiveHandles
