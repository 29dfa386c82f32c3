import Esp32Utils.HttpExchanges
import Esp32Utils.Interaction.GuardedRuns
import Esp32Utils.Interaction.HandleSessions
import Esp32Utils.Interaction.CallDiscipline

/-! # Handles of HTTP clients

Any number of tasks perform requests with any number of client objects and request objects,
their calls interleaved. A handle outlives the request it was opened for: the library keeps the
address of the request object, and the handler is given it when the handle is closed. -/
namespace ClientHandles

open ByteStrings InteractionProgram InteractionDiscipline GuardedRuns HandleSessions HttpRequests
open HttpClient

/-- Client objects are not copied; closing a handle delivers neither headers nor data; calls on
one client object do not overlap; a request object is used for one request at a time and is
neither changed nor destroyed meanwhile. -/
structure Guarantees where
  uncopied : Bool
  quiet : Bool
  exclusive : Bool
  leftAlone : Bool
  deriving DecidableEq

def Guarantees.all : Guarantees := ⟨true, true, true, true⟩

structure Reply where
  ok : Bool
  events : List ClientEvent
  number : ℤ

def answer : (c : ClientCall) → Reply → ClientInterface.Resp c
  | .init _, x => x.ok
  | .perform, x => (x.events, x.ok)
  | .getStatusCode, x => x.number
  | .getContentLength, x => x.number
  | .setHeader _ _, _ => ()
  | .setMethod _, _ => ()
  | .setPostField _, _ => ()
  | .cleanup, _ => ()

structure Performing (C R : Type) where
  client : C
  request : R
  rest : ClientProgram (Bool × HttpRequest)

/-- `field` is the handle that a client object keeps, `userData` the request object of a handle.
`misused`: a call was given no handle; `dangled`: a request object that is gone has been used. -/
structure State (T C R : Type) where
  object : C → Option ESP32HttpClient
  field : C → Option ℕ
  request : R → Option HttpRequest
  task : T → Option (Performing C R)
  userData : ℕ → Option R
  opened : ℕ
  log : List (Access ℕ)
  misused : Bool
  dangled : Bool

/-- The events in which the handler uses the request object. -/
def touches : ClientEvent → Bool
  | .onHeader _ _ => true
  | .onData _ => true
  | _ => false

section Steps

variable {T C R : Type} [DecidableEq T] [DecidableEq C] [DecidableEq R]

def initial : State T C R :=
  ⟨fun _ => none, fun _ => none, fun _ => none, fun _ => none, fun _ => none, 0, [], false, false⟩

def State.build (s : State T C R) (i : C) (client : Option ESP32HttpClient) : State T C R :=
  { s with object := Function.update s.object i client }

def State.keep (s : State T C R) (i : C) (handle : Option ℕ) : State T C R :=
  { s with field := Function.update s.field i handle }

def State.put (s : State T C R) (r : R) (req : Option HttpRequest) : State T C R :=
  { s with request := Function.update s.request r req }

def State.enter (s : State T C R) (t : T) (p : Option (Performing C R)) : State T C R :=
  { s with task := Function.update s.task t p }

def State.deliver (s : State T C R) (handle : ℕ) (events : List ClientEvent) : State T C R :=
  { s with
    dangled := s.dangled || (events.any touches && ((s.userData handle).bind s.request).isNone) }

def State.access (s : State T C R) (a : Access ℕ) : State T C R := { s with log := s.log ++ [a] }

def State.open (s : State T C R) (i : C) (r : R) (ok : Bool) : State T C R :=
  if ok then
    { (s.keep i (some s.opened)).access (.opened s.opened) with
      userData := Function.update s.userData s.opened (some r)
      opened := s.opened + 1 }
  else s.keep i none

def State.use (s : State T C R) (i : C) (events : List ClientEvent) : State T C R :=
  match s.field i with
  | some handle => (s.deliver handle events).access (.used handle)
  | none => { s with misused := true }

def State.close (g : Guarantees) (s : State T C R) (i : C) (events : List ClientEvent) :
    State T C R :=
  match s.field i with
  | some handle =>
    let delivered := if g.quiet then events.filter fun e => !touches e else events
    ((s.deliver handle delivered).access (.closed handle)).keep i none
  | none => s

def served (g : Guarantees) (s : State T C R) (i : C) (r : R) : ClientCall → Reply → State T C R
  | .init _, x => s.open i r x.ok
  | .cleanup, x => s.close g i x.events
  | .perform, x => s.use i x.events
  | _, _ => s.use i []

/-- The request object as a request leaves it. -/
def State.give (s : State T C R) (r : R) (req : HttpRequest) : State T C R :=
  { s.put r ((s.request r).map fun _ => req) with
    dangled := s.dangled || (s.request r).isNone }

inductive Event (T C R : Type) where
  | construct (i : C) (bufferSize maxResponseBodyLength : ℕ)
  | copy (i j : C)
  | setCertificate (i : C) (cert : Option Bytes) (length : ℕ)
  | destroy (i : C) (x : Reply)
  | put (r : R) (req : HttpRequest)
  | drop (r : R)
  | request (t : T) (i : C) (r : R) (method : HttpMethod)
  | call (t : T) (x : Reply)
  | finish (t : T)

def Busy (s : State T C R) (i : C) : Prop := ∃ t p, s.task t = some p ∧ p.client = i

def InUse (s : State T C R) (r : R) : Prop := ∃ t p, s.task t = some p ∧ p.request = r

def Enabled (g : Guarantees) (s : State T C R) : Event T C R → Prop
  | .construct i _ _ => s.object i = none
  | .copy i j => g.uncopied = false ∧ s.object i ≠ none ∧ s.object j = none ∧
      (g.exclusive = true → ¬ Busy s i)
  | .setCertificate i _ _ => s.object i ≠ none ∧ (g.exclusive = true → ¬ Busy s i)
  | .destroy i _ => s.object i ≠ none ∧ (g.exclusive = true → ¬ Busy s i)
  | .put r _ => g.leftAlone = true → ¬ InUse s r
  | .drop r => g.leftAlone = true → ¬ InUse s r
  | .request t i r _ => s.task t = none ∧ s.object i ≠ none ∧ s.request r ≠ none ∧
      (g.exclusive = true → ¬ Busy s i) ∧ (g.leftAlone = true → ¬ InUse s r)
  | .call t _ => ∃ i r c k, s.task t = some ⟨i, r, .call c k⟩
  | .finish t => ∃ i r res, s.task t = some ⟨i, r, .ret res⟩

def performRequest (client : ESP32HttpClient) (req : HttpRequest) :
    HttpMethod → ClientProgram (Bool × HttpRequest)
  | .get => client.GET req
  | .post => client.POST req

def next (g : Guarantees) (s : State T C R) : Event T C R → State T C R
  | .construct i bufferSize maxResponseBodyLength =>
    (s.keep i none).build i (some ⟨bufferSize, maxResponseBodyLength, none, 0⟩)
  | .copy i j => (s.keep j (s.field i)).build j (s.object i)
  | .setCertificate i cert length =>
    s.build i ((s.object i).map fun client => { client with cert := cert, certLength := length })
  | .destroy i x => (s.close g i x.events).build i none
  | .put r req => s.put r (some req)
  | .drop r => s.put r none
  | .request t i r method =>
    match s.object i, s.request r with
    | some client, some req => s.enter t (some ⟨i, r, performRequest client req method⟩)
    | _, _ => s
  | .call t x =>
    match s.task t with
    | some ⟨i, r, .call c k⟩ => (served g s i r c x).enter t (some ⟨i, r, k (answer c x)⟩)
    | _ => s
  | .finish t =>
    match s.task t with
    | some ⟨_, r, .ret (_, req)⟩ => (s.give r req).enter t none
    | _ => s

def system (g : Guarantees) (T C R : Type) [DecidableEq T] [DecidableEq C] [DecidableEq R] :
    System (State T C R) (Event T C R) where
  initial := initial
  Enabled := Enabled g
  next := next g

end Steps

section Modes

inductive Mode where
  | unknown
  | closed
  | own

/-- A handle is opened when none is kept, and only one opened for this request is used. -/
def handleModes : Typestate ClientInterface Mode where
  Allowed
    | m, .init _ => m = .closed
    | _, .cleanup => True
    | m, _ => m = .own
  next
    | _, .init _, (ok : Bool) => if ok then .own else .closed
    | _, .cleanup, _ => .closed
    | m, _, _ => m

variable {client : ESP32HttpClient} {req : HttpRequest} {m : Mode}

theorem setHeaders_keeps (headers : List (Sigma fun _ : Bytes => Bytes)) :
    Keeps handleModes (fun _ m => m = .own) (setHeaders headers) .own := by
  induction headers with
  | nil => exact rfl
  | cons header headers ih => exact ⟨rfl, fun _ _ => ih⟩

theorem initClient_keeps :
    Keeps handleModes (fun res m => res.1 = true → m = .own) (client.initClient req) m := by
  refine ⟨trivial, fun _ _ => ⟨rfl, fun ok _ => ?_⟩⟩
  cases ok with
  | false => exact fun h => absurd h Bool.false_ne_true
  | true =>
    change Keeps handleModes _ (setHeaders _ >>= fun _ => pure (true, _)) .own
    apply Keeps.bind
    apply (setHeaders_keeps _).mono
    intro _ m hm
    exact fun _ => hm

theorem performRequest_keeps (method : HttpMethod) :
    Keeps handleModes (fun _ _ => True) (client.performRequest req method) m := by
  apply Keeps.bind
  apply initClient_keeps.mono
  rintro ⟨ok, req⟩ m hm
  cases ok with
  | false => exact trivial
  | true =>
    obtain rfl := hm rfl
    refine ⟨rfl, fun _ _ => ?_⟩
    apply Keeps.ite
    · intro _
      refine ⟨rfl, fun _ _ => ⟨rfl, fun res _ => ⟨rfl, fun _ _ => ?_⟩⟩⟩
      exact Keeps.ite (fun _ => ⟨rfl, fun _ _ => trivial⟩) fun _ => trivial
    · intro _
      refine ⟨rfl, fun res _ => ⟨rfl, fun _ _ => ?_⟩⟩
      exact Keeps.ite (fun _ => ⟨rfl, fun _ _ => trivial⟩) fun _ => trivial

end Modes

section Invariant

variable {T C R : Type}

structure Held (s : State T C R) : Prop where
  live : Live s.log
  fresh : ∀ k, .opened k ∈ s.log → k < s.opened
  owned : ∀ k, IsOpen s.log k ↔ ∃ i, s.field i = some k
  unique : ∀ i j k, s.field i = some k → s.field j = some k → i = j

def Agrees (s : State T C R) (i : C) (r : R) : Mode → Prop
  | .unknown => True
  | .closed => s.field i = none
  | .own => ∃ k, s.field i = some k ∧ s.userData k = some r

/-- Both objects of a request exist, and what is left of it may be done with the handle that
the client object keeps. -/
structure Sound (s : State T C R) (p : Performing C R) : Prop where
  object : s.object p.client ≠ none
  request : s.request p.request ≠ none
  rest : ∃ m, Keeps handleModes (fun _ _ => True) p.rest m ∧ Agrees s p.client p.request m

structure Inv (s : State T C R) : Prop where
  held : Held s
  objects : ∀ i, s.object i = none → s.field i = none
  alone : ∀ t t' p p', s.task t = some p → s.task t' = some p' → p.client = p'.client → t = t'
  running : ∀ t p, s.task t = some p → Sound s p
  calm : s.misused = false
  safe : s.dangled = false

/-- A step in the library with client `i`, which no other client notices. -/
structure Kept (s u : State T C R) (i : C) : Prop where
  held : Held u
  calm : u.misused = false
  safe : u.dangled = false
  object : u.object = s.object
  request : u.request = s.request
  task : u.task = s.task
  fields : ∀ j, j ≠ i → u.field j = s.field j
  users : ∀ j k, j ≠ i → s.field j = some k → u.userData k = s.userData k

variable {s u : State T C R} {t t' : T} {i j : C} {r : R} {k : ℕ} {p : Performing C R}
  {events : List ClientEvent} {g : Guarantees}

theorem Held.lt (h : Held s) (hi : s.field i = some k) : k < s.opened :=
  h.fresh k ((h.owned k).mpr ⟨i, hi⟩).1

theorem Held.used (h : Held s) (hi : s.field i = some k) :
    Held ((s.deliver k events).access (.used k)) where
  live := by
    apply h.live.concat
    intro j hj
    obtain rfl : k = j := by simpa using hj
    exact (h.owned k).mpr ⟨i, hi⟩
  fresh j hj := h.fresh j (by simpa [State.access, State.deliver] using hj)
  owned j := isOpen_used.trans (h.owned j)
  unique := h.unique

theorem Agrees.beside {m : Mode} (h : Agrees s j r m) (hk : Kept s u i) (hj : j ≠ i) :
    Agrees u j r m := by
  cases m with
  | unknown => exact trivial
  | closed => exact (hk.fields j hj).trans h
  | own =>
    obtain ⟨k, hfield, huser⟩ := h
    exact ⟨k, (hk.fields j hj).trans hfield, (hk.users j k hj hfield).trans huser⟩

theorem Sound.beside (h : Sound s p) (hk : Kept s u i) (hp : p.client ≠ i) : Sound u p := by
  obtain ⟨m, hkeeps, hagrees⟩ := h.rest
  refine ⟨?_, ?_, m, hkeeps, hagrees.beside hk hp⟩
  · rw [hk.object]
    exact h.object
  · rw [hk.request]
    exact h.request

theorem Inv.kept (h : Inv s) : Kept s s i :=
  ⟨h.held, h.calm, h.safe, rfl, rfl, rfl, fun _ _ => rfl, fun _ _ _ _ => rfl⟩

theorem deliver_safe (h : Inv s) (hk : s.userData k = some r) (hreq : s.request r ≠ none) :
    (s.deliver k events).dangled = false := by
  obtain ⟨req, hreq⟩ := Option.ne_none_iff_exists'.mp hreq
  simp [State.deliver, h.safe, hk, hreq]

theorem Inv.used (h : Inv s) (hown : Agrees s i r .own) (hreq : s.request r ≠ none)
    (events : List ClientEvent) :
    Kept s (s.use i events) i ∧ Agrees (s.use i events) i r .own := by
  obtain ⟨k, hi, hk⟩ := hown
  rw [State.use, hi]
  refine ⟨⟨h.held.used hi, h.calm, deliver_safe h hk hreq, rfl, rfl, rfl, ?_, ?_⟩, k, hi, hk⟩
  · exact fun _ _ => rfl
  · exact fun _ _ _ _ => rfl

theorem inv_initial : Inv (initial : State T C R) where
  held :=
    { live := live_nil
      fresh := fun k hk => absurd hk List.not_mem_nil
      owned := fun k => ⟨fun h => absurd h.1 List.not_mem_nil, fun ⟨_, h⟩ => by cases h⟩
      unique := fun i j k hi => by cases hi }
  objects i _ := rfl
  alone t t' p p' ht := by cases ht
  running t p ht := by cases ht
  calm := rfl
  safe := rfl

theorem Inv.put [DecidableEq R] (h : Inv s) {req : Option HttpRequest}
    (hr : req = none → ¬ InUse s r) : Inv (s.put r req) where
  held := ⟨h.held.live, h.held.fresh, h.held.owned, h.held.unique⟩
  objects := h.objects
  alone := h.alone
  running t p ht := by
    have hsound := h.running t p ht
    obtain ⟨m, hkeeps, hagrees⟩ := hsound.rest
    refine ⟨hsound.object, ?_, m, hkeeps, by cases m <;> exact hagrees⟩
    change Function.update s.request r req p.request ≠ none
    by_cases hp : p.request = r
    · rw [hp, Function.update_self]
      exact fun hnone => hr hnone ⟨t, p, ht, hp⟩
    · rw [Function.update_of_ne hp]
      exact hsound.request
  calm := h.calm
  safe := h.safe

theorem entered [DecidableEq T] {q : Option (Performing C R)} (hu : u.task = s.task)
    (h : (u.enter t q).task t' = some p) : t' = t ∧ q = some p ∨ t' ≠ t ∧ s.task t' = some p := by
  by_cases ht : t' = t
  · subst ht
    have hself : (u.enter t' q).task t' = q := Function.update_self ..
    exact Or.inl ⟨rfl, hself.symm.trans h⟩
  · refine Or.inr ⟨ht, ?_⟩
    rw [← hu]
    exact (Function.update_of_ne ht ..).symm.trans h

/-- Only open handles are used and closed, an open handle is kept by exactly one object, and
only request objects that exist are used. Without client objects all handles are closed. -/
structure Safe (s : State T C R) : Prop where
  live : Live s.log
  owned : ∀ k, IsOpen s.log k ↔ ∃! i, s.object i ≠ none ∧ s.field i = some k
  sound : s.misused = false
  defined : s.dangled = false
  balanced : (∀ i, s.object i = none) → Balanced s.log

theorem Inv.safe_handles (h : Inv s) : Safe s := by
  have hpresent : ∀ i k, s.field i = some k → s.object i ≠ none := by
    intro i k hi habsent
    rw [h.objects i habsent] at hi
    cases hi
  refine ⟨h.held.live, fun k => ?_, h.calm, h.safe, fun habsent => ?_⟩
  · rw [h.held.owned]
    constructor
    · rintro ⟨i, hi⟩
      exact ⟨i, ⟨hpresent i k hi, hi⟩, fun j hj => h.held.unique j i k hj.2 hi⟩
    · rintro ⟨i, hi, -⟩
      exact ⟨i, hi.2⟩
  · apply h.held.live.balanced
    intro k hk
    obtain ⟨i, hi⟩ := (h.held.owned k).mp hk
    exact hpresent i k hi (habsent i)

theorem Inv.enter [DecidableEq T] (h : Inv s) (hk : Kept s u i) (hobject : s.object i ≠ none)
    (hothers : ∀ t' p', t' ≠ t → s.task t' = some p' → p'.client ≠ i)
    {q : Option (Performing C R)} (hq : ∀ p, q = some p → p.client = i ∧ Sound u p) :
    Inv (u.enter t q) where
  held := ⟨hk.held.live, hk.held.fresh, hk.held.owned, hk.held.unique⟩
  objects j hj := by
    rw [show (u.enter t q).object = s.object from hk.object] at hj
    have hji : j ≠ i := fun heq => hobject (heq ▸ hj)
    exact (hk.fields j hji).trans (h.objects j hj)
  alone t₁ t₂ p₁ p₂ h₁ h₂ hclient := by
    rcases entered hk.task h₁ with ⟨ht₁, hp₁⟩ | ⟨ht₁, hp₁⟩ <;>
      rcases entered hk.task h₂ with ⟨ht₂, hp₂⟩ | ⟨ht₂, hp₂⟩
    · rw [ht₁, ht₂]
    · exact absurd (hclient.symm.trans (hq p₁ hp₁).1) (hothers t₂ p₂ ht₂ hp₂)
    · exact absurd (hclient.trans (hq p₂ hp₂).1) (hothers t₁ p₁ ht₁ hp₁)
    · exact h.alone t₁ t₂ p₁ p₂ hp₁ hp₂ hclient
  running t' p ht := by
    have hsound : Sound u p := by
      rcases entered hk.task ht with ⟨-, hp⟩ | ⟨ht', hp⟩
      · exact (hq p hp).2
      · exact (h.running t' p hp).beside hk (hothers t' p ht' hp)
    obtain ⟨m, hkeeps, hagrees⟩ := hsound.rest
    exact ⟨hsound.object, hsound.request, m, hkeeps, by cases m <;> exact hagrees⟩
  calm := hk.calm
  safe := hk.safe

theorem Inv.others (h : Inv s) (ht : s.task t = some p) :
    ∀ t' p', t' ≠ t → s.task t' = some p' → p'.client ≠ p.client :=
  fun t' p' hne ht' hclient => hne (h.alone t' t p' p ht' ht hclient)

variable [DecidableEq C]

theorem keep_self {handle : Option ℕ} : (s.keep i handle).field i = handle :=
  Function.update_self ..

theorem keep_of_ne {handle : Option ℕ} (hj : j ≠ i) : (s.keep i handle).field j = s.field j :=
  Function.update_of_ne hj ..

theorem keep_of_eq {handle : Option ℕ} (hi : s.field i = handle) : s.keep i handle = s := by
  subst hi
  simp only [State.keep, Function.update_eq_self]

theorem Held.closed (h : Held s) (hi : s.field i = some k) :
    Held (((s.deliver k events).access (.closed k)).keep i none) where
  live := by
    apply h.live.concat
    intro j hj
    obtain rfl : k = j := by simpa using hj
    exact (h.owned k).mpr ⟨i, hi⟩
  fresh j hj := h.fresh j (by simpa [State.keep, State.access, State.deliver] using hj)
  owned j := by
    apply isOpen_closed.trans
    rw [show (s.deliver k events).log = s.log from rfl, h.owned]
    constructor
    · rintro ⟨hne, c, hc⟩
      refine ⟨c, (keep_of_ne ?_).trans hc⟩
      rintro rfl
      exact hne (Option.some.inj (hc.symm.trans hi))
    · rintro ⟨c, hc⟩
      by_cases hci : c = i
      · rw [hci, keep_self] at hc
        cases hc
      · rw [keep_of_ne hci] at hc
        refine ⟨?_, c, hc⟩
        rintro rfl
        exact hci (h.unique c i j hc hi)
  unique c c' j hc hc' := by
    by_cases hci : c = i
    · rw [hci, keep_self] at hc
      cases hc
    · by_cases hci' : c' = i
      · rw [hci', keep_self] at hc'
        cases hc'
      · rw [keep_of_ne hci] at hc
        rw [keep_of_ne hci'] at hc'
        exact h.unique c c' j hc hc'

theorem Held.opened (h : Held s) (hi : s.field i = none) (r : R) : Held (s.open i r true) where
  live := by
    apply h.live.concat
    intro j hj
    simp at hj
  fresh j hj := by
    rcases List.mem_append.mp hj with hj | hj
    · exact (h.fresh j hj).trans (Nat.lt_succ_self _)
    · obtain rfl : j = s.opened := by simpa using hj
      exact Nat.lt_succ_self _
  owned j := by
    have hfresh : .opened s.opened ∉ s.log := fun hmem => absurd (h.fresh _ hmem) (lt_irrefl _)
    apply (isOpen_opened h.live hfresh).trans
    rw [h.owned]
    constructor
    · rintro (rfl | ⟨c, hc⟩)
      · exact ⟨i, keep_self⟩
      · refine ⟨c, (keep_of_ne ?_).trans hc⟩
        rintro rfl
        rw [hi] at hc
        cases hc
    · rintro ⟨c, hc⟩
      by_cases hci : c = i
      · subst hci
        exact Or.inl (Option.some.inj (hc.symm.trans keep_self))
      · exact Or.inr ⟨c, (keep_of_ne hci).symm.trans hc⟩
  unique c c' j hc hc' := by
    have hnew : (s.open i r true).field i = some s.opened := keep_self
    have hold : ∀ d, d ≠ i → (s.open i r true).field d = some j → s.field d = some j :=
      fun d hd hj => (keep_of_ne hd).symm.trans hj
    by_cases hci : c = i
    · by_cases hci' : c' = i
      · rw [hci, hci']
      · rw [hci, hnew] at hc
        have hlt := h.lt (hold c' hci' hc')
        obtain rfl := Option.some.inj hc
        omega
    · by_cases hci' : c' = i
      · rw [hci', hnew] at hc'
        have hlt := h.lt (hold c hci hc)
        obtain rfl := Option.some.inj hc'
        omega
      · exact h.unique c c' j (hold c hci hc) (hold c' hci' hc')

theorem Inv.build (h : Inv s) (hk : Kept s u i) (hfree : ¬ Busy s i)
    {client : Option ESP32HttpClient} (hclient : client = none → u.field i = none) :
    Inv (u.build i client) where
  held := ⟨hk.held.live, hk.held.fresh, hk.held.owned, hk.held.unique⟩
  objects j hj := by
    change u.field j = none
    by_cases hji : j = i
    · subst hji
      have hself : (u.build j client).object j = client := Function.update_self ..
      exact hclient (hself.symm.trans hj)
    · rw [hk.fields j hji]
      apply h.objects j
      rw [← hk.object]
      exact (Function.update_of_ne hji ..).symm.trans hj
  alone t t' p p' ht ht' := by
    rw [show (u.build i client).task = s.task from hk.task] at ht ht'
    exact h.alone t t' p p' ht ht'
  running t p ht := by
    rw [show (u.build i client).task = s.task from hk.task] at ht
    have hp : p.client ≠ i := fun hp => hfree ⟨t, p, ht, hp⟩
    have hsound := (h.running t p ht).beside hk hp
    obtain ⟨m, hkeeps, hagrees⟩ := hsound.rest
    refine ⟨?_, hsound.request, m, hkeeps, by cases m <;> exact hagrees⟩
    change Function.update u.object i client p.client ≠ none
    rw [Function.update_of_ne hp]
    exact hsound.object
  calm := hk.calm
  safe := hk.safe

/-- The object of the request that the handle was opened for may be gone. -/
theorem Inv.closed (h : Inv s) (hg : g.quiet = true) (i : C) (events : List ClientEvent) :
    Kept s (s.close g i events) i ∧ (s.close g i events).field i = none := by
  unfold State.close
  cases hi : s.field i with
  | none => exact ⟨h.kept, hi⟩
  | some k =>
    refine ⟨⟨h.held.closed hi, h.calm, ?_, rfl, rfl, rfl, ?_, ?_⟩, keep_self⟩
    · have hquiet : (events.filter fun e => !touches e).any touches = false := by simp
      change (s.dangled || _ && _) = false
      rw [if_pos hg, hquiet, h.safe, Bool.false_and, Bool.false_or]
    · exact fun j hj => keep_of_ne hj
    · exact fun _ _ _ _ => rfl

theorem Inv.opened (h : Inv s) (hi : s.field i = none) (r : R) (ok : Bool) :
    Kept s (s.open i r ok) i ∧ Agrees (s.open i r ok) i r (if ok then .own else .closed) := by
  cases ok with
  | false =>
    have hsame : s.open i r false = s := keep_of_eq hi
    rw [hsame]
    exact ⟨h.kept, hi⟩
  | true =>
    refine ⟨⟨h.held.opened hi r, h.calm, h.safe, rfl, rfl, rfl, ?_, ?_⟩, s.opened, keep_self, ?_⟩
    · exact fun j hj => keep_of_ne hj
    · exact fun j k _ hk => Function.update_of_ne (h.held.lt hk).ne ..
    · exact Function.update_self ..

theorem Inv.served (h : Inv s) (hg : g.quiet = true) {c : ClientCall} {m : Mode}
    (hc : handleModes.Allowed m c) (hagrees : Agrees s i r m) (hreq : s.request r ≠ none)
    (x : Reply) : Kept s (served g s i r c x) i ∧
      Agrees (ClientHandles.served g s i r c x) i r (handleModes.next m c (answer c x)) := by
  cases c with
  | init config =>
    obtain rfl := hc
    exact h.opened hagrees r x.ok
  | cleanup => exact h.closed hg i x.events
  | _ =>
    obtain rfl := hc
    exact h.used hagrees hreq _

variable [DecidableEq T] [DecidableEq R]

theorem Inv.request (h : Inv s) (hobject : s.object i ≠ none) (hreq : s.request r ≠ none)
    (hfree : ¬ Busy s i) (method : HttpMethod) : Inv (next g s (.request t i r method)) := by
  obtain ⟨client, hclient⟩ := Option.ne_none_iff_exists'.mp hobject
  obtain ⟨req, hr⟩ := Option.ne_none_iff_exists'.mp hreq
  simp only [next, hclient, hr]
  refine h.enter h.kept hobject (fun t' p' _ ht' hp' => hfree ⟨t', p', ht', hp'⟩) ?_
  rintro _ ⟨⟩
  refine ⟨rfl, hobject, hreq, .unknown, ?_, trivial⟩
  cases method with
  | get => exact performRequest_keeps _
  | post => exact performRequest_keeps _

theorem Inv.call (h : Inv s) (hg : g.quiet = true) {c : ClientCall}
    {k : ClientInterface.Resp c → ClientProgram (Bool × HttpRequest)}
    (ht : s.task t = some ⟨i, r, .call c k⟩) (x : Reply) : Inv (next g s (.call t x)) := by
  have hsound := h.running t _ ht
  obtain ⟨m, ⟨hc, hkeeps⟩, hagrees⟩ := hsound.rest
  obtain ⟨hkept, hnext⟩ := h.served hg hc hagrees hsound.request x
  simp only [next, ht]
  refine h.enter hkept hsound.object (h.others ht) ?_
  rintro _ ⟨⟩
  refine ⟨rfl, ?_, ?_, _, hkeeps _ trivial, hnext⟩
  · rw [hkept.object]
    exact hsound.object
  · rw [hkept.request]
    exact hsound.request

theorem Inv.finish (h : Inv s) {res : Bool × HttpRequest}
    (ht : s.task t = some ⟨i, r, .ret res⟩) : Inv (next g s (.finish t)) := by
  have hsound := h.running t _ ht
  obtain ⟨req, hr⟩ := Option.ne_none_iff_exists'.mp hsound.request
  have hput : Inv (s.put r (some res.2)) := h.put fun hnone => by cases hnone
  have hgive : s.give r res.2 = s.put r (some res.2) := by
    simp only [State.give, State.put, show s.request r = some req from hr, Option.map_some,
      Option.isNone_some, Bool.or_false]
  simp only [next, ht, hgive]
  refine hput.enter hput.kept hsound.object (h.others ht) ?_
  rintro _ ⟨⟩

theorem Inv.step (h : Inv s) {e : Event T C R} (he : Enabled .all s e) : Inv (next .all s e) := by
  cases e with
  | construct i bufferSize maxResponseBodyLength =>
    have hsame : s.keep i none = s := keep_of_eq (h.objects i he)
    simp only [next, hsame]
    refine h.build h.kept ?_ fun hnone => by cases hnone
    rintro ⟨t, p, ht, rfl⟩
    exact (h.running t p ht).object he
  | copy i j =>
    obtain ⟨huncopied, -⟩ := he
    cases huncopied
  | setCertificate i cert length =>
    refine h.build h.kept (he.2 rfl) fun hnone => ?_
    exact h.objects i (Option.map_eq_none_iff.mp hnone)
  | destroy i x =>
    obtain ⟨hkept, hnone⟩ := h.closed (g := .all) rfl i x.events
    exact h.build hkept (he.2 rfl) fun _ => hnone
  | put r req => exact h.put fun hnone => by cases hnone
  | drop r => exact h.put fun _ => he rfl
  | request t i r method =>
    obtain ⟨-, hobject, hreq, hfree, -⟩ := he
    exact h.request hobject hreq (hfree rfl) method
  | call t x =>
    obtain ⟨i, r, c, k, ht⟩ := he
    exact h.call rfl ht x
  | finish t =>
    obtain ⟨i, r, res, ht⟩ := he
    exact h.finish ht

end Invariant

section Unguarded

variable {g : Guarantees}

def accepted : Reply := ⟨true, [], 200⟩

def started : List (Event Bool Bool Bool) :=
  [.construct false 2048 2048, .put false (HttpRequest.init [] []), .request false false false .get]

theorem run_started :
    (system g Bool Bool Bool).Run started (started.foldl (next g) initial) := by
  have hrun : (system g Bool Bool Bool).Run [] initial := .init
  refine hrun.follows ⟨rfl, trivial, fun _ => ?_, trivial, ⟨rfl, ?_, ?_, ?_, ?_⟩, trivial, trivial⟩
  · rintro ⟨t, p, ht, -⟩
    cases ht
  · exact Option.some_ne_none _
  · exact Option.some_ne_none _
  · rintro - ⟨t, p, ht, -⟩
    cases ht
  · rintro - ⟨t, p, ht, -⟩
    cases ht

def completed : List (Event Bool Bool Bool) :=
  started ++ (List.replicate 7 (.call false accepted) ++ [.finish false])

theorem run_completed :
    (system g Bool Bool Bool).Run completed (completed.foldl (next g) initial) := by
  rw [completed, List.foldl_append]
  refine run_started.follows ?_
  refine ⟨⟨_, _, _, _, rfl⟩, trivial, ⟨_, _, _, _, rfl⟩, trivial, ⟨_, _, _, _, rfl⟩, trivial, ?_⟩
  refine ⟨⟨_, _, _, _, rfl⟩, trivial, ⟨_, _, _, _, rfl⟩, trivial, ⟨_, _, _, _, rfl⟩, trivial, ?_⟩
  exact ⟨⟨_, _, _, _, rfl⟩, trivial, ⟨_, _, _, rfl⟩, trivial, trivial⟩

/-- A copy of the object closes the handle a second time. -/
def copied : List (Event Bool Bool Bool) :=
  [.copy false true, .destroy false accepted, .destroy true accepted]

theorem not_safe_copied (hg : g.uncopied = false) :
    ∃ h s, (system g Bool Bool Bool).Run h s ∧ ¬ Safe s := by
  refine ⟨completed ++ copied, _, run_completed.follows ?_, ?_⟩
  · refine ⟨⟨hg, Option.some_ne_none _, rfl, ?_⟩, trivial, ⟨Option.some_ne_none _, ?_⟩, trivial,
      ⟨Option.some_ne_none _, ?_⟩, trivial, trivial⟩
    all_goals
      rintro - ⟨t, p, ht, -⟩
      cases t <;> cases ht
  · intro hsafe
    have honce : List.count (.closed 0) [Access.opened 0, .used 0, .used 0, .used 0, .used 0,
        .used 0, .closed 0, .closed 0] ≤ 1 := hsafe.live.closed_once 0
    exact absurd honce (by decide)

/-- The request object is destroyed; then more data arrive while the handle is closed. -/
def dropped : List (Event Bool Bool Bool) :=
  [.drop false, .destroy false ⟨true, [.onData []], 200⟩]

theorem not_safe_dropped (hg : g.quiet = false) :
    ∃ h s, (system g Bool Bool Bool).Run h s ∧ ¬ Safe s := by
  refine ⟨completed ++ dropped, _, run_completed.follows ?_, ?_⟩
  · refine ⟨?_, trivial, ⟨Option.some_ne_none _, ?_⟩, trivial, trivial⟩
    all_goals
      rintro - ⟨t, p, ht, -⟩
      cases t <;> cases ht
  · intro hsafe
    obtain ⟨uncopied, quiet, exclusive, leftAlone⟩ := g
    obtain rfl : quiet = false := hg
    exact Bool.false_ne_true hsafe.defined.symm

/-- A second request with the client object closes the handle of the first. -/
def overlapping : List (Event Bool Bool Bool) :=
  [.put true (HttpRequest.init [] []), .request true false true .get, .call false accepted,
    .call false accepted, .call true accepted, .call false accepted]

theorem not_safe_overlapping (hg : g.exclusive = false) :
    ∃ h s, (system g Bool Bool Bool).Run h s ∧ ¬ Safe s := by
  have hany : g.exclusive ≠ true := by simp [hg]
  refine ⟨started ++ overlapping, _, run_started.follows ?_, ?_⟩
  · refine ⟨?_, trivial, ⟨rfl, Option.some_ne_none _, Option.some_ne_none _,
      fun h => absurd h hany, ?_⟩, trivial, ⟨_, _, _, _, rfl⟩, trivial, ⟨_, _, _, _, rfl⟩, trivial,
      ⟨_, _, _, _, rfl⟩, trivial, ⟨_, _, _, _, rfl⟩, trivial, trivial⟩
    all_goals
      rintro - ⟨t, p, ht, hp⟩
      cases t <;> cases ht
      cases hp
  · intro hsafe
    exact Bool.false_ne_true hsafe.sound.symm

/-- The request object is destroyed while its request is performed. -/
def interrupted : List (Event Bool Bool Bool) :=
  .drop false :: (List.replicate 7 (.call false accepted) ++ [.finish false])

theorem not_safe_interrupted (hg : g.leftAlone = false) :
    ∃ h s, (system g Bool Bool Bool).Run h s ∧ ¬ Safe s := by
  have hany : g.leftAlone ≠ true := by simp [hg]
  refine ⟨started ++ interrupted, _, run_started.follows ?_, ?_⟩
  · refine ⟨fun h => absurd h hany, trivial, ?_⟩
    refine ⟨⟨_, _, _, _, rfl⟩, trivial, ⟨_, _, _, _, rfl⟩, trivial, ⟨_, _, _, _, rfl⟩, trivial, ?_⟩
    refine ⟨⟨_, _, _, _, rfl⟩, trivial, ⟨_, _, _, _, rfl⟩, trivial, ⟨_, _, _, _, rfl⟩, trivial, ?_⟩
    exact ⟨⟨_, _, _, _, rfl⟩, trivial, ⟨_, _, _, rfl⟩, trivial, trivial⟩
  · intro hsafe
    exact Bool.false_ne_true hsafe.defined.symm

end Unguarded

/-- In every run of any number of tasks, clients and requests the handles are safe, just when
all the guarantees are given. -/
theorem handles_safe_iff (g : Guarantees) :
    (∀ (T C R : Type) [DecidableEq T] [DecidableEq C] [DecidableEq R] (h : List (Event T C R))
      (s : State T C R), (system g T C R).Run h s → Safe s) ↔
    g.uncopied = true ∧ g.quiet = true ∧ g.exclusive = true ∧ g.leftAlone = true := by
  constructor
  · intro hsafe
    have hgiven : ∀ {b : Bool}, (b = false → ∃ h s, (system g Bool Bool Bool).Run h s ∧ ¬ Safe s) →
        b = true := by
      intro b hb
      by_contra hfalse
      obtain ⟨h, s, hr, hnot⟩ := hb (Bool.eq_false_iff.mpr hfalse)
      exact hnot (hsafe Bool Bool Bool h s hr)
    exact ⟨hgiven not_safe_copied, hgiven not_safe_dropped, hgiven not_safe_overlapping,
      hgiven not_safe_interrupted⟩
  · intro hg T C R _ _ _ h s hr
    obtain ⟨uncopied, quiet, exclusive, leftAlone⟩ := g
    obtain ⟨rfl, rfl, rfl, rfl⟩ :
      uncopied = true ∧ quiet = true ∧ exclusive = true ∧ leftAlone = true := hg
    exact (hr.invariant inv_initial fun _ _ hinv he _ => hinv.step he).safe_handles

end ClientHandles
