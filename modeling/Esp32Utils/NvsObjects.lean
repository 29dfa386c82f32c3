import Esp32Utils.NvsDiscipline
import Esp32Utils.Interaction.GuardedRuns
import Esp32Utils.Interaction.CallDiscipline

/-! # NVS objects and tasks

Any number of tasks call the methods of any number of objects, interleaved at the calls of
`nvs.h`, each of which may fail. A method goes by the member `_handle` of its object, which the
last `nvs_open` of any task with that object has set. -/
namespace NvsObjects

open ByteStrings InteractionProgram InteractionDiscipline GuardedRuns HandleSessions NvsFlash Nvs
open NvsHistory (Op)
open NvsDiscipline (Result perform Right getI64_ok getStr_ok)
open ContestedNvs (newArray terminated readStrBuffer terminated_inside)

abbrev Entries := Key → Option NvsValue

structure Change where
  op : Op
  key : Key
  value : Option NvsValue

def Change.apply (entries : Entries) (c : Change) : Entries :=
  Function.update entries c.key c.value

inductive Phase (O : Type) where
  | idle
  | running (o : O) (op : Op) (rest : NvsProgram Result)

/-- `moments` are the contents of the storage since the call of a task began. -/
structure State (T O : Type) where
  store : NvsState
  member : O → Option NvsHandle
  phase : T → Phase O
  log : List (Access NvsHandle)
  changes : List Change
  moments : T → List Entries

variable {T O : Type}

/-- A member that was never set is no open handle. -/
def State.handle (s : State T O) (o : O) : NvsHandle := (s.member o).getD s.store.count

def State.answer (s : State T O) (o : O) (failure : EspErr) :
    (c : NvsCall) → NvsInterface.Resp c × NvsState
  | .nvsOpen storage mode => nvs (.nvsOpen storage mode) failure s.store
  | .nvsSetI64 _ tag val => nvs (.nvsSetI64 (s.handle o) tag val) failure s.store
  | .nvsSetStr _ tag val => nvs (.nvsSetStr (s.handle o) tag val) failure s.store
  | .nvsEraseKey _ tag => nvs (.nvsEraseKey (s.handle o) tag) failure s.store
  | .nvsCommit _ => nvs (.nvsCommit (s.handle o)) failure s.store
  | .nvsGetI64 _ tag => nvs (.nvsGetI64 (s.handle o) tag) failure s.store
  | .nvsGetStrLength _ tag => nvs (.nvsGetStrLength (s.handle o) tag) failure s.store
  | .nvsGetStr _ tag length => nvs (.nvsGetStr (s.handle o) tag length) failure s.store
  | .nvsClose _ => nvs (.nvsClose (s.handle o)) failure s.store

def assigned : (c : NvsCall) → NvsInterface.Resp c → Option NvsHandle → Option NvsHandle
  | .nvsOpen _ _, .ok handle, _ => some handle
  | _, _, old => old

def accesses (handle : NvsHandle) :
    (c : NvsCall) → NvsInterface.Resp c → List (Access NvsHandle)
  | .nvsOpen _ _, .ok opened => [.opened opened]
  | .nvsOpen _ _, .error _ => []
  | .nvsClose _, _ => [.closed handle]
  | _, _ => [.used handle]

def changed : NvsCall → Option (Bytes × Option NvsValue)
  | .nvsSetI64 _ tag val => some (tag, some (.i64 val))
  | .nvsSetStr _ tag val => some (tag, some (.str val))
  | .nvsEraseKey _ tag => some (tag, none)
  | _ => none

def State.effect (s : State T O) (o : O) (op : Op) (c : NvsCall) (failure : EspErr) :
    List Change :=
  match changed c, failure, s.store.opened (s.handle o) with
  | some (tag, value), none, some storage => [⟨op, (storage, tag), value⟩]
  | _, _, _ => []

inductive Event (T O : Type) where
  | begin (i : T) (o : O) (op : Op)
  | call (i : T) (failure : EspErr)
  | finish (i : T)

section Steps

variable [DecidableEq T] [DecidableEq O]

def initial (stored : Entries) : State T O :=
  ⟨⟨stored, fun _ => none, 0⟩, fun _ => none, fun _ => .idle, [], [], fun _ => []⟩

/-- When use is `exclusive` no two tasks call methods of one object at a time. -/
def Enabled (exclusive : Bool) (s : State T O) : Event T O → Prop
  | .begin i o _ => s.phase i = .idle ∧
      (exclusive = true → ∀ j op rest, s.phase j ≠ .running o op rest)
  | .call i _ => ∃ o op c k, s.phase i = .running o op (.call c k)
  | .finish i => ∃ o op res, s.phase i = .running o op (.ret res)

def State.called (s : State T O) (i : T) (o : O) (op : Op) (c : NvsCall)
    (k : NvsInterface.Resp c → NvsProgram Result) (failure : EspErr) : State T O :=
  let r := s.answer o failure c
  { store := r.2
    member := Function.update s.member o (assigned c r.1 (s.member o))
    phase := Function.update s.phase i (.running o op (k r.1))
    log := s.log ++ accesses (s.handle o) c r.1
    changes := s.changes ++ s.effect o op c failure
    moments := fun j => s.moments j ++ [r.2.entries] }

def next (memory : ℕ → UInt8) (s : State T O) : Event T O → State T O
  | .begin i o op =>
    { s with
      phase := Function.update s.phase i (.running o op (perform memory op))
      moments := Function.update s.moments i [s.store.entries] }
  | .call i failure =>
    match s.phase i with
    | .running o op (.call c k) => s.called i o op c k failure
    | _ => s
  | .finish i => { s with phase := Function.update s.phase i .idle }

def system (memory : ℕ → UInt8) (exclusive : Bool) (stored : Entries) (T O : Type)
    [DecidableEq T] [DecidableEq O] : System (State T O) (Event T O) where
  initial := initial stored
  Enabled := Enabled exclusive
  next := next memory

end Steps

/-- Only open handles are used and closed, and with all tasks idle all are closed. What is
stored has come from the operations, each under its own key with its own value, and a read
returns what was stored under its key at some moment while it ran. -/
structure Safe (stored : Entries) (s : State T O) : Prop where
  live : Live s.log
  balanced : (∀ i, s.phase i = .idle) → Balanced s.log
  replayed : s.store.entries = s.changes.foldl Change.apply stored
  declared : ∀ c ∈ s.changes, c.op.target = some (c.key, c.value)
  right : ∀ i o op res, s.phase i = .running o op (.ret res) →
    ∃ seen ∈ s.moments i, Right op res seen

section Modes

inductive Got where
  | nothing
  | i64 (v : Int64)
  | str (bytes : Bytes)

inductive Mode where
  | start
  | own (got : Got)
  | ended (got : Got)

def keyOf : Op → Key
  | .write storage tag _ => (storage, tag)
  | .erase storage tag => (storage, tag)
  | .readI64 storage tag _ => (storage, tag)
  | .readStr storage tag _ => (storage, tag)

def Proper (op : Op) : NvsCall → Prop
  | .nvsOpen _ _ => False
  | .nvsSetI64 _ tag val => op.target = some (((keyOf op).1, tag), some (.i64 val))
  | .nvsSetStr _ tag val => op.target = some (((keyOf op).1, tag), some (.str val))
  | .nvsEraseKey _ tag => op.target = some (((keyOf op).1, tag), none)
  | .nvsGetI64 _ tag => tag = (keyOf op).2
  | .nvsGetStr _ tag _ => tag = (keyOf op).2
  | _ => True

/-- One handle is opened, for the storage of the operation, and closed in the end. -/
def opModes (op : Op) : Typestate NvsInterface Mode where
  Allowed
    | .start, .nvsOpen storage _ => storage = (keyOf op).1
    | .own _, c => Proper op c
    | _, _ => False
  Answers
    | .nvsGetStr _ _ length, .ok bytes => bytes.length ≤ length
    | _, _ => True
  next
    | .start, .nvsOpen _ _, .ok _ => .own .nothing
    | .start, .nvsOpen _ _, .error _ => .ended .nothing
    | .own _, .nvsGetI64 _ _, .ok v => .own (.i64 v)
    | .own _, .nvsGetStr _ _ _, .ok bytes => .own (.str bytes)
    | .own got, .nvsClose _, _ => .ended got
    | m, _, _ => m

def Earned : Op → Result → Got → Prop
  | .write _ _ _, .done _, _ => True
  | .erase _ _, .done _, _ => True
  | .readI64 _ _ res, .i64 ret out, got =>
    (ret = false → out = res) ∧ (ret = true → got = .i64 out)
  | .readStr _ _ res, .str (some (ret, out)), got =>
    (ret = false → out = res) ∧
      (ret = true → ∃ bytes, got = .str bytes ∧ out = cStr (bytes ++ [0]))
  | _, _, _ => False

def Done (op : Op) (res : Result) (m : Mode) : Prop := ∃ got, m = .ended got ∧ Earned op res got

variable {memory : ℕ → UInt8} {op : Op}

theorem change_keeps {modify : NvsHandle → NvsProgram EspErr} {storage : Bytes}
    (hstorage : storage = (keyOf op).1)
    (hmodify : ∀ handle, Keeps (opModes op) (fun _ m => m = .own .nothing) (modify handle)
      (.own .nothing))
    (hop : ∀ ret, Earned op (.done ret) .nothing) :
    Keeps (opModes op) (Done op) (do return .done (← change modify storage)) .start := by
  apply Keeps.bind
  apply Keeps.bind
  refine ⟨hstorage, fun r _ => ?_⟩
  cases r with
  | error err => exact ⟨.nothing, rfl, hop false⟩
  | ok handle =>
    change Keeps (opModes op) _ (modify handle >>= fun _ => _) (.own .nothing)
    apply Keeps.bind
    apply (hmodify handle).mono
    rintro _ m rfl
    exact ⟨trivial, fun err _ => ⟨trivial, fun _ _ => ⟨.nothing, rfl, hop _⟩⟩⟩

theorem perform_keeps : Keeps (opModes op) (Done op) (perform memory op) .start := by
  cases op with
  | write storage tag val =>
    cases val with
    | i64 val => exact change_keeps rfl (fun _ => ⟨rfl, fun _ _ => rfl⟩) fun _ => trivial
    | str val => exact change_keeps rfl (fun _ => ⟨rfl, fun _ _ => rfl⟩) fun _ => trivial
  | erase storage tag =>
    exact change_keeps rfl (fun _ => ⟨rfl, fun _ _ => rfl⟩) fun _ => trivial
  | readI64 storage tag res =>
    refine ⟨rfl, fun r _ => ?_⟩
    cases r with
    | error err => exact ⟨.nothing, rfl, fun _ => rfl, Bool.noConfusion⟩
    | ok handle =>
      refine ⟨rfl, fun r _ => ?_⟩
      cases r with
      | error err =>
        exact ⟨trivial, fun _ _ => ⟨.nothing, rfl, fun _ => rfl, Bool.noConfusion⟩⟩
      | ok v => exact ⟨trivial, fun _ _ => ⟨.i64 v, rfl, Bool.noConfusion, fun _ => rfl⟩⟩
  | readStr storage tag res =>
    refine ⟨rfl, fun r _ => ?_⟩
    cases r with
    | error err => exact ⟨.nothing, rfl, fun _ => rfl, Bool.noConfusion⟩
    | ok handle =>
      refine ⟨trivial, fun length _ => ⟨rfl, fun r hr => ?_⟩⟩
      cases r with
      | error err =>
        exact ⟨trivial, fun _ _ => ⟨.nothing, rfl, fun _ => rfl, Bool.noConfusion⟩⟩
      | ok bytes =>
        refine ⟨trivial, fun _ _ => ⟨.str bytes, rfl, ?_⟩⟩
        simp only [terminated_inside hr, Option.map_some]
        exact ⟨Bool.noConfusion, fun _ => ⟨bytes, rfl, rfl⟩⟩

end Modes

section Invariant

variable {stored : Entries} {s t : State T O} {mode : T → Mode} {i j : T} {o : O} {op : Op}
  {m : Mode} {got : Got} {k : NvsHandle} {rest rest' : NvsProgram Result} {failure : EspErr}

def Shows (op : Op) : Got → Entries → Prop
  | .nothing, _ => True
  | .i64 v, entries => entries (keyOf op) = some (.i64 v)
  | .str bytes, entries => ∃ v, entries (keyOf op) = some (.str v) ∧ bytes = v.bytes ++ [0]

def Known (s : State T O) (i : T) (op : Op) (got : Got) : Prop :=
  ∃ seen ∈ s.moments i, Shows op got seen

def Agrees (s : State T O) (i : T) (o : O) (op : Op) : Mode → Prop
  | .start => Known s i op .nothing
  | .own got => (∃ k, s.member o = some k ∧ s.store.opened k = some (keyOf op).1 ∧
      IsOpen s.log k) ∧ Known s i op got
  | .ended got => Known s i op got

/-- `mode` says how far the call of each task is. -/
structure Tracked (stored : Entries) (s : State T O) (mode : T → Mode) : Prop where
  live : Live s.log
  fresh : ∀ k, .opened k ∈ s.log → k < s.store.count
  members : ∀ o k, s.member o = some k → k < s.store.count
  unique : ∀ o o' k, s.member o = some k → s.member o' = some k → o = o'
  owned : ∀ k, IsOpen s.log k → ∃ i o op rest got, s.phase i = .running o op rest ∧
    mode i = .own got ∧ s.member o = some k
  alone : ∀ i j o op rest op' rest', s.phase i = .running o op rest →
    s.phase j = .running o op' rest' → i = j
  running : ∀ i o op rest, s.phase i = .running o op rest →
    Keeps (opModes op) (Done op) rest (mode i) ∧ Agrees s i o op (mode i)
  replayed : s.store.entries = s.changes.foldl Change.apply stored
  declared : ∀ c ∈ s.changes, c.op.target = some (c.key, c.value)

/-- What the tasks with other objects see of a step of task `i` with object `o`. -/
structure Beside (s t : State T O) (i : T) (o : O) : Prop where
  phase : ∀ j, j ≠ i → t.phase j = s.phase j
  member : ∀ o', o' ≠ o → t.member o' = s.member o'
  moments : ∀ j, j ≠ i → s.moments j ⊆ t.moments j
  handles : ∀ o' k, o' ≠ o → s.member o' = some k → IsOpen s.log k →
    t.store.opened k = s.store.opened k ∧ IsOpen t.log k

theorem Known.mono (h : Known s i op got) (hm : s.moments i ⊆ t.moments i) :
    Known t i op got := by
  obtain ⟨seen, hseen, hshows⟩ := h
  exact ⟨seen, hm hseen, hshows⟩

theorem Agrees.beside {o' : O} (h : Agrees s j o' op m) (hb : Beside s t i o) (hj : j ≠ i)
    (ho : o' ≠ o) : Agrees t j o' op m := by
  cases m with
  | start => exact Known.mono h (hb.moments j hj)
  | own got =>
    obtain ⟨⟨k, hk, hopened, hopen⟩, hknown⟩ := h
    obtain ⟨hsame, hstill⟩ := hb.handles o' k ho hk hopen
    exact ⟨⟨k, (hb.member o' ho).trans hk, hsame.trans hopened, hstill⟩,
      hknown.mono (hb.moments j hj)⟩
  | ended got => exact Known.mono h (hb.moments j hj)

theorem tracked_initial : Tracked stored (initial stored : State T O) fun _ => .start where
  live := live_nil
  fresh _ h := absurd h List.not_mem_nil
  members _ _ h := by cases h
  unique _ _ _ h := by cases h
  owned _ h := absurd h.1 List.not_mem_nil
  alone _ _ _ _ _ _ _ h := by cases h
  running _ _ _ _ h := by cases h
  replayed := rfl
  declared _ h := absurd h List.not_mem_nil

theorem Earned.right {result : Result} (h : Earned op result got) (hknown : Known s i op got) :
    ∃ seen ∈ s.moments i, Right op result seen := by
  obtain ⟨seen, hseen, hshows⟩ := hknown
  refine ⟨seen, hseen, ?_⟩
  cases op with
  | write storage tag val =>
    cases result with
    | done ret => exact trivial
    | _ => exact h
  | erase storage tag =>
    cases result with
    | done ret => exact trivial
    | _ => exact h
  | readI64 storage tag res =>
    cases result with
    | i64 ret out =>
      refine ⟨h.1, fun hret => ?_⟩
      obtain rfl := h.2 hret
      exact hshows
    | _ => exact h
  | readStr storage tag res =>
    cases result with
    | str read =>
      cases read with
      | none => exact h
      | some read =>
        refine ⟨h.1, fun hret => ?_⟩
        obtain ⟨bytes, rfl, hout⟩ := h.2 hret
        obtain ⟨v, hv, rfl⟩ := hshows
        exact ⟨v, hv, hout.trans (NvsHistory.cStr_of_stored v)⟩
    | _ => exact h

theorem Tracked.safe (h : Tracked stored s mode) : Safe stored s where
  live := h.live
  balanced hidle := by
    apply h.live.balanced
    intro k hk
    obtain ⟨i, o, op, rest, got, hrun, -⟩ := h.owned k hk
    rw [hidle i] at hrun
    cases hrun
  replayed := h.replayed
  declared := h.declared
  right i o op res hrun := by
    obtain ⟨⟨got, hmode, hearned⟩, hagrees⟩ := h.running i o op _ hrun
    rw [hmode] at hagrees
    exact hearned.right hagrees

variable {c : NvsCall} {go : NvsInterface.Resp c → NvsProgram Result}

structure Serves (s : State T O) (o : O) (op : Op) (c : NvsCall) (failure : EspErr) (got : Got) :
    Prop where
  opened : (s.answer o failure c).2.opened = s.store.opened
  count : (s.answer o failure c).2.count = s.store.count
  entries : (s.answer o failure c).2.entries =
    (s.effect o op c failure).foldl Change.apply s.store.entries
  declared : ∀ e ∈ s.effect o op c failure, e.op.target = some (e.key, e.value)
  answers : (opModes op).Answers c (s.answer o failure c).1
  accesses : accesses (s.handle o) c (s.answer o failure c).1 = [.used (s.handle o)]
  assigned : ∀ old, assigned c (s.answer o failure c).1 old = old
  next : ∃ got', (opModes op).next (.own got) c (s.answer o failure c).1 = .own got' ∧
    (got' = got ∨ Shows op got' (s.answer o failure c).2.entries)

theorem modified {tag : Bytes} {value : Option NvsValue} (hchanged : changed c = some (tag, value))
    (hopen : s.store.opened (s.handle o) = some (keyOf op).1) (failure : EspErr) :
    (s.store.modify (s.handle o) tag value failure).2.opened = s.store.opened ∧
      (s.store.modify (s.handle o) tag value failure).2.count = s.store.count ∧
      (s.store.modify (s.handle o) tag value failure).2.entries =
        (s.effect o op c failure).foldl Change.apply s.store.entries ∧
      ∀ e ∈ s.effect o op c failure, e = ⟨op, ((keyOf op).1, tag), value⟩ := by
  cases failure with
  | some err => simp [NvsState.modify, State.effect, hchanged]
  | none => simp [NvsState.modify, State.effect, hchanged, hopen, Change.apply, NvsState.put]

theorem serves (hopen : s.store.opened (s.handle o) = some (keyOf op).1)
    (hc : Proper op c) (hclose : ∀ handle, c ≠ .nvsClose handle) : Serves s o op c failure got := by
  cases c with
  | nvsOpen storage mode => exact hc.elim
  | nvsClose handle => exact absurd rfl (hclose handle)
  | nvsSetI64 handle tag val =>
    have hchanged : changed (.nvsSetI64 handle tag val) = _ := rfl
    obtain ⟨ho, hn, he, hd⟩ := modified hchanged hopen failure
    exact ⟨ho, hn, he, fun e he => hd e he ▸ hc, trivial, rfl, fun _ => rfl, got, rfl, Or.inl rfl⟩
  | nvsSetStr handle tag val =>
    have hchanged : changed (.nvsSetStr handle tag val) = _ := rfl
    obtain ⟨ho, hn, he, hd⟩ := modified hchanged hopen failure
    exact ⟨ho, hn, he, fun e he => hd e he ▸ hc, trivial, rfl, fun _ => rfl, got, rfl, Or.inl rfl⟩
  | nvsEraseKey handle tag =>
    have hchanged : changed (.nvsEraseKey handle tag) = _ := rfl
    obtain ⟨ho, hn, he, hd⟩ := modified hchanged hopen failure
    exact ⟨ho, hn, he, fun e he => hd e he ▸ hc, trivial, rfl, fun _ => rfl, got, rfl, Or.inl rfl⟩
  | nvsCommit handle =>
    exact ⟨rfl, rfl, rfl, nofun, trivial, rfl, fun _ => rfl, got, rfl, Or.inl rfl⟩
  | nvsGetStrLength handle tag =>
    exact ⟨rfl, rfl, rfl, nofun, trivial, rfl, fun _ => rfl, got, rfl, Or.inl rfl⟩
  | nvsGetI64 handle tag =>
    obtain rfl : tag = (keyOf op).2 := hc
    refine ⟨rfl, rfl, rfl, nofun, trivial, rfl, fun _ => rfl, ?_⟩
    cases hgot : (s.answer o failure (.nvsGetI64 handle (keyOf op).2)).1 with
    | error err => exact ⟨got, rfl, Or.inl rfl⟩
    | ok v => exact ⟨.i64 v, rfl, Or.inr (getI64_ok hopen hgot)⟩
  | nvsGetStr handle tag length =>
    obtain rfl : tag = (keyOf op).2 := hc
    have hfits : (opModes op).Answers (.nvsGetStr handle (keyOf op).2 length)
        (s.answer o failure (.nvsGetStr handle (keyOf op).2 length)).1 := by
      cases hgot : (s.answer o failure (.nvsGetStr handle (keyOf op).2 length)).1 with
      | error err => exact trivial
      | ok bytes =>
        obtain ⟨v, -, -, hlength⟩ := getStr_ok hopen hgot
        exact hlength
    refine ⟨rfl, rfl, rfl, nofun, hfits, rfl, fun _ => rfl, ?_⟩
    cases hgot : (s.answer o failure (.nvsGetStr handle (keyOf op).2 length)).1 with
    | error err => exact ⟨got, rfl, Or.inl rfl⟩
    | ok bytes =>
      obtain ⟨v, hv, hbytes, -⟩ := getStr_ok hopen hgot
      exact ⟨.str bytes, rfl, Or.inr ⟨v, hv, hbytes⟩⟩

variable [DecidableEq T]

theorem Tracked.advance (h : Tracked stored s mode) (hrun : s.phase i = .running o op rest)
    (hb : Beside s t i o) (hphase : t.phase i = .running o op rest')
    (hkeeps : Keeps (opModes op) (Done op) rest' m) (hagrees : Agrees t i o op m)
    (hlive : Live t.log) (hcount : s.store.count ≤ t.store.count)
    (hfresh : ∀ k, .opened k ∈ t.log → .opened k ∈ s.log ∨ k < t.store.count)
    (hmember : ∀ k, t.member o = some k → s.member o = some k ∨
      s.store.count ≤ k ∧ k < t.store.count)
    (howned : ∀ k, IsOpen t.log k → (t.member o = some k ∧ ∃ got, m = .own got) ∨
      IsOpen s.log k ∧ ∀ got, mode i = .own got → s.member o ≠ some k)
    (hreplayed : t.store.entries = t.changes.foldl Change.apply stored)
    (hdeclared : ∀ c ∈ t.changes, c.op.target = some (c.key, c.value)) :
    Tracked stored t (Function.update mode i m) := by
  have hobject : ∀ j o' op' rest', j ≠ i → s.phase j = .running o' op' rest' → o' ≠ o := by
    rintro j o' op' rest' hj hother rfl
    exact hj (h.alone j i o' _ _ _ _ hother hrun)
  have hbefore : ∀ j o' op' rest', t.phase j = .running o' op' rest' →
      ∃ op' rest', s.phase j = .running o' op' rest' := by
    intro j o' op' rest' ht
    by_cases hj : j = i
    · subst hj
      obtain ⟨rfl, -, -⟩ := Phase.running.inj (ht.symm.trans hphase)
      exact ⟨op, rest, hrun⟩
    · exact ⟨op', rest', hb.phase j hj ▸ ht⟩
  have hother : ∀ o' k, o' ≠ o → t.member o = some k → t.member o' ≠ some k := by
    intro o' k ho hk hk'
    rw [hb.member o' ho] at hk'
    rcases hmember k hk with hk | hk
    · exact ho (h.unique o' o k hk' hk)
    · exact absurd (h.members o' k hk') (not_lt.mpr hk.1)
  refine ⟨hlive, ?_, ?_, ?_, ?_, ?_, ?_, hreplayed, hdeclared⟩
  · intro k hk
    rcases hfresh k hk with hk | hk
    · exact (h.fresh k hk).trans_le hcount
    · exact hk
  · intro o' k hk
    by_cases ho : o' = o
    · subst ho
      rcases hmember k hk with hk | hk
      · exact (h.members o' k hk).trans_le hcount
      · exact hk.2
    · exact (h.members o' k (hb.member o' ho ▸ hk)).trans_le hcount
  · intro o₁ o₂ k hk₁ hk₂
    by_cases ho₁ : o₁ = o
    · by_cases ho₂ : o₂ = o
      · rw [ho₁, ho₂]
      · exact absurd hk₂ (hother o₂ k ho₂ (ho₁ ▸ hk₁))
    · by_cases ho₂ : o₂ = o
      · exact absurd hk₁ (hother o₁ k ho₁ (ho₂ ▸ hk₂))
      · rw [hb.member o₁ ho₁] at hk₁
        rw [hb.member o₂ ho₂] at hk₂
        exact h.unique o₁ o₂ k hk₁ hk₂
  · intro k hk
    rcases howned k hk with ⟨hk, got, rfl⟩ | ⟨hopen, hnot⟩
    · exact ⟨i, o, op, rest', got, hphase, Function.update_self .., hk⟩
    · obtain ⟨j, o', op', rest'', got, hj, hmode, hk⟩ := h.owned k hopen
      have hne : j ≠ i := by
        rintro rfl
        obtain ⟨rfl, -, -⟩ := Phase.running.inj (hj.symm.trans hrun)
        exact hnot got hmode hk
      exact ⟨j, o', op', rest'', got, (hb.phase j hne).trans hj,
        (Function.update_of_ne hne ..).trans hmode,
        (hb.member o' (hobject j o' op' rest'' hne hj)).trans hk⟩
  · intro a b o' op₁ rest₁ op₂ rest₂ ha hb
    obtain ⟨_, _, ha⟩ := hbefore a o' op₁ rest₁ ha
    obtain ⟨_, _, hb⟩ := hbefore b o' op₂ rest₂ hb
    exact h.alone a b o' _ _ _ _ ha hb
  · intro j o' op' rest'' ht
    by_cases hj : j = i
    · subst hj
      obtain ⟨rfl, rfl, rfl⟩ := Phase.running.inj (ht.symm.trans hphase)
      rw [Function.update_self]
      exact ⟨hkeeps, hagrees⟩
    · rw [hb.phase j hj] at ht
      rw [Function.update_of_ne hj]
      obtain ⟨hkeeps, hagrees⟩ := h.running j o' op' rest'' ht
      exact ⟨hkeeps, hagrees.beside hb hj (hobject j o' op' rest'' hj ht)⟩

variable [DecidableEq O]

theorem called_beside (hhandles : ∀ o' k, o' ≠ o → s.member o' = some k → IsOpen s.log k →
      (s.called i o op c go failure).store.opened k = s.store.opened k ∧
        IsOpen (s.called i o op c go failure).log k) :
    Beside s (s.called i o op c go failure) i o where
  phase _ hj := Function.update_of_ne hj ..
  member _ ho := Function.update_of_ne ho ..
  moments _ _ := List.subset_append_left ..
  handles := hhandles

theorem called_used (h : Tracked stored s mode) (hrun : s.phase i = .running o op (.call c go))
    (hmode : mode i = .own got) (hc : Proper op c) (hclose : ∀ handle, c ≠ .nvsClose handle)
    (failure : EspErr) :
    ∃ m, Tracked stored (s.called i o op c go failure) (Function.update mode i m) := by
  obtain ⟨hkeeps, hagrees⟩ := h.running i o op _ hrun
  rw [hmode] at hkeeps hagrees
  obtain ⟨⟨k, hk, hopened, hopen⟩, hknown⟩ := hagrees
  have hhandle : s.handle o = k := by simp [State.handle, hk]
  have hserves : Serves s o op c failure got := serves (hhandle ▸ hopened) hc hclose
  obtain ⟨got', hnext, hgot⟩ := hserves.next
  have hlog : (s.called i o op c go failure).log = s.log ++ [.used k] := by
    rw [← hhandle, ← hserves.accesses]
    rfl
  have hmember : (s.called i o op c go failure).member = s.member := by
    change Function.update s.member o (assigned c _ _) = s.member
    rw [hserves.assigned, Function.update_eq_self]
  have hisOpen : ∀ j, IsOpen (s.called i o op c go failure).log j ↔ IsOpen s.log j := by
    intro j
    rw [hlog]
    exact isOpen_used
  refine ⟨.own got', h.advance hrun (called_beside ?_) (Function.update_self ..)
    (hnext ▸ hkeeps.2 _ hserves.answers) ⟨⟨k, ?_, ?_, ?_⟩, ?_⟩ ?_ ?_ ?_ ?_ ?_ ?_ ?_⟩
  · intro o' j _ _ hj
    exact ⟨congrFun hserves.opened j, (hisOpen j).mpr hj⟩
  · rw [hmember]
    exact hk
  · exact (congrFun hserves.opened k).trans hopened
  · exact (hisOpen k).mpr hopen
  · rcases hgot with rfl | hgot
    · exact hknown.mono (List.subset_append_left ..)
    · exact ⟨_, List.mem_append_right _ (List.mem_singleton_self _), hgot⟩
  · rw [hlog]
    apply h.live.concat
    intro j hj
    obtain rfl : k = j := by simpa using hj
    exact hopen
  · exact hserves.count.ge
  · intro j hj
    rw [hlog] at hj
    exact Or.inl (by simpa using hj)
  · intro j hj
    rw [hmember] at hj
    exact Or.inl hj
  · intro j hj
    by_cases hjk : j = k
    · subst hjk
      exact Or.inl ⟨by rw [hmember, hk], got', rfl⟩
    · refine Or.inr ⟨(hisOpen j).mp hj, fun _ _ hj => hjk ?_⟩
      exact Option.some.inj (hj.symm.trans hk)
  · change _ = (s.changes ++ s.effect o op c failure).foldl Change.apply stored
    rw [List.foldl_append, ← h.replayed]
    exact hserves.entries
  · intro e he
    rcases List.mem_append.mp he with he | he
    · exact h.declared e he
    · exact hserves.declared e he

theorem called_close {handle : NvsHandle} {go : Unit → NvsProgram Result}
    (h : Tracked stored s mode) (hrun : s.phase i = .running o op (.call (.nvsClose handle) go))
    (hmode : mode i = .own got) (failure : EspErr) :
    ∃ m, Tracked stored (s.called i o op (.nvsClose handle) go failure)
      (Function.update mode i m) := by
  obtain ⟨hkeeps, hagrees⟩ := h.running i o op _ hrun
  rw [hmode] at hkeeps hagrees
  obtain ⟨⟨k, hk, hopened, hopen⟩, hknown⟩ := hagrees
  have hhandle : s.handle o = k := by simp [State.handle, hk]
  have hlog : (s.called i o op (.nvsClose handle) go failure).log = s.log ++ [.closed k] := by
    rw [← hhandle]
    rfl
  have hmember : (s.called i o op (.nvsClose handle) go failure).member = s.member :=
    Function.update_eq_self ..
  have hisOpen : ∀ j, IsOpen (s.called i o op (.nvsClose handle) go failure).log j ↔
      j ≠ k ∧ IsOpen s.log j := by
    intro j
    rw [hlog]
    exact isOpen_closed
  refine ⟨.ended got, h.advance hrun (called_beside ?_) (Function.update_self ..)
    (hkeeps.2 () trivial) (hknown.mono (List.subset_append_left ..)) ?_ le_rfl ?_ ?_ ?_ ?_ ?_⟩
  · intro o' j ho hj hjopen
    have hne : j ≠ k := by
      rintro rfl
      exact ho (h.unique o' o j hj hk)
    refine ⟨?_, (hisOpen j).mpr ⟨hne, hjopen⟩⟩
    change Function.update s.store.opened (s.handle o) none j = _
    rw [hhandle, Function.update_of_ne hne]
  · rw [hlog]
    apply h.live.concat
    intro j hj
    obtain rfl : k = j := by simpa using hj
    exact hopen
  · intro j hj
    rw [hlog] at hj
    exact Or.inl (by simpa using hj)
  · intro j hj
    rw [hmember] at hj
    exact Or.inl hj
  · intro j hj
    obtain ⟨hne, hjopen⟩ := (hisOpen j).mp hj
    exact Or.inr ⟨hjopen, fun _ _ hj => hne (Option.some.inj (hj.symm.trans hk))⟩
  · change s.store.entries = (s.changes ++ []).foldl Change.apply stored
    rw [List.append_nil, h.replayed]
  · intro e he
    exact h.declared e (by simpa [State.called, State.effect, changed] using he)

theorem called_open {storage : Bytes} {openMode : NvsOpenMode}
    {go : Except NvsErr NvsHandle → NvsProgram Result} (h : Tracked stored s mode)
    (hrun : s.phase i = .running o op (.call (.nvsOpen storage openMode) go))
    (hmode : mode i = .start) (failure : EspErr) :
    ∃ m, Tracked stored (s.called i o op (.nvsOpen storage openMode) go failure)
      (Function.update mode i m) := by
  obtain ⟨hkeeps, hagrees⟩ := h.running i o op _ hrun
  rw [hmode] at hkeeps hagrees
  obtain ⟨hstorage, hkeeps⟩ := hkeeps
  have hmine : ∀ got, mode i ≠ .own got := by
    intro got hown
    rw [hmode] at hown
    cases hown
  have hchanges : (s.called i o op (.nvsOpen storage openMode) go failure).changes =
      s.changes := List.append_nil _
  cases failure with
  | some err =>
    have hlog : (s.called i o op (.nvsOpen storage openMode) go (some err)).log = s.log :=
      List.append_nil _
    have hmember : (s.called i o op (.nvsOpen storage openMode) go (some err)).member =
        s.member := Function.update_eq_self ..
    refine ⟨.ended .nothing, h.advance hrun (called_beside ?_) (Function.update_self ..)
      (hkeeps (.error err) trivial) (Known.mono hagrees (List.subset_append_left ..)) ?_ le_rfl
      ?_ ?_ ?_ ?_ ?_⟩
    · intro o' j _ _ hj
      exact ⟨rfl, hlog ▸ hj⟩
    · exact hlog ▸ h.live
    · exact fun j hj => Or.inl (hlog ▸ hj)
    · exact fun j hj => Or.inl (hmember ▸ hj)
    · exact fun j hj => Or.inr ⟨hlog ▸ hj, fun got hown => absurd hown (hmine got)⟩
    · rw [hchanges]
      exact h.replayed
    · rw [hchanges]
      exact h.declared
  | none =>
    have hlog : (s.called i o op (.nvsOpen storage openMode) go none).log =
        s.log ++ [.opened s.store.count] := rfl
    have hmember : (s.called i o op (.nvsOpen storage openMode) go none).member o =
        some s.store.count := Function.update_self ..
    have hfresh : .opened s.store.count ∉ s.log := fun hmem =>
      absurd (h.fresh _ hmem) (lt_irrefl _)
    have hisOpen : ∀ j, IsOpen (s.called i o op (.nvsOpen storage openMode) go none).log j ↔
        j = s.store.count ∨ IsOpen s.log j := fun j => isOpen_opened h.live hfresh
    have hopened : (s.called i o op (.nvsOpen storage openMode) go none).store.opened =
        Function.update s.store.opened s.store.count (some storage) := rfl
    refine ⟨.own .nothing, h.advance hrun (called_beside ?_) (Function.update_self ..)
      (hkeeps (.ok s.store.count) trivial)
      ⟨⟨s.store.count, hmember, ?_, (hisOpen _).mpr (Or.inl rfl)⟩,
        Known.mono hagrees (List.subset_append_left ..)⟩ ?_ (Nat.le_succ _) ?_ ?_ ?_ ?_ ?_⟩
    · intro o' j _ hj hjopen
      refine ⟨?_, (hisOpen j).mpr (Or.inr hjopen)⟩
      rw [hopened, Function.update_of_ne (h.members o' j hj).ne]
    · rw [hopened, Function.update_self, hstorage]
    · rw [hlog]
      apply h.live.concat
      intro j hj
      simp at hj
    · intro j hj
      rw [hlog] at hj
      rcases List.mem_append.mp hj with hj | hj
      · exact Or.inl hj
      · obtain rfl : j = s.store.count := by simpa using hj
        exact Or.inr (Nat.lt_succ_self _)
    · intro j hj
      obtain rfl := Option.some.inj (hmember.symm.trans hj)
      exact Or.inr ⟨le_rfl, Nat.lt_succ_self _⟩
    · intro j hj
      rcases (hisOpen j).mp hj with rfl | hj
      · exact Or.inl ⟨hmember, .nothing, rfl⟩
      · exact Or.inr ⟨hj, fun got hown => absurd hown (hmine got)⟩
    · rw [hchanges]
      exact h.replayed
    · rw [hchanges]
      exact h.declared

theorem Tracked.begun {memory : ℕ → UInt8} (h : Tracked stored s mode) (hidle : s.phase i = .idle)
    (hfree : ∀ j op rest, s.phase j ≠ .running o op rest) :
    Tracked stored (next memory s (.begin i o op)) (Function.update mode i .start) := by
  have hself : (next memory s (.begin i o op)).phase i =
      .running o op (perform memory op) := Function.update_self ..
  have hmoments : ∀ j, j ≠ i →
      (next memory s (.begin i o op)).moments j = s.moments j :=
    fun j hj => Function.update_of_ne hj ..
  have hbeside : Beside s (next memory s (.begin i o op)) i o :=
    ⟨fun j hj => Function.update_of_ne hj .., fun _ _ => rfl,
      fun j hj => hmoments j hj ▸ List.Subset.refl _, fun _ _ _ _ hk => ⟨rfl, hk⟩⟩
  refine ⟨h.live, h.fresh, h.members, h.unique, ?_, ?_, ?_, h.replayed, h.declared⟩
  · intro k hk
    obtain ⟨j, o', op', rest, got, hj, hmode, hk⟩ := h.owned k hk
    have hne : j ≠ i := by
      rintro rfl
      rw [hidle] at hj
      cases hj
    exact ⟨j, o', op', rest, got, (hbeside.phase j hne).trans hj,
      (Function.update_of_ne hne ..).trans hmode, hk⟩
  · intro a b o' op₁ rest₁ op₂ rest₂ ha hb
    by_cases hai : a = i
    · by_cases hbi : b = i
      · rw [hai, hbi]
      · subst hai
        obtain ⟨rfl, -, -⟩ := Phase.running.inj (ha.symm.trans hself)
        exact absurd (hbeside.phase b hbi ▸ hb) (hfree b _ _)
    · by_cases hbi : b = i
      · subst hbi
        obtain ⟨rfl, -, -⟩ := Phase.running.inj (hb.symm.trans hself)
        exact absurd (hbeside.phase a hai ▸ ha) (hfree a _ _)
      · exact h.alone a b o' _ _ _ _ (hbeside.phase a hai ▸ ha) (hbeside.phase b hbi ▸ hb)
  · intro j o' op' rest ht
    by_cases hj : j = i
    · subst hj
      obtain ⟨rfl, rfl, rfl⟩ := Phase.running.inj (ht.symm.trans hself)
      rw [Function.update_self]
      refine ⟨perform_keeps, s.store.entries, ?_, trivial⟩
      rw [show (next memory s (.begin j o' op')).moments j = [s.store.entries] from
        Function.update_self ..]
      exact List.mem_singleton_self _
    · rw [hbeside.phase j hj] at ht
      rw [Function.update_of_ne hj]
      obtain ⟨hkeeps, hagrees⟩ := h.running j o' op' rest ht
      refine ⟨hkeeps, hagrees.beside hbeside hj ?_⟩
      rintro rfl
      exact hfree j _ _ ht

theorem Tracked.finished {memory : ℕ → UInt8} {res : Result} (h : Tracked stored s mode)
    (hrun : s.phase i = .running o op (.ret res)) :
    Tracked stored (next memory s (.finish i)) mode := by
  have hself : (next memory s (.finish i)).phase i = .idle := Function.update_self ..
  have hbeside : Beside s (next memory s (.finish i)) i o :=
    ⟨fun j hj => Function.update_of_ne hj .., fun _ _ => rfl,
      fun _ _ => List.Subset.refl _, fun _ _ _ _ hk => ⟨rfl, hk⟩⟩
  have hstill : ∀ j o' op' rest,
      (next memory s (.finish i)).phase j = .running o' op' rest →
        j ≠ i ∧ s.phase j = .running o' op' rest := by
    intro j o' op' rest ht
    have hj : j ≠ i := by
      rintro rfl
      rw [hself] at ht
      cases ht
    exact ⟨hj, hbeside.phase j hj ▸ ht⟩
  refine ⟨h.live, h.fresh, h.members, h.unique, ?_, ?_, ?_, h.replayed, h.declared⟩
  · intro k hk
    obtain ⟨j, o', op', rest, got, hj, hmode, hk⟩ := h.owned k hk
    have hne : j ≠ i := by
      rintro rfl
      obtain ⟨⟨got', hended, -⟩, -⟩ := h.running j o op _ hrun
      rw [hmode] at hended
      cases hended
    exact ⟨j, o', op', rest, got, (hbeside.phase j hne).trans hj, hmode, hk⟩
  · intro a b o' op₁ rest₁ op₂ rest₂ ha hb
    exact h.alone a b o' _ _ _ _ (hstill a _ _ _ ha).2 (hstill b _ _ _ hb).2
  · intro j o' op' rest ht
    obtain ⟨hj, ht⟩ := hstill j o' op' rest ht
    obtain ⟨hkeeps, hagrees⟩ := h.running j o' op' rest ht
    refine ⟨hkeeps, hagrees.beside hbeside hj ?_⟩
    rintro rfl
    exact hj (h.alone j i o' _ _ _ _ ht hrun)

theorem Tracked.step {memory : ℕ → UInt8} {e : Event T O} (h : Tracked stored s mode)
    (he : Enabled true s e) : ∃ mode', Tracked stored (next memory s e) mode' := by
  cases e with
  | begin i o op => exact ⟨_, h.begun he.1 (he.2 rfl)⟩
  | call i failure =>
    obtain ⟨o, op, c, go, hrun⟩ := he
    obtain ⟨hkeeps, -⟩ := h.running i o op _ hrun
    have hallowed := hkeeps.1
    simp only [next, hrun]
    cases hmode : mode i with
    | start =>
      rw [hmode] at hallowed
      cases c with
      | nvsOpen storage openMode =>
        obtain ⟨m, hm⟩ := called_open h hrun hmode failure
        exact ⟨_, hm⟩
      | _ => exact hallowed.elim
    | own got =>
      rw [hmode] at hallowed
      by_cases hclose : ∃ handle, c = .nvsClose handle
      · obtain ⟨handle, rfl⟩ := hclose
        obtain ⟨m, hm⟩ := called_close h hrun hmode failure
        exact ⟨_, hm⟩
      · have hclose : ∀ handle, c ≠ .nvsClose handle := fun handle hc => hclose ⟨handle, hc⟩
        obtain ⟨m, hm⟩ := called_used h hrun hmode hallowed hclose failure
        exact ⟨_, hm⟩
    | ended got =>
      rw [hmode] at hallowed
      exact hallowed.elim
  | finish i =>
    obtain ⟨o, op, res, hrun⟩ := he
    exact ⟨mode, h.finished hrun⟩

end Invariant

section Shared

/-- Two tasks write to storages "a" and "b" through one object. The second opens its storage
before the first sets its value. -/
def overlapping : List (Event Bool Unit) :=
  [.begin false () (.write (ascii "a") (ascii "t") (.i64 1)),
    .begin true () (.write (ascii "b") (ascii "t") (.i64 2)),
    .call false none, .call true none, .call false none]

theorem run_overlapping (memory : ℕ → UInt8) (stored : Entries) :
    (system memory false stored Bool Unit).Run overlapping
      (overlapping.foldl (next memory) (initial stored)) := by
  have hrun : (system memory false stored Bool Unit).Run [] (initial stored) := .init
  refine hrun.follows ⟨⟨rfl, nofun⟩, trivial, ⟨rfl, nofun⟩, trivial, ?_⟩
  refine ⟨⟨_, _, _, _, rfl⟩, trivial, ⟨_, _, _, _, rfl⟩, trivial, ?_⟩
  exact ⟨⟨_, _, _, _, rfl⟩, trivial, trivial⟩

/-- The value of the first is set in the storage of the second. -/
theorem not_safe_overlapping (memory : ℕ → UInt8) (stored : Entries) :
    ¬ Safe stored (overlapping.foldl (next memory) (initial stored)) := by
  intro hsafe
  have hmisplaced := hsafe.declared
    ⟨.write (ascii "a") (ascii "t") (.i64 1), (ascii "b", ascii "t"), some (.i64 1)⟩
    (List.mem_singleton_self _)
  exact absurd hmisplaced (by decide)

end Shared

/-- In every interleaving of calls on any number of objects, any of which may fail, handles and
values are safe, just when no two calls on one object overlap. -/
theorem objects_safe_iff (exclusive : Bool) :
    (∀ (memory : ℕ → UInt8) (stored : Entries) (T O : Type) [DecidableEq T] [DecidableEq O]
      (h : List (Event T O)) (s : State T O), (system memory exclusive stored T O).Run h s →
        Safe stored s) ↔ exclusive = true := by
  constructor
  · intro hsafe
    by_contra hshared
    obtain rfl : exclusive = false := Bool.eq_false_iff.mpr hshared
    apply not_safe_overlapping (fun _ => 0) fun _ => none
    exact hsafe _ _ Bool Unit _ _ (run_overlapping _ _)
  · rintro rfl memory stored T O _ _ h s hr
    obtain ⟨mode, htracked⟩ := hr.invariant (I := fun s => ∃ mode, Tracked stored s mode)
      ⟨_, tracked_initial⟩ fun _ _ ⟨_, ht⟩ he _ => ht.step he
    exact htracked.safe

end NvsObjects
