import Esp32Utils.Nvs
import Mathlib.Data.List.Induction

/-! # What NVS reports

A history of calls in which any call of the platform may fail, what the wrapper has
promised by returning true, and when the storage keeps the promises. -/
namespace NvsHistory

open ByteStrings InteractionProgram NvsFlash Nvs

abbrev Script := Stream' EspErr

inductive NvsType where
  | i64
  | str
  deriving DecidableEq, Repr

def NvsValue.type : NvsValue → NvsType
  | .i64 _ => .i64
  | .str _ => .str

inductive Op where
  | write (storage tag : Bytes) (val : NvsValue)
  | erase (storage tag : Bytes)
  | readI64 (storage tag : Bytes) (res : Int64)
  | readStr (storage tag res : Bytes)

def Op.program : Op → NvsProgram Bool
  | .write storage tag (.i64 val) => writeI64 storage tag val
  | .write storage tag (.str val) => writeStr storage tag val
  | .erase storage tag => Nvs.erase storage tag
  | .readI64 storage tag res => do return (← Nvs.readI64 storage tag res).1
  | .readStr storage tag res => do return (← Nvs.readStr storage tag res).1

/-- What a call that succeeds is to leave under a key. -/
def Op.target : Op → Option (Key × Option NvsValue)
  | .write storage tag val => some ((storage, tag), some val)
  | .erase storage tag => some ((storage, tag), none)
  | _ => none

abbrev History := List (Op × Script)

def execute (s : NvsState) (c : Op × Script) : Bool × NvsState := c.1.program.runScript nvs c.2 s

def after (s : NvsState) (h : History) : NvsState := h.foldl (fun s c => (execute s c).2) s

/-- What the last write or erase of a key has promised: nothing when it returned false. -/
def promise (key : Key) (last : Option (Option NvsValue)) (op : Op) (ret : Bool) :
    Option (Option NvsValue) :=
  match op.target with
  | none => last
  | some (key', value) => if key = key' then (if ret then some value else none) else last

def promised (s : NvsState) : History → Key → Option (Option NvsValue)
  | h, key => (h.foldl (fun (p : Option (Option NvsValue) × NvsState) c =>
      (promise key p.1 c.1 (execute p.2 c).1, (execute p.2 c).2)) (none, s)).1

def Undisturbed (script : Script) : Prop := ∀ n, n < 3 → script.get n = none

def Answers (s : NvsState) (key : Key) : NvsType → Option NvsValue → Prop
  | _, some (.i64 v) => ∀ script res, Undisturbed script →
    ((Nvs.readI64 key.1 key.2 res).runScript nvs script s).1 = (true, v)
  | _, some (.str v) => ∀ script res, Undisturbed script →
    ((Nvs.readStr key.1 key.2 res).runScript nvs script s).1 = (true, v.bytes)
  | .i64, none => ∀ script res, Undisturbed script →
    ((Nvs.readI64 key.1 key.2 res).runScript nvs script s).1.1 = false
  | .str, none => ∀ script res, Undisturbed script →
    ((Nvs.readStr key.1 key.2 res).runScript nvs script s).1.1 = false

/-- Reads answer as the last write or erase of each key has promised. -/
def Faithful (typing : Key → NvsType) (s : NvsState) (h : History) : Prop :=
  ∀ key value, promised s h key = some value → Answers (after s h) key (typing key) value

/-- A change that is opened and committed without an error has reported none itself, or
has found what it was to leave. -/
def Honest (s : NvsState) (c : Op × Script) : Prop :=
  ∀ key value, c.1.target = some (key, value) → c.2.get 0 = none → c.2.get 2 = none →
    c.2.get 1 = none ∨ s.entries key = value

def Typed (typing : Key → NvsType) (s : NvsState) : Prop :=
  ∀ key v, s.entries key = some v → NvsValue.type v = typing key

def WellTyped (typing : Key → NvsType) (op : Op) : Prop :=
  ∀ key v, op.target = some (key, some v) → NvsValue.type v = typing key

section Change

variable {s : NvsState} {storage tag : Bytes} {value : Option NvsValue} {script : Script}
  {modify : NvsHandle → NvsProgram EspErr}

def Modifies (modify : NvsHandle → NvsProgram EspErr) (tag : Bytes) (value : Option NvsValue) :
    Prop :=
  ∀ handle script s, (modify handle).run (scripted nvs) (script, s) =
    ((s.modify handle tag value script.head).1, script.tail,
      (s.modify handle tag value script.head).2)

theorem change_run (hm : Modifies modify tag value) :
    (change modify storage).runScript nvs script s =
      match script.get 0 with
      | some _ => (false, s)
      | none => ((script.get 2).isNone,
          ((s.openHandle storage).modify s.count tag value (script.get 1)).2.closeHandle
            s.count) := by
  cases hx : script.head with
  | some err => simp [Program.runScript, change, openToWrite, scripted, nvs, hx]
  | none => simp [Program.runScript, change, openToWrite, scripted, nvs, hx, hm _ _ _]

theorem change_returns (hm : Modifies modify tag value) :
    ((change modify storage).runScript nvs script s).1 = true ↔
      script.get 0 = none ∧ script.get 2 = none := by
  rw [change_run hm]
  cases script.get 0 with
  | some err => simp
  | none => simp

theorem change_entries (hm : Modifies modify tag value) :
    ((change modify storage).runScript nvs script s).2.entries =
      if script.get 0 = none ∧ script.get 1 = none then
        Function.update s.entries (storage, tag) value
      else s.entries := by
  rw [change_run hm]
  cases script.get 0 with
  | some err => simp
  | none =>
    rw [modify_opened]
    cases script.get 1 with
    | some err => simp
    | none => simp

end Change

section Reads

variable {s : NvsState} {storage tag : Bytes} {script : Script}

theorem Undisturbed.heads (hu : Undisturbed script) :
    script.head = none ∧ script.tail.head = none ∧ script.tail.tail.head = none :=
  ⟨hu 0 (by decide), hu 1 (by decide), hu 2 (by decide)⟩

theorem readI64_run (hu : Undisturbed script) (res : Int64) :
    ((Nvs.readI64 storage tag res).runScript nvs script s).1 =
      match s.entries (storage, tag) with
      | some (.i64 v) => (true, v)
      | _ => (false, res) := by
  obtain ⟨h0, h1, -⟩ := hu.heads
  simp only [Program.runScript, Nvs.readI64, openToRead, run_bind, run_nvsOpen, run_nvsGetI64,
    run_nvsClose, scripted, nvs, h0, h1, pure_eq_ret, run_ret, get_opened]
  cases s.entries (storage, tag) with
  | none => rfl
  | some value =>
    cases value with
    | i64 v => rfl
    | str v => rfl

theorem cStr_of_stored (v : CString) : cStr (v.bytes ++ [0] ++ [0]) = v.bytes := by
  rw [cStr_append_zero, cStr_append_zero, cStr_eq_self]
  exact v.noNul

theorem readStr_run (hu : Undisturbed script) (res : Bytes) :
    ((Nvs.readStr storage tag res).runScript nvs script s).1 =
      match s.entries (storage, tag) with
      | some (.str v) => (true, v.bytes)
      | _ => (false, res) := by
  obtain ⟨h0, h1, h2⟩ := hu.heads
  simp only [Program.runScript, Nvs.readStr, openToRead, run_bind, run_nvsOpen, run_nvsGetStr,
    run_nvsGetStrLength, run_nvsClose, scripted, nvs, h0, h1, h2, pure_eq_ret, run_ret, get_opened]
  cases s.entries (storage, tag) with
  | none => rfl
  | some value =>
    cases value with
    | i64 v => rfl
    | str v =>
      simp only [Except.bind, NvsValue.getStrLength, NvsValue.getStr, le_refl, if_true, run_ret,
        cStr_of_stored]

end Reads

section Operations

variable {s : NvsState} {op : Op} {script : Script} {key : Key} {value : Option NvsValue}
  {typing : Key → NvsType} {h : History} {c : Op × Script}

theorem target_some (ht : op.target = some (key, value)) :
    ∃ modify, op.program = change modify key.1 ∧ Modifies modify key.2 value := by
  cases op with
  | write storage tag val =>
    simp only [Op.target, Option.some.injEq, Prod.mk.injEq] at ht
    obtain ⟨rfl, rfl⟩ := ht
    cases val with
    | i64 v => exact ⟨_, rfl, fun _ _ _ => rfl⟩
    | str v => exact ⟨_, rfl, fun _ _ _ => rfl⟩
  | erase storage tag =>
    simp only [Op.target, Option.some.injEq, Prod.mk.injEq] at ht
    obtain ⟨rfl, rfl⟩ := ht
    exact ⟨_, rfl, fun _ _ _ => rfl⟩
  | readI64 storage tag res => cases ht
  | readStr storage tag res => cases ht

theorem read_entries (ht : op.target = none) :
    (op.program.runScript nvs script s).2.entries = s.entries := by
  cases op with
  | write storage tag val => cases ht
  | erase storage tag => cases ht
  | readI64 storage tag res =>
    cases hx : script.head with
    | some err => simp [Op.program, Program.runScript, Nvs.readI64, openToRead, scripted, nvs, hx]
    | none =>
      simp only [Op.program, Program.runScript, Nvs.readI64, openToRead, run_bind, run_nvsOpen,
        run_nvsGetI64, run_nvsClose, scripted, nvs, hx, pure_eq_ret, run_ret]
      split <;> rfl
  | readStr storage tag res =>
    cases hx : script.head with
    | some err => simp [Op.program, Program.runScript, Nvs.readStr, openToRead, scripted, nvs, hx]
    | none =>
      simp only [Op.program, Program.runScript, Nvs.readStr, openToRead, run_bind, run_nvsOpen,
        run_nvsGetStrLength, run_nvsGetStr, run_nvsClose, scripted, nvs, hx, pure_eq_ret, run_ret]
      split <;> rfl

theorem execute_returns (ht : op.target = some (key, value)) :
    (execute s (op, script)).1 = true ↔ script.get 0 = none ∧ script.get 2 = none := by
  obtain ⟨modify, hp, hm⟩ := target_some ht
  rw [execute, hp, change_returns hm]

theorem execute_entries (ht : op.target = some (key, value)) :
    (execute s (op, script)).2.entries =
      if script.get 0 = none ∧ script.get 1 = none then Function.update s.entries key value
      else s.entries := by
  obtain ⟨modify, hp, hm⟩ := target_some ht
  rw [execute, hp, change_entries hm]

theorem execute_typed (hs : Typed typing s) (hw : WellTyped typing op) :
    Typed typing (execute s (op, script)).2 := by
  intro key' v hv
  cases ht : op.target with
  | none =>
    rw [execute, read_entries ht] at hv
    exact hs key' v hv
  | some target =>
    obtain ⟨key, value⟩ := target
    rw [execute_entries ht] at hv
    split at hv
    · rw [Function.update_apply] at hv
      by_cases hk : key' = key
      · rw [if_pos hk] at hv
        rw [hk]
        exact hw key v (by rw [ht, hv])
      · rw [if_neg hk] at hv
        exact hs key' v hv
    · exact hs key' v hv

theorem after_append : after s (h ++ [c]) = (execute (after s h) c).2 := by
  simp [after]

theorem promised_state : (h.foldl (fun (p : Option (Option NvsValue) × NvsState) c =>
    (promise key p.1 c.1 (execute p.2 c).1, (execute p.2 c).2)) (none, s)).2 = after s h := by
  induction h using List.reverseRecOn with
  | nil => rfl
  | append_singleton h c ih =>
    rw [List.foldl_append, after_append, ← ih]
    rfl

theorem promised_append :
    promised s (h ++ [c]) key = promise key (promised s h key) c.1 (execute (after s h) c).1 := by
  rw [promised, List.foldl_append, ← @promised_state s key h]
  rfl

end Operations

section Histories

variable {typing : Key → NvsType} {s : NvsState} {h : History} {c : Op × Script} {key : Key}
  {value : Option NvsValue}

def calm : Script := Stream'.const none

theorem undisturbed_calm : Undisturbed calm := fun _ _ => rfl

theorem answers_i64_iff {v : Int64} {ty : NvsType} :
    Answers s key ty (some (.i64 v)) ↔ s.entries key = some (.i64 v) := by
  constructor
  · intro ha
    have hread := ha calm 0 undisturbed_calm
    rw [readI64_run undisturbed_calm] at hread
    cases he : s.entries key with
    | none => simp [he] at hread
    | some value =>
      cases value with
      | i64 w => simpa [he] using hread
      | str w => simp [he] at hread
  · intro he script res hu
    rw [readI64_run hu, he]

theorem answers_str_iff {v : CString} {ty : NvsType} :
    Answers s key ty (some (.str v)) ↔ s.entries key = some (.str v) := by
  constructor
  · intro ha
    have hread := ha calm [] undisturbed_calm
    rw [readStr_run undisturbed_calm] at hread
    cases he : s.entries key with
    | none => simp [he] at hread
    | some value =>
      cases value with
      | i64 w => simp [he] at hread
      | str w =>
        simp only [he, Prod.mk.injEq, true_and] at hread
        cases w
        cases v
        obtain rfl := hread
        rfl
  · intro he script res hu
    rw [readStr_run hu, he]

theorem answers_none_iff (hs : Typed typing s) :
    Answers s key (typing key) none ↔ s.entries key = none := by
  have htype := hs key
  cases hty : typing key with
  | i64 =>
    constructor
    · intro ha
      have hread := ha calm 0 undisturbed_calm
      rw [readI64_run undisturbed_calm] at hread
      cases he : s.entries key with
      | none => rfl
      | some value =>
        cases value with
        | i64 w => simp [he] at hread
        | str w => exact absurd ((htype _ he).trans hty) (by simp [NvsValue.type])
    · intro he script res hu
      rw [readI64_run hu, he]
  | str =>
    constructor
    · intro ha
      have hread := ha calm [] undisturbed_calm
      rw [readStr_run undisturbed_calm] at hread
      cases he : s.entries key with
      | none => rfl
      | some value =>
        cases value with
        | i64 w => exact absurd ((htype _ he).trans hty) (by simp [NvsValue.type])
        | str w => simp [he] at hread
    · intro he script res hu
      rw [readStr_run hu, he]

theorem answers_iff (hs : Typed typing s) :
    Answers s key (typing key) value ↔ s.entries key = value := by
  cases value with
  | none => exact answers_none_iff hs
  | some v =>
    cases v with
    | i64 v => exact answers_i64_iff
    | str v => exact answers_str_iff

theorem after_typed (hs : Typed typing s) (hw : ∀ c ∈ h, WellTyped typing c.1) :
    Typed typing (after s h) := by
  induction h using List.reverseRecOn with
  | nil => exact hs
  | append_singleton h c ih =>
    rw [after_append]
    apply execute_typed
    · exact ih fun d hd => hw d (List.mem_append_left _ hd)
    · exact hw c (List.mem_append_right _ List.mem_cons_self)

def Kept (s : NvsState) (h : History) : Prop :=
  ∀ key value, promised s h key = some value → (after s h).entries key = value

theorem kept_step (hk : Kept s h) (hc : Honest (after s h) c) : Kept s (h ++ [c]) := by
  intro key value hp
  rw [promised_append, promise] at hp
  rw [after_append]
  cases ht : c.1.target with
  | none =>
    simp only [ht] at hp
    rw [execute, read_entries ht]
    exact hk key value hp
  | some target =>
    obtain ⟨key', value'⟩ := target
    simp only [ht] at hp
    have hent := @execute_entries (after s h) c.1 c.2 key' value' ht
    by_cases hkey : key = key'
    · rw [if_pos hkey] at hp
      by_cases hret : (execute (after s h) c).1 = true
      · rw [if_pos hret, Option.some.injEq] at hp
        obtain ⟨hopen, hcommit⟩ := (execute_returns ht).mp hret
        rw [hent, hkey, ← hp]
        rcases hc key' value' ht hopen hcommit with hset | hfound
        · rw [if_pos ⟨hopen, hset⟩, Function.update_self]
        · by_cases hset : c.2.get 0 = none ∧ c.2.get 1 = none
          · rw [if_pos hset, Function.update_self]
          · rw [if_neg hset, hfound]
      · rw [if_neg hret] at hp
        cases hp
    · rw [if_neg hkey] at hp
      rw [hent]
      by_cases hset : c.2.get 0 = none ∧ c.2.get 1 = none
      · rw [if_pos hset, Function.update_of_ne hkey]
        exact hk key value hp
      · rw [if_neg hset]
        exact hk key value hp

theorem honest_of_kept (hk : Kept s (h ++ [c])) : Honest (after s h) c := by
  intro key value ht hopen hcommit
  by_cases hset : c.2.get 1 = none
  · exact Or.inl hset
  · refine Or.inr ?_
    have hret := (@execute_returns (after s h) c.1 c.2 key value ht).mpr ⟨hopen, hcommit⟩
    have hp : promised s (h ++ [c]) key = some value := by
      rw [promised_append, promise]
      simp only [ht, if_true]
      exact if_pos hret
    have hentries := hk key value hp
    rw [after_append, @execute_entries (after s h) c.1 c.2 key value ht,
      if_neg fun hand => hset hand.2] at hentries
    exact hentries

end Histories

/-- In every history, reads answer as the writes and erases have promised at every point
exactly when every change is honest. -/
theorem reports_faithful_iff (typing : Key → NvsType) (s : NvsState) (h : History)
    (hs : Typed typing s) (hw : ∀ c ∈ h, WellTyped typing c.1) :
    (∀ before rest, h = before ++ rest → Faithful typing s before) ↔
      ∀ before c rest, h = before ++ c :: rest → Honest (after s before) c := by
  have hfaithful : ∀ before rest, h = before ++ rest →
      (Faithful typing s before ↔ Kept s before) := by
    intro before rest hsplit
    have htyped : Typed typing (after s before) :=
      after_typed hs fun c hc => hw c (hsplit ▸ List.mem_append_left rest hc)
    constructor
    · intro hf key value hp
      exact (answers_iff htyped).mp (hf key value hp)
    · intro hk key value hp
      exact (answers_iff htyped).mpr (hk key value hp)
  constructor
  · intro hall before c rest hsplit
    have hsplit' : h = (before ++ [c]) ++ rest := by rw [hsplit, List.append_assoc]; rfl
    exact honest_of_kept ((hfaithful _ rest hsplit').mp (hall _ rest hsplit'))
  · intro hall before rest hsplit
    rw [hfaithful before rest hsplit]
    induction before using List.reverseRecOn generalizing rest with
    | nil =>
      intro key value hp
      cases hp
    | append_singleton before c ih =>
      rw [List.append_assoc] at hsplit
      exact kept_step (ih _ hsplit) (hall before c rest hsplit)

def blank : NvsState := ⟨fun _ => none, fun _ => none, 0⟩

def storeCount : Op := .write (ascii "cfg") (ascii "count") (.i64 5)

def readCount : Op := .readI64 (ascii "cfg") (ascii "count") 0

def noSpace : Script := [none, some (.other 0x1105)] ++ₛ calm

theorem storeCount_typed : WellTyped (fun _ => .i64) storeCount := by
  intro key v hv
  simp only [storeCount, Op.target, Option.some.injEq, Prod.mk.injEq] at hv
  rw [← hv.2]
  rfl

/-- A count that is stored, not stored again for want of space, and read. -/
theorem reports_faithful_sample :
    let h := [(storeCount, calm), (storeCount, noSpace), (readCount, calm)]
    (∀ before rest, h = before ++ rest → Faithful (fun _ => .i64) blank before) ↔
      ∀ before c rest, h = before ++ c :: rest → Honest (after blank before) c := by
  apply reports_faithful_iff
  · intro key v hv
    cases hv
  · intro c hc
    simp only [List.mem_cons, List.not_mem_nil, or_false] at hc
    rcases hc with rfl | rfl | rfl
    · exact storeCount_typed
    · exact storeCount_typed
    · intro key v hv
      cases hv

/-- The count is not stored, the write returns true and a read finds nothing. -/
theorem failed_set_reported_as_success :
    (execute blank (storeCount, noSpace)).1 = true ∧
      ((Nvs.readI64 (ascii "cfg") (ascii "count") 0).runScript nvs calm
        (after blank [(storeCount, noSpace)])).1 = (false, 0) ∧
      ¬ Faithful (fun _ => .i64) blank [(storeCount, noSpace)] := by
  refine ⟨by decide, by decide, fun hf => ?_⟩
  have hread := hf (ascii "cfg", ascii "count") (some (.i64 5)) (by decide) calm 0 undisturbed_calm
  exact absurd hread (by decide)

end NvsHistory
