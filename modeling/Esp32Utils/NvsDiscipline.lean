import Esp32Utils.ContestedNvs
import Esp32Utils.NvsHistory

/-! # Handles and buffers of NVS

Whatever fails and whoever else writes, every call closes the handle that it has opened, stays
within its buffer, and changes its result only to a value that it has read. -/
namespace NvsDiscipline

open ByteStrings InteractionProgram HandleSessions NvsFlash Nvs ContestedNvs
open NvsHistory (Op)

abbrev Script := Stream' Turn

abbrev History := List (Op × Script)

/-- What a call returns, with `res` after a read; the string read may leave its buffer. -/
inductive Result where
  | done (ret : Bool)
  | i64 (ret : Bool) (res : Int64)
  | str (read : Option (Bool × Bytes))
  deriving DecidableEq

def perform (memory : ℕ → UInt8) : Op → NvsProgram Result
  | .write storage tag (.i64 val) => do return .done (← writeI64 storage tag val)
  | .write storage tag (.str val) => do return .done (← writeStr storage tag val)
  | .erase storage tag => do return .done (← Nvs.erase storage tag)
  | .readI64 storage tag res => do
    let (ret, res) ← Nvs.readI64 storage tag res
    return .i64 ret res
  | .readStr storage tag res => do return .str (← readStrBuffer memory storage tag res)

def execute (memory : ℕ → UInt8) (s : Store) (c : Op × Script) : Result × Store :=
  (perform memory c.1).runScript contested c.2 { s with log := [] }

def after (memory : ℕ → UInt8) (s : Store) (h : History) : Store :=
  h.foldl (fun s c => (execute memory s c).2) s

/-- A read that fails leaves `res` alone, and one that succeeds has seen it in the storage. -/
def Right : Op → Result → (Key → Option NvsValue) → Prop
  | .write _ _ _, .done _, _ => True
  | .erase _ _, .done _, _ => True
  | .readI64 storage tag res, .i64 ret out, seen =>
    (ret = false → out = res) ∧ (ret = true → seen (storage, tag) = some (.i64 out))
  | .readStr storage tag res, .str (some (ret, out)), seen =>
    (ret = false → out = res) ∧
      (ret = true → ∃ v, seen (storage, tag) = some (.str v) ∧ out = v.bytes)
  | _, _, _ => False

def Disciplined (memory : ℕ → UInt8) (s : Store) (c : Op × Script) : Prop :=
  Balanced (execute memory s c).2.log ∧ Right c.1 (execute memory s c).1 (execute memory s c).2.seen

section Changes

variable {s : Store} {storage tag : Bytes} {script : Script}
  {modify : NvsHandle → NvsProgram EspErr}

def UsesOnce (modify : NvsHandle → NvsProgram EspErr) : Prop :=
  ∀ handle script s, ((modify handle).run (scripted contested) (script, s)).2.2.log =
    s.log ++ [.used handle]

theorem change_log (hm : UsesOnce modify) :
    ((change modify storage).runScript contested script s).2.log = s.log ∨
      ∃ handle, ((change modify storage).runScript contested script s).2.log =
        s.log ++ session handle 2 := by
  cases hfail : script.head.failure with
  | some err =>
    left
    simp [Program.runScript, change, openToWrite, scripted, contested, nvs, accesses, hfail]
  | none =>
    refine Or.inr ⟨(script.head.replace s.nvs).count, ?_⟩
    simp [Program.runScript, change, openToWrite, scripted, contested, nvs, accesses, hfail,
      hm _ _ _, session]

end Changes

section Reads

variable {s : Store} {found : NvsState} {storage tag res : Bytes} {script : Script} {turn : Turn}
  {memory : ℕ → UInt8} {handle : NvsHandle} {failure : EspErr} {val : Int64} {bytes : Bytes}
  {n : ℕ}

theorem replace_opened : (turn.replace found).opened = found.opened := by
  unfold Turn.replace
  induction turn.replaced generalizing found with
  | nil => rfl
  | cons r rs ih => exact ih

theorem get_ok {value : NvsValue} (ho : found.opened handle = some storage)
    (hget : found.get handle tag failure = .ok value) :
    found.entries (storage, tag) = some value := by
  cases failure with
  | some err => simp [NvsState.get] at hget
  | none =>
    cases he : found.entries (storage, tag) with
    | none => simp [NvsState.get, ho, he] at hget
    | some value' => simpa [NvsState.get, ho, he] using hget

theorem getI64_ok (ho : found.opened handle = some storage)
    (hget : (found.get handle tag failure).bind NvsValue.getI64 = .ok val) :
    found.entries (storage, tag) = some (.i64 val) := by
  cases hvalue : found.get handle tag failure with
  | error err =>
    rw [hvalue] at hget
    cases hget
  | ok value =>
    rw [hvalue] at hget
    rw [get_ok ho hvalue]
    cases value with
    | i64 v => rw [Except.ok.inj hget]
    | str v => cases hget

theorem getStr_ok (ho : found.opened handle = some storage)
    (hget : (found.get handle tag failure).bind (NvsValue.getStr n) = .ok bytes) :
    ∃ v, found.entries (storage, tag) = some (.str v) ∧ bytes = v.bytes ++ [0] ∧
      bytes.length ≤ n := by
  cases hvalue : found.get handle tag failure with
  | error err =>
    rw [hvalue] at hget
    cases hget
  | ok value =>
    rw [hvalue] at hget
    rw [get_ok ho hvalue]
    cases value with
    | i64 v => cases hget
    | str v =>
      change (if v.bytes.length + 1 ≤ n then _ else _) = _ at hget
      by_cases hfits : v.bytes.length + 1 ≤ n
      · rw [if_pos hfits] at hget
        obtain rfl := Except.ok.inj hget
        refine ⟨v, rfl, rfl, ?_⟩
        rw [List.length_append]
        exact hfits
      · rw [if_neg hfits] at hget
        cases hget

def opened (script : Script) (s : Store) : NvsHandle := (script.head.replace s.nvs).count

def foundFirst (storage : Bytes) (script : Script) (s : Store) : NvsState :=
  script.tail.head.replace ((script.head.replace s.nvs).openHandle storage)

def foundSecond (storage : Bytes) (script : Script) (s : Store) : NvsState :=
  script.tail.tail.head.replace (foundFirst storage script s)

theorem foundFirst_opened :
    (foundFirst storage script s).opened (opened script s) = some storage := by
  rw [foundFirst, replace_opened]
  exact openHandle_opened

theorem foundSecond_opened :
    (foundSecond storage script s).opened (opened script s) = some storage := by
  rw [foundSecond, replace_opened]
  exact foundFirst_opened

theorem openToRead_failed {err : NvsErr} (hfail : script.head.failure = some err) :
    (openToRead storage).run (scripted contested) (script, s) =
      (none, script.tail, { s with nvs := script.head.replace s.nvs }) := by
  simp [openToRead, scripted, contested, nvs, accesses, isGet, hfail]

theorem openToRead_opened (hopen : script.head.failure = none) :
    (openToRead storage).run (scripted contested) (script, s) =
      (some (opened script s), script.tail,
        { s with
          nvs := (script.head.replace s.nvs).openHandle storage
          log := s.log ++ [.opened (opened script s)] }) := by
  simp [openToRead, scripted, contested, nvs, accesses, isGet, hopen, opened]

theorem readI64_unopened {res : Int64} {err : NvsErr} (hfail : script.head.failure = some err) :
    (Nvs.readI64 storage tag res).runScript contested script s =
      ((false, res), { s with nvs := script.head.replace s.nvs }) := by
  simp [Program.runScript, Nvs.readI64, openToRead_failed hfail]

def i64Answer (storage tag : Bytes) (script : Script) (s : Store) : Except NvsErr Int64 :=
  ((foundFirst storage script s).get (opened script s) tag script.tail.head.failure).bind
    NvsValue.getI64

theorem readI64_opened {res : Int64} (hopen : script.head.failure = none) :
    (Nvs.readI64 storage tag res).runScript contested script s =
      (match i64Answer storage tag script s with
        | .ok val => (true, val)
        | .error _ => (false, res),
        ⟨(foundSecond storage script s).closeHandle (opened script s),
          s.log ++ session (opened script s) 1, (foundFirst storage script s).entries⟩) := by
  cases hanswer : i64Answer storage tag script s with
  | error err =>
    rw [i64Answer, foundFirst] at hanswer
    simp only [Program.runScript, Nvs.readI64, run_bind, openToRead_opened hopen, run_nvsGetI64,
      run_nvsClose, scripted, contested, nvs, accesses, isGet, List.append_assoc, hanswer,
      pure_eq_ret, run_ret]
    rfl
  | ok val =>
    rw [i64Answer, foundFirst] at hanswer
    simp only [Program.runScript, Nvs.readI64, run_bind, openToRead_opened hopen, run_nvsGetI64,
      run_nvsClose, scripted, contested, nvs, accesses, isGet, List.append_assoc, hanswer,
      pure_eq_ret, run_ret]
    rfl

theorem readStr_unopened {err : NvsErr} (hfail : script.head.failure = some err) :
    (Nvs.readStr storage tag res).runScript contested script s =
      ((false, res), { s with nvs := script.head.replace s.nvs }) := by
  simp [Program.runScript, Nvs.readStr, openToRead_failed hfail]

def readLength (storage tag : Bytes) (script : Script) (s : Store) : ℕ :=
  match ((foundFirst storage script s).get (opened script s) tag
    script.tail.head.failure).bind NvsValue.getStrLength with
  | .ok n => n
  | .error _ => 0

def strAnswer (storage tag : Bytes) (script : Script) (s : Store) : Except NvsErr Bytes :=
  ((foundSecond storage script s).get (opened script s) tag script.tail.tail.head.failure).bind
    (NvsValue.getStr (readLength storage tag script s))

def readStore (storage : Bytes) (script : Script) (s : Store) : Store :=
  ⟨(script.tail.tail.tail.head.replace (foundSecond storage script s)).closeHandle
      (opened script s),
    s.log ++ session (opened script s) 2, (foundSecond storage script s).entries⟩

theorem readStr_opened (hopen : script.head.failure = none) :
    (Nvs.readStr storage tag res).runScript contested script s =
      (match strAnswer storage tag script s with
        | .ok bytes => (true, cStr (bytes ++ [0]))
        | .error _ => (false, res),
        readStore storage script s) := by
  have hrun : (Nvs.readStr storage tag res).runScript contested script s =
      let out := (match strAnswer storage tag script s with
        | .ok charArr => (.ret (true, cStr (charArr ++ [0])) : NvsProgram (Bool × Bytes))
        | .error _ => .ret (false, res)).run (scripted contested)
          (script.tail.tail.tail.tail, readStore storage script s)
      (out.1, out.2.2) := by
    simp only [Program.runScript, Nvs.readStr, run_bind, openToRead_opened hopen,
      run_nvsGetStrLength, run_nvsGetStr, run_nvsClose, scripted, contested, nvs, accesses, isGet,
      List.append_assoc]
    rfl
  rw [hrun]
  cases strAnswer storage tag script s with
  | error err => rfl
  | ok bytes => rfl

theorem readStrBuffer_opened (hopen : script.head.failure = none) :
    (readStrBuffer memory storage tag res).runScript contested script s =
      (match strAnswer storage tag script s with
        | .ok bytes =>
          (terminated (newArray memory (readLength storage tag script s + 1)) bytes).map
            fun readRes => (true, readRes)
        | .error _ => some (false, res),
        readStore storage script s) := by
  simp only [Program.runScript, readStrBuffer, run_bind, openToRead_opened hopen,
    run_nvsGetStrLength, run_nvsGetStr, run_nvsClose, scripted, contested, nvs, accesses, isGet,
    List.append_assoc, pure_eq_ret, run_ret]
  rfl

theorem i64Answer_ok (hanswer : i64Answer storage tag script s = .ok val) :
    (foundFirst storage script s).entries (storage, tag) = some (.i64 val) :=
  getI64_ok foundFirst_opened hanswer

theorem strAnswer_ok (hanswer : strAnswer storage tag script s = .ok bytes) :
    ∃ v, (foundSecond storage script s).entries (storage, tag) = some (.str v) ∧
      cStr (bytes ++ [0]) = v.bytes := by
  obtain ⟨v, hv, rfl, -⟩ := getStr_ok foundSecond_opened hanswer
  exact ⟨v, hv, NvsHistory.cStr_of_stored v⟩

/-- The buffer is never left, so the read is the one without a buffer. -/
theorem readStrBuffer_eq :
    (readStrBuffer memory storage tag res).runScript contested script s =
      let out := (Nvs.readStr storage tag res).runScript contested script s
      (some out.1, out.2) := by
  cases hopen : script.head.failure with
  | some err =>
    rw [readStr_unopened hopen]
    simp [Program.runScript, readStrBuffer, openToRead_failed hopen]
  | none =>
    rw [readStrBuffer_opened hopen, readStr_opened hopen]
    cases hanswer : strAnswer storage tag script s with
    | error err => rfl
    | ok bytes =>
      obtain ⟨v, -, -, hfits⟩ := getStr_ok foundSecond_opened hanswer
      simp only [terminated_inside hfits, Option.map_some]

end Reads

section Operations

variable {memory : ℕ → UInt8} {s : Store} {storage tag : Bytes} {script : Script}

theorem change_balanced {modify : NvsHandle → NvsProgram EspErr} (hm : UsesOnce modify) :
    Balanced ((change modify storage).runScript contested script { s with log := [] }).2.log := by
  rcases @change_log { s with log := [] } storage script modify hm with hlog | ⟨handle, hlog⟩
  · rw [hlog]
    exact balanced_nil
  · rw [hlog]
    exact balanced_session handle 2

theorem write_disciplined {val : NvsValue} :
    Disciplined memory s (.write storage tag val, script) := by
  cases val with
  | i64 val =>
    rw [Disciplined, execute, perform, runScript_return]
    exact ⟨change_balanced fun _ _ _ => rfl, trivial⟩
  | str val =>
    rw [Disciplined, execute, perform, runScript_return]
    exact ⟨change_balanced fun _ _ _ => rfl, trivial⟩

theorem erase_disciplined : Disciplined memory s (.erase storage tag, script) := by
  rw [Disciplined, execute, perform, runScript_return]
  exact ⟨change_balanced fun _ _ _ => rfl, trivial⟩

theorem readI64_disciplined {res : Int64} :
    Disciplined memory s (.readI64 storage tag res, script) := by
  rw [Disciplined, execute, perform, runScript_return]
  cases hopen : script.head.failure with
  | some err =>
    rw [readI64_unopened hopen]
    exact ⟨balanced_nil, fun _ => rfl, Bool.noConfusion⟩
  | none =>
    rw [readI64_opened hopen]
    refine ⟨balanced_session _ 1, ?_⟩
    cases hanswer : i64Answer storage tag script { s with log := [] } with
    | error err => exact ⟨fun _ => rfl, Bool.noConfusion⟩
    | ok val => exact ⟨Bool.noConfusion, fun _ => i64Answer_ok hanswer⟩

theorem readStr_disciplined {res : Bytes} :
    Disciplined memory s (.readStr storage tag res, script) := by
  rw [Disciplined, execute, perform, runScript_return, readStrBuffer_eq]
  cases hopen : script.head.failure with
  | some err =>
    rw [readStr_unopened hopen]
    exact ⟨balanced_nil, fun _ => rfl, Bool.noConfusion⟩
  | none =>
    rw [readStr_opened hopen]
    refine ⟨balanced_session _ 2, ?_⟩
    cases hanswer : strAnswer storage tag script { s with log := [] } with
    | error err => exact ⟨fun _ => rfl, Bool.noConfusion⟩
    | ok bytes =>
      obtain ⟨v, hv, hread⟩ := strAnswer_ok hanswer
      exact ⟨Bool.noConfusion, fun _ => ⟨v, hv, hread⟩⟩

theorem execute_disciplined (c : Op × Script) : Disciplined memory s c := by
  obtain ⟨op, script⟩ := c
  cases op with
  | write storage tag val => exact write_disciplined
  | erase storage tag => exact erase_disciplined
  | readI64 storage tag res => exact readI64_disciplined
  | readStr storage tag res => exact readStr_disciplined

end Operations

/-- In every history, each call is disciplined. -/
theorem nvs_disciplined (memory : ℕ → UInt8) (s : Store) (h : History) :
    ∀ before c rest, h = before ++ c :: rest → Disciplined memory (after memory s before) c := by
  intro before c rest hsplit
  exact execute_disciplined c

section Sample

def blankMemory : ℕ → UInt8 := fun _ => 0

def stored : Store where
  nvs := NvsHistory.blank.put (ascii "cfg", ascii "name") (some (.str ⟨ascii "ab", by decide⟩))
  log := []
  seen := fun _ => none

def readName : Op := .readStr (ascii "cfg") (ascii "name") (ascii "old")

def replacedBy (val : CString) : Script :=
  [⟨none, []⟩, ⟨none, []⟩, ⟨none, [((ascii "cfg", ascii "name"), some (.str val))]⟩] ++ₛ
    Stream'.const ⟨none, []⟩

/-- A shorter string is read as it is. -/
theorem nvs_disciplined_sample :
    (execute blankMemory stored (readName, replacedBy ⟨ascii "c", by decide⟩)).1 =
        .str (some (true, ascii "c")) ∧
      Disciplined blankMemory stored (readName, replacedBy ⟨ascii "c", by decide⟩) := by
  refine ⟨by decide, ?_⟩
  exact nvs_disciplined blankMemory stored [(readName, replacedBy ⟨ascii "c", by decide⟩)] [] _ []
    rfl

/-- A longer one does not fit the buffer. -/
example : (execute blankMemory stored (readName, replacedBy ⟨ascii "abc", by decide⟩)).1 =
    .str (some (false, ascii "old")) := by decide

end Sample

end NvsDiscipline
