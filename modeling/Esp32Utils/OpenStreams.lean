import Esp32Utils.Interaction.Layers
import Esp32Utils.SafeFileManipulator
import Esp32Utils.SpiffsDriver

/-! # SPIFFSDriver leaves no file open

Whatever fails, every function of the driver closes what it opened before it returns. While it
goes through a directory it holds that and one entry, otherwise one file. So does every program
that is written against the driver. -/
namespace OpenStreams

open ByteStrings InteractionProgram InteractionCrash InteractionDiscipline InteractionLayers
open FileSystemDriver ArduinoSpiffs SpiffsDriver

def OnlyOpen (handles : List ℕ) (s : Flash) : Prop := ∀ i, i ∉ handles → s.streams i = none

def Idle (s : Flash) : Prop := ∀ i, s.streams i = none

def AtMost (n : ℕ) (s : Flash) : Prop := ∃ handles, handles.length ≤ n ∧ OnlyOpen handles s

/-- How many it takes to answer a call. -/
def room : DriverCall → ℕ
  | .filesList _ => 2
  | .countFiles _ => 2
  | _ => 1

variable {g : Guarantees} {listing : Disk → Bytes → List Bytes} {s t : Flash} {root file : File}
  {content filename path : Bytes} {o : Outcome} {handles : List ℕ} {n m : ℕ}

theorem Idle.only (h : Idle s) : OnlyOpen [] s := fun i _ => h i

theorem OnlyOpen.atMost (h : OnlyOpen handles s) (hn : handles.length ≤ n) : AtMost n s :=
  ⟨handles, hn, h⟩

theorem Idle.atMost (h : Idle s) (n : ℕ) : AtMost n s := h.only.atMost (Nat.zero_le n)

theorem AtMost.mono (h : AtMost n s) (hnm : n ≤ m) : AtMost m s := by
  obtain ⟨handles, hlen, hopen⟩ := h
  exact ⟨handles, hlen.trans hnm, hopen⟩

section Calls

theorem OnlyOpen.congr (h : OnlyOpen handles s) (ht : t.streams = s.streams) :
    OnlyOpen handles t := by
  intro i hi
  rw [ht]
  exact h i hi

theorem OnlyOpen.update (h : OnlyOpen handles s) {k : ℕ} {stream : Stream}
    (hk : s.streams k = some stream) {new : Stream}
    (ht : t.streams = Function.update s.streams k (some new)) : OnlyOpen handles t := by
  intro i hi
  have hik : i ≠ k := by
    rintro rfl
    rw [h i hi] at hk
    cases hk
  rw [ht, Function.update_of_ne hik]
  exact h i hi

theorem OnlyOpen.openStream (h : OnlyOpen handles s) (path : Bytes) (entries : List Bytes) :
    OnlyOpen (s.opened :: handles) (s.openStream path entries).2 := by
  intro i hi
  obtain ⟨hne, hi⟩ := not_or.mp (List.mem_cons.not.mp hi)
  exact (Function.update_of_ne hne ..).trans (h i hi)

theorem Idle.open_none (h : Idle s) {mode : FileMode}
    (hr : flash g listing (.open path mode) o s = (none, t)) : Idle t := by
  simp only [flash] at hr
  split at hr
  · split at hr
    · cases hr
    · obtain ⟨-, rfl⟩ := Prod.mk.inj hr
      split <;> exact h
  · obtain ⟨-, rfl⟩ := Prod.mk.inj hr
    exact h

/-- A directory is open that has at most `n` more entries. Handles are numbered in the order in
which they are opened. -/
structure Yields (root : File) (n : ℕ) (s : Flash) : Prop where
  only : OnlyOpen [root.handle] s
  entries : ∃ stream, s.streams root.handle = some stream ∧ stream.entries.length ≤ n
  numbered : root.handle < s.opened

theorem Idle.openStream (h : Idle s) (path : Bytes) (entries : List Bytes) :
    Yields ⟨s.opened, path, entries⟩ entries.length (s.openStream path entries).2 where
  only := h.only.openStream path entries
  entries := ⟨_, Function.update_self .., le_rfl⟩
  numbered := Nat.lt_succ_self _

theorem Idle.open_some (h : Idle s) {mode : FileMode}
    (hr : flash g listing (.open path mode) o s = (some file, t)) :
    Yields file file.entries.length t := by
  simp only [flash] at hr
  split at hr
  · split at hr
    · obtain ⟨hfile, rfl⟩ := Prod.mk.inj hr
      obtain rfl := Option.some.inj hfile
      exact Idle.openStream (s := { s with files := s.prepared path mode }) h _ _
    · cases hr
  · cases hr

theorem Yields.openNextFile_none (h : Yields root n s)
    (hr : flash g listing (.openNextFile root) o s = (none, t)) : OnlyOpen [root.handle] t := by
  obtain ⟨stream, hroot, -⟩ := h.entries
  simp only [flash, hroot] at hr
  split at hr
  · split at hr
    · cases hr
    · obtain ⟨-, rfl⟩ := Prod.mk.inj hr
      exact h.only
  · obtain ⟨-, rfl⟩ := Prod.mk.inj hr
    exact h.only

theorem OnlyOpen.remove (h : OnlyOpen handles s) :
    OnlyOpen handles (flash g listing (.remove path) o s).2 := by
  refine h.congr ?_
  simp only [flash]
  split
  · split
    · rfl
    · dsimp only
      split <;> rfl
  · rfl

theorem OnlyOpen.write (h : OnlyOpen handles s) (data : Bytes) :
    OnlyOpen handles (flash g listing (.write file data) o s).2 := by
  simp only [flash]
  cases hfile : s.streams file.handle with
  | none => exact h
  | some stream => exact h.update hfile rfl

theorem OnlyOpen.size (h : OnlyOpen handles s) :
    OnlyOpen handles (flash g listing (.size file) o s).2 := by
  simp only [flash]
  cases s.streams file.handle <;> exact h

theorem OnlyOpen.readBytes (h : OnlyOpen handles s) (length : ℕ) :
    OnlyOpen handles (flash g listing (.readBytes file length) o s).2 := by
  simp only [flash]
  cases hfile : s.streams file.handle with
  | none => exact h
  | some stream => exact h.update hfile rfl

theorem OnlyOpen.close (h : OnlyOpen handles s) (rest : List ℕ)
    (hrest : ∀ i ∈ handles, i ≠ file.handle → i ∈ rest) :
    OnlyOpen rest (flash g listing (.close (some file)) o s).2 := by
  intro i hi
  have hother : i ≠ file.handle → s.streams i = none :=
    fun hne => h i fun hmem => hi (hrest i hmem hne)
  simp only [flash]
  cases hfile : s.streams file.handle with
  | none =>
    by_cases hne : i = file.handle
    · rw [hne]
      exact hfile
    · exact hother hne
  | some stream =>
    by_cases hne : i = file.handle
    · rw [hne]
      exact Function.update_self ..
    · exact (Function.update_of_ne hne ..).trans (hother hne)

theorem close_streams {i : ℕ} (hi : i ≠ file.handle) :
    (flash g listing (.close (some file)) o s).2.streams i = s.streams i := by
  simp only [flash]
  cases s.streams file.handle with
  | none => rfl
  | some stream => exact Function.update_of_ne hi ..

theorem close_opened : (flash g listing (.close (some file)) o s).2.opened = s.opened := by
  simp only [flash]
  cases s.streams file.handle <;> rfl

theorem Yields.openNextFile_some (h : Yields root n s)
    (hr : flash g listing (.openNextFile root) o s = (some file, t)) :
    ∃ m, n = m + 1 ∧ OnlyOpen [file.handle, root.handle] t ∧
      ∀ o', Yields root m (flash g listing (.close (some file)) o' t).2 := by
  obtain ⟨stream, hroot, hlen⟩ := h.entries
  simp only [flash, hroot] at hr
  split at hr
  · rename_i name entries hentries
    split at hr
    · obtain ⟨hfile, rfl⟩ := Prod.mk.inj hr
      obtain rfl := Option.some.inj hfile
      rw [hentries, List.length_cons] at hlen
      obtain ⟨m, rfl⟩ := Nat.exists_eq_succ_of_ne_zero (Nat.ne_zero_of_lt hlen)
      let left : Flash := { s with
        streams := Function.update s.streams root.handle (some { stream with entries := entries }) }
      have hleft : OnlyOpen [root.handle] left := h.only.update hroot rfl
      have hopen := hleft.openStream name []
      have hne : root.handle ≠ s.opened := h.numbered.ne
      refine ⟨m, rfl, hopen, fun o' => ⟨hopen.close _ fun i hi hni => ?_, ?_, ?_⟩⟩
      · exact (List.mem_cons.mp hi).resolve_left hni
      · refine ⟨{ stream with entries := entries }, (close_streams hne).trans ?_,
          Nat.le_of_succ_le_succ hlen⟩
        exact (Function.update_of_ne hne ..).trans (Function.update_self ..)
      · rw [close_opened]
        exact Nat.lt_succ_of_lt h.numbered
    · cases hr
  · cases hr

theorem OnlyOpen.close_last (h : OnlyOpen [file.handle] s) :
    Idle (flash g listing (.close (some file)) o s).2 := by
  intro i
  refine h.close [] (fun j hj hne => ?_) i List.not_mem_nil
  exact absurd (List.mem_singleton.mp hj) hne

end Calls

/-- A call is made with at most `n` files open and, when it returns, none is. -/
abbrev Closes (g : Guarantees) (listing : Disk → Bytes → List Bytes) (n : ℕ) {α : Type}
    (p : SpiffsProgram α) (s : Flash) : Prop :=
  CrashSafe (flash g listing) (fun _ t => Idle t) (AtMost n) p s

section Rules

variable {α : Type}

theorem closes_ret (h : Idle s) (a : α) : Closes g listing n (.ret a) s :=
  ⟨h.atMost n, h⟩

theorem closes_open {mode : FileMode} {f : Option File → SpiffsProgram α} (h : Idle s)
    (hnone : ∀ t, Idle t → Closes g listing n (f none) t)
    (hsome : ∀ file t, Yields file file.entries.length t → Closes g listing n (f (some file)) t) :
    Closes g listing n (SPIFFS.open path mode >>= f) s := by
  refine ⟨h.atMost n, fun o => ?_⟩
  match hr : flash g listing (.open path mode) o s with
  | (none, t) => exact hnone t (h.open_none hr)
  | (some file, t) => exact hsome file t (h.open_some hr)

theorem closes_close {f : Unit → SpiffsProgram α} (hn : 1 ≤ n) (h : OnlyOpen [file.handle] s)
    (hf : ∀ t, Idle t → Closes g listing n (f ()) t) :
    Closes g listing n (close (some file) >>= f) s :=
  ⟨h.atMost hn, fun _ => hf _ h.close_last⟩

theorem closes_close_none {f : Unit → SpiffsProgram α} (h : Idle s)
    (hf : Closes g listing n (f ()) s) : Closes g listing n (close none >>= f) s :=
  ⟨h.atMost n, fun _ => hf⟩

end Rules

theorem closes_doWrite (append : Bool) (h : Idle s) :
    Closes g listing 1 (SPIFFSDriver.doWriteContentToFile content filename append) s := by
  refine closes_open h ?_ ?_
  · intro t ht
    exact closes_close_none ht (closes_ret ht _)
  · intro file t ht
    refine ⟨ht.only.atMost le_rfl, fun o => ?_⟩
    exact closes_close le_rfl (ht.only.write content) fun t ht => closes_ret ht _

theorem closes_doesFileExist (h : Idle s) :
    Closes g listing 1 (SPIFFSDriver.doesFileExist filename) s := by
  unfold SPIFFSDriver.doesFileExist
  split
  · exact closes_ret h _
  · exact ⟨h.atMost 1, fun _ => closes_ret h _⟩

theorem closes_read (h : Idle s) :
    Closes g listing 1 (SPIFFSDriver.readEntireFileToString filename) s := by
  unfold SPIFFSDriver.readEntireFileToString
  split
  · exact closes_ret h _
  refine CrashSafe.bind ((closes_doesFileExist h).mono fun found t _ ht => ?_)
  cases found with
  | false => exact closes_ret ht _
  | true =>
    refine closes_open ht (fun t ht => closes_ret ht _) fun file t ht => ?_
    have hsize : ∀ {o}, OnlyOpen [file.handle] (flash g listing (.size file) o t).2 := ht.only.size
    refine ⟨ht.only.atMost le_rfl, fun o => ⟨hsize.atMost le_rfl, fun o' => ?_⟩⟩
    refine closes_close le_rfl (hsize.readBytes _) fun t ht => ?_
    split <;> exact closes_ret ht _

theorem closes_delete (h : Idle s) :
    Closes g listing 1 (SPIFFSDriver.deleteFile filename) s := by
  unfold SPIFFSDriver.deleteFile
  split
  · exact closes_ret h _
  refine CrashSafe.bind ((closes_doesFileExist h).mono fun found t _ ht => ?_)
  cases found with
  | false => exact closes_ret ht _
  | true =>
    exact ⟨ht.atMost 1, fun o => closes_ret (fun i => ht.only.remove i List.not_mem_nil) _⟩

/-- Each entry is closed before the next one is opened. The loop ends with no entry left. -/
theorem overEntries_safe {β : Type} {next : β → File → β} {entries : List Bytes} {ret : β}
    (h : Yields root entries.length s) :
    CrashSafe (flash g listing) (fun r t => r.2 = none ∧ OnlyOpen [root.handle] t) (AtMost 2)
      (SPIFFSDriver.overEntries next root entries ret) s := by
  induction entries generalizing s ret with
  | nil =>
    refine ⟨h.only.atMost (Nat.le_succ 1), fun o => ?_⟩
    match hr : flash g listing (.openNextFile root) o s with
    | (none, t) =>
      have ht := h.openNextFile_none hr
      exact ⟨ht.atMost (Nat.le_succ 1), rfl, ht⟩
    | (some file, t) =>
      obtain ⟨m, hm, -⟩ := h.openNextFile_some hr
      cases hm
  | cons name entries ih =>
    refine ⟨h.only.atMost (Nat.le_succ 1), fun o => ?_⟩
    match hr : flash g listing (.openNextFile root) o s with
    | (none, t) =>
      have ht := h.openNextFile_none hr
      exact ⟨ht.atMost (Nat.le_succ 1), rfl, ht⟩
    | (some file, t) =>
      obtain ⟨m, hm, hopen, hclosed⟩ := h.openNextFile_some hr
      obtain rfl := Nat.succ.inj hm
      exact ⟨hopen.atMost le_rfl, fun o' => ih (hclosed o')⟩

theorem closes_overDirectory {β : Type} {next : β → File → β} {ret : β} (h : Idle s) :
    Closes g listing 2 (SPIFFSDriver.overDirectory next ret path) s := by
  refine closes_open h (fun t ht => closes_close_none ht (closes_ret ht _)) fun root t ht => ?_
  refine CrashSafe.bind ((overEntries_safe ht).mono ?_)
  rintro ⟨ret, file⟩ u - ⟨rfl, hu⟩
  exact closes_close (by decide) hu fun v hv => closes_close_none hv (closes_ret hv _)

theorem closes_method (c : DriverCall) (h : Idle s) :
    Closes g listing (room c) (SPIFFSDriver.methods c) s := by
  cases c with
  | writeContentToFile content filename =>
    simp only [SPIFFSDriver.methods, SPIFFSDriver.writeContentToFile]
    split
    · exact closes_ret h _
    · exact closes_doWrite false h
  | appendContentToFile content filename =>
    simp only [SPIFFSDriver.methods, SPIFFSDriver.appendContentToFile]
    split
    · exact closes_ret h _
    · exact closes_doWrite true h
  | readEntireFileToString filename => exact closes_read h
  | doesFileExist filename => exact closes_doesFileExist h
  | deleteFile filename => exact closes_delete h
  | filesList path => exact closes_overDirectory h
  | countFiles path => exact closes_overDirectory h

/-- A program of driver calls, with any names and whatever fails, never has more files open than
its calls take, and leaves none open when it returns. -/
theorem no_stream_left (g : Guarantees) (listing : Disk → Bytes → List Bytes) {α : Type}
    (p : DriverProgram α) (n : ℕ) (hp : Calls (fun c => room c ≤ n) p) (files : Disk) :
    (∀ t, Cut (flash g listing) (lowered SPIFFSDriver.methods p) (mounted files) t →
      AtMost n t) ∧
    ∀ a t, May (flash g listing) (lowered SPIFFSDriver.methods p) (mounted files) a t →
      Idle t := by
  have hmethod : ∀ c s, room c ≤ n → Idle s →
      CrashSafe (flash g listing) (fun _ t => Idle t) (AtMost n) (SPIFFSDriver.methods c) s :=
    fun c s hc hs => (closes_method c hs).weaken fun t ht => ht.mono hc
  have hsafe : Closes g listing n (lowered SPIFFSDriver.methods p) (mounted files) :=
    lowered_safe hmethod (fun _ h => h.atMost n) hp fun _ => rfl
  exact ⟨fun t hc => hsafe.cut hc, fun a t hm => hsafe.post hm⟩

theorem room_le (c : DriverCall) : room c ≤ 2 := by cases c <;> simp [room]

/-- The files of a directory are deleted on a flash that promises nothing. -/
theorem no_stream_left_sample :
    let files : Disk := AList.insert (ascii "/d/f.m") [] (AList.insert (ascii "/d/f.d") [] ∅)
    let p := SafeFileManipulator.deleteAllFiles .modeUseMd5 (ascii "/d")
    (∀ t, Cut (flash ⟨false, false, false⟩ Disk.entries) (lowered SPIFFSDriver.methods p)
      (mounted files) t → AtMost 2 t) ∧
    ∀ a t, May (flash ⟨false, false, false⟩ Disk.entries) (lowered SPIFFSDriver.methods p)
      (mounted files) a t → Idle t :=
  no_stream_left ⟨false, false, false⟩ Disk.entries _ 2 (Calls.of_forall room_le _) _

end OpenStreams
