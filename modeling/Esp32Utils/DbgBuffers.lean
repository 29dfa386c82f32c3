import Esp32Utils.DbgConsole
import Esp32Utils.MessageSplitting

/-! # Buffers of the debug queue

`doPrint` allocates a buffer for each piece and sends its address; `run` receives the address,
prints the buffer and frees it. The tasks take turns at these steps, in any order. At every
moment each buffer that is live has one owner, and nobody touches one that is not. -/
namespace DbgBuffers

open ByteStrings MemoryObjects ThreadSafeDbg GuardedRuns MessageSplitting DbgConsole

/-- Where a task stands in its call. `length` and `offset` are the variables of `doPrint`. -/
inductive Phase where
  | idle
  /-- That many checks of `allowPrint` come first. -/
  | checking (checks : ℕ) (c : Call)
  | direct (text : Bytes)
  | splitting (message : Bytes) (length offset : ℕ)
  /-- The piece is copied to `buff`, `xQueueSendToBack` comes next. -/
  | holding (message : Bytes) (length offset buff : ℕ)
  deriving DecidableEq

inductive Drain where
  | waiting
  | received (pointer : ℕ)
  /-- The message is printed, `delete[]` comes next. -/
  | printed (pointer : ℕ)
  deriving DecidableEq

structure Line where
  text : Bytes
  queued : Bool
  deriving DecidableEq

structure State (T : Type) where
  allowPrint : Bool
  phase : T → Phase
  heap : ℕ → Option Buffer
  queue : List ℕ
  drain : Drain
  console : List Line
  /-- The pieces that were queued so far. -/
  sent : List Bytes
  /-- A message was copied past its end, or a pointer used that does not point to one. -/
  faulted : Bool

inductive Event (T : Type) where
  | call (i : T) (c : Call)
  | check (i : T)
  | allocate (i : T) (pointer : ℕ)
  | send (i : T)
  | printf (i : T)
  | setAllowPrint (val : Bool)
  | receive
  | print
  | free

/-- The checks of `allowPrint` before anything is done. -/
def checksOf : Call → ℕ
  | .print _ => 1
  | .printLine => 2
  | .printLineString _ => 1
  | .printLineCStr _ => 1
  | .printX _ => 0

def begun : Call → Phase
  | .print message => .splitting message.bytes message.bytes.length 0
  | .printLine => .splitting newLn.bytes newLn.bytes.length 0
  | .printLineString message => .direct (cStr message ++ newLn.bytes)
  | .printLineCStr message => .direct (message.bytes ++ newLn.bytes)
  | .printX text => .direct text

def pieceLength (length : ℕ) : ℕ := if length > maxMsgLength then maxMsgLength else length

def behindPiece (message : Bytes) (length offset : ℕ) : Phase :=
  if length > maxMsgLength then .splitting message (length - maxMsgLength) (offset + maxMsgLength)
  else .idle

def textAt (heap : ℕ → Option Buffer) (pointer : ℕ) : Option Bytes :=
  (heap pointer).bind (readUntil 0)

section Steps

variable {T : Type} [DecidableEq T]

def State.enter (s : State T) (i : T) (p : Phase) : State T :=
  { s with phase := Function.update s.phase i p }

def State.put (s : State T) (pointer : ℕ) (buff : Option Buffer) : State T :=
  { s with heap := Function.update s.heap pointer buff }

/-- A new buffer is at an address where nothing is. A message waits for room in the queue. -/
def system (T : Type) [DecidableEq T] : System (State T) (Event T) where
  initial := ⟨true, fun _ => .idle, fun _ => none, [], .waiting, [], [], false⟩
  Enabled s
    | .call i c => s.phase i = .idle ∧ percent ∉ c.text
    | .check i => ∃ checks c, s.phase i = .checking checks c
    | .allocate i pointer =>
      (∃ message length offset, s.phase i = .splitting message length offset) ∧
        s.heap pointer = none
    | .send i => (∃ message length offset buff, s.phase i = .holding message length offset buff) ∧
      s.queue.length < maxQueueLength
    | .printf i => ∃ text, s.phase i = .direct text
    | .setAllowPrint _ => True
    | .receive => s.drain = .waiting ∧ s.queue ≠ []
    | .print => ∃ pointer, s.drain = .received pointer
    | .free => ∃ pointer, s.drain = .printed pointer
  next s
    | .call i c => s.enter i (.checking (checksOf c) c)
    | .check i =>
      match s.phase i with
      | .checking 0 c => s.enter i (begun c)
      | .checking (checks + 1) c =>
        if s.allowPrint = false then s.enter i .idle else s.enter i (.checking checks c)
      | _ => s
    | .allocate i pointer =>
      match s.phase i with
      | .splitting message length offset =>
        match copyPiece message offset (pieceLength length) with
        | some buff => (s.enter i (.holding message length offset pointer)).put pointer (some buff)
        | none => { s with faulted := true }
      | _ => s
    | .send i =>
      match s.phase i with
      | .holding message length offset buff =>
        { s.enter i (behindPiece message length offset) with
          queue := s.queue ++ [buff]
          sent := s.sent ++ (textAt s.heap buff).toList }
      | _ => s
    | .printf i =>
      match s.phase i with
      | .direct text => { s.enter i .idle with console := s.console ++ [⟨text, false⟩] }
      | _ => s
    | .setAllowPrint val => { s with allowPrint := val }
    | .receive =>
      match s.queue with
      | pointer :: queue => { s with queue := queue, drain := .received pointer }
      | [] => s
    | .print =>
      match s.drain with
      | .received pointer =>
        match (textAt s.heap pointer).bind printfExpand with
        | some text =>
          { s with drain := .printed pointer, console := s.console ++ [⟨text, true⟩] }
        | none => { s with faulted := true }
      | _ => s
    | .free =>
      match s.drain with
      | .printed pointer =>
        match s.heap pointer with
        | some _ => { s.put pointer none with drain := .waiting }
        | none => { s with faulted := true }
      | _ => s

end Steps

inductive Owner (T : Type) where
  | task (i : T)
  | queue
  | drain

variable {T : Type}

/-- Who may use the buffer at an address, by where the address is. -/
def Holds (s : State T) : Owner T → ℕ → Prop
  | .task i, pointer =>
    ∃ message length offset, s.phase i = .holding message length offset pointer
  | .queue, pointer => pointer ∈ s.queue
  | .drain, pointer => s.drain = .received pointer ∨ s.drain = .printed pointer

/-- A map that names the owner of each buffer that is live. -/
structure Owned (s : State T) (owner : ℕ → Option (Owner T)) : Prop where
  held : ∀ o pointer, owner pointer = some o ↔ Holds s o pointer
  live : ∀ pointer, owner pointer = none ↔ s.heap pointer = none
  nodup : s.queue.Nodup

def pending (s : State T) : List ℕ :=
  match s.drain with
  | .received pointer => pointer :: s.queue
  | _ => s.queue

def PhaseSound : Phase → Prop
  | .checking _ c => percent ∉ c.text
  | .splitting message length offset =>
    offset + length = message.length ∧ 0 ∉ message ∧ percent ∉ message
  | .holding message length offset _ =>
    offset + length = message.length ∧ 0 ∉ message ∧ percent ∉ message
  | _ => True

def BufferSound (buff : Buffer) : Prop :=
  ∃ text, buff = terminated text 0 ∧ 0 ∉ text ∧ percent ∉ text ∧ text.length ≤ maxMsgLength

structure Inv (s : State T) : Prop where
  owned : ∃ owner, Owned s owner
  buffers : ∀ pointer buff, s.heap pointer = some buff → BufferSound buff
  phases : ∀ i, PhaseSound (s.phase i)
  flow : ((s.console.filter Line.queued).map fun l => some l.text) ++
    (pending s).map (textAt s.heap) = s.sent.map some
  calm : s.faulted = false
  room : s.queue.length ≤ maxQueueLength

section Ownership

variable {s t : State T} {owner : ℕ → Option (Owner T)} {o : Owner T} {i : T} {p : Phase}
  {pointer : ℕ} {buff : Buffer}

/-- One buffer changes hands, is allocated or is freed. -/
theorem Owned.move (h : Owned s owner) (pointer : ℕ) (taker : Option (Owner T))
    (hheld : ∀ o b, Holds t o b ↔ if b = pointer then taker = some o else Holds s o b)
    (hlive : ∀ b, t.heap b = none ↔ if b = pointer then taker = none else s.heap b = none)
    (hnodup : t.queue.Nodup) : Owned t (Function.update owner pointer taker) := by
  refine ⟨fun o b => ?_, fun b => ?_, hnodup⟩
  · rw [hheld]
    by_cases hb : b = pointer
    · rw [if_pos hb, hb, Function.update_self]
    · rw [if_neg hb, Function.update_of_ne hb, h.held]
  · rw [hlive]
    by_cases hb : b = pointer
    · rw [if_pos hb, hb, Function.update_self]
    · rw [if_neg hb, Function.update_of_ne hb, h.live]

theorem Owned.heap (h : Owned s owner) (ho : Holds s o pointer) :
    ∃ buff, s.heap pointer = some buff := by
  apply Option.ne_none_iff_exists'.mp
  intro hnone
  rw [← h.live, (h.held o pointer).mpr ho] at hnone
  cases hnone

theorem Owned.unique (h : Owned s owner) {o' : Owner T} (ho : Holds s o pointer)
    (ho' : Holds s o' pointer) : o = o' := by
  rw [← h.held] at ho ho'
  exact Option.some.inj (ho.symm.trans ho')

theorem Owned.hand_over (h : Owned s owner) {giver : Owner T} (hmine : Holds s giver pointer)
    (taker : Owner T) (hne : giver ≠ taker)
    (hgiver : ∀ b, Holds t giver b ↔ b ≠ pointer ∧ Holds s giver b)
    (htaker : ∀ b, Holds t taker b ↔ b = pointer ∨ Holds s taker b)
    (hothers : ∀ o, o ≠ giver → o ≠ taker → ∀ b, Holds t o b ↔ Holds s o b)
    (hheap : t.heap = s.heap) (hnodup : t.queue.Nodup) :
    Owned t (Function.update owner pointer (some taker)) := by
  refine h.move pointer (some taker) (fun o b => ?_) (fun b => ?_) hnodup
  · by_cases hb : b = pointer
    · subst hb
      rw [if_pos rfl]
      by_cases ho : o = taker
      · subst ho
        simp [htaker]
      · rw [Option.some_inj, iff_false_right (Ne.symm ho)]
        by_cases ho' : o = giver
        · subst ho'
          simp [hgiver]
        · rw [hothers o ho' ho]
          exact fun hold => ho' (h.unique hold hmine)
    · rw [if_neg hb]
      by_cases ho : o = taker
      · subst ho
        simp [htaker, hb]
      · by_cases ho' : o = giver
        · subst ho'
          simp [hgiver, hb]
        · exact hothers o ho' ho b
  · obtain ⟨content, hcontent⟩ := h.heap hmine
    rw [hheap]
    by_cases hb : b = pointer
    · subst hb
      simp [hcontent]
    · rw [if_neg hb]

theorem mem_pending_holds (h : pointer ∈ pending s) : ∃ o : Owner T, Holds s o pointer := by
  unfold pending at h
  split at h
  · rename_i first hdrain
    rcases List.mem_cons.mp h with rfl | h
    · exact ⟨.drain, Or.inl hdrain⟩
    · exact ⟨.queue, h⟩
  · exact ⟨.queue, h⟩

theorem BufferSound.read (h : BufferSound buff) :
    ∃ text, readUntil 0 buff = some text ∧ printfExpand text = some text := by
  obtain ⟨text, rfl, hzero, hpercent, -⟩ := h
  exact ⟨text, readUntil_terminated hzero, printfExpand_eq_self hpercent⟩

theorem Inv.live (h : Inv s) :
    (s.heap pointer).isSome = true ↔ ∃ o : Owner T, Holds s o pointer := by
  obtain ⟨owner, howned⟩ := h.owned
  constructor
  · intro hlive
    have hsome : owner pointer ≠ none := by
      rw [Ne, howned.live]
      exact Option.isSome_iff_ne_none.mp hlive
    obtain ⟨o, ho⟩ := Option.ne_none_iff_exists'.mp hsome
    exact ⟨o, (howned.held o pointer).mp ho⟩
  · rintro ⟨o, ho⟩
    obtain ⟨buff, hbuff⟩ := howned.heap ho
    rw [hbuff, Option.isSome_some]

theorem Inv.read (h : Inv s) (ho : Holds s o pointer) :
    ∃ text, textAt s.heap pointer = some text ∧ printfExpand text = some text := by
  obtain ⟨owner, howned⟩ := h.owned
  obtain ⟨buff, hbuff⟩ := howned.heap ho
  obtain ⟨text, hread, hformat⟩ := (h.buffers _ _ hbuff).read
  exact ⟨text, by rw [textAt, hbuff, Option.bind_some, hread], hformat⟩

theorem Inv.fresh (h : Inv s) (hfresh : s.heap pointer = none) (o : Owner T) :
    ¬ Holds s o pointer := by
  intro ho
  have hlive := h.live.mpr ⟨o, ho⟩
  rw [hfresh] at hlive
  cases hlive

end Ownership

section Invariant

variable [DecidableEq T] {s : State T} {i j : T} {p : Phase} {pointer : ℕ} {message : Bytes}
  {length offset buff : ℕ}

theorem enter_phase_self : (s.enter i p).phase i = p := Function.update_self ..

theorem enter_phase_of_ne (h : j ≠ i) : (s.enter i p).phase j = s.phase j :=
  Function.update_of_ne h ..

def Phase.Holding (p : Phase) : Prop :=
  ∃ message length offset buff, p = .holding message length offset buff

theorem holds_enter_of_ne {o : Owner T} (ho : o ≠ .task i) (b : ℕ) :
    Holds (s.enter i p) o b ↔ Holds s o b := by
  cases o with
  | task j =>
    have hj : j ≠ i := fun hj => ho (hj ▸ rfl)
    simp only [Holds, enter_phase_of_ne hj]
  | queue => exact Iff.rfl
  | drain => exact Iff.rfl

theorem holds_enter (hfrom : ¬ (s.phase i).Holding) (hto : ¬ p.Holding) (o : Owner T) (b : ℕ) :
    Holds (s.enter i p) o b ↔ Holds s o b := by
  by_cases ho : o = .task i
  · subst ho
    simp only [Holds, enter_phase_self]
    constructor
    · rintro ⟨message, length, offset, h⟩
      exact absurd ⟨message, length, offset, b, h⟩ hto
    · rintro ⟨message, length, offset, h⟩
      exact absurd ⟨message, length, offset, b, h⟩ hfrom
  · exact holds_enter_of_ne ho b

theorem phases_enter (h : ∀ i, PhaseSound (s.phase i)) (hp : PhaseSound p) (j : T) :
    PhaseSound ((s.enter i p).phase j) := by
  by_cases hj : j = i
  · subst hj
    rw [enter_phase_self]
    exact hp
  · rw [enter_phase_of_ne hj]
    exact h j

theorem Inv.enter (h : Inv s) (hfrom : ¬ (s.phase i).Holding) (hto : ¬ p.Holding)
    (hp : PhaseSound p) : Inv (s.enter i p) := by
  obtain ⟨owner, howned⟩ := h.owned
  exact {
    owned := ⟨owner, fun o b => (howned.held o b).trans (holds_enter hfrom hto o b).symm,
      howned.live, howned.nodup⟩
    buffers := h.buffers
    phases := phases_enter h.phases hp
    flow := h.flow
    calm := h.calm
    room := h.room }

theorem pieceLength_le : pieceLength length ≤ length ∧ pieceLength length ≤ maxMsgLength := by
  unfold pieceLength
  split <;> omega

theorem Inv.allocate (h : Inv s) (hphase : s.phase i = .splitting message length offset)
    (hfresh : s.heap pointer = none) :
    ∃ buff, copyPiece message offset (pieceLength length) = some buff ∧
      Inv ((s.enter i (.holding message length offset pointer)).put pointer (some buff)) := by
  obtain ⟨htotal, hzero, hpercent⟩ : PhaseSound (.splitting message length offset) :=
    hphase ▸ h.phases i
  obtain ⟨hle, hshort⟩ := @pieceLength_le length
  have hinside : offset + pieceLength length ≤ message.length := by omega
  refine ⟨_, copyPiece_eq hinside, ?_⟩
  obtain ⟨owner, howned⟩ := h.owned
  have hpending : ∀ b ∈ pending s, b ≠ pointer := by
    rintro b hb rfl
    obtain ⟨o, ho⟩ := mem_pending_holds hb
    exact h.fresh hfresh o ho
  have hpiece : ∀ x ∈ (message.drop offset).take (pieceLength length), x ∈ message :=
    fun x hx => List.mem_of_mem_drop (List.mem_of_mem_take hx)
  refine ⟨⟨_, howned.move pointer (some (.task i)) ?_ ?_ howned.nodup⟩, ?_, ?_, ?_, h.calm, h.room⟩
  · intro o b
    by_cases ho : o = .task i
    · subst ho
      by_cases hb : b = pointer
      · subst hb
        simp [Holds, State.put, enter_phase_self]
      · simp [Holds, State.put, enter_phase_self, hphase, hb, Ne.symm hb]
    · have hkept := holds_enter_of_ne (s := s) (p := .holding message length offset pointer) ho b
      refine hkept.trans ?_
      by_cases hb : b = pointer
      · subst hb
        simp [h.fresh hfresh o, Ne.symm ho]
      · rw [if_neg hb]
  · intro b
    by_cases hb : b = pointer
    · subst hb
      simp [State.put]
    · simp only [State.put, State.enter, Function.update_of_ne hb, if_neg hb]
  · intro b buff hbuff
    by_cases hb : b = pointer
    · subst hb
      simp only [State.put, Function.update_self, Option.some.injEq] at hbuff
      subst hbuff
      exact ⟨_, rfl, fun hm => hzero (hpiece _ hm), fun hm => hpercent (hpiece _ hm),
        (List.length_take_le _ _).trans hshort⟩
    · simp only [State.put, Function.update_of_ne hb] at hbuff
      exact h.buffers b buff hbuff
  · exact phases_enter h.phases ⟨htotal, hzero, hpercent⟩
  · have hsame : (pending s).map (textAt (Function.update s.heap pointer
        (some (terminated ((message.drop offset).take (pieceLength length)) 0)))) =
        (pending s).map (textAt s.heap) := by
      apply List.map_congr_left
      intro b hb
      simp only [textAt, Function.update_of_ne (hpending b hb)]
    exact (congrArg _ hsame).trans h.flow

theorem behindPiece_not_holding : ¬ (behindPiece message length offset).Holding := by
  rintro ⟨message', length', offset', buff, h⟩
  unfold behindPiece at h
  split at h <;> cases h

theorem behindPiece_sound (h : PhaseSound (.holding message length offset buff)) :
    PhaseSound (behindPiece message length offset) := by
  obtain ⟨htotal, hzero, hpercent⟩ := h
  unfold behindPiece
  split
  · refine ⟨?_, hzero, hpercent⟩
    omega
  · trivial

theorem holds_behindPiece (hphase : s.phase i = .holding message length offset buff) (j : T)
    (b : ℕ) : Holds (s.enter i (behindPiece message length offset)) (.task j) b ↔
      Holds s (.task j) b ∧ j ≠ i := by
  by_cases hj : j = i
  · subst hj
    simp only [Holds, enter_phase_self, ne_eq, not_true_eq_false, and_false, iff_false]
    rintro ⟨message', length', offset', hholding⟩
    exact behindPiece_not_holding ⟨_, _, _, _, hholding⟩
  · simp only [Holds, enter_phase_of_ne hj, ne_eq, hj, not_false_eq_true, and_true]

theorem Inv.send (h : Inv s) (hphase : s.phase i = .holding message length offset buff)
    (hroom : s.queue.length < maxQueueLength) :
    Inv { s.enter i (behindPiece message length offset) with
      queue := s.queue ++ [buff]
      sent := s.sent ++ (textAt s.heap buff).toList } := by
  have hmine : Holds s (.task i) buff := ⟨message, length, offset, hphase⟩
  have honly : ∀ b, Holds s (.task i) b → b = buff := by
    rintro b ⟨message', length', offset', hold⟩
    rw [hphase] at hold
    exact (Phase.holding.inj hold).2.2.2.symm
  obtain ⟨text, htext, -⟩ := h.read hmine
  obtain ⟨owner, howned⟩ := h.owned
  have hnotQueued : buff ∉ s.queue := by
    intro hmem
    have hqueue : Holds s (.queue : Owner T) buff := hmem
    cases howned.unique hmine hqueue
  have hnodup : (s.queue ++ [buff]).Nodup := by
    rw [List.nodup_append]
    refine ⟨howned.nodup, List.pairwise_singleton _ buff, fun a ha b hb => ?_⟩
    rintro rfl
    exact hnotQueued (List.mem_singleton.mp hb ▸ ha)
  refine ⟨⟨_, howned.hand_over hmine .queue nofun ?_ ?_ ?_ rfl hnodup⟩, h.buffers,
    phases_enter h.phases (behindPiece_sound (hphase ▸ h.phases i)), ?_, h.calm, ?_⟩
  · intro b
    refine (holds_behindPiece hphase i b).trans ?_
    constructor
    · rintro ⟨-, hi⟩
      exact absurd rfl hi
    · rintro ⟨hb, hold⟩
      exact absurd (honly b hold) hb
  · intro b
    change b ∈ s.queue ++ [buff] ↔ _
    rw [List.mem_append, List.mem_singleton, or_comm]
    exact Iff.rfl
  · intro o ho hqueue b
    cases o with
    | task j =>
      refine (holds_behindPiece hphase j b).trans (and_iff_left ?_)
      rintro rfl
      exact ho rfl
    | queue => exact absurd rfl hqueue
    | drain => exact Iff.rfl
  · have hpending : pending { s.enter i (behindPiece message length offset) with
        queue := s.queue ++ [buff]
        sent := s.sent ++ (textAt s.heap buff).toList } = pending s ++ [buff] := by
      simp only [pending, State.enter]
      cases s.drain <;> rfl
    rw [hpending, List.map_append, ← List.append_assoc]
    exact (congrArg (· ++ _) h.flow).trans (by simp [State.enter, htext])
  · simp only [List.length_append, List.length_singleton]
    exact hroom

end Invariant

section Draining

variable {s : State T} {pointer : ℕ}

theorem Inv.receive {queue : List ℕ} (h : Inv s) (hdrain : s.drain = .waiting)
    (hqueue : s.queue = pointer :: queue) :
    Inv { s with queue := queue, drain := .received pointer } := by
  obtain ⟨owner, howned⟩ := h.owned
  have hqueued : Holds s (.queue : Owner T) pointer := by
    change pointer ∈ s.queue
    rw [hqueue]
    exact List.mem_cons_self
  have hnodup := howned.nodup
  rw [hqueue, List.nodup_cons] at hnodup
  refine ⟨⟨_, howned.hand_over hqueued .drain nofun ?_ ?_ ?_ rfl hnodup.2⟩,
    h.buffers, h.phases, ?_, h.calm, ?_⟩
  · intro b
    change b ∈ queue ↔ b ≠ pointer ∧ b ∈ s.queue
    rw [hqueue, List.mem_cons]
    constructor
    · intro hb
      refine ⟨?_, Or.inr hb⟩
      rintro rfl
      exact hnodup.1 hb
    · rintro ⟨hne, hb⟩
      exact hb.resolve_left hne
  · intro b
    simp [Holds, hdrain, eq_comm]
  · intro o hqueue hdrain b
    cases o with
    | task j => exact Iff.rfl
    | queue => exact absurd rfl hqueue
    | drain => exact absurd rfl hdrain
  · have hflow := h.flow
    simp only [pending, hdrain, hqueue] at hflow ⊢
    exact hflow
  · have hroom := h.room
    rw [hqueue, List.length_cons] at hroom
    exact (Nat.le_succ _).trans hroom

theorem Inv.print {text : Bytes} (h : Inv s) (hdrain : s.drain = .received pointer)
    (htext : textAt s.heap pointer = some text) :
    Inv { s with drain := .printed pointer, console := s.console ++ [⟨text, true⟩] } := by
  obtain ⟨owner, howned⟩ := h.owned
  refine ⟨⟨owner, fun o b => (howned.held o b).trans ?_, howned.live, howned.nodup⟩, h.buffers,
    h.phases, ?_, h.calm, h.room⟩
  · cases o with
    | task j => exact Iff.rfl
    | queue => exact Iff.rfl
    | drain => simp [Holds, hdrain]
  · have hflow := h.flow
    simp only [pending, hdrain, List.map_cons, htext] at hflow
    simp only [pending, List.filter_append, List.map_append, List.append_assoc]
    simpa using hflow

theorem Inv.free (h : Inv s) (hdrain : s.drain = .printed pointer) :
    Inv { s.put pointer none with drain := .waiting } := by
  obtain ⟨owner, howned⟩ := h.owned
  have hmine : Holds s (.drain : Owner T) pointer := Or.inr hdrain
  have hqueue : ∀ b ∈ s.queue, b ≠ pointer := by
    rintro b hb rfl
    have hqueued : Holds s (.queue : Owner T) b := hb
    cases howned.unique hqueued hmine
  refine ⟨⟨_, howned.move pointer none ?_ ?_ howned.nodup⟩, ?_, h.phases, ?_, h.calm, h.room⟩
  · intro o b
    cases o with
    | task j =>
      change Holds s (.task j) b ↔ _
      by_cases hb : b = pointer
      · subst hb
        simp only [if_true, reduceCtorEq, iff_false]
        intro hold
        cases howned.unique hold hmine
      · rw [if_neg hb]
    | queue =>
      change b ∈ s.queue ↔ _
      by_cases hb : b = pointer
      · simp only [if_pos hb, reduceCtorEq, iff_false]
        exact fun hmem => hqueue b hmem hb
      · rw [if_neg hb]
        rfl
    | drain =>
      by_cases hb : b = pointer
      · simp [Holds, hb]
      · simp [Holds, hb, Ne.symm hb, hdrain]
  · intro b
    by_cases hb : b = pointer
    · subst hb
      simp [State.put]
    · simp only [State.put, Function.update_of_ne hb, if_neg hb]
  · intro b buff hbuff
    by_cases hb : b = pointer
    · subst hb
      simp [State.put] at hbuff
    · simp only [State.put, Function.update_of_ne hb] at hbuff
      exact h.buffers b buff hbuff
  · have hflow := h.flow
    have hsame : s.queue.map (textAt (Function.update s.heap pointer none)) =
        s.queue.map (textAt s.heap) := by
      apply List.map_congr_left
      intro b hb
      simp only [textAt, Function.update_of_ne (hqueue b hb)]
    simp only [pending, hdrain] at hflow
    simp only [pending, State.put]
    exact (congrArg _ hsame).trans hflow

/-- What a task prints itself, and whether tasks may print. -/
theorem Inv.direct (h : Inv s) (val : Bool) {lines : List Line}
    (hlines : lines.filter Line.queued = []) :
    Inv { s with allowPrint := val, console := s.console ++ lines } := by
  obtain ⟨owner, howned⟩ := h.owned
  refine ⟨⟨owner, fun o b => (howned.held o b).trans ?_, howned.live, howned.nodup⟩, h.buffers,
    h.phases, ?_, h.calm, h.room⟩
  · cases o <;> exact Iff.rfl
  · have hflow := h.flow
    rw [List.filter_append, hlines, List.append_nil]
    exact hflow

end Draining

section Runs

variable [DecidableEq T] {s : State T} {e : Event T} {h : List (Event T)} {i : T} {c : Call}

theorem begun_not_holding : ¬ (begun c).Holding := by
  rintro ⟨message, length, offset, buff, h⟩
  cases c <;> cases h

theorem begun_sound (h : percent ∉ c.text) : PhaseSound (begun c) := by
  cases c with
  | print message => exact ⟨Nat.zero_add _, message.noNul, h⟩
  | printLine => exact ⟨Nat.zero_add _, newLn.noNul, h⟩
  | printLineString message => trivial
  | printLineCStr message => trivial
  | printX text => trivial

theorem Inv.check (h : Inv s) {checks : ℕ} (hphase : s.phase i = .checking checks c) :
    Inv ((system T).next s (.check i)) := by
  have hpercent : percent ∉ c.text := by
    have hsound := h.phases i
    rw [hphase] at hsound
    exact hsound
  have hfrom : ¬ (s.phase i).Holding := by
    rintro ⟨message, length, offset, buff, hholding⟩
    rw [hphase] at hholding
    cases hholding
  cases checks with
  | zero =>
    simp only [system, hphase]
    exact h.enter hfrom begun_not_holding (begun_sound hpercent)
  | succ checks =>
    simp only [system, hphase]
    split
    · exact h.enter hfrom (by rintro ⟨_, _, _, _, heq⟩; cases heq) trivial
    · exact h.enter hfrom (by rintro ⟨_, _, _, _, heq⟩; cases heq) hpercent

theorem Inv.step (h : Inv s) (he : (system T).Enabled s e) : Inv ((system T).next s e) := by
  cases e with
  | call i c =>
    obtain ⟨hidle, hpercent⟩ := he
    refine h.enter ?_ ?_ hpercent
    · rw [hidle]
      rintro ⟨_, _, _, _, heq⟩
      cases heq
    · rintro ⟨_, _, _, _, heq⟩
      cases heq
  | check i =>
    obtain ⟨checks, c, hphase⟩ := he
    exact h.check hphase
  | allocate i pointer =>
    obtain ⟨⟨message, length, offset, hphase⟩, hfresh⟩ := he
    obtain ⟨buff, hcopy, hinv⟩ := h.allocate hphase hfresh
    simp only [system, hphase, hcopy]
    exact hinv
  | send i =>
    obtain ⟨⟨message, length, offset, buff, hphase⟩, hroom⟩ := he
    simp only [system, hphase]
    exact h.send hphase hroom
  | printf i =>
    obtain ⟨text, hphase⟩ := he
    have hentered : Inv (s.enter i .idle) := by
      refine h.enter ?_ ?_ trivial
      · rw [hphase]
        rintro ⟨_, _, _, _, heq⟩
        cases heq
      · rintro ⟨_, _, _, _, heq⟩
        cases heq
    simp only [system, hphase]
    exact hentered.direct s.allowPrint rfl
  | setAllowPrint val =>
    have hsame := @Inv.direct T s h val [] rfl
    rw [List.append_nil] at hsame
    exact hsame
  | receive =>
    obtain ⟨hdrain, hqueue⟩ := he
    obtain ⟨pointer, queue, hqueue⟩ := List.exists_cons_of_ne_nil hqueue
    simp only [system, hqueue]
    exact h.receive hdrain hqueue
  | print =>
    obtain ⟨pointer, hdrain⟩ := he
    have hmine : Holds s (.drain : Owner T) pointer := Or.inl hdrain
    obtain ⟨text, htext, hformat⟩ := h.read hmine
    simp only [system, hdrain, htext, Option.bind_some, hformat]
    exact h.print hdrain htext
  | free =>
    obtain ⟨pointer, hdrain⟩ := he
    obtain ⟨owner, howned⟩ := h.owned
    have hmine : Holds s (.drain : Owner T) pointer := Or.inr hdrain
    obtain ⟨buff, hbuff⟩ := howned.heap hmine
    simp only [system, hdrain, hbuff]
    exact h.free hdrain

theorem inv_initial : Inv (system T).initial where
  owned := ⟨fun _ => none, fun o pointer => by cases o <;> simp [Holds, system],
    fun _ => by simp [system], List.nodup_nil⟩
  buffers pointer buff h := by cases h
  phases i := trivial
  flow := rfl
  calm := rfl
  room := Nat.zero_le _

theorem run_inv (hr : (system T).Run h s) : Inv s :=
  hr.invariant inv_initial fun _ _ hi he _ => hi.step he

/-- In any order of steps nothing is used that is not live, each live buffer has one owner, no
buffer lives without an owner, and what was printed is what was queued, in order, up to what
is still pending. -/
theorem buffers_owned (hr : (system T).Run h s) :
    s.faulted = false ∧
      (∀ pointer, (s.heap pointer).isSome = true ↔ ∃ o, Holds s o pointer) ∧
      (∀ pointer o o', Holds s o pointer → Holds s o' pointer → o = o') ∧ s.queue.Nodup ∧
      ((s.console.filter Line.queued).map fun l => some l.text) ++
        (pending s).map (textAt s.heap) = s.sent.map some := by
  have hinv := run_inv hr
  obtain ⟨owner, howned⟩ := hinv.owned
  exact ⟨hinv.calm, fun pointer => hinv.live, fun pointer o o' => howned.unique, howned.nodup,
    hinv.flow⟩

def queuedOne : List (Event Unit) :=
  [.call () (.print newLn), .check (), .check (), .allocate () 7, .send ()]

theorem run_queuedOne :
    (system Unit).Run queuedOne (queuedOne.foldl (system Unit).next (system Unit).initial) :=
  System.Reached.init.follows
    ⟨⟨rfl, by decide⟩, trivial, ⟨_, _, rfl⟩, trivial, ⟨_, _, rfl⟩, trivial,
      ⟨⟨_, _, _, rfl⟩, rfl⟩, trivial, ⟨⟨_, _, _, _, rfl⟩, by decide⟩, trivial, trivial⟩

theorem buffers_owned_sample :
    ∃ o, Holds (queuedOne.foldl (system Unit).next (system Unit).initial) o 7 :=
  ((buffers_owned run_queuedOne).2.1 7).mp rfl

end Runs

end DbgBuffers
