import Esp32Utils.DbgBuffers
import Mathlib.Algebra.BigOperators.Group.Finset.Piecewise
import Mathlib.Algebra.Order.BigOperators.Group.Finset
import Mathlib.Data.Fintype.Basic
import Mathlib.Data.Fintype.BigOperators

/-! # What the debug queue costs, and that it empties

Finitely many tasks share the queue. The memory of the buffers is bounded. Once no more calls
are made every order of the steps that are left comes to an end, and there everything is
printed and freed. -/
namespace DbgProgress

open ByteStrings MemoryObjects ThreadSafeDbg GuardedRuns MessageSplitting DbgBuffers
open DbgConsole (Call)

variable {T : Type}

def buffOf : Phase → Option ℕ
  | .holding _ _ _ buff => some buff
  | _ => none

def pointerOf : Drain → Option ℕ
  | .waiting => none
  | .received pointer => some pointer
  | .printed pointer => some pointer

section Memory

variable [Fintype T] {s : State T} {h : List (Event T)}

def held (s : State T) : Finset ℕ :=
  (Finset.univ.biUnion fun i => (buffOf (s.phase i)).toFinset) ∪ s.queue.toFinset ∪
    (pointerOf s.drain).toFinset

theorem mem_held {pointer : ℕ} : pointer ∈ held s ↔ ∃ o, Holds s o pointer := by
  simp only [held, Finset.mem_union, Finset.mem_biUnion, Finset.mem_univ, true_and,
    Option.mem_toFinset, List.mem_toFinset]
  constructor
  · rintro ((⟨i, hi⟩ | hqueue) | hdrain)
    · refine ⟨.task i, ?_⟩
      cases hphase : s.phase i with
      | holding message length offset buff =>
        rw [hphase] at hi
        obtain rfl := Option.some.inj hi
        exact ⟨message, length, offset, hphase⟩
      | _ =>
        rw [hphase] at hi
        cases hi
    · exact ⟨.queue, hqueue⟩
    · refine ⟨.drain, ?_⟩
      cases hs : s.drain with
      | waiting =>
        rw [hs] at hdrain
        cases hdrain
      | received first =>
        rw [hs] at hdrain
        obtain rfl := Option.some.inj hdrain
        exact Or.inl hs
      | printed first =>
        rw [hs] at hdrain
        obtain rfl := Option.some.inj hdrain
        exact Or.inr hs
  · rintro ⟨o, ho⟩
    cases o with
    | task i =>
      obtain ⟨message, length, offset, hphase⟩ := ho
      exact Or.inl (Or.inl ⟨i, by rw [hphase]; rfl⟩)
    | queue => exact Or.inl (Or.inr ho)
    | drain =>
      refine Or.inr ?_
      rcases ho with ho | ho <;> rw [ho] <;> rfl

theorem card_option_le (o : Option ℕ) : o.toFinset.card ≤ 1 := by
  cases o with
  | none => exact Nat.zero_le _
  | some a => exact le_rfl

theorem card_held (hroom : s.queue.length ≤ maxQueueLength) :
    (held s).card ≤ Fintype.card T + maxQueueLength + 1 := by
  have htasks := Finset.card_biUnion_le_card_mul Finset.univ
    (fun i => (buffOf (s.phase i)).toFinset) 1 fun i _ => card_option_le _
  rw [Finset.card_univ, mul_one] at htasks
  have hqueue : s.queue.toFinset.card ≤ maxQueueLength :=
    (List.toFinset_card_le _).trans hroom
  have hdrain := card_option_le (pointerOf s.drain)
  have hunion := Finset.card_union_le
    ((Finset.univ.biUnion fun i => (buffOf (s.phase i)).toFinset) ∪ s.queue.toFinset)
    (pointerOf s.drain).toFinset
  have hinner := Finset.card_union_le
    (Finset.univ.biUnion fun i => (buffOf (s.phase i)).toFinset) s.queue.toFinset
  unfold held
  omega

theorem bufferSound_length_le {buff : Buffer} (h : BufferSound buff) :
    buff.length ≤ maxMsgLength + 1 := by
  obtain ⟨text, rfl, -, -, hshort⟩ := h
  simp only [terminated, List.length_append, List.length_map, List.length_singleton]
  omega

/-- However far the tasks run ahead of the drain task, the live buffers are at most one for
each task, one for each place in the queue and one that is being printed. -/
theorem memory_bounded [DecidableEq T] (hr : (system T).Run h s) :
    ∃ live : Finset ℕ, (∀ pointer, (s.heap pointer).isSome = true ↔ pointer ∈ live) ∧
      ∑ pointer ∈ live, ((s.heap pointer).getD []).length ≤
        (Fintype.card T + maxQueueLength + 1) * (maxMsgLength + 1) := by
  have hinv := run_inv hr
  refine ⟨held s, fun pointer => hinv.live.trans mem_held.symm, ?_⟩
  have hshort : ∀ pointer ∈ held s, ((s.heap pointer).getD []).length ≤ maxMsgLength + 1 := by
    intro pointer _
    cases hbuff : s.heap pointer with
    | none => exact Nat.zero_le _
    | some buff => exact bufferSound_length_le (hinv.buffers pointer buff hbuff)
  calc ∑ pointer ∈ held s, ((s.heap pointer).getD []).length
      ≤ (held s).card * (maxMsgLength + 1) := Finset.sum_le_card_nsmul _ _ _ hshort
    _ ≤ _ := Nat.mul_le_mul_right _ (card_held hinv.room)

theorem memory_bounded_sample :
    ∃ live : Finset ℕ, 7 ∈ live ∧ ∑ pointer ∈ live,
      (((queuedOne.foldl (system Unit).next (system Unit).initial).heap pointer).getD []).length ≤
        (1 + maxQueueLength + 1) * (maxMsgLength + 1) := by
  obtain ⟨live, hlive, hsum⟩ := memory_bounded run_queuedOne
  exact ⟨live, (hlive 7).mp rfl, hsum⟩

end Memory

section Rank

/-- The steps that a task has left, at most, with those of the pieces that it still sends. -/
def workOf : Phase → ℕ
  | .idle => 0
  | .checking checks c => checks + 1 + begunWork c
  | .direct _ => 1
  | .splitting _ length _ => 5 * length + 5
  | .holding _ length _ _ => 5 * length + 4
where
  begunWork : Call → ℕ
    | .print message => 5 * message.bytes.length + 5
    | .printLine => 5 * newLn.bytes.length + 5
    | _ => 1

def drainWork : Drain → ℕ
  | .waiting => 0
  | .received _ => 2
  | .printed _ => 1

def isWork : Event T → Bool
  | .call _ _ => false
  | .setAllowPrint _ => false
  | _ => true

def Remaining (_ : State T) : Event T → Prop
  | .call _ _ => False
  | _ => True

theorem begun_work (c : Call) : workOf (begun c) = workOf.begunWork c := by
  cases c <;> rfl

theorem behindPiece_work (message : Bytes) (length offset : ℕ) :
    workOf (behindPiece message length offset) + 4 ≤ 5 * length + 4 := by
  unfold behindPiece
  have hpos : 0 < maxMsgLength := by decide
  split
  · simp only [workOf]
    omega
  · simp only [workOf]
    omega

variable [DecidableEq T] [Fintype T] {s : State T} {i : T} {p : Phase} {e : Event T}

/-- A bound on the steps that are left unless there are new calls. -/
def rank (s : State T) : ℕ :=
  ∑ i, workOf (s.phase i) + 3 * s.queue.length + drainWork s.drain

theorem sum_enter :
    ∑ j, workOf ((s.enter i p).phase j) + workOf (s.phase i) =
      ∑ j, workOf (s.phase j) + workOf p := by
  have hentered : ∀ j, workOf ((s.enter i p).phase j) =
      Function.update (fun j => workOf (s.phase j)) i (workOf p) j := by
    intro j
    by_cases hj : j = i
    · subst hj
      rw [enter_phase_self, Function.update_self]
    · rw [enter_phase_of_ne hj, Function.update_of_ne hj]
  rw [Finset.sum_congr rfl fun j _ => hentered j, Finset.sum_update_of_mem (Finset.mem_univ i)]
  have hsplit := Finset.add_sum_erase Finset.univ (fun j => workOf (s.phase j)) (Finset.mem_univ i)
  rw [← Finset.erase_eq]
  omega

theorem rank_enter : rank (s.enter i p) + workOf (s.phase i) = rank s + workOf p := by
  have hsum := sum_enter (s := s) (i := i) (p := p)
  have hqueue : (s.enter i p).queue = s.queue := rfl
  have hdrain : (s.enter i p).drain = s.drain := rfl
  unfold rank
  rw [hqueue, hdrain]
  omega

theorem rank_enter_lt (h : workOf p < workOf (s.phase i)) : rank (s.enter i p) + 1 ≤ rank s := by
  have hrank := rank_enter (s := s) (i := i) (p := p)
  omega

theorem rank_check {checks : ℕ} {c : Call} (hphase : s.phase i = .checking checks c) :
    rank ((system T).next s (.check i)) + 1 ≤ rank s := by
  cases checks with
  | zero =>
    simp only [system, hphase]
    apply rank_enter_lt
    rw [hphase, begun_work, workOf]
    omega
  | succ checks =>
    simp only [system, hphase]
    split
    · apply rank_enter_lt
      rw [hphase]
      simp only [workOf]
      omega
    · apply rank_enter_lt
      rw [hphase]
      simp only [workOf]
      omega

theorem rank_send {message : Bytes} {length offset buff : ℕ}
    (hphase : s.phase i = .holding message length offset buff) :
    rank ((system T).next s (.send i)) + 1 ≤ rank s := by
  have hentered := rank_enter (s := s) (i := i) (p := behindPiece message length offset)
  have hbehind := behindPiece_work message length offset
  have hholding : workOf (s.phase i) = 5 * length + 4 := by rw [hphase, workOf]
  have hsent : rank ((system T).next s (.send i)) =
      rank (s.enter i (behindPiece message length offset)) + 3 := by
    simp only [system, hphase, rank, State.enter, List.length_append, List.length_singleton]
    omega
  omega

theorem rank_step (h : Inv s) (he : (system T).Enabled s e) (hr : Remaining s e) :
    rank ((system T).next s e) + (if isWork e then 1 else 0) ≤ rank s := by
  cases e with
  | call i c => exact hr.elim
  | check i =>
    obtain ⟨checks, c, hphase⟩ := he
    exact rank_check hphase
  | allocate i pointer =>
    obtain ⟨⟨message, length, offset, hphase⟩, hfresh⟩ := he
    obtain ⟨buff, hcopy, -⟩ := h.allocate hphase hfresh
    simp only [system, hphase, hcopy]
    apply rank_enter_lt (p := .holding message length offset pointer)
    rw [hphase]
    simp only [workOf]
    omega
  | send i =>
    obtain ⟨⟨message, length, offset, buff, hphase⟩, -⟩ := he
    exact rank_send hphase
  | printf i =>
    obtain ⟨text, hphase⟩ := he
    simp only [system, hphase]
    apply rank_enter_lt (p := .idle)
    rw [hphase]
    exact Nat.one_pos
  | setAllowPrint val => exact le_rfl
  | receive =>
    obtain ⟨hdrain, hqueue⟩ := he
    obtain ⟨pointer, queue, hqueue⟩ := List.exists_cons_of_ne_nil hqueue
    simp only [system, hqueue, rank, hdrain, drainWork, isWork, if_true, List.length_cons]
    omega
  | print =>
    obtain ⟨pointer, hdrain⟩ := he
    have hmine : Holds s (.drain : Owner T) pointer := Or.inl hdrain
    obtain ⟨text, htext, hformat⟩ := h.read hmine
    simp only [system, hdrain, htext, Option.bind_some, hformat, rank, drainWork, isWork, if_true]
    omega
  | free =>
    obtain ⟨pointer, hdrain⟩ := he
    have hmine : Holds s (.drain : Owner T) pointer := Or.inr hdrain
    obtain ⟨buff, hbuff⟩ := Option.isSome_iff_exists.mp (h.live.mpr ⟨_, hmine⟩)
    simp only [system, hdrain, hbuff, rank, drainWork, State.put, isWork, if_true]
    omega

end Rank

section Progress

variable [Fintype T] {s : State T}

structure Quiet (s : State T) : Prop where
  phase : ∀ i, s.phase i = .idle
  queue : s.queue = []
  drain : s.drain = .waiting
  heap : ∀ pointer, s.heap pointer = none
  shown : (s.console.filter Line.queued).map Line.text = s.sent

theorem exists_fresh (h : Inv s) : ∃ pointer, s.heap pointer = none := by
  obtain ⟨pointer, hpointer⟩ := Infinite.exists_notMem_finset (held s)
  refine ⟨pointer, ?_⟩
  by_contra hlive
  exact hpointer (mem_held.mpr (h.live.mp (Option.isSome_iff_ne_none.mpr hlive)))

variable [DecidableEq T]

theorem quiet_of_stuck (h : Inv s) (hstuck : ∀ e, isWork e = true → ¬ (system T).Enabled s e) :
    Quiet s := by
  have hdrain : s.drain = .waiting := by
    cases hs : s.drain with
    | waiting => rfl
    | received pointer => exact absurd ⟨pointer, hs⟩ (hstuck .print rfl)
    | printed pointer => exact absurd ⟨pointer, hs⟩ (hstuck .free rfl)
  have hqueue : s.queue = [] := by
    by_contra hne
    exact hstuck .receive rfl ⟨hdrain, hne⟩
  have hphase : ∀ i, s.phase i = .idle := by
    intro i
    cases hs : s.phase i with
    | idle => rfl
    | checking checks c => exact absurd ⟨checks, c, hs⟩ (hstuck (.check i) rfl)
    | direct text => exact absurd ⟨text, hs⟩ (hstuck (.printf i) rfl)
    | splitting message length offset =>
      obtain ⟨pointer, hfresh⟩ := exists_fresh h
      exact absurd ⟨⟨message, length, offset, hs⟩, hfresh⟩ (hstuck (.allocate i pointer) rfl)
    | holding message length offset buff =>
      refine absurd ⟨⟨message, length, offset, buff, hs⟩, ?_⟩ (hstuck (.send i) rfl)
      rw [hqueue]
      decide
  refine ⟨hphase, hqueue, hdrain, fun pointer => ?_, ?_⟩
  · by_contra hlive
    obtain ⟨o, ho⟩ := h.live.mp (Option.isSome_iff_ne_none.mpr hlive)
    cases o with
    | task i =>
      obtain ⟨message, length, offset, hholding⟩ := ho
      rw [hphase i] at hholding
      cases hholding
    | queue =>
      have hmem : pointer ∈ s.queue := ho
      rw [hqueue] at hmem
      cases hmem
    | drain =>
      rcases ho with ho | ho <;> rw [hdrain] at ho <;> cases ho
  · have hflow := h.flow
    simp only [pending, hdrain, hqueue, List.map_nil, List.append_nil] at hflow
    apply List.map_injective_iff.mpr (Option.some_injective Bytes)
    rw [List.map_map]
    exact hflow

/-- From wherever a run has come, the steps that follow without a new call are bounded in number,
in any order, and when none of them is left everything is printed and freed. -/
theorem queue_empties {h : List (Event T)} (hr : (system T).Run h s) :
    ∃ bound, ∀ rest, (system T).Follows Remaining s rest →
      rest.countP isWork ≤ bound ∧
        ((∀ e, isWork e = true → ¬ (system T).Enabled (rest.foldl (system T).next s) e) →
          Quiet (rest.foldl (system T).next s)) := by
  refine ⟨rank s, fun rest hfollows => ?_⟩
  obtain ⟨hend, hcount⟩ := hfollows.work_bounded (fun _ _ hi he _ => Inv.step hi he)
    (fun _ _ hi he hremaining => rank_step hi he hremaining) (run_inv hr)
  exact ⟨by omega, fun hstuck => quiet_of_stuck hend hstuck⟩

def emptying : List (Event Unit) := [.receive, .print, .free]

theorem queue_empties_sample :
    Quiet (emptying.foldl (system Unit).next
      (queuedOne.foldl (system Unit).next (system Unit).initial)) := by
  obtain ⟨bound, hbound⟩ := queue_empties run_queuedOne
  refine (hbound emptying
    ⟨⟨rfl, by decide⟩, trivial, ⟨_, rfl⟩, trivial, ⟨_, rfl⟩, trivial, trivial⟩).2 ?_
  generalize hs : emptying.foldl (system Unit).next
    (queuedOne.foldl (system Unit).next (system Unit).initial) = s
  have hphase : ∀ i, s.phase i = .idle := fun i => by rw [← hs]; rfl
  have hqueue : s.queue = [] := by rw [← hs]; rfl
  have hdrain : s.drain = .waiting := by rw [← hs]; rfl
  intro e hwork he
  cases e with
  | call i c => cases hwork
  | setAllowPrint val => cases hwork
  | check i =>
    obtain ⟨checks, c, heq⟩ := he
    rw [hphase] at heq
    cases heq
  | allocate i pointer =>
    obtain ⟨⟨message, length, offset, heq⟩, -⟩ := he
    rw [hphase] at heq
    cases heq
  | send i =>
    obtain ⟨⟨message, length, offset, buff, heq⟩, -⟩ := he
    rw [hphase] at heq
    cases heq
  | printf i =>
    obtain ⟨text, heq⟩ := he
    rw [hphase] at heq
    cases heq
  | receive => exact he.2 hqueue
  | print =>
    obtain ⟨pointer, heq⟩ := he
    rw [hdrain] at heq
    cases heq
  | free =>
    obtain ⟨pointer, heq⟩ := he
    rw [hdrain] at heq
    cases heq

end Progress

end DbgProgress
