import Esp32Utils.DbgConsole
import Mathlib.Data.List.Basic

/-! # Whole messages, in order

Streams whose items are marked where a segment ends. Messages stay whole and each task's in order
while the tasks take turns; what the console shows and what waits behind it are then one stream
of whole messages. -/
namespace Segmentation

variable {α β : Type} {isLast : α → Bool} {f : β → List α}

def IsSegment (isLast : α → Bool) (xs : List α) : Prop :=
  ∃ body x, xs = body ++ [x] ∧ isLast x = true ∧ ∀ y ∈ body, isLast y = false

theorem IsSegment.front_open {xs front back : List α} (h : IsSegment isLast xs)
    (hxs : xs = front ++ back) (hback : back ≠ []) : ∀ y ∈ front, isLast y = false := by
  obtain ⟨body, x, rfl, -, hbody⟩ := h
  intro y hy
  apply hbody
  have hdrop := congrArg List.dropLast hxs
  rw [List.dropLast_concat, List.dropLast_append_of_ne_nil hback] at hdrop
  rw [hdrop]
  exact List.mem_append_left _ hy

/-- A stream that is cut behind the end of a segment is cut between two segments. -/
theorem split_at_boundary {segments : List β} {rest front back : List α}
    (hseg : ∀ m ∈ segments, IsSegment isLast (f m)) (hrest : ∀ y ∈ rest, isLast y = false)
    (hstream : front ++ back = segments.flatMap f ++ rest)
    (hend : ∀ x ∈ front.getLast?, isLast x = true) :
    ∃ before behind, segments = before ++ behind ∧ front = before.flatMap f ∧
      back = behind.flatMap f ++ rest := by
  induction segments generalizing front with
  | nil =>
    rcases List.eq_nil_or_concat front with rfl | ⟨body, x, rfl⟩
    · exact ⟨[], [], rfl, rfl, hstream⟩
    · have hmem : x ∈ rest := by
        rw [List.flatMap_nil, List.nil_append] at hstream
        rw [← hstream]
        simp
      have hx := hend x (by simp)
      rw [hrest x hmem] at hx
      exact absurd hx (by decide)
  | cons m segments ih =>
    rcases List.eq_nil_or_concat front with rfl | ⟨body, x, rfl⟩
    · exact ⟨[], m :: segments, rfl, rfl, hstream⟩
    · rw [List.flatMap_cons, List.append_assoc] at hstream
      rcases List.append_eq_append_iff.mp hstream with ⟨mid, hm, hback⟩ | ⟨mid, hfront, hm⟩
      · by_cases hmid : mid = []
        · subst hmid
          rw [List.append_nil] at hm
          exact ⟨[m], segments, rfl, by simp [hm], hback⟩
        · have hx := hend x (by simp)
          have hopen := (hseg m List.mem_cons_self).front_open hm hmid x (by simp)
          rw [hopen] at hx
          exact absurd hx (by decide)
      · have hmid : ∀ y ∈ mid.getLast?, isLast y = true := by
          intro y hy
          apply hend
          rw [hfront, List.getLast?_append, Option.mem_def.mp hy]
          rfl
        obtain ⟨before, behind, rfl, rfl, hback⟩ :=
          ih (fun m hm => hseg m (List.mem_cons_of_mem _ hm)) hm.symm hmid
        exact ⟨m :: before, behind, rfl, by rw [hfront, List.flatMap_cons], hback⟩

end Segmentation

namespace MessageOrder

open ByteStrings ThreadSafeDbg Segmentation GuardedRuns DbgConsole

variable {T : Type}

section Conditions

variable [DecidableEq T]

/-- A piece is queued while no other task is within a message; what bypasses the queue finds
nothing of its task there and a whole message at the end of the console. -/
def InTurn (s : State T) (i : T) : Action → Prop
  | .xQueueSendToBack _ => ∀ j, j ≠ i → s.sending j = []
  | .printf _ => (∀ p ∈ s.queue, p.sender ≠ i) ∧ ∀ p ∈ s.console.getLast?, p.isLast = true

def Orderly (s : State T) : Event T → Prop
  | .call i c => c.Uncut ∧ ∀ a ∈ c.actions.head?, InTurn s i a
  | .send i => ∀ a ∈ (s.sending i).head?, InTurn s i a
  | .drain => True

def said (l : List (T × Call)) (i : T) : List Call := (l.filter (·.1 = i)).map Prod.snd

/-- Once the queue is empty the console shows whole messages, each task's in the order in
which it issued them, and behind them only what a task has sent so far of a message that it
is still sending. -/
def Whole (s : State T) : Prop :=
  s.queue = [] → ∃ l cut, s.consoleText = (l.map fun m => m.2.text).flatten ++ cut ∧
    (∀ i, s.sending i = [] → said l i = s.issued i) ∧
    (∀ i, s.sending i ≠ [] → ∃ c, s.issued i = said l i ++ [c] ∧ cut <+: c.text) ∧
    ((∀ i, s.sending i = []) → cut = [])

end Conditions

section Messages

def pieces (i : T) : List Action → List (Piece T)
  | [] => []
  | a :: rest => ⟨i, a.text, rest.isEmpty⟩ :: pieces i rest

theorem pieces_texts (i : T) (as : List Action) :
    (pieces i as).map Piece.text = as.map Action.text := by
  induction as with
  | nil => rfl
  | cons a rest ih => rw [pieces, List.map_cons, List.map_cons, ih]

theorem isSegment_pieces (i : T) {as : List Action} (h : as ≠ []) :
    IsSegment Piece.isLast (pieces i as) := by
  induction as with
  | nil => exact absurd rfl h
  | cons a rest ih =>
    cases rest with
    | nil => exact ⟨[], ⟨i, a.text, true⟩, rfl, rfl, by simp⟩
    | cons b rest =>
      obtain ⟨body, x, hrest, hx, hbody⟩ := ih (List.cons_ne_nil _ _)
      refine ⟨⟨i, a.text, false⟩ :: body, x, ?_, hx, ?_⟩
      · rw [pieces, hrest]
        rfl
      · intro y hy
        rcases List.mem_cons.mp hy with rfl | hy
        · rfl
        · exact hbody y hy

theorem sender_mem_pieces (i : T) {as : List Action} (h : as ≠ []) :
    ∃ p ∈ pieces i as, p.sender = i := by
  cases as with
  | nil => exact absurd rfl h
  | cons a rest => exact ⟨_, List.mem_cons_self, rfl⟩

def told (l : List (T × Call)) : List (Piece T) := l.flatMap fun m => pieces m.1 m.2.actions

theorem told_texts {l : List (T × Call)} (h : ∀ m ∈ l, m.2.Uncut) :
    ((told l).map Piece.text).flatten = (l.map fun m => m.2.text).flatten := by
  induction l with
  | nil => rfl
  | cons m l ih =>
    rw [told, List.flatMap_cons, List.map_append, List.flatten_append, pieces_texts,
      Call.actions_texts (h m List.mem_cons_self), List.map_cons, List.flatten_cons]
    congr 1
    exact ih fun m hm => h m (List.mem_cons_of_mem _ hm)

variable [DecidableEq T] {l l' : List (T × Call)} {i j : T} {c : Call}

@[simp] theorem said_append : said (l ++ l') i = said l i ++ said l' i := by
  simp only [said, List.filter_append, List.map_append]

theorem said_cons_self : said ((i, c) :: l) i = c :: said l i := by
  simp [said]

theorem said_cons_of_ne (h : j ≠ i) : said ((i, c) :: l) j = said l j := by
  simp [said, Ne.symm h]

theorem said_eq_nil (h : ∀ p ∈ told l, p.sender ≠ i) : said l i = [] := by
  simp only [said, List.map_eq_nil_iff, List.filter_eq_nil_iff, decide_eq_true_eq]
  rintro ⟨j, c⟩ hm rfl
  obtain ⟨p, hp, hsender⟩ := sender_mem_pieces j c.actions_ne_nil
  exact h p (List.mem_flatMap.mpr ⟨(j, c), hm, hp⟩) hsender

end Messages

section Invariant

variable [DecidableEq T] {s : State T} {l : List (T × Call)} {cut : List (Piece T)} {i j : T}
  {c : Call} {a : Action} {rest : List Action}

/-- Task `i` is within its call `c`: `cut` is in the stream and `rest` is left to do. -/
structure Telling (s : State T) (l : List (T × Call)) (cut : List (Piece T)) (i : T)
    (rest : List Action) (c : Call) : Prop where
  uncut : c.Uncut
  issued : s.issued i = said l i ++ [c]
  left : cut ++ pieces i rest = pieces i c.actions

/-- The console and the queue behind it hold the messages of `l`, then `cut`. -/
structure Told (s : State T) (l : List (T × Call)) (cut : List (Piece T)) : Prop where
  stream : s.console ++ s.queue = told l ++ cut
  uncut : ∀ m ∈ l, m.2.Uncut
  idle : ∀ i, s.sending i = [] → said l i = s.issued i
  telling : ∀ i, s.sending i ≠ [] → ∃ c, Telling s l cut i (s.sending i) c
  still : (∀ i, s.sending i = []) → cut = []

structure Plain (s : State T) : Prop where
  queue : ∀ p ∈ s.queue, percent ∉ p.text
  sending : ∀ i, ∀ a ∈ s.sending i, percent ∉ a.text ∧ ∃ buff, a = .xQueueSendToBack buff

theorem Told.cut_open (h : Told s l cut) : ∀ p ∈ cut, p.isLast = false := by
  by_cases hstill : ∀ i, s.sending i = []
  · rw [h.still hstill]
    simp
  · obtain ⟨i, hi⟩ := not_forall.mp hstill
    obtain ⟨c, hc⟩ := h.telling i hi
    apply (isSegment_pieces i c.actions_ne_nil).front_open hc.left.symm
    intro hnil
    obtain ⟨p, hp, -⟩ := sender_mem_pieces i hi
    rw [hnil] at hp
    exact absurd hp List.not_mem_nil

structure Turn (s : State T) (l : List (T × Call)) (cut : List (Piece T)) (i : T) : Prop where
  stream : s.console ++ s.queue = told l ++ cut
  uncut : ∀ m ∈ l, m.2.Uncut
  others : ∀ j, j ≠ i → s.sending j = []
  said : ∀ j, j ≠ i → said l j = s.issued j

section Turns

variable {buff : Bytes} {b : Action}

theorem perform_queue_stream (hstream : s.console ++ s.queue = told l ++ cut) :
    (s.perform i (.xQueueSendToBack buff) rest).console ++
      (s.perform i (.xQueueSendToBack buff) rest).queue =
        told l ++ (cut ++ [⟨i, buff, rest.isEmpty⟩]) := by
  rw [← List.append_assoc, ← hstream, List.append_assoc]
  rfl

theorem Turn.perform_others (ht : Turn s l cut i) (hj : j ≠ i) :
    (s.perform i a rest).sending j = [] := by
  rw [perform_sending_of_ne hj]
  exact ht.others j hj

theorem Turn.perform_last (ht : Turn s l cut i)
    (hc : Telling s l cut i [.xQueueSendToBack buff] c) :
    Told (s.perform i (.xQueueSendToBack buff) []) (l ++ [(i, c)]) [] := by
  refine ⟨?_, ?_, ?_, ?_, fun _ => rfl⟩
  · rw [perform_queue_stream ht.stream, List.append_nil, told, told, List.flatMap_append]
    congr 1
    rw [List.flatMap_cons, List.flatMap_nil, List.append_nil]
    exact hc.left
  · intro m hm
    rcases List.mem_append.mp hm with hm | hm
    · exact ht.uncut m hm
    · rw [List.mem_singleton.mp hm]
      exact hc.uncut
  · intro j _
    rw [said_append, perform_issued]
    by_cases hj : j = i
    · subst hj
      rw [said_cons_self]
      exact hc.issued.symm
    · rw [said_cons_of_ne hj]
      exact (List.append_nil _).trans (ht.said j hj)
  · intro j hj
    by_cases hji : j = i
    · subst hji
      exact absurd perform_sending_self hj
    · exact absurd (ht.perform_others hji) hj

theorem Turn.perform_next (ht : Turn s l cut i)
    (hc : Telling s l cut i (.xQueueSendToBack buff :: b :: rest) c) :
    Told (s.perform i (.xQueueSendToBack buff) (b :: rest)) l (cut ++ [⟨i, buff, false⟩]) := by
  refine ⟨perform_queue_stream ht.stream, ht.uncut, ?_, ?_, ?_⟩
  · intro j hj
    by_cases hji : j = i
    · subst hji
      rw [perform_sending_self] at hj
      exact absurd hj (List.cons_ne_nil _ _)
    · exact ht.said j hji
  · intro j hj
    by_cases hji : j = i
    · subst hji
      refine ⟨c, hc.uncut, hc.issued, ?_⟩
      rw [perform_sending_self, List.append_assoc]
      exact hc.left
    · exact absurd (ht.perform_others hji) hj
  · intro hall
    exact absurd (perform_sending_self.symm.trans (hall i)) (List.cons_ne_nil _ _)

theorem Turn.perform_queue (ht : Turn s l cut i)
    (hc : Telling s l cut i (.xQueueSendToBack buff :: rest) c) :
    ∃ l' cut', Told (s.perform i (.xQueueSendToBack buff) rest) l' cut' := by
  cases rest with
  | nil => exact ⟨_, _, ht.perform_last hc⟩
  | cons b rest => exact ⟨_, _, ht.perform_next hc⟩

end Turns

section Direct

variable {before behind : List (T × Call)} {text : Bytes}

theorem Told.split (h : Told s l cut) (hend : ∀ p ∈ s.console.getLast?, p.isLast = true) :
    ∃ before behind, l = before ++ behind ∧ s.console = told before ∧
      s.queue = told behind ++ cut := by
  have hseg : ∀ m ∈ l, IsSegment Piece.isLast (pieces m.1 m.2.actions) := by
    intro m _
    exact isSegment_pieces _ m.2.actions_ne_nil
  exact split_at_boundary hseg h.cut_open h.stream hend

theorem perform_idle (hidle : s.sending i = []) :
    ((s.issue i c).perform i a []).sending = s.sending := by
  rw [perform_sending, ← hidle]
  exact Function.update_eq_self i s.sending

theorem said_insert_of_ne (hj : j ≠ i) :
    said (before ++ (i, c) :: behind) j = said (before ++ behind) j := by
  rw [said_append, said_append, said_cons_of_ne hj]

theorem Told.insert (h : Told s (before ++ behind) cut) (huncut : c.Uncut)
    (hc : c.actions = [.printf text]) (hidle : s.sending i = []) (hnone : said behind i = [])
    (hconsole : s.console = told before) (hqueue : s.queue = told behind ++ cut) :
    Told ((s.issue i c).perform i (.printf text) []) (before ++ (i, c) :: behind) cut := by
  refine ⟨?_, ?_, ?_, ?_, ?_⟩
  · have hpieces : pieces i c.actions = [⟨i, text, true⟩] := by
      rw [hc]
      rfl
    change s.console ++ [⟨i, text, true⟩] ++ s.queue = _
    rw [hconsole, hqueue, told, told, told, List.flatMap_append, List.flatMap_cons, hpieces]
    simp only [List.append_assoc]
  · intro m hm
    rcases List.mem_append.mp hm with hm | hm
    · exact h.uncut m (List.mem_append_left _ hm)
    · rcases List.mem_cons.mp hm with rfl | hm
      · exact huncut
      · exact h.uncut m (List.mem_append_right _ hm)
  · intro j hj
    rw [perform_idle hidle] at hj
    have hwas := h.idle j hj
    rw [perform_issued]
    by_cases hji : j = i
    · subst hji
      rw [said_append, hnone, List.append_nil] at hwas
      rw [said_append, said_cons_self, hnone, issue_issued_self, hwas]
    · rw [said_insert_of_ne hji, issue_issued_of_ne hji]
      exact hwas
  · intro j hj
    rw [perform_idle hidle] at hj ⊢
    have hji : j ≠ i := by
      rintro rfl
      exact hj hidle
    obtain ⟨d, hd⟩ := h.telling j hj
    refine ⟨d, hd.uncut, ?_, hd.left⟩
    rw [said_insert_of_ne hji, perform_issued, issue_issued_of_ne hji]
    exact hd.issued
  · rw [perform_idle hidle]
    exact h.still

/-- A task that is within no message and has nothing in the queue prints a whole message
behind a whole message. -/
theorem Told.perform_printf (h : Told s l cut) (huncut : c.Uncut)
    (hc : c.actions = [.printf text]) (hidle : s.sending i = [])
    (hqueue : ∀ p ∈ s.queue, p.sender ≠ i) (hend : ∀ p ∈ s.console.getLast?, p.isLast = true) :
    ∃ l', Told ((s.issue i c).perform i (.printf text) []) l' cut := by
  obtain ⟨before, behind, rfl, hconsole, hrest⟩ := h.split hend
  refine ⟨_, h.insert huncut hc hidle ?_ hconsole hrest⟩
  apply said_eq_nil
  intro p hp
  apply hqueue
  rw [hrest]
  exact List.mem_append_left _ hp

end Direct

section Drain

variable {p : Piece T} {queue : List (Piece T)}

omit [DecidableEq T] in
theorem drain_eq (h : Plain s) (hqueue : s.queue = p :: queue) :
    s.drain = { s with queue := queue, console := s.console ++ [p] } := by
  have hp := h.queue p (by rw [hqueue]; exact List.mem_cons_self)
  unfold State.drain
  rw [hqueue]
  simp only [printfExpand_eq_self hp, Option.toList_some, List.map_cons, List.map_nil]

theorem Told.drain (h : Told s l cut) (hplain : Plain s) (hqueue : s.queue = p :: queue) :
    Told s.drain l cut := by
  rw [drain_eq hplain hqueue]
  refine ⟨?_, h.uncut, h.idle, ?_, h.still⟩
  · rw [← h.stream, hqueue, List.append_assoc]
    rfl
  · intro i hi
    obtain ⟨c, hc⟩ := h.telling i hi
    exact ⟨c, hc.uncut, hc.issued, hc.left⟩

omit [DecidableEq T] in
theorem Plain.drain (h : Plain s) (hqueue : s.queue = p :: queue) : Plain s.drain := by
  rw [drain_eq h hqueue]
  refine ⟨?_, h.sending⟩
  intro q hq
  apply h.queue
  rw [hqueue]
  exact List.mem_cons_of_mem _ hq

end Drain

theorem Plain.perform (h : Plain s) (hrest : ∀ b ∈ rest, percent ∉ b.text ∧
    ∃ buff, b = .xQueueSendToBack buff) (ha : percent ∉ a.text) : Plain (s.perform i a rest) := by
  constructor
  · intro p hp
    cases a with
    | xQueueSendToBack buff =>
      rcases List.mem_append.mp hp with hp | hp
      · exact h.queue p hp
      · rw [List.mem_singleton.mp hp]
        exact ha
    | printf text => exact h.queue p hp
  · intro j b hb
    by_cases hj : j = i
    · subst hj
      rw [perform_sending_self] at hb
      exact hrest b hb
    · rw [perform_sending_of_ne hj] at hb
      exact h.sending j b hb

def Inv (s : State T) : Prop := Plain s ∧ ∃ l cut, Told s l cut

theorem Plain.issue (h : Plain s) : Plain (s.issue i c) := ⟨h.queue, h.sending⟩

theorem inv_call_direct {text : Bytes} (h : Inv s) (he : (system T).Enabled s (.call i c))
    (ho : Orderly s (.call i c)) (hc : c.actions = [.printf text]) :
    Inv ((system T).next s (.call i c)) := by
  obtain ⟨hplain, l, cut, ht⟩ := h
  obtain ⟨hidle, hpercent, -⟩ := he
  obtain ⟨huncut, hturn⟩ := ho
  rw [next_call hc]
  rw [hc] at hturn
  obtain ⟨hqueue, hend⟩ := hturn _ rfl
  obtain ⟨l', hl'⟩ := ht.perform_printf huncut hc hidle hqueue hend
  refine ⟨?_, l', cut, hl'⟩
  apply hplain.issue.perform (by simp)
  apply Call.actions_plain huncut hpercent
  rw [hc]
  exact List.mem_cons_self

theorem inv_call_queued {buff : Bytes} (h : Inv s) (he : (system T).Enabled s (.call i c))
    (ho : Orderly s (.call i c)) (hc : c.actions = .xQueueSendToBack buff :: rest)
    (hqueued : ∀ a ∈ c.actions, ∃ buff, a = .xQueueSendToBack buff) :
    Inv ((system T).next s (.call i c)) := by
  obtain ⟨hplain, l, cut, ht⟩ := h
  obtain ⟨hidle, hpercent, -⟩ := he
  obtain ⟨huncut, hturn⟩ := ho
  have hactions := Call.actions_plain huncut hpercent
  rw [next_call hc]
  rw [hc] at hturn hactions hqueued
  have hturn := hturn _ rfl
  have hcut : cut = [] := by
    apply ht.still
    intro j
    by_cases hj : j = i
    · rw [hj, hidle]
    · exact hturn j hj
  subst hcut
  constructor
  · apply hplain.issue.perform
    · intro b hb
      exact ⟨hactions b (List.mem_cons_of_mem _ hb), hqueued b (List.mem_cons_of_mem _ hb)⟩
    · exact hactions _ List.mem_cons_self
  · have hmine : Turn (s.issue i c) l [] i := by
      refine ⟨ht.stream, ht.uncut, hturn, ?_⟩
      intro j hj
      rw [issue_issued_of_ne hj]
      exact ht.idle j (hturn j hj)
    apply hmine.perform_queue (c := c)
    refine ⟨huncut, ?_, ?_⟩
    · rw [issue_issued_self, ht.idle i hidle]
    · rw [← hc]
      rfl

theorem inv_call (h : Inv s) (he : (system T).Enabled s (.call i c))
    (ho : Orderly s (.call i c)) : Inv ((system T).next s (.call i c)) := by
  rcases c.actions_shape with ⟨text, hc⟩ | ⟨hne, hqueued⟩
  · exact inv_call_direct h he ho hc
  · obtain ⟨a, rest, hc⟩ := List.exists_cons_of_ne_nil hne
    obtain ⟨buff, rfl⟩ := hqueued a (hc ▸ List.mem_cons_self)
    exact inv_call_queued h he ho hc hqueued

theorem inv_send (h : Inv s) (he : (system T).Enabled s (.send i))
    (ho : Orderly s (.send i)) : Inv ((system T).next s (.send i)) := by
  obtain ⟨hplain, l, cut, ht⟩ := h
  obtain ⟨a, rest, hsending⟩ := List.exists_cons_of_ne_nil he.1
  rw [next_send hsending]
  obtain ⟨c, hc⟩ := ht.telling i he.1
  have hplaini := hplain.sending i
  rw [hsending] at hc hplaini
  obtain ⟨ha, buff, rfl⟩ := hplaini a List.mem_cons_self
  have hturn := ho _ (by rw [hsending]; rfl)
  constructor
  · apply hplain.perform _ ha
    intro b hb
    exact hplaini b (List.mem_cons_of_mem _ hb)
  · have hmine : Turn s l cut i :=
      ⟨ht.stream, ht.uncut, hturn, fun j hj => ht.idle j (hturn j hj)⟩
    exact hmine.perform_queue hc

theorem inv_step (s : State T) (e : Event T) (h : Inv s) (he : (system T).Enabled s e)
    (ho : Orderly s e) : Inv ((system T).next s e) := by
  cases e with
  | call i c => exact inv_call h he ho
  | send i => exact inv_send h he ho
  | drain =>
    obtain ⟨hplain, l, cut, ht⟩ := h
    obtain ⟨p, queue, hqueue⟩ := List.exists_cons_of_ne_nil he
    exact ⟨hplain.drain hqueue, l, cut, ht.drain hplain hqueue⟩

theorem inv_initial : Inv (system T).initial := by
  refine ⟨⟨by simp [system], by simp [system]⟩, [], [], rfl, by simp, ?_, ?_, fun _ => rfl⟩
  · intro i _
    rfl
  · intro i hi
    exact absurd rfl hi

theorem Inv.whole (h : Inv s) : Whole s := by
  intro hqueue
  obtain ⟨-, l, cut, ht⟩ := h
  have hconsole : s.console = told l ++ cut := by
    rw [← ht.stream, hqueue, List.append_nil]
  refine ⟨l, (cut.map Piece.text).flatten, ?_, ht.idle, ?_, ?_⟩
  · rw [State.consoleText, hconsole, List.map_append, List.flatten_append, told_texts ht.uncut]
  · intro i hi
    obtain ⟨c, hc⟩ := ht.telling i hi
    refine ⟨c, hc.issued, ?_⟩
    rw [← Call.actions_texts hc.uncut, ← pieces_texts i, ← hc.left, List.map_append,
      List.flatten_append]
    exact List.prefix_append _ _
  · intro hstill
    rw [ht.still hstill]
    rfl

end Invariant

/-- While every step is orderly, messages stay whole and each task's in order. -/
theorem messages_whole [DecidableEq T] {h : List (Event T)} {s : State T}
    (hr : (system T).Reached Orderly h s) : Whole s :=
  Inv.whole (hr.invariant inv_initial inv_step)

section Sample

theorem zero_not_mem_ascii_a : 0 ∉ ascii "a" := by decide

def messageA : CString := ⟨ascii "a", zero_not_mem_ascii_a⟩

def messageB : CString := ⟨ascii "b", by decide⟩

theorem actions_messageA : (Call.print messageA).actions = [.xQueueSendToBack (ascii "a")] :=
  doPrint_short (by decide)

def afterPrint [DecidableEq T] (i : T) : State T :=
  ((system T).initial.issue i (.print messageA)).perform i (.xQueueSendToBack (ascii "a")) []

theorem reached_afterPrint [DecidableEq T] (i : T) :
    (system T).Reached Orderly [.call i (.print messageA)] (afterPrint i) := by
  have henabled : (system T).Enabled (system T).initial (.call i (.print messageA)) := by
    refine ⟨rfl, by decide, ?_⟩
    simp [HasRoom, actions_messageA, system, maxQueueLength]
  have horderly : Orderly (system T).initial (.call i (.print messageA)) := by
    refine ⟨trivial, ?_⟩
    simp [InTurn, actions_messageA, system]
  have hr := System.Reached.init.step henabled horderly
  rw [next_call actions_messageA] at hr
  exact hr

/-- A task prints directly once the drain task has shown what another one had sent. -/
theorem messages_whole_sample : ∃ s,
    (system Bool).Reached Orderly [.call true (.print messageA), .drain,
      .call false (.printLineCStr messageB)] s ∧ s.consoleText = ascii "ab\r\n" ∧ Whole s := by
  have hsent := reached_afterPrint true
  have hwaits : (system Bool).Enabled (afterPrint true) .drain := List.cons_ne_nil _ _
  have hdrained := hsent.step hwaits trivial
  have hr := hdrained.step (e := .call false (.printLineCStr messageB)) ?_ ?_
  · exact ⟨_, hr, rfl, messages_whole hr⟩
  · refine ⟨rfl, by decide, ?_⟩
    simp [HasRoom, Call.actions, printLineCStr, printX]
  · refine ⟨trivial, ?_⟩
    intro a ha
    cases Option.mem_some.mp ha
    refine ⟨fun p hp => absurd hp List.not_mem_nil, ?_⟩
    intro p hp
    cases Option.mem_some.mp hp
    rfl

/-- The direct line overtakes the message that the same task has sent before. -/
theorem direct_line_overtakes : ∃ s,
    (system Unit).Run [.call () (.print messageA), .call () (.printLineCStr messageB), .drain]
      s ∧ ¬ Whole s := by
  have hsent : (system Unit).Run _ _ := (reached_afterPrint ()).mono fun _ _ _ => trivial
  have hprinted := hsent.step (e := .call () (.printLineCStr messageB)) ?_ trivial
  · have hwaits : (system Unit).Enabled
        ((system Unit).next (afterPrint ()) (.call () (.printLineCStr messageB))) .drain :=
      List.cons_ne_nil _ _
    have hr := hprinted.step hwaits trivial
    refine ⟨_, hr, ?_⟩
    intro hw
    obtain ⟨l, cut, htext, hsaid, -, hcut⟩ := hw rfl
    have hl : (l.map fun m => m.2.text) = (said l ()).map Call.text := by
      simp [said]
    rw [hcut fun _ => rfl, hl, hsaid () rfl] at htext
    exact absurd htext (by decide)
  · refine ⟨rfl, by decide, ?_⟩
    simp [HasRoom, Call.actions, printLineCStr, printX]

end Sample

end MessageOrder
