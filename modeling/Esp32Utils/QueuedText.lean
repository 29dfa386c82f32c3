import Esp32Utils.DbgConsole

/-! # The text of one task

One task prints messages of any text through the queue. The drain task takes each piece for
a format, so a message comes out as it went in only without a percent sign. -/
namespace QueuedText

open ByteStrings ThreadSafeDbg GuardedRuns DbgConsole

/-- The console of one task, and whether a piece asked for an argument. -/
structure Console where
  state : State Unit
  isUndefined : Bool

/-- The piece that the next iteration of `run` prints is not a defined format. -/
def frontUndefined (s : State Unit) : Bool :=
  s.queue.head?.any fun p => (printfExpand p.text).isNone

def Console.next (s : Console) (e : Event Unit) : Console where
  state := (system Unit).next s.state e
  isUndefined := match e with
    | .drain => s.isUndefined || frontUndefined s.state
    | _ => s.isUndefined

/-- The calls are those of `print`, with any message. -/
def console : System Console (Event Unit) where
  initial := ⟨(system Unit).initial, false⟩
  Enabled s
    | .call i c => (∃ message, c = .print message) ∧ s.state.sending i = [] ∧
        ∀ a ∈ c.actions.head?, HasRoom s.state a
    | .send i => s.state.sending i ≠ [] ∧ ∀ a ∈ (s.state.sending i).head?, HasRoom s.state a
    | .drain => s.state.queue ≠ []
  next := Console.next

def Faithful (s : Console) : Prop :=
  s.isUndefined = false ∧ s.state.consoleText = ((s.state.issued ()).map Call.text).flatten

section Formats

variable {text : Bytes} {texts : List Bytes}

def shown (texts : List Bytes) : Bytes := texts.flatMap fun text => (printfExpand text).getD []

theorem expand_length_le : ((printfExpand text).getD []).length ≤ text.length := by
  cases hf : printfExpand text with
  | none => exact Nat.zero_le _
  | some out => exact (printfExpand_length hf).1

theorem expand_length_lt (h : percent ∈ text) :
    ((printfExpand text).getD []).length < text.length := by
  cases hf : printfExpand text with
  | none => exact List.length_pos_of_mem h
  | some out => exact (printfExpand_length hf).2 h

theorem shown_length_le : (shown texts).length ≤ texts.flatten.length := by
  induction texts with
  | nil => exact le_rfl
  | cons text texts ih =>
    have hle := @expand_length_le text
    simp only [shown, List.flatMap_cons, List.flatten_cons, List.length_append] at ih ⊢
    omega

/-- A percent sign is never shown without a loss. -/
theorem shown_length_lt (h : percent ∈ texts.flatten) :
    (shown texts).length < texts.flatten.length := by
  induction texts with
  | nil => cases h
  | cons text texts ih =>
    rw [List.flatten_cons, List.mem_append] at h
    have hle := @expand_length_le text
    have hrest := @shown_length_le texts
    simp only [shown, List.flatMap_cons, List.flatten_cons, List.length_append] at ih hrest ⊢
    rcases h with h | h
    · have hlt := expand_length_lt h
      omega
    · have hlt := ih h
      omega

theorem shown_plain (h : percent ∉ texts.flatten) : shown texts = texts.flatten := by
  induction texts with
  | nil => rfl
  | cons text texts ih =>
    rw [List.flatten_cons, List.mem_append, not_or] at h
    have hrest := ih h.2
    simp only [shown, List.flatMap_cons, List.flatten_cons] at hrest ⊢
    rw [hrest, printfExpand_eq_self h.1, Option.getD_some]

end Formats

section Invariant

variable {s : State Unit} {s' : Console} {a : Action} {rest : List Action} {texts : List Bytes}

structure Flow (s : Console) (texts : List Bytes) : Prop where
  stream : texts ++ s.state.queue.map Piece.text ++ (s.state.sending ()).map Action.text =
    (s.state.issued ()).flatMap fun c => c.actions.map Action.text
  consoleText : s.state.consoleText = shown texts
  isUndefined : s.isUndefined = texts.any fun text => (printfExpand text).isNone
  queued : ∀ a ∈ s.state.sending (), ∃ buff, a = .xQueueSendToBack buff
  printed : ∀ c ∈ s.state.issued (), ∃ message, c = .print message

theorem perform_stream {buff : Bytes} (hsending : s.sending () = .xQueueSendToBack buff :: rest) :
    (s.perform () (.xQueueSendToBack buff) rest).queue.map Piece.text ++
      ((s.perform () (.xQueueSendToBack buff) rest).sending ()).map Action.text =
        s.queue.map Piece.text ++ (s.sending ()).map Action.text := by
  rw [perform_sending_self, hsending]
  simp [State.perform, Action.text]

theorem Flow.send (h : Flow s' texts) (hne : s'.state.sending () ≠ []) :
    Flow (console.next s' (.send ())) texts := by
  obtain ⟨a, rest, hsending⟩ := List.exists_cons_of_ne_nil hne
  have hqueued := h.queued
  rw [hsending] at hqueued
  obtain ⟨buff, rfl⟩ := hqueued a List.mem_cons_self
  have hnext : (console.next s' (.send ())).state =
      s'.state.perform () (.xQueueSendToBack buff) rest := next_send hsending
  refine ⟨?_, ?_, h.isUndefined, ?_, ?_⟩
  · rw [hnext, List.append_assoc, perform_stream hsending, ← List.append_assoc]
    exact h.stream
  · rw [hnext]
    exact h.consoleText
  · rw [hnext, perform_sending_self]
    intro b hb
    exact hqueued b (List.mem_cons_of_mem _ hb)
  · rw [hnext]
    exact h.printed

theorem Flow.call {message : CString} (h : Flow s' texts) (hidle : s'.state.sending () = []) :
    Flow (console.next s' (.call () (.print message))) texts := by
  have hpieces : ∀ a ∈ (Call.print message).actions, ∃ buff, a = .xQueueSendToBack buff :=
    doPrintLoop_queued
  obtain ⟨a, rest, hactions⟩ := List.exists_cons_of_ne_nil (Call.print message).actions_ne_nil
  rw [hactions] at hpieces
  obtain ⟨buff, rfl⟩ := hpieces a List.mem_cons_self
  have hnext : (console.next s' (.call () (.print message))).state =
      (s'.state.issue () (.print message)).perform () (.xQueueSendToBack buff) rest :=
    next_call hactions
  have hissued : ((s'.state.issue () (.print message)).perform () (.xQueueSendToBack buff)
      rest).issued () = s'.state.issued () ++ [.print message] := by
    rw [perform_issued, issue_issued_self]
  refine ⟨?_, ?_, h.isUndefined, ?_, ?_⟩
  · have hstream := h.stream
    rw [hidle, List.map_nil, List.append_nil] at hstream
    rw [hnext, hissued, List.flatMap_append, ← hstream, perform_sending_self]
    simp [State.perform, State.issue, hactions, Action.text]
  · rw [hnext]
    exact h.consoleText
  · rw [hnext, perform_sending_self]
    intro b hb
    exact hpieces b (List.mem_cons_of_mem _ hb)
  · rw [hnext, hissued]
    intro c hc
    rcases List.mem_append.mp hc with hc | hc
    · exact h.printed c hc
    · exact ⟨message, List.mem_singleton.mp hc⟩

theorem Flow.drain (h : Flow s' texts) (hne : s'.state.queue ≠ []) :
    ∃ text, Flow (console.next s' .drain) (texts ++ [text]) := by
  obtain ⟨p, queue, hqueue⟩ := List.exists_cons_of_ne_nil hne
  have hnext : (console.next s' .drain).state = { s'.state with
      queue := queue
      console := s'.state.console ++
        (printfExpand p.text).toList.map fun text => { p with text := text } } := by
    change s'.state.drain = _
    rw [State.drain, hqueue]
  refine ⟨p.text, ?_, ?_, ?_, ?_, ?_⟩
  · have hstream := h.stream
    rw [hqueue, List.map_cons] at hstream
    rw [hnext, ← hstream]
    simp only [List.append_assoc, List.cons_append, List.nil_append]
  · have hconsole := h.consoleText
    rw [State.consoleText] at hconsole
    rw [hnext, State.consoleText, List.map_append, List.flatten_append, hconsole, shown, shown,
      List.flatMap_append, List.flatMap_singleton]
    cases printfExpand p.text with
    | none => rfl
    | some out => simp
  · change (s'.isUndefined || frontUndefined s'.state) = _
    rw [h.isUndefined, frontUndefined, hqueue, List.any_append]
    simp
  · rw [hnext]
    exact h.queued
  · rw [hnext]
    exact h.printed

theorem flow_step (s : Console) (e : Event Unit) (h : ∃ texts, Flow s texts)
    (he : console.Enabled s e) (_ : True) : ∃ texts, Flow (console.next s e) texts := by
  obtain ⟨texts, hf⟩ := h
  cases e with
  | call i c =>
    obtain ⟨⟨message, rfl⟩, hidle, -⟩ := he
    exact ⟨texts, hf.call hidle⟩
  | send i => exact ⟨texts, hf.send he.1⟩
  | drain =>
    obtain ⟨text, hd⟩ := hf.drain he
    exact ⟨_, hd⟩

theorem flow_initial : Flow console.initial [] :=
  ⟨rfl, rfl, rfl, fun _ h => absurd h List.not_mem_nil, fun _ h => absurd h List.not_mem_nil⟩

theorem pieces_text {calls : List Call} (h : ∀ c ∈ calls, ∃ message, c = .print message) :
    (calls.flatMap fun c => c.actions.map Action.text).flatten = (calls.map Call.text).flatten := by
  induction calls with
  | nil => rfl
  | cons c calls ih =>
    obtain ⟨message, rfl⟩ := h c List.mem_cons_self
    rw [List.flatMap_cons, List.flatten_append, List.map_cons, List.flatten_cons,
      ih fun c hc => h c (List.mem_cons_of_mem _ hc)]
    congr 1
    exact Call.actions_texts trivial

end Invariant

/-- Once everything is sent and printed, the console shows the messages exactly when none
of them holds a percent sign. -/
theorem faithful_iff {h : List (Event Unit)} {s : Console} (hr : console.Run h s)
    (hsent : s.state.sending () = []) (hprinted : s.state.queue = []) :
    Faithful s ↔ ∀ c ∈ s.state.issued (), percent ∉ c.text := by
  obtain ⟨texts, hf⟩ := hr.invariant ⟨[], flow_initial⟩ flow_step
  have hstream := hf.stream
  rw [hsent, hprinted, List.map_nil, List.map_nil, List.append_nil, List.append_nil] at hstream
  have htext : texts.flatten = ((s.state.issued ()).map Call.text).flatten := by
    rw [hstream, pieces_text hf.printed]
  have hplain : percent ∉ texts.flatten ↔ ∀ c ∈ s.state.issued (), percent ∉ c.text := by
    simp [htext]
  rw [Faithful, hf.consoleText, hf.isUndefined, ← htext, ← hplain]
  constructor
  · intro hfaithful hmem
    have hlt := shown_length_lt hmem
    rw [hfaithful.2] at hlt
    omega
  · intro hno
    refine ⟨?_, shown_plain hno⟩
    rw [List.any_eq_false]
    intro text ht
    rw [printfExpand_eq_self fun hp => hno (List.mem_flatten.mpr ⟨text, ht, hp⟩)]
    exact Bool.false_ne_true

section Sample

def doubledPercent : CString := ⟨ascii "%%", by decide⟩

theorem actions_short {message : CString} (h : message.bytes.length ≤ maxMsgLength) :
    (Call.print message).actions = [.xQueueSendToBack message.bytes] :=
  doPrint_short h

theorem run_short {message : CString} (h : message.bytes.length ≤ maxMsgLength) :
    ∃ s, console.Run [.call () (.print message), .drain] s ∧ s.state.sending () = [] ∧
      s.state.queue = [] ∧ s.state.issued () = [.print message] ∧
      s.state.consoleText = (printfExpand message.bytes).getD [] := by
  have hactions := actions_short h
  have hcall : console.Enabled console.initial (.call () (.print message)) := by
    refine ⟨⟨message, rfl⟩, rfl, ?_⟩
    simp [HasRoom, hactions, console, system, maxQueueLength]
  have hnext : (console.next console.initial (.call () (.print message))).state =
      ((system Unit).initial.issue () (.print message)).perform ()
        (.xQueueSendToBack message.bytes) [] := next_call hactions
  have hdrain : console.Enabled (console.next console.initial (.call () (.print message)))
      .drain := by
    change (console.next console.initial (.call () (.print message))).state.queue ≠ []
    rw [hnext]
    exact List.cons_ne_nil _ _
  refine ⟨_, (System.Reached.init.step hcall trivial).step hdrain trivial, ?_⟩
  change (State.drain _).sending () = [] ∧ (State.drain _).queue = [] ∧
    (State.drain _).issued () = _ ∧ (State.drain _).consoleText = _
  rw [hnext]
  refine ⟨rfl, rfl, rfl, ?_⟩
  cases hf : printfExpand message.bytes with
  | none => simp [State.drain, State.perform, State.issue, State.consoleText, system, hf]
  | some out => simp [State.drain, State.perform, State.issue, State.consoleText, system, hf]

theorem faithful_sample : ∃ s, console.Run [.call () (.print newLn), .drain] s ∧ Faithful s := by
  obtain ⟨s, hr, hsent, hprinted, hissued, -⟩ := @run_short newLn (by decide)
  refine ⟨s, hr, (faithful_iff hr hsent hprinted).mpr ?_⟩
  rw [hissued]
  simp [Call.text, newLn, percent, ascii]

/-- Of two percent signs one is shown. -/
theorem doubled_percent_shown_once : ∃ h s, console.Run h s ∧ s.state.sending () = [] ∧
    s.state.queue = [] ∧ s.state.issued () = [.print doubledPercent] ∧
    s.state.consoleText = ascii "%" ∧ ¬ Faithful s := by
  obtain ⟨s, hr, hsent, hprinted, hissued, htext⟩ :=
    @run_short doubledPercent (by decide)
  have hshown : s.state.consoleText = ascii "%" := by
    rw [htext]
    decide
  refine ⟨_, s, hr, hsent, hprinted, hissued, hshown, ?_⟩
  intro hfaithful
  rw [Faithful, hshown, hissued] at hfaithful
  exact absurd hfaithful.2 (by decide)

end Sample

end QueuedText
