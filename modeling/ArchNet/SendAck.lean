import ArchNet.Lts
import ArchNet.MuxStream
import Mathlib.Data.List.Nodup

/-!
# The Acknowledgement of a Send

`send` queues a task that writes the Data frame and then waits on `send_done_notify_` for the
token that this task pushes. All the calls on a stream wait on the one channel, and a token does
not say which call it is for. This module follows calls, tasks and tokens of one stream.

## Conventions

* Calls are numbered; a waiting call is woken in any order, or gives up by its timeout. The tasks
  are run one after the other by the send fiber, in the order in which they were queued, until
  one of them fails.
* The frame of a call has been written when the `send_message` of its task has returned 1.
* The end of a stream — a frame with FIN or RST, `set_close`, `close()` — pushes a null token that
  belongs to no call.
* `queued`, `taken`, `written` and `returns` are histories.

## Main results

* `Ordered.step`: **the tokens come in the order of the calls** — taken, on the channel, due from
  the running task and from the queued ones, they are the calls in the order of their tasks.
* `acknowledged_iff`: a run keeps every acknowledgement with its call **exactly if each call that
  takes a completion token is in turn**, and no empty call meets an empty window.
-/

open Lts

namespace ArchNet.SendAck

/-- A `send` call that has returned: its number and size, its result, the call whose completion
token it took, and whether its own frame had been written by then. -/
structure Return where
  ticket : ℕ
  count : ℕ
  ret : ℤ
  token : Option ℕ
  written : Bool
  deriving DecidableEq, Repr

/-- A stream with its tasks on `send_chan_`, the task inside `send_message`, whether the send
loop has ended, and the histories. -/
structure Sender where
  stream : MuxStream
  tasks : List (ℕ × ℕ) := []
  running : Option ℕ := none
  stopped : Bool := false
  tickets : ℕ := 0
  queued : List ℕ := []
  taken : List ℕ := []
  written : List ℕ := []
  returns : List Return := []
  deriving DecidableEq, Repr

/-- The steps of the callers, of the send fiber, and of the end of the stream. -/
inductive Action
  | send (count : ℕ)
  | wake (i : ℕ)
  | timeout (i : ℕ)
  | runTask
  | endTask (ok : Bool)
  | windowUpdate (hdr : Header)
  | setClose
  | closeCall
  | finDone
  | closeFin
  deriving DecidableEq, Repr

namespace Sender

/-- A call returns: its result and its token are those of the stream's log. -/
def note (s : Sender) (st : MuxStream) (ticket count : ℕ) : Sender :=
  let (ret, token) := (st.sendLog.getLast?.map Prod.snd).getD (0, none)
  { s with
    stream := st
    returns := s.returns ++ [⟨ticket, count, ret, token, decide (ticket ∈ s.written)⟩] }

/-- `send()`: a task is queued, or the call returns at once. -/
def send (s : Sender) (count : ℕ) : Sender :=
  match s.stream.sendCall s.tickets count with
  | (true, st) => { s with
      stream := st
      tasks := s.tasks ++ [(s.tickets, count)]
      tickets := s.tickets + 1
      queued := s.queued ++ [s.tickets] }
  | (false, st) => { s.note st s.tickets count with tickets := s.tickets + 1 }

/-- The `i`-th waiting call takes the next token. -/
def wake (s : Sender) (i : ℕ) : Option Sender :=
  match s.stream.senders[i]?, s.stream.sendDone with
  | some (ticket, count), tok :: _ =>
      (s.stream.sendWake i).map fun st =>
        { s.note st ticket count with taken := s.taken ++ tok.call.toList }
  | _, _ => none

/-- The `i`-th waiting call gives up. -/
def timeout (s : Sender) (i : ℕ) : Option Sender :=
  match s.stream.senders[i]? with
  | some (ticket, count) => (s.stream.sendTimeout i).map fun st => s.note st ticket count
  | none => none

/-- The send fiber takes the next task, up to its `send_message`. -/
def runTask (s : Sender) : Option Sender :=
  match s.tasks with
  | (ticket, count) :: rest =>
      if s.running = none ∧ s.stopped = false then
        match s.stream.sendTask ticket count with
        | (none, st) => some { s with stream := st, tasks := rest }
        | (some _, st) => some { s with stream := st, tasks := rest, running := some ticket }
      else none
  | [] => none

/-- `send_message` has returned 1, or -1, which ends the send loop. -/
def endTask (s : Sender) (ok : Bool) : Option Sender :=
  s.running.map fun ticket => { s with
    stream := s.stream.sendTaskDone ticket ok
    running := none
    stopped := !ok
    written := if ok then s.written ++ [ticket] else s.written }

end Sender

/-- One step. -/
def step (s : Sender) : Action → Option Sender
  | .send count => some (s.send count)
  | .wake i => s.wake i
  | .timeout i => s.timeout i
  | .runTask => s.runTask
  | .endTask ok => s.endTask ok
  | .windowUpdate hdr => (s.stream.increaseSendWindow hdr).map fun st => { s with stream := st }
  | .setClose => some { s with stream := s.stream.setClose }
  | .closeCall => some { s with stream := s.stream.closeCall.2 }
  | .finDone =>
      -- the task of the FIN frame runs between those of the calls
      if s.running = none ∧ s.stopped = false then some { s with stream := s.stream.finDone }
      else none
  | .closeFin =>
      if s.stream.owner = .finSent then some { s with stream := s.stream.closeFin } else none

/-- A stream without any call yet, in any state. -/
def fresh (id : UInt32) (state : StreamState) (window : UInt32) : Sender :=
  { stream := { id := id, state := state, sendWindow := window } }

/-- **Every acknowledgement is the call's own**: a call that returns `count` has had its frame
written by then, and a completion token is taken by the call it was pushed for. -/
structure Acknowledged (s : Sender) : Prop where
  written : ∀ r ∈ s.returns, r.ret = r.count → r.written = true
  own : ∀ r ∈ s.returns, ∀ t, r.token = some t → t = r.ticket

/-- The step is **in turn**: a call that takes a completion token does so after as many of them
have been taken as calls were queued before it, and no call of no bytes meets an empty window. -/
def inTurn (s : Sender) : Action → Bool
  | .send count => !(count = 0 && s.stream.sendWindow = 0 && !s.stream.state.isShut)
  | .wake i =>
      match s.stream.senders[i]?, s.stream.sendDone with
      | some (ticket, _), tok :: _ => tok.call = none || s.queued.idxOf ticket = s.taken.length
      | _, _ => true
  | _ => true

/-- The calls whose completion tokens are on the channel. -/
def tokenCalls (tokens : List Token) : List ℕ := tokens.filterMap Token.call

/-- **The invariant**: completion tokens taken, on the channel and to come are the calls in the
order of their tasks, and a token of success is for a call whose frame has been written. -/
structure Ordered (s : Sender) : Prop where
  order : s.taken ++ tokenCalls s.stream.sendDone ++ s.running.toList ++ s.tasks.map Prod.fst =
    s.queued
  nodup : s.queued.Nodup
  lt : ∀ t ∈ s.queued, t < s.tickets
  senders : ∀ x ∈ s.stream.senders, x.1 ∈ s.queued
  tokens : ∀ tok ∈ s.stream.sendDone, tok.ok = true → ∃ t, tok.call = some t ∧ t ∈ s.written
  written : ∀ t ∈ s.written, t ∈ s.queued

variable {s s' : Sender}

/-! ### The channel -/

/-- A step that may push a null token of the stream's end. -/
structure Ends (st st' : MuxStream) : Prop where
  sendDone : st'.sendDone = st.sendDone ∨ st'.sendDone = st.sendDone ++ [⟨false, none⟩]
  senders : st'.senders = st.senders

theorem tokenCalls_append (l₁ l₂ : List Token) :
    tokenCalls (l₁ ++ l₂) = tokenCalls l₁ ++ tokenCalls l₂ :=
  List.filterMap_append

/-- A token of failure says nothing about the frames. -/
theorem Ordered.tokens_concat (h : Ordered s) (call : Option ℕ) :
    ∀ tok ∈ s.stream.sendDone ++ [⟨false, call⟩], tok.ok = true →
      ∃ t, tok.call = some t ∧ t ∈ s.written := by
  intro tok htok hok
  rcases List.mem_append.mp htok with htok | htok
  · exact h.tokens tok htok hok
  · obtain rfl := List.mem_singleton.mp htok
    cases hok

/-- The end of a stream is no completion. -/
theorem Ordered.ends {st : MuxStream} (h : Ordered s) (hends : Ends s.stream st) :
    Ordered { s with stream := st } where
  order := by
    have hcalls : tokenCalls st.sendDone = tokenCalls s.stream.sendDone := by
      rcases hends.sendDone with heq | heq
      · rw [heq]
      · rw [heq, tokenCalls_append]
        exact List.append_nil _
    rw [hcalls]
    exact h.order
  nodup := h.nodup
  lt := h.lt
  senders := by
    rw [hends.senders]
    exact h.senders
  tokens := by
    rcases hends.sendDone with heq | heq
    · rw [heq]
      exact h.tokens
    · rw [heq]
      exact h.tokens_concat none
  written := h.written

theorem ends_increaseSendWindow {st st' : MuxStream} {hdr : Header}
    (h : st.increaseSendWindow hdr = some st') : Ends st st' := by
  obtain ⟨⟨close, st₁⟩, hflags, rfl⟩ := Option.map_eq_some_iff.mp h
  obtain ⟨x, rfl⟩ := MuxStream.processFlags_frame hflags
  cases close with
  | false => exact ⟨.inl rfl, rfl⟩
  | true => exact ⟨.inr rfl, rfl⟩

theorem ends_closeCall (st : MuxStream) : Ends st st.closeCall.2 := by
  cases hstate : st.state <;> simp only [MuxStream.closeCall, hstate, MuxStream.sendFlags]
  case remoteClose => exact ⟨.inr rfl, rfl⟩
  all_goals exact ⟨.inl rfl, rfl⟩

/-! ### What each step does -/

/-- The result and the token of a return are the last ones logged. -/
theorem note_of_append {st : MuxStream} {ticket count t : ℕ} {ret : ℤ} {token : Option ℕ}
    {log : List (ℕ × ℤ × Option ℕ)} (h : st.sendLog = log ++ [(t, ret, token)]) :
    s.note st ticket count = { s with
      stream := st
      returns := s.returns ++ [⟨ticket, count, ret, token, decide (ticket ∈ s.written)⟩] } := by
  simp [Sender.note, h]

/-- What `send` does: it queues a task for a call that then waits, or refuses. -/
theorem send_cases (s : Sender) (count : ℕ) :
    (∃ st, s.stream.state.isShut = false ∧ s.stream.sendWindow ≠ 0 ∧
      st.sendDone = s.stream.sendDone ∧
      st.senders = s.stream.senders ++ [(s.tickets, count)] ∧
      s.send count = { s with
        stream := st
        tasks := s.tasks ++ [(s.tickets, count)]
        tickets := s.tickets + 1
        queued := s.queued ++ [s.tickets] }) ∨
    (∃ st ret, st.sendDone = s.stream.sendDone ∧ st.senders = s.stream.senders ∧
      (s.stream.state.isShut = true ∧ ret = -1 ∨
        s.stream.state.isShut = false ∧ s.stream.sendWindow = 0 ∧ ret = 0) ∧
      s.send count = { s with
        stream := st
        tickets := s.tickets + 1
        returns := s.returns ++
          [⟨s.tickets, count, ret, none, decide (s.tickets ∈ s.written)⟩] }) := by
  rw [Sender.send, MuxStream.sendCall]
  by_cases hshut : s.stream.state.isShut = true
  · rw [if_pos hshut]
    refine .inr ⟨{ s.stream with sendLog := s.stream.sendLog ++ [(s.tickets, -1, none)] }, -1,
      rfl, rfl, .inl ⟨hshut, rfl⟩, ?_⟩
    dsimp only
    rw [note_of_append rfl]
  · rw [if_neg hshut]
    rw [Bool.not_eq_true] at hshut
    by_cases hwindow : s.stream.sendWindow = 0
    · rw [if_pos hwindow]
      refine .inr ⟨{ s.stream with sendLog := s.stream.sendLog ++ [(s.tickets, 0, none)] }, 0,
        rfl, rfl, .inr ⟨hshut, hwindow, rfl⟩, ?_⟩
      dsimp only
      rw [note_of_append rfl]
    · rw [if_neg hwindow]
      exact .inl ⟨{ s.stream with senders := s.stream.senders ++ [(s.tickets, count)] }, hshut,
        hwindow, rfl, rfl, rfl⟩

/-- What a wake-up does. -/
theorem wake_cases {i : ℕ} (h : s.wake i = some s') :
    ∃ ticket count tok toks st, s.stream.senders[i]? = some (ticket, count) ∧
      s.stream.sendDone = tok :: toks ∧ st.sendDone = toks ∧
      st.senders = s.stream.senders.eraseIdx i ∧
      s' = { s with
        stream := st
        taken := s.taken ++ tok.call.toList
        returns := s.returns ++ [⟨ticket, count, if tok.ok then count else -1, tok.call,
          decide (ticket ∈ s.written)⟩] } := by
  cases hsender : s.stream.senders[i]? with
  | none =>
      rw [Sender.wake, hsender] at h
      cases h
  | some x =>
      obtain ⟨ticket, count⟩ := x
      cases hdone : s.stream.sendDone with
      | nil =>
          rw [Sender.wake, hsender, hdone] at h
          cases h
      | cons tok toks =>
          simp only [Sender.wake, MuxStream.sendWake, hsender, hdone, Option.map_some,
            Option.some.injEq] at h
          refine ⟨ticket, count, tok, toks, { s.stream with
            senders := s.stream.senders.eraseIdx i
            sendDone := toks
            sendLog := s.stream.sendLog ++
              [(ticket, if tok.ok then (count : ℤ) else -1, tok.call)] },
            rfl, rfl, rfl, rfl, h.symm.trans ?_⟩
          rw [note_of_append rfl]

/-- What a timeout does. -/
theorem timeout_cases {i : ℕ} (h : s.timeout i = some s') :
    ∃ ticket count st, st.sendDone = s.stream.sendDone ∧
      st.senders = s.stream.senders.eraseIdx i ∧
      s' = { s with
        stream := st
        returns := s.returns ++ [⟨ticket, count, -1, none, decide (ticket ∈ s.written)⟩] } := by
  cases hsender : s.stream.senders[i]? with
  | none =>
      rw [Sender.timeout, hsender] at h
      cases h
  | some x =>
      obtain ⟨ticket, count⟩ := x
      simp only [Sender.timeout, MuxStream.sendTimeout, hsender, Option.map_some,
        Option.some.injEq] at h
      refine ⟨ticket, count, { s.stream with
        senders := s.stream.senders.eraseIdx i
        sendLog := s.stream.sendLog ++ [(ticket, -1, none)] }, rfl, rfl, h.symm.trans ?_⟩
      rw [note_of_append rfl]

/-- What the send fiber does with the next task: it pushes the token of a call that came too
late, or goes into `send_message`. -/
theorem runTask_cases (h : s.runTask = some s') :
    ∃ ticket count rest st, s.tasks = (ticket, count) :: rest ∧ s.running = none ∧
      st.senders = s.stream.senders ∧
      (st.sendDone = s.stream.sendDone ++ [⟨false, some ticket⟩] ∧
          s' = { s with stream := st, tasks := rest } ∨
        st.sendDone = s.stream.sendDone ∧
          s' = { s with stream := st, tasks := rest, running := some ticket }) := by
  cases htasks : s.tasks with
  | nil =>
      rw [Sender.runTask, htasks] at h
      cases h
  | cons task rest =>
      obtain ⟨ticket, count⟩ := task
      simp only [Sender.runTask, htasks, MuxStream.sendTask] at h
      split_ifs at h with hidle hshut
      · obtain rfl := Option.some.inj h
        exact ⟨ticket, count, rest, { s.stream with
          sendDone := s.stream.sendDone ++ [⟨false, some ticket⟩] }, rfl, hidle.1, rfl,
          .inl ⟨rfl, rfl⟩⟩
      · obtain rfl := Option.some.inj h
        obtain ⟨x, hx⟩ := s.stream.sendFlags_frame
        refine ⟨ticket, count, rest, s.stream.sendFlags.2, rfl, hidle.1, ?_, .inr ⟨?_, rfl⟩⟩
        · rw [hx]
        · rw [hx]

/-- What the end of a task does: it pushes the token of its call. -/
theorem endTask_cases {ok : Bool} (h : s.endTask ok = some s') :
    ∃ ticket, s.running = some ticket ∧ s' = { s with
      stream := { s.stream with sendDone := s.stream.sendDone ++ [⟨ok, some ticket⟩] }
      running := none
      stopped := !ok
      written := if ok then s.written ++ [ticket] else s.written } := by
  obtain ⟨ticket, hrunning, rfl⟩ := Option.map_eq_some_iff.mp h
  exact ⟨ticket, hrunning, rfl⟩

/-! ### The order of the tokens -/

/-- A call that waits no longer is one of those that did. -/
theorem Ordered.senders_eraseIdx (h : Ordered s) (i : ℕ) :
    ∀ x ∈ s.stream.senders.eraseIdx i, x.1 ∈ s.queued :=
  fun x hx => h.senders x (List.mem_of_mem_eraseIdx hx)

theorem Ordered.send (h : Ordered s) (count : ℕ) : Ordered (s.send count) := by
  rcases send_cases s count with
    ⟨st, -, -, hdone, hsenders, heq⟩ | ⟨st, ret, hdone, hsenders, -, heq⟩
  · rw [heq]
    refine ⟨?_, ?_, ?_, ?_, ?_, ?_⟩
    · rw [hdone, List.map_append, ← List.append_assoc, h.order]
      rfl
    · rw [List.nodup_append]
      refine ⟨h.nodup, List.nodup_singleton _, ?_⟩
      intro t ht u hu
      have hlt := h.lt t ht
      rw [List.mem_singleton.mp hu]
      omega
    · intro t ht
      rcases List.mem_append.mp ht with ht | ht
      · exact Nat.lt_succ_of_lt (h.lt t ht)
      · rw [List.mem_singleton.mp ht]
        exact Nat.lt_succ_self _
    · intro x hx
      rw [hsenders] at hx
      rcases List.mem_append.mp hx with hx | hx
      · exact List.mem_append_left _ (h.senders x hx)
      · rw [List.mem_singleton.mp hx]
        exact List.mem_append_right _ (List.mem_singleton_self _)
    · rw [hdone]
      exact h.tokens
    · exact fun t ht => List.mem_append_left _ (h.written t ht)
  · rw [heq]
    refine ⟨?_, h.nodup, fun t ht => Nat.lt_succ_of_lt (h.lt t ht), ?_, ?_, h.written⟩
    · rw [hdone]
      exact h.order
    · rw [hsenders]
      exact h.senders
    · rw [hdone]
      exact h.tokens

theorem Ordered.wake {i : ℕ} (h : Ordered s) (hs : s.wake i = some s') : Ordered s' := by
  obtain ⟨ticket, count, tok, toks, st, -, hdone, hdone', hsenders, rfl⟩ := wake_cases hs
  refine ⟨?_, h.nodup, h.lt, ?_, ?_, h.written⟩
  · rw [← h.order, hdone, hdone']
    cases hcall : tok.call <;> simp [tokenCalls, hcall]
  · exact hsenders ▸ h.senders_eraseIdx i
  · intro t ht hok
    refine h.tokens t ?_ hok
    rw [hdone]
    exact List.mem_cons_of_mem _ (hdone' ▸ ht)

theorem Ordered.timeout {i : ℕ} (h : Ordered s) (hs : s.timeout i = some s') : Ordered s' := by
  obtain ⟨ticket, count, st, hdone, hsenders, rfl⟩ := timeout_cases hs
  refine ⟨?_, h.nodup, h.lt, ?_, ?_, h.written⟩
  · rw [hdone]
    exact h.order
  · exact hsenders ▸ h.senders_eraseIdx i
  · rw [hdone]
    exact h.tokens

/-- The call of the first task becomes the running one, or its token of failure is pushed. -/
theorem Ordered.runTask (h : Ordered s) (hs : s.runTask = some s') : Ordered s' := by
  obtain ⟨ticket, count, rest, st, htasks, hrunning, hsenders, hcase⟩ := runTask_cases hs
  have horder := h.order
  rw [htasks, hrunning] at horder
  rcases hcase with ⟨hdone, rfl⟩ | ⟨hdone, rfl⟩
  · refine ⟨?_, h.nodup, h.lt, ?_, ?_, h.written⟩
    · rw [hdone, hrunning, ← horder, tokenCalls_append]
      simp [tokenCalls]
    · rw [hsenders]
      exact h.senders
    · rw [hdone]
      exact h.tokens_concat (some ticket)
  · refine ⟨?_, h.nodup, h.lt, ?_, ?_, h.written⟩
    · rw [hdone, ← horder]
      simp
    · rw [hsenders]
      exact h.senders
    · rw [hdone]
      exact h.tokens

/-- The running call's token is pushed; where it says success, the frame has been written. -/
theorem Ordered.endTask {ok : Bool} (h : Ordered s) (hs : s.endTask ok = some s') :
    Ordered s' := by
  obtain ⟨ticket, hrunning, rfl⟩ := endTask_cases hs
  have horder := h.order
  rw [hrunning] at horder
  have hqueued : ticket ∈ s.queued := by
    rw [← horder]
    simp
  refine ⟨?_, h.nodup, h.lt, h.senders, ?_, ?_⟩
  · rw [← horder, tokenCalls_append]
    simp [tokenCalls]
  · cases ok with
    | false => exact h.tokens_concat (some ticket)
    | true =>
        intro tok htok hok
        rcases List.mem_append.mp htok with htok | htok
        · obtain ⟨t, hcall, ht⟩ := h.tokens tok htok hok
          exact ⟨t, hcall, List.mem_append_left _ ht⟩
        · obtain rfl := List.mem_singleton.mp htok
          exact ⟨ticket, rfl, List.mem_append_right _ (List.mem_singleton_self _)⟩
  · cases ok with
    | false => exact h.written
    | true =>
        intro t ht
        rcases List.mem_append.mp ht with ht | ht
        · exact h.written t ht
        · exact List.mem_singleton.mp ht ▸ hqueued

/-- **Every step keeps the order of the tokens.** -/
theorem Ordered.step {a : Action} (h : Ordered s) (hs : step s a = some s') : Ordered s' := by
  cases a with
  | send count => exact Option.some.inj hs ▸ h.send count
  | wake i => exact h.wake hs
  | timeout i => exact h.timeout hs
  | runTask => exact h.runTask hs
  | endTask ok => exact h.endTask hs
  | windowUpdate hdr =>
      obtain ⟨st, hst, rfl⟩ := Option.map_eq_some_iff.mp hs
      exact h.ends (ends_increaseSendWindow hst)
  | setClose => exact Option.some.inj hs ▸ h.ends ⟨.inr rfl, rfl⟩
  | closeCall => exact Option.some.inj hs ▸ h.ends (ends_closeCall _)
  | finDone =>
      obtain ⟨-, hs⟩ := Option.ite_none_right_eq_some.mp hs
      exact Option.some.inj hs ▸ h.ends ⟨.inl rfl, rfl⟩
  | closeFin =>
      obtain ⟨-, hs⟩ := Option.ite_none_right_eq_some.mp hs
      exact Option.some.inj hs ▸ h.ends ⟨.inr rfl, rfl⟩

/-! ### The acknowledgements -/

/-- A step after which no other call has returned. -/
theorem acknowledged_of_eq (h : s'.returns = s.returns) : Acknowledged s' ↔ Acknowledged s := by
  constructor
  · rintro ⟨hwritten, hown⟩
    exact ⟨h ▸ hwritten, h ▸ hown⟩
  · rintro ⟨hwritten, hown⟩
    exact ⟨h.symm ▸ hwritten, h.symm ▸ hown⟩

/-- A step after which one more call has returned. -/
theorem acknowledged_of_append {r : Return} (h : s'.returns = s.returns ++ [r]) :
    Acknowledged s' ↔ Acknowledged s ∧ (r.ret = r.count → r.written = true) ∧
      ∀ t, r.token = some t → t = r.ticket := by
  constructor
  · rintro ⟨hwritten, hown⟩
    rw [h] at hwritten hown
    have hr : r ∈ s.returns ++ [r] := List.mem_append_right _ (List.mem_singleton_self r)
    refine ⟨⟨?_, ?_⟩, hwritten r hr, hown r hr⟩
    · exact fun q hq => hwritten q (List.mem_append_left _ hq)
    · exact fun q hq => hown q (List.mem_append_left _ hq)
  · rintro ⟨⟨hwritten, hown⟩, hret, htoken⟩
    constructor
    · intro q hq
      rw [h] at hq
      rcases List.mem_append.mp hq with hq | hq
      · exact hwritten q hq
      · exact List.mem_singleton.mp hq ▸ hret
    · intro q hq
      rw [h] at hq
      rcases List.mem_append.mp hq with hq | hq
      · exact hown q hq
      · exact List.mem_singleton.mp hq ▸ htoken

/-- **The next completion token is the call's own exactly if the call is in turn.** -/
theorem Ordered.own_iff (h : Ordered s) {ticket t : ℕ} {tok : Token} {toks : List Token}
    (hticket : ticket ∈ s.queued) (hdone : s.stream.sendDone = tok :: toks)
    (hcall : tok.call = some t) : t = ticket ↔ s.queued.idxOf ticket = s.taken.length := by
  have horder := h.order
  have hcalls : tokenCalls (tok :: toks) = t :: tokenCalls toks := List.filterMap_cons_some hcall
  rw [hdone, hcalls, List.append_assoc, List.append_assoc, List.cons_append] at horder
  have hnodup := h.nodup
  rw [← horder] at hnodup hticket ⊢
  constructor
  · rintro rfl
    have hnot : t ∉ s.taken := by
      intro ht
      exact (List.nodup_append.mp hnodup).2.2 t ht t List.mem_cons_self rfl
    rw [List.idxOf_append_of_notMem hnot, List.idxOf_cons_self, Nat.add_zero]
  · intro hidx
    have hlt := List.idxOf_lt_length_of_mem hticket
    have hget := List.getElem_idxOf hlt
    simp only [hidx] at hget
    rw [List.getElem_append_right (Nat.le_refl _)] at hget
    simpa using hget

/-- A step after which no other call has returned, and which is in turn. -/
theorem acknowledged_of_inTurn {a : Action} (hreturns : s'.returns = s.returns)
    (hturn : inTurn s a = true) : Acknowledged s' ↔ Acknowledged s ∧ inTurn s a = true := by
  rw [acknowledged_of_eq hreturns]
  exact (and_iff_left hturn).symm

/-- A call that returns at once is acknowledged unless it asked for no bytes. -/
theorem Ordered.acknowledged_send (h : Ordered s) (count : ℕ) :
    Acknowledged (s.send count) ↔ Acknowledged s ∧ inTurn s (.send count) = true := by
  rcases send_cases s count with
    ⟨st, hshut, hwindow, -, -, heq⟩ | ⟨st, ret, -, -, hret, heq⟩
  · exact acknowledged_of_inTurn (by rw [heq]) (by simp [inTurn, hwindow])
  · have hnew : s.tickets ∉ s.written := by
      intro hmem
      exact Nat.lt_irrefl _ (h.lt _ (h.written _ hmem))
    rw [acknowledged_of_append (by rw [heq])]
    rcases hret with ⟨hshut, rfl⟩ | ⟨hshut, hwindow, rfl⟩
    · simp only [inTurn, hshut, Bool.not_true, Bool.and_false, Bool.not_false, and_true]
      refine and_iff_left ⟨?_, nofun⟩
      intro hcount
      omega
    · simp only [inTurn, hshut, hwindow, hnew, decide_true, Bool.not_false, Bool.and_true,
        decide_false, Bool.false_eq_true, Bool.not_eq_true', decide_eq_false_iff_not]
      refine and_congr_right fun _ => ⟨?_, ?_⟩
      · rintro ⟨hcount, -⟩ rfl
        exact hcount rfl
      · intro hcount
        refine ⟨?_, nofun⟩
        intro hzero
        exact hcount (by omega)

/-- A call that takes a token is acknowledged if the token is a null one, or its own. -/
theorem Ordered.acknowledged_wake (h : Ordered s) {i : ℕ} (hs : s.wake i = some s') :
    Acknowledged s' ↔ Acknowledged s ∧ inTurn s (.wake i) = true := by
  obtain ⟨ticket, count, tok, toks, st, hsender, hdone, -, -, rfl⟩ := wake_cases hs
  rw [acknowledged_of_append rfl]
  have hticket := h.senders _ (List.mem_of_getElem? hsender)
  simp only [inTurn, hsender, hdone]
  refine and_congr_right fun _ => ?_
  cases hcall : tok.call with
  | none =>
      -- a null token of the stream's end: the result is -1
      have hfail : tok.ok = false := by
        by_contra hok
        obtain ⟨t, ht, -⟩ := h.tokens tok (hdone ▸ List.mem_cons_self) (by simpa using hok)
        rw [hcall] at ht
        cases ht
      simp only [hfail, Bool.false_eq_true, if_false, decide_true, Bool.true_or, iff_true]
      refine ⟨?_, nofun⟩
      intro hcount
      omega
  | some t =>
      have hown := h.own_iff hticket hdone hcall
      simp only [Option.some.injEq, reduceCtorEq, decide_false, Bool.false_or,
        decide_eq_true_eq, forall_eq', ← hown]
      refine and_iff_right_of_imp ?_
      rintro rfl hcount
      by_cases hok : tok.ok = true
      · obtain ⟨u, hu, hwritten⟩ := h.tokens tok (hdone ▸ List.mem_cons_self) hok
        obtain rfl : t = u := Option.some.inj (hcall.symm.trans hu)
        exact hwritten
      · rw [if_neg hok] at hcount
        omega

/-- **What a step does to the acknowledgements.** -/
theorem acknowledged_step {a : Action} (h : Ordered s) (hs : step s a = some s') :
    Acknowledged s' ↔ Acknowledged s ∧ inTurn s a = true := by
  cases a with
  | send count => exact Option.some.inj hs ▸ h.acknowledged_send count
  | wake i => exact h.acknowledged_wake hs
  | timeout i =>
      obtain ⟨ticket, count, st, -, -, rfl⟩ := timeout_cases hs
      rw [acknowledged_of_append rfl]
      refine and_congr_right fun _ => iff_of_true ⟨?_, nofun⟩ rfl
      intro hcount
      have hneg : (-1 : ℤ) = count := hcount
      omega
  | runTask =>
      obtain ⟨ticket, count, rest, st, -, -, -, ⟨-, rfl⟩ | ⟨-, rfl⟩⟩ := runTask_cases hs
      · exact acknowledged_of_inTurn rfl rfl
      · exact acknowledged_of_inTurn rfl rfl
  | endTask ok =>
      obtain ⟨ticket, -, rfl⟩ := endTask_cases hs
      exact acknowledged_of_inTurn rfl rfl
  | windowUpdate hdr =>
      obtain ⟨st, -, rfl⟩ := Option.map_eq_some_iff.mp hs
      exact acknowledged_of_inTurn rfl rfl
  | setClose => exact acknowledged_of_inTurn (Option.some.inj hs ▸ rfl) rfl
  | closeCall => exact acknowledged_of_inTurn (Option.some.inj hs ▸ rfl) rfl
  | finDone =>
      obtain ⟨-, hs⟩ := Option.ite_none_right_eq_some.mp hs
      exact acknowledged_of_inTurn (Option.some.inj hs ▸ rfl) rfl
  | closeFin =>
      obtain ⟨-, hs⟩ := Option.ite_none_right_eq_some.mp hs
      exact acknowledged_of_inTurn (Option.some.inj hs ▸ rfl) rfl

theorem ordered_fresh (id : UInt32) (state : StreamState) (window : UInt32) :
    Ordered (fresh id state window) where
  order := rfl
  nodup := List.nodup_nil
  lt := nofun
  senders := nofun
  tokens := nofun
  written := nofun

/-- **Send acknowledgement.** A run on a stream keeps every acknowledgement with its own call
exactly if each call that takes a completion token is in turn — no earlier call has given up, and
none of them still waits — and no call of no bytes meets an empty window. -/
theorem acknowledged_iff {id : UInt32} {state : StreamState} {window : UInt32} {as : List Action}
    (h : exec step (fresh id state window) as = some s) :
    Acknowledged s ↔ execIf step inTurn (fresh id state window) as = some s :=
  good_iff_execIf Ordered.step acknowledged_step (ordered_fresh id state window) ⟨nofun, nofun⟩ h

/-- The premise is met by two calls that overlap and return in the order in which they came. -/
theorem acknowledged_two_calls :
    ∃ s : Sender, exec step (fresh 1 .established maxStreamWindowSize)
        [.send 3, .send 5, .runTask, .endTask true, .wake 0, .runTask, .endTask true, .wake 0] =
          some s ∧
      s.returns.length = 2 ∧ Acknowledged s := by
  refine ⟨_, rfl, rfl, ?_⟩
  exact (@acknowledged_iff _ 1 .established maxStreamWindowSize [.send 3, .send 5, .runTask,
    .endTask true, .wake 0, .runTask, .endTask true, .wake 0] rfl).mpr rfl

/-- A call times out and leaves its task behind: the token of this task tells the next call that
its frame has been written. -/
theorem timeout_misleads :
    ¬ ∀ (id : UInt32) (state : StreamState) (window : UInt32) (as : List Action) (s : Sender),
      exec step (fresh id state window) as = some s → Acknowledged s := by
  intro hall
  have hack := hall 1 .established maxStreamWindowSize [.send 3, .timeout 0, .send 5, .runTask,
    .endTask true, .wake 0] _ rfl
  have hown := hack.own ⟨1, 5, 5, some 0, false⟩ (by decide) 0 rfl
  cases hown

end ArchNet.SendAck
