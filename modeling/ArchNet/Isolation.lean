import ArchNet.MuxFrames
import ArchNet.WireAtomicity

/-!
# Isolation of Refused Operations

The result of a queued task is also the exit condition of the send loop, and the result of
a frame handler that of the receive loop: a value `≤ 0` closes the session with all its
streams. This module follows the operations that concern one stream and ought to come to
nothing — an `open_stream` that is refused, one whose caller has given up, a `send` of zero
bytes, a Data frame without a body — to the end of their own steps.

* `Op` — the operation, with its start (`Starts`), its own steps (`mine`) and its end
  (`ended`).
* `Isolated op s s'` — the session is still open in `s'`, and no other stream has changed.

## Main results

* `isolated_iff_harmless`: **which of them are isolated** — the call of `send`, and its task
  when the stream has been closed in the meantime or the buffer pointer is null; a refused
  or abandoned `open_stream`, the task of any other empty `send` and an empty Data frame
  close the session.
* `refused_operations_close`: the four of them, at concrete sessions with two live streams.
-/

namespace ArchNet.Session

open Lts

variable {s s' : Session} {a : Action} {r : Ref}

/-! ### The operations -/

/-- An operation: the send fiber runs the task of an `open_stream`, the application calls
`send`, the send fiber runs the task of that `send`, the receive fiber handles a Data
frame. -/
inductive Op
  | openStream
  | sendCall (r : Ref) (p : Payload)
  | sendTask (r : Ref) (p : Payload)
  | dataFrame
  deriving Repr, DecidableEq

namespace Op

/-- The operation is next, and it ought to come to nothing: the peer has said it takes no
more streams or the caller has timed out; there are zero bytes to send; the Data frame is
for a registered stream and has length zero. -/
def Starts (s : Session) : Op → Prop
  | openStream => s.sendPc = .idle ∧ ∃ caller ts, s.sendChan = .openStream caller :: ts ∧
      (s.remoteGoaway = true ∨ caller ∉ s.openers)
  | sendCall _ p => p.count = 0
  | sendTask r p => s.sendPc = .idle ∧ ∃ ticket ts, s.sendChan = .data r ticket p :: ts ∧
      p.count = 0
  | dataFrame => s.recvPc = .decoded ∧ s.hdr.msgType = .data ∧ s.hdr.length = 0 ∧
      (s.streams s.hdr.streamId).isSome = true

/-- The stream the operation is about. -/
def about (s : Session) : Op → Option Ref
  | openStream => none
  | sendCall r _ | sendTask r _ => some r
  | dataFrame => s.streams s.hdr.streamId

/-- The steps of the operation, on a socket that takes what it is given. -/
def mine : Op → Session → Action → Bool
  | openStream, s, .send b | sendTask _ _, s, .send b => fullWrite s (.send b)
  | sendCall r p, _, a => a == .app (.sendCall r p)
  | dataFrame, s, .recv b => fullWrite s (.recv b)
  | _, _, _ => false

/-- The fiber that runs the operation is back at its loop, or has left it and closed the
session. -/
def ended : Op → Session → Bool
  | openStream, s | sendTask _ _, s =>
      match s.sendPc with
      | .idle | .done => true
      | _ => false
  | sendCall _ _, _ => true
  | dataFrame, s =>
      match s.recvPc with
      | .top | .done _ => true
      | _ => false

/-- The operations that end without closing the session. -/
def Harmless (s : Session) : Op → Prop
  | sendCall _ _ => True
  | sendTask r p => ∀ o, s.objs[r]? = some o → o.state.isShut = true ∨ p.body = none
  | openStream | dataFrame => False

end Op

/-- **The operation is isolated**: the session is still open, and every stream but the one
it is about is as it was. -/
def Isolated (op : Op) (s s' : Session) : Prop :=
  s'.shutDown = false ∧ ∀ r, op.about s ≠ some r → s'.objs[r]? = s.objs[r]?

/-! ### The end of the send loop -/

/-- `exit_err()` closes an open session. -/
theorem beginClose_shutDown (s : Session) : s.beginClose.shutDown = true := by
  rw [beginClose]
  split
  · next hd => exact hd
  · rfl

/-- A send fiber that has left its loop closes the session. -/
theorem shutDown_of_failed {b : SendAction} (hpc : s.sendPc = .failed)
    (h : s.step (.send b) = some s') : s'.shutDown = true ∧ s'.sendPc = .done := by
  cases step_cases h with
  | send hc =>
      cases hc with
      | exit => exact ⟨s.beginClose_shutDown, rfl⟩
      | stop hpc' | openGone hpc' | openRefused hpc' | openStream hpc' | dataGone hpc'
      | dataShut hpc' | data hpc' | dataDead hpc' | control hpc' | controlDead hpc'
      | headerErr hpc' | header hpc' | headerMore hpc' | bodyErr hpc' | body hpc'
      | emplace hpc' => exact absurd (hpc.symm.trans hpc') (by simp)

/-! ### The operations, one by one -/

/-- An `open_stream` that is refused or abandoned. -/
theorem openStream_shutDown (hop : Op.openStream.Starts s)
    (hrun : OwnRun Session.step Op.openStream.mine Op.openStream.ended s s') :
    s'.shutDown = true := by
  refine hrun.final (fun u => Op.openStream.Starts u ∨ u.sendPc = .failed)
    (fun u => u.shutDown = true) (.inl hop) fun {u u' a} hu hmine hs => ?_
  cases a with
  | send b =>
      obtain ⟨hpc, caller, ts, hchan, href⟩ | hfailed := hu
      · obtain ⟨junk, rfl⟩ := startTask_of_idle hpc hchan hs
        have hpc' : ({ u with sendChan := ts }.openTask caller).sendPc = .failed := by
          rw [openTask]
          split
          · rfl
          · next hmem =>
              rw [if_pos (.inr (href.resolve_right hmem))]
        exact ⟨by simp [Op.ended, startTask, hpc'], fun _ => .inr hpc'⟩
      · obtain ⟨hd, hdone⟩ := shutDown_of_failed hfailed hs
        exact ⟨fun _ => hd, by simp [Op.ended, hdone]⟩
  | recv | app | keep | close => exact absurd hmine (by simp [Op.mine])

/-- The call of `send` changes its own stream only. -/
theorem sendCall_isolated {p : Payload} (hd : s.shutDown = false)
    (hrun : OwnRun Session.step (Op.sendCall r p).mine (Op.sendCall r p).ended s s') :
    Isolated (.sendCall r p) s s' := by
  have hstep : ∀ {a}, (Op.sendCall r p).mine s a = true → s.step a = some s' →
      Isolated (.sendCall r p) s s' := by
    intro a hmine hs
    obtain rfl : a = .app (.sendCall r p) := by simpa [Op.mine] using hmine
    cases step_cases hs with
    | app hc =>
      cases hc with
      | sendCall =>
          obtain ⟨new, he, -⟩ := s.sendCall_frame _ _ _
          rw [he]
          refine ⟨hd, fun q hq => ?_⟩
          have hne : r ≠ q := fun heq => hq (by rw [← heq]; rfl)
          simp [hne]
  cases hrun with
  | last hmine hs => exact hstep hmine hs
  | next _ _ he => exact absurd he (by simp [Op.ended])

/-- The task of `send` on a stream that is open goes on to its socket sends. -/
theorem dataTask_of_open {o : MuxStream} {ticket : ℕ} {p : Payload} (hd : s.shutDown = false)
    (ho : s.objs[r]? = some o) (hopen : o.state.isShut = false) :
    ∃ h o', s.dataTask r ticket p = { s.modObj r (fun _ => o') with
      sendPc := .header (.data r ticket p) r ⟨h, p.body⟩ } := by
  refine ⟨⟨.data, o.sendFlags.1, o.sendFlags.2.id, UInt32.ofNat p.count⟩, o.sendFlags.2, ?_⟩
  have htask : o.sendTask ticket p.count = (some ⟨.data, o.sendFlags.1, o.sendFlags.2.id,
      UInt32.ofNat p.count⟩, o.sendFlags.2) := by
    rw [MuxStream.sendTask, hopen, if_neg Bool.false_ne_true]
  simp only [dataTask, ho, htask]
  exact sendMessage_of_open hd

/-- The task of `send` on a stream that is shut, or that is gone, ends at once. -/
theorem dataTask_of_shut {ticket : ℕ} {p : Payload}
    (hshut : ∀ o, s.objs[r]? = some o → o.state.isShut = true) :
    ∃ f, s.dataTask r ticket p = s.modObj r f := by
  cases ho : s.objs[r]? with
  | none =>
      refine ⟨id, ?_⟩
      simp [dataTask, ho, modObj]
  | some o =>
      refine ⟨fun _ => (o.sendTask ticket p.count).2, ?_⟩
      simp only [dataTask, ho, MuxStream.sendTask, hshut o ho, if_true]

/-- The task of an empty `send` that reaches the send of its body closes the session. -/
theorem sendTask_shutDown {p : Payload} {o : MuxStream} (hd : s.shutDown = false)
    (hop : (Op.sendTask r p).Starts s) (ho : s.objs[r]? = some o)
    (hopen : o.state.isShut = false) (hbody : p.body = some [])
    (hrun : OwnRun Session.step (Op.sendTask r p).mine (Op.sendTask r p).ended s s') :
    s'.shutDown = true := by
  refine hrun.final
    (fun u => u = s ∨ (∃ ticket h, u.sendPc = .header (.data r ticket p) r ⟨h, p.body⟩) ∨
      (∃ ticket h, u.sendPc = .body (.data r ticket p) r ⟨h, p.body⟩) ∨ u.sendPc = .failed)
    (fun u => u.shutDown = true) (.inl rfl) fun {u u' a} hu hmine hs => ?_
  cases a with
  | send b =>
      obtain rfl | ⟨ticket, h, hpc⟩ | ⟨ticket, h, hpc⟩ | hfailed := hu
      · obtain ⟨hpc, ticket, ts, hchan, -⟩ := hop
        obtain ⟨junk, rfl⟩ := startTask_of_idle hpc hchan hs
        obtain ⟨h, o', heq⟩ :=
          @dataTask_of_open { u with sendChan := ts } r o ticket p hd ho hopen
        rw [startTask, heq]
        exact ⟨by simp [Op.ended], fun _ => .inr (.inl ⟨ticket, h, rfl⟩)⟩
      · obtain ⟨n, -, rfl⟩ := writeHeader_of_header hpc hs
        rw [Session.writeHeader]
        split
        · exact ⟨by simp [Op.ended, endTask, taskResult], fun _ => .inr (.inr (.inr rfl))⟩
        · simp only [hbody]
          exact ⟨by simp [Op.ended], fun _ => .inr (.inr (.inl ⟨ticket, h, rfl⟩))⟩
      · obtain ⟨n, hn, rfl⟩ := writeBody_of_body hpc hs
        obtain rfl : n = 0 := by simpa [Frame.payload, hbody] using hn
        exact ⟨by simp [Op.ended, Session.writeBody, endTask, taskResult],
          fun _ => .inr (.inr (.inr rfl))⟩
      · obtain ⟨hd, hdone⟩ := shutDown_of_failed hfailed hs
        exact ⟨fun _ => hd, by simp [Op.ended, hdone]⟩
  | recv | app | keep | close => exact absurd hmine (by simp [Op.mine])

/-- The task of `send` on a stream that is shut, or without a buffer, ends well. -/
theorem sendTask_isolated {p : Payload} (hok : CloseOk s) (hd : s.shutDown = false)
    (hop : (Op.sendTask r p).Starts s) (hharm : (Op.sendTask r p).Harmless s)
    (hrun : OwnRun Session.step (Op.sendTask r p).mine (Op.sendTask r p).ended s s') :
    Isolated (.sendTask r p) s s' := by
  have hother : ∀ {u : Session} {f : MuxStream → MuxStream}, u.objs = s.objs.modify r f →
      ∀ q, (Op.sendTask r p).about s ≠ some q → u.objs[q]? = s.objs[q]? := by
    intro u f hu q hq
    have hne : r ≠ q := fun heq => hq (by rw [← heq]; rfl)
    simp [hu, hne]
  have hsock : s.sockClosed = false := hok.sockOpen hd
  refine hrun.final
    (fun u => u = s ∨ (u.shutDown = false ∧ u.sockClosed = false ∧
      (∃ f, u.objs = s.objs.modify r f) ∧
      ∃ ticket h, u.sendPc = .header (.data r ticket p) r ⟨h, none⟩))
    (Isolated (.sendTask r p) s) (.inl rfl) fun {u u' a} hu hmine hs => ?_
  cases a with
  | send b =>
      obtain rfl | ⟨hd, hsock, ⟨f, hobjs⟩, ticket, h, hpc⟩ := hu
      · obtain ⟨hpc, ticket, ts, hchan, -⟩ := hop
        obtain ⟨junk, rfl⟩ := startTask_of_idle hpc hchan hs
        by_cases hshut : ∀ o, u.objs[r]? = some o → o.state.isShut = true
        · obtain ⟨f, heq⟩ := @dataTask_of_shut { u with sendChan := ts } r ticket p hshut
          rw [startTask, heq]
          exact ⟨fun _ => ⟨hd, hother rfl⟩, by simp [Op.ended, modObj, hpc]⟩
        · simp only [not_forall, Bool.not_eq_true] at hshut
          obtain ⟨o, ho, hopen⟩ := hshut
          have hbody : p.body = none := (hharm o ho).resolve_left (by simp [hopen])
          obtain ⟨h, o', heq⟩ :=
            @dataTask_of_open { u with sendChan := ts } r o ticket p hd ho hopen
          rw [startTask, heq, hbody]
          exact ⟨by simp [Op.ended], fun _ => .inr ⟨hd, hsock, ⟨_, rfl⟩, ticket, h, rfl⟩⟩
      · obtain ⟨n, rfl, rfl⟩ := writeHeader_of_header hpc hs
        obtain rfl : n = headerSize := by simpa [Op.mine, fullWrite, hsock] using hmine
        refine ⟨fun _ => ⟨hd, ?_⟩, ?_⟩
        · refine hother (f := fun o => (f o).sendTaskDone ticket true) ?_
          simp [Session.writeHeader, headerSize, endTask, taskResult, modObj, hobjs,
            List.modify_modify_eq, Function.comp_def]
        · simp [Session.writeHeader, headerSize, endTask, taskResult, Op.ended]
  | recv | app | keep | close => exact absurd hmine (by simp [Op.mine])

/-- Where the receive fiber can be on an empty Data frame for a registered stream. -/
def OnEmptyFrame (s : Session) : Prop :=
  s.hdr.msgType = .data ∧ s.hdr.length = 0 ∧
    match s.recvPc with
    | .decoded | .rstReturn | .lookup => (s.streams s.hdr.streamId).isSome = true
    | .flags _ | .body _ _ | .failed .handler => True
    | _ => False

/-- An empty body is not read: its length is taken for the end of the stream. -/
theorem readDataBody_of_zero {o : MuxStream} {length : UInt32} {close : Bool} {ret : ℤ}
    {bytes : List UInt8} {src src' : Source} (hlen : length = 0)
    (hread : readNFromSocketStream src length.toNat = some (ret, bytes, src')) :
    o.readDataBody length close ret bytes = .err { o with recvLock := true } := by
  subst hlen
  rw [show (0 : UInt32).toNat = 0 from rfl, readNFromSocketStream_zero, Option.some.injEq,
    Prod.mk.injEq, Prod.mk.injEq] at hread
  obtain ⟨rfl, rfl, -⟩ := hread
  exact o.readDataBody_empty close

/-- One step on an empty Data frame. -/
theorem OnEmptyFrame.step {b : RecvAction} (hu : OnEmptyFrame s) (hd : s.shutDown = false)
    (h : s.step (.recv b) = some s') :
    (OnEmptyFrame s' ∧ s'.shutDown = false) ∨ s'.shutDown = true := by
  obtain ⟨htype, hlen, hpc⟩ := hu
  cases step_cases h with
  | recv hc =>
    cases hc with
    | exit => exact .inr s.beginClose_shutDown
    | noSyn hpc' | refused hpc' =>
        simp only [hpc'] at hpc
        exact .inl ⟨⟨htype, hlen, hpc⟩, hd⟩
    | rstReturn hpc' =>
        simp only [hpc'] at hpc
        exact .inl ⟨⟨htype, hlen, hpc⟩, hd⟩
    | sameId | found | checkErr | check | bodyErr =>
        exact .inl ⟨⟨htype, hlen, trivial⟩, hd⟩
    | body _ _ _ hread hb | bodyAbort _ _ _ hread hb =>
        rw [readDataBody_of_zero hlen hread] at hb
        exact absurd hb (by simp)
    | closedTop hpc' | decodeErr hpc' | decoded hpc' | ackErr hpc' | ackWrite hpc'
    | emplace hpc' | discard hpc' =>
        simp [hpc'] at hpc
    | closedDecoded _ hd' => exact absurd hd' (by simp [hd])
    | pingSyn _ _ ht | pong _ _ ht | goAway _ _ ht | goAwayErr _ _ ht =>
        exact absurd (htype.symm.trans ht) (by simp)
    | accept hpc' _ _ _ hnone => simp [hpc', hnone] at hpc
    | unknownBody hpc' _ hnone | unknown hpc' _ hnone => simp [hpc', hnone] at hpc
    | updateErr _ _ _ ht | update _ _ _ ht => exact absurd (htype.symm.trans ht) (by simp)

/-- An empty Data frame for a registered stream closes the session. -/
theorem dataFrame_shutDown (hd : s.shutDown = false) (hop : Op.dataFrame.Starts s)
    (hrun : OwnRun Session.step Op.dataFrame.mine Op.dataFrame.ended s s') :
    s'.shutDown = true := by
  obtain ⟨hpc, htype, hlen, hreg⟩ := hop
  have hstart : OnEmptyFrame s ∧ s.shutDown = false :=
    ⟨⟨htype, hlen, by simpa only [hpc] using hreg⟩, hd⟩
  refine hrun.final (fun u => (OnEmptyFrame u ∧ u.shutDown = false) ∨ u.shutDown = true)
    (fun u => u.shutDown = true) (.inl hstart) fun {u u' a} hu hmine hs => ?_
  cases a with
  | recv b =>
      obtain ⟨hframe, hopen⟩ | hshut := hu
      · refine ⟨fun he => ?_, fun _ => hframe.step hopen hs⟩
        obtain ⟨⟨-, -, hpc'⟩, -⟩ | hshut := hframe.step hopen hs
        · simp only [Op.ended] at he
          split at he
          · next htop => simp [htop] at hpc'
          · next hdone => simp [hdone] at hpc'
          · exact absurd he (by simp)
        · exact hshut
      · exact ⟨fun _ => shutDown_of_step hs hshut, fun _ => .inr (shutDown_of_step hs hshut)⟩
  | send | app | keep | close => exact absurd hmine (by simp [Op.mine])

/-! ### Which operations are isolated -/

/-- **Which operations are isolated.** In every reachable state of an open session, an
operation on one stream that ought to come to nothing leaves the session open and every
other stream as it was if and only if it is the call of `send`, or the task of a `send` whose
stream has been closed in the meantime or whose buffer pointer is null. -/
theorem isolated_iff_harmless {type : MuxStreamType} {src : Source} {op : Op}
    (h : Reach Session.step always (Session.init type src) s) (hd : s.shutDown = false)
    (hop : op.Starts s) (hrun : OwnRun Session.step op.mine op.ended s s') :
    Isolated op s s' ↔ op.Harmless s := by
  have hnot : s'.shutDown = true → ¬ Isolated op s s' := fun hshut hiso => by
    simp [hiso.1] at hshut
  cases op with
  | openStream =>
      exact ⟨fun hiso => hnot (openStream_shutDown hop hrun) hiso, False.elim⟩
  | sendCall r p => exact ⟨fun _ => trivial, fun _ => sendCall_isolated hd hrun⟩
  | dataFrame => exact ⟨fun hiso => hnot (dataFrame_shutDown hd hop hrun) hiso, False.elim⟩
  | sendTask r p =>
      have hok : CloseOk s := h.invariant CloseOk (by simp [CloseOk, Session.init])
        fun hinv _ hs => closeOk_of_step hinv hs
      refine ⟨fun hiso o ho => ?_, fun hharm => sendTask_isolated hok hd hop hharm hrun⟩
      cases hopen : o.state.isShut with
      | true => exact .inl rfl
      | false =>
          refine .inr ?_
          have hcount : p.count = 0 := by
            obtain ⟨-, -, -, -, hcount⟩ := hop
            exact hcount
          cases p with
          | null n => rfl
          | bytes l =>
              have hnil : l = [] := List.eq_nil_of_length_eq_zero hcount
              exact absurd hiso (hnot (sendTask_shutDown hd hop ho hopen (by rw [hnil]; rfl)
                hrun))

/-- A peer that opens two streams, sends a normal go-away, and then an empty Data frame on
the first stream. -/
def goAwayThenEmpty : Source :=
  { bytes := framesBytes [⟨⟨.windowUpdate, flagSYN, 3, 0⟩, none⟩,
      ⟨⟨.windowUpdate, flagSYN, 5, 0⟩, none⟩, ⟨⟨.goAway, 0, 0, goAwayNormal⟩, none⟩,
      ⟨⟨.data, 0, 3, 0⟩, none⟩] }

/-- The run that accepts the two streams. -/
def acceptTwo : List Action :=
  [.recv .recvHeader, .recv .dispatch, .recv (.ackWrite 12), .recv .emplace, .recv .lookup,
    .recv .processFlags, .recv .recvHeader, .recv .dispatch, .recv (.ackWrite 12),
    .recv .emplace, .recv .lookup, .recv .processFlags]

/-- The theorem at an accepted stream on which a null buffer is sent. -/
theorem isolated_null_send :
    ∃ s s', Reach Session.step always (Session.init .server goAwayThenEmpty) s ∧
      OwnRun Session.step (Op.sendTask 0 (.null 0)).mine (Op.sendTask 0 (.null 0)).ended s s' ∧
      Isolated (.sendTask 0 (.null 0)) s s' := by
  obtain ⟨s, s', hs, ⟨hd, hpc, hchan⟩, hrun, -⟩ : ∃ s s', Reach Session.step always
      (Session.init .server goAwayThenEmpty) s ∧ (s.shutDown = false ∧ s.sendPc = .idle ∧
        s.sendChan = [.data 0 0 (.null 0)]) ∧
      OwnRun Session.step (Op.sendTask 0 (.null 0)).mine (Op.sendTask 0 (.null 0)).ended s s' ∧
      s'.sendPc = .idle :=
    OwnRun.exists_of_exec (acceptTwo ++ [.app (.sendCall 0 (.null 0))])
      [.send (.runTask 0), .send (.writeHeader 12)] (by decide +kernel)
  have hop : (Op.sendTask 0 (.null 0)).Starts s := ⟨hpc, 0, [], hchan, rfl⟩
  exact ⟨s, s', hs, hrun, (isolated_iff_harmless hs hd hop hrun).mpr fun _ _ => .inr rfl⟩

/-- **Operations that take the session down**: with two live streams, an `open_stream` after
the peer's go-away, one whose caller has timed out, a `send` of zero bytes on one stream, and
an empty Data frame for one of them, each close the session. -/
theorem refused_operations_close :
    (∃ s s', Reach Session.step always (Session.init .server goAwayThenEmpty) s ∧
      (s.shutDown = false ∧ s.objs.map MuxStream.state = [.established, .established] ∧
        s.sendPc = .idle ∧ s.sendChan = [.openStream 0] ∧ s.remoteGoaway = true) ∧
      OwnRun Session.step Op.openStream.mine Op.openStream.ended s s' ∧
      s'.shutDown = true) ∧
    (∃ s s', Reach Session.step always (Session.init .server goAwayThenEmpty) s ∧
      (s.shutDown = false ∧ s.objs.map MuxStream.state = [.established, .established] ∧
        s.sendPc = .idle ∧ s.sendChan = [.openStream 0] ∧ s.openers = []) ∧
      OwnRun Session.step Op.openStream.mine Op.openStream.ended s s' ∧
      s'.shutDown = true) ∧
    (∃ s s', Reach Session.step always (Session.init .server goAwayThenEmpty) s ∧
      (s.shutDown = false ∧ s.objs.map MuxStream.state = [.established, .established] ∧
        s.sendPc = .idle ∧ s.sendChan = [.data 0 0 (.bytes [])]) ∧
      OwnRun Session.step (Op.sendTask 0 (.bytes [])).mine (Op.sendTask 0 (.bytes [])).ended
        s s' ∧ s'.shutDown = true) ∧
    (∃ s s', Reach Session.step always (Session.init .server goAwayThenEmpty) s ∧
      (s.shutDown = false ∧ s.objs.map MuxStream.state = [.established, .established] ∧
        s.recvPc = .decoded ∧ s.hdr = ⟨.data, 0, 3, 0⟩ ∧ s.streams 3 = some 0) ∧
      OwnRun Session.step Op.dataFrame.mine Op.dataFrame.ended s s' ∧ s'.shutDown = true) := by
  refine ⟨?_, ?_, ?_, ?_⟩
  · exact OwnRun.exists_of_exec
      (acceptTwo ++ [.recv .recvHeader, .recv .dispatch, .app .openCall])
      [.send (.runTask 0), .send .exit] (by decide +kernel)
  · exact OwnRun.exists_of_exec (acceptTwo ++ [.app .openCall, .app (.openTimeout 0)])
      [.send (.runTask 0), .send .exit] (by decide +kernel)
  · exact OwnRun.exists_of_exec (acceptTwo ++ [.app (.sendCall 0 (.bytes []))])
      [.send (.runTask 0), .send (.writeHeader 12), .send (.writeBody 0), .send .exit]
      (by decide +kernel)
  · exact OwnRun.exists_of_exec
      (acceptTwo ++ [.recv .recvHeader, .recv .dispatch, .recv .recvHeader])
      [.recv .dispatch, .recv .lookup, .recv .processFlags, .recv .readBody, .recv .exit]
      (by decide +kernel)

end ArchNet.Session
