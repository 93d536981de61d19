import ArchNet.MuxFrames
import ArchNet.WireAtomicity

/-!
# Simultaneous Close

Both endpoints close their end of one established stream. Each `close()` takes the stream's
`state_lock_`, moves the state to LocalClose, waits with the lock held until the send fiber
has written the FIN, and only then moves the state to Closed and releases the lock; the
registry entry goes still later. The FIN of the peer is looked up in the registry and then
needs the same lock. `process_flags` has a case for a FIN in LocalClose, but no FIN is ever
processed there: whoever waits for the lock finds the stream Closed, and a FIN for a Closed
stream is a protocol error that ends the session.

* `Duplex` — two sessions, each reading what the other writes.
* `Established id r s` — session `s` has stream `id` open, as object `r`, and nothing is on
  its way.

## Main results

* `no_protocol_error_of_close`: **closing from both sides is safe** in every run in which the
  FIN is not looked up while this endpoint's `close()` is between taking the lock and
  removing the entry, and `close()` is not called between the look-up and the lock
  (`finClear`).
* `both_close_fails`: a run of two fresh sessions, without that condition, in which both ends
  are closed once and a session dies of it.
-/

namespace ArchNet

open Lts

/-! ### Two sessions on one connection -/

/-- Two sessions, each the peer of the other. -/
structure Duplex where
  left : Session
  right : Session

/-- Which of the two sessions takes the step. -/
inductive Side
  | left
  | right
  deriving Repr, DecidableEq

/-- The peer has written `bytes`, and has closed the connection or not. -/
def Session.deliver (p : Session) (bytes : List UInt8) (closed : Bool) : Session :=
  if p.sockClosed then p
  else
    { p with source := { p.source with
        bytes := p.source.bytes ++ bytes
        ending := if closed then some .eof else p.source.ending } }

/-- One session takes a step, and what it writes reaches its peer. -/
def Session.advance (s p : Session) (a : Session.Action) : Option (Session × Session) :=
  (s.step a).map fun s' => (s', p.deliver (s'.out.drop s.out.length) s'.sockClosed)

namespace Duplex

/-- A client and a server that have just been connected. -/
def init : Duplex where
  left := Session.init .client { bytes := [] }
  right := Session.init .server { bytes := [] }

/-- **One step of the two sessions.** -/
def step (d : Duplex) (x : Side × Session.Action) : Option Duplex :=
  match x.1 with
  | .left => (d.left.advance d.right x.2).map fun y => ⟨y.1, y.2⟩
  | .right => (d.right.advance d.left x.2).map fun y => ⟨y.2, y.1⟩

/-- A condition on the steps of one session, as a condition on the steps of both. -/
def onSide (C : Ref → Session → Session.Action → Bool) (l r : Ref) (d : Duplex)
    (x : Side × Session.Action) : Bool :=
  match x.1 with
  | .left => C l d.left x.2
  | .right => C r d.right x.2

end Duplex

namespace Session

variable {s s' p : Session} {a : Action} {r q : Ref} {o o' : MuxStream} {id : UInt32}

/-! ### The runs -/

/-- How far the owner of object `r` is in `close()`. -/
def ownerOf (s : Session) (r : Ref) : Option OwnerPc := s.objs[r]?.map MuxStream.owner

/-- The steps of the runs: the receive fiber, the send fiber on a socket that takes what it
is given, one `close()` of stream object `r` with all its waits, and the calls of `recv` and
`send` on that stream that return meanwhile. -/
def closeSteps (r : Ref) (s : Session) : Action → Bool
  | .recv _ => true
  | .send b => fullWrite s (.send b)
  | .app (.closeCall q) => q == r && s.ownerOf r == some .idle
  | .app (.closeFin q) | .app (.closeWait q) | .app (.closeDereg q) | .app (.recvCall q _)
  | .app (.recvWake q _) | .app (.sendWake q _) | .app (.sendTimeout q _) => q == r
  | _ => false

/-- The peer's FIN and the `close()` of stream object `r` keep apart: the FIN is not looked
up while `close()` is between taking `state_lock_` and removing the entry, and `close()` is
not called while the receive fiber has found the stream and waits for the lock. -/
def finClear (r : Ref) (s : Session) : Action → Bool
  | .recv .lookup =>
      !hasFlag s.hdr.flags flagFIN || s.streams s.hdr.streamId != some r ||
        s.ownerOf r == some .idle
  | .app (.closeCall _) => s.recvPc != .flags r
  | _ => true

/-- Both conditions. -/
def clearClose (r : Ref) (s : Session) (a : Action) : Bool := closeSteps r s a && finClear r s a

/-- No handler of the session has failed, and no go-away is queued or sent. -/
structure NoProtocolError (s : Session) : Prop where
  handler : handlerFailed s.recvPc = false
  queued : ∀ reason, .goAway reason ∉ s.sendChan
  sent : ∀ x ∈ s.started, x.2.hdr.msgType ≠ .goAway

/-- The FIN that `close()` sends for stream `id`. -/
def finFrame (id : UInt32) : Frame := ⟨⟨.windowUpdate, flagFIN, id, 0⟩, none⟩

/-- The number of FINs that have been sent for stream `id`. -/
def finsSent (id : UInt32) (s : Session) : ℕ :=
  s.started.countP fun x => hasFlag x.2.hdr.flags flagFIN && x.2.hdr.streamId == id

/-- **An established stream**: object `r` is registered under `id` and open on both sides,
nobody is closing it, the session is open, its fibers wait, nothing is on its way, and
neither a FIN for the stream nor a go-away has been sent. -/
structure Established (id : UInt32) (r : Ref) (s : Session) : Prop where
  obj : ∃ o ∈ s.objs[r]?, o.id = id ∧ o.state = .established ∧ o.stateLock = false ∧
    o.owner = .idle
  registered : s.streams id = some r
  live : s.shutDown = false ∧ s.closePc = .open
  sender : s.sendPc = .idle ∧ s.sendChan = []
  receiver : s.recvPc = .top ∧ s.source.bytes = [] ∧ s.source.ending = none
  noFin : s.finsSent id = 0
  noGoAway : ∀ x ∈ s.started, x.2.hdr.msgType ≠ .goAway

instance (id : UInt32) (r : Ref) (s : Session) : Decidable (Established id r s) :=
  decidable_of_iff
    ((∃ o ∈ s.objs[r]?, o.id = id ∧ o.state = .established ∧ o.stateLock = false ∧
        o.owner = .idle) ∧ s.streams id = some r ∧ (s.shutDown = false ∧ s.closePc = .open) ∧
      (s.sendPc = .idle ∧ s.sendChan = []) ∧
      (s.recvPc = .top ∧ s.source.bytes = [] ∧ s.source.ending = none) ∧
      s.finsSent id = 0 ∧ ∀ x ∈ s.started, x.2.hdr.msgType ≠ .goAway)
    ⟨fun ⟨h₁, h₂, h₃, h₄, h₅, h₆, h₇⟩ => ⟨h₁, h₂, h₃, h₄, h₅, h₆, h₇⟩,
      fun h => ⟨h.obj, h.registered, h.live, h.sender, h.receiver, h.noFin, h.noGoAway⟩⟩

/-! ### The invariant -/

/-- How far the `close()` of the stream is, with what the send fiber has to do for it. -/
inductive Closing (id : UInt32) (r : Ref) (s : Session) (o : MuxStream) : Prop
  | notCalled : o.owner = .idle → o.stateLock = false →
      o.state = .established ∨ o.state = .remoteClose → s.sendPc = .idle →
      s.sendChan = [] → s.finsSent id = 0 → Closing id r s o
  | queued : o.owner = .waitFin → s.sendPc = .idle → s.sendChan = [.fin r flagFIN] →
      s.finsSent id = 0 → Closing id r s o
  | writing : o.owner = .waitFin → s.sendPc = .header (.fin r flagFIN) r (finFrame id) →
      s.sendChan = [] → s.finsSent id = 0 → Closing id r s o
  | sent : o.owner = .finSent → s.sendPc = .idle → s.sendChan = [] → s.finsSent id = 1 →
      Closing id r s o
  | ended : o.owner = .waitWg ∨ o.owner = .dereg ∨ o.owner = .returned →
      s.sendPc = .idle → s.sendChan = [] → s.finsSent id ≤ 1 → Closing id r s o

/-- The peer's FIN has not reached the stream. -/
def Unread (o : MuxStream) : Prop := o.owner = .idle → o.state = .established

/-- How far the peer's FIN is: not sent, on its way, decoded and not looked up, found and
waiting for the lock of a stream that nobody closes, handled. -/
inductive Incoming (id : UInt32) (r : Ref) (s : Session) (o : MuxStream) (p : Session) : Prop
  | notSent : p.finsSent id = 0 → s.source.bytes = [] → s.recvPc = .top → Unread o →
      Incoming id r s o p
  | onWire : p.finsSent id = 1 → s.source.bytes = (finFrame id).bytes → s.recvPc = .top →
      Unread o → Incoming id r s o p
  | decoded : p.finsSent id = 1 → s.source.bytes = [] →
      s.recvPc = .decoded ∨ s.recvPc = .lookup → s.hdr = (finFrame id).hdr → Unread o →
      Incoming id r s o p
  | found : p.finsSent id = 1 → s.source.bytes = [] → s.recvPc = .flags r →
      s.hdr = (finFrame id).hdr → o.owner = .idle → o.state = .established →
      Incoming id r s o p
  | handled : p.finsSent id = 1 → s.source.bytes = [] → s.recvPc = .top →
      Incoming id r s o p

/-- What holds of one endpoint. -/
structure EndInv (id : UInt32) (r : Ref) (s : Session) (o : MuxStream) : Prop where
  obj : s.objs[r]? = some o
  named : o.id = id
  live : s.shutDown = false
  closePc : s.closePc = .open
  ending : s.source.ending = none
  reg : s.streams id = some r ∨ s.streams id = none
  noGoAway : ∀ x ∈ s.started, x.2.hdr.msgType ≠ .goAway
  closing : Closing id r s o

/-! ### The receive fiber -/

/-- A read on an open connection without bytes blocks. -/
theorem recvAndDecode_blocked {old : Header} {src : Source} (hb : src.bytes = [])
    (he : src.ending = none) : recvAndDecode old src = none := by
  rw [recvAndDecode, Option.bind_eq_bind, Option.bind_eq_none_iff]
  intro res hread
  obtain ⟨e, -, hend, -⟩ := readNFromSocketStream_short (by rw [hb]; decide) hread
  exact absurd (he.symm.trans hend) (by simp)

/-- A FIN for a stream that is open on both sides. -/
theorem increaseSendWindow_fin (ho : o.state = .established) :
    o.increaseSendWindow (finFrame id).hdr =
      some { o with state := .remoteClose }.notifyClose := by
  have hack : hasFlag flagFIN flagACK = false := by decide
  have hfin : hasFlag flagFIN flagFIN = true := by decide
  have hrst : hasFlag flagFIN flagRST = false := by decide
  simp [MuxStream.increaseSendWindow, MuxStream.processFlags, MuxStream.processAck,
    MuxStream.processFin, MuxStream.processRst, finFrame, hack, hfin, hrst, ho]

/-- The owner's side looks at the send fiber and at the stream. -/
theorem Closing.of_eq (h : Closing id r s o) (hpc : s'.sendPc = s.sendPc)
    (hchan : s'.sendChan = s.sendChan) (hstarted : s'.started = s.started) :
    Closing id r s' o := by
  have hfins : s'.finsSent id = s.finsSent id := by rw [finsSent, finsSent, hstarted]
  cases h with
  | notCalled ho hl hst h₁ h₂ h₃ =>
      exact .notCalled ho hl hst (hpc.trans h₁) (hchan.trans h₂) (hfins.trans h₃)
  | queued ho h₁ h₂ h₃ =>
      exact .queued ho (hpc.trans h₁) (hchan.trans h₂) (hfins.trans h₃)
  | writing ho h₁ h₂ h₃ =>
      exact .writing ho (hpc.trans h₁) (hchan.trans h₂) (hfins.trans h₃)
  | sent ho h₁ h₂ h₃ => exact .sent ho (hpc.trans h₁) (hchan.trans h₂) (hfins.trans h₃)
  | ended ho h₁ h₂ h₃ => exact .ended ho (hpc.trans h₁) (hchan.trans h₂) (hfins ▸ h₃)

/-- The peer's side looks at the receive fiber, and at the stream until somebody closes
it. -/
theorem Incoming.of_eq (h : Incoming id r s o p) (hpc : s'.recvPc = s.recvPc)
    (hhdr : s'.hdr = s.hdr) (hsrc : s'.source = s.source)
    (ho : (o'.owner = o.owner ∧ o'.state = o.state) ∨
      (o'.owner ≠ .idle ∧ s.recvPc ≠ .flags r)) : Incoming id r s' o' p := by
  have hun : Unread o → Unread o' := by
    intro hun howner
    obtain ⟨ho, hst⟩ | ⟨hne, -⟩ := ho
    · exact hst.trans (hun (ho ▸ howner))
    · exact absurd howner hne
  cases h with
  | notSent h₁ h₂ h₃ h₄ => exact .notSent h₁ (hsrc ▸ h₂) (hpc.trans h₃) (hun h₄)
  | onWire h₁ h₂ h₃ h₄ => exact .onWire h₁ (hsrc ▸ h₂) (hpc.trans h₃) (hun h₄)
  | decoded h₁ h₂ h₃ h₄ h₅ =>
      exact .decoded h₁ (hsrc ▸ h₂) (hpc ▸ h₃) (hhdr.trans h₄) (hun h₅)
  | found h₁ h₂ h₃ h₄ h₅ h₆ =>
      obtain ⟨ho, hst⟩ | ⟨-, hne⟩ := ho
      · exact .found h₁ (hsrc ▸ h₂) (hpc.trans h₃) (hhdr.trans h₄) (ho.trans h₅)
          (hst.trans h₆)
      · exact absurd h₃ hne
  | handled h₁ h₂ h₃ => exact .handled h₁ (hsrc ▸ h₂) (hpc.trans h₃)

/-- The receive fiber waits for the lock of a stream only while nobody closes it. -/
theorem Incoming.not_flags (h : Incoming id r s o p) (ho : o.owner ≠ .idle) :
    s.recvPc ≠ .flags r := by
  intro hpc
  cases h with
  | found _ _ _ _ howner => exact ho howner
  | notSent _ _ h | onWire _ _ h | handled _ _ h => simp [h] at hpc
  | decoded _ _ h => simp [hpc] at h

/-- The dispatch of a FIN leads to the registry. -/
theorem dispatch_fin (hd : s.shutDown = false) (hhdr : s.hdr = (finFrame id).hdr) :
    s.dispatch = { s with recvPc := .lookup } := by
  have hsyn : hasFlag flagFIN flagSYN = false := by decide
  simp [dispatch, handleStreamMessage, hd, hhdr, finFrame, hsyn]

/-- What the receive fiber does with the peer's FIN. -/
theorem EndInv.recv_step {b : RecvAction} (hinv : EndInv id r s o)
    (hin : Incoming id r s o p) (hC : finClear r s (.recv b) = true)
    (h : s.step (.recv b) = some s') :
    s'.out = s.out ∧ s'.started = s.started ∧
      ∃ o', EndInv id r s' o' ∧ Incoming id r s' o' p := by
  obtain ⟨hobj, hnamed, hlive, hclose, hending, hreg, hgo, hclosing⟩ := hinv
  -- nothing to read, or nothing more: the read blocks
  have hblocked : s.source.bytes = [] → s.recvPc ≠ .top := by
    intro hbytes hpc
    have hread := (recvHeader_of_top hpc h).2
    simp [recvHeader, hlive, recvAndDecode_blocked hbytes hending] at hread
  cases hin with
  | notSent _ hbytes hpc => exact absurd hpc (hblocked hbytes)
  | handled _ hbytes hpc => exact absurd hpc (hblocked hbytes)
  | onWire hsent hbytes hpc hun =>
      have hread := (recvHeader_of_top hpc h).2
      rw [Frame.bytes] at hbytes
      obtain ⟨cuts, hdec⟩ := @recvAndDecode_encode _ s.hdr s.source _ hbytes
      have hpos : ¬ (1 : ℤ) ≤ 0 := by decide
      rw [recvHeader, if_neg (by simp [hlive]), hdec, Option.map_some] at hread
      simp only [if_neg hpos, Option.some.injEq] at hread
      subst hread
      exact ⟨rfl, rfl, o, ⟨hobj, hnamed, hlive, hclose, hending, hreg, hgo,
        hclosing.of_eq rfl rfl rfl⟩, .decoded hsent rfl (.inl rfl) rfl hun⟩
  | decoded hsent hbytes hpc hhdr hun =>
      obtain hpc | hpc := hpc
      · obtain rfl := dispatch_of_decoded hpc h
        rw [dispatch_fin hlive hhdr]
        exact ⟨rfl, rfl, o, ⟨hobj, hnamed, hlive, hclose, hending, hreg, hgo,
          hclosing.of_eq rfl rfl rfl⟩, .decoded hsent hbytes (.inr rfl) hhdr hun⟩
      · obtain ⟨rfl, rfl⟩ := lookup_of_lookup hpc h
        have hid : s.hdr.streamId = id := by rw [hhdr]; rfl
        obtain hsome | hnone := hreg
        · have howner : o.owner = .idle := by
            have hfin : hasFlag flagFIN flagFIN = true := by decide
            simpa [finClear, ownerOf, hhdr, finFrame, hfin, hsome, hobj] using hC
          have heq : s.lookup = { s with recvPc := .flags r } := by
            simp only [lookup, hid, hsome]
          rw [heq]
          exact ⟨rfl, rfl, o, ⟨hobj, hnamed, hlive, hclose, hending, .inl hsome, hgo,
            hclosing.of_eq rfl rfl rfl⟩,
            .found hsent hbytes rfl hhdr howner (hun howner)⟩
        · have heq : s.lookup = s.handledFrame := by
            simp [lookup, hhdr, finFrame, hnone]
          rw [heq]
          exact ⟨rfl, rfl, o, ⟨hobj, hnamed, hlive, hclose, hending, .inr hnone, hgo,
            hclosing.of_eq rfl rfl rfl⟩, .handled hsent hbytes rfl⟩
  | found hsent hbytes hpc hhdr howner hstate =>
      obtain rfl := handleFlags_of_flags hpc hobj h
      have heq : s.handleFlags r o = (s.modObj r fun _ =>
          { o with state := .remoteClose }.notifyClose).handledFrame := by
        have htype : (finFrame id).hdr.msgType = .windowUpdate := rfl
        rw [handleFlags, hhdr, if_pos htype, increaseSendWindow_fin hstate]
      rw [heq]
      refine ⟨rfl, rfl, { o with state := .remoteClose }.notifyClose,
        ⟨?_, hnamed, hlive, hclose, hending, hreg, hgo, ?_⟩, .handled hsent hbytes rfl⟩
      · simp [handledFrame, modObj, hobj]
      · cases hclosing with
        | notCalled _ hl _ h₁ h₂ h₃ => exact .notCalled howner hl (.inr rfl) h₁ h₂ h₃
        | queued ho | writing ho | sent ho => exact absurd (howner.symm.trans ho) (by simp)
        | ended ho => simp [howner] at ho

/-! ### The send fiber -/

/-- A frame that has nothing to do with FINs or go-aways. -/
theorem finsSent_append {x : Option Task × Frame}
    (hx : s'.started = s.started ++ [x]) (hfin : x.2 = finFrame id) :
    s'.finsSent id = s.finsSent id + 1 := by
  have hflag : hasFlag flagFIN flagFIN = true := by decide
  rw [finsSent, hx, List.countP_append, List.countP_singleton, hfin]
  simp [finFrame, hflag, finsSent]

/-- What the send fiber does for a `close()`: it starts the FIN task, or writes the FIN. -/
theorem EndInv.send_step {b : SendAction} (hinv : EndInv id r s o)
    (hin : Incoming id r s o p) (hC : fullWrite s (.send b) = true)
    (h : s.step (.send b) = some s') :
    (∃ o', EndInv id r s' o' ∧ Incoming id r s' o' p) ∧
      ((s'.out = s.out ∧ s'.started = s.started) ∨
        (s.finsSent id = 0 ∧ s'.finsSent id = 1 ∧ s'.out = s.out ++ (finFrame id).bytes)) := by
  obtain ⟨hobj, hnamed, hlive, hclose, hending, hreg, hgo, hclosing⟩ := hinv
  have hnone : s.sendPc = .idle → s.sendChan ≠ [] := by
    intro hpc hchan
    simp only [step, Option.ite_none_left_eq_some] at h
    cases b <;> simp [sendStep, hpc, hchan] at h
  cases hclosing with
  | notCalled _ _ _ hpc hchan => exact absurd hchan (hnone hpc)
  | sent _ hpc hchan => exact absurd hchan (hnone hpc)
  | ended _ hpc hchan => exact absurd hchan (hnone hpc)
  | queued howner hpc hchan hfins =>
      obtain ⟨junk, rfl⟩ := startTask_of_idle hpc hchan h
      have hid : { s with sendChan := [] }.objId r = id := by
        simp only [objId, hobj, Option.map_some, Option.getD_some, hnamed]
      rw [startTask, hid, sendMessage_of_open (by exact hlive)]
      exact ⟨⟨o, ⟨hobj, hnamed, hlive, hclose, hending, hreg, hgo,
        .writing howner rfl rfl hfins⟩, hin.of_eq rfl rfl rfl (.inl ⟨rfl, rfl⟩)⟩,
        .inl ⟨rfl, rfl⟩⟩
  | writing howner hpc hchan hfins =>
      obtain ⟨n, rfl, rfl⟩ := writeHeader_of_header hpc h
      have hsock : s.sockClosed = false := by rw [sockClosed, hclose]
      obtain rfl : n = headerSize := by simpa [fullWrite, hsock] using hC
      have hnot : headerSize ≠ 0 := by decide
      have hbytes : (finFrame id).hdr.encode.take headerSize = (finFrame id).bytes := by
        rw [List.take_of_length_le (by simp), Frame.bytes]
        simp [Frame.payload, finFrame]
      have heq : s.writeHeader (.fin r flagFIN) r (finFrame id) headerSize =
          { s with
            objs := s.objs.modify r MuxStream.finDone
            out := s.out ++ (finFrame id).bytes
            started := s.started ++ [(some (.fin r flagFIN), finFrame id)]
            sendPc := .idle } := by
        rw [Session.writeHeader, if_neg hnot, hbytes]
        rfl
      have hdone : o.finDone.owner = .finSent := by rw [MuxStream.finDone, if_pos howner]
      rw [heq]
      refine ⟨⟨o.finDone, ⟨?_, hnamed, hlive, hclose, hending, hreg, ?_, ?_⟩, ?_⟩,
        .inr ⟨hfins, ?_, rfl⟩⟩
      · simp [hobj]
      · intro x hx
        rw [List.mem_append, List.mem_singleton] at hx
        obtain hx | rfl := hx
        · exact hgo x hx
        · simp [finFrame]
      · exact .sent hdone rfl hchan (by rw [finsSent_append rfl rfl, hfins])
      · exact hin.of_eq rfl rfl rfl
          (.inr ⟨by simp [hdone], hin.not_flags (by simp [howner])⟩)
      · rw [finsSent_append rfl rfl, hfins]

/-! ### The application -/

/-- The owner's side, when a call of `recv` or `send` starts or returns. -/
theorem EndInv.call (hinv : EndInv id r s o) (hin : Incoming id r s o p)
    (hid : o'.id = o.id) (howner : o'.owner = o.owner) (hstate : o'.state = o.state)
    (hlock : o'.stateLock = o.stateLock) :
    EndInv id r (s.modObj r fun _ => o') o' ∧ Incoming id r (s.modObj r fun _ => o') o' p := by
  refine ⟨⟨by simp [modObj, hinv.obj], hid.trans hinv.named, hinv.live, hinv.closePc,
    hinv.ending, hinv.reg, hinv.noGoAway, ?_⟩, hin.of_eq rfl rfl rfl (.inl ⟨howner, hstate⟩)⟩
  cases hinv.closing with
  | notCalled ho hl hst h₁ h₂ h₃ =>
      exact .notCalled (howner.trans ho) (hlock.trans hl) (hstate ▸ hst) h₁ h₂ h₃
  | queued ho h₁ h₂ h₃ => exact .queued (howner.trans ho) h₁ h₂ h₃
  | writing ho h₁ h₂ h₃ => exact .writing (howner.trans ho) h₁ h₂ h₃
  | sent ho h₁ h₂ h₃ => exact .sent (howner.trans ho) h₁ h₂ h₃
  | ended ho h₁ h₂ h₃ => exact .ended (howner ▸ ho) h₁ h₂ h₃

/-- The owner goes on to close the stream: the send fiber has nothing to do for it. -/
theorem EndInv.ended (hinv : EndInv id r s o) (hin : Incoming id r s o p)
    (hobjs : s'.objs[r]? = some o') (hid : o'.id = o.id)
    (howner : o'.owner = .waitWg ∨ o'.owner = .dereg ∨ o'.owner = .returned)
    (hflags : s.recvPc ≠ .flags r) (hpc : s.sendPc = .idle) (hchan : s.sendChan = [])
    (hfins : s.finsSent id ≤ 1) (hreg : s'.streams = s.streams ∨ s'.streams id = none)
    (heq : s' = { s with objs := s'.objs, streams := s'.streams }) :
    EndInv id r s' o' ∧ Incoming id r s' o' p := by
  have hne : o'.owner ≠ .idle := by
    intro hidle
    simp [hidle] at howner
  rw [heq]
  refine ⟨⟨hobjs, hid.trans hinv.named, hinv.live, hinv.closePc, hinv.ending, ?_,
    hinv.noGoAway, .ended howner hpc hchan hfins⟩, hin.of_eq rfl rfl rfl (.inr ⟨hne, hflags⟩)⟩
  obtain hsame | hnone := hreg
  · exact hsame ▸ hinv.reg
  · exact .inr hnone

/-- Once the FIN is sent the send fiber has nothing to do for the stream. -/
theorem Closing.idle_of_sent (h : Closing id r s o) (ho : o.owner = .finSent) :
    s.sendPc = .idle ∧ s.sendChan = [] ∧ s.finsSent id = 1 := by
  cases h with
  | sent _ h₁ h₂ h₃ => exact ⟨h₁, h₂, h₃⟩
  | notCalled h | queued h | writing h => exact absurd (ho.symm.trans h) (by simp)
  | ended h => simp [ho] at h

/-- The same once the stream is closed. -/
theorem Closing.idle_of_ended (h : Closing id r s o)
    (ho : o.owner = .waitWg ∨ o.owner = .dereg) :
    s.sendPc = .idle ∧ s.sendChan = [] ∧ s.finsSent id ≤ 1 := by
  cases h with
  | ended _ h₁ h₂ h₃ => exact ⟨h₁, h₂, h₃⟩
  | notCalled h | queued h | writing h | sent h => simp [h] at ho

/-- `close()` on a stream that is open on both sides queues a FIN. -/
theorem closeCall_established (ho : o.state = .established) :
    o.closeCall = (some flagFIN,
      { o with state := .localClose, stateLock := true, owner := .waitFin }) := by
  have hflags : (0 : UInt16) ||| flagFIN = flagFIN := by decide
  simp only [MuxStream.closeCall, ho, MuxStream.sendFlags, hflags]

/-- The first `close()` of the stream. -/
theorem EndInv.closeCall (hinv : EndInv id r s o) (hin : Incoming id r s o p)
    (howner : o.owner = .idle) (hflags : s.recvPc ≠ .flags r) :
    ∃ o', EndInv id r (s.closeCall r o) o' ∧ Incoming id r (s.closeCall r o) o' p := by
  cases hinv.closing with
  | queued ho | writing ho | sent ho => exact absurd (howner.symm.trans ho) (by simp)
  | ended ho => simp [howner] at ho
  | notCalled _ _ hstate hpc hchan hfins =>
      obtain hstate | hstate := hstate
      · rw [Session.closeCall, closeCall_established hstate]
        refine ⟨{ o with state := .localClose, stateLock := true, owner := .waitFin },
          ⟨?_, hinv.named, hinv.live, hinv.closePc, hinv.ending, hinv.reg, hinv.noGoAway,
            .queued rfl hpc ?_ hfins⟩, hin.of_eq rfl rfl rfl (.inr ⟨by simp, hflags⟩)⟩
        · simp [addSendTask, modObj, hinv.obj]
        · simp [addSendTask, modObj, hchan]
      · have heq : o.closeCall =
            (none, { o with state := .closed, owner := .waitWg }.notifyClose) := by
          simp only [MuxStream.closeCall, hstate]
        rw [Session.closeCall, heq]
        refine ⟨{ o with state := .closed, owner := .waitWg }.notifyClose,
          hinv.ended hin ?_ rfl (.inl rfl) hflags hpc hchan (by omega) (.inl rfl) rfl⟩
        simp [modObj, hinv.obj]

/-- What the application does on the stream. -/
theorem EndInv.app_step {b : AppAction} (hinv : EndInv id r s o) (hin : Incoming id r s o p)
    (hC : clearClose r s (.app b) = true) (h : s.step (.app b) = some s') :
    s'.out = s.out ∧ s'.started = s.started ∧
      ∃ o', EndInv id r s' o' ∧ Incoming id r s' o' p := by
  rw [clearClose, Bool.and_eq_true] at hC
  -- the call is on this stream
  have hself : ∀ {q : Ref} {o₁ : MuxStream}, s.objs[q]? = some o₁ → (q == r) = true →
      q = r ∧ o₁ = o := by
    intro q o₁ ho hq
    obtain rfl : q = r := by simpa using hq
    exact ⟨rfl, Option.some.inj (ho.symm.trans hinv.obj)⟩
  cases step_cases h with
  | app hc =>
    cases hc with
    | openCall | openTimeout | acceptStream | sendCall => simp [closeSteps] at hC
    | sendWake ho _ hw =>
        obtain ⟨rfl, rfl⟩ := hself ho hC.1
        obtain ⟨_, _, _, rfl⟩ := MuxStream.sendWake_frame hw
        exact ⟨rfl, rfl, _, hinv.call hin rfl rfl rfl rfl⟩
    | sendTimeout ho _ hw =>
        obtain ⟨rfl, rfl⟩ := hself ho hC.1
        obtain ⟨_, _, rfl⟩ := MuxStream.sendTimeout_frame hw
        exact ⟨rfl, rfl, _, hinv.call hin rfl rfl rfl rfl⟩
    | recvCall ho =>
        obtain ⟨rfl, rfl⟩ := hself ho hC.1
        obtain ⟨_, _, _, heq⟩ := MuxStream.recvCall_frame _ _
        rw [heq]
        exact ⟨rfl, rfl, _, hinv.call hin rfl rfl rfl rfl⟩
    | recvWake ho _ _ hw =>
        obtain ⟨rfl, rfl⟩ := hself ho hC.1
        obtain ⟨_, _, _, _, rfl⟩ := MuxStream.recvWake_frame hw
        exact ⟨rfl, rfl, _, hinv.call hin rfl rfl rfl rfl⟩
    | @closeCall q o₁ ho =>
        obtain ⟨rfl, rfl⟩ := hself ho (Bool.and_eq_true_iff.mp hC.1).1
        have hidle : o₁.owner = .idle := by simpa [closeSteps, ownerOf, ho] using hC.1
        have hflags : s.recvPc ≠ .flags q := by simpa [finClear] using hC.2
        obtain ⟨o', hend, hin'⟩ := hinv.closeCall hin hidle hflags
        refine ⟨?_, ?_, o', hend, hin'⟩
        · rw [Session.closeCall]
          split <;> rfl
        · rw [Session.closeCall]
          split <;> rfl
    | @closeFin q o₁ ho _ hsent =>
        obtain ⟨rfl, rfl⟩ := hself ho hC.1
        obtain ⟨hpc, hchan, hfins⟩ := hinv.closing.idle_of_sent hsent
        refine ⟨rfl, rfl, o₁.closeFin, hinv.ended hin ?_ rfl (.inl rfl)
          (hin.not_flags (by simp [hsent])) hpc hchan (by omega) (.inl rfl) rfl⟩
        simp [modObj, ho]
    | @closeWait q o₁ ho _ hwait =>
        obtain ⟨rfl, rfl⟩ := hself ho hC.1
        obtain ⟨hpc, hchan, hfins⟩ := hinv.closing.idle_of_ended (.inl hwait)
        refine ⟨rfl, rfl, { o₁ with owner := .dereg }, hinv.ended hin ?_ rfl (.inr (.inl rfl))
          (hin.not_flags (by simp [hwait])) hpc hchan hfins (.inl rfl) rfl⟩
        simp [modObj, ho]
    | @closeDereg q o₁ ho _ hdereg =>
        obtain ⟨rfl, rfl⟩ := hself ho hC.1
        obtain ⟨hpc, hchan, hfins⟩ := hinv.closing.idle_of_ended (.inr hdereg)
        refine ⟨rfl, rfl, { o₁ with owner := .returned }, hinv.ended hin ?_ rfl
          (.inr (.inr rfl)) (hin.not_flags (by simp [hdereg])) hpc hchan hfins (.inr ?_) rfl⟩
        · simp [modObj, closeStream, ho]
        · simp [modObj, closeStream, hinv.named]

/-! ### Both endpoints -/

/-- Of the peer, only the number of FINs it has sent matters. -/
theorem Incoming.of_peer {p' : Session} (h : Incoming id r s o p)
    (hp : p'.finsSent id = p.finsSent id) : Incoming id r s o p' := by
  cases h with
  | notSent h₁ h₂ h₃ h₄ => exact .notSent (hp.trans h₁) h₂ h₃ h₄
  | onWire h₁ h₂ h₃ h₄ => exact .onWire (hp.trans h₁) h₂ h₃ h₄
  | decoded h₁ h₂ h₃ h₄ h₅ => exact .decoded (hp.trans h₁) h₂ h₃ h₄ h₅
  | found h₁ h₂ h₃ h₄ h₅ h₆ => exact .found (hp.trans h₁) h₂ h₃ h₄ h₅ h₆
  | handled h₁ h₂ h₃ => exact .handled (hp.trans h₁) h₂ h₃

/-- What one endpoint's step does to it and to the wire: nothing is written, or the one
FIN. -/
theorem EndInv.step (hinv : EndInv id r s o) (hin : Incoming id r s o p)
    (hC : clearClose r s a = true) (h : s.step a = some s') :
    (∃ o', EndInv id r s' o' ∧ Incoming id r s' o' p) ∧
      ((s'.out = s.out ∧ s'.started = s.started) ∨
        (s.finsSent id = 0 ∧ s'.finsSent id = 1 ∧ s'.out = s.out ++ (finFrame id).bytes)) := by
  cases a with
  | recv b =>
      obtain ⟨hout, hstarted, hend⟩ := hinv.recv_step hin (Bool.and_eq_true_iff.mp hC).2 h
      exact ⟨hend, .inl ⟨hout, hstarted⟩⟩
  | send b => exact hinv.send_step hin (Bool.and_eq_true_iff.mp hC).1 h
  | app b =>
      obtain ⟨hout, hstarted, hend⟩ := hinv.app_step hin hC h
      exact ⟨hend, .inl ⟨hout, hstarted⟩⟩
  | keep | close => simp [clearClose, closeSteps] at hC

/-- What is written reaches a peer that is open. -/
theorem deliver_of_open (hp : p.closePc = .open) (bytes : List UInt8) :
    p.deliver bytes false =
      { p with source := { p.source with bytes := p.source.bytes ++ bytes } } := by
  have hsock : p.sockClosed = false := by rw [sockClosed, hp]
  simp [deliver, hsock]

/-- **One step of one endpoint keeps both in their places.** -/
theorem EndInv.advance {y : Session × Session} {op : MuxStream} (hs : EndInv id r s o)
    (hp : EndInv id q p op) (hin : Incoming id r s o p) (hout : Incoming id q p op s)
    (hC : clearClose r s a = true) (h : s.advance p a = some y) :
    ∃ o', EndInv id r y.1 o' ∧ EndInv id q y.2 op ∧ Incoming id r y.1 o' y.2 ∧
      Incoming id q y.2 op y.1 := by
  obtain ⟨s', hstep, rfl⟩ := Option.map_eq_some_iff.mp h
  obtain ⟨⟨o', hs', hin'⟩, hwrite⟩ := hs.step hin hC hstep
  have hsock : s'.sockClosed = false := by rw [sockClosed, hs'.closePc]
  simp only [hsock, deliver_of_open hp.closePc]
  obtain ⟨hsame, hstarted⟩ | ⟨hzero, hone, hbytes⟩ := hwrite
  · have hfins : s'.finsSent id = s.finsSent id := by rw [finsSent, finsSent, hstarted]
    rw [hsame, List.drop_length, List.append_nil]
    exact ⟨o', hs', hp, hin', hout.of_peer hfins⟩
  · rw [hbytes, List.drop_left]
    refine ⟨o', hs', ⟨hp.obj, hp.named, hp.live, hp.closePc, hp.ending, hp.reg, hp.noGoAway,
      hp.closing.of_eq rfl rfl rfl⟩, hin'.of_peer rfl, ?_⟩
    cases hout with
    | notSent _ hempty hpc hun =>
        exact .onWire hone (by simp [hempty]) hpc hun
    | onWire hsent | decoded hsent | found hsent | handled hsent => omega

/-- An endpoint in its place has met no protocol error. -/
theorem EndInv.noProtocolError (hinv : EndInv id r s o) (hin : Incoming id r s o p) :
    NoProtocolError s := by
  refine ⟨?_, fun reason hmem => ?_, hinv.noGoAway⟩
  · cases hin with
    | notSent _ _ hpc | onWire _ _ hpc | found _ _ hpc | handled _ _ hpc => rw [hpc]; rfl
    | decoded _ _ hpc => obtain hpc | hpc := hpc <;> rw [hpc] <;> rfl
  · cases hinv.closing with
    | notCalled _ _ _ _ hchan | queued _ _ hchan | writing _ _ hchan | sent _ _ hchan
    | ended _ _ hchan => simp [hchan] at hmem

/-- An established stream, as an endpoint in its place. -/
theorem Established.endInv (h : Established id r s) (hp : p.finsSent id = 0) :
    ∃ o, EndInv id r s o ∧ Incoming id r s o p := by
  obtain ⟨⟨o, hobj, hid, hstate, hlock, howner⟩, hreg, ⟨hlive, hclose⟩, ⟨hpc, hchan⟩,
    ⟨htop, hbytes, hending⟩, hfins, hgo⟩ := h
  exact ⟨o, ⟨hobj, hid, hlive, hclose, hending, .inl hreg, hgo,
    .notCalled howner hlock (.inl hstate) hpc hchan hfins⟩,
    .notSent hp hbytes htop fun _ => hstate⟩

end Session

/-- Both endpoints in their places. -/
def Duplex.InPlace (id : UInt32) (l r : Ref) (d : Duplex) : Prop :=
  ∃ ol or, Session.EndInv id l d.left ol ∧ Session.EndInv id r d.right or ∧
    Session.Incoming id l d.left ol d.right ∧ Session.Incoming id r d.right or d.left

/-- One step of the two sessions. -/
theorem Duplex.InPlace.step {id : UInt32} {l r : Ref} {d d' : Duplex}
    {x : Side × Session.Action} (hinv : InPlace id l r d)
    (hC : onSide Session.clearClose l r d x = true) (h : d.step x = some d') :
    InPlace id l r d' := by
  obtain ⟨ol, or, hl, hr, hinl, hinr⟩ := hinv
  obtain ⟨side, a⟩ := x
  cases side with
  | left =>
      obtain ⟨y, hy, rfl⟩ := Option.map_eq_some_iff.mp h
      obtain ⟨ol', hl', hr', hinl', hinr'⟩ := hl.advance hr hinl hinr hC hy
      exact ⟨ol', or, hl', hr', hinl', hinr'⟩
  | right =>
      obtain ⟨y, hy, rfl⟩ := Option.map_eq_some_iff.mp h
      obtain ⟨or', hr', hl', hinr', hinl'⟩ := hr.advance hl hinr hinl hC hy
      exact ⟨ol, or', hl', hr', hinl', hinr'⟩

/-- **Closing from both sides is safe as long as FIN and `close()` keep apart.** From any
state of two sessions that share an established stream, in every run in which each end
closes it once and no FIN is looked up while that end's `close()` holds or has held the lock
with the entry still there, nor `close()` called between the look-up and the lock, no
handler fails and no go-away is queued or sent. -/
theorem no_protocol_error_of_close {id : UInt32} {l r : Ref} {d₀ d : Duplex}
    (hl : Session.Established id l d₀.left) (hr : Session.Established id r d₀.right)
    (h : Reach Duplex.step (Duplex.onSide Session.clearClose l r) d₀ d) :
    Session.NoProtocolError d.left ∧ Session.NoProtocolError d.right := by
  obtain ⟨ol, hol, hinl⟩ := hl.endInv hr.noFin
  obtain ⟨or, hor, hinr⟩ := hr.endInv hl.noFin
  obtain ⟨ol', or', hl', hr', hinl', hinr'⟩ := h.invariant (Duplex.InPlace id l r)
    ⟨ol, or, hol, hor, hinl, hinr⟩ fun hinv hC hs => hinv.step hC hs
  exact ⟨hl'.noProtocolError hinl', hr'.noProtocolError hinr'⟩

/-- A client opens a stream and the server accepts it. -/
def openAndAccept : List (Side × Session.Action) :=
  [(.left, .app .openCall), (.left, .send (.runTask 0)), (.left, .send (.writeHeader 12)),
    (.left, .send .emplace), (.right, .recv .recvHeader), (.right, .recv .dispatch),
    (.right, .recv (.ackWrite 12)), (.right, .recv .emplace), (.right, .recv .lookup),
    (.right, .recv .processFlags), (.left, .recv .recvHeader), (.left, .recv .dispatch),
    (.left, .recv .lookup), (.left, .recv .processFlags)]

/-- The theorem at a client and a server that both close, each removing its entry before it
looks up the other's FIN. -/
theorem no_protocol_error_both_removed :
    ∃ d₀ d, Reach Duplex.step always Duplex.init d₀ ∧
      Reach Duplex.step (Duplex.onSide Session.clearClose 0 0) d₀ d ∧
      (d.left.ownerOf 0 = some .returned ∧ d.right.ownerOf 0 = some .returned) ∧
      Session.NoProtocolError d.left ∧ Session.NoProtocolError d.right := by
  obtain ⟨d₀, d, h₀, ⟨hl, hr⟩, h, hend⟩ : ∃ d₀ d,
      Reach Duplex.step always Duplex.init d₀ ∧
      (Session.Established 3 0 d₀.left ∧ Session.Established 3 0 d₀.right) ∧
      Reach Duplex.step (Duplex.onSide Session.clearClose 0 0) d₀ d ∧
      (d.left.ownerOf 0 = some .returned ∧ d.right.ownerOf 0 = some .returned) :=
    Reach.exists_of_exec_twice openAndAccept
      [(.left, .app (.closeCall 0)), (.right, .app (.closeCall 0)),
        (.left, .send (.runTask 0)), (.left, .send (.writeHeader 12)),
        (.left, .app (.closeFin 0)), (.left, .app (.closeWait 0)),
        (.left, .app (.closeDereg 0)), (.right, .send (.runTask 0)),
        (.right, .send (.writeHeader 12)), (.right, .app (.closeFin 0)),
        (.right, .app (.closeWait 0)), (.right, .app (.closeDereg 0)),
        (.left, .recv .recvHeader), (.left, .recv .dispatch), (.left, .recv .lookup),
        (.right, .recv .recvHeader), (.right, .recv .dispatch), (.right, .recv .lookup)]
      (by decide +kernel)
  exact ⟨d₀, d, h₀, h, hend, no_protocol_error_of_close hl hr h⟩

/-- **A session lost to a FIN**: a client and a server share an established stream, each
closes it once, and the client looks up the server's FIN after its own `close()` has released
the lock and before it has removed the entry. Its handler fails and it queues a go-away. -/
theorem both_close_fails :
    ∃ d₀ d, Reach Duplex.step always Duplex.init d₀ ∧
      (Session.Established 3 0 d₀.left ∧ Session.Established 3 0 d₀.right) ∧
      Reach Duplex.step (Duplex.onSide Session.closeSteps 0 0) d₀ d ∧
      Session.handlerFailed d.left.recvPc = true ∧
      d.left.sendChan = [Session.goAwayTask] :=
  Reach.exists_of_exec_twice openAndAccept
    [(.left, .app (.closeCall 0)), (.right, .app (.closeCall 0)), (.left, .send (.runTask 0)),
      (.left, .send (.writeHeader 12)), (.left, .app (.closeFin 0)),
      (.right, .send (.runTask 0)), (.right, .send (.writeHeader 12)),
      (.left, .recv .recvHeader), (.left, .recv .dispatch), (.left, .recv .lookup),
      (.left, .recv .processFlags)] (by decide +kernel)

end ArchNet
