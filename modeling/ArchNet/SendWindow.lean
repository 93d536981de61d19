import ArchNet.Registry

/-!
# The Send Window of a Stream

`send` looks at `send_window_` once, to see whether it is zero, and never takes anything
from it: nothing relates the sizes of the Data frames of a stream to the window its peer has
granted. What the code does guarantee is stated here under the condition its check leaves to
the callers — every Data frame that is put on the wire, with those sent before it, is within
`send_window_`.

* `sentBytes`, `grantedBytes` — what a session has put on the wire for a stream, and the
  window deltas it has received for it.
* `Credit` — `send_window_` is no larger than the initial window and the deltas received.
* `Link` — one direction of a stream between two endpoints that run this code: the sending
  and the receiving stream object, Data frames and window updates in flight.

## Main results

* `Session.Credit.step`: no step makes `send_window_` larger than what has been granted.
* `sent_le_window`: **within the window** — under that condition a session never exceeds the
  window of any stream, and at the other end of a stream the window check of `read_data` is
  never triggered.
* `one_send_exceeds_window`: a single `send` of one byte more than the initial window is put
  on the wire and makes the peer's check fail.
-/

namespace ArchNet

open Lts MuxStream

/-- The window a stream starts with, as a number of bytes. -/
@[irreducible]
def initialWindow : ℕ := maxStreamWindowSize.toNat

theorem initialWindow_eq : initialWindow = 262144 := by
  rw [initialWindow]
  decide

/-! ### The session's account of a stream -/

namespace Session

/-- The payload that a started frame carries for stream object `r`. -/
def dataBytes (r : Ref) : Option Task × Frame → ℕ
  | (some (.data q _ _), f) => if q = r then f.payload.length else 0
  | _ => 0

/-- The payload of the Data frames put on the wire for stream object `r`. -/
def sentBytes (s : Session) (r : Ref) : ℕ := (s.started.map (dataBytes r)).sum

/-- The window deltas received for stream object `r`. -/
def grantedBytes (s : Session) (r : Ref) : ℕ :=
  (s.handled.map fun x =>
    if x.1.msgType = .windowUpdate ∧ x.2 = some r then x.1.length.toNat else 0).sum

/-- The initial window of a stream and all that has been added to it. -/
def sendBudget (s : Session) (r : Ref) : ℕ := initialWindow + s.grantedBytes r

/-- A Data frame about to be put on the wire, with what was sent on its stream before, is no
larger than `send_window_`. Since nothing is ever taken from that counter, what was sent before has
to be counted beside it: frames of the size of the window each would exceed it together. -/
def sendFits (s : Session) : Action → Bool
  | .send (.writeHeader n) =>
      match s.sendPc with
      | .header (.data r _ _) _ f =>
          n == 0 || (s.objs[r]?).any fun o =>
            decide (s.sentBytes r + f.payload.length ≤ o.sendWindow.toNat)
      | _ => true
  | _ => true

/-- No `send_window_` is larger than what has been granted. -/
def Credit (s : Session) : Prop :=
  ∀ r o, s.objs[r]? = some o → o.sendWindow.toNat ≤ s.sendBudget r

/-- Every stream is within its window. -/
def WithinWindow (s : Session) : Prop := ∀ r, s.sentBytes r ≤ s.sendBudget r

variable {s s' : Session} {a : Action} {r : Ref} {o o' : MuxStream}

/-- The deltas received only grow. -/
theorem sendBudget_mono (h : s.step a = some s') (r : Ref) :
    s.sendBudget r ≤ s'.sendBudget r := by
  rw [sendBudget, sendBudget, grantedBytes, grantedBytes]
  obtain he | he := step_handled h
  · rw [he]
  · rw [he, List.map_append, List.sum_append]
    omega

/-- The length of a window update for a stream is added to what it is granted. -/
theorem sendBudget_update (hhandled : s'.handled = s.handled ++ [(s.hdr, some r)])
    (htype : s.hdr.msgType = .windowUpdate) :
    s'.sendBudget r = s.sendBudget r + s.hdr.length.toNat := by
  simp only [sendBudget, grantedBytes, hhandled, List.map_append, List.map_singleton,
    List.sum_append, List.sum_singleton]
  rw [if_pos ⟨htype, trivial⟩, Nat.add_assoc]

/-- Only `increase_send_window` changes the send window. -/
theorem ObjStep.sendWindow_eq (h : ObjStep s a r o o')
    (ha : a ≠ .recv .processFlags) : o'.sendWindow = o.sendWindow := by
  cases h with
  | increase | check => exact absurd rfl ha
  | body _ _ _ h =>
      obtain ⟨_, _, _, _, _, _, rfl⟩ := readDataBody_frame h
      rfl
  | task => obtain ⟨_, _, h⟩ := sendTask_frame _ _ _; rw [h]
  | taskFail =>
      obtain ⟨_, _, h⟩ := sendTask_frame _ _ _
      rw [sendTaskDone, h]
  | destroy | closeCall => obtain ⟨_, _, _, _, _, h⟩ := MuxStream.closeCall_frame _; rw [h]
  | sendCall => obtain ⟨_, _, h⟩ := MuxStream.sendCall_frame _ _ _; rw [h]
  | sendWake _ h => obtain ⟨_, _, _, rfl⟩ := sendWake_frame h; rfl
  | sendTimeout _ h => obtain ⟨_, _, rfl⟩ := sendTimeout_frame h; rfl
  | recvCall => obtain ⟨_, _, _, h⟩ := recvCall_frame _ _; rw [h]
  | recvWake _ _ h => obtain ⟨_, _, _, _, rfl⟩ := recvWake_frame h; rfl
  | _ => rfl

/-- One object is replaced by one whose window has been granted. -/
theorem Credit.replace (hcredit : Credit s) (hobjs : s'.objs = s.objs.modify r fun _ => o')
    (hmono : ∀ q, s.sendBudget q ≤ s'.sendBudget q)
    (hwindow : o'.sendWindow.toNat ≤ s'.sendBudget r) : Credit s' := by
  intro q o₁ ho₁
  rw [hobjs, List.getElem?_modify] at ho₁
  by_cases hq : r = q
  · subst hq
    obtain ⟨o, -, rfl⟩ := Option.map_eq_some_iff.mp ho₁
    simpa using hwindow
  · simp only [if_neg hq, id_map'] at ho₁
    exact (hcredit q o₁ ho₁).trans (hmono q)

/-- **A window update adds to the counter no more than it grants.** -/
theorem Credit.flags_step (hcredit : Credit s) (hreg : RegInv s)
    (h : s.step (.recv .processFlags) = some s') : Credit s' := by
  have hmono := sendBudget_mono h
  cases step_cases h with
  | recv hc =>
    cases hc with
    | updateErr => exact hcredit
    | @update r o o' hpc ho _ htype hinc =>
        obtain ⟨x, d, e, rfl⟩ := increaseSendWindow_frame hinc
        refine hcredit.replace rfl hmono ?_
        have hfound := hreg.found r (by rw [lookedUp, hpc])
        rw [sendBudget_update (s := s) (by rw [← hfound]; rfl) htype, UInt32.toNat_add]
        have hle := hcredit r o ho
        have hmod := Nat.mod_le (o.sendWindow.toNat + s.hdr.length.toNat) (2 ^ 32)
        omega
    | @checkErr r o o' _ ho _ _ hchk =>
        obtain ⟨x, rfl⟩ := readDataCheck_error hchk
        exact hcredit.replace rfl hmono ((hcredit r o ho).trans (hmono r))
    | @check r _ o o' _ ho _ _ hchk =>
        obtain ⟨⟨x, rfl⟩, -⟩ := readDataCheck_ok hchk
        exact hcredit.replace rfl hmono ((hcredit r o ho).trans (hmono r))

/-- **No step makes `send_window_` larger than what has been granted.** -/
theorem Credit.step (hcredit : Credit s) (hreg : RegInv s) (h : s.step a = some s') :
    Credit s' := by
  have hmono := sendBudget_mono h
  by_cases ha : a = .recv .processFlags
  · subst ha
    exact hcredit.flags_step hreg h
  · refine forall_objs_of_step h ?_ ?_ hcredit
    · intro r o o' _ hstep hle
      rw [hstep.sendWindow_eq ha]
      exact hle.trans (hmono r)
    · intro o hnew
      have hwindow : o.sendWindow = maxStreamWindowSize := by cases hnew <;> rfl
      rw [hwindow, sendBudget, initialWindow]
      exact Nat.le_add_right _ _

/-- **A step within the condition stays within the windows.** -/
theorem WithinWindow.step (hin : WithinWindow s) (hcredit : Credit s)
    (hC : sendFits s a = true) (h : s.step a = some s') : WithinWindow s' := by
  intro r
  refine le_trans ?_ (sendBudget_mono h r)
  obtain he | ⟨x, f, hstart, he⟩ := step_started h
  · rw [sentBytes]
    rw [he]
    exact hin r
  · have hsent : s'.sentBytes r = s.sentBytes r + dataBytes r (x, f) := by
      simp only [sentBytes, he, List.map_append, List.map_singleton, List.sum_append,
        List.sum_singleton]
    rw [hsent]
    cases hstart with
    | ack => exact hin r
    | @task n t q f hn hpc =>
        cases t with
        | data q' ticket p =>
            by_cases hq : q' = r
            · subst hq
              rw [sendFits, hpc] at hC
              obtain hzero | hfits := Bool.or_eq_true_iff.mp hC
              · exact absurd (eq_of_beq hzero) hn
              · obtain ⟨o, ho, hle⟩ := (Option.any_eq_true _ _).mp hfits
                rw [dataBytes, if_pos rfl]
                exact (of_decide_eq_true hle).trans (hcredit q' o ho)
            · simpa only [dataBytes, if_neg hq, Nat.add_zero] using hin r
        | _ => exact hin r

end Session

/-! ### The two ends of a stream -/

/-- One direction of a stream between two endpoints: the sending stream object with the
`send` tasks queued for it, the Data frames in flight, the receiving stream object, and the
window updates on their way back. `sent`, `granted` and `refused` are history: the payload
put on the wire, the deltas that have arrived, and whether the window check of `read_data`
has failed. -/
structure Link where
  snd : MuxStream
  rcv : MuxStream
  tasks : List (ℕ × List UInt8) := []
  wire : List (Header × List UInt8) := []
  updates : List Header := []
  tickets : ℕ := 0
  sent : ℕ := 0
  granted : ℕ := 0
  refused : Bool := false

namespace Link

/-- The actions of a link: a `send` call, the send fiber running its task, a Data frame
arriving, a `recv` call, a `send_window_update` of the receiver, a window update arriving. -/
inductive LinkAction
  | sendCall (b : List UInt8)
  | runTask
  | dataArrives
  | recvCall (count : ℕ)
  | grant
  | updateArrives
  deriving Repr, DecidableEq

/-- A stream that has just been set up, in the given states of its two ends. -/
def init (streamId : UInt32) (x y : StreamState) : Link :=
  { snd := { id := streamId, state := x }, rcv := { id := streamId, state := y } }

/-- The receiving end of a Data frame: the check, then the body. -/
def arrive (l : Link) (h : Header) (b : List UInt8) : Link :=
  match l.rcv.readDataCheck h with
  | .error rcv => { l with rcv := rcv, refused := true }
  | .ok (close, rcv) =>
      match rcv.readDataBody h.length close b.length b with
      | .ok rcv | .err rcv => { l with rcv := rcv }
      | .abort => { l with refused := true }

/-- The receiver after a `send_window_update`, whose message, if any, is on its way. -/
def grant (l : Link) : Option Header × MuxStream → Link
  | (none, rcv) => { l with rcv := rcv }
  | (some h, rcv) => { l with rcv := rcv, updates := l.updates ++ [h] }

/-- **One step of a link.** -/
def step (l : Link) : LinkAction → Option Link
  | .sendCall b =>
      let (queued, snd) := l.snd.sendCall l.tickets b.length
      some { l with
        snd := snd
        tickets := l.tickets + 1
        tasks := if queued then l.tasks ++ [(l.tickets, b)] else l.tasks }
  | .runTask =>
      match l.tasks with
      | (ticket, b) :: rest =>
          match l.snd.sendTask ticket b.length with
          | (none, snd) => some { l with snd := snd, tasks := rest }
          | (some h, snd) => some { l with
              snd := snd.sendTaskDone ticket true
              tasks := rest
              wire := l.wire ++ [(h, b)]
              sent := l.sent + b.length }
      | [] => none
  | .dataArrives =>
      match l.wire with
      | (h, b) :: rest =>
          if l.rcv.recvLock ∨ l.refused then none
          else some (arrive { l with wire := rest } h b)
      | [] => none
  | .recvCall count =>
      if l.rcv.recvLock then none else some { l with rcv := l.rcv.recvCall count }
  | .grant => some (l.grant l.rcv.sendWindowUpdate)
  | .updateArrives =>
      match l.updates with
      | h :: rest =>
          (l.snd.increaseSendWindow h).map fun snd =>
            { l with snd := snd, updates := rest, granted := l.granted + h.length.toNat }
      | [] => none

/-- A Data frame about to be put on the wire, with what was sent before, is no larger than
`send_window_`. -/
def fits (l : Link) : LinkAction → Bool
  | .runTask =>
      match l.tasks with
      | (_, b) :: _ => decide (l.sent + b.length ≤ l.snd.sendWindow.toNat)
      | [] => true
  | _ => true

/-! ### The member functions on an open stream -/

/-- The two states of a stream that is open and past its own SYN or ACK. -/
def Running (st : MuxStream) : Prop := st.state = .synSent ∨ st.state = .established

variable {st st' : MuxStream}

theorem sendFlags_running (h : Running st) : st.sendFlags = (0, st) := by
  rw [sendFlags]
  obtain h | h := h <;> rw [h]

theorem isShut_running (h : Running st) : st.state.isShut = false := by
  obtain h | h := h <;> rw [h] <;> rfl

/-- Frames without flags leave the state alone. -/
theorem processFlags_zero : st.processFlags 0 = some (false, st) := by
  have hack : hasFlag 0 flagACK = false := by decide
  have hfin : hasFlag 0 flagFIN = false := by decide
  have hrst : hasFlag 0 flagRST = false := by decide
  simp [processFlags, processAck, processFin, processRst, hack, hfin, hrst]

theorem sendTask_running (h : Running st) (ticket count : ℕ) :
    st.sendTask ticket count =
      (some ⟨.data, 0, st.id, UInt32.ofNat count⟩, st) := by
  simp only [sendTask, isShut_running h, sendFlags_running h, Bool.false_eq_true, if_false]

/-- What `send_window_update` gives back, when buffer and window fit the maximum: the window
is raised by exactly the delta that is sent, and still fits. -/
theorem sendWindowUpdate_running (h : Running st)
    (hroom : st.recvBuff.length + st.recvWindow.toNat ≤ initialWindow)
    {msg : Option Header} (hu : st.sendWindowUpdate = (msg, st')) :
    (msg = none ∧ st' = st) ∨
      ∃ h w, msg = some h ∧ h.flags = 0 ∧ st' = { st with recvWindow := w } ∧
        w.toNat = st.recvWindow.toNat + h.length.toNat ∧
        st.recvBuff.length + w.toNat ≤ initialWindow := by
  have hmax := initialWindow_eq
  have hsize : maxStreamWindowSize.toNat = 262144 := by decide
  have hbuff : (UInt32.ofNat st.recvBuff.length).toNat = st.recvBuff.length := by
    rw [UInt32.toNat_ofNat']
    exact Nat.mod_eq_of_lt (by omega)
  have hdelta : (maxStreamWindowSize - UInt32.ofNat st.recvBuff.length -
      st.recvWindow).toNat = 262144 - st.recvBuff.length - st.recvWindow.toNat := by
    have h₁ : (maxStreamWindowSize - UInt32.ofNat st.recvBuff.length).toNat =
        262144 - st.recvBuff.length := by
      rw [UInt32.toNat_sub_of_le _ _ (by rw [UInt32.le_iff_toNat_le]; omega), hbuff, hsize]
    rw [UInt32.toNat_sub_of_le _ _ (by rw [UInt32.le_iff_toNat_le]; omega), h₁]
  simp only [sendWindowUpdate, sendFlags_running h] at hu
  split at hu
  · obtain ⟨rfl, rfl⟩ := Prod.mk.inj hu
    exact .inl ⟨rfl, rfl⟩
  · obtain ⟨rfl, rfl⟩ := Prod.mk.inj hu
    have hw : (st.recvWindow + (maxStreamWindowSize - UInt32.ofNat st.recvBuff.length -
        st.recvWindow)).toNat = 262144 - st.recvBuff.length := by
      rw [UInt32.toNat_add, hdelta, Nat.mod_eq_of_lt (by omega)]
      omega
    refine .inr ⟨_, _, rfl, rfl, rfl, ?_, ?_⟩
    · rw [hw, hdelta]
      omega
    · rw [hw]
      omega

/-- `recv` takes from the buffer. -/
theorem recvCall_buff_le (st : MuxStream) (count : ℕ) :
    (st.recvCall count).recvBuff.length ≤ st.recvBuff.length := by
  rw [recvCall, takeNext]
  split
  · split <;> exact Nat.le_refl _
  · dsimp only
    split
    · simp
    · simp

/-! ### The account of a link -/

/-- What every step of a link keeps. -/
structure LinkInv (l : Link) : Prop where
  snd : Running l.snd
  rcv : Running l.rcv
  wire : ∀ x ∈ l.wire, x.1.flags = 0 ∧ x.1.length.toNat = x.2.length
  updates : ∀ h ∈ l.updates, h.flags = 0
  credit : l.snd.sendWindow.toNat ≤ initialWindow + l.granted
  within : l.sent ≤ initialWindow + l.granted
  sent : l.sent = l.rcv.appended.length + (l.wire.map fun x => x.2.length).sum
  window : l.rcv.recvWindow.toNat + l.rcv.appended.length =
    initialWindow + l.granted + (l.updates.map fun h => h.length.toNat).sum
  room : l.rcv.recvBuff.length + l.rcv.recvWindow.toNat ≤ initialWindow
  refused : l.refused = false

variable {l l' : Link}

theorem LinkInv.runTask {ticket : ℕ} {b : List UInt8} {rest : List (ℕ × List UInt8)}
    (hinv : LinkInv l) (hfits : l.sent + b.length ≤ l.snd.sendWindow.toNat) :
    LinkInv { l with
      snd := l.snd.sendTaskDone ticket true
      tasks := rest
      wire := l.wire ++ [(⟨.data, 0, l.snd.id, UInt32.ofNat b.length⟩, b)]
      sent := l.sent + b.length } := by
  have hmax := initialWindow_eq
  have hsent := hinv.sent
  have hwindow := hinv.window
  have hroom := hinv.room
  have hwithin := hfits.trans hinv.credit
  refine { hinv with
    snd := hinv.snd, credit := hinv.credit, wire := ?_, within := hwithin, sent := ?_ }
  · intro x hx
    rw [List.mem_append, List.mem_singleton] at hx
    obtain hx | rfl := hx
    · exact hinv.wire x hx
    · refine ⟨rfl, ?_⟩
      rw [UInt32.toNat_ofNat']
      exact Nat.mod_eq_of_lt (by omega)
  · simp only [List.map_append, List.map_singleton, List.sum_append, List.sum_singleton]
    omega

/-- **A Data frame that arrives passes the window check.** -/
theorem LinkInv.arrive {h : Header} {b : List UInt8} {rest : List (Header × List UInt8)}
    (hinv : LinkInv l) (hwire : l.wire = (h, b) :: rest) :
    LinkInv (arrive { l with wire := rest } h b) := by
  have hmax := initialWindow_eq
  obtain ⟨hflags, hlen⟩ := hinv.wire (h, b) (hwire ▸ List.mem_cons_self)
  have hsent := hinv.sent
  have hwindow := hinv.window
  have hroom := hinv.room
  have hwithin := hinv.within
  rw [hwire, List.map_cons, List.sum_cons] at hsent
  dsimp only at hflags hlen hsent
  have hfit : h.length ≤ l.rcv.recvWindow := by
    rw [UInt32.le_iff_toNat_le]
    omega
  have hcheck : l.rcv.readDataCheck h = .ok (false, l.rcv) := by
    simp only [readDataCheck, hflags, processFlags_zero, if_neg (UInt32.not_lt.mpr hfit)]
  simp only [Link.arrive, hcheck, ← hlen]
  by_cases hzero : h.length = 0
  · -- an empty body is an error of `read_data`, but not one of the window
    have hb : b = [] := List.length_eq_zero_iff.mp (by rw [← hlen, hzero]; rfl)
    have herr : l.rcv.readDataBody h.length false h.length.toNat b =
        .err { l.rcv with recvLock := true } := by
      rw [hzero, hb]
      exact l.rcv.readDataBody_empty false
    simp only [herr]
    refine { hinv with rcv := hinv.rcv, wire := ?_, sent := ?_ }
    · exact fun x hx => hinv.wire x (hwire ▸ List.mem_cons_of_mem _ hx)
    · simpa [hb] using hsent
  · obtain ⟨d, e, hok⟩ := l.rcv.readDataBody_full false b hzero
    have hsub : (l.rcv.recvWindow - h.length).toNat =
        l.rcv.recvWindow.toNat - h.length.toNat := UInt32.toNat_sub_of_le _ _ hfit
    have hle := UInt32.le_iff_toNat_le.mp hfit
    simp only [hok]
    refine { hinv with rcv := hinv.rcv, wire := ?_, sent := ?_, window := ?_, room := ?_ }
    · exact fun x hx => hinv.wire x (hwire ▸ List.mem_cons_of_mem _ hx)
    · simp only [List.length_append]
      omega
    · simp only [List.length_append, hsub]
      omega
    · simp only [List.length_append, hsub]
      omega

/-- The condition, read at the task that is about to run. -/
theorem fits_runTask {ticket : ℕ} {b : List UInt8} {rest : List (ℕ × List UInt8)}
    (htasks : l.tasks = (ticket, b) :: rest) (hC : fits l .runTask = true) :
    l.sent + b.length ≤ l.snd.sendWindow.toNat := by
  rw [fits] at hC
  rw [htasks] at hC
  exact of_decide_eq_true hC

/-- What the reader's side grants is under way before it counts. -/
theorem LinkInv.grant (hinv : LinkInv l) : LinkInv (l.grant l.rcv.sendWindowUpdate) := by
  rcases hu : l.rcv.sendWindowUpdate with ⟨msg, rcv⟩
  obtain ⟨rfl, rfl⟩ | ⟨hd, w, rfl, hflags, rfl, hw, hroom⟩ :=
    sendWindowUpdate_running hinv.rcv hinv.room hu
  · exact hinv
  · have hwindow := hinv.window
    simp only [Link.grant]
    refine { hinv with rcv := hinv.rcv, updates := ?_, window := ?_, room := hroom }
    · intro g hg
      rw [List.mem_append, List.mem_singleton] at hg
      obtain hg | rfl := hg
      · exact hinv.updates g hg
      · exact hflags
    · simp only [List.map_append, List.map_singleton, List.sum_append,
        List.sum_singleton, hw]
      omega

/-- A window update that arrives moves its amount to what is granted. -/
theorem LinkInv.updateArrives {hd : Header} {rest : List Header} {snd : MuxStream}
    (hinv : LinkInv l) (hup : l.updates = hd :: rest)
    (hinc : l.snd.increaseSendWindow hd = some snd) :
    LinkInv { l with snd := snd, updates := rest, granted := l.granted + hd.length.toNat } := by
  have hflags := hinv.updates hd (hup ▸ List.mem_cons_self)
  simp only [increaseSendWindow, hflags, processFlags_zero, Option.map_some,
    Bool.false_eq_true, if_false, Option.some.injEq] at hinc
  subst hinc
  have hwindow := hinv.window
  have hwithin := hinv.within
  have hcredit := hinv.credit
  have hmod := Nat.mod_le (l.snd.sendWindow.toNat + hd.length.toNat) (2 ^ 32)
  rw [hup, List.map_cons, List.sum_cons] at hwindow
  refine { hinv with
    snd := hinv.snd
    credit := by
      dsimp only
      rw [UInt32.toNat_add]
      omega
    updates := fun g hg => hinv.updates g (hup ▸ List.mem_cons_of_mem _ hg)
    within := by dsimp only; omega
    window := by dsimp only; omega }

/-- **Every step within the condition keeps the account.** -/
theorem LinkInv.step {a : LinkAction} (hinv : LinkInv l) (hC : fits l a = true)
    (h : l.step a = some l') : LinkInv l' := by
  cases a with
  | sendCall b =>
      obtain ⟨w, lg, hframe⟩ := l.snd.sendCall_frame l.tickets b.length
      rw [← Option.some.inj h]
      refine { hinv with snd := ?_, credit := ?_ }
      · show Running (l.snd.sendCall l.tickets b.length).2
        rw [hframe]
        exact hinv.snd
      · show (l.snd.sendCall l.tickets b.length).2.sendWindow.toNat ≤ initialWindow + l.granted
        rw [hframe]
        exact hinv.credit
  | runTask =>
      rw [Link.step] at h
      cases htasks : l.tasks with
      | nil =>
          rw [htasks] at h
          exact absurd h (by simp)
      | cons x rest =>
          obtain ⟨ticket, b⟩ := x
          rw [htasks] at h
          dsimp only at h
          rw [sendTask_running hinv.snd] at h
          rw [← Option.some.inj h]
          exact hinv.runTask (fits_runTask htasks hC)
  | dataArrives =>
      rw [Link.step] at h
      cases hwire : l.wire with
      | nil =>
          rw [hwire] at h
          exact absurd h (by simp)
      | cons x rest =>
          rw [hwire] at h
          dsimp only at h
          split at h
          · exact absurd h (by simp)
          · rw [← Option.some.inj h]
            exact hinv.arrive hwire
  | recvCall count =>
      rw [Link.step] at h
      simp only [Option.ite_none_left_eq_some, Option.some.injEq] at h
      obtain ⟨b, w, lg, hframe⟩ := l.rcv.recvCall_frame count
      have hle := recvCall_buff_le l.rcv count
      have hroom := hinv.room
      rw [hframe] at h hle
      rw [← h.2]
      dsimp only at hle
      exact { hinv with rcv := hinv.rcv, room := by dsimp only; omega }
  | grant =>
      rw [Link.step] at h
      rw [← Option.some.inj h]
      exact hinv.grant
  | updateArrives =>
      rw [Link.step] at h
      cases hup : l.updates with
      | nil =>
          rw [hup] at h
          exact absurd h (by simp)
      | cons hd rest =>
          rw [hup] at h
          obtain ⟨snd, hinc, rfl⟩ := Option.map_eq_some_iff.mp h
          exact hinv.updateArrives hup hinc

/-- A new link. -/
theorem LinkInv.init (streamId : UInt32) {x y : StreamState}
    (hx : x = .synSent ∨ x = .established) (hy : y = .synSent ∨ y = .established) :
    LinkInv (init streamId x y) where
  snd := hx
  rcv := hy
  wire := by simp [Link.init]
  updates := by simp [Link.init]
  credit := by simp [Link.init, initialWindow]
  within := by simp [Link.init]
  sent := by simp [Link.init]
  window := by simp [Link.init, initialWindow]
  room := by simp [Link.init, initialWindow]
  refused := rfl

/-- In every run within the condition the account of a link holds. -/
theorem linkInv_of_reach {streamId : UInt32} {x y : StreamState}
    (hx : x = .synSent ∨ x = .established) (hy : y = .synSent ∨ y = .established)
    (h : Reach Link.step fits (init streamId x y) l) : LinkInv l :=
  h.invariant LinkInv (.init streamId hx hy) fun hinv hC hs => hinv.step hC hs

end Link

/-- **Within the window.** In every run of a session, and in every run of the two ends of a
stream, in which each Data frame put on the wire, with those sent before it, is within
`send_window_`: the payload sent for a stream never exceeds its initial window and the deltas
received for it, and the window check of the receiving end never fails. -/
theorem sent_le_window {type : MuxStreamType} {src : Source} {streamId : UInt32}
    {x y : StreamState} (hx : x = .synSent ∨ x = .established)
    (hy : y = .synSent ∨ y = .established) :
    (∀ s r, Reach Session.step Session.sendFits (Session.init type src) s →
      s.sentBytes r ≤ initialWindow + s.grantedBytes r) ∧
    (∀ l, Reach Link.step Link.fits (Link.init streamId x y) l →
      l.sent ≤ initialWindow + l.granted ∧ l.refused = false) := by
  constructor
  · intro s r h
    have hin : Session.RegInv s ∧ Session.Credit s ∧ Session.WithinWindow s := by
      refine h.invariant (fun s => Session.RegInv s ∧ Session.Credit s ∧ Session.WithinWindow s)
        ⟨.init type src, ?_, ?_⟩ ?_
      · simp [Session.Credit, Session.init]
      · simp [Session.WithinWindow, Session.sentBytes, Session.init]
      · rintro s s' a ⟨hreg, hcredit, hin⟩ hC hs
        exact ⟨hreg.step hs, hcredit.step hreg hs, hin.step hcredit hC hs⟩
    exact hin.2.2 r
  · intro l h
    have hinv := Link.linkInv_of_reach hx hy h
    exact ⟨hinv.within, hinv.refused⟩

/-- The theorem at a session that has accepted a stream and answered three bytes on it, and
at a link that has carried three bytes. -/
theorem sent_le_window_three_bytes :
    (∃ s, Reach Session.step Session.sendFits (Session.init .server
        { bytes := Frame.bytes ⟨⟨.windowUpdate, flagSYN, 3, 0⟩, none⟩ }) s ∧
      s.sentBytes 0 = 3 ∧ s.sentBytes 0 ≤ initialWindow + s.grantedBytes 0) ∧
    ∃ l, Reach Link.step Link.fits (Link.init 3 .synSent .established) l ∧
      l.rcv.recvBuff = [7, 8, 9] ∧ l.sent ≤ initialWindow + l.granted ∧ l.refused = false := by
  constructor
  · obtain ⟨s, hs, hsent⟩ : ∃ s, Reach Session.step Session.sendFits (Session.init .server
        { bytes := Frame.bytes ⟨⟨.windowUpdate, flagSYN, 3, 0⟩, none⟩ }) s ∧
        s.sentBytes 0 = 3 :=
      Reach.exists_of_exec [.recv .recvHeader, .recv .dispatch, .recv (.ackWrite 12),
        .recv .emplace, .recv .lookup, .recv .processFlags,
        .app (.sendCall 0 (.bytes [7, 8, 9])), .send (.runTask 0), .send (.writeHeader 12),
        .send (.writeBody 3)] (by decide +kernel)
    have hle := (@sent_le_window .server _ 3 .synSent .established (.inl rfl) (.inr rfl)).1 s 0 hs
    exact ⟨s, hs, hsent, hle⟩
  · obtain ⟨l, hl, hbuff⟩ : ∃ l, Reach Link.step Link.fits
        (Link.init 3 .synSent .established) l ∧ l.rcv.recvBuff = [7, 8, 9] :=
      Reach.exists_of_exec [.sendCall [7, 8, 9], .runTask, .dataArrives] (by decide +kernel)
    have hwithin := (@sent_le_window .server { bytes := [] } 3 .synSent .established
      (.inl rfl) (.inr rfl)).2 l hl
    exact ⟨l, hl, hbuff, hwithin⟩

/-- The run of a link in which `b` is sent at once. -/
theorem Link.run_of_send (b : List UInt8) (hb : b.length = 262145) :
    ∃ l, Reach Link.step always (Link.init 3 .synSent .established) l ∧
      l.sent = b.length ∧ l.granted = 0 ∧ l.refused = true := by
  obtain ⟨snd, hsnd⟩ : ∃ snd : MuxStream, snd =
    { id := 3, state := .synSent, senders := [(0, b.length)] } := ⟨_, rfl⟩
  have hcall : (Link.init 3 .synSent .established).step (.sendCall b) =
      some { Link.init 3 .synSent .established with
        snd := snd, tickets := 1, tasks := [(0, b)] } := by
    rw [hsnd]
    rfl
  have htask : { Link.init 3 .synSent .established with
        snd := snd, tickets := 1, tasks := [(0, b)] }.step .runTask =
      some { Link.init 3 .synSent .established with
        snd := snd.sendTaskDone 0 true
        tickets := 1
        wire := [(⟨.data, 0, 3, 262145⟩, b)]
        sent := b.length } := by
    have hrun : Link.Running snd := .inl (by rw [hsnd])
    have hid : snd.id = 3 := by rw [hsnd]
    rw [Link.step]
    dsimp only
    rw [Link.sendTask_running hrun, hid, hb]
    rfl
  have harrive : { Link.init 3 .synSent .established with
        snd := snd.sendTaskDone 0 true
        tickets := 1
        wire := [(⟨.data, 0, 3, 262145⟩, b)]
        sent := b.length }.step .dataArrives =
      some { Link.init 3 .synSent .established with
        snd := snd.sendTaskDone 0 true, tickets := 1, sent := b.length, refused := true } := by
    have hcheck : MuxStream.readDataCheck { id := 3, state := .established }
        ⟨.data, 0, 3, 262145⟩ = .error { id := 3, state := .established } := by
      have hbig : (262145 : UInt32) > maxStreamWindowSize := by decide
      simp only [readDataCheck, Link.processFlags_zero, if_pos hbig]
    rw [Link.step]
    simp only [Link.init, Link.arrive, hcheck]
    rfl
  exact ⟨_, .tail (.tail (.tail .refl rfl hcall) rfl htask) rfl harrive, rfl, rfl, rfl⟩

/-- **One send beyond the window**: a `send` of one byte more than the initial window is put
on the wire, although nothing has been granted, and the peer's window check fails. -/
theorem one_send_exceeds_window :
    ∃ l, Reach Link.step always (Link.init 3 .synSent .established) l ∧
      ¬ l.sent ≤ initialWindow + l.granted ∧ l.refused = true := by
  obtain ⟨l, hl, hsent, hgranted, hrefused⟩ :=
    Link.run_of_send (List.replicate 262145 0) List.length_replicate
  refine ⟨l, hl, ?_, hrefused⟩
  rw [hsent, hgranted, List.length_replicate, initialWindow_eq]
  decide

end ArchNet
