import ArchNet.MuxFrames

/-!
# The Receive Window of a Stream

`read_data` takes the length of every body from `recv_window_`; `send_window_update` is
what would give it back, and it is called when a stream is made and never again. So in a
session the window of a stream is what its whole life has left of the initial one.

* `WindowOk` — the account of one stream: window and bytes received add up to the initial
  window, as long as the buffer can still be read.
* `WindowsInv` — the accounts of all streams of a session, and the window check that a body
  about to be read has passed.

## Main results

* `windowsInv_of_reach`: the accounts hold in every reachable state.
* `half_window_iff`: **a drained stream has half a window left exactly if it has received at
  most half a window in all**.
* `drained_below_half`: a run of an open stream with a reader that keeps up, after which less
  than half the window is left.
-/

namespace ArchNet.Session

open Lts MuxStream

variable {s s' : Session} {a : Action} {r : Ref} {o o' : MuxStream}

/-- The window of a stream, as long as its reader can go on: what is left of the initial
window is what has not been received. -/
structure WindowOk (o : MuxStream) : Prop where
  spent : o.recvLock = false ∨ o.recvBuff = [] →
    o.recvWindow.toNat + o.appended.length = maxStreamWindowSize.toNat
  le : o.recvWindow ≤ maxStreamWindowSize

/-- What every step keeps: the windows, and that a body about to be read fits. -/
structure WindowsInv (s : Session) : Prop where
  objs : ∀ (r : Ref) o, s.objs[r]? = some o → WindowOk o
  body : ∀ r close, s.recvPc = .body r close →
    ∃ o, s.objs[r]? = some o ∧ s.hdr.length ≤ o.recvWindow

/-- A new stream has a full window. -/
theorem WindowOk.new {id : UInt32} {x : StreamState} :
    WindowOk { id := id, state := x } where
  spent _ := by simp
  le := UInt32.le_refl _

/-- The window follows what `read_data` alone changes. -/
theorem WindowOk.of_frame (h : WindowOk o) (hf : ReadFrame o o') : WindowOk o' where
  spent hor := by
    rw [hf.recvWindow, hf.appended]
    refine h.spent ?_
    cases hl : o.recvLock with
    | false => exact .inl rfl
    | true =>
        rw [hf.recvLock, hl, hf.recvBuff hl] at hor
        exact .inr (by simpa using hor)
  le := hf.recvWindow ▸ h.le

/-- A body that is read in full takes its length from the window. -/
theorem WindowOk.body_ok {length : UInt32} {close : Bool} {ret : ℤ} {bytes : List UInt8}
    {src src' : Source} (h : WindowOk o) (hfit : length ≤ o.recvWindow)
    (hlock : o.recvLock = false)
    (hread : readNFromSocketStream src length.toNat = some (ret, bytes, src'))
    (hb : o.readDataBody length close ret bytes = .ok o') :
    WindowOk o' ∧ bytes.length = length.toNat := by
  obtain ⟨hret, hne, _, _, rfl⟩ := readDataBody_ok hb
  have hpos : 0 < length.toNat := by
    have : length.toNat ≠ 0 := fun h => hne (UInt32.toNat_inj.mp h)
    omega
  have hmax : length.toNat ≤ maxStreamWindowSize.toNat :=
    UInt32.le_iff_toNat_le.mp (UInt32.le_trans hfit h.le)
  have hmaxval : maxStreamWindowSize.toNat = 262144 := by decide
  -- the read was complete: the end of a stream does not pass the two tests
  have hbytes : bytes.length = length.toNat := by
    by_cases hlen : length.toNat ≤ src.bytes.length
    · obtain ⟨cuts, hfull⟩ := readNFromSocketStream_eq hpos hlen
      rw [hread, Option.some.injEq, Prod.mk.injEq, Prod.mk.injEq] at hfull
      rw [hfull.2.1, List.length_take]
      omega
    · obtain ⟨e, cuts, he, hres⟩ := readNFromSocketStream_short (by omega) hread
      rw [Prod.mk.injEq] at hres
      rw [hres.1] at hret
      cases e with
      | eof => exact absurd hret.symm hne
      | error =>
          rw [← hret] at hmax
          exact absurd hmax (by decide)
  have hspent := h.spent (.inl hlock)
  have hle : length.toNat ≤ o.recvWindow.toNat := UInt32.le_iff_toNat_le.mp hfit
  have hsub : (o.recvWindow - length).toNat = o.recvWindow.toNat - length.toNat :=
    UInt32.toNat_sub_of_le _ _ hfit
  refine ⟨⟨fun _ => ?_, ?_⟩, hbytes⟩
  · simp only [List.length_append, hsub, hbytes]
    omega
  · rw [UInt32.le_iff_toNat_le, hsub]
    have := UInt32.le_iff_toNat_le.mp h.le
    omega

/-- A body that could not be read leaves the buffer locked. -/
theorem WindowOk.body_err {length : UInt32} {close : Bool} {ret : ℤ} {bytes : List UInt8}
    (h : WindowOk o) (hlock : o.recvLock = false)
    (hb : o.readDataBody length close ret bytes = .err o') : WindowOk o' := by
  rw [readDataBody_err hb]
  refine ⟨fun hor => ?_, h.le⟩
  have hbytes : o.recvBuff = [] ∧ bytes = [] := by simpa using hor
  simpa [hbytes.2] using h.spent (.inl hlock)

/-- The stream whose body is about to be read is there, and the body fits. -/
theorem WindowsInv.body_step (hinv : WindowsInv s) (h : s.step a = some s') (r : Ref)
    (close : Bool) (hpc : s'.recvPc = .body r close) :
    ∃ o, s'.objs[r]? = some o ∧ s'.hdr.length ≤ o.recvWindow := by
  have hother : (∀ b, a ≠ .recv b) →
      ∃ o, s'.objs[r]? = some o ∧ s'.hdr.length ≤ o.recvWindow := by
    intro ha
    have hf := step_recvFrame h ha
    obtain ⟨o, ho, hfit⟩ := hinv.body r close (hf.recvPc ▸ hpc)
    obtain ⟨o', ho', hstep⟩ := (step_objs h).old r o ho
    refine ⟨o', ho', ?_⟩
    rw [hf.hdr, (hstep.readFrame (ha _)).recvWindow]
    exact hfit
  cases step_cases h with
  | recv hc =>
      cases hc with
      | @check r' close' o o' hflags ho hlock htype hchk =>
          obtain ⟨rfl, rfl⟩ := RecvPc.body.inj hpc
          obtain ⟨⟨x, rfl⟩, hfit⟩ := readDataCheck_ok hchk
          refine ⟨{ o with state := x }, ?_, hfit⟩
          simp [modObj, ho]
      | bodyAbort => exact hinv.body r close hpc
      | _ => exact absurd hpc (by simp [handledFrame, protoErr, acceptEmplace])
  | send | app | keep | close => exact hother (by simp)

/-- **Every step keeps the windows.** -/
theorem WindowsInv.step (hinv : WindowsInv s) (h : s.step a = some s') : WindowsInv s' := by
  refine ⟨?_, hinv.body_step h⟩
  refine forall_objs_of_step h (fun r o o' ho hstep hok => ?_) (fun o hnew => ?_) hinv.objs
  · by_cases ha : a = .recv .readBody
    · subst ha
      cases hstep with
      | same => exact hok
      | body hpc hlock hread hb =>
          obtain hb | hb := hb
          · obtain ⟨o₁, ho₁, hfit⟩ := hinv.body _ _ hpc
            obtain rfl : o = o₁ := Option.some.inj (ho.symm.trans ho₁)
            exact (hok.body_ok hfit hlock hread hb).1
          · exact hok.body_err hlock hb
    · exact hok.of_frame (hstep.readFrame ha)
  · cases hnew <;> exact .new

/-- In every reachable state the windows account for what was received. -/
theorem windowsInv_of_reach {type : MuxStreamType} {src : Source} {C : Session → Action → Bool}
    (h : Reach Session.step C (Session.init type src) s) : WindowsInv s :=
  h.invariant WindowsInv ⟨by simp [Session.init], by simp [Session.init]⟩
    fun hinv _ hs => hinv.step hs

/-- **The receive window is never given back.** In every reachable state, a stream whose
reader has drained its buffer has at least half its window left if and only if it has
received at most half a window of bytes in its whole life. -/
theorem half_window_iff {type : MuxStreamType} {src : Source}
    (h : Reach Session.step always (Session.init type src) s) (ho : s.objs[r]? = some o)
    (hdrained : o.recvBuff = []) :
    maxStreamWindowSize / 2 ≤ o.recvWindow ↔
      o.appended.length ≤ (maxStreamWindowSize / 2).toNat := by
  have hspent := ((windowsInv_of_reach h).objs r o ho).spent (.inr hdrained)
  have hmax : maxStreamWindowSize.toNat = 262144 := by decide
  have hhalf : (maxStreamWindowSize / 2).toNat = 131072 := by decide
  rw [UInt32.le_iff_toNat_le, hhalf]
  omega

/-- The theorem at a stream that has received and read one byte. -/
theorem half_window_one_byte :
    ∃ s o, Reach Session.step always (Session.init .server
        { bytes := Frame.bytes ⟨⟨.data, flagSYN, 3, 1⟩, some [7]⟩ }) s ∧
      s.objs[0]? = some o ∧ o.recvBuff = [] ∧ o.appended = [7] ∧
      maxStreamWindowSize / 2 ≤ o.recvWindow := by
  obtain ⟨s, hs, hP⟩ : ∃ s, Reach Session.step always (Session.init .server
        { bytes := Frame.bytes ⟨⟨.data, flagSYN, 3, 1⟩, some [7]⟩ }) s ∧
      (s.objs[0]?.map fun o => (o.recvBuff, o.appended)) = some ([], [7]) :=
    Reach.exists_of_exec [.recv .recvHeader, .recv .dispatch, .recv (.ackWrite 12),
      .recv .emplace, .recv .lookup, .recv .processFlags, .recv .readBody,
      .app (.recvCall 0 1)] (by decide +kernel)
  obtain ⟨o, ho, hval⟩ := Option.map_eq_some_iff.mp hP
  obtain ⟨hbuff, happ⟩ := Prod.mk.inj hval
  exact ⟨s, o, hs, ho, hbuff, happ, (half_window_iff hs ho hbuff).mpr (by rw [happ]; decide)⟩

/-- A SYN frame that carries `131073` bytes of data: one more than half a window. -/
def bigSyn : Header := ⟨.data, flagSYN, 3, 131073⟩

/-- A session that has decoded `bigSyn`. -/
def bigSynDecoded (src : Source) : Session :=
  { Session.init .server src with hdr := bigSyn, recvPc := .decoded }

/-- A session that has made the stream and is about to send the ACK. -/
def bigSynAck (src : Source) : Session :=
  { bigSynDecoded src with
    recvPc := .ack 0 { hdr := ⟨.windowUpdate, flagACK, 3, 0⟩ }
    objs := [{ id := 3, state := .established }] }

/-- A session that has accepted the stream, at its `state_lock_`. -/
def bigSynAccepted (src : Source) : Session :=
  { bigSynDecoded src with
    recvPc := .flags 0
    objs := [{ id := 3, state := .established, handed := true }]
    streams := Function.update (fun _ => none) 3 (some 0)
    acceptChn := [some 0]
    out := Header.encode ⟨.windowUpdate, flagACK, 3, 0⟩
    started := [(none, { hdr := ⟨.windowUpdate, flagACK, 3, 0⟩ })] }

/-- `bigSyn` is accepted, whatever follows it. -/
theorem bigSyn_accepted (src : Source) :
    Reach Session.step always (bigSynDecoded src) (bigSynAccepted src) := by
  have hdispatch : (bigSynDecoded src).step (.recv .dispatch) = some (bigSynAck src) := by
    have hsyn : hasFlag bigSyn.flags flagSYN = true := by decide
    simp only [bigSynDecoded, bigSynAck, Session.step, recvStep, dispatch, Session.init,
      handleStreamMessage, incomingStream, sendWindowUpdate_accept, bigSyn] at *
    simp [hsyn]
  refine Reach.trans (.tail .refl rfl hdispatch)
    (.of_exec [.recv (.ackWrite 12), .recv .emplace, .recv .lookup] ?_)
  rfl

/-- `bigSyn` passes the window check of a new stream. -/
theorem bigSyn_check (o : MuxStream) (hw : o.recvWindow = maxStreamWindowSize) :
    o.readDataCheck bigSyn = .ok (false, o) := by
  have hflags : o.processFlags bigSyn.flags = some (false, o) := by
    have hack : hasFlag bigSyn.flags flagACK = false := by decide
    have hfin : hasFlag bigSyn.flags flagFIN = false := by decide
    have hrst : hasFlag bigSyn.flags flagRST = false := by decide
    simp [processFlags, processAck, processFin, processRst, hack, hfin, hrst]
  have hfit : ¬ bigSyn.length > maxStreamWindowSize := by decide
  simp only [readDataCheck, hflags, hw, if_neg hfit]

/-- The stream after its body has been read. -/
def bigSynStream (b : List UInt8) : MuxStream :=
  { id := 3, state := .established, handed := true, recvBuff := b, appended := b
    recvWindow := maxStreamWindowSize - 131073, recvDone := [true] }

/-- The run that accepts such a frame and reads all of it. -/
theorem bigSyn_run (b : List UInt8) (hb : b.length = 131073) :
    ∃ s o, Reach Session.step always (Session.init .server { bytes := bigSyn.encode ++ b }) s ∧
      s.objs[0]? = some o ∧ o.state.isShut = false ∧ o.recvBuff = [] ∧
      o.recvWindow < maxStreamWindowSize / 2 := by
  obtain ⟨c₁, hdec⟩ : ∃ c, recvAndDecode ⟨.data, 0, 0, 0⟩ { bytes := bigSyn.encode ++ b } =
      some (1, bigSyn, { bytes := b, cuts := c }) := recvAndDecode_encode rfl
  obtain ⟨c₂, hread⟩ : ∃ c, readNFromSocketStream { bytes := b, cuts := c₁ } 131073 =
      some (131073, b.take 131073, { bytes := b.drop 131073, cuts := c }) :=
    readNFromSocketStream_eq (by decide) (by simp [hb])
  rw [List.take_of_length_le (by omega), List.drop_eq_nil_of_le (by omega)] at hread
  have hheader : (Session.init .server { bytes := bigSyn.encode ++ b }).step
      (.recv .recvHeader) = some (bigSynDecoded { bytes := b, cuts := c₁ }) := by
    simp only [Session.step, recvStep, recvHeader, Session.init, hdec]
    rfl
  have hcheck : (bigSynAccepted { bytes := b, cuts := c₁ }).step (.recv .processFlags) =
      some { bigSynAccepted { bytes := b, cuts := c₁ } with recvPc := .body 0 false } := by
    have hc := bigSyn_check { id := 3, state := .established, handed := true } rfl
    have htype : bigSyn.msgType ≠ .windowUpdate := by decide
    simp only [Session.step, recvStep, bigSynAccepted, bigSynDecoded, Session.init,
      List.getElem?_cons_zero, handleFlags, if_neg htype, hc]
    rfl
  have hbody : { bigSynAccepted { bytes := b, cuts := c₁ } with recvPc := .body 0 false }.step
      (.recv .readBody) = some ({ bigSynAccepted { bytes := [], cuts := c₂ } with
        objs := [bigSynStream b] }.handledFrame) := by
    have hlen : bigSyn.length.toNat = 131073 := by decide
    have hone : ¬ UInt32.ofInt 131073 ≤ 0 := by decide
    have htwo : ¬ UInt32.ofInt 131073 ≠ bigSyn.length := by decide
    simp only [Session.step, recvStep, bigSynAccepted, bigSynDecoded, Session.init,
      List.getElem?_cons_zero, readBody, hlen, hread, Option.map_some, readDataBody,
      if_neg hone, if_neg htwo]
    rfl
  have hdrain : ({ bigSynAccepted { bytes := [], cuts := c₂ } with
      objs := [bigSynStream b] }.handledFrame).step (.app (.recvCall 0 131073)) =
      some ({ bigSynAccepted { bytes := [], cuts := c₂ } with
        objs := [{ bigSynStream b with recvBuff := [], recvLog := [(131073, b)] }]
        }.handledFrame) := by
    have hne : b ≠ [] := by
      rintro rfl
      exact absurd hb (by decide)
    have hcall : (bigSynStream b).recvCall 131073 =
        { bigSynStream b with recvBuff := [], recvLog := [(131073, b)] } := by
      simp [MuxStream.recvCall, takeNext, bigSynStream, hne, hb]
    simp only [Session.step, appStep, onHanded, handledFrame, List.getElem?_cons_zero, hcall]
    rfl
  refine ⟨_, _, .tail (.tail (.tail (Reach.trans (.tail .refl rfl hheader) (bigSyn_accepted _))
    rfl hcheck) rfl hbody) rfl hdrain, rfl, rfl, rfl, ?_⟩
  exact (by decide : maxStreamWindowSize - 131073 < maxStreamWindowSize / 2)

/-- **A window used up by a reader that keeps up**: a stream that is open, whose reader has
taken every byte, and which has less than half its window left. -/
theorem drained_below_half :
    ∃ src s o, Reach Session.step always (Session.init .server src) s ∧
      s.objs[0]? = some o ∧ o.state.isShut = false ∧ o.recvBuff = [] ∧
      ¬ maxStreamWindowSize / 2 ≤ o.recvWindow := by
  obtain ⟨s, o, hs, ho, hopen, hbuff, hlt⟩ :=
    bigSyn_run (List.replicate 131073 0) List.length_replicate
  exact ⟨_, s, o, hs, ho, hopen, hbuff, UInt32.not_le.mpr hlt⟩

end ArchNet.Session
