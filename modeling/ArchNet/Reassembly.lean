import ArchNet.RecvLoop

/-!
# Reassembling Fragmented Messages

A message travels as one or more frames: the first with the opcode of its kind, the others
CONTINUATION, the last one final. Control frames may stand before any of them. This module
says what repeated calls of `recv_loop` make of a stream of such messages.

An `Item` is a frame of such a stream, an `Assembly` what the loop has in hand between two
frames — the kind of the message that is open, if one is, and its bytes so far. `Item.step`
is what one call of the loop does with one item, or `none` when it answers `false`
(`recvLoop_item`). So the calls on a whole stream are a run of `Item.step`
(`serve_of_runItems`), and the rest is about these runs.

## Main results

* `runItems_message`: from an idle loop, a message is handed over exactly when it is
  `Whole` — one fragment, or two with no control frame between them, none empty and none of
  `2 ^ 31` bytes or more.
* `reassembles_iff`: **reassembly** — so repeated calls hand over exactly the messages of a
  stream when all of them are whole, and else answer `false`.
-/

namespace ArchNet

open Bytes

/-! ### Frames on the wire -/

/-- A frame as the sending side writes it, unmasked. -/
structure WsFrame where
  fin : Bool
  opcode : Opcode
  payload : List UInt8
  deriving Repr, DecidableEq

namespace WsFrame

/-- The header of a frame: `reset`, then `set_frame_opcode`, `set_frame_fin` and
`set_frame_payload_len`. -/
def header (f : WsFrame) : FrameHeader :=
  { FrameHeader.reset with
    fin := f.fin
    opcode := f.opcode
    payloadLen := f.payload.length }

/-- The bytes `send_frame_data` writes. -/
def bytes (f : WsFrame) : List UInt8 := f.header.makeFrameHeader ++ f.payload

/-- A frame on the wire begins with its header, and its payload is behind it. -/
theorem rfcHead_bytes {f : WsFrame} (hfits : f.payload.length < 2 ^ 64) (rest : List UInt8) :
    rfcHead (f.bytes ++ rest) = some (f.header, f.payload ++ rest) := by
  rw [bytes, List.append_assoc, rfcHead_makeFrameHeader f.header _ hfits rfl]
  rfl

end WsFrame

/-! ### Messages and their frames -/

/-- The control frames that may stand between the frames of a message. -/
inductive Control
  | ping
  | pong
  deriving Repr, DecidableEq

/-- A frame of a stream of messages: an empty control frame, the first frame of a message,
or a later one. -/
inductive Item
  | control (c : Control)
  | first (text : Bool) (fin : Bool) (payload : List UInt8)
  | more (fin : Bool) (payload : List UInt8)
  deriving Repr, DecidableEq

/-- The opcode of a message's first frame. -/
def kindOpcode (text : Bool) : Opcode := if text then .text else .binary

/-- An item as a frame. -/
def Item.frame : Item → WsFrame
  | control .ping => ⟨true, .ping, []⟩
  | control .pong => ⟨true, .pong, []⟩
  | first text fin payload => ⟨fin, kindOpcode text, payload⟩
  | more fin payload => ⟨fin, .continuation, payload⟩

/-- A fragment of a message, with the control frames sent before it. Its length is one that
a frame header can carry. -/
structure Fragment where
  controls : List Control
  payload : List UInt8
  fits : payload.length < 2 ^ 64

/-- A message cut into fragments. -/
structure Message where
  text : Bool
  first : Fragment
  more : List Fragment

/-- The frames of the fragments after the first; the last one is final. -/
def moreItems : List Fragment → List Item
  | [] => []
  | f :: fs => f.controls.map .control ++ .more fs.isEmpty f.payload :: moreItems fs

namespace Message

/-- The fragments of a message. -/
def fragments (m : Message) : List Fragment := m.first :: m.more

/-- The whole payload. -/
def payload (m : Message) : List UInt8 := (m.fragments.map Fragment.payload).flatten

/-- The frames of a message, with the control frames among them. -/
def items (m : Message) : List Item :=
  m.first.controls.map .control ++
    .first m.text m.more.isEmpty m.first.payload :: moreItems m.more

end Message

/-- The frames of a stream of messages, with control frames behind the last one. -/
def streamItems (msgs : List Message) (trailing : List Control) : List Item :=
  (msgs.map Message.items).flatten ++ trailing.map .control

/-- Frames on the wire. -/
def itemsBytes (is : List Item) : List UInt8 := (is.map fun i => i.frame.bytes).flatten

/-! ### One call on one frame -/

/-- What the loop has in hand between two frames: the kind of the message that is open, if
one is, and the buffer. -/
structure Assembly where
  kind : Option Bool := none
  buffer : List UInt8 := []
  deriving Repr, DecidableEq

/-- The same as a state of the loop. -/
def Assembly.loop (s : Assembly) : LoopState where
  opcode := s.kind.elim .continuation kindOpcode
  buffer := s.buffer

section Items

variable {ε : Type} (onMessage : List UInt8 → Bool → ε)

/-- A data frame of the given kind: taken when it is neither empty nor of `2 ^ 31` bytes or
more. -/
def dataStep (s : Assembly) (text fin : Bool) (payload : List UInt8) :
    Option (Assembly × List ε) :=
  if 0 < payload.length ∧ payload.length < 2 ^ 31 then
    if fin then some ({}, [onMessage (s.buffer ++ payload) text])
    else some ({ kind := some text, buffer := s.buffer ++ payload }, [])
  else none

/-- What one call of the loop makes of one item; `none` when it answers `false`. A control
frame forgets the kind of the message that is open, and a CONTINUATION is taken only when
it is final and that kind is known. -/
def Item.step (s : Assembly) : Item → Option (Assembly × List ε)
  | control _ => some ({ s with kind := none }, [])
  | first text fin payload => dataStep onMessage s text fin payload
  | more fin payload =>
      if fin then s.kind.bind fun text => dataStep onMessage s text true payload else none

/-- The items of a stream, one after the other, up to the first that is refused. -/
def runItems (s : Assembly) : List Item → Option (Assembly × List ε)
  | [] => some (s, [])
  | i :: is => do
      let (s', evs) ← i.step onMessage s
      let (s'', evs') ← runItems s' is
      some (s'', evs ++ evs')

/-- A call on a data frame of at most `2 ^ 32` bytes, with the state in which the switch is
entered. -/
theorem recvData_dataStep (e : Endpoint ε) (s : Assembly) (st : LoopState) (h : FrameHeader)
    (text : Bool) {payload rest : List UInt8} {src : Source}
    (hbuf : st.buffer = s.buffer) (hop : h.fin = false → st.opcode = kindOpcode text)
    (hmask : h.mask = false) (hn : h.payloadLen = payload.length)
    (hlt : payload.length < 2 ^ 32) (hb : src.bytes = payload ++ rest) :
    match dataStep e.onMessage s text h.fin payload with
    | some (s', evs) => ∃ cuts, cuts <:+ src.cuts ∧ recvData e text h st src =
        some ⟨true, s'.loop, evs, { src with bytes := rest, cuts := cuts }⟩
    | none => ∃ r, recvData e text h st src = some r ∧ r.ok = false ∧ r.events = [] := by
  have hmod : h.payloadLen % 2 ^ 32 = payload.length := by rw [hn, Nat.mod_eq_of_lt hlt]
  have hpres : payload.length ≤ src.bytes.length := by
    rw [hb, List.length_append]
    omega
  rw [dataStep]
  by_cases hsize : 0 < payload.length ∧ payload.length < 2 ^ 31
  · obtain ⟨cuts, hsuf, hrun⟩ := recvData_taken e text st hmod hsize.1 hsize.2 hpres
    have htake : unmask h payload.length (st.buffer ++ src.bytes.take payload.length)
        = s.buffer ++ payload := by
      rw [unmask, hmask, if_neg Bool.false_ne_true, hb, List.take_left', hbuf]
      rfl
    have hdrop : src.bytes.drop payload.length = rest := by
      rw [hb, List.drop_left']
      rfl
    rw [htake, hdrop, afterData] at hrun
    rw [if_pos hsize]
    cases hf : h.fin with
    | false =>
        rw [hf, if_neg Bool.false_ne_true, finishFrame, hf, if_neg Bool.false_ne_true,
          hop hf] at hrun
        exact ⟨cuts, hsuf, hrun⟩
    | true =>
        rw [hf, if_pos rfl, finishFrame, hf, if_pos rfl] at hrun
        exact ⟨cuts, hsuf, hrun⟩
  · obtain ⟨st', src', hrun⟩ := @recvData_refused _ e text h st src (by omega) (by omega)
    rw [if_neg hsize]
    exact ⟨_, hrun, rfl, rfl⟩

/-- **One call on one item**: it does what `Item.step` says, and leaves the stream behind
the item when it answers `true`. -/
theorem recvLoop_item (e : Endpoint ε) (hping : e.onPing = true) (hpong : e.onPong = true)
    (s : Assembly) {i : Item} {rest : List UInt8} {src src' : Source}
    (hread : e.readFrameHead src = some (true, i.frame.header, src'))
    (hb : src'.bytes = i.frame.payload ++ rest) (hlt : i.frame.payload.length < 2 ^ 32) :
    match i.step e.onMessage s with
    | some (s', evs) => ∃ cuts, cuts <:+ src'.cuts ∧ recvLoop e s.loop src =
        some ⟨true, s'.loop, evs, { src' with bytes := rest, cuts := cuts }⟩
    | none => ∃ r, recvLoop e s.loop src = some r ∧ r.ok = false ∧ r.events = [] := by
  rw [recvLoop_head e s.loop hread]
  cases i with
  | control c =>
      refine ⟨src'.cuts, List.suffix_rfl, ?_⟩
      have hsrc : src' = { src' with bytes := rest, cuts := src'.cuts } := by
        cases c <;> rw [← show src'.bytes = rest from hb]
      cases c with
      | ping => rw [hping, ← hsrc]; rfl
      | pong => rw [hpong, ← hsrc]; rfl
  | first text fin payload =>
      have hop : effectiveOpcode s.loop (Item.first text fin payload).frame.header
          = kindOpcode text := by
        cases text <;> cases fin <;> rfl
      have hdata := recvData_dataStep e s
        (saveOpcode s.loop (Item.first text fin payload).frame.header)
        (Item.first text fin payload).frame.header text
        (by cases text <;> cases fin <;> rfl)
        (by rintro rfl; cases text <;> rfl) rfl rfl hlt hb
      rw [hop]
      cases text with
      | false => exact hdata
      | true => exact hdata
  | more fin payload =>
      cases fin with
      | false => exact ⟨_, rfl, rfl, rfl⟩
      | true =>
          have hop : effectiveOpcode s.loop (Item.more true payload).frame.header
              = s.kind.elim .continuation kindOpcode := rfl
          rw [hop]
          cases hk : s.kind with
          | none =>
              simp only [Item.step, hk, if_true, Option.bind_none]
              exact ⟨_, rfl, rfl, rfl⟩
          | some text =>
              have hdata := recvData_dataStep e s
                (saveOpcode s.loop (Item.more true payload).frame.header)
                (Item.more true payload).frame.header text
                rfl (by rintro ⟨⟩) rfl rfl hlt hb
              simp only [Item.step, hk, if_true, Option.bind_some]
              cases text with
              | false => exact hdata
              | true => exact hdata

end Items

/-! ### Repeated calls -/

section Serve

variable {ε : Type}

/-- Repeated calls of `recv_loop`, each with its own endpoint, on one state and one stream:
whether some call answered `false`, after which there is no other, and everything handed
over. A call that blocks is the last. -/
def serve : List (Endpoint ε) → LoopState → Source → Bool × List ε
  | [], _, _ => (false, [])
  | e :: es, st, src =>
      match recvLoop e st src with
      | none => (false, [])
      | some r =>
          if r.ok then ((serve es r.state r.src).1, r.events ++ (serve es r.state r.src).2)
          else (true, r.events)

/-- The endpoint **reads unmasked frames** under the segmentations that `P` allows: its
callbacks answer `true`, and its decoder gives the header that is there and waits while
there is none. -/
structure Endpoint.Reads (e : Endpoint ε) (onMessage : List UInt8 → Bool → ε)
    (P : List ℕ → Prop) : Prop where
  ping : e.onPing = true
  pong : e.onPong = true
  message : e.onMessage = onMessage
  mono : ∀ {cuts cuts' : List ℕ}, P cuts → cuts' <:+ cuts → P cuts'
  head : ∀ {src : Source} {h : FrameHeader} {rest : List UInt8}, P src.cuts →
    rfcHead src.bytes = some (h, rest) → h.mask = false →
    ∃ cuts, cuts <:+ src.cuts ∧
      e.readFrameHead src = some (true, h, { src with bytes := rest, cuts := cuts })
  waits : ∀ {src : Source}, src.bytes = [] → src.ending = none → e.readFrameHead src = none

variable {onMessage : List UInt8 → Bool → ε} {P : List ℕ → Prop}

/-- A call on the first item of a stream. -/
theorem Endpoint.Reads.item {e : Endpoint ε} (he : e.Reads onMessage P) (s : Assembly)
    {i : Item} (hlt : i.frame.payload.length < 2 ^ 32) {rest : List UInt8} {src : Source}
    (hP : P src.cuts) (hb : src.bytes = i.frame.bytes ++ rest) :
    match i.step onMessage s with
    | some (s', evs) => ∃ cuts, P cuts ∧ recvLoop e s.loop src =
        some ⟨true, s'.loop, evs, { src with bytes := rest, cuts := cuts }⟩
    | none => ∃ r, recvLoop e s.loop src = some r ∧ r.ok = false ∧ r.events = [] := by
  have hd : rfcHead src.bytes = some (i.frame.header, i.frame.payload ++ rest) := by
    rw [hb]
    exact WsFrame.rfcHead_bytes (by omega) rest
  obtain ⟨cuts, hsuf, hread⟩ := he.head hP hd rfl
  have hitem := recvLoop_item e he.ping he.pong s hread rfl hlt
  rw [he.message] at hitem
  cases hstep : i.step onMessage s with
  | none =>
      rw [hstep] at hitem
      exact hitem
  | some out =>
      rw [hstep] at hitem
      obtain ⟨cuts', hsuf', hrun⟩ := hitem
      exact ⟨cuts', he.mono (he.mono hP hsuf) hsuf', hrun⟩

/-- **A stream that is taken**: when the run over its items succeeds, no call answers
`false`, what has been handed over after any number of calls is a beginning of what the run
hands over, and after one call for each item it is all of it. -/
theorem serve_of_runItems {is : List Item} {s s' : Assembly} {evs : List ε}
    (hlt : ∀ i ∈ is, i.frame.payload.length < 2 ^ 32)
    (hrun : runItems onMessage s is = some (s', evs)) {src : Source} (hP : P src.cuts)
    (hend : src.ending = none) (hb : src.bytes = itemsBytes is) {es : List (Endpoint ε)}
    (hes : ∀ e ∈ es, e.Reads onMessage P) :
    (serve es s.loop src).1 = false ∧ (serve es s.loop src).2 <+: evs ∧
      (is.length ≤ es.length → (serve es s.loop src).2 = evs) := by
  induction is generalizing es s evs src with
  | nil =>
      obtain ⟨-, rfl⟩ : s = s' ∧ [] = evs := by simpa [runItems] using hrun
      cases es with
      | nil => simp [serve]
      | cons e es =>
          have hwait : recvLoop e s.loop src = none := by
            rw [recvLoop, (hes e (by simp)).waits hb hend]
            rfl
          simp [serve, hwait]
  | cons i is ih =>
      cases es with
      | nil => simp [serve]
      | cons e es =>
          simp only [runItems, Option.bind_eq_bind, Option.bind_eq_some_iff] at hrun
          obtain ⟨⟨s₁, evs₁⟩, hstep, ⟨s₂, evs₂⟩, hrest, heq⟩ := hrun
          obtain ⟨rfl, rfl⟩ : s₂ = s' ∧ evs₁ ++ evs₂ = evs := by simpa using heq
          have hb' : src.bytes = i.frame.bytes ++ itemsBytes is := hb
          have hitem := (hes e (by simp)).item s (hlt i (by simp)) hP hb'
          rw [hstep] at hitem
          obtain ⟨cuts, hP', hcall⟩ := hitem
          have hP'' : P (Source.cuts { src with bytes := itemsBytes is, cuts := cuts }) := hP'
          obtain ⟨hok, hpre, hall⟩ := ih (fun j hj => hlt j (List.mem_cons_of_mem _ hj)) hrest
            hP'' hend rfl (fun e' he' => hes e' (List.mem_cons_of_mem _ he'))
          simp only [serve, hcall, if_true]
          refine ⟨hok, (List.prefix_append_right_inj evs₁).mpr hpre, fun hlen => ?_⟩
          exact congrArg (evs₁ ++ ·) (hall (by simpa using hlen))

/-- **A stream that is refused**: when the run over its items fails, one call for each item
is enough for one of them to answer `false`. -/
theorem serve_of_runItems_none {is : List Item} {s : Assembly}
    (hlt : ∀ i ∈ is, i.frame.payload.length < 2 ^ 32)
    (hrun : runItems onMessage s is = none) {src : Source} (hP : P src.cuts)
    (hb : src.bytes = itemsBytes is) {es : List (Endpoint ε)}
    (hes : ∀ e ∈ es, e.Reads onMessage P) (hlen : is.length ≤ es.length) :
    (serve es s.loop src).1 = true := by
  induction is generalizing es s src with
  | nil => simp [runItems] at hrun
  | cons i is ih =>
      cases es with
      | nil => simp at hlen
      | cons e es =>
          have hb' : src.bytes = i.frame.bytes ++ itemsBytes is := hb
          have hitem := (hes e (by simp)).item s (hlt i (by simp)) hP hb'
          cases hstep : i.step onMessage s with
          | none =>
              rw [hstep] at hitem
              obtain ⟨r, hcall, hok, -⟩ := hitem
              simp [serve, hcall, hok]
          | some out =>
              rw [hstep] at hitem
              obtain ⟨cuts, hP', hcall⟩ := hitem
              have hrest : runItems onMessage out.1 is = none := by
                cases hr : runItems onMessage out.1 is with
                | none => rfl
                | some _ => simp [runItems, hstep, hr] at hrun
              have hP'' : P (Source.cuts { src with bytes := itemsBytes is, cuts := cuts }) :=
                hP'
              simp only [serve, hcall, if_true]
              exact ih (fun j hj => hlt j (List.mem_cons_of_mem _ hj)) hrest hP'' rfl
                (fun e' he' => hes e' (List.mem_cons_of_mem _ he')) (by simpa using hlen)

end Serve

/-- Parts of at most eight bytes arrive whole when no `recv` is cut below eight. -/
theorem uncut_of_coarse {ns cuts : List ℕ} (hns : ∀ n ∈ ns, n ≤ 8)
    (hcuts : ∀ c ∈ cuts, 7 ≤ c) : uncut ns cuts = true := by
  induction ns generalizing cuts with
  | nil => rfl
  | cons n ns ih =>
      rw [uncut]
      have hns' : ∀ m ∈ ns, m ≤ 8 := fun m hm => hns m (List.mem_cons_of_mem _ hm)
      split_ifs
      · exact ih hns' hcuts
      · rw [Bool.and_eq_true, decide_eq_true_eq]
        refine ⟨?_, ih hns' fun c hc => hcuts c (List.mem_of_mem_tail hc)⟩
        have hn := hns n (by simp)
        cases cuts with
        | nil => simp
        | cons c cuts =>
            have := hcuts c (by simp)
            simp only [List.headD_cons]
            omega

/-- The parts of a header are at most eight bytes long. -/
theorem headParts_le (bytes : List UInt8) : ∀ n ∈ headParts bytes, n ≤ 8 := by
  intro n hn
  have hext := extLen_cases (bytes.getD 1 0)
  have hkey : keyLen (bytes.getD 1 0) ≤ 4 := by
    rw [keyLen]
    split_ifs <;> omega
  simp only [headParts, List.mem_cons, List.not_mem_nil, or_false] at hn
  rcases hn with rfl | rfl | rfl <;> omega

/-- `coin` reads frames on streams that give at least eight bytes to a `recv` that asks for
them. -/
theorem Coin.endpoint_reads (junk : Vector UInt8 8) :
    (Coin.endpoint junk true true).Reads .onMessage fun cuts => ∀ c ∈ cuts, 7 ≤ c where
  ping := rfl
  pong := rfl
  message := rfl
  mono := fun hP hsuf c hc => hP c (hsuf.mem hc)
  head := fun hP hd _ => Coin.readFrameHead_eq junk hd (uncut_of_coarse (headParts_le _) hP)
  waits := by
    intro src hb hend
    have hrecv : src.recv 2 = none := Source.recv_blocks (by decide) hb hend
    change Coin.readFrameHead junk src = none
    rw [Coin.readFrameHead, hrecv]
    rfl

/-- `robin` reads frames under every segmentation. -/
theorem Robin.endpoint_reads :
    Robin.endpoint.Reads (fun payload _ => some payload) fun _ => True where
  ping := rfl
  pong := rfl
  message := rfl
  mono := fun _ _ => trivial
  head := fun _ hd hmask => Robin.readFrameHead_unmasked hd hmask
  waits := by
    intro src hb hend
    have hrecv : src.recv 2 = none := Source.recv_blocks (by decide) hb hend
    have hread : readNFromSocketStream src 2 = none := by
      simp [readNFromSocketStream, readLoop, hrecv]
    change Robin.readFrameHead src = none
    rw [Robin.readFrameHead, hread]
    rfl

/-! ### Whole messages -/

/-- A message that the loop takes: **one fragment, or two with no control frame between
them**, none of them empty and none of `2 ^ 31` bytes or more. -/
def Message.Whole (m : Message) : Prop :=
  (match m.more with
    | [] => True
    | [f] => f.controls = []
    | _ => False) ∧
  ∀ f ∈ m.fragments, 0 < f.payload.length ∧ f.payload.length < 2 ^ 31

section Items

variable {ε : Type} (onMessage : List UInt8 → Bool → ε)

/-- Items of one stream behind those of another. -/
theorem runItems_append (s : Assembly) (is js : List Item) :
    runItems onMessage s (is ++ js) =
      (runItems onMessage s is).bind fun out =>
        (runItems onMessage out.1 js).map fun out' => (out'.1, out.2 ++ out'.2) := by
  induction is generalizing s with
  | nil => cases h : runItems onMessage s js <;> simp [runItems, h]
  | cons i is ih =>
      cases hstep : i.step onMessage s with
      | none => simp [runItems, hstep]
      | some out =>
          cases hrun : runItems onMessage out.1 is with
          | none => simp [runItems, hstep, ih, hrun]
          | some out' =>
              cases h : runItems onMessage out'.1 js <;>
                simp [runItems, hstep, ih, hrun, h]

/-- Control frames hand nothing over; the kind of an open message is lost at the first. -/
theorem runItems_controls (s : Assembly) (cs : List Control) :
    runItems onMessage s (cs.map .control) =
      some (if cs = [] then s else { s with kind := none }, []) := by
  induction cs generalizing s with
  | nil => simp [runItems]
  | cons c cs ih =>
      rw [List.map_cons, runItems, Item.step]
      simp only [Option.bind_eq_bind, Option.bind_some, ih]
      split_ifs <;> simp_all

/-- One fragment behind the first, from a message whose kind is known: it is taken when no
control frame stands before it and its size is one that is taken. -/
theorem runItems_moreItems_one {s : Assembly} {text : Bool} (hk : s.kind = some text)
    (f : Fragment) :
    runItems onMessage s (moreItems [f]) =
      if f.controls = [] then dataStep onMessage s text true f.payload else none := by
  rw [moreItems, runItems_append, runItems_controls]
  split_ifs with hc
  · cases hdata : dataStep onMessage s text true f.payload <;>
      simp [runItems, Item.step, hk, hdata, moreItems]
  · simp [runItems, Item.step]

/-- More than one fragment behind the first: the CONTINUATION that is not final is
refused. -/
theorem runItems_moreItems_many (s : Assembly) (f g : Fragment) (gs : List Fragment) :
    runItems onMessage s (moreItems (f :: g :: gs)) = none := by
  rw [moreItems, runItems_append, runItems_controls]
  simp [runItems, Item.step]

/-- **One message from an idle loop**: handed over when it is whole, refused when it is
not. -/
theorem runItems_message (m : Message) :
    (m.Whole → runItems onMessage {} m.items = some ({}, [onMessage m.payload m.text])) ∧
      (¬ m.Whole → runItems onMessage {} m.items = none) := by
  obtain ⟨text, first, more⟩ := m
  have hfirst : runItems onMessage {} (Message.items ⟨text, first, more⟩) =
      (dataStep onMessage {} text more.isEmpty first.payload).bind fun out =>
        (runItems onMessage out.1 (moreItems more)).map fun out' =>
          (out'.1, out.2 ++ out'.2) := by
    rw [Message.items, runItems_append, runItems_controls]
    have hidle : (if first.controls = [] then ({} : Assembly)
        else { ({} : Assembly) with kind := none }) = {} := by
      split_ifs <;> rfl
    simp only [Option.bind_some, hidle, List.nil_append, runItems, Item.step]
    cases hdata : dataStep onMessage {} text more.isEmpty first.payload with
    | none => rfl
    | some out => cases hmore : runItems onMessage out.1 (moreItems more) <;> simp [hmore]
  rw [hfirst, dataStep]
  by_cases hsize : 0 < first.payload.length ∧ first.payload.length < 2 ^ 31
  · rw [if_pos hsize]
    cases more with
    | nil =>
        refine ⟨fun _ => ?_, fun hnot => absurd ⟨trivial, ?_⟩ hnot⟩
        · simp [moreItems, runItems, Message.payload, Message.fragments]
        · simpa [Message.fragments] using hsize
    | cons f fs =>
        simp only [List.isEmpty_cons, Bool.false_eq_true, if_false, Option.bind_some]
        cases fs with
        | nil =>
            have hiff : Message.Whole ⟨text, first, [f]⟩ ↔
                f.controls = [] ∧ 0 < f.payload.length ∧ f.payload.length < 2 ^ 31 := by
              constructor
              · exact fun hw => ⟨hw.1, hw.2 f (by simp [Message.fragments])⟩
              · rintro ⟨hc, hf⟩
                refine ⟨hc, fun g hg => ?_⟩
                obtain rfl | rfl : g = first ∨ g = f := by
                  simpa [Message.fragments] using hg
                · exact hsize
                · exact hf
            rw [hiff, runItems_moreItems_one onMessage rfl, dataStep]
            constructor
            · rintro ⟨hc, hf⟩
              rw [if_pos hc, if_pos hf]
              simp [Message.payload, Message.fragments]
            · intro hw
              by_cases hc : f.controls = []
              · rw [if_pos hc, if_neg fun hf => hw ⟨hc, hf⟩]
                rfl
              · rw [if_neg hc]
                rfl
        | cons g gs =>
            rw [runItems_moreItems_many]
            exact ⟨fun hw => absurd hw.1 id, fun _ => rfl⟩
  · rw [if_neg hsize]
    refine ⟨fun hw => absurd (hw.2 first (by simp [Message.fragments])) hsize, fun _ => rfl⟩

/-- **A stream of messages from an idle loop**: all of them handed over when all of them are
whole, and refused when one is not. -/
theorem runItems_streamItems (msgs : List Message) (trailing : List Control) :
    ((∀ m ∈ msgs, m.Whole) → runItems onMessage {} (streamItems msgs trailing) =
        some ({}, msgs.map fun m => onMessage m.payload m.text)) ∧
      (¬ (∀ m ∈ msgs, m.Whole) →
        runItems onMessage {} (streamItems msgs trailing) = none) := by
  induction msgs with
  | nil =>
      have hcontrols : runItems onMessage {} (streamItems [] trailing) = some ({}, []) := by
        rw [streamItems, List.map_nil, List.flatten_nil, List.nil_append, runItems_controls]
        split_ifs <;> rfl
      exact ⟨fun _ => hcontrols, fun hnot => absurd (by simp) hnot⟩
  | cons m msgs ih =>
      have hcons : streamItems (m :: msgs) trailing = m.items ++ streamItems msgs trailing := by
        simp [streamItems]
      rw [hcons, runItems_append, List.forall_mem_cons]
      by_cases hm : m.Whole
      · rw [(runItems_message onMessage m).1 hm, Option.bind_some]
        constructor
        · rintro ⟨-, hw⟩
          rw [ih.1 hw]
          rfl
        · intro hnot
          rw [ih.2 fun hw => hnot ⟨hm, hw⟩]
          rfl
      · rw [(runItems_message onMessage m).2 hm]
        exact ⟨fun hw => absurd hw.1 hm, fun _ => rfl⟩

end Items

/-- The payload of a later frame is that of a fragment, or empty. -/
theorem payload_of_mem_moreItems {fs : List Fragment} {i : Item} (hi : i ∈ moreItems fs) :
    i.frame.payload = [] ∨ ∃ f ∈ fs, i.frame.payload = f.payload := by
  induction fs with
  | nil => simp [moreItems] at hi
  | cons f fs ih =>
      rw [moreItems, List.mem_append, List.mem_cons, List.mem_map] at hi
      rcases hi with ⟨c, -, rfl⟩ | rfl | hi
      · cases c <;> exact .inl rfl
      · exact .inr ⟨f, by simp, rfl⟩
      · rcases ih hi with h | ⟨g, hg, h⟩
        · exact .inl h
        · exact .inr ⟨g, List.mem_cons_of_mem _ hg, h⟩

/-- The payload of a frame of a stream is that of a fragment of one of its messages, or
empty. -/
theorem payload_of_mem_streamItems {msgs : List Message} {trailing : List Control} {i : Item}
    (hi : i ∈ streamItems msgs trailing) :
    i.frame.payload = [] ∨ ∃ m ∈ msgs, ∃ f ∈ m.fragments, i.frame.payload = f.payload := by
  have hcontrol : ∀ {cs : List Control}, i ∈ cs.map .control → i.frame.payload = [] := by
    intro cs hc
    obtain ⟨c, -, rfl⟩ := List.mem_map.mp hc
    cases c <;> rfl
  rw [streamItems, List.mem_append, List.mem_flatten] at hi
  rcases hi with ⟨_, hl, hi⟩ | hi
  · obtain ⟨m, hm, rfl⟩ := List.mem_map.mp hl
    rw [Message.items, List.mem_append, List.mem_cons] at hi
    rcases hi with hi | rfl | hi
    · exact .inl (hcontrol hi)
    · exact .inr ⟨m, hm, m.first, by simp [Message.fragments], rfl⟩
    · rcases payload_of_mem_moreItems hi with h | ⟨f, hf, h⟩
      · exact .inl h
      · exact .inr ⟨m, hm, f, List.mem_cons_of_mem _ hf, h⟩
  · exact .inl (hcontrol hi)

/-! ### Reassembly -/

/-- What repeated calls come to when they **hand over** exactly what is expected: none
answers `false`, what has been handed over is always a beginning of it, and with a call for
each frame it is all of it. -/
def HandsOver {ε : Type} (expected : List ε) (frames calls : ℕ) (res : Bool × List ε) : Prop :=
  res.1 = false ∧ res.2 <+: expected ∧ (frames ≤ calls → res.2 = expected)

/-- The wire image of a stream of messages. -/
def wireOf (msgs : List Message) (trailing : List Control) (cuts : List ℕ) : Source where
  bytes := itemsBytes (streamItems msgs trailing)
  cuts := cuts

/-- Repeated calls of `WebSocketConnection::recv_loop` on the stream of the messages hand
exactly these to `OnMessage`, whatever its array holds, on every segmentation that does not
cut into a header. -/
def Coin.Reassembles (msgs : List Message) (trailing : List Control) : Prop :=
  ∀ (junks : List (Vector UInt8 8)) (cuts : List ℕ), (∀ c ∈ cuts, 7 ≤ c) →
    HandsOver (msgs.map fun m => WebSocketEvent.onMessage m.payload m.text)
      (streamItems msgs trailing).length junks.length
      (serve (junks.map fun junk => Coin.endpoint junk true true) {}
        (wireOf msgs trailing cuts))

/-- Repeated calls of `StreamingConnection::recv_loop` on the stream of the messages push
exactly their payloads to `inbox_`, on every segmentation. -/
def Robin.Reassembles (msgs : List Message) (trailing : List Control) : Prop :=
  ∀ (calls : ℕ) (cuts : List ℕ),
    HandsOver (msgs.map fun m => some m.payload) (streamItems msgs trailing).length calls
      (serve (List.replicate calls Robin.endpoint) {}
        (wireOf msgs trailing cuts))

/-- Fragments shorter than `2 ^ 32` bytes make frames whose payload is. -/
theorem streamItems_short {msgs : List Message} (trailing : List Control)
    (hlt : ∀ m ∈ msgs, ∀ f ∈ m.fragments, f.payload.length < 2 ^ 32) :
    ∀ i ∈ streamItems msgs trailing, i.frame.payload.length < 2 ^ 32 := by
  intro i hi
  rcases payload_of_mem_streamItems hi with h | ⟨m, hm, f, hf, h⟩
  · rw [h]
    decide
  · rw [h]
    exact hlt m hm f hf

section Serve

variable {ε : Type} {onMessage : List UInt8 → Bool → ε} {P : List ℕ → Prop}
  {msgs : List Message} (trailing : List Control) {cuts : List ℕ} {es : List (Endpoint ε)}

/-- Whole messages are handed over by every endpoint that reads the frames. -/
theorem handsOver_of_whole (hw : ∀ m ∈ msgs, m.Whole) (hP : P cuts)
    (hes : ∀ e ∈ es, e.Reads onMessage P) :
    HandsOver (msgs.map fun m => onMessage m.payload m.text)
      (streamItems msgs trailing).length es.length (serve es {} (wireOf msgs trailing cuts)) := by
  have hlt := streamItems_short trailing fun m hm f hf => by
    have := (hw m hm).2 f hf
    omega
  have hrun := (runItems_streamItems onMessage msgs trailing).1 hw
  have hcuts : P (wireOf msgs trailing cuts).cuts := hP
  exact serve_of_runItems hlt hrun hcuts rfl rfl hes

/-- When one message is not whole, and no fragment is too long for a 32-bit length, one call
for each frame is enough for one of them to answer `false`. -/
theorem stops_of_not_whole (hlt : ∀ m ∈ msgs, ∀ f ∈ m.fragments, f.payload.length < 2 ^ 32)
    (hw : ¬ ∀ m ∈ msgs, m.Whole) (hP : P cuts) (hes : ∀ e ∈ es, e.Reads onMessage P)
    (hlen : (streamItems msgs trailing).length ≤ es.length) :
    (serve es {} (wireOf msgs trailing cuts)).1 = true := by
  have hrun := (runItems_streamItems onMessage msgs trailing).2 hw
  have hcuts : P (wireOf msgs trailing cuts).cuts := hP
  exact serve_of_runItems_none (streamItems_short trailing hlt) hrun hcuts rfl hes hlen

end Serve

/-- **Reassembly.** A stream of messages each of which is whole is handed over by both loops,
message by message; and, when no fragment is as long as `2 ^ 32` bytes, no other stream
is. -/
theorem reassembles_iff (msgs : List Message) (trailing : List Control) :
    ((∀ m ∈ msgs, m.Whole) →
        Coin.Reassembles msgs trailing ∧ Robin.Reassembles msgs trailing) ∧
      ((∀ m ∈ msgs, ∀ f ∈ m.fragments, f.payload.length < 2 ^ 32) →
        Coin.Reassembles msgs trailing ∧ Robin.Reassembles msgs trailing →
        ∀ m ∈ msgs, m.Whole) := by
  have hreplicate : ∀ n, ∀ e ∈ List.replicate n Robin.endpoint,
      e.Reads (fun payload _ => some payload) fun _ => True := by
    rintro n e he
    obtain rfl := List.eq_of_mem_replicate he
    exact Robin.endpoint_reads
  constructor
  · intro hw
    constructor
    · intro junks cuts hcuts
      have hreads : ∀ e ∈ junks.map fun junk => Coin.endpoint junk true true,
          e.Reads .onMessage fun cuts => ∀ c ∈ cuts, 7 ≤ c := by
        rintro e he
        obtain ⟨junk, -, rfl⟩ := List.mem_map.mp he
        exact Coin.endpoint_reads junk
      have h := handsOver_of_whole trailing hw hcuts hreads
      rwa [List.length_map] at h
    · intro calls cuts
      have h := @handsOver_of_whole _ _ (fun _ => True) msgs trailing cuts _ hw trivial
        (hreplicate calls)
      rwa [List.length_replicate] at h
  · rintro hlt ⟨-, hrobin⟩
    by_contra hnot
    have hgo := (hrobin (streamItems msgs trailing).length []).1
    rw [stops_of_not_whole trailing hlt hnot trivial (hreplicate _) (by simp)] at hgo
    exact Bool.noConfusion hgo

/-- Two messages, the first in two fragments, with control frames around them. -/
theorem reassembles_two_fragments :
    Robin.Reassembles
      [⟨true, ⟨[.ping], [104, 105], by decide⟩, [⟨[], [33], by decide⟩]⟩,
        ⟨false, ⟨[.pong, .ping], [7], by decide⟩, []⟩] [.ping] :=
  ((reassembles_iff _ _).1 (by
    intro m hm
    simp only [List.mem_cons, List.not_mem_nil, or_false] at hm
    rcases hm with rfl | rfl
    · exact ⟨rfl, by simp [Message.fragments]⟩
    · exact ⟨trivial, by simp [Message.fragments]⟩)).2

/-- A text message in three fragments of one byte each: the second call answers `false`. -/
theorem three_fragments_refused :
    ¬ ∀ (msgs : List Message) (trailing : List Control),
      Coin.Reassembles msgs trailing ∧ Robin.Reassembles msgs trailing := by
  intro hall
  have hrobin := (hall
    [⟨true, ⟨[], [97], by decide⟩, [⟨[], [98], by decide⟩, ⟨[], [99], by decide⟩]⟩] []).2
  exact absurd (hrobin 3 []).1 (by decide)

end ArchNet
