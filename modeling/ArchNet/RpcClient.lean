import ArchNet.RpcRequest
import ArchNet.RpcResponse

/-!
# What a Caller of `CallMethod` Sees

`RobinPBrpcChannel::CallMethod` runs `ClientSideConnection::process` and discards its
result: what a caller learns of a failure is what `process` has told the controller with
`SetFailed`. Every receive of `process` may fail in the middle, and its result is read as a
`size_t`.

## Conventions

* The transport is a script of its answers (`Answer`): one for each of the two sends, then
  one for each `recv_message`, with the value returned and the bytes stored in the buffer. A
  call that the script has no answer for waits. The streams of `SocketStream` are a case of
  it (`processRecv_eq_script`).
* A result of `send_message` and `recv_message` is a `size_t`, so `<= 0` holds of zero alone:
  an error is a success to `process`.
* The texts of `SetFailed` are bytes.
* A compressed response whose type byte is 36 or more is refused, as in `decodeData`.

## Main results

* `recvPart_iff`: **what the receive part makes of the answers.**
* `surfaced_iff`: a call that completes without `Failed()` has received a complete response
  and parsed it **if and only if** no receive of a size prefix or meta is answered with zero,
  and nothing that was cut off decodes to a success (`Loud`).
-/

namespace ArchNet.Rpc

open Bytes

/-! ### The code -/

/-- What the transport makes of one receive: the value returned, and the bytes stored. -/
structure Answer where
  ret : ℤ
  got : List UInt8
  deriving Repr, DecidableEq

/-- The loop that waits for a header, on the answers: its size, or `none` when the stream
has ended. -/
def awaitHeader : List Answer → Outcome (Option ℕ × List Answer)
  | [] => .blocks
  | a :: answers =>
      if a.ret = 0 then .returns (none, answers)
      else do
        let (headerSize, _) ← readUInt 4 a.got
        if 0 < headerSize then .returns (some headerSize, answers) else awaitHeader answers

/-- One `recv_message`. -/
def awaitAnswer : List Answer → Outcome (Answer × List Answer)
  | [] => .blocks
  | a :: answers => .returns (a, answers)

section Code

variable {M D : Type} (lib : Libraries M D)

/-- The part of `process` behind the meta. -/
def awaitData (d : D) (writable : ℕ) (respMeta : RespMeta) (answers : List Answer) :
    Outcome (CallResult M) :=
  if respMeta.statusCode ≠ RPCError.rpcSuccess.code then
    .returns { ret := respMeta.statusCode, failed := some respMeta.errorMsg }
  else do
    let (a, _) ← awaitAnswer answers
    if a.ret = 0 then .returns { ret := RPCError.rpcRecvRemoteErr.code, failed := some [] }
    else
      match (decodeData lib d respMeta.compressType respMeta.uncompressedSize a.got writable).1 with
      | .aborted => .aborts
      | .refused => .returns { ret := RPCError.parseResponseDataErr.code, failed := some [] }
      | .message msg =>
          .returns ⟨RPCError.rpcSuccess.code, none, some msg, respMeta.streamingType ≠ 0⟩

/-- The part of `process` behind the size of the meta. -/
def awaitMeta (d : D) (writable : ℕ) (answers : List Answer) : Outcome (CallResult M) := do
  let (a, answers) ← awaitAnswer answers
  if a.ret = 0 then .returns { ret := RPCError.rpcRecvRemoteErr.code }
  else
    let respMeta ← decodeResponseMeta a.got
    awaitData lib d writable respMeta answers

/-- The receive part of `process`, with so many writable bytes in the compression buffer. -/
def recvPart (d : D) (writable : ℕ) (answers : List Answer) : Outcome (CallResult M) := do
  let (size, answers) ← awaitHeader answers
  match size with
  | none => .returns { ret := RPCError.rpcRecvRemoteErr.code }
  | some _ => awaitMeta lib d writable answers

/-- What a call is made with, and what happens to it: whether there is a connection, the
controller's `failed_` before the call, the request, the buffers, the values that the two
sends return, and the answers of the transport to the receives. -/
structure Situation (M D : Type) where
  connected : Bool
  failedBefore : Option (List UInt8)
  method : MethodDescriptor D
  type : CompressType
  streaming : Bool
  request : M
  buffer : CompressBuffer
  writable : ℕ
  metaSent : Option ℤ
  bodySent : Option ℤ
  answers : List Answer

/-- `SendRequestTimeout`, and the value next to it. A failed send returns zero, which is
below `SendTimeout` once that is converted to `size_t`. -/
def sendRequestTimeout : ℤ := -8100

/-- `ClientSideConnection::process`. -/
def process (x : Situation M D) : Outcome (CallResult M) :=
  match encodeRPCRequest lib x.method x.type x.streaming x.request x.buffer with
  | .overrun => .aborts
  | .refused => .returns { ret := -8002, failed := some (ascii "request encode error") }
  | .made _ => do
      let ret ← .ofRead x.metaSent
      if ret = 0 then
        .returns { ret := sendRequestTimeout, failed := some (ascii "request meta send error") }
      else
        let ret ← .ofRead x.bodySent
        if ret = 0 then
          .returns
            { ret := sendRequestTimeout, failed := some (ascii "request message send error") }
        else recvPart lib x.method.outputType x.writable x.answers

/-- What the caller finds when the call has completed. -/
structure Completed (M : Type) where
  failed : Option (List UInt8)
  response : Option M
  remoteUseStreaming : Bool
  deriving Repr, DecidableEq

/-- `RobinPBrpcChannel::CallMethod`, up to its completion; what `process` returns is
discarded. -/
def callMethod (x : Situation M D) : Outcome (Completed M) :=
  if x.connected then do
    let result ← process lib x
    .returns ⟨result.failed <|> x.failedBefore, result.response, result.remoteUseStreaming⟩
  else .returns ⟨some (ascii "invalid connection"), none, false⟩

end Code

/-! ### What the receive part makes of the answers -/

/-- The answer is a heartbeat: four zero bytes where a header size was asked for. -/
def Answer.isBeat (a : Answer) : Bool :=
  decide (a.ret ≠ 0) && decide (4 ≤ a.got.length) && decide (beVal (a.got.take 4) = 0)

/-- The answers behind the heartbeats. -/
def afterBeats (answers : List Answer) : List Answer := answers.dropWhile Answer.isBeat

/-- The loop skips the heartbeats, and ends at the first answer that is none. -/
theorem awaitHeader_eq (answers : List Answer) :
    awaitHeader answers = match afterBeats answers with
      | [] => .blocks
      | p :: rest =>
          if p.ret = 0 then .returns (none, rest)
          else if 4 ≤ p.got.length then .returns (some (beVal (p.got.take 4)), rest)
          else .aborts := by
  induction answers with
  | nil => rfl
  | cons a answers ih =>
      by_cases hbeat : a.isBeat = true
      · have hskip : afterBeats (a :: answers) = afterBeats answers :=
          List.dropWhile_cons_of_pos hbeat
        simp only [Answer.isBeat, Bool.and_eq_true, decide_eq_true_eq] at hbeat
        obtain ⟨⟨hret, hlen⟩, hzero⟩ := hbeat
        rw [hskip, ← ih, awaitHeader, if_neg hret, readUInt, if_pos hlen, Outcome.bind_returns]
        dsimp only
        rw [hzero, if_neg (Nat.lt_irrefl 0)]
      · have hstop : afterBeats (a :: answers) = a :: answers :=
          List.dropWhile_cons_of_neg hbeat
        rw [hstop, awaitHeader]
        dsimp only
        by_cases hret : a.ret = 0
        · rw [if_pos hret, if_pos hret]
        rw [if_neg hret, if_neg hret, readUInt]
        by_cases hlen : 4 ≤ a.got.length
        · have hpos : 0 < beVal (a.got.take 4) := by
            simp only [Answer.isBeat, Bool.and_eq_true, decide_eq_true_eq] at hbeat
            have hne : beVal (a.got.take 4) ≠ 0 := fun h => hbeat ⟨⟨hret, hlen⟩, h⟩
            omega
          rw [if_pos hlen, if_pos hlen, Outcome.bind_returns]
          dsimp only
          rw [if_pos hpos]
        · rw [if_neg hlen, if_neg hlen]
          rfl

section Received

variable {M D : Type} (lib : Libraries M D)

/-- **The ways in which the receive part returns without `SetFailed`**: the stream is closed
where a size is expected, or inside the meta, or a message is parsed. -/
inductive Unfailed (d : D) (writable : ℕ) (answers : List Answer) : CallResult M → Prop
  | closedAtSize {p : Answer} {rest : List Answer} (hanswers : afterBeats answers = p :: rest)
      (hsize : p.ret = 0) : Unfailed d writable answers { ret := RPCError.rpcRecvRemoteErr.code }
  | closedInMeta {p h : Answer} {rest : List Answer}
      (hanswers : afterBeats answers = p :: h :: rest) (hsize : p.ret ≠ 0)
      (hlen : 4 ≤ p.got.length) (hmeta : h.ret = 0) :
      Unfailed d writable answers { ret := RPCError.rpcRecvRemoteErr.code }
  | parsed {p h a : Answer} {rest : List Answer} {respMeta : RespMeta} {msg : M}
      (hanswers : afterBeats answers = p :: h :: a :: rest) (hsize : p.ret ≠ 0)
      (hlen : 4 ≤ p.got.length) (hmeta : h.ret ≠ 0)
      (hdecoded : decodeResponseMeta h.got = .returns respMeta)
      (hstatus : respMeta.statusCode = RPCError.rpcSuccess.code) (hdata : a.ret ≠ 0)
      (hmsg : (decodeData lib d respMeta.compressType respMeta.uncompressedSize a.got
        writable).1 = .message msg) :
      Unfailed d writable answers
        ⟨RPCError.rpcSuccess.code, none, some msg, respMeta.streamingType ≠ 0⟩

/-- Behind the meta of a success the controller is spared if the data is parsed. -/
theorem awaitData_iff {d : D} {writable : ℕ} {respMeta : RespMeta} {answers : List Answer}
    {r : CallResult M} :
    (awaitData lib d writable respMeta answers = .returns r ∧ r.failed = none) ↔
      respMeta.statusCode = RPCError.rpcSuccess.code ∧ ∃ a rest msg, answers = a :: rest ∧
        a.ret ≠ 0 ∧ (decodeData lib d respMeta.compressType respMeta.uncompressedSize a.got
          writable).1 = .message msg ∧
        r = ⟨RPCError.rpcSuccess.code, none, some msg, respMeta.streamingType ≠ 0⟩ := by
  rw [awaitData]
  constructor
  · rintro ⟨h, hok⟩
    split_ifs at h with hstatus
    · obtain rfl := Outcome.returns.inj h
      cases hok
    · refine ⟨not_not.mp hstatus, ?_⟩
      cases answers with
      | nil => cases h
      | cons a rest =>
          rw [awaitAnswer, Outcome.bind_returns] at h
          dsimp only at h
          split_ifs at h with hdata
          · obtain rfl := Outcome.returns.inj h
            cases hok
          · split at h
            · cases h
            · obtain rfl := Outcome.returns.inj h
              cases hok
            · rename_i msg hmsg
              exact ⟨a, rest, msg, rfl, hdata, hmsg, (Outcome.returns.inj h).symm⟩
  · rintro ⟨hstatus, a, rest, msg, rfl, hdata, hmsg, rfl⟩
    rw [if_neg (not_not.mpr hstatus), awaitAnswer, Outcome.bind_returns]
    dsimp only
    rw [if_neg hdata, hmsg]
    exact ⟨rfl, rfl⟩

/-- Behind the size of the meta a stream that is closed spares the controller. -/
theorem awaitMeta_iff {d : D} {writable : ℕ} {answers : List Answer} {r : CallResult M} :
    (awaitMeta lib d writable answers = .returns r ∧ r.failed = none) ↔
      ∃ a rest, answers = a :: rest ∧
        (a.ret = 0 ∧ r = { ret := RPCError.rpcRecvRemoteErr.code } ∨
          a.ret ≠ 0 ∧ ∃ respMeta, decodeResponseMeta a.got = .returns respMeta ∧
            awaitData lib d writable respMeta rest = .returns r ∧ r.failed = none) := by
  rw [awaitMeta]
  constructor
  · rintro ⟨h, hok⟩
    cases answers with
    | nil => cases h
    | cons a rest =>
        rw [awaitAnswer, Outcome.bind_returns] at h
        dsimp only at h
        split_ifs at h with hmeta
        · exact ⟨a, rest, rfl, .inl ⟨hmeta, (Outcome.returns.inj h).symm⟩⟩
        · obtain ⟨respMeta, hdecoded, h⟩ := Outcome.bind_eq_returns.mp h
          exact ⟨a, rest, rfl, .inr ⟨hmeta, respMeta, hdecoded, h, hok⟩⟩
  · rintro ⟨a, rest, rfl, hcase⟩
    rw [awaitAnswer, Outcome.bind_returns]
    dsimp only
    rcases hcase with ⟨hmeta, rfl⟩ | ⟨hmeta, respMeta, hdecoded, h⟩
    · rw [if_pos hmeta]
      exact ⟨rfl, rfl⟩
    · rw [if_neg hmeta, hdecoded, Outcome.bind_returns]
      exact h

/-- **What the receive part makes of the answers**, where it does not fail the controller. -/
theorem recvPart_iff {d : D} {writable : ℕ} {answers : List Answer} {r : CallResult M} :
    (recvPart lib d writable answers = .returns r ∧ r.failed = none) ↔
      Unfailed lib d writable answers r := by
  constructor
  · rintro ⟨h, hok⟩
    rw [recvPart, awaitHeader_eq] at h
    cases hanswers : afterBeats answers with
    | nil =>
        rw [hanswers] at h
        cases h
    | cons p rest =>
        rw [hanswers] at h
        dsimp only at h
        split_ifs at h with hsize hlen
        · obtain rfl := Outcome.returns.inj h
          exact .closedAtSize hanswers hsize
        · obtain ⟨a, rest, rfl, ⟨hmeta, rfl⟩ | ⟨hmeta, respMeta, hdecoded, h⟩⟩ :=
            (awaitMeta_iff lib).mp ⟨h, hok⟩
          · exact .closedInMeta hanswers hsize hlen hmeta
          · obtain ⟨hstatus, b, rest, msg, rfl, hdata, hmsg, rfl⟩ := (awaitData_iff lib).mp h
            exact .parsed hanswers hsize hlen hmeta hdecoded hstatus hdata hmsg
        · cases h
  · intro h
    cases h with
    | closedAtSize hanswers hsize =>
        rw [recvPart, awaitHeader_eq, hanswers]
        dsimp only
        rw [if_pos hsize]
        exact ⟨rfl, rfl⟩
    | closedInMeta hanswers hsize hlen hmeta =>
        rw [recvPart, awaitHeader_eq, hanswers]
        dsimp only
        rw [if_neg hsize, if_pos hlen, Outcome.bind_returns]
        exact (awaitMeta_iff lib).mpr ⟨_, _, rfl, .inl ⟨hmeta, rfl⟩⟩
    | parsed hanswers hsize hlen hmeta hdecoded hstatus hdata hmsg =>
        rw [recvPart, awaitHeader_eq, hanswers]
        dsimp only
        rw [if_neg hsize, if_pos hlen, Outcome.bind_returns]
        refine (awaitMeta_iff lib).mpr ⟨_, _, rfl, .inr ⟨hmeta, _, hdecoded, ?_⟩⟩
        exact (awaitData_iff lib).mpr ⟨hstatus, _, _, _, rfl, hdata, hmsg, rfl⟩

/-! ### What the caller learns -/

/-- **A complete response was received**: behind the heartbeats a size, so many bytes of a
meta with the status of success, and so many bytes of data as it announces, which decode to
the message. -/
def Complete (d : D) (writable : ℕ) (answers : List Answer) (msg : M) : Prop :=
  ∃ p h a rest respMeta, afterBeats answers = p :: h :: a :: rest ∧ 4 ≤ p.got.length ∧
    h.got.length = beVal (p.got.take 4) ∧ decodeResponseMeta h.got = .returns respMeta ∧
    respMeta.statusCode = RPCError.rpcSuccess.code ∧ a.got.length = respMeta.dataSize ∧
    (decodeData lib d respMeta.compressType respMeta.uncompressedSize a.got writable).1 =
      .message msg

/-- A call that completes without `Failed()` has received a complete response and parsed it. -/
def Surfaced (x : Situation M D) : Prop :=
  ∀ c, callMethod lib x = .returns c → c.failed = none →
    ∃ msg, c.response = some msg ∧
      Complete lib x.method.outputType x.writable x.answers msg

/-- The call gets as far as the response: there is a connection, and the request encodes and
is sent. -/
structure Sent (x : Situation M D) : Prop where
  connected : x.connected = true
  encodes : (encodeRPCRequest lib x.method x.type x.streaming x.request x.buffer).made?.isSome
  metaSent : ∃ n, x.metaSent = some n ∧ n ≠ 0
  bodySent : ∃ n, x.bodySent = some n ∧ n ≠ 0

/-- **No failure of the transport goes unnoticed**: no receive of a size or of a meta is
answered with zero, and where what has arrived of a meta and of the data decodes to a
success, both have arrived whole. -/
structure Loud (d : D) (writable : ℕ) (answers : List Answer) : Prop where
  size : ∀ p rest, afterBeats answers = p :: rest → p.ret ≠ 0
  fields : ∀ p h rest, afterBeats answers = p :: h :: rest → 4 ≤ p.got.length → h.ret ≠ 0
  whole : ∀ p h a rest respMeta msg, afterBeats answers = p :: h :: a :: rest →
    4 ≤ p.got.length → decodeResponseMeta h.got = .returns respMeta →
    respMeta.statusCode = RPCError.rpcSuccess.code → a.ret ≠ 0 →
    (decodeData lib d respMeta.compressType respMeta.uncompressedSize a.got writable).1 =
      .message msg →
    h.got.length = beVal (p.got.take 4) ∧ a.got.length = respMeta.dataSize

/-- A call that gets as far as the response is up to the receive part. -/
theorem callMethod_sent {x : Situation M D} (h : Sent lib x) :
    callMethod lib x = recvPart lib x.method.outputType x.writable x.answers >>= fun result =>
      .returns ⟨result.failed <|> x.failedBefore, result.response,
        result.remoteUseStreaming⟩ := by
  obtain ⟨hconn, henc, ⟨n, hn, hn0⟩, ⟨m, hm, hm0⟩⟩ := h
  obtain ⟨req, hreq⟩ := Option.isSome_iff_exists.mp henc
  rw [Encoding.made?_eq_some] at hreq
  rw [callMethod, if_pos hconn, process, hreq]
  dsimp only
  rw [Outcome.ofRead_bind hn, if_neg hn0, Outcome.ofRead_bind hm, if_neg hm0]

/-- A call that does not get as far as the response completes with `Failed()`, if at all. -/
theorem failed_of_not_sent {x : Situation M D} {c : Completed M} (hsent : ¬ Sent lib x)
    (h : callMethod lib x = .returns c) : c.failed ≠ none := by
  rw [callMethod] at h
  split_ifs at h with hconn
  · obtain ⟨result, hresult, h⟩ := Outcome.bind_eq_returns.mp h
    obtain rfl := Outcome.returns.inj h
    have hfailed : result.failed ≠ none → (result.failed <|> x.failedBefore) ≠ none := by
      intro hne
      obtain ⟨text, htext⟩ := Option.ne_none_iff_exists'.mp hne
      simp [htext]
    refine hfailed ?_
    rw [process] at hresult
    cases hreq : encodeRPCRequest lib x.method x.type x.streaming x.request x.buffer with
    | overrun =>
        rw [hreq] at hresult
        cases hresult
    | refused =>
        rw [hreq] at hresult
        obtain rfl := Outcome.returns.inj hresult
        simp
    | made req =>
        rw [hreq] at hresult
        obtain ⟨n, hn, hresult⟩ := Outcome.bind_eq_returns.mp hresult
        split_ifs at hresult with hn0
        · obtain rfl := Outcome.returns.inj hresult
          simp
        · obtain ⟨m, hm, hresult⟩ := Outcome.bind_eq_returns.mp hresult
          split_ifs at hresult with hm0
          · obtain rfl := Outcome.returns.inj hresult
            simp
          · have hn' := Outcome.ofRead_eq_returns.mp hn
            have hm' := Outcome.ofRead_eq_returns.mp hm
            exact absurd ⟨hconn, by rw [hreq]; rfl, ⟨n, hn', hn0⟩, ⟨m, hm', hm0⟩⟩ hsent
  · obtain rfl := Outcome.returns.inj h
    simp

/-- Without a failure that goes unnoticed, what is parsed was received whole. -/
theorem Loud.complete {d : D} {writable : ℕ} {answers : List Answer} {r : CallResult M}
    (hloud : Loud lib d writable answers) (h : Unfailed lib d writable answers r) :
    ∃ msg, r.response = some msg ∧ Complete lib d writable answers msg := by
  cases h with
  | closedAtSize hanswers hsize => exact absurd hsize (hloud.size _ _ hanswers)
  | closedInMeta hanswers _ hlen hmeta => exact absurd hmeta (hloud.fields _ _ _ hanswers hlen)
  | parsed hanswers _ hlen _ hdecoded hstatus hdata hmsg =>
      obtain ⟨hheader, hbody⟩ :=
        hloud.whole _ _ _ _ _ _ hanswers hlen hdecoded hstatus hdata hmsg
      exact ⟨_, rfl, _, _, _, _, _, hanswers, hlen, hheader, hdecoded, hstatus, hbody, hmsg⟩

/-- Where every message that is parsed was received whole, no failure goes unnoticed. -/
theorem loud_of_complete {d : D} {writable : ℕ} {answers : List Answer}
    (h : ∀ r, Unfailed lib d writable answers r →
      ∃ msg, r.response = some msg ∧ Complete lib d writable answers msg) :
    Loud lib d writable answers := by
  have hsize : ∀ p rest, afterBeats answers = p :: rest → p.ret ≠ 0 := by
    intro p rest hanswers hzero
    obtain ⟨msg, hmsg, -⟩ := h _ (.closedAtSize hanswers hzero)
    cases hmsg
  have hfields : ∀ p a rest, afterBeats answers = p :: a :: rest → 4 ≤ p.got.length →
      a.ret ≠ 0 := by
    intro p a rest hanswers hlen hzero
    obtain ⟨msg, hmsg, -⟩ :=
      h _ (.closedInMeta hanswers (hsize _ _ hanswers) hlen hzero)
    cases hmsg
  refine ⟨hsize, hfields, ?_⟩
  intro p a b rest respMeta msg hanswers hlen hdecoded hstatus hdata hmsg
  obtain ⟨msg', -, p', a', b', rest', respMeta', hanswers', -, hheader, hdecoded', -, hbody, -⟩ :=
    h _ (.parsed hanswers (hsize _ _ hanswers) hlen (hfields _ _ _ hanswers hlen) hdecoded
      hstatus hdata hmsg)
  rw [hanswers] at hanswers'
  obtain ⟨rfl, hrest⟩ := List.cons.inj hanswers'
  obtain ⟨rfl, hrest'⟩ := List.cons.inj hrest
  obtain ⟨rfl, -⟩ := List.cons.inj hrest'
  obtain rfl := Outcome.returns.inj (hdecoded.symm.trans hdecoded')
  exact ⟨hheader, hbody⟩

end Received

/-- **What a caller can rely on.** A call that completes without `Failed()` has received a
complete response with the status of success and parsed its data, for every behaviour of
the transport and of the server, if and only if no failure of the transport goes unnoticed
where the controller had not failed before and the request was sent. -/
theorem surfaced_iff {M D : Type} (lib : Libraries M D) (x : Situation M D) :
    Surfaced lib x ↔ (x.failedBefore = none → Sent lib x →
      Loud lib x.method.outputType x.writable x.answers) := by
  constructor
  · intro hsurfaced hbefore hsent
    refine loud_of_complete lib fun r hr => ?_
    obtain ⟨hrecv, hok⟩ := (recvPart_iff lib).mpr hr
    have hcall := callMethod_sent lib hsent
    rw [hrecv, Outcome.bind_returns] at hcall
    have hfailed : (r.failed <|> x.failedBefore) = none := by simp [hok, hbefore]
    exact hsurfaced _ hcall hfailed
  · intro hloud c hcall hok
    by_cases hsent : Sent lib x
    · rw [callMethod_sent lib hsent] at hcall
      obtain ⟨r, hrecv, h⟩ := Outcome.bind_eq_returns.mp hcall
      obtain rfl := Outcome.returns.inj h
      have hboth : r.failed = none ∧ x.failedBefore = none := by simpa using hok
      exact (hloud hboth.2 hsent).complete lib ((recvPart_iff lib).mp ⟨hrecv, hboth.1⟩)
    · exact absurd hok (failed_of_not_sent lib hsent hcall)

/-- A call for which the server closes the connection before it answers. -/
def closedCall : Situation (List UInt8) Unit where
  connected := true
  failedBefore := none
  method := ⟨ascii "Echo", ascii "echo", (), ()⟩
  type := .noCompression
  streaming := false
  request := [65]
  buffer := {}
  writable := 1024
  metaSent := some 25
  bodySent := some 1
  answers := [⟨0, []⟩]

/-- The peer's close in front of the response is not reported to the caller. -/
theorem closedCall_not_surfaced :
    ¬ ∀ x : Situation (List UInt8) Unit, Surfaced storedLibrary x := by
  intro hall
  have hcall : callMethod storedLibrary closedCall = .returns ⟨none, none, false⟩ := by decide
  obtain ⟨msg, hmsg, -⟩ := hall closedCall _ hcall rfl
  cases hmsg

/-! ### Streams are scripts -/

section Streams

variable {M D : Type} (lib : Libraries M D)

/-- What the loop for a header reads from a stream, as answers: the loop ends on them as it
ends on the stream, whatever answers follow. -/
theorem recvHeaderSize_script (rounds writable : ℕ) (src : Source) :
    ∃ front, match recvHeaderSize rounds writable src with
      | .blocks => awaitHeader front = .blocks
      | .aborts => awaitHeader front = .aborts
      | .returns p => ∀ tail, awaitHeader (front ++ tail) = .returns (p.1, tail) := by
  induction rounds generalizing writable src with
  | zero => exact ⟨[], rfl⟩
  | succ rounds ih =>
      rw [recvHeaderSize]
      cases hread : recvMessage 4 writable src with
      | none => exact ⟨[], rfl⟩
      | some res =>
          obtain ⟨n, got, writable', src'⟩ := res
          rw [Outcome.ofRead_some, Outcome.bind_returns]
          dsimp only
          by_cases hn : n = 0
          · rw [if_pos hn]
            refine ⟨[⟨n, got⟩], ?_⟩
            intro tail
            rw [List.singleton_append, awaitHeader, if_pos hn]
          rw [if_neg hn]
          cases hsize : readUInt 4 got with
          | blocks =>
              rw [readUInt] at hsize
              split_ifs at hsize
          | aborts =>
              refine ⟨[⟨n, got⟩], ?_⟩
              change awaitHeader [⟨n, got⟩] = _
              rw [awaitHeader, if_neg hn, hsize]
              rfl
          | returns q =>
              rw [Outcome.bind_returns]
              by_cases hpos : 0 < q.1
              · rw [if_pos hpos]
                refine ⟨[⟨n, got⟩], ?_⟩
                intro tail
                rw [List.singleton_append, awaitHeader, if_neg hn, hsize, Outcome.bind_returns]
                exact if_pos hpos
              · rw [if_neg hpos]
                obtain ⟨front, hfront⟩ := ih writable' src'
                refine ⟨⟨n, got⟩ :: front, ?_⟩
                have hskip : ∀ answers,
                    awaitHeader (⟨n, got⟩ :: answers) = awaitHeader answers := by
                  intro answers
                  rw [awaitHeader, if_neg hn, hsize, Outcome.bind_returns]
                  exact if_neg hpos
                cases hrest : recvHeaderSize rounds writable' src' with
                | blocks =>
                    rw [hrest] at hfront
                    exact (hskip front).trans hfront
                | aborts =>
                    rw [hrest] at hfront
                    exact (hskip front).trans hfront
                | returns p =>
                    rw [hrest] at hfront
                    exact fun tail => (hskip (front ++ tail)).trans (hfront tail)

/-- The part behind the meta reads at most one answer. -/
theorem recvResponse_script (d : D) (b : ClientBuffers) (respMeta : RespMeta) (src : Source) :
    ∃ answers, awaitData lib d b.compressWritable respMeta answers =
      (recvResponse lib d b respMeta src >>= fun res => .returns res.1) := by
  rw [recvResponse]
  by_cases hstatus : respMeta.statusCode ≠ RPCError.rpcSuccess.code
  · refine ⟨[], ?_⟩
    rw [awaitData, if_pos hstatus, if_pos hstatus, Outcome.bind_returns]
  rw [if_neg hstatus]
  cases hread : recvMessage respMeta.dataSize b.dataWritable src with
  | none =>
      refine ⟨[], ?_⟩
      rw [awaitData, if_neg hstatus]
      rfl
  | some res =>
      obtain ⟨n, data, writable, src'⟩ := res
      refine ⟨[⟨n, data⟩], ?_⟩
      rw [awaitData, if_neg hstatus, Outcome.ofRead_some, Outcome.bind_returns]
      dsimp only [awaitAnswer]
      rw [Outcome.bind_returns]
      dsimp only
      by_cases hn : n = 0
      · rw [if_pos hn, if_pos hn, Outcome.bind_returns]
      · rw [if_neg hn, if_neg hn]
        cases (decodeData lib d respMeta.compressType respMeta.uncompressedSize data
            b.compressWritable).1 with
        | aborted => rfl
        | refused => rfl
        | message msg => rfl

/-- So does the part behind the size, and one more. -/
theorem recvMeta_script (d : D) (b : ClientBuffers) (headerSize : ℕ) (src : Source) :
    ∃ answers, awaitMeta lib d b.compressWritable answers =
      ((do
        let (n, header, writable, src) ← .ofRead (recvMessage headerSize b.metaWritable src)
        let b := { b with metaWritable := writable }
        if n = 0 then .returns ({ ret := RPCError.rpcRecvRemoteErr.code }, b, src)
        else
          let respMeta ← decodeResponseMeta header
          recvResponse lib d b respMeta src) >>= fun res => .returns res.1) := by
  cases hread : recvMessage headerSize b.metaWritable src with
  | none => exact ⟨[], rfl⟩
  | some res =>
      obtain ⟨n, header, writable, src'⟩ := res
      rw [Outcome.ofRead_some, Outcome.bind_returns]
      dsimp only
      have hmeta : ∀ tail, awaitMeta lib d b.compressWritable (⟨n, header⟩ :: tail) =
          if n = 0 then .returns { ret := RPCError.rpcRecvRemoteErr.code }
          else decodeResponseMeta header >>= fun respMeta =>
            awaitData lib d b.compressWritable respMeta tail := by
        intro tail
        rw [awaitMeta]
        dsimp only [awaitAnswer]
        rw [Outcome.bind_returns]
      by_cases hn : n = 0
      · refine ⟨[⟨n, header⟩], ?_⟩
        rw [hmeta, if_pos hn, if_pos hn, Outcome.bind_returns]
      cases hdecoded : decodeResponseMeta header with
      | blocks =>
          refine ⟨[⟨n, header⟩], ?_⟩
          rw [hmeta, if_neg hn, if_neg hn, hdecoded]
          rfl
      | aborts =>
          refine ⟨[⟨n, header⟩], ?_⟩
          rw [hmeta, if_neg hn, if_neg hn, hdecoded]
          rfl
      | returns respMeta =>
          obtain ⟨tail, htail⟩ := recvResponse_script lib d
            { b with metaWritable := writable } respMeta src'
          refine ⟨⟨n, header⟩ :: tail, ?_⟩
          rw [hmeta, if_neg hn, if_neg hn, hdecoded, Outcome.bind_returns, Outcome.bind_returns]
          exact htail

/-- **The receive part on a stream is the receive part on a script**, that of the answers
which the stream gives to its reads. -/
theorem processRecv_eq_script (d : D) (b : ClientBuffers) (src : Source) :
    ∃ answers, recvPart lib d b.compressWritable answers =
      (processRecv lib d b src >>= fun res => .returns res.1) := by
  obtain ⟨front, hfront⟩ := recvHeaderSize_script (src.bytes.length + 1) b.metaWritable src
  rw [processRecv]
  cases hheader : recvHeaderSize (src.bytes.length + 1) b.metaWritable src with
  | blocks =>
      rw [hheader] at hfront
      refine ⟨front, ?_⟩
      rw [recvPart, hfront]
      rfl
  | aborts =>
      rw [hheader] at hfront
      refine ⟨front, ?_⟩
      rw [recvPart, hfront]
      rfl
  | returns p =>
      obtain ⟨size, writable, src₁⟩ := p
      rw [hheader] at hfront
      cases size with
      | none =>
          refine ⟨front ++ [], ?_⟩
          rw [recvPart, hfront]
          rfl
      | some headerSize =>
          obtain ⟨tail, htail⟩ := recvMeta_script lib d
            { b with metaWritable := writable } headerSize src₁
          refine ⟨front ++ tail, ?_⟩
          rw [recvPart, hfront, Outcome.bind_returns, Outcome.bind_returns]
          exact htail

end Streams

end ArchNet.Rpc
