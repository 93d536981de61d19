import ArchNet.Lts
import ArchNet.RpcResponse
import Mathlib.Data.List.TakeDrop

/-!
# Completion of RPC Calls

`handle_and_send` hands a request to its handler and waits for a token on `channel_`, which
`on_resp_msg_filled` pushes when the response is filled, in the handler's fiber or in
another one. Then the connection looks at `error_code`. This module counts the tokens of one
call, and follows a connection on which the handlers finish at any time and the effects of
their calls are interleaved with the waiting.

## Conventions

A call of `on_resp_msg_filled` is the list of its effects, executed one by one. With which
buffers it finds the `ResponseInfo` is left open. A response is sent completely when all
bytes of its meta have gone out and, unless the handler has failed, those of its body.

## Main results

* `codesAtPush_filled`: the values of `error_code` at the tokens of one call.
* `signals_iff`: one call pushes exactly one token, with a negative `error_code` if and only
  if the response was not sent completely, exactly when the response does not encode, or
  the handler has succeeded and both writes take all of a buffer that is not empty.
* `finished_of_pop`: **in every run of such calls** `handle_and_send` returns for a request
  only when its response is finished.
-/

namespace ArchNet

namespace Rpc

/-! ### The tokens of one call -/

/-- The values of `error_code` at the tokens among effects. -/
def codesAtPush (code : ℤ) : List Effect → List ℤ
  | [] => []
  | .wrote _ :: es => codesAtPush code es
  | .setError code' :: es => codesAtPush code' es
  | .push :: es => code :: codesAtPush code es
  | .abort :: _ => []

@[simp] theorem codesAtPush_report (code : ℤ) (failed : Bool) (es : List Effect) :
    codesAtPush code (reportIf failed ++ es) =
      if failed then -1 :: codesAtPush (-1) es else codesAtPush code es := by
  cases failed <;> rfl

section Signals

variable {M D : Type} {lib : Libraries M D}

/-- All bytes of the response have gone out. -/
def Call.CompletelySent (call : Call lib) (info : ResponseInfo) : Prop :=
  ∃ respMeta info', encodeResponse info call = .made (respMeta, info') ∧
    (sendBuffer call.metaWrite respMeta).2.1 = respMeta ∧
    (call.failed = none →
      (sendBuffer call.bodyWrite (call.body info')).2.1 = call.body info')

/-- The calls that signal as they should: the response does not encode, or the handler has
succeeded and both writes take all of a buffer that is not empty. -/
def Call.signalsOnce (call : Call lib) (info : ResponseInfo) : Bool :=
  match encodeResponse info call with
  | .overrun => false
  | .refused => true
  | .made (respMeta, info') =>
      call.failed.isNone && decide (call.metaWrite.Whole respMeta) &&
        decide (call.body info' ≠ []) && decide (call.bodyWrite.Whole (call.body info'))

/-- A call whose response does not encode. -/
theorem onRespMsgFilled_of_refused {info : ResponseInfo} {call : Call lib}
    (henc : encodeResponse info call = .refused) :
    (onRespMsgFilled info call).1 = [.setError (-1), .push] := by
  rw [onRespMsgFilled, henc]

/-- The tokens of a call whose response encodes: one for each thing that goes wrong, with
`-1`, and one at the end, with `0`. -/
theorem codesAtPush_filled {info info' : ResponseInfo} {call : Call lib}
    {respMeta : List UInt8} (henc : encodeResponse info call = .made (respMeta, info'))
    (code : ℤ) :
    codesAtPush code (onRespMsgFilled info call).1 =
      List.replicate ((decide ((sendBuffer call.metaWrite respMeta).1 ≤ 0)).toNat +
        call.failed.isSome.toNat +
        (decide ((sendBuffer call.bodyWrite
          (bodyOf call.type info'.dataBuff info'.compress.packed)).1 ≤ 0)).toNat) (-1) ++ [0] := by
  simp only [onRespMsgFilled, henc, List.append_assoc, codesAtPush, codesAtPush_report,
    List.cons_append, List.nil_append]
  generalize decide ((sendBuffer call.metaWrite respMeta).1 ≤ 0) = p
  generalize decide ((sendBuffer call.bodyWrite
    (bodyOf call.type info'.dataBuff info'.compress.packed)).1 ≤ 0) = q
  cases p <;> cases call.failed.isSome <;> cases q <;> rfl

/-- A write reports success and all bytes have gone out exactly when it takes all of a
buffer that is not empty. -/
theorem sendBuffer_complete_iff {w : WriteOutcome} {buffer : List UInt8} :
    (¬ (sendBuffer w buffer).1 ≤ 0 ∧ (sendBuffer w buffer).2.1 = buffer) ↔
      buffer ≠ [] ∧ w.Whole buffer := by
  cases w with
  | error =>
      constructor
      · rintro ⟨h, -⟩
        exact absurd (by decide : (-1 : ℤ) ≤ 0) h
      · exact fun h => h.2.elim
  | takes n =>
      simp only [sendBuffer, WriteOutcome.Whole, List.take_eq_self_iff, ← List.length_pos_iff]
      omega

/-- The meta of a response is not empty. -/
theorem encodeResponse_meta_ne_nil {info info' : ResponseInfo} {call : Call lib}
    {respMeta : List UInt8} (henc : encodeResponse info call = .made (respMeta, info')) :
    respMeta ≠ [] := by
  have hsize : ∀ fields : List UInt8, withSize fields ≠ [] := by
    intro fields h
    have hlen := congrArg List.length h
    rw [withSize, List.length_append, Bytes.length_beBytes, List.length_nil] at hlen
    omega
  rw [encodeResponse] at henc
  cases hf : call.failed with
  | some text =>
      rw [hf] at henc
      obtain ⟨rfl, -⟩ := Prod.mk.inj (Encoding.made.inj henc)
      exact hsize _
  | none =>
      rw [hf] at henc
      obtain ⟨body, -, heq⟩ := Encoding.map_eq_made.mp henc
      obtain ⟨rfl, -⟩ := Prod.mk.inj heq
      exact hsize _

/-- The calls that signal as they should, when the response encodes. -/
theorem signalsOnce_iff {info info' : ResponseInfo} {call : Call lib} {respMeta : List UInt8}
    (henc : encodeResponse info call = .made (respMeta, info')) :
    call.signalsOnce info = true ↔ call.failed = none ∧
      (¬ (sendBuffer call.metaWrite respMeta).1 ≤ 0 ∧
        (sendBuffer call.metaWrite respMeta).2.1 = respMeta) ∧
      (¬ (sendBuffer call.bodyWrite (call.body info')).1 ≤ 0 ∧
        (sendBuffer call.bodyWrite (call.body info')).2.1 = call.body info') := by
  rw [sendBuffer_complete_iff, sendBuffer_complete_iff, Call.signalsOnce, henc]
  simp only [Bool.and_eq_true, decide_eq_true_eq, Option.isNone_iff_eq_none]
  have hne := encodeResponse_meta_ne_nil henc
  tauto

/-- **One call**: exactly one token, with a negative `error_code` if and only if the response
was not sent completely, exactly when the response does not encode, or the handler has
succeeded and both writes take all of a buffer that is not empty. -/
theorem signals_iff (info : ResponseInfo) (call : Call lib) :
    (∃ code, codesAtPush info.errorCode (onRespMsgFilled info call).1 = [code] ∧
      (code < 0 ↔ ¬ call.CompletelySent info)) ↔ call.signalsOnce info = true := by
  cases henc : encodeResponse info call with
  | overrun =>
      have hcodes : codesAtPush info.errorCode (onRespMsgFilled info call).1 = [] := by
        rw [onRespMsgFilled, henc]
        rfl
      rw [Call.signalsOnce, henc]
      constructor
      · rintro ⟨code, h, -⟩
        rw [hcodes] at h
        cases h
      · intro h
        exact absurd h Bool.false_ne_true
  | refused =>
      have hcodes : codesAtPush info.errorCode (onRespMsgFilled info call).1 = [-1] := by
        rw [onRespMsgFilled_of_refused henc]
        rfl
      have hsent : ¬ call.CompletelySent info := by
        rintro ⟨respMeta, info', h, -⟩
        rw [henc] at h
        cases h
      rw [Call.signalsOnce, henc]
      exact ⟨fun _ => rfl, fun _ => ⟨-1, hcodes, fun _ => hsent, fun _ => by decide⟩⟩
  | made enc =>
      obtain ⟨respMeta, info'⟩ := enc
      have hsent : call.CompletelySent info ↔
          (sendBuffer call.metaWrite respMeta).2.1 = respMeta ∧ (call.failed = none →
            (sendBuffer call.bodyWrite (call.body info')).2.1 = call.body info') := by
        constructor
        · rintro ⟨respMeta₁, info₁, h, hmeta, hbody⟩
          obtain ⟨rfl, rfl⟩ := Prod.mk.inj (Encoding.made.inj (henc.symm.trans h))
          exact ⟨hmeta, hbody⟩
        · rintro ⟨hmeta, hbody⟩
          exact ⟨respMeta, info', henc, hmeta, hbody⟩
      have hbodyOf : call.failed = none →
          call.body info' = bodyOf call.type info'.dataBuff info'.compress.packed := by
        intro hf
        rw [Call.body, hf, Option.isSome_none, if_neg Bool.false_ne_true]
      rw [signalsOnce_iff henc, codesAtPush_filled henc, hsent]
      constructor
      · rintro ⟨code, hone, hcode⟩
        -- a single token: nothing has gone wrong, and the token is the one at the end
        have hlen := congrArg List.length hone
        simp only [List.length_append, List.length_replicate, List.length_cons, List.length_nil,
          Nat.add_eq_right, Nat.add_eq_zero_iff, Bool.toNat_eq_zero, decide_eq_false_iff_not,
          Option.isSome_eq_false_iff, Option.isNone_iff_eq_none] at hlen
        obtain ⟨⟨hmeta, hf⟩, hbody⟩ := hlen
        rw [← hbodyOf hf] at hbody
        have hzero : code = 0 := by
          have hlast := congrArg List.getLast? hone
          simpa using hlast.symm
        have hcomplete := not_not.mp (mt hcode.mpr (by omega))
        exact ⟨hf, ⟨hmeta, hcomplete.1⟩, hbody, hcomplete.2 hf⟩
      · rintro ⟨hf, ⟨hmeta, hmetaAll⟩, hbody, hbodyAll⟩
        rw [← hbodyOf hf, hf, decide_eq_false hmeta, decide_eq_false hbody]
        exact ⟨0, rfl, fun h => absurd h (lt_irrefl 0),
          fun h => absurd ⟨hmetaAll, fun _ => hbodyAll⟩ h⟩

end Signals

/-! ### A connection -/

namespace Completion

/-- A connection: whether `handle_and_send` is at its `channel_.pop`, whether the loop of
`handle_connection` is left, the tokens on `channel_`, the `error_code`, and for each request
so far what `on_resp_msg_filled` still has to do. -/
structure State where
  waiting : Bool := false
  ended : Bool := false
  tokens : ℕ := 0
  errorCode : ℤ := 0
  jobs : List (List Effect) := []
  deriving Repr, DecidableEq

/-- One effect. -/
def State.apply (s : State) : Effect → State
  | .wrote _ => s
  | .setError code => { s with errorCode := code }
  | .push => { s with tokens := s.tokens + 1 }
  -- the process is gone: nothing of this connection changes any more
  | .abort => s

@[simp] theorem State.apply_waiting (s : State) (e : Effect) :
    (s.apply e).waiting = s.waiting := by
  cases e <;> rfl

@[simp] theorem State.apply_jobs (s : State) (e : Effect) : (s.apply e).jobs = s.jobs := by
  cases e <;> rfl

section System

variable {M D : Type} (lib : Libraries M D)

/-- What can happen: a request is handed to its handler, the next effect of some call of
`on_resp_msg_filled` takes place, or the wait ends. -/
inductive Action (lib : Libraries M D)
  | handle (info : ResponseInfo) (call : Call lib)
  | run (k : ℕ)
  | pop

/-- One action. -/
def step (s : State) : Action lib → Option State
  | .handle info call =>
      if s.waiting = true ∨ s.ended = true then none
      else some { s with
        waiting := true
        jobs := s.jobs ++ [(onRespMsgFilled info call).1] }
  | .run k =>
      match s.jobs[k]? with
      | some (e :: es) => some (({ s with jobs := s.jobs.set k es } : State).apply e)
      | _ => none
  | .pop =>
      if s.waiting = true ∧ 0 < s.tokens then
        some { s with
          waiting := false
          tokens := s.tokens - 1
          ended := decide (s.errorCode < 0) }
      else none

/-- The requests are ones whose calls signal as they should. -/
def oneSignal (_ : State) : Action lib → Bool
  | .handle info call => call.signalsOnce info
  | _ => true

end System

/-- Effects with one token, at their end. -/
def Pending (es : List Effect) : Prop := ∃ pre, es = pre ++ [.push] ∧ .push ∉ pre

/-- The requests before the last one are finished. While `handle_and_send` waits, the last
one is too and its token is there, or its token is still to come. -/
def Inv (s : State) : Prop :=
  (s.waiting = false ∧ s.tokens = 0 ∧ ∃ m, s.jobs = List.replicate m []) ∨
    (s.waiting = true ∧ ∃ m es, s.jobs = List.replicate m [] ++ [es] ∧
      ((es = [] ∧ s.tokens = 1) ∨ (Pending es ∧ s.tokens = 0)))

/-- A call that signals as it should has one token, at its end. -/
theorem pending_of_signalsOnce {M D : Type} {lib : Libraries M D} {info : ResponseInfo}
    {call : Call lib} (h : call.signalsOnce info = true) :
    Pending (onRespMsgFilled info call).1 := by
  cases henc : encodeResponse info call with
  | overrun =>
      rw [Call.signalsOnce, henc] at h
      cases h
  | refused =>
      exact ⟨[.setError (-1)], onRespMsgFilled_of_refused henc, by decide⟩
  | made enc =>
      obtain ⟨respMeta, info'⟩ := enc
      obtain ⟨hf, ⟨hmeta, -⟩, hbody, -⟩ := (signalsOnce_iff henc).mp h
      rw [Call.body, hf, Option.isSome_none, if_neg Bool.false_ne_true] at hbody
      refine ⟨[.wrote (sendBuffer call.metaWrite respMeta).2.1, .wrote (sendBuffer call.bodyWrite
        (bodyOf call.type info'.dataBuff info'.compress.packed)).2.1, .setError 0], ?_, by simp⟩
      simp only [onRespMsgFilled, henc, hf, Option.isSome_none, decide_eq_false hmeta,
        decide_eq_false hbody, reportIf, if_neg Bool.false_ne_true, List.append_nil,
        List.cons_append, List.nil_append]

/-- The next effect of a call with its token still to come. -/
theorem Pending.apply {e : Effect} {es : List Effect} (h : Pending (e :: es)) (s : State)
    (ht : s.tokens = 0) :
    (es = [] ∧ (s.apply e).tokens = 1) ∨ (Pending es ∧ (s.apply e).tokens = 0) := by
  obtain ⟨pre, heq, hnot⟩ := h
  cases pre with
  | nil =>
      obtain ⟨rfl, rfl⟩ := List.cons.inj heq
      exact .inl ⟨rfl, by rw [State.apply, ht]⟩
  | cons e' pre =>
      obtain ⟨rfl, rfl⟩ := List.cons.inj heq
      rw [List.mem_cons, not_or] at hnot
      refine .inr ⟨⟨pre, rfl, hnot.2⟩, ?_⟩
      cases e with
      | wrote bytes => exact ht
      | setError code => exact ht
      | push => exact absurd rfl hnot.1
      | abort => exact ht

/-- With all requests before the last one finished, an effect can only be one of the last. -/
theorem last_of_getElem? {m k : ℕ} {job : List Effect} {e : Effect} {es : List Effect}
    (h : (List.replicate m [] ++ [job])[k]? = some (e :: es)) : k = m ∧ job = e :: es := by
  rcases Nat.lt_trichotomy k m with hlt | rfl | hgt
  · rw [List.getElem?_append_left (by rwa [List.length_replicate])] at h
    have hmem := List.eq_of_mem_replicate (List.mem_of_getElem? h)
    exact absurd hmem (List.cons_ne_nil e es)
  · rw [List.getElem?_append_right (by rw [List.length_replicate]), List.length_replicate,
      Nat.sub_self] at h
    exact ⟨rfl, Option.some.inj h⟩
  · have hlen : (List.replicate m [] ++ [job]).length ≤ k := by
      rw [List.length_append, List.length_replicate, List.length_singleton]
      omega
    rw [List.getElem?_eq_none hlen] at h
    exact absurd h nofun

/-- **Every action keeps the account.** -/
theorem Inv.step {M D : Type} {lib : Libraries M D} {s s' : State} {act : Action lib}
    (hinv : Inv s) (hC : oneSignal lib s act = true) (h : step lib s act = some s') : Inv s' := by
  cases act with
  | handle info call =>
      rw [Completion.step, Option.ite_none_left_eq_some] at h
      obtain ⟨hnot, h⟩ := h
      obtain rfl := Option.some.inj h
      rcases hinv with ⟨-, ht, m, hjobs⟩ | ⟨hw, -⟩
      · refine .inr ⟨rfl, m, _, by rw [hjobs], .inr ⟨pending_of_signalsOnce hC, ht⟩⟩
      · exact absurd (.inl hw) hnot
  | run k =>
      rw [Completion.step] at h
      split at h
      · rename_i e es hk
        obtain rfl := Option.some.inj h
        rcases hinv with ⟨-, -, m, hjobs⟩ | ⟨hw, m, job, hjobs, hjob⟩
        · rw [hjobs] at hk
          have hmem := List.eq_of_mem_replicate (List.mem_of_getElem? hk)
          exact absurd hmem (List.cons_ne_nil e es)
        · rw [hjobs] at hk
          obtain ⟨rfl, rfl⟩ := last_of_getElem? hk
          rcases hjob with ⟨hnil, -⟩ | ⟨hpending, ht⟩
          · exact absurd hnil (List.cons_ne_nil e es)
          · refine .inr ⟨by rw [State.apply_waiting]; exact hw, k, es, ?_,
              hpending.apply _ ht⟩
            rw [State.apply_jobs, hjobs]
            simp
      · exact absurd h nofun
  | pop =>
      rw [Completion.step, Option.ite_none_right_eq_some] at h
      obtain ⟨⟨hw, hpos⟩, h⟩ := h
      obtain rfl := Option.some.inj h
      rcases hinv with ⟨hw', -⟩ | ⟨-, m, job, hjobs, ⟨rfl, ht⟩ | ⟨-, ht⟩⟩
      · exact Bool.noConfusion (hw.symm.trans hw')
      · refine .inl ⟨rfl, by simp only [ht], m + 1, ?_⟩
        rw [List.replicate_succ']
        exact hjobs
      · omega

/-- **In every run** of requests whose calls signal as they should, `handle_and_send` returns
for a request only when its response is finished. -/
theorem finished_of_pop {M D : Type} {lib : Libraries M D} {s s' : State}
    (h : Lts.Reach (step lib) (oneSignal lib) {} s)
    (hpop : step lib s .pop = some s') : s.jobs.getLast? = some [] := by
  have hinv : Inv s := h.invariant Inv (.inl ⟨rfl, rfl, 0, rfl⟩) Inv.step
  rw [step, Option.ite_none_right_eq_some] at hpop
  rcases hinv with ⟨hw, -⟩ | ⟨-, m, job, hjobs, ⟨rfl, -⟩ | ⟨-, ht⟩⟩
  · exact Bool.noConfusion (hpop.1.1.symm.trans hw)
  · rw [hjobs, List.getLast?_concat]
  · have := hpop.1.2
    omega

/-- **Completion**: a call signals as it should exactly when its response does not encode, or
its handler has succeeded and both writes take all of a buffer that is not empty; and in
every run of such calls `handle_and_send` returns for a request only when its response is
finished. -/
theorem completion_signalled {M D : Type} {lib : Libraries M D} (info : ResponseInfo)
    (call : Call lib) {s s' : State} (h : Lts.Reach (step lib) (oneSignal lib) {} s)
    (hpop : step lib s .pop = some s') :
    ((∃ code, codesAtPush info.errorCode (onRespMsgFilled info call).1 = [code] ∧
      (code < 0 ↔ ¬ call.CompletelySent info)) ↔ call.signalsOnce info = true) ∧
    s.jobs.getLast? = some [] :=
  ⟨signals_iff info call, finished_of_pop h hpop⟩

/-- Two requests one after the other, the second one compressed. -/
theorem completion_of_two_requests :
    ∃ s s', Lts.Reach (step storedLibrary) (oneSignal storedLibrary) {} s ∧
      s.jobs.length = 2 ∧ step storedLibrary s .pop = some s' ∧
      (∃ code, codesAtPush 0 (onRespMsgFilled {} (storedCall .lz4 none [8, 2])).1 = [code] ∧
        (code < 0 ↔ ¬ (storedCall .lz4 none [8, 2]).CompletelySent {})) ∧
      s.jobs.getLast? = some [] := by
  have hrun : ∃ s, Lts.Reach (step storedLibrary) (oneSignal storedLibrary) {} s ∧
      s.jobs.length = 2 ∧ (step storedLibrary s .pop).isSome = true :=
    Lts.Reach.exists_of_exec
      [.handle {} (storedCall .noCompression none [8, 1]), .run 0, .run 0, .run 0, .run 0, .pop,
        .handle {} (storedCall .lz4 none [8, 2]), .run 1, .run 1, .run 1, .run 1]
      (by decide +kernel)
  obtain ⟨s, hreach, hlen, hpop⟩ := hrun
  obtain ⟨s', hs'⟩ := Option.isSome_iff_exists.mp hpop
  obtain ⟨hcall, hlast⟩ :=
    completion_signalled {} (storedCall .lz4 none [8, 2]) hreach hs'
  exact ⟨s, s', hreach, hlen, hs', hcall.mpr (by decide), hlast⟩

/-- A handler that fails: a token for the failure, one for the empty buffer sent behind the
meta, and one at the end. -/
theorem failed_call_signals_thrice :
    ¬ ∀ (info : ResponseInfo) (call : Call storedLibrary),
      ∃ code, codesAtPush info.errorCode (onRespMsgFilled info call).1 = [code] ∧
        (code < 0 ↔ ¬ call.CompletelySent info) := by
  intro hall
  obtain ⟨code, hone, -⟩ := hall {} (storedCall .noCompression (some [110, 111]) [])
  have hlen : 3 = 1 := congrArg List.length hone
  exact absurd hlen (by decide)

end Completion

end Rpc

end ArchNet
