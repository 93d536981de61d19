import ArchNet.Bytes
import Mathlib.Data.List.Basic
import Mathlib.Data.List.TakeDrop
import Mathlib.Data.Int.Notation

/-!
# Requests on a Keep-Alive Connection

`CoinServer::handle_connection` serves the requests of one connection with one `HttpRequest`:
each round resets it, reads and parses until a request is complete, and dispatches that. The
request owns the receive buffer, and resetting it empties the buffer.

## Conventions

* The parser is a parameter: what it comes to for the bytes it has been given since its
  initialisation (`Parser`). Of a well-formed message it takes exactly the bytes, and pauses
  (`Parser.WellFormed`).
* A stream is the list of what its reads return. Behind the last of them a read fails or
  waits, and nothing more is dispatched.
* What the handler and the stream make of the response to the `i`-th dispatched request is
  the reply `i`: the value of `send`, and what the handler sets `keep_alive` to, if it does.

## Main results

* `recvAndParse_eq`: **one request is read**, together with whatever the last read returned
  behind it.
* `handleConnection_iff`: **the requests are dispatched, each once and in order, if and only
  if no read returns bytes of two of them**, and each response but the last is sent and
  leaves the connection open.
-/

open Bytes

namespace ArchNet.Http

/-- What the parser comes to for the bytes of a message so far. -/
inductive Verdict
  | more
  | done (n : ℕ)
  | error
  deriving DecidableEq, Repr

/-- `http_parser` with the callbacks of `HttpRequest`: the verdict on the bytes since
`http_parser_init`, and of a message whether it keeps the connection alive, and whether it
upgrades it. -/
structure Parser where
  verdict : List UInt8 → Verdict
  keepAlive : List UInt8 → Bool
  upgrade : List UInt8 → Bool

/-- `HttpRequest`, as far as the connection is concerned: the bytes that the parser has
consumed, the unread bytes of `buffer_`, and `is_completed`. -/
structure Request where
  seen : List UInt8
  buffer : List UInt8
  completed : Bool
  deriving DecidableEq, Repr

/-- What becomes of a response: the value of `send`, and the handler's own choice of
`keep_alive`. -/
structure Reply where
  sent : ℤ
  keepAlive : Option Bool
  deriving DecidableEq, Repr

/-- `HttpRequest::reset`. -/
def Request.reset (_ : Request) : Request := ⟨[], [], false⟩

/-- `HttpRequest::parse`: `none` on a parse error. -/
def Request.parse (P : Parser) (r : Request) : Option Request :=
  match P.verdict (r.seen ++ r.buffer) with
  | .error => none
  | .more => some { r with seen := r.seen ++ r.buffer, buffer := [] }
  | .done n =>
      some ⟨(r.seen ++ r.buffer).take n, (r.seen ++ r.buffer).drop n, true⟩

/-- `HttpRequest::recv_and_parse`: the request and the reads that are left, or `none`. -/
def recvAndParse (P : Parser) (r : Request) :
    List (List UInt8) → Option (Request × List (List UInt8))
  | [] => none
  | chunk :: chunks =>
      match ({ r with buffer := r.buffer ++ chunk } : Request).parse P with
      | none => none
      | some r' => if r'.completed then some (r', chunks) else recvAndParse P r' chunks

/-- A request takes at least one read. -/
theorem recvAndParse_length {P : Parser} {r r' : Request} {chunks rest : List (List UInt8)}
    (h : recvAndParse P r chunks = some (r', rest)) : rest.length < chunks.length := by
  induction chunks generalizing r with
  | nil => cases h
  | cons chunk chunks ih =>
      rw [recvAndParse] at h
      split at h
      · cases h
      · split_ifs at h
        · obtain ⟨-, rfl⟩ := Prod.mk.inj (Option.some.inj h)
          exact Nat.lt_succ_self _
        · exact Nat.lt_succ_of_lt (ih h)

/-- `CoinServer::handle_connection`: the requests that it dispatches, in order. A websocket
request ends the loop. -/
def handleConnection (P : Parser) (replies : ℕ → Reply) (r : Request)
    (chunks : List (List UInt8)) : List (List UInt8) :=
  match h : recvAndParse P r.reset chunks with
  | none => []
  | some (r', rest) =>
      if P.upgrade r'.seen then []
      else
        r'.seen ::
          if (replies 0).sent ≤ 0 then []
          else if !(replies 0).keepAlive.getD (P.keepAlive r'.seen) then []
          else
            have : rest.length < chunks.length := recvAndParse_length h
            handleConnection P (fun i => replies (i + 1)) r' rest
  termination_by chunks.length

/-- A **well-formed message**: the parser asks for more until it has all of it, and is then
done with exactly its bytes, whatever follows. -/
structure Parser.WellFormed (P : Parser) (msg : List UInt8) : Prop where
  ne_nil : msg ≠ []
  done : ∀ rest, P.verdict (msg ++ rest) = .done msg.length
  more : ∀ front back, msg = front ++ back → back ≠ [] → P.verdict front = .more

/-- **One request is read**: from a state in which the parser has its front, the reads up to
the first that completes it, and what that one returned behind its end. -/
theorem recvAndParse_eq {P : Parser} {msg : List UInt8} (h : P.WellFormed msg)
    {front back rest : List UInt8} (hmsg : msg = front ++ back) (hback : back ≠ [])
    {chunks : List (List UInt8)} (hchunks : chunks.flatten = back ++ rest) :
    ∃ used left unread, chunks = used ++ unread ∧ used.flatten = back ++ left ∧
      (∀ k < used.length, (used.take k).flatten.length < back.length) ∧
      recvAndParse P ⟨front, [], false⟩ chunks = some (⟨msg, left, true⟩, unread) := by
  induction chunks generalizing front back with
  | nil =>
      obtain ⟨rfl, -⟩ := List.append_eq_nil_iff.mp hchunks.symm
      exact absurd rfl hback
  | cons chunk chunks ih =>
      rw [List.flatten_cons] at hchunks
      -- the read either completes the message, with `left` behind it, or is a part of it
      have hcases : (∃ left, chunk = back ++ left) ∨
          ∃ t, t ≠ [] ∧ back = chunk ++ t ∧ chunks.flatten = t ++ rest := by
        rcases List.append_eq_append_iff.mp hchunks with ⟨t, ht, hrest⟩ | ⟨t, ht, -⟩
        · rcases eq_or_ne t [] with rfl | hne
          · exact .inl ⟨[], by rw [ht, List.append_nil, List.append_nil]⟩
          · exact .inr ⟨t, hne, ht, hrest⟩
        · exact .inl ⟨t, ht⟩
      rcases hcases with ⟨left, rfl⟩ | ⟨t, ht, rfl, hrest⟩
      · refine ⟨[back ++ left], left, chunks, rfl, List.append_nil _, ?_, ?_⟩
        · intro k hk
          obtain rfl : k = 0 := Nat.lt_one_iff.mp hk
          exact List.length_pos_iff.mpr hback
        have hbytes : front ++ ([] ++ (back ++ left)) = msg ++ left := by
          rw [hmsg, List.nil_append, List.append_assoc]
        rw [recvAndParse, Request.parse]
        simp only [hbytes, h.done left, List.take_left, List.drop_left, if_true]
      · have hverdict : P.verdict (front ++ ([] ++ chunk)) = .more := by
          refine h.more _ t ?_ ht
          rw [hmsg, List.nil_append, List.append_assoc]
        have hmsg' : msg = (front ++ chunk) ++ t := by rw [hmsg, List.append_assoc]
        obtain ⟨used, left, unread, hsplit, hused, hshort, hread⟩ := ih hmsg' ht hrest
        refine ⟨chunk :: used, left, unread, by rw [hsplit, List.cons_append], ?_, ?_, ?_⟩
        · rw [List.flatten_cons, hused, List.append_assoc]
        · intro k hk
          cases k with
          | zero => exact List.length_pos_iff.mpr hback
          | succ k =>
              have hlt := hshort k (Nat.lt_of_succ_lt_succ hk)
              rw [List.take_succ_cons, List.flatten_cons, List.length_append, List.length_append]
              omega
        · rw [recvAndParse, Request.parse]
          simp only [hverdict]
          exact hread

/-- A request is part of what was read for it. -/
theorem recvAndParse_seen_le {P : Parser} {r r' : Request} {chunks rest : List (List UInt8)}
    (h : recvAndParse P r chunks = some (r', rest)) :
    r'.seen.length + rest.flatten.length ≤
      r.seen.length + r.buffer.length + chunks.flatten.length := by
  induction chunks generalizing r with
  | nil => cases h
  | cons chunk chunks ih =>
      rw [recvAndParse, Request.parse] at h
      rw [List.flatten_cons, List.length_append]
      dsimp only at h
      cases hverdict : P.verdict (r.seen ++ (r.buffer ++ chunk)) with
      | error =>
          rw [hverdict] at h
          cases h
      | more =>
          rw [hverdict] at h
          dsimp only at h
          split_ifs at h
          · obtain ⟨rfl, rfl⟩ := Prod.mk.inj (Option.some.inj h)
            simp only [List.length_append]
            omega
          · have hle := ih h
            simp only [List.length_append, List.length_nil] at hle
            omega
      | done n =>
          rw [hverdict] at h
          dsimp only at h
          rw [if_pos rfl] at h
          obtain ⟨rfl, rfl⟩ := Prod.mk.inj (Option.some.inj h)
          simp only [List.length_take, List.length_append]
          omega

/-- The dispatched requests are parts of what was read: they are no longer than that. -/
theorem length_handleConnection_le (P : Parser) (replies : ℕ → Reply) (r : Request)
    (chunks : List (List UInt8)) :
    (handleConnection P replies r chunks).flatten.length ≤ chunks.flatten.length := by
  fun_induction handleConnection P replies r chunks with
  | case1 => simp
  | case2 => simp
  | case3 replies r chunks r' rest hread _ ih =>
      have hle := recvAndParse_seen_le hread
      simp only [Request.reset, List.length_nil] at hle
      rw [List.flatten_cons, List.length_append]
      split_ifs
      · simp only [List.flatten_nil, List.length_nil]
        omega
      · simp only [List.flatten_nil, List.length_nil]
        omega
      · dsimp only
        omega

/-- The response is sent, and the handler leaves the connection open. -/
def Reply.GoesOn (reply : Reply) : Prop := 0 < reply.sent ∧ reply.keepAlive ≠ some false

instance (reply : Reply) : Decidable reply.GoesOn :=
  inferInstanceAs (Decidable (_ ∧ reply.keepAlive ≠ some false))

/-- **Every request ends where a read ends.** -/
def Aligned (msgs chunks : List (List UInt8)) : Prop :=
  ∀ i ≤ msgs.length, ∃ k, (chunks.take k).flatten = (msgs.take i).flatten

/-- The first request, read by `used` and no fewer reads, and the others. -/
theorem aligned_cons_iff {msg : List UInt8} {msgs used unread : List (List UInt8)}
    (hused : used.flatten = msg) (hshort : ∀ k < used.length,
      (used.take k).flatten.length < msg.length) :
    Aligned (msg :: msgs) (used ++ unread) ↔ Aligned msgs unread := by
  constructor
  · intro h i hi
    obtain ⟨k, hk⟩ := h (i + 1) (Nat.succ_le_succ hi)
    rw [List.take_succ_cons, List.flatten_cons] at hk
    rcases Nat.lt_or_ge k used.length with hlt | hge
    · have hlen := congrArg List.length hk
      have := hshort k hlt
      rw [List.take_append_of_le_length (Nat.le_of_lt hlt), List.length_append] at hlen
      omega
    · refine ⟨k - used.length, ?_⟩
      rw [List.take_append, List.take_of_length_le hge, List.flatten_append, hused] at hk
      exact List.append_cancel_left hk
  · intro h i hi
    cases i with
    | zero => exact ⟨0, rfl⟩
    | succ i =>
        obtain ⟨k, hk⟩ := h i (Nat.le_of_succ_le_succ hi)
        refine ⟨used.length + k, ?_⟩
        rw [List.take_length_add_append, List.flatten_append, hused, hk, List.take_succ_cons,
          List.flatten_cons]

/-- A read that returns bytes behind the end of a request spoils the alignment. -/
theorem not_aligned_of_left {msg left : List UInt8} {msgs used unread : List (List UInt8)}
    (hused : used.flatten = msg ++ left) (hleft : left ≠ [])
    (hshort : ∀ k < used.length, (used.take k).flatten.length < msg.length) :
    ¬ Aligned (msg :: msgs) (used ++ unread) := by
  intro h
  obtain ⟨k, hk⟩ := h 1 (Nat.succ_le_succ (Nat.zero_le _))
  have hlen := congrArg List.length hk
  have hpos := List.length_pos_iff.mpr hleft
  simp only [List.take_succ_cons, List.take_zero, List.flatten_cons, List.flatten_nil,
    List.append_nil] at hlen
  rcases Nat.lt_or_ge k used.length with hlt | hge
  · have := hshort k hlt
    rw [List.take_append_of_le_length (Nat.le_of_lt hlt)] at hlen
    omega
  · rw [List.take_append, List.take_of_length_le hge, List.flatten_append, hused] at hlen
    simp only [List.length_append] at hlen
    omega

/-- A round in which a request has been read. -/
theorem handleConnection_of_read {P : Parser} {replies : ℕ → Reply} {r r' : Request}
    {chunks rest : List (List UInt8)} (h : recvAndParse P r.reset chunks = some (r', rest)) :
    handleConnection P replies r chunks =
      if P.upgrade r'.seen then []
      else
        r'.seen ::
          if (replies 0).sent ≤ 0 then []
          else if !(replies 0).keepAlive.getD (P.keepAlive r'.seen) then []
          else handleConnection P (fun i => replies (i + 1)) r' rest := by
  rw [handleConnection]
  split
  · rename_i hnone
    rw [h] at hnone
    cases hnone
  · rename_i hsome
    rw [h] at hsome
    obtain ⟨rfl, rfl⟩ := Prod.mk.inj (Option.some.inj hsome)
    rfl

/-- **One round of the loop**, on a stream that starts with a well-formed request. -/
theorem handleConnection_cons {P : Parser} (replies : ℕ → Reply) (r : Request)
    {msg rest : List UInt8} (h : P.WellFormed msg) (hup : P.upgrade msg = false)
    {chunks : List (List UInt8)} (hchunks : chunks.flatten = msg ++ rest) :
    ∃ used left unread, chunks = used ++ unread ∧ used.flatten = msg ++ left ∧
      (∀ k < used.length, (used.take k).flatten.length < msg.length) ∧
      handleConnection P replies r chunks = msg ::
        if (replies 0).sent ≤ 0 then []
        else if !(replies 0).keepAlive.getD (P.keepAlive msg) then []
        else handleConnection P (fun i => replies (i + 1)) ⟨msg, left, true⟩ unread := by
  obtain ⟨used, left, unread, hsplit, hused, hshort, hread⟩ :=
    recvAndParse_eq h (List.nil_append msg).symm h.ne_nil hchunks
  refine ⟨used, left, unread, hsplit, hused, hshort, ?_⟩
  rw [handleConnection_of_read hread, hup, if_neg Bool.false_ne_true]

/-- What follows a request that keeps the connection alive is served if its response is sent
and the handler leaves the connection open. -/
theorem goesOn_iff {reply : Reply} {rest next : List (List UInt8)} (hnext : next ≠ []) :
    (if reply.sent ≤ 0 then [] else if !reply.keepAlive.getD true then [] else rest) = next ↔
      reply.GoesOn ∧ rest = next := by
  have hkeep : (!reply.keepAlive.getD true) = true ↔ reply.keepAlive = some false := by
    rcases reply.keepAlive with _ | _ | _ <;> simp
  rw [Reply.GoesOn]
  split_ifs with hsent hclosed
  · exact iff_of_false hnext.symm fun h => absurd h.1.1 (not_lt.mpr hsent)
  · exact iff_of_false hnext.symm fun h => h.1.2 (hkeep.mp hclosed)
  · exact (and_iff_right ⟨not_le.mp hsent, fun h => hclosed (hkeep.mpr h)⟩).symm

/-- The responses but the last let the connection go on, as a fact about the first of them
and the others. -/
theorem goesOn_cons_iff {replies : ℕ → Reply} {msg msg' : List UInt8}
    {msgs : List (List UInt8)} :
    (∀ i, i + 1 < (msg :: msg' :: msgs).length → (replies i).GoesOn) ↔
      (replies 0).GoesOn ∧
        ∀ i, i + 1 < (msg' :: msgs).length → (replies (i + 1)).GoesOn := by
  constructor
  · intro h
    exact ⟨h 0 (by simp), fun i hi => h (i + 1) (Nat.succ_lt_succ hi)⟩
  · rintro ⟨h0, h⟩ i hi
    cases i with
    | zero => exact h0
    | succ i => exact h i (Nat.lt_of_succ_lt_succ hi)

/-- Reads that return something have returned nothing only if there were none. -/
theorem eq_nil_of_flatten {chunks : List (List UInt8)} (hreads : ∀ chunk ∈ chunks, chunk ≠ [])
    (h : chunks.flatten = []) : chunks = [] := by
  rw [List.flatten_eq_nil_iff] at h
  exact List.eq_nil_iff_forall_not_mem.mpr fun c hc => hreads c hc (h c hc)

/-- **The requests are dispatched, each exactly once and in order**, if and only if every
request ends where a read ends and every response but the last is sent and leaves the
connection open — for well-formed requests without upgrades, all but the last of which keep
the connection alive, and every way to cut their bytes into reads. -/
theorem handleConnection_iff (P : Parser) (replies : ℕ → Reply) (r : Request)
    (msgs chunks : List (List UInt8)) (hmsgs : ∀ msg ∈ msgs, P.WellFormed msg)
    (hkeep : ∀ msg ∈ msgs.dropLast, P.keepAlive msg = true)
    (hup : ∀ msg ∈ msgs, P.upgrade msg = false) (hreads : ∀ chunk ∈ chunks, chunk ≠ [])
    (hstream : chunks.flatten = msgs.flatten) :
    handleConnection P replies r chunks = msgs ↔
      (∀ i, i + 1 < msgs.length → (replies i).GoesOn) ∧ Aligned msgs chunks := by
  induction msgs generalizing replies r chunks with
  | nil =>
      rw [eq_nil_of_flatten hreads hstream, handleConnection]
      refine iff_of_true rfl ⟨fun i hi => absurd hi (Nat.not_lt_zero _), fun i _ => ⟨0, ?_⟩⟩
      rw [List.take_nil, List.take_nil]
  | cons msg msgs ih =>
      have hwf := hmsgs msg List.mem_cons_self
      rw [List.flatten_cons] at hstream
      obtain ⟨used, left, unread, rfl, hused, hshort, hround⟩ :=
        handleConnection_cons replies r hwf (hup msg List.mem_cons_self) hstream
      rw [List.flatten_append, hused, List.append_assoc] at hstream
      have hrest := List.append_cancel_left hstream
      rw [hround, List.cons.injEq, and_iff_right rfl]
      cases msgs with
      | nil =>
          obtain ⟨rfl, hunread⟩ := List.append_eq_nil_iff.mp hrest
          have hnone : unread = [] :=
            eq_nil_of_flatten (fun c hc => hreads c (List.mem_append_right _ hc)) hunread
          rw [List.append_nil] at hused
          have hend : ∀ r' : Request,
              handleConnection P (fun i => replies (i + 1)) r' unread = [] := by
            intro r'
            rw [hnone, handleConnection]
            rfl
          refine iff_of_true ?_ ⟨?_, ?_⟩
          · rw [hend]
            split_ifs <;> rfl
          · intro i hi
            exact absurd hi (by simp)
          · refine (aligned_cons_iff hused hshort).mpr ?_
            intro i hi
            exact ⟨0, by rw [Nat.le_zero.mp hi, List.take_zero, List.take_zero]⟩
      | cons msg' msgs =>
          have hkeep0 : P.keepAlive msg = true := hkeep msg List.mem_cons_self
          rw [hkeep0, goesOn_iff (List.cons_ne_nil msg' msgs), goesOn_cons_iff, and_assoc,
            and_congr_right_iff]
          intro _
          rcases eq_or_ne left [] with rfl | hleft
          · rw [List.append_nil] at hused
            rw [aligned_cons_iff hused hshort]
            refine ih _ _ _ ?_ ?_ ?_ ?_ hrest
            · exact fun m hm => hmsgs m (List.mem_cons_of_mem _ hm)
            · exact fun m hm => hkeep m (List.mem_cons_of_mem _ hm)
            · exact fun m hm => hup m (List.mem_cons_of_mem _ hm)
            · exact fun c hc => hreads c (List.mem_append_right _ hc)
          · refine iff_of_false ?_ fun h => not_aligned_of_left hused hleft hshort h.2
            intro heq
            have hle := length_handleConnection_le P (fun i => replies (i + 1)) ⟨msg, left, true⟩
              unread
            have hlen := congrArg List.length hrest
            have hpos := List.length_pos_iff.mpr hleft
            rw [heq] at hle
            rw [List.length_append] at hlen
            omega

/-! ### Two requests -/

/-- The end of the header section. -/
def headEnd : List UInt8 → Option ℕ
  | [] => none
  | b :: bytes =>
      if [13, 10, 13, 10] <+: b :: bytes then some 4 else (headEnd bytes).map (· + 1)

/-- The parser on requests without a body that name no connection option: a message ends with
its header section. -/
def bodiless : Parser where
  verdict bytes := (headEnd bytes).elim .more .done
  keepAlive _ := true
  upgrade _ := false

/-- A request of the given line. -/
def requestOf (line : String) : List UInt8 := ascii line ++ [13, 10, 13, 10]

/-- A header section ends behind its last four bytes. -/
theorem headEnd_le {bytes : List UInt8} {n : ℕ} (h : headEnd bytes = some n) :
    4 ≤ bytes.length ∧ n ≤ bytes.length := by
  induction bytes generalizing n with
  | nil => cases h
  | cons b bytes ih =>
      rw [headEnd] at h
      split_ifs at h with hend
      · obtain rfl := Option.some.inj h
        exact ⟨hend.length_le, hend.length_le⟩
      · obtain ⟨m, hm, rfl⟩ := Option.map_eq_some_iff.mp h
        have hle := ih hm
        rw [List.length_cons]
        omega

/-- A header section that has ended is not changed by what follows. -/
theorem headEnd_append {bytes : List UInt8} {n : ℕ} (h : headEnd bytes = some n)
    (rest : List UInt8) : headEnd (bytes ++ rest) = some n := by
  induction bytes generalizing n with
  | nil => cases h
  | cons b bytes ih =>
      have hlong := (headEnd_le h).1
      rw [headEnd] at h
      rw [List.cons_append, headEnd, ← List.cons_append]
      split_ifs at h with hend
      · rw [if_pos (hend.trans (List.prefix_append _ _)), h]
      · obtain ⟨m, hm, rfl⟩ := Option.map_eq_some_iff.mp h
        have hnot : ¬ [13, 10, 13, 10] <+: (b :: bytes) ++ rest := fun hend' =>
          hend (List.prefix_of_prefix_length_le hend' (List.prefix_append _ _) hlong)
        rw [if_neg hnot, ih hm, Option.map_some]

/-- A request that ends with its header section is well-formed. -/
theorem bodiless_wellFormed {msg : List UInt8} (h : headEnd msg = some msg.length) :
    bodiless.WellFormed msg where
  ne_nil := by
    rintro rfl
    cases h
  done rest := by
    change (headEnd (msg ++ rest)).elim Verdict.more Verdict.done = _
    rw [headEnd_append h]
    rfl
  more front back hmsg hback := by
    have hpos := List.length_pos_iff.mpr hback
    change (headEnd front).elim Verdict.more Verdict.done = _
    cases hfront : headEnd front with
    | none => rfl
    | some n =>
        have hle := (headEnd_le hfront).2
        have hall := headEnd_append hfront back
        rw [← hmsg, h] at hall
        have hlen := Option.some.inj hall
        rw [hmsg, List.length_append] at hlen
        omega

/-- The hypotheses are met by two requests, the first of them in two reads; both are
dispatched. -/
theorem handleConnection_two :
    handleConnection bodiless (fun _ => ⟨1, none⟩) ⟨[], [], false⟩
      [ascii "GET /a HTT", ascii "P/1.1" ++ [13, 10, 13, 10], requestOf "GET /b HTTP/1.1"] =
      [requestOf "GET /a HTTP/1.1", requestOf "GET /b HTTP/1.1"] := by
  refine (handleConnection_iff bodiless _ _ _ _ ?_ ?_ ?_ ?_ ?_).mpr ⟨?_, ?_⟩
  · intro msg hmsg
    rw [List.mem_pair] at hmsg
    rcases hmsg with rfl | rfl
    · exact bodiless_wellFormed (by decide)
    · exact bodiless_wellFormed (by decide)
  · exact fun _ _ => rfl
  · exact fun _ _ => rfl
  · decide
  · rfl
  · intro i _
    decide
  · intro i hi
    match i, hi with
    | 0, _ => exact ⟨0, rfl⟩
    | 1, _ => exact ⟨2, rfl⟩
    | 2, _ => exact ⟨3, rfl⟩

/-- Two requests in one read: the second is thrown away with the buffer. -/
theorem pipelined_request_lost :
    ¬ ∀ (P : Parser) (replies : ℕ → Reply) (r : Request) (msgs chunks : List (List UInt8)),
      (∀ msg ∈ msgs, P.WellFormed msg) → (∀ msg ∈ msgs.dropLast, P.keepAlive msg = true) →
      (∀ msg ∈ msgs, P.upgrade msg = false) → (∀ chunk ∈ chunks, chunk ≠ []) →
      (∀ i, i + 1 < msgs.length → (replies i).GoesOn) → chunks.flatten = msgs.flatten →
      handleConnection P replies r chunks = msgs := by
  intro hall
  have hwf : ∀ msg ∈ [requestOf "GET /a HTTP/1.1", requestOf "GET /b HTTP/1.1"],
      bodiless.WellFormed msg := by
    intro msg hmsg
    rw [List.mem_pair] at hmsg
    rcases hmsg with rfl | rfl
    · exact bodiless_wellFormed (by decide)
    · exact bodiless_wellFormed (by decide)
  have hboth := hall bodiless (fun _ => ⟨1, none⟩) ⟨[], [], false⟩ _
    [requestOf "GET /a HTTP/1.1" ++ requestOf "GET /b HTTP/1.1"] hwf (fun _ _ => rfl)
    (fun _ _ => rfl) (by decide) (fun _ _ => by decide) rfl
  have hread : recvAndParse bodiless ⟨[], [], false⟩
      [requestOf "GET /a HTTP/1.1" ++ requestOf "GET /b HTTP/1.1"] =
      some (⟨requestOf "GET /a HTTP/1.1", requestOf "GET /b HTTP/1.1", true⟩, []) := by decide
  rw [handleConnection_of_read hread, handleConnection] at hboth
  cases hboth

end ArchNet.Http
