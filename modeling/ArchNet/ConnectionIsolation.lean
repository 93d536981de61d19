import ArchNet.Lts
import ArchNet.RecvLoop
import ArchNet.Reassembly

/-!
# WebSocket Connections That Share a Buffer Pool

The connections of one thread take their buffers from the thread's `GlobalBufferPool` and
give them back to it. `WebSocketConnection::process` starts a recv fiber that takes the last
buffer given back — as it is — and calls `recv_loop` on it until that answers `false`; then
the fiber exits and gives the buffer back, with what is in it. This module runs any number
of such fibers side by side, each with its own stream, cut off anywhere, with the sends of
the thread in between, and asks what a connection served later hands to `OnMessage`.

## Conventions

A buffer is its unread bytes. A call of `recv_loop` is one action: while it waits for bytes
the fiber owns its buffer, and it goes to the pool once, for the buffer that replaces a
message. A message leaves for the worker threads, whose pools are their own. The functions
that send take a buffer and reset it; the sender fiber gives one back with the bytes that
the socket did not take.

## Main results

* `delivered_eq_iff`: what a later connection delivers, over all streams, determines the
  contents of the buffer it finds and is determined by them.
* `delivered_of_reach`: **isolation** — after any two histories in which no buffer is given
  back with bytes in it, a later connection delivers the same; and the first buffer given
  back with bytes in it ends this.
-/

namespace ArchNet

open Bytes

namespace PoolThread

/-! ### The pool -/

/-- `MaxSize`. -/
def maxSize : ℕ := 100

/-- `GlobalBufferPool::Get`: the contents of the buffer handed out — none in a new one, when
the pool is empty. -/
def get (pool : List (List UInt8)) : List UInt8 := pool.headD []

/-- `GlobalBufferPool::Release`: above the maximal size the buffer is deleted. -/
def release (buffer : List UInt8) (pool : List (List UInt8)) : List (List UInt8) :=
  if maxSize < pool.length then pool else buffer :: pool

/-! ### The fibers of a thread -/

/-- The recv fiber of a connection: the state of its loop, its stream, what it has handed
over, and whether the loop has ended. -/
structure Fiber where
  loop : LoopState
  src : Source
  events : List WebSocketEvent := []
  ended : Bool := false

/-- A thread: its pool, the last buffer given back first, and the recv fibers it runs. -/
structure State where
  pool : List (List UInt8)
  fibers : ℕ → Option Fiber

/-- A thread that has served nothing: `DefaultSize` new buffers. -/
def init : State where
  pool := List.replicate 10 []
  fibers := fun _ => none

/-- What can happen on a thread: a connection starts; bytes arrive for it, or its stream
ends; its fiber calls `recv_loop`, or exits; a send takes a buffer, or gives one back with
what was not sent. -/
inductive Action
  | start (id : ℕ)
  | arrive (id : ℕ) (bytes : List UInt8) (cuts : List ℕ)
  | cutOff (id : ℕ) (ending : StreamEnd)
  | call (id : ℕ) (junk : Vector UInt8 8) (onPing onPong : Bool)
  | exit (id : ℕ)
  | sendGet
  | sent (rest : List UInt8)

/-- Whether an event is a message, for which `recv_loop` goes to the pool. -/
def isMessage : WebSocketEvent → Bool
  | .onMessage _ _ => true
  | .onClose => false

/-- A fiber in the state of a thread. -/
def State.setFiber (t : State) (id : ℕ) (f : Option Fiber) : State :=
  { t with fibers := fun j => if j = id then f else t.fibers j }

/-- One action of a thread. -/
def step (t : State) : Action → Option State
  | .start id =>
      if (t.fibers id).isNone then
        some ({ t with pool := t.pool.tail }.setFiber id
          (some { loop := { buffer := get t.pool }, src := { bytes := [] } }))
      else none
  | .arrive id bytes cuts => do
      let f ← t.fibers id
      if f.src.ending = none then
        some (t.setFiber id (some { f with
          src := { f.src with bytes := f.src.bytes ++ bytes, cuts := f.src.cuts ++ cuts } }))
      else none
  | .cutOff id ending => do
      let f ← t.fibers id
      some (t.setFiber id (some { f with src := { f.src with ending := some ending } }))
  | .call id junk onPing onPong => do
      let f ← t.fibers id
      if f.ended then none
      else
        let r ← Coin.recvLoop junk onPing onPong f.loop f.src
        let pool := if r.events.any isMessage then t.pool.tail else t.pool
        some ({ t with pool := pool }.setFiber id
          (some ⟨r.state, r.src, f.events ++ r.events, !r.ok⟩))
  | .exit id => do
      let f ← t.fibers id
      if f.ended then
        some ({ t with pool := release f.loop.buffer t.pool }.setFiber id none)
      else none
  | .sendGet => some { t with pool := t.pool.tail }
  | .sent rest => some { t with pool := release rest t.pool }

/-- The buffer that an action gives back, if it gives one back. -/
def givenBack (t : State) : Action → Option (List UInt8)
  | .exit id => (t.fibers id).map fun f => f.loop.buffer
  | .sent rest => some rest
  | _ => none

/-- A buffer that is given back **has no bytes in it**, or is deleted. -/
def cleanRelease (t : State) (a : Action) : Bool :=
  (givenBack t a).all fun buffer => buffer.isEmpty || decide (maxSize < t.pool.length)

/-! ### A later connection -/

/-- What one call of `recv_loop` meets: the decoder's array, and the answers of `OnPing` and
`OnPong`. -/
abbrev Call := Vector UInt8 8 × Bool × Bool

/-- The payload of a message. -/
def payloadOf : WebSocketEvent → Option (List UInt8)
  | .onMessage payload _ => some payload
  | .onClose => none

/-- The payloads that a connection started now delivers to `OnMessage`, in so many calls on
the bytes of `src`. -/
def delivered (t : State) (calls : List Call) (src : Source) : List (List UInt8) :=
  ((serve (calls.map fun c => Coin.endpoint c.1 c.2.1 c.2.2)
    { buffer := get t.pool } src).2).filterMap payloadOf

/-- The calls that the recv fiber `id` makes. -/
def callsOf (id : ℕ) (calls : List Call) : List Action :=
  calls.map fun c => .call id c.1 c.2.1 c.2.2

/-- **The fibers do what `serve` says**: the calls of a fiber, up to the one that ends or
blocks, hand over what `serve` hands over from the state of its loop. -/
theorem exec_calls (calls : List Call) {t : State} {id : ℕ} {f : Fiber}
    (hf : t.fibers id = some f) (hended : f.ended = false) :
    ∃ n t' f', Lts.exec step t (callsOf id (calls.take n)) = some t' ∧
      t'.fibers id = some f' ∧
      f'.events = f.events ++ (serve (calls.map fun c => Coin.endpoint c.1 c.2.1 c.2.2)
        f.loop f.src).2 := by
  induction calls generalizing t f with
  | nil => exact ⟨0, t, f, rfl, hf, by simp [serve]⟩
  | cons c calls ih =>
      cases hr : recvLoop (Coin.endpoint c.1 c.2.1 c.2.2) f.loop f.src with
      | none => exact ⟨0, t, f, rfl, hf, by simp [serve, hr]⟩
      | some r =>
          have hr' : Coin.recvLoop c.1 c.2.1 c.2.2 f.loop f.src = some r := hr
          obtain ⟨t₁, hstep, hf₁⟩ : ∃ t₁, step t (.call id c.1 c.2.1 c.2.2) = some t₁ ∧
              t₁.fibers id = some ⟨r.state, r.src, f.events ++ r.events, !r.ok⟩ := by
            refine ⟨_, by simp [step, hf, hended, hr']; rfl, ?_⟩
            simp [State.setFiber]
          cases hok : r.ok with
          | false =>
              refine ⟨1, t₁, _, by simp [callsOf, Lts.exec, hstep], hf₁, ?_⟩
              simp [serve, hr, hok]
          | true =>
              obtain ⟨n, t', f', hexec, hf', hev⟩ := ih hf₁ (by simp [hok])
              refine ⟨n + 1, t', f', ?_, hf', ?_⟩
              · simpa [callsOf, Lts.exec, hstep] using hexec
              · simp [hev, serve, hr, hok]

/-- A connection that is started now and receives the bytes of `src` delivers to
`OnMessage` what `delivered` says. -/
theorem exec_delivered (t : State) {id : ℕ} (hfree : t.fibers id = none) (calls : List Call)
    (bytes : List UInt8) (cuts : List ℕ) (ending : StreamEnd) :
    ∃ n t' f', Lts.exec step t
        (.start id :: .arrive id bytes cuts :: .cutOff id ending :: callsOf id (calls.take n))
          = some t' ∧
      t'.fibers id = some f' ∧
      f'.events.filterMap payloadOf =
        delivered t calls { bytes := bytes, cuts := cuts, ending := some ending } := by
  obtain ⟨t₁, hstart, hf₁⟩ : ∃ t₁, Lts.exec step t
        [.start id, .arrive id bytes cuts, .cutOff id ending] = some t₁ ∧
      t₁.fibers id = some { loop := { buffer := get t.pool },
                            src := { bytes := bytes, cuts := cuts, ending := some ending } } := by
    refine ⟨_, by simp [Lts.exec, step, hfree, State.setFiber]; rfl, ?_⟩
    simp
  obtain ⟨n, t', f', hexec, hf', hev⟩ := exec_calls calls hf₁ rfl
  refine ⟨n, t', f', ?_, hf', ?_⟩
  · simp only [Lts.exec, Option.bind_eq_some_iff] at hstart ⊢
    obtain ⟨a, ha, b, hb, c, hc, heq⟩ := hstart
    obtain rfl := Option.some.inj heq
    exact ⟨a, ha, b, hb, _, hc, hexec⟩
  · simp [hev, delivered]

/-- One text frame of one byte: the message that is delivered begins with what was in the
buffer. -/
theorem delivered_one_frame (t : State) :
    delivered t [(Vector.replicate 8 0, true, true)] { bytes := [0x81, 0x01, 0] } =
      [get t.pool ++ [0]] := by
  have hb : Source.bytes { bytes := [0x81, 0x01, 0] } =
      (Item.first true true [0]).frame.bytes ++ [] := rfl
  obtain ⟨cuts, -, hrun⟩ := (Coin.endpoint_reads (Vector.replicate 8 0)).item
    { buffer := get t.pool } (by decide) (by simp) hb
  have hloop : recvLoop (Coin.endpoint (Vector.replicate 8 0) true true)
      { buffer := get t.pool } { bytes := [0x81, 0x01, 0] } = _ := hrun
  simp only [delivered, List.map_cons, List.map_nil, serve, hloop, if_true]
  rfl

/-- What a later connection delivers, over all streams and calls, is determined by the
contents of the buffer it finds, **and determines them**. -/
theorem delivered_eq_iff (t₁ t₂ : State) :
    (∀ calls src, delivered t₁ calls src = delivered t₂ calls src) ↔
      get t₁.pool = get t₂.pool := by
  constructor
  · intro h
    have hone := h [(Vector.replicate 8 0, true, true)] { bytes := [0x81, 0x01, 0] }
    rw [delivered_one_frame, delivered_one_frame] at hone
    exact List.append_cancel_right (List.cons.inj hone).1
  · intro h calls src
    rw [delivered, delivered, h]

/-! ### Isolation -/

/-- Every buffer of the pool is empty. -/
def Clean (t : State) : Prop := ∀ buffer ∈ t.pool, buffer = []

/-- The buffer found in a clean pool is empty. -/
theorem Clean.get_eq {t : State} (h : Clean t) : get t.pool = [] := by
  rw [get]
  cases hp : t.pool with
  | nil => rfl
  | cons buffer pool => exact h buffer (by simp [hp])

/-- What an action does to the pool: it gives one buffer back, or takes at most one. -/
theorem step_pool {t t' : State} {a : Action} (h : step t a = some t') :
    (∃ buffer, givenBack t a = some buffer ∧ t'.pool = release buffer t.pool) ∨
      (givenBack t a = none ∧ (t'.pool = t.pool ∨ t'.pool = t.pool.tail)) := by
  cases a with
  | start id =>
      rw [step, Option.ite_none_right_eq_some] at h
      obtain rfl := Option.some.inj h.2
      exact .inr ⟨rfl, .inr rfl⟩
  | arrive id bytes cuts =>
      simp only [step, Option.bind_eq_bind, Option.bind_eq_some_iff,
        Option.ite_none_right_eq_some] at h
      obtain ⟨f, -, -, h⟩ := h
      obtain rfl := Option.some.inj h
      exact .inr ⟨rfl, .inl rfl⟩
  | cutOff id ending =>
      simp only [step, Option.bind_eq_bind, Option.bind_eq_some_iff] at h
      obtain ⟨f, -, h⟩ := h
      obtain rfl := Option.some.inj h
      exact .inr ⟨rfl, .inl rfl⟩
  | call id junk onPing onPong =>
      simp only [step, Option.bind_eq_bind, Option.bind_eq_some_iff,
        Option.ite_none_left_eq_some] at h
      obtain ⟨f, -, -, r, -, h⟩ := h
      obtain rfl := Option.some.inj h
      refine .inr ⟨rfl, ?_⟩
      cases hm : r.events.any isMessage with
      | false => exact .inl (by simp [State.setFiber])
      | true => exact .inr (by simp [State.setFiber])
  | exit id =>
      simp only [step, Option.bind_eq_bind, Option.bind_eq_some_iff,
        Option.ite_none_right_eq_some] at h
      obtain ⟨f, hf, -, h⟩ := h
      obtain rfl := Option.some.inj h
      exact .inl ⟨f.loop.buffer, by simp [givenBack, hf], rfl⟩
  | sendGet =>
      obtain rfl := Option.some.inj h
      exact .inr ⟨rfl, .inr rfl⟩
  | sent rest =>
      obtain rfl := Option.some.inj h
      exact .inl ⟨rest, rfl, rfl⟩

/-- An action keeps the pool clean when it gives no bytes back. -/
theorem Clean.step {t t' : State} {a : Action} (hclean : Clean t)
    (hC : cleanRelease t a = true) (h : step t a = some t') : Clean t' := by
  rcases step_pool h with ⟨buffer, hback, hpool⟩ | ⟨-, hpool | hpool⟩
  · rw [cleanRelease, hback, Option.all_some, Bool.or_eq_true, List.isEmpty_iff,
      decide_eq_true_eq] at hC
    rw [Clean, hpool, release]
    split_ifs with hfull
    · exact hclean
    · obtain rfl : buffer = [] := hC.resolve_right hfull
      exact List.forall_mem_cons.mpr ⟨rfl, hclean⟩
  · rw [Clean, hpool]
    exact hclean
  · rw [Clean, hpool]
    exact fun b hb => hclean b (List.mem_of_mem_tail hb)

/-- An action that gives bytes back to a clean pool leaves them to the next connection. -/
theorem get_of_not_cleanRelease {t t' : State} {a : Action}
    (hC : cleanRelease t a = false) (h : step t a = some t') : get t'.pool ≠ [] := by
  rcases step_pool h with ⟨buffer, hback, hpool⟩ | ⟨hback, -⟩
  · rw [cleanRelease, hback, Option.all_some, Bool.or_eq_false_iff,
      decide_eq_false_iff_not] at hC
    rw [hpool, release, if_neg hC.2]
    exact fun hnil => by simp [get] at hnil; simp [hnil] at hC
  · rw [cleanRelease, hback] at hC
    exact absurd hC (by simp)

/-- **Isolation.** After any two histories of a thread in which no buffer is given back with
bytes in it, a connection that is started then delivers the same from the same bytes. The
next action keeps this if and only if it gives back no bytes either. -/
theorem delivered_of_reach {t₁ t₂ : State} (h₁ : Lts.Reach step cleanRelease init t₁)
    (h₂ : Lts.Reach step cleanRelease init t₂) :
    (∀ calls src, delivered t₁ calls src = delivered t₂ calls src) ∧
      ∀ a t', step t₁ a = some t' →
        ((∀ calls src, delivered t' calls src = delivered t₂ calls src) ↔
          cleanRelease t₁ a = true) := by
  have hinit : Clean init := by
    intro buffer hb
    exact List.eq_of_mem_replicate hb
  have hclean₁ : Clean t₁ := h₁.invariant Clean hinit fun hi hC hs => hi.step hC hs
  have hclean₂ : Clean t₂ := h₂.invariant Clean hinit fun hi hC hs => hi.step hC hs
  constructor
  · rw [delivered_eq_iff, hclean₁.get_eq, hclean₂.get_eq]
  · intro a t' hstep
    rw [delivered_eq_iff, hclean₂.get_eq]
    constructor
    · intro hget
      by_contra hC
      exact get_of_not_cleanRelease (Bool.not_eq_true _ ▸ hC) hstep hget
    · exact fun hC => (hclean₁.step hC hstep).get_eq

/-- A connection that delivers one message and then breaks, served to its end. -/
theorem delivered_after_message :
    ∃ t, Lts.Reach step cleanRelease init t ∧ t.pool.length = 9 ∧
      ∀ calls src, delivered t calls src = delivered init calls src := by
  have hrun : ∃ t, Lts.Reach step cleanRelease init t ∧ t.pool.length = 9 :=
    Lts.Reach.exists_of_exec
      [.start 0, .arrive 0 [0x81, 0x01, 65] [], .call 0 (Vector.replicate 8 0) true true,
        .cutOff 0 .error, .call 0 (Vector.replicate 8 0) true true, .exit 0] (by decide)
  obtain ⟨t, ht, hlen⟩ := hrun
  exact ⟨t, ht, hlen, (delivered_of_reach ht .refl).1⟩

/-- A connection that is cut off behind the first frame of a fragmented message leaves its
byte to the next one. -/
theorem cut_off_inside_message :
    ¬ ∀ t₁ t₂, Lts.Reach step Lts.always init t₁ → Lts.Reach step Lts.always init t₂ →
      ∀ calls src, delivered t₁ calls src = delivered t₂ calls src := by
  intro hall
  have hrun : ∃ t, Lts.Reach step Lts.always init t ∧ get t.pool = [115] :=
    Lts.Reach.exists_of_exec
      [.start 0, .arrive 0 [0x01, 0x01, 115] [], .call 0 (Vector.replicate 8 0) true true,
        .cutOff 0 .error, .call 0 (Vector.replicate 8 0) true true, .exit 0] (by decide)
  obtain ⟨t, ht, hget⟩ := hrun
  have hone := hall t init ht .refl [(Vector.replicate 8 0, true, true)]
    { bytes := [0x81, 0x01, 0] }
  rw [delivered_one_frame, delivered_one_frame, hget] at hone
  exact absurd hone (by decide)

end PoolThread

end ArchNet
