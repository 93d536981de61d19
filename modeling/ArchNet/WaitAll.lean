import ArchNet.Bytes
import ArchNet.Future
import Mathlib.Data.List.Perm.Subperm
import Mathlib.Data.List.Nodup

/-!
# Waiting for Several Futures

`waitAll` and `waitAnyN` give each input a `thenVoid` callback. The callbacks share a context:
two vectors, in which each has the slot of its input's position, a counter, and the promise
that the callback completes which brings the counter to the size of the vectors.

## Conventions

* The inputs' shared states are named by numbers, and the list of inputs may name one of them
  more than once. Some are complete before the call; the others are completed by `setValue`
  calls, in any order and at any time. No step times one out.
* The loop over the inputs, the `setValue` calls and the callbacks interleave. A round of the
  loop is one step, the critical section of `thenVoid`; so is a callback, which runs with the
  context's mutex and reads an input that is done. The promise that `thenVoid` makes is
  dropped by the loop; its number names the callback.
* The constructor of the context takes an `int`; a vector of a negative size is not made
  (`length_error`).
* A write outside a vector is recorded (`outside`) and otherwise without effect.

## Main results

* `Waiting.Inv.step`: **every callback runs once**, when its input is done, and stores what
  that has come to.
* `waitAll_iff`: `waitAll` delivers exactly for fewer than `2 ^ 31` inputs.
* `waitAnyN_iff`: `waitAnyN` delivers exactly when it is to wait for all of them.
-/

open Bytes Lts

namespace ArchNet.Future

variable {R V : Type}

/-! ### The code -/

/-- `AllContext` and `AnyNContext`. -/
structure Context (R V : Type) where
  promise : SharedState (List R) (List V)
  results : List R
  values : List V
  count : ℕ
  size : ℕ

section Calls

variable [Inhabited R] [Inhabited V]

/-- `AllContext(n)` and `AnyNContext(n)`: the argument is converted to `int`. -/
def Context.make (n : ℕ) : Option (Context R V) :=
  let n := asInt (n % 2 ^ 32)
  if n < 0 then none
  else some ⟨.fresh, List.replicate n.toNat default, List.replicate n.toNat default, 0, n.toNat⟩

/-- A call of `waitAll` or `waitAnyN` under way, and what it has left behind: the inputs'
states, the inputs that the loop has still to visit and its index, the pool, and the context.
The history: the callbacks that have run, the inputs in the order of their completion, whether
a slot outside the vectors was accessed, and how often the promise was completed. -/
structure Waiting (R V : Type) where
  heap : ℕ → SharedState R V
  rest : List ℕ
  i : ℕ
  tasks : List Task
  ctx : Context R V
  ran : List Task
  order : List ℕ
  outside : Bool
  accepted : ℕ

/-- The state of an input at the call: not complete, or complete with an outcome. -/
def SharedState.ofOutcome : Option (R × V) → SharedState R V
  | none => .fresh
  | some (r, v) => ⟨r, v, .done, [], false⟩

/-- The promise of an empty call: `setValue({}, {})`. -/
def Waiting.ready (futures : ℕ → Option (R × V)) : Waiting R V :=
  ⟨fun h => .ofOutcome (futures h), [], 0, [],
    ⟨((SharedState.fresh : SharedState (List R) (List V)).setValue [] []).1, [], [], 0, 0⟩,
    [], [], false, 1⟩

/-- The call before the first round of its loop. -/
def Waiting.start (futures : ℕ → Option (R × V)) (inputs : List ℕ) (ctx : Context R V) :
    Waiting R V :=
  ⟨fun h => .ofOutcome (futures h), inputs, 0, [], ctx, [], [], false, 0⟩

/-- `waitAll(begin, end)`: `none` if it throws. -/
def waitAll (futures : ℕ → Option (R × V)) (inputs : List ℕ) : Option (Waiting R V) :=
  if inputs = [] then some (.ready futures)
  else (Context.make inputs.length).map (.start futures inputs)

/-- `waitAnyN(begin, end, N)`: `none` if it throws. -/
def waitAnyN (futures : ℕ → Option (R × V)) (inputs : List ℕ) (n : ℕ) : Option (Waiting R V) :=
  if inputs = [] ∨ n = 0 then some (.ready futures)
  else (Context.make n).map (.start futures inputs)

end Calls

/-- The callback for the `i`-th input, and whether it completes the promise. -/
def Context.callback (c : Context R V) (i : ℕ) (r : R) (v : V) : Context R V × Bool :=
  let c := { c with
    results := c.results.set i r
    values := c.values.set i v
    count := c.count + 1 }
  if c.size = c.count then
    let (promise, _, accepted) := c.promise.setValue c.results c.values
    ({ c with promise }, accepted)
  else (c, false)

namespace Waiting

/-- The steps. -/
inductive Action (R V : Type)
  /-- A round of the loop. -/
  | thenVoid
  /-- A promise of an input is given its value. -/
  | setValue (h : ℕ) (r : R) (v : V)
  /-- A worker runs the `k`-th task of the pool. -/
  | run (k : ℕ)

/-- `begin->thenVoid(…, pool)`. -/
def thenVoid (w : Waiting R V) : Option (Waiting R V) :=
  match w.rest with
  | [] => none
  | h :: rest =>
      let st := w.heap h
      if st.locked then none
      else
        let task : Task := ⟨w.i, h, .thenVoid⟩
        let w := { w with rest, i := w.i + 1 }
        match st.status with
        | .done => some { w with tasks := w.tasks ++ [task] }
        | .timeout => some w
        | .none =>
            let st' := { st with thenCallback := st.thenCallback ++ [task] }
            some { w with heap := Function.update w.heap h st' }

/-- `setValue` on an input. -/
def setValue (w : Waiting R V) (h : ℕ) (r : R) (v : V) : Option (Waiting R V) :=
  let st := w.heap h
  if st.locked then none
  else
    let (st', tasks, accepted) := st.setValue r v
    some { w with
      heap := Function.update w.heap h st'
      tasks := w.tasks ++ tasks
      order := if accepted then w.order ++ [h] else w.order }

/-- The task of a callback. -/
def run (w : Waiting R V) (k : ℕ) : Option (Waiting R V) :=
  (w.tasks[k]?).map fun t =>
    let w := { w with tasks := w.tasks.eraseIdx k }
    let st := w.heap t.state
    if st.status = .timeout then w
    else
      let (ctx, accepted) := w.ctx.callback t.promise st.result st.value
      { w with
        ctx
        ran := w.ran ++ [t]
        outside := w.outside || decide (w.ctx.results.length ≤ t.promise)
        accepted := w.accepted + accepted.toNat }

/-- One step. -/
def step (w : Waiting R V) : Action R V → Option (Waiting R V)
  | .thenVoid => w.thenVoid
  | .setValue h r v => w.setValue h r v
  | .run k => w.run k

/-! ### What a step does -/

/-- **What a round of the loop does**: the callback joins the pool, or it is registered. -/
theorem of_thenVoid {w w' : Waiting R V} (h : w.thenVoid = some w') :
    ∃ p rest, w.rest = p :: rest ∧ (w.heap p).locked = false ∧
      (((w.heap p).status = .done ∧
          w' = { w with rest, i := w.i + 1, tasks := w.tasks ++ [⟨w.i, p, .thenVoid⟩] }) ∨
        ((w.heap p).status = .timeout ∧ w' = { w with rest, i := w.i + 1 }) ∨
        ((w.heap p).status = .none ∧
          w' = { w with
            rest
            i := w.i + 1
            heap := Function.update w.heap p { w.heap p with
              thenCallback := (w.heap p).thenCallback ++ [⟨w.i, p, .thenVoid⟩] } })) := by
  rw [thenVoid] at h
  split at h
  · cases h
  · rename_i p rest hrest
    dsimp only at h
    by_cases hlocked : (w.heap p).locked = true
    · rw [if_pos hlocked] at h
      cases h
    · rw [if_neg hlocked] at h
      refine ⟨p, rest, hrest, eq_false_of_ne_true hlocked, ?_⟩
      split at h
      · rename_i hst
        exact .inl ⟨hst, (Option.some.inj h).symm⟩
      · rename_i hst
        exact .inr (.inl ⟨hst, (Option.some.inj h).symm⟩)
      · rename_i hst
        exact .inr (.inr ⟨hst, (Option.some.inj h).symm⟩)

/-- **What a `setValue` call does**: it completes the input and puts the registered callbacks
into the pool, or it leaves the mutex of a complete one taken. -/
theorem of_setValue {w w' : Waiting R V} {p : ℕ} {r : R} {v : V} (h : w.setValue p r v = some w') :
    (w.heap p).locked = false ∧
      (((w.heap p).status = .none ∧
          w' = { w with
            heap := Function.update w.heap p ⟨r, v, .done, [], false⟩
            tasks := w.tasks ++ (w.heap p).thenCallback
            order := w.order ++ [p] }) ∨
        ((w.heap p).status ≠ .none ∧
          w' = { w with
            heap := Function.update w.heap p { w.heap p with locked := true } })) := by
  rw [setValue] at h
  dsimp only at h
  by_cases hlocked : (w.heap p).locked = true
  · rw [if_pos hlocked] at h
    cases h
  · rw [if_neg hlocked] at h
    refine ⟨eq_false_of_ne_true hlocked, ?_⟩
    by_cases hst : (w.heap p).status = .none
    · refine .inl ⟨hst, ?_⟩
      rw [SharedState.setValue, if_neg (not_not_intro hst), eq_false_of_ne_true hlocked] at h
      exact (Option.some.inj h).symm
    · refine .inr ⟨hst, ?_⟩
      rw [SharedState.setValue, if_pos hst] at h
      dsimp only at h
      rw [List.append_nil] at h
      exact (Option.some.inj h).symm

/-- **What a task does** on an input that has not timed out: it calls the callback. -/
theorem of_run {w w' : Waiting R V} {k : ℕ} (h : w.run k = some w')
    (hst : ∀ t ∈ w.tasks, (w.heap t.state).status ≠ .timeout) :
    ∃ t, w.tasks[k]? = some t ∧
      w' = { w with
        tasks := w.tasks.eraseIdx k
        ctx := (w.ctx.callback t.promise (w.heap t.state).result (w.heap t.state).value).1
        ran := w.ran ++ [t]
        outside := w.outside || decide (w.ctx.results.length ≤ t.promise)
        accepted := w.accepted +
          (w.ctx.callback t.promise (w.heap t.state).result (w.heap t.state).value).2.toNat } := by
  obtain ⟨t, ht, rfl⟩ := Option.map_eq_some_iff.mp h
  refine ⟨t, ht, ?_⟩
  dsimp only
  rw [if_neg (hst t (List.mem_of_getElem? ht))]

end Waiting

/-! ### What a callback does -/

section Callback

variable (c : Context R V) (i : ℕ) (r : R) (v : V)

@[simp] theorem Context.callback_results : (c.callback i r v).1.results = c.results.set i r := by
  rw [callback]
  split
  · rfl
  · rfl

@[simp] theorem Context.callback_values : (c.callback i r v).1.values = c.values.set i v := by
  rw [callback]
  split
  · rfl
  · rfl

@[simp] theorem Context.callback_count : (c.callback i r v).1.count = c.count + 1 := by
  rw [callback]
  split
  · rfl
  · rfl

@[simp] theorem Context.callback_size : (c.callback i r v).1.size = c.size := by
  rw [callback]
  split
  · rfl
  · rfl

variable {c i r v}

/-- A callback that is not the last leaves the promise alone. -/
theorem Context.callback_of_ne (h : c.size ≠ c.count + 1) :
    (c.callback i r v).1.promise = c.promise ∧ (c.callback i r v).2 = false := by
  rw [callback, if_neg h]
  exact ⟨rfl, rfl⟩

/-- The callback that brings the counter to the size **completes the promise** with the
vectors. -/
theorem Context.callback_of_eq (h : c.size = c.count + 1) (hst : c.promise.status = .none) :
    (c.callback i r v).1.promise = { c.promise with
        result := c.results.set i r, value := c.values.set i v, status := .done,
        thenCallback := [] } ∧
      (c.callback i r v).2 = true := by
  rw [callback, if_pos h]
  simp [SharedState.setValue, hst]

/-- A promise that is complete already only has its mutex taken. -/
theorem Context.callback_of_done (h : c.size = c.count + 1) (hst : c.promise.status ≠ .none) :
    (c.callback i r v).1.promise = { c.promise with locked := true } ∧
      (c.callback i r v).2 = false := by
  rw [callback, if_pos h]
  simp [SharedState.setValue, hst]

end Callback

/-! ### Every callback runs once -/

/-- The callbacks of a call, by their positions. -/
def callbacks (inputs : List ℕ) : List Task := inputs.mapIdx fun i h => ⟨i, h, .thenVoid⟩

theorem mem_callbacks {inputs : List ℕ} {t : Task} (h : t ∈ callbacks inputs) :
    inputs[t.promise]? = some t.state := by
  obtain ⟨i, hi, rfl⟩ := List.mem_mapIdx.mp h
  exact List.getElem?_eq_getElem hi

/-- The position of a callback says which input it is for. -/
theorem state_eq_of_promise_eq {inputs : List ℕ} {t u : Task} (ht : t ∈ callbacks inputs)
    (hu : u ∈ callbacks inputs) (h : t.promise = u.promise) : t.state = u.state := by
  have hstate := mem_callbacks ht
  rw [h, mem_callbacks hu] at hstate
  exact (Option.some.inj hstate).symm

theorem callbacks_take_succ {inputs : List ℕ} {i p : ℕ} (h : inputs[i]? = some p) :
    (callbacks inputs).take (i + 1) = (callbacks inputs).take i ++ [⟨i, p, .thenVoid⟩] := by
  rw [List.take_add_one, callbacks, List.getElem?_mapIdx, h]
  rfl

theorem map_state_callbacks (inputs : List ℕ) : (callbacks inputs).map Task.state = inputs := by
  refine List.ext_getElem (by simp [callbacks]) ?_
  intro i _ _
  simp [callbacks]

theorem length_callbacks (inputs : List ℕ) : (callbacks inputs).length = inputs.length :=
  List.length_mapIdx

namespace Waiting

/-- **Every callback is in one place**: registered with an input that is pending, in the pool,
or among those that have run; and those that have run have stored what their inputs came to. -/
structure Inv (inputs : List ℕ) (w : Waiting R V) : Prop where
  rest : w.rest = inputs.drop w.i
  live : ∀ h, (w.heap h).status ≠ .timeout
  owned : ∀ h, ∀ t ∈ (w.heap h).thenCallback, t.state = h ∧ (w.heap h).status = .none
  ready : ∀ t, t ∈ w.tasks ∨ t ∈ w.ran → (w.heap t.state).status = .done
  once : ∀ t, (w.heap t.state).thenCallback.count t + w.tasks.count t + w.ran.count t =
    ((callbacks inputs).take w.i).count t
  counted : w.ctx.count = w.ran.length
  results_length : w.ctx.results.length = w.ctx.size
  values_length : w.ctx.values.length = w.ctx.size
  stored : ∀ t ∈ w.ran, t.promise < w.ctx.size →
    w.ctx.results[t.promise]? = some (w.heap t.state).result ∧
      w.ctx.values[t.promise]? = some (w.heap t.state).value
  outside : w.outside = true ↔ ∃ t ∈ w.ran, w.ctx.size ≤ t.promise
  full : w.ctx.promise.status = .done →
    w.ctx.promise.result.length = w.ctx.size ∧ w.ctx.promise.value.length = w.ctx.size
  accepted : 0 < w.accepted → w.ctx.promise.status = .done

variable {inputs : List ℕ} {w w' : Waiting R V}

/-- A callback in the pool, or one that has run, is one of the call's. -/
theorem Inv.mem_callbacks (h : w.Inv inputs) {t : Task} (ht : t ∈ w.tasks ∨ t ∈ w.ran) :
    t ∈ callbacks inputs := by
  have honce := h.once t
  have hpos : 0 < ((callbacks inputs).take w.i).count t := by
    rcases ht with ht | ht
    · have := List.count_pos_iff.mpr ht
      omega
    · have := List.count_pos_iff.mpr ht
      omega
  exact List.mem_of_mem_take (List.count_pos_iff.mp hpos)

/-- **The state of one input changes**, and with it what the loop and the pool hold of its
callbacks. -/
theorem Inv.update (h : w.Inv inputs) {p : ℕ} {st : SharedState R V} {rest : List ℕ} {i : ℕ}
    {tasks : List Task} {order : List ℕ} (hrest : rest = inputs.drop i)
    (hlive : st.status ≠ .timeout)
    (howned : ∀ t ∈ st.thenCallback, t.state = p ∧ st.status = .none)
    (hdone : (w.heap p).status = .done → st.status = .done ∧
      st.result = (w.heap p).result ∧ st.value = (w.heap p).value)
    (hready : ∀ t ∈ tasks, t ∈ w.tasks ∨ t.state = p ∧ st.status = .done)
    (hcount : ∀ t, t.state = p →
      st.thenCallback.count t + tasks.count t + ((callbacks inputs).take w.i).count t =
        (w.heap p).thenCallback.count t + w.tasks.count t +
          ((callbacks inputs).take i).count t)
    (hothers : ∀ t, t.state ≠ p → tasks.count t + ((callbacks inputs).take w.i).count t =
      w.tasks.count t + ((callbacks inputs).take i).count t) :
    ({ w with heap := Function.update w.heap p st, rest, i, tasks, order } :
      Waiting R V).Inv inputs := by
  -- What callbacks have read does not change.
  have hkept : ∀ q, (w.heap q).status = .done →
      (Function.update w.heap p st q).status = .done ∧
        (Function.update w.heap p st q).result = (w.heap q).result ∧
        (Function.update w.heap p st q).value = (w.heap q).value := by
    intro q hq
    rcases eq_or_ne q p with rfl | hne
    · rw [Function.update_self]
      exact hdone hq
    · rw [Function.update_of_ne hne]
      exact ⟨hq, rfl, rfl⟩
  refine { h with
    rest := hrest, live := ?_, owned := ?_, ready := ?_, once := ?_, stored := ?_ }
  · intro q
    dsimp only
    rcases eq_or_ne q p with rfl | hne
    · rw [Function.update_self]
      exact hlive
    · rw [Function.update_of_ne hne]
      exact h.live q
  · intro q t ht
    dsimp only at ht ⊢
    rcases eq_or_ne q p with rfl | hne
    · rw [Function.update_self] at ht ⊢
      exact howned t ht
    · rw [Function.update_of_ne hne] at ht ⊢
      exact h.owned q t ht
  · rintro t (ht | ht)
    · rcases hready t ht with ht | ⟨hstate, hst⟩
      · exact (hkept _ (h.ready t (.inl ht))).1
      · dsimp only
        rw [hstate, Function.update_self]
        exact hst
    · exact (hkept _ (h.ready t (.inr ht))).1
  · intro t
    have honce := h.once t
    dsimp only
    rcases eq_or_ne t.state p with hstate | hne
    · have hcount := hcount t hstate
      rw [hstate] at honce
      rw [hstate, Function.update_self]
      omega
    · have hothers := hothers t hne
      rw [Function.update_of_ne hne]
      omega
  · intro t ht
    obtain ⟨-, hresult, hvalue⟩ := hkept _ (h.ready t (.inr ht))
    dsimp only
    rw [hresult, hvalue]
    exact h.stored t ht

theorem Inv.thenVoid (h : w.Inv inputs) (hs : w.thenVoid = some w') : w'.Inv inputs := by
  obtain ⟨p, rest, hrest, -, hcase⟩ := of_thenVoid hs
  have hdrop := h.rest
  rw [hrest] at hdrop
  have hp : inputs[w.i]? = some p := by
    rw [← List.head?_drop, ← hdrop]
    rfl
  have hrest' : rest = inputs.drop (w.i + 1) := by
    rw [← List.tail_drop, ← hdrop]
    rfl
  have htake := callbacks_take_succ hp
  rcases hcase with ⟨hst, rfl⟩ | ⟨hst, rfl⟩ | ⟨hst, rfl⟩
  · refine { h with rest := hrest', ready := ?_, once := ?_ }
    · rintro t (ht | ht)
      · rcases List.mem_append.mp ht with ht | ht
        · exact h.ready t (.inl ht)
        · obtain rfl := List.mem_singleton.mp ht
          exact hst
      · exact h.ready t (.inr ht)
    · intro t
      have honce := h.once t
      dsimp only
      rw [htake, List.count_append, List.count_append]
      omega
  · exact absurd hst (h.live p)
  · refine h.update hrest' (h.live p) ?_ (fun hdone => ⟨hdone, rfl, rfl⟩)
      (fun t ht => .inl ht) ?_ ?_
    · intro t ht
      rcases List.mem_append.mp ht with ht | ht
      · exact h.owned p t ht
      · obtain rfl := List.mem_singleton.mp ht
        exact ⟨rfl, hst⟩
    · intro t _
      rw [htake, List.count_append, List.count_append]
      omega
    · intro t hne
      have hnew : ([⟨w.i, p, .thenVoid⟩] : List Task).count t = 0 := by
        rw [List.count_eq_zero, List.mem_singleton]
        rintro rfl
        exact hne rfl
      rw [htake, List.count_append, hnew, Nat.add_zero]

theorem Inv.setValue (h : w.Inv inputs) {p : ℕ} {r : R} {v : V} (hs : w.setValue p r v = some w') :
    w'.Inv inputs := by
  obtain ⟨-, ⟨hst, rfl⟩ | ⟨hst, rfl⟩⟩ := of_setValue hs
  · refine h.update h.rest (by simp) (fun t ht => by cases ht) ?_ ?_ ?_ ?_
    · intro hdone
      exact absurd (hst.symm.trans hdone) (by decide)
    · intro t ht
      rcases List.mem_append.mp ht with ht | ht
      · exact .inl ht
      · exact .inr ⟨(h.owned p t ht).1, rfl⟩
    · intro t _
      rw [List.count_append, List.count_nil]
      omega
    · intro t hne
      have hnone : (w.heap p).thenCallback.count t = 0 :=
        List.count_eq_zero.mpr fun ht => hne (h.owned p t ht).1
      rw [List.count_append, hnone, Nat.add_zero]
  · -- Of a complete input only the mutex changes.
    exact h.update h.rest (h.live p) (h.owned p) (fun hdone => ⟨hdone, rfl, rfl⟩)
      (fun t ht => .inl ht) (fun _ _ => rfl) fun _ _ => rfl

/-- The `k`-th task and the others. -/
theorem perm_eraseIdx {l : List Task} {k : ℕ} {t : Task} (h : l[k]? = some t) :
    (t :: l.eraseIdx k).Perm l := by
  obtain ⟨hk, rfl⟩ := List.getElem?_eq_some_iff.mp h
  exact List.getElem_cons_eraseIdx_perm hk

/-- A completed promise holds vectors of full size. -/
theorem full_callback {c : Context R V} (i : ℕ) (r : R) (v : V)
    (hresults : c.results.length = c.size) (hvalues : c.values.length = c.size)
    (hfull : c.promise.status = .done →
      c.promise.result.length = c.size ∧ c.promise.value.length = c.size) :
    (c.callback i r v).1.promise.status = .done →
      (c.callback i r v).1.promise.result.length = c.size ∧
        (c.callback i r v).1.promise.value.length = c.size := by
  by_cases hsize : c.size = c.count + 1
  · by_cases hst : c.promise.status = .none
    · rw [(Context.callback_of_eq hsize hst).1]
      intro _
      exact ⟨List.length_set.trans hresults, List.length_set.trans hvalues⟩
    · rw [(Context.callback_of_done hsize hst).1]
      exact hfull
  · rw [(Context.callback_of_ne hsize).1]
    exact hfull

/-- A callback that has completed the promise leaves it complete. -/
theorem accepted_callback {c : Context R V} (i : ℕ) (r : R) (v : V) {n : ℕ}
    (hacc : 0 < n → c.promise.status = .done)
    (h : 0 < n + (c.callback i r v).2.toNat) : (c.callback i r v).1.promise.status = .done := by
  by_cases hsize : c.size = c.count + 1
  · by_cases hst : c.promise.status = .none
    · rw [(Context.callback_of_eq hsize hst).1]
    · rw [(Context.callback_of_done hsize hst).2] at h
      rw [(Context.callback_of_done hsize hst).1]
      exact hacc h
  · rw [(Context.callback_of_ne hsize).2] at h
    rw [(Context.callback_of_ne hsize).1]
    exact hacc h

/-- **The slots hold what the inputs came to**, that of the callback too which has just run. -/
theorem Inv.stored_set (h : w.Inv inputs) {t u : Task} (ht : t ∈ w.tasks) (hu : u ∈ w.ran ++ [t])
    (hlt : u.promise < w.ctx.size) :
    (w.ctx.results.set t.promise (w.heap t.state).result)[u.promise]? =
        some (w.heap u.state).result ∧
      (w.ctx.values.set t.promise (w.heap t.state).value)[u.promise]? =
        some (w.heap u.state).value := by
  have htcall := h.mem_callbacks (.inl ht)
  have hucall : u ∈ callbacks inputs := by
    rcases List.mem_append.mp hu with hu | hu
    · exact h.mem_callbacks (.inr hu)
    · exact List.mem_singleton.mp hu ▸ htcall
  rcases eq_or_ne t.promise u.promise with heq | hne
  · rw [← state_eq_of_promise_eq htcall hucall heq, ← heq]
    rw [← heq] at hlt
    exact ⟨List.getElem?_set_self (hlt.trans_eq h.results_length.symm),
      List.getElem?_set_self (hlt.trans_eq h.values_length.symm)⟩
  · rw [List.getElem?_set_ne hne, List.getElem?_set_ne hne]
    rcases List.mem_append.mp hu with hu | hu
    · exact h.stored u hu hlt
    · exact absurd (congrArg Task.promise (List.mem_singleton.mp hu)).symm hne

theorem Inv.run (h : w.Inv inputs) {k : ℕ} (hs : w.run k = some w') : w'.Inv inputs := by
  obtain ⟨t, ht, rfl⟩ := of_run hs fun t _ => h.live t.state
  have hperm := perm_eraseIdx ht
  have hmem : t ∈ w.tasks := List.mem_of_getElem? ht
  refine ⟨h.rest, h.live, h.owned, ?_, ?_, ?_, ?_, ?_, ?_, ?_, ?_, ?_⟩
  · rintro u (hu | hu)
    · exact h.ready u (.inl (hperm.subset (List.mem_cons_of_mem _ hu)))
    · rcases List.mem_append.mp hu with hu | hu
      · exact h.ready u (.inr hu)
      · obtain rfl := List.mem_singleton.mp hu
        exact h.ready u (.inl hmem)
  · intro u
    have honce := h.once u
    have hcount := hperm.count_eq u
    rw [List.count_cons] at hcount
    dsimp only
    rw [List.count_append, List.count_singleton]
    omega
  · dsimp only
    rw [Context.callback_count, List.length_append, h.counted]
    rfl
  · dsimp only
    rw [Context.callback_results, Context.callback_size, List.length_set, h.results_length]
  · dsimp only
    rw [Context.callback_values, Context.callback_size, List.length_set, h.values_length]
  · intro u hu hlt
    dsimp only at hu hlt ⊢
    rw [Context.callback_size] at hlt
    rw [Context.callback_results, Context.callback_values]
    exact h.stored_set hmem hu hlt
  · dsimp only
    rw [Context.callback_size, Bool.or_eq_true, h.outside, decide_eq_true_eq, h.results_length]
    constructor
    · rintro (⟨u, hu, hle⟩ | hle)
      · exact ⟨u, List.mem_append_left _ hu, hle⟩
      · exact ⟨t, List.mem_append_right _ (List.mem_singleton_self t), hle⟩
    · rintro ⟨u, hu, hle⟩
      rcases List.mem_append.mp hu with hu | hu
      · exact .inl ⟨u, hu, hle⟩
      · exact .inr (List.mem_singleton.mp hu ▸ hle)
  · dsimp only
    rw [Context.callback_size]
    exact full_callback _ _ _ h.results_length h.values_length h.full
  · exact accepted_callback _ _ _ h.accepted

/-- **Every step keeps every callback in one place.** -/
theorem Inv.step (h : w.Inv inputs) {a : Action R V} (hs : w.step a = some w') :
    w'.Inv inputs := by
  cases a with
  | thenVoid => exact h.thenVoid hs
  | setValue p r v => exact h.setValue hs
  | run k => exact h.run hs

/-! ### When the promise is completed -/

/-- **The promise is complete once the counter has reached the size.** -/
structure Due (w : Waiting R V) : Prop where
  status : w.ctx.promise.status = if w.ctx.size ≤ w.ctx.count then .done else .none
  accepted : w.accepted = if w.ctx.size ≤ w.ctx.count then 1 else 0

/-- A callback keeps it so. -/
theorem Due.callback {c : Context R V} {n : ℕ} (i : ℕ) (r : R) (v : V)
    (hst : c.promise.status = if c.size ≤ c.count then .done else .none)
    (hn : n = if c.size ≤ c.count then 1 else 0) :
    (c.callback i r v).1.promise.status = (if c.size ≤ c.count + 1 then .done else .none) ∧
      n + (c.callback i r v).2.toNat = if c.size ≤ c.count + 1 then 1 else 0 := by
  rcases Nat.lt_trichotomy c.size (c.count + 1) with hlt | heq | hgt
  · obtain ⟨hpromise, haccepted⟩ := Context.callback_of_ne (i := i) (r := r) (v := v) hlt.ne
    rw [if_pos (Nat.lt_succ_iff.mp hlt)] at hst hn
    rw [hpromise, haccepted, hst, hn, if_pos hlt.le, if_pos hlt.le]
    exact ⟨rfl, rfl⟩
  · rw [if_neg (by omega)] at hst hn
    obtain ⟨hpromise, haccepted⟩ := Context.callback_of_eq (i := i) (r := r) (v := v) heq hst
    rw [hpromise, haccepted, hn, if_pos heq.le, if_pos heq.le]
    exact ⟨rfl, rfl⟩
  · obtain ⟨hpromise, haccepted⟩ := Context.callback_of_ne (i := i) (r := r) (v := v) hgt.ne'
    rw [if_neg (by omega)] at hst hn
    rw [hpromise, haccepted, hst, hn, if_neg (by omega), if_neg (by omega)]
    exact ⟨rfl, rfl⟩

/-- A step that is no callback leaves the context and what counts the callbacks alone. -/
theorem ctx_of_step {a : Action R V} (hs : w.step a = some w') (ha : ∀ k, a ≠ .run k) :
    w'.ctx = w.ctx ∧ w'.accepted = w.accepted ∧ w'.ran = w.ran := by
  cases a with
  | thenVoid =>
      obtain ⟨p, rest, -, -, ⟨-, rfl⟩ | ⟨-, rfl⟩ | ⟨-, rfl⟩⟩ := of_thenVoid hs
      · exact ⟨rfl, rfl, rfl⟩
      · exact ⟨rfl, rfl, rfl⟩
      · exact ⟨rfl, rfl, rfl⟩
  | setValue p r v =>
      obtain ⟨-, ⟨-, rfl⟩ | ⟨-, rfl⟩⟩ := of_setValue hs
      · exact ⟨rfl, rfl, rfl⟩
      · exact ⟨rfl, rfl, rfl⟩
  | run k => exact absurd rfl (ha k)

theorem Due.step (hinv : w.Inv inputs) (h : w.Due) {a : Action R V} (hs : w.step a = some w') :
    w'.Due := by
  by_cases ha : ∃ k, a = .run k
  · obtain ⟨k, rfl⟩ := ha
    obtain ⟨t, -, rfl⟩ := of_run hs fun t _ => hinv.live t.state
    obtain ⟨hst, hacc⟩ := Due.callback t.promise (w.heap t.state).result (w.heap t.state).value
      h.status h.accepted
    constructor
    · dsimp only
      rw [Context.callback_size, Context.callback_count]
      exact hst
    · dsimp only
      rw [Context.callback_size, Context.callback_count]
      exact hacc
  · obtain ⟨hctx, hacc, -⟩ := ctx_of_step hs fun k hk => ha ⟨k, hk⟩
    constructor
    · rw [hctx]
      exact h.status
    · rw [hctx, hacc]
      exact h.accepted

/-! ### Waiting for all -/

/-- The callbacks that have run are among the call's, each once. -/
theorem Inv.subperm (h : w.Inv inputs) : w.ran.Subperm (callbacks inputs) := by
  rw [List.subperm_ext_iff]
  intro t _
  have honce := h.once t
  have hle := (List.take_sublist w.i (callbacks inputs)).count_le t
  omega

/-- When there are as many as inputs, **every callback has run**. -/
theorem Inv.perm_of_count (h : w.Inv inputs) (hcount : inputs.length ≤ w.ctx.count) :
    w.ran.Perm (callbacks inputs) := by
  refine h.subperm.perm_of_length_le ?_
  rw [length_callbacks, ← h.counted]
  exact hcount

/-- Then the vectors of full size hold **at each position what its input came to**. -/
theorem Inv.vectors (h : w.Inv inputs) (hsize : w.ctx.size = inputs.length)
    (hcount : inputs.length ≤ w.ctx.count) :
    w.ctx.results = inputs.map (fun p => (w.heap p).result) ∧
      w.ctx.values = inputs.map (fun p => (w.heap p).value) ∧
      ∀ p ∈ inputs, (w.heap p).status = .done := by
  have hperm := h.perm_of_count hcount
  have hran : ∀ {i p : ℕ}, inputs[i]? = some p → (⟨i, p, .thenVoid⟩ : Task) ∈ w.ran := by
    intro i p hp
    rw [hperm.mem_iff, callbacks, List.mem_mapIdx]
    obtain ⟨hi, rfl⟩ := List.getElem?_eq_some_iff.mp hp
    exact ⟨i, hi, rfl⟩
  have hget : ∀ i : ℕ, w.ctx.results[i]? = (inputs[i]?).map (fun p => (w.heap p).result) ∧
      w.ctx.values[i]? = (inputs[i]?).map (fun p => (w.heap p).value) := by
    intro i
    rcases Nat.lt_or_ge i inputs.length with hi | hi
    · have hp := List.getElem?_eq_getElem hi
      rw [hp]
      exact h.stored _ (hran hp) (hi.trans_eq hsize.symm)
    · rw [List.getElem?_eq_none hi, List.getElem?_eq_none (by rw [h.results_length]; omega),
        List.getElem?_eq_none (by rw [h.values_length]; omega)]
      exact ⟨rfl, rfl⟩
  refine ⟨?_, ?_, ?_⟩
  · refine List.ext_getElem? fun i => ?_
    rw [(hget i).1, List.getElem?_map]
  · refine List.ext_getElem? fun i => ?_
    rw [(hget i).2, List.getElem?_map]
  · intro p hp
    obtain ⟨i, hi⟩ := List.mem_iff_getElem?.mp hp
    exact h.ready _ (.inr (hran hi))

/-- **The promise holds the context's vectors**, which nobody writes to any more. -/
def Held (w : Waiting R V) : Prop :=
  w.ctx.promise.status = .done →
    w.ctx.promise.result = w.ctx.results ∧ w.ctx.promise.value = w.ctx.values

theorem Held.step (hinv : w.Inv inputs) (hdue : w.Due) (hsize : w.ctx.size = inputs.length)
    (h : w.Held) {a : Action R V} (hs : w.step a = some w') : w'.Held := by
  by_cases ha : ∃ k, a = .run k
  · obtain ⟨k, rfl⟩ := ha
    have hinv' := hinv.step hs
    have hle := hinv'.subperm.length_le
    rw [← hinv'.counted, length_callbacks] at hle
    obtain ⟨t, -, rfl⟩ := of_run hs fun t _ => hinv.live t.state
    dsimp only at hle
    rw [Context.callback_count] at hle
    -- The callback was still to run, so the promise was pending.
    have hpending := hdue.status
    rw [if_neg (by omega)] at hpending
    intro hdone
    dsimp only at hdone ⊢
    rw [Context.callback_results, Context.callback_values]
    by_cases heq : w.ctx.size = w.ctx.count + 1
    · rw [(Context.callback_of_eq heq hpending).1]
      exact ⟨rfl, rfl⟩
    · rw [(Context.callback_of_ne heq).1, hpending] at hdone
      cases hdone
  · obtain ⟨hctx, -⟩ := ctx_of_step hs fun k hk => ha ⟨k, hk⟩
    rw [Held, hctx]
    exact h

/-! ### Runs to the end -/

/-- The call has returned, its inputs are complete, and its callbacks have run. -/
structure Finished (inputs : List ℕ) (w : Waiting R V) : Prop where
  rest : w.rest = []
  tasks : w.tasks = []
  done : ∀ p ∈ inputs, (w.heap p).status = .done

/-- When everything has ended, **every callback has run**. -/
theorem Finished.perm (h : w.Inv inputs) (hfin : w.Finished inputs) :
    w.ran.Perm (callbacks inputs) := by
  have hall : (callbacks inputs).take w.i = callbacks inputs := by
    refine List.take_of_length_le ?_
    have hdrop := h.rest
    rw [hfin.rest] at hdrop
    rw [length_callbacks]
    exact List.drop_eq_nil_iff.mp hdrop.symm
  rw [List.perm_iff_count]
  intro t
  have honce := h.once t
  rw [hall, hfin.tasks, List.count_nil] at honce
  by_cases ht : t ∈ callbacks inputs
  · have hnone : (w.heap t.state).thenCallback.count t = 0 := by
      refine List.count_eq_zero.mpr fun hmem => ?_
      have hdone := hfin.done _ (List.mem_of_getElem? (Future.mem_callbacks ht))
      rw [(h.owned _ t hmem).2] at hdone
      cases hdone
    omega
  · rw [List.count_eq_zero.mpr ht] at honce ⊢
    omega

/-- No mutex is taken. -/
def Free (w : Waiting R V) : Prop := ∀ p, (w.heap p).locked = false

/-- **The inputs can complete.** -/
theorem exists_complete [Inhabited R] [Inhabited V] (h : w.Inv inputs) (hfree : w.Free)
    (l : List ℕ) :
    ∃ w', Reach step always w w' ∧ w'.Inv inputs ∧ w'.Free ∧ w'.rest = w.rest ∧
      ∀ p ∈ l, (w'.heap p).status = .done := by
  induction l with
  | nil => exact ⟨w, .refl, h, hfree, rfl, by simp⟩
  | cons p l ih =>
      obtain ⟨w₁, hreach, hinv, hfree₁, hrest, hdone⟩ := ih
      cases hst : (w₁.heap p).status with
      | done =>
          exact ⟨w₁, hreach, hinv, hfree₁, hrest, List.forall_mem_cons.mpr ⟨hst, hdone⟩⟩
      | timeout => exact absurd hst (hinv.live p)
      | none =>
          have hstep : ∃ w₂, w₁.step (.setValue p default default) = some w₂ := by
            simp [step, setValue, hfree₁ p]
          obtain ⟨w₂, hw₂⟩ := hstep
          obtain ⟨-, ⟨-, hw₂'⟩ | ⟨hne, -⟩⟩ := of_setValue hw₂
          · refine ⟨w₂, .tail hreach rfl hw₂, hinv.step hw₂, ?_, by rw [hw₂', hrest], ?_⟩
            · intro q
              rw [hw₂']
              dsimp only
              rcases eq_or_ne q p with rfl | hne
              · rw [Function.update_self]
              · rw [Function.update_of_ne hne]
                exact hfree₁ q
            · intro q hq
              rw [hw₂']
              dsimp only
              rcases eq_or_ne q p with rfl | hne
              · rw [Function.update_self]
              · rw [Function.update_of_ne hne]
                exact hdone q ((List.mem_cons.mp hq).resolve_left hne)
          · exact absurd hst hne

/-- **The loop can go through**, over inputs that are complete. -/
theorem exists_visited (h : w.Inv inputs) (hfree : w.Free)
    (hdone : ∀ p ∈ inputs, (w.heap p).status = .done) :
    ∃ w', Reach step always w w' ∧ w'.Inv inputs ∧ w'.rest = [] ∧ w'.heap = w.heap := by
  generalize hn : w.rest.length = n
  induction n generalizing w with
  | zero => exact ⟨w, .refl, h, List.length_eq_zero_iff.mp hn, rfl⟩
  | succ n ih =>
      obtain ⟨p, rest, hrest⟩ := List.exists_cons_of_length_eq_add_one hn
      have hp : (w.heap p).status = .done := by
        refine hdone p (List.mem_of_mem_drop (i := w.i) ?_)
        rw [← h.rest, hrest]
        exact List.mem_cons_self
      have hstep : w.step .thenVoid = some { w with
          rest, i := w.i + 1, tasks := w.tasks ++ [⟨w.i, p, .thenVoid⟩] } := by
        simp [step, thenVoid, hrest, hfree p, hp]
      rw [hrest, List.length_cons, Nat.add_right_cancel_iff] at hn
      obtain ⟨w', hreach, hinv, hrest', hheap⟩ := ih (h.step hstep) hfree hdone hn
      exact ⟨w', .trans (.tail .refl rfl hstep) hreach, hinv, hrest', hheap⟩

/-- **The pool can be emptied.** -/
theorem exists_emptied (h : w.Inv inputs) :
    ∃ w', Reach step always w w' ∧ w'.Inv inputs ∧ w'.tasks = [] ∧ w'.rest = w.rest ∧
      w'.heap = w.heap := by
  generalize hn : w.tasks.length = n
  induction n generalizing w with
  | zero => exact ⟨w, .refl, h, List.length_eq_zero_iff.mp hn, rfl, rfl⟩
  | succ n ih =>
      have hstep : ∃ w₁, w.step (.run 0) = some w₁ := by
        obtain ⟨t, tasks, htasks⟩ := List.exists_cons_of_length_eq_add_one hn
        simp [step, run, htasks]
      obtain ⟨w₁, hw₁⟩ := hstep
      have hinv₁ := h.step hw₁
      obtain ⟨t, -, rfl⟩ := of_run hw₁ fun t _ => h.live t.state
      obtain ⟨w', hreach, hinv, htasks, hrest, hheap⟩ := ih hinv₁ (by
        dsimp only
        rw [List.length_eraseIdx, if_pos (by omega)]
        omega)
      exact ⟨w', .trans (.tail .refl rfl hw₁) hreach, hinv, htasks, hrest, hheap⟩

/-- **From every state without a taken mutex, a run leads to the end.** -/
theorem exists_finished [Inhabited R] [Inhabited V] (h : w.Inv inputs) (hfree : w.Free) :
    ∃ w', Reach step always w w' ∧ w'.Inv inputs ∧ w'.Finished inputs := by
  obtain ⟨w₁, hreach₁, hinv₁, hfree₁, -, hdone₁⟩ := exists_complete h hfree inputs
  obtain ⟨w₂, hreach₂, hinv₂, hrest₂, hheap₂⟩ := exists_visited hinv₁ hfree₁ hdone₁
  obtain ⟨w₃, hreach₃, hinv₃, htasks₃, hrest₃, hheap₃⟩ := exists_emptied hinv₂
  refine ⟨w₃, (hreach₁.trans hreach₂).trans hreach₃, hinv₃, hrest₃.trans hrest₂, htasks₃, ?_⟩
  rw [hheap₃, hheap₂]
  exact hdone₁

theorem size_of_step {a : Action R V} (h : w.Inv inputs) (hs : w.step a = some w') :
    w'.ctx.size = w.ctx.size := by
  by_cases ha : ∃ k, a = .run k
  · obtain ⟨k, rfl⟩ := ha
    obtain ⟨t, -, rfl⟩ := of_run hs fun t _ => h.live t.state
    exact Context.callback_size ..
  · rw [(ctx_of_step hs fun k hk => ha ⟨k, hk⟩).1]

/-- **What every state of a run keeps.** -/
theorem inv_of_reach {w₀ : Waiting R V} (h₀ : w₀.Inv inputs) (h : Reach step always w₀ w) :
    w.Inv inputs ∧ w.ctx.size = w₀.ctx.size :=
  h.invariant (fun w => w.Inv inputs ∧ w.ctx.size = w₀.ctx.size) ⟨h₀, rfl⟩
    fun hinv _ hs => ⟨hinv.1.step hs, (size_of_step hinv.1 hs).trans hinv.2⟩

/-- The promise is due in every state, if it is at the start. -/
theorem due_of_reach {w₀ : Waiting R V} (h₀ : w₀.Inv inputs) (hdue : w₀.Due)
    (h : Reach step always w₀ w) : w.Due :=
  (h.invariant (fun w => w.Inv inputs ∧ w.Due) ⟨h₀, hdue⟩
    fun hinv _ hs => ⟨hinv.1.step hs, hinv.2.step hinv.1 hs⟩).2

/-- With a slot for each input, **the promise holds what the inputs came to**, in every
state in which it is complete. -/
theorem delivered {w₀ : Waiting R V} (h₀ : w₀.Inv inputs) (hdue : w₀.Due) (hheld : w₀.Held)
    (hsize : w₀.ctx.size = inputs.length) (h : Reach step always w₀ w)
    (hdone : w.ctx.promise.status = .done) :
    (∀ p ∈ inputs, (w.heap p).status = .done) ∧
      w.ctx.promise.result = inputs.map (fun p => (w.heap p).result) ∧
      w.ctx.promise.value = inputs.map (fun p => (w.heap p).value) := by
  obtain ⟨hinv, hsize'⟩ := inv_of_reach h₀ h
  rw [hsize] at hsize'
  have hdue' := due_of_reach h₀ hdue h
  have hheld' : w.Held := by
    refine (h.invariant (fun w => w.Inv inputs ∧ w.Due ∧ w.ctx.size = inputs.length ∧ w.Held)
      ⟨h₀, hdue, hsize, hheld⟩ ?_).2.2.2
    rintro w w' a ⟨hinv, hdue, hsize, hheld⟩ _ hs
    exact ⟨hinv.step hs, hdue.step hinv hs, (size_of_step hinv hs).trans hsize,
      hheld.step hinv hdue hsize hs⟩
  have hcount : inputs.length ≤ w.ctx.count := by
    by_contra hlt
    have hst := hdue'.status
    rw [hsize', if_neg hlt, hdone] at hst
    cases hst
  obtain ⟨hresults, hvalues, hall⟩ := hinv.vectors hsize' hcount
  obtain ⟨hresult, hvalue⟩ := hheld' hdone
  exact ⟨hall, hresult.trans hresults, hvalue.trans hvalues⟩

/-- A call with a slot for each input waits for all. -/
theorem waitsForAll {w₀ w : Waiting R V} (h₀ : w₀.Inv inputs) (hdue : w₀.Due)
    (hheld : w₀.Held) (hsize : w₀.ctx.size = inputs.length) (h : Reach step always w₀ w) :
    w.accepted ≤ 1 ∧ (w.ctx.promise.status = .done ↔ w.accepted = 1) ∧
    (w.Finished inputs → w.accepted = 1) ∧
    (w.ctx.promise.status = .done →
      (∀ p ∈ inputs, (w.heap p).status = .done) ∧
      w.ctx.promise.result = inputs.map (fun p => (w.heap p).result) ∧
      w.ctx.promise.value = inputs.map (fun p => (w.heap p).value)) := by
  obtain ⟨hinv, hsize'⟩ := inv_of_reach h₀ h
  have hdue' := due_of_reach h₀ hdue h
  refine ⟨?_, ?_, ?_, delivered h₀ hdue hheld hsize h⟩
  · rw [hdue'.accepted]
    split
    · exact le_refl 1
    · exact Nat.zero_le 1
  · rw [hdue'.accepted, hdue'.status]
    split
    · simp
    · simp
  · intro hfin
    have hlen := (hfin.perm hinv).length_eq
    rw [length_callbacks, ← hinv.counted] at hlen
    rw [hdue'.accepted, if_pos (by omega)]

end Waiting

/-! ### The two calls -/

section Calls

variable [Inhabited R] [Inhabited V] {futures : ℕ → Option (R × V)} {inputs : List ℕ}

/-- A context has the size that is left of the argument by the conversion to `int`. -/
theorem Context.of_make {n : ℕ} {c : Context R V} (h : Context.make n = some c) :
    c.size < 2 ^ 31 ∧ c.size = n % 2 ^ 32 ∧ c.results.length = c.size ∧
      c.values.length = c.size ∧ c.count = 0 ∧ c.promise = .fresh := by
  rw [make] at h
  split at h
  · cases h
  · rename_i hneg
    obtain rfl := Option.some.inj h
    dsimp only
    have hlt : n % 2 ^ 32 < 2 ^ 31 := by
      by_contra hge
      rw [asInt, if_neg hge] at hneg
      omega
    rw [asInt, if_pos hlt]
    refine ⟨?_, ?_, List.length_replicate, List.length_replicate, rfl, rfl⟩
    · exact hlt
    · rfl

/-- Up to `2 ^ 31` there is one. -/
theorem Context.exists_make {n : ℕ} (h : n < 2 ^ 31) :
    ∃ c : Context R V, Context.make n = some c := by
  rw [make, Nat.mod_eq_of_lt (h.trans (by decide)), asInt, if_pos h]
  exact ⟨_, if_neg (Int.not_lt.mpr (Int.natCast_nonneg n))⟩

namespace Waiting

theorem heap_ofOutcome (p : ℕ) :
    (SharedState.ofOutcome (futures p)).status ≠ .timeout ∧
      (SharedState.ofOutcome (futures p)).thenCallback = [] ∧
      (SharedState.ofOutcome (futures p)).locked = false := by
  cases futures p with
  | none => exact ⟨by simp [SharedState.ofOutcome, SharedState.fresh], rfl, rfl⟩
  | some o => exact ⟨by simp [SharedState.ofOutcome], rfl, rfl⟩

/-- **Before the first round no callback is anywhere.** -/
theorem inv_of_new {c : Context R V} {n : ℕ} (hcount : c.count = 0)
    (hresults : c.results.length = c.size) (hvalues : c.values.length = c.size)
    (hfull : c.promise.status = .done →
      c.promise.result.length = c.size ∧ c.promise.value.length = c.size)
    (hacc : 0 < n → c.promise.status = .done) :
    Inv inputs ⟨fun h => .ofOutcome (futures h), inputs, 0, [], c, [], [], false, n⟩ := by
  refine ⟨rfl, fun p => (heap_ofOutcome p).1, ?_, ?_, ?_, hcount, hresults, hvalues, ?_, ?_, hfull,
    hacc⟩
  · intro p t ht
    dsimp only at ht
    rw [(heap_ofOutcome p).2.1] at ht
    cases ht
  · rintro t (ht | ht)
    · cases ht
    · cases ht
  · intro t
    dsimp only
    rw [(heap_ofOutcome _).2.1]
    rfl
  · intro t ht
    cases ht
  · simp

theorem start_inv {n : ℕ} {c : Context R V} (h : Context.make n = some c) :
    (start futures inputs c).Inv inputs := by
  obtain ⟨-, -, hresults, hvalues, hcount, hpromise⟩ := Context.of_make h
  refine inv_of_new hcount hresults hvalues (fun hdone => ?_) fun hpos => ?_
  · rw [hpromise] at hdone
    cases hdone
  · cases hpos

theorem start_free (c : Context R V) : (start futures inputs c).Free :=
  fun p => (heap_ofOutcome p).2.2

theorem start_due {n : ℕ} {c : Context R V} (h : Context.make n = some c) (hpos : 0 < c.size) :
    (start futures inputs c).Due := by
  obtain ⟨-, -, -, -, hcount, hpromise⟩ := Context.of_make h
  have hnot : ¬(start futures inputs c).ctx.size ≤ (start futures inputs c).ctx.count := by
    change ¬c.size ≤ c.count
    omega
  constructor
  · rw [if_neg hnot]
    exact congrArg SharedState.status hpromise
  · exact (if_neg hnot).symm

theorem start_held {n : ℕ} {c : Context R V} (h : Context.make n = some c) :
    (start futures inputs c).Held := by
  obtain ⟨-, -, -, -, -, hpromise⟩ := Context.of_make h
  intro hdone
  rw [start, hpromise] at hdone
  cases hdone

/-- The call without inputs has completed its promise. -/
theorem ready_inv (futures : ℕ → Option (R × V)) :
    (ready futures).Inv [] ∧ (ready futures).Due ∧ (ready futures).Held :=
  ⟨inv_of_new rfl rfl rfl (fun _ => ⟨rfl, rfl⟩) fun _ => rfl, ⟨rfl, rfl⟩, fun _ => ⟨rfl, rfl⟩⟩

end Waiting

/-- **`waitAll` waits for all.** In every run the promise is completed at most once, and once
when everything has ended; whenever it is complete, so are all inputs, and the vectors hold at
each position what the input there has come to. -/
def WaitsForAll (futures : ℕ → Option (R × V)) (inputs : List ℕ) : Prop :=
  ∃ w₀, waitAll futures inputs = some w₀ ∧ ∀ w, Reach Waiting.step always w₀ w →
    w.accepted ≤ 1 ∧ (w.ctx.promise.status = .done ↔ w.accepted = 1) ∧
    (w.Finished inputs → w.accepted = 1) ∧
    (w.ctx.promise.status = .done →
      (∀ p ∈ inputs, (w.heap p).status = .done) ∧
      w.ctx.promise.result = inputs.map (fun p => (w.heap p).result) ∧
      w.ctx.promise.value = inputs.map (fun p => (w.heap p).value))

/-- **`waitAll` delivers exactly for fewer than `2 ^ 31` inputs.** -/
theorem waitAll_iff (futures : ℕ → Option (R × V)) (inputs : List ℕ) :
    WaitsForAll futures inputs ↔ inputs.length < 2 ^ 31 := by
  by_cases hnil : inputs = []
  · subst hnil
    refine iff_of_true ?_ (by simp)
    obtain ⟨hinv, hdue, hheld⟩ := Waiting.ready_inv futures
    refine ⟨.ready futures, if_pos rfl, fun w hw => ?_⟩
    exact Waiting.waitsForAll hinv hdue hheld rfl hw
  · have hpos : 0 < inputs.length := List.length_pos_of_ne_nil hnil
    constructor
    · rintro ⟨w₀, hw₀, hall⟩
      rw [waitAll, if_neg hnil] at hw₀
      obtain ⟨c, hc, rfl⟩ := Option.map_eq_some_iff.mp hw₀
      have hinv₀ : (Waiting.start futures inputs c).Inv inputs := Waiting.start_inv hc
      obtain ⟨w, hreach, hinv, hfin⟩ := Waiting.exists_finished hinv₀ (Waiting.start_free c)
      obtain ⟨-, hdone, hend, hvectors⟩ := hall w hreach
      -- What is delivered in the end has the length of the vectors, and of the inputs.
      have hst := hdone.mpr (hend hfin)
      have hlen := congrArg List.length (hvectors hst).2.1
      rw [(hinv.full hst).1, List.length_map, (Waiting.inv_of_reach hinv₀ hreach).2] at hlen
      exact hlen ▸ (Context.of_make hc).1
    · intro hlt
      obtain ⟨c, hc⟩ := Context.exists_make (R := R) (V := V) hlt
      have hsize : c.size = inputs.length := by
        rw [(Context.of_make hc).2.1, Nat.mod_eq_of_lt (hlt.trans (by decide))]
      refine ⟨.start futures inputs c, ?_, fun w hw => ?_⟩
      · rw [waitAll, if_neg hnil, hc]
        rfl
      · exact Waiting.waitsForAll (Waiting.start_inv hc)
          (Waiting.start_due hc (by omega)) (Waiting.start_held hc) hsize hw

/-- For the first length that an `int` does not hold, no vectors are made: the call throws. -/
theorem waitAll_throws :
    waitAll (fun _ => (none : Option (ℕ × ℕ))) (List.replicate (2 ^ 31) 0) = none ∧
      ¬WaitsForAll (fun _ => (none : Option (ℕ × ℕ))) (List.replicate (2 ^ 31) 0) := by
  have hthrows : waitAll (fun _ => (none : Option (ℕ × ℕ))) (List.replicate (2 ^ 31) 0) = none := by
    have hne : List.replicate (2 ^ 31) 0 ≠ [] := by
      rw [ne_eq, List.replicate_eq_nil_iff]
      decide
    have hmake : (Context.make (2 ^ 31) : Option (Context ℕ ℕ)) = none := by
      rw [Context.make, if_pos (by decide)]
    rw [waitAll, if_neg hne, List.length_replicate, hmake]
    rfl
  refine ⟨hthrows, ?_⟩
  rintro ⟨w₀, hw₀, -⟩
  rw [hthrows] at hw₀
  cases hw₀

/-- When an input was completed: before the call, or at a place of the order. -/
def Waiting.rank (w : Waiting R V) (futures : ℕ → Option (R × V)) (p : ℕ) : ℕ :=
  if (futures p).isSome then 0 else w.order.idxOf p + 1

/-- The inputs `first`, given with their positions, were completed **before the others**. -/
def Waiting.First (w : Waiting R V) (futures : ℕ → Option (R × V)) (inputs : List ℕ)
    (first : List Task) : Prop :=
  first.Subperm (callbacks inputs) ∧ ∀ t ∈ first, ∀ u ∈ callbacks inputs, u ∉ first →
    w.rank futures t.state ≤ w.rank futures u.state

/-- **`waitAnyN` waits for the first `n`.** In every run the promise is completed once the
`n`-th callback has run, and not before, with the results and values of `n` inputs that were
completed before the others; and no callback accesses a slot outside the vectors. -/
def WaitsForFirst (futures : ℕ → Option (R × V)) (inputs : List ℕ) (n : ℕ) : Prop :=
  ∃ w₀, waitAnyN futures inputs n = some w₀ ∧ ∀ w, Reach Waiting.step always w₀ w →
    w.accepted = (if n ≤ w.ran.length then 1 else 0) ∧
    (w.ctx.promise.status = .done ↔ w.accepted = 1) ∧
    (w.ctx.promise.status = .done → ∃ first, w.First futures inputs first ∧ first.length = n ∧
      w.ctx.promise.result.length = n ∧ w.ctx.promise.value.length = n ∧
      (w.ctx.promise.result.zip w.ctx.promise.value).Perm
        (first.map fun t => ((w.heap t.state).result, (w.heap t.state).value))) ∧
    w.outside = false

/-- **With fewer slots than inputs, a callback writes outside the vectors** in some run. -/
theorem Waiting.exists_outside {n : ℕ} {c : Context R V} (hc : Context.make n = some c)
    (hlt : c.size < inputs.length) :
    ∃ w, Reach step always (start futures inputs c) w ∧ w.outside = true := by
  have hinv₀ : (start futures inputs c).Inv inputs := start_inv hc
  obtain ⟨w, hreach, hinv, hfin⟩ := exists_finished hinv₀ (start_free c)
  refine ⟨w, hreach, hinv.outside.mpr ⟨⟨c.size, inputs[c.size], .thenVoid⟩, ?_, ?_⟩⟩
  · rw [(hfin.perm hinv).mem_iff, callbacks, List.mem_mapIdx]
    exact ⟨c.size, hlt, rfl⟩
  · exact (inv_of_reach hinv₀ hreach).2.le

/-- **`waitAnyN` delivers exactly when it is to wait for all of its inputs**, fewer than
`2 ^ 31`. -/
theorem waitAnyN_iff (futures : ℕ → Option (R × V)) (inputs : List ℕ) {n : ℕ} (hpos : 1 ≤ n)
    (hle : n ≤ inputs.length) :
    WaitsForFirst futures inputs n ↔ n = inputs.length ∧ n < 2 ^ 31 := by
  have hnil : ¬(inputs = [] ∨ n = 0) := by
    rintro (rfl | rfl)
    · rw [List.length_nil] at hle
      omega
    · omega
  constructor
  · rintro ⟨w₀, hw₀, hall⟩
    rw [waitAnyN, if_neg hnil] at hw₀
    obtain ⟨c, hc, rfl⟩ := Option.map_eq_some_iff.mp hw₀
    obtain ⟨hsmall, hsize, -⟩ := Context.of_make hc
    have hfull : inputs.length ≤ c.size := by
      by_contra hlt
      obtain ⟨w, hreach, hout⟩ : ∃ w, Reach Waiting.step always (.start futures inputs c) w ∧
          w.outside = true := Waiting.exists_outside hc (Nat.lt_of_not_le hlt)
      rw [(hall w hreach).2.2.2] at hout
      cases hout
    have hmod := Nat.mod_le n (2 ^ 32)
    omega
  · rintro ⟨rfl, hlt⟩
    obtain ⟨c, hc⟩ := Context.exists_make (R := R) (V := V) hlt
    have hsize : c.size = inputs.length := by
      rw [(Context.of_make hc).2.1, Nat.mod_eq_of_lt (hlt.trans (by decide))]
    have hinv₀ : (Waiting.start futures inputs c).Inv inputs := Waiting.start_inv hc
    have hdue₀ : (Waiting.start futures inputs c).Due := Waiting.start_due hc (by omega)
    refine ⟨.start futures inputs c, ?_, fun w hw => ?_⟩
    · rw [waitAnyN, if_neg hnil, hc]
      rfl
    obtain ⟨hinv, hsize'⟩ := Waiting.inv_of_reach hinv₀ hw
    replace hsize' : w.ctx.size = inputs.length := hsize'.trans hsize
    have hdue := Waiting.due_of_reach hinv₀ hdue₀ hw
    obtain ⟨-, hdone, -, hvectors⟩ :=
      Waiting.waitsForAll hinv₀ hdue₀ (Waiting.start_held hc) hsize hw
    refine ⟨?_, hdone, fun hst => ?_, ?_⟩
    · rw [hdue.accepted, hsize', hinv.counted]
    · obtain ⟨-, hresult, hvalue⟩ := hvectors hst
      refine ⟨callbacks inputs, ⟨List.Subperm.refl _, fun _ _ u hu hnot => absurd hu hnot⟩,
        length_callbacks inputs, ?_, ?_, ?_⟩
      · rw [hresult, List.length_map]
      · rw [hvalue, List.length_map]
      · have hmap := congrArg (List.map fun p => ((w.heap p).result, (w.heap p).value))
          (map_state_callbacks inputs)
        rw [List.map_map] at hmap
        rw [hresult, hvalue, List.zip_map', ← hmap]
        exact .refl _
    · -- Every position has a slot.
      refine eq_false_of_ne_true fun hout => ?_
      obtain ⟨t, ht, hle⟩ := hinv.outside.mp hout
      have hcall := hinv.mem_callbacks (.inr ht)
      obtain ⟨hlt', -⟩ := List.getElem?_eq_some_iff.mp (mem_callbacks hcall)
      omega

/-- Two inputs are waited for. -/
theorem waitAnyN_two : WaitsForFirst (fun _ => (none : Option (ℕ × ℕ))) [0, 1] 2 :=
  (waitAnyN_iff _ [0, 1] (by decide) (by decide)).mpr ⟨rfl, by decide⟩

/-- Of two inputs the second is the first to complete, with result 1 and value 10. Its callback
has no slot, and the promise holds the default result and value. -/
theorem waitAnyN_one_of_two :
    ∃ w₀ w : Waiting ℕ ℕ, waitAnyN (fun _ => none) [0, 1] 1 = some w₀ ∧
      Reach Waiting.step always w₀ w ∧ w.order = [1] ∧ w.outside = true ∧
      w.ctx.promise.status = .done ∧ w.ctx.promise.result = [0] ∧ w.ctx.promise.value = [0] ∧
      ¬WaitsForFirst (fun _ => (none : Option (ℕ × ℕ))) [0, 1] 1 := by
  have hstart : ∃ w₀ : Waiting ℕ ℕ, waitAnyN (fun _ => none) [0, 1] 1 = some w₀ ∧
      ∃ w, Reach Waiting.step always w₀ w ∧ w.order = [1] ∧ w.outside = true ∧
        w.ctx.promise.status = .done ∧ w.ctx.promise.result = [0] ∧
        w.ctx.promise.value = [0] := by
    refine ⟨_, rfl, ?_⟩
    exact Reach.exists_of_exec [.thenVoid, .thenVoid, .setValue 1 1 10, .run 0] (by decide)
  obtain ⟨w₀, hw₀, w, hreach, horder, hout, hst, hresult, hvalue⟩ := hstart
  refine ⟨w₀, w, hw₀, hreach, horder, hout, hst, hresult, hvalue, ?_⟩
  rintro ⟨w₀', hw₀', hall⟩
  obtain rfl : w₀ = w₀' := Option.some.inj (hw₀.symm.trans hw₀')
  have hinside := (hall w hreach).2.2.2
  rw [hout] at hinside
  cases hinside

end Calls

end ArchNet.Future
