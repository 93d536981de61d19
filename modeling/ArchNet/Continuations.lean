import ArchNet.FutureLocks

/-!
# Continuations

`then` and `thenVoid` make a promise that follows another one. Its continuation waits in the
list of the first state, becomes a task of the pool when that state is completed, and completes
the new promise after its callback. This module follows each continuation from its registration
to its end, through all the timeouts that may come between.

## Conventions

* A continuation is named by its `Task`: the new promise, the state it follows, the kind. The
  new promise is a new index, so no two continuations are the same task.
* A run is recorded (`Recorded`): beside the system it carries the continuations made so far and
  the callbacks that have run. The record does not influence the steps.

## Main results

* `Accounted.step`: **each continuation is in exactly one place** — registered with a pending
  state, a task of the pool, or ended — and every step that times out no state with registered
  continuations moves it along that path.
* `no_orphans`: **in every run of such steps no continuation is left behind.**
-/

open Lts

namespace ArchNet.Future

variable {R V : Type}

/-! ### Runs with a record -/

/-- The status of the state behind a handle. -/
def status (s : System R V) (p : ℕ) : Option FutureStatus := (s.heap[p]?).map SharedState.status

/-- The continuations registered with a state. -/
def registered (s : System R V) (p : ℕ) : List Task :=
  ((s.heap[p]?).map SharedState.thenCallback).getD []

/-- The system, the continuations made so far, the callbacks that have run. -/
structure Recorded (R V : Type) where
  system : System R V
  derived : List Task
  called : List Task
  deriving DecidableEq, Repr

/-- The continuation that a step makes. -/
def derives (s : System R V) : Action R V → List Task
  | .continueWith p kind => [⟨s.heap.length, p, kind⟩]
  | _ => []

/-- The callback that a step runs. -/
def calls (s : System R V) : Action R V → List Task
  | .task i _ _ =>
      match s.tasks[i]? with
      | some (t, .calling) => [t]
      | _ => []
  | _ => []

/-- One step, recorded. -/
def recordStep [Inhabited R] [Inhabited V] (h : Recorded R V) (a : Action R V) :
    Option (Recorded R V) :=
  (step h.system a).map fun s =>
    ⟨s, h.derived ++ derives h.system a, h.called ++ calls h.system a⟩

/-- The recorded system at its start. -/
def recordInit [Inhabited R] [Inhabited V] : Recorded R V := ⟨init, [], []⟩

/-- The step **times out no state that has continuations registered**. -/
def sparesRegistered (h : Recorded R V) (a : Action R V) : Bool :=
  match timesOut h.system a with
  | some p => (registered h.system p).isEmpty
  | none => true

/-- What is due to a continuation whose parent is no longer pending, once no task is left. -/
structure Settled (h : Recorded R V) (d : Task) : Prop where
  ended : status h.system d.promise = some .done ∨ status h.system d.promise = some .timeout
  atMostOnce : h.called.count d ≤ 1
  exactlyOnce : accepted h.system d.state ≠ 0 → status h.system d.state ≠ some .timeout →
    status h.system d.promise ≠ some .timeout → h.called.count d = 1

/-- **No continuation is left behind.** -/
def NoOrphans (h : Recorded R V) : Prop :=
  h.system.tasks = [] → ∀ d ∈ h.derived, status h.system d.state ≠ some .none → Settled h d

/-! ### Where a continuation is -/

/-- How often a task has run its callback by the time it is at `pc`. -/
def TaskPc.callbacksRun : TaskPc R V → ℕ
  | .start | .timingOut | .checking | .calling => 0
  | .returned | .setting _ _ => 1

/-- Where the tasks of a continuation are. -/
def pcsOf (d : Task) (tasks : List (Task × TaskPc R V)) : List (TaskPc R V) :=
  tasks.filterMap fun t => if t.1 = d then some t.2 else none

/-- How a continuation can have ended, with its callback run `k` times. -/
def Ended (s : System R V) (k : ℕ) (d : Task) : Prop :=
  status s d.promise = some .done ∧ k = 1 ∨ status s d.promise = some .timeout ∧ k ≤ 1

/-- **The place of a continuation** whose callback has run `k` times. -/
inductive Place (s : System R V) (k : ℕ) (d : Task) : Prop
  | waiting (hparent : status s d.state = some .none)
      (hwaits : (registered s d.state).count d = 1) (hpcs : pcsOf d s.tasks = []) (hk : k = 0)
  | queued (pc : TaskPc R V) (hwaits : (registered s d.state).count d = 0)
      (hpcs : pcsOf d s.tasks = [pc]) (hk : k = pc.callbacksRun)
  | ended (hwaits : (registered s d.state).count d = 0) (hpcs : pcsOf d s.tasks = [])
      (hended : Ended s k d)

/-- The continuations of a system all are among those made so far. -/
structure Filed (s : System R V) (derived : List Task) : Prop where
  waiting : ∀ {p : ℕ} {d : Task}, d ∈ registered s p → d.state = p ∧ d ∈ derived
  tasks : ∀ {t : Task × TaskPc R V}, t ∈ s.tasks → t.1 ∈ derived
  lt : ∀ {d : Task}, d ∈ derived → d.promise < s.heap.length

/-- **The account of a recorded run.** -/
structure Accounted (h : Recorded R V) : Prop where
  filed : Filed h.system h.derived
  called : ∀ {d : Task}, d ∈ h.called → d ∈ h.derived
  place : ∀ {d : Task}, d ∈ h.derived → Place h.system (h.called.count d) d

@[simp] theorem pcsOf_nil (d : Task) : pcsOf d ([] : List (Task × TaskPc R V)) = [] := rfl

@[simp] theorem pcsOf_append (d : Task) (l₁ l₂ : List (Task × TaskPc R V)) :
    pcsOf d (l₁ ++ l₂) = pcsOf d l₁ ++ pcsOf d l₂ :=
  List.filterMap_append

theorem pcsOf_cons_self (d : Task) (pc : TaskPc R V) (l : List (Task × TaskPc R V)) :
    pcsOf d ((d, pc) :: l) = pc :: pcsOf d l :=
  List.filterMap_cons_some (if_pos rfl)

theorem pcsOf_cons_ne {d t : Task} (h : t ≠ d) (pc : TaskPc R V)
    (l : List (Task × TaskPc R V)) : pcsOf d ((t, pc) :: l) = pcsOf d l :=
  List.filterMap_cons_none (if_neg h)

/-- New tasks at their start: one for each time the continuation is among them. -/
theorem pcsOf_map_start (d : Task) (l : List Task) :
    pcsOf d (l.map fun t => (t, (.start : TaskPc R V))) = List.replicate (l.count d) .start := by
  induction l with
  | nil => rfl
  | cons t l ih =>
      rw [List.map_cons]
      rcases eq_or_ne t d with rfl | hne
      · rw [pcsOf_cons_self, ih, List.count_cons_self, List.replicate_succ]
      · rw [pcsOf_cons_ne hne, ih, List.count_cons_of_ne hne]

/-- A continuation without a task of its own has none at all. -/
theorem pcsOf_eq_nil {d : Task} {tasks : List (Task × TaskPc R V)}
    (h : ∀ t ∈ tasks, t.1 ≠ d) : pcsOf d tasks = [] := by
  rw [pcsOf, List.filterMap_eq_nil_iff]
  intro t ht
  exact if_neg (h t ht)

/-- The tasks before and after the `i`-th one. -/
theorem exists_split {α : Type} {l : List α} {i : ℕ} {x : α} (h : l[i]? = some x) :
    ∃ l₁ l₂, l = l₁ ++ x :: l₂ ∧ (∀ y, l.set i y = l₁ ++ y :: l₂) ∧
      l.eraseIdx i = l₁ ++ l₂ := by
  obtain ⟨hlt, rfl⟩ := List.getElem?_eq_some_iff.mp h
  refine ⟨l.take i, l.drop (i + 1), ?_, ?_, ?_⟩
  · rw [List.getElem_cons_drop, List.take_append_drop]
  · intro y
    rw [List.set_eq_take_append_cons_drop, if_pos hlt]
  · exact List.eraseIdx_eq_take_drop_succ l i

/-! ### What a change of the heap does to statuses and registrations -/

/-- One state is replaced. -/
theorem status_of_set {s s' : System R V} {p : ℕ} {st st' : SharedState R V}
    (hst : s.heap[p]? = some st) (hheap : s'.heap = s.heap.set p st') (q : ℕ) :
    status s' q = if p = q then some st'.status else status s q := by
  have hlt := (List.getElem?_eq_some_iff.mp hst).1
  rw [status, hheap, List.getElem?_set]
  split_ifs <;> rfl

theorem registered_of_set {s s' : System R V} {p : ℕ} {st st' : SharedState R V}
    (hst : s.heap[p]? = some st) (hheap : s'.heap = s.heap.set p st') (q : ℕ) :
    registered s' q = if p = q then st'.thenCallback else registered s q := by
  have hlt := (List.getElem?_eq_some_iff.mp hst).1
  rw [registered, hheap, List.getElem?_set]
  split_ifs <;> rfl

/-- One state is appended. -/
theorem status_of_append {s s' : System R V} {new : SharedState R V}
    (hheap : s'.heap = s.heap ++ [new]) (q : ℕ) :
    status s' q = if q = s.heap.length then some new.status else status s q := by
  rw [status, hheap]
  rcases Nat.lt_trichotomy q s.heap.length with hlt | rfl | hgt
  · rw [List.getElem?_append_left hlt, if_neg (Nat.ne_of_lt hlt), status]
  · rw [List.getElem?_concat_length, if_pos rfl, Option.map_some]
  · have hout : (s.heap ++ [new]).length ≤ q := by simpa using Nat.succ_le_of_lt hgt
    rw [if_neg (Nat.ne_of_gt hgt), status, List.getElem?_eq_none hout,
      List.getElem?_eq_none (Nat.le_of_lt hgt)]

/-- A state appended without continuations adds none. -/
theorem registered_of_append {s s' : System R V} {new : SharedState R V}
    (hheap : s'.heap = s.heap ++ [new]) (hnew : new.thenCallback = []) (q : ℕ) :
    registered s' q = registered s q := by
  rw [registered, hheap]
  rcases Nat.lt_trichotomy q s.heap.length with hlt | rfl | hgt
  · rw [List.getElem?_append_left hlt, registered]
  · rw [List.getElem?_concat_length, registered, List.getElem?_eq_none (Nat.le_refl _)]
    exact hnew
  · have hout : (s.heap ++ [new]).length ≤ q := by simpa using Nat.succ_le_of_lt hgt
    rw [registered, List.getElem?_eq_none hout, List.getElem?_eq_none (Nat.le_of_lt hgt)]

/-- A continuation that follows another state is not registered here. -/
theorem Filed.count_eq_zero {s : System R V} {derived : List Task} (h : Filed s derived)
    {p : ℕ} {d : Task} (hne : d.state ≠ p) : (registered s p).count d = 0 :=
  List.count_eq_zero_of_not_mem fun hmem => hne (h.waiting hmem).1

/-- Continuations only move from the states to the tasks. -/
theorem Filed.frame {s s' : System R V} {derived : List Task} (h : Filed s derived)
    (hreg : ∀ {q : ℕ} {d : Task}, d ∈ registered s' q → d ∈ registered s q)
    (htasks : ∀ {t : Task × TaskPc R V}, t ∈ s'.tasks →
      (∃ u ∈ s.tasks, u.1 = t.1) ∨ ∃ q, t.1 ∈ registered s q)
    (hlen : s.heap.length ≤ s'.heap.length) : Filed s' derived where
  waiting hmem := h.waiting (hreg hmem)
  tasks hmem := by
    rcases htasks hmem with ⟨u, hu, heq⟩ | ⟨q, hq⟩
    · exact heq ▸ h.tasks hu
    · exact (h.waiting hq).2
  lt hd := Nat.lt_of_lt_of_le (h.lt hd) hlen

/-- A step that leaves a continuation where it is. -/
theorem Place.frame {s s' : System R V} {k : ℕ} {d : Task} (h : Place s k d)
    (hwaits : (registered s' d.state).count d = (registered s d.state).count d)
    (hpcs : pcsOf d s'.tasks = pcsOf d s.tasks)
    (hparent : (registered s d.state).count d = 1 → status s d.state = some .none →
      status s' d.state = some .none)
    (hended : Ended s k d → Ended s' k d) : Place s' k d := by
  cases h with
  | waiting h₁ h₂ h₃ h₄ =>
      exact .waiting (hparent h₂ h₁) (hwaits.trans h₂) (hpcs.trans h₃) h₄
  | queued pc h₁ h₂ h₃ => exact .queued pc (hwaits.trans h₁) (hpcs.trans h₂) h₃
  | ended h₁ h₂ h₃ => exact .ended (hwaits.trans h₁) (hpcs.trans h₂) (hended h₃)

/-- Entering `get` and waking up in it touch no task. -/
theorem System.get_tasks {s s' : System R V} {p : ℕ} {timed : Bool}
    (h : s.get p timed = some s') : s'.tasks = s.tasks := by
  simp only [get, Option.bind_eq_bind, Option.bind_eq_some_iff] at h
  obtain ⟨st, -, h⟩ := h
  split_ifs at h <;> exact (Option.some.inj h) ▸ rfl

theorem System.wake_tasks {s s' : System R V} {i : ℕ} (h : s.wake i = some s') :
    s'.tasks = s.tasks := by
  simp only [wake, Option.bind_eq_bind, Option.bind_eq_some_iff] at h
  obtain ⟨w, -, st, -, h⟩ := h
  split_ifs at h <;> exact (Option.some.inj h) ▸ rfl

/-! ### Completion and timeout -/

/-- A completed state hands its continuations to the pool. -/
theorem Place.completes {s s' : System R V} {derived : List Task} {p k : ℕ} {d : Task}
    {st st' : SharedState R V} (h : Place s k d) (hfiled : Filed s derived)
    (hst : s.heap[p]? = some st) (hpending : st.status = .none)
    (hheap : s'.heap = s.heap.set p st') (hcallback : st'.thenCallback = [])
    (htasks : s'.tasks = s.tasks ++ st.thenCallback.map fun t => (t, .start)) :
    Place s' k d := by
  have hreg : registered s p = st.thenCallback := by
    rw [registered, hst]
    rfl
  have hpcs : pcsOf d s'.tasks =
      pcsOf d s.tasks ++ List.replicate ((registered s p).count d) .start := by
    rw [htasks, pcsOf_append, pcsOf_map_start, hreg]
  have hended : Ended s k d → Ended s' k d := by
    have hne : p = d.promise → ¬ Ended s k d := by
      rintro rfl
      simp [Ended, status, hst, hpending]
    intro hended
    rwa [Ended, status_of_set hst hheap, if_neg fun heq => hne heq hended]
  by_cases hstate : p = d.state
  · subst hstate
    have hwaits : (registered s' d.state).count d = 0 := by
      rw [registered_of_set hst hheap, if_pos rfl, hcallback, List.count_nil]
    cases h with
    | waiting h₁ h₂ h₃ h₄ =>
        refine .queued .start hwaits ?_ h₄
        rw [hpcs, h₂, h₃]
        rfl
    | queued pc h₁ h₂ h₃ =>
        refine .queued pc hwaits ?_ h₃
        rw [hpcs, h₁, h₂]
        rfl
    | ended h₁ h₂ h₃ =>
        refine .ended hwaits ?_ (hended h₃)
        rw [hpcs, h₁, h₂]
        rfl
  · refine h.frame ?_ ?_ ?_ hended
    · rw [registered_of_set hst hheap, if_neg hstate]
    · rw [hpcs, hfiled.count_eq_zero (Ne.symm hstate), List.replicate_zero, List.append_nil]
    · intro _ hparent
      rw [status_of_set hst hheap, if_neg hstate, hparent]

/-- A timeout of a state without continuations moves none. -/
theorem Place.timesOut {s s' : System R V} {p k : ℕ} {d : Task} {st st' : SharedState R V}
    (h : Place s k d) (hst : s.heap[p]? = some st) (hheap : s'.heap = s.heap.set p st')
    (htimeout : st'.status = .timeout) (hcallback : st'.thenCallback = st.thenCallback)
    (htasks : s'.tasks = s.tasks) (hspares : registered s p = []) : Place s' k d := by
  have hreg : st.thenCallback = registered s p := by
    rw [registered, hst]
    rfl
  refine h.frame ?_ (by rw [htasks]) ?_ ?_
  · rw [registered_of_set hst hheap, hcallback, hreg]
    split_ifs with heq
    · rw [heq]
    · rfl
  · intro hwaits hparent
    rw [status_of_set hst hheap, if_neg, hparent]
    rintro rfl
    rw [hspares, List.count_nil] at hwaits
    omega
  · intro hended
    rw [Ended, status_of_set hst hheap, htimeout]
    split_ifs
    · refine .inr ⟨rfl, ?_⟩
      rcases hended with ⟨-, hk⟩ | ⟨-, hk⟩ <;> omega
    · exact hended

/-- `setValue` keeps every continuation accounted for. -/
theorem System.setValue_place {s s' : System R V} {derived : List Task} {p k : ℕ} {d : Task}
    {r : R} {v : V} (hs : s.setValue p r v = some s') (hfiled : Filed s derived)
    (h : Place s k d) : Place s' k d := by
  simp only [setValue, Option.bind_eq_bind, Option.bind_eq_some_iff, Option.pure_def,
    Option.some.injEq] at hs
  obtain ⟨st, hst, rfl⟩ := hs
  have hget := heap_of_acquire hst
  by_cases hpending : st.status = .none
  · simp only [SharedState.setValue, hpending, ne_eq, not_true_eq_false, if_false]
    exact h.completes hfiled hget hpending rfl rfl rfl
  · simp only [SharedState.setValue, hpending, ne_eq, not_false_eq_true, if_true, List.map_nil,
      List.append_nil]
    have hreg : ∀ q, registered (s.put p { st with locked := true }) q = registered s q := by
      intro q
      rw [registered_of_set hget rfl]
      split_ifs with heq
      · rw [registered, ← heq, hget]
        rfl
      · rfl
    have hstatus : ∀ q, status (s.put p { st with locked := true }) q = status s q := by
      intro q
      rw [status_of_set hget rfl]
      split_ifs with heq
      · rw [status, ← heq, hget]
        rfl
      · rfl
    refine h.frame ?_ rfl ?_ ?_
    · exact congrArg (List.count d) (hreg _)
    · intro _ hparent
      exact (hstatus _).trans hparent
    · intro hended
      have hpromise := hstatus d.promise
      rw [Ended, ← hpromise] at hended
      exact hended

/-- After `setValue` the state is no longer pending. -/
theorem System.setValue_status {s s' : System R V} {p : ℕ} {r : R} {v : V}
    (hs : s.setValue p r v = some s') :
    status s' p = some .done ∨ status s' p = some .timeout := by
  simp only [setValue, Option.bind_eq_bind, Option.bind_eq_some_iff, Option.pure_def,
    Option.some.injEq] at hs
  obtain ⟨st, hst, rfl⟩ := hs
  have hstatus : (st.setValue r v).1.status = .done ∨ (st.setValue r v).1.status = .timeout := by
    cases h : st.status <;> simp [SharedState.setValue, h]
  refine hstatus.imp ?_ ?_
  · intro h
    exact (status_of_set (heap_of_acquire hst) rfl p).trans (by rw [if_pos rfl, h])
  · intro h
    exact (status_of_set (heap_of_acquire hst) rfl p).trans (by rw [if_pos rfl, h])

/-- `setValue` makes tasks of registered continuations only. -/
theorem System.setValue_filed {s s' : System R V} {derived : List Task} {p : ℕ} {r : R} {v : V}
    (hs : s.setValue p r v = some s') (h : Filed s derived) : Filed s' derived := by
  simp only [setValue, Option.bind_eq_bind, Option.bind_eq_some_iff, Option.pure_def,
    Option.some.injEq] at hs
  obtain ⟨st, hst, rfl⟩ := hs
  have hget := heap_of_acquire hst
  have hsub : ∀ {d}, d ∈ (st.setValue r v).1.thenCallback ∨ d ∈ (st.setValue r v).2.1 →
      d ∈ registered s p := by
    intro d
    by_cases hpending : st.status = .none <;>
      simp [SharedState.setValue, hpending, registered, hget]
  refine h.frame ?_ ?_ ?_
  · intro q d hd
    have heq := @registered_of_set R V s (s.put p (st.setValue r v).1) p st _ hget rfl q
    have hd' : d ∈ registered (s.put p (st.setValue r v).1) q := hd
    rw [heq] at hd'
    split_ifs at hd' with hpq
    · exact hpq ▸ hsub (.inl hd')
    · exact hd'
  · intro t ht
    rcases List.mem_append.mp ht with ht | ht
    · exact .inl ⟨t, ht, rfl⟩
    · obtain ⟨d, hd, rfl⟩ := List.mem_map.mp ht
      exact .inr ⟨p, hsub (.inr hd)⟩
  · exact Nat.le_of_eq List.length_set.symm

/-- `setTimeout` of a state without continuations. -/
theorem System.setTimeout_place [Inhabited R] [Inhabited V] {s s' : System R V} {p k : ℕ}
    {d : Task} (hs : s.setTimeout p = some s') (hspares : registered s p = [])
    (h : Place s k d) : Place s' k d := by
  simp only [setTimeout, Option.bind_eq_bind, Option.bind_eq_some_iff] at hs
  obtain ⟨st, hst, hs⟩ := hs
  obtain rfl := Option.some.inj hs
  exact h.timesOut (heap_of_acquire hst) rfl rfl rfl rfl hspares

/-- After `setTimeout` the state has timed out. -/
theorem System.setTimeout_status [Inhabited R] [Inhabited V] {s s' : System R V} {p : ℕ}
    (hs : s.setTimeout p = some s') : status s' p = some .timeout := by
  simp only [setTimeout, Option.bind_eq_bind, Option.bind_eq_some_iff] at hs
  obtain ⟨st, hst, hs⟩ := hs
  obtain rfl := Option.some.inj hs
  exact (status_of_set (heap_of_acquire hst) rfl p).trans (if_pos rfl)

/-- A timeout moves no continuation to the tasks. -/
theorem Filed.timesOut {s s' : System R V} {derived : List Task} {p : ℕ}
    {st st' : SharedState R V} (h : Filed s derived) (hst : s.heap[p]? = some st)
    (hheap : s'.heap = s.heap.set p st') (hcallback : st'.thenCallback = st.thenCallback)
    (htasks : s'.tasks = s.tasks) : Filed s' derived := by
  refine h.frame ?_ ?_ ?_
  · intro q d hd
    rw [registered_of_set hst hheap, hcallback] at hd
    split_ifs at hd with hpq
    · rwa [← hpq, registered, hst]
    · exact hd
  · intro t ht
    rw [htasks] at ht
    exact .inl ⟨t, ht, rfl⟩
  · rw [hheap]
    exact Nat.le_of_eq List.length_set.symm

theorem System.setTimeout_filed [Inhabited R] [Inhabited V] {s s' : System R V}
    {derived : List Task} {p : ℕ} (hs : s.setTimeout p = some s') (h : Filed s derived) :
    Filed s' derived := by
  simp only [setTimeout, Option.bind_eq_bind, Option.bind_eq_some_iff] at hs
  obtain ⟨st, hst, hs⟩ := hs
  obtain rfl := Option.some.inj hs
  exact h.timesOut (heap_of_acquire hst) rfl rfl rfl

/-- `setTimeout` and `setValue` leave the present tasks in front. -/
theorem System.setTimeout_tasks [Inhabited R] [Inhabited V] {s s' : System R V} {p : ℕ}
    (hs : s.setTimeout p = some s') : s'.tasks = s.tasks := by
  simp only [setTimeout, Option.bind_eq_bind, Option.bind_eq_some_iff] at hs
  obtain ⟨st, hst, hs⟩ := hs
  obtain rfl := Option.some.inj hs
  rfl

theorem System.setValue_tasks {s s' : System R V} {p : ℕ} {r : R} {v : V}
    (hs : s.setValue p r v = some s') : ∃ new, s'.tasks = s.tasks ++ new := by
  simp only [setValue, Option.bind_eq_bind, Option.bind_eq_some_iff, Option.pure_def,
    Option.some.injEq] at hs
  obtain ⟨st, hst, rfl⟩ := hs
  exact ⟨_, rfl⟩

/-! ### The tasks -/

/-- A continuation with a task is that task's, and has no other. -/
theorem Place.of_task {s : System R V} {k : ℕ} {d : Task} {pc : TaskPc R V}
    {l₁ l₂ : List (Task × TaskPc R V)} (h : Place s k d) (htasks : s.tasks = l₁ ++ (d, pc) :: l₂) :
    (registered s d.state).count d = 0 ∧ pcsOf d l₁ = [] ∧ pcsOf d l₂ = [] ∧
      k = pc.callbacksRun := by
  have hpcs : pcsOf d s.tasks = pcsOf d l₁ ++ pc :: pcsOf d l₂ := by
    rw [htasks, pcsOf_append, pcsOf_cons_self]
  cases h with
  | waiting h₁ h₂ h₃ h₄ =>
      rw [hpcs] at h₃
      simp at h₃
  | queued pc' h₁ h₂ h₃ =>
      rw [hpcs, List.append_eq_singleton_iff] at h₂
      rcases h₂ with ⟨hl₁, hl₂⟩ | ⟨hl₁, hl₂⟩
      · obtain ⟨rfl, hnil⟩ := List.cons_eq_cons.mp hl₂
        exact ⟨h₁, hl₁, hnil, h₃⟩
      · cases hl₂
  | ended h₁ h₂ h₃ =>
      rw [hpcs] at h₂
      simp at h₂

/-- A task moves on. -/
theorem Place.advance {s : System R V} {k k' i : ℕ} {d t : Task} {pc pc' : TaskPc R V}
    (h : Place s k d) (htask : s.tasks[i]? = some (t, pc)) (hother : t ≠ d → k' = k)
    (hk : t = d → pc.callbacksRun = k → pc'.callbacksRun = k') :
    Place (s.advance i t pc') k' d := by
  obtain ⟨l₁, l₂, htasks, hset, -⟩ := exists_split htask
  have htasks' : (s.advance i t pc').tasks = l₁ ++ (t, pc') :: l₂ := hset _
  rcases eq_or_ne t d with rfl | hne
  · obtain ⟨hwaits, hl₁, hl₂, hrun⟩ := h.of_task htasks
    refine .queued pc' hwaits ?_ (hk rfl hrun.symm).symm
    rw [htasks', pcsOf_append, pcsOf_cons_self, hl₁, hl₂]
    rfl
  · rw [hother hne]
    refine h.frame rfl ?_ (fun _ hparent => hparent) fun hended => hended
    rw [htasks', htasks, pcsOf_append, pcsOf_append, pcsOf_cons_ne hne, pcsOf_cons_ne hne]

/-- A task ends. -/
theorem Place.endTask {s : System R V} {k i : ℕ} {d t : Task} {pc : TaskPc R V}
    (h : Place s k d) (htask : s.tasks[i]? = some (t, pc))
    (hended : t = d → k = pc.callbacksRun → Ended s k d) : Place (s.endTask i) k d := by
  obtain ⟨l₁, l₂, htasks, -, herase⟩ := exists_split htask
  have htasks' : (s.endTask i).tasks = l₁ ++ l₂ := herase
  rcases eq_or_ne t d with rfl | hne
  · obtain ⟨hwaits, hl₁, hl₂, hrun⟩ := h.of_task htasks
    refine .ended hwaits ?_ (hended rfl hrun)
    rw [htasks', pcsOf_append, hl₁, hl₂]
    rfl
  · refine h.frame rfl ?_ (fun _ hparent => hparent) fun hended => hended
    rw [htasks', htasks, pcsOf_append, pcsOf_append, pcsOf_cons_ne hne]

/-- The tasks of a step are tasks it has found. -/
theorem Filed.advance {s : System R V} {derived : List Task} {i : ℕ} {t : Task}
    {pc : TaskPc R V} (h : Filed s derived) (htask : s.tasks[i]? = some (t, pc))
    (pc' : TaskPc R V) : Filed (s.advance i t pc') derived := by
  refine h.frame (fun hd => hd) ?_ (Nat.le_refl _)
  intro u hu
  rcases List.mem_or_eq_of_mem_set hu with hu | rfl
  · exact .inl ⟨u, hu, rfl⟩
  · exact .inl ⟨_, List.mem_of_getElem? htask, rfl⟩

theorem Filed.endTask {s : System R V} {derived : List Task} (h : Filed s derived) (i : ℕ) :
    Filed (s.endTask i) derived := by
  refine h.frame (fun hd => hd) ?_ (Nat.le_refl _)
  intro u hu
  exact .inl ⟨u, List.mem_of_mem_eraseIdx hu, rfl⟩

section Runs

variable [Inhabited R] [Inhabited V]

/-- Each task's step keeps its own and every other continuation accounted for. -/
theorem System.runTask_place {s s' : System R V} {derived called : List Task} {i : ℕ} {r : R}
    {v : V} {d : Task} (hs : s.runTask i r v = some s') (hfiled : Filed s derived)
    (hspares : ∀ p, timesOut s (.task i r v) = some p → registered s p = [])
    (h : Place s (called.count d) d) :
    Place s' ((called ++ calls s (.task i r v)).count d) d := by
  simp only [runTask, Option.bind_eq_bind, Option.bind_eq_some_iff] at hs
  obtain ⟨⟨t, pc⟩, htask, hs⟩ := hs
  cases pc with
  | start =>
      rw [calls, htask, List.append_nil]
      simp only [Option.bind_eq_some_iff] at hs
      obtain ⟨st, -, hs⟩ := hs
      obtain rfl := Option.some.inj hs
      refine h.advance htask (fun _ => rfl) ?_
      intro _ hk
      rw [← hk]
      split_ifs <;> rfl
  | timingOut =>
      rw [calls, htask, List.append_nil]
      simp only [Option.bind_eq_some_iff] at hs
      obtain ⟨s₁, hs₁, hs⟩ := hs
      obtain rfl := Option.some.inj hs
      have hpromise : registered s t.promise = [] := hspares _ (by rw [timesOut, htask]; rfl)
      have htask₁ : s₁.tasks[i]? = some (t, .timingOut) := by rw [setTimeout_tasks hs₁, htask]
      refine (setTimeout_place hs₁ hpromise h).endTask htask₁ ?_
      rintro rfl hk
      exact .inr ⟨setTimeout_status hs₁, Nat.le_trans (Nat.le_of_eq hk) (Nat.zero_le 1)⟩
  | checking =>
      rw [calls, htask, List.append_nil]
      simp only [Option.bind_eq_some_iff] at hs
      obtain ⟨st, hst, hs⟩ := hs
      obtain rfl := Option.some.inj hs
      split_ifs with htimeout
      · refine h.endTask htask ?_
        rintro rfl hk
        refine .inr ⟨?_, Nat.le_trans (Nat.le_of_eq hk) (Nat.zero_le 1)⟩
        rw [status, heap_of_acquire hst, Option.map_some, htimeout]
      · exact h.advance htask (fun _ => rfl) fun _ hk => hk
  | calling =>
      obtain rfl := Option.some.inj hs
      have hcalls : calls s (.task i r v) = [t] := by rw [calls, htask]
      rw [hcalls, List.count_append]
      refine h.advance htask ?_ ?_
      · intro hne
        rw [List.count_singleton, if_neg (by simpa using hne), Nat.add_zero]
      · rintro rfl hk
        rw [List.count_singleton_self, ← hk]
        split_ifs <;> rfl
  | returned =>
      rw [calls, htask, List.append_nil]
      simp only [Option.bind_eq_some_iff] at hs
      obtain ⟨st, -, hs⟩ := hs
      obtain rfl := Option.some.inj hs
      exact h.advance htask (fun _ => rfl) fun _ hk => hk
  | setting r' v' =>
      rw [calls, htask, List.append_nil]
      simp only [Option.bind_eq_some_iff] at hs
      obtain ⟨s₁, hs₁, hs⟩ := hs
      obtain rfl := Option.some.inj hs
      obtain ⟨new, hnew⟩ := setValue_tasks hs₁
      have htask₁ : s₁.tasks[i]? = some (t, .setting r' v') := by
        rw [hnew, List.getElem?_append_left (List.getElem?_eq_some_iff.mp htask).1, htask]
      refine (setValue_place hs₁ hfiled h).endTask htask₁ ?_
      rintro rfl hk
      rcases setValue_status hs₁ with hdone | htimeout
      · exact .inl ⟨hdone, hk⟩
      · exact .inr ⟨htimeout, Nat.le_of_eq hk⟩

theorem System.runTask_filed {s s' : System R V} {derived : List Task} {i : ℕ} {r : R} {v : V}
    (hs : s.runTask i r v = some s') (h : Filed s derived) : Filed s' derived := by
  simp only [runTask, Option.bind_eq_bind, Option.bind_eq_some_iff] at hs
  obtain ⟨⟨t, pc⟩, htask, hs⟩ := hs
  cases pc with
  | start | returned =>
      simp only [Option.bind_eq_some_iff] at hs
      obtain ⟨st, -, hs⟩ := hs
      obtain rfl := Option.some.inj hs
      exact h.advance htask _
  | calling =>
      obtain rfl := Option.some.inj hs
      exact h.advance htask _
  | checking =>
      simp only [Option.bind_eq_some_iff] at hs
      obtain ⟨st, -, hs⟩ := hs
      obtain rfl := Option.some.inj hs
      split_ifs
      · exact h.endTask i
      · exact h.advance htask _
  | timingOut =>
      simp only [Option.bind_eq_some_iff] at hs
      obtain ⟨s₁, hs₁, hs⟩ := hs
      obtain rfl := Option.some.inj hs
      exact (setTimeout_filed hs₁ h).endTask i
  | setting r' v' =>
      simp only [Option.bind_eq_some_iff] at hs
      obtain ⟨s₁, hs₁, hs⟩ := hs
      obtain rfl := Option.some.inj hs
      exact (setValue_filed hs₁ h).endTask i

/-! ### A new continuation -/

/-- What `then` and `thenVoid` do, by the status they find. -/
inductive System.Continues (s s' : System R V) (d : Task) : Prop
  | done (hheap : s'.heap = s.heap ++ [.fresh]) (htasks : s'.tasks = s.tasks ++ [(d, .start)])
  | timeout (hheap : s'.heap = s.heap ++ [SharedState.fresh.setTimeout])
      (htasks : s'.tasks = s.tasks)
  | registers {st : SharedState R V} (hst : s.heap[d.state]? = some st)
      (hpending : st.status = .none)
      (hheap : s'.heap =
        s.heap.set d.state { st with thenCallback := st.thenCallback ++ [d] } ++ [.fresh])
      (htasks : s'.tasks = s.tasks)

theorem System.continues_of_continueWith {s s' : System R V} {p : ℕ} {kind : Continuation}
    (hs : s.continueWith p kind = some s') : s.Continues s' ⟨s.heap.length, p, kind⟩ := by
  simp only [continueWith, Option.bind_eq_bind, Option.bind_eq_some_iff] at hs
  obtain ⟨st, hst, hs⟩ := hs
  cases hstatus : st.status with
  | done =>
      rw [hstatus] at hs
      obtain rfl := Option.some.inj hs
      exact .done rfl rfl
  | timeout =>
      rw [hstatus] at hs
      obtain rfl := Option.some.inj hs
      exact .timeout rfl rfl
  | none =>
      rw [hstatus] at hs
      obtain rfl := Option.some.inj hs
      exact .registers (heap_of_acquire hst) hstatus (by simp only [hstatus]) rfl

/-- The heap grows by one state. -/
theorem System.Continues.length_eq {s s' : System R V} {d : Task} (hs : s.Continues s' d) :
    s'.heap.length = s.heap.length + 1 := by
  cases hs with
  | done hheap _ | timeout hheap _ => rw [hheap, List.length_append, List.length_singleton]
  | registers _ _ hheap _ =>
      rw [hheap, List.length_append, List.length_set, List.length_singleton]

/-- The old states keep their status. -/
theorem System.Continues.status_eq {s s' : System R V} {d : Task} (hs : s.Continues s' d)
    {q : ℕ} (hq : q < s.heap.length) : status s' q = status s q := by
  cases hs with
  | done hheap _ | timeout hheap _ => rw [status_of_append hheap, if_neg (Nat.ne_of_lt hq)]
  | @registers st hst _ hheap _ =>
      let s₁ : System R V :=
        { s with heap := s.heap.set d.state { st with thenCallback := st.thenCallback ++ [d] } }
      have hlen : s₁.heap.length = s.heap.length := List.length_set
      rw [@status_of_append R V s₁ s' _ hheap, hlen, if_neg (Nat.ne_of_lt hq),
        @status_of_set R V s s₁ _ st _ hst rfl]
      split_ifs with heq
      · rw [status, ← heq, hst]
        rfl
      · rfl

/-- What is registered afterwards: what was, and the new continuation if its parent is
pending. -/
theorem System.Continues.registered_eq {s s' : System R V} {d : Task} (hs : s.Continues s' d)
    (q : ℕ) : registered s' q = registered s q ∨
      q = d.state ∧ registered s' q = registered s q ++ [d] := by
  cases hs with
  | done hheap _ | timeout hheap _ => exact .inl (registered_of_append hheap rfl q)
  | @registers st hst _ hheap _ =>
      let s₁ : System R V :=
        { s with heap := s.heap.set d.state { st with thenCallback := st.thenCallback ++ [d] } }
      rw [@registered_of_append R V s₁ s' _ hheap rfl, @registered_of_set R V s s₁ _ st _ hst rfl]
      split_ifs with heq
      · refine .inr ⟨heq.symm, ?_⟩
        rw [registered, ← heq, hst]
        rfl
      · exact .inl rfl

/-- The tasks afterwards: what was, and the new continuation if its parent is done. -/
theorem System.Continues.tasks_eq {s s' : System R V} {d : Task} (hs : s.Continues s' d) :
    s'.tasks = s.tasks ∨ s'.tasks = s.tasks ++ [(d, .start)] := by
  cases hs with
  | done _ htasks => exact .inr htasks
  | timeout _ htasks | registers _ _ _ htasks => exact .inl htasks

omit [Inhabited R] [Inhabited V] in
/-- Only states that exist have a status. -/
theorem lt_of_status {s : System R V} {q : ℕ} {x : FutureStatus} (h : status s q = some x) :
    q < s.heap.length := by
  obtain ⟨st, hst, -⟩ := Option.map_eq_some_iff.mp h
  exact (List.getElem?_eq_some_iff.mp hst).1

/-- The continuations there are stay where they are when another one is made. -/
theorem Place.continues {s s' : System R V} {d e : Task} {k : ℕ} (h : Place s k e)
    (hs : s.Continues s' d) (hne : d ≠ e) (hpromise : e.promise < s.heap.length) :
    Place s' k e := by
  refine h.frame ?_ ?_ ?_ ?_
  · rcases hs.registered_eq e.state with heq | ⟨-, heq⟩
    · rw [heq]
    · rw [heq, List.count_append, List.count_singleton, if_neg (by simpa using hne), Nat.add_zero]
  · rcases hs.tasks_eq with heq | heq
    · rw [heq]
    · rw [heq, pcsOf_append, pcsOf_cons_ne hne, pcsOf_nil, List.append_nil]
  · intro _ hparent
    rw [hs.status_eq (lt_of_status hparent), hparent]
  · intro hended
    rwa [Ended, hs.status_eq hpromise]

omit [Inhabited R] [Inhabited V] in
/-- A promise that does not exist yet has no continuation anywhere. -/
theorem Filed.notMem {s : System R V} {derived : List Task} (h : Filed s derived) {d : Task}
    (hnew : d.promise = s.heap.length) : d ∉ derived := by
  intro hd
  have hlt := h.lt hd
  omega

/-- The new continuation has its place. -/
theorem System.Continues.place {s s' : System R V} {d : Task} {derived : List Task}
    (hs : s.Continues s' d) (hfiled : Filed s derived) (hnew : d.promise = s.heap.length) :
    Place s' 0 d := by
  have habsent := hfiled.notMem hnew
  have hcount : (registered s d.state).count d = 0 :=
    List.count_eq_zero_of_not_mem fun hmem => habsent (hfiled.waiting hmem).2
  have hpcs : pcsOf d s.tasks = [] := by
    refine pcsOf_eq_nil ?_
    rintro t ht rfl
    exact habsent (hfiled.tasks ht)
  cases hs with
  | done hheap htasks =>
      refine .queued .start ?_ ?_ rfl
      · rw [registered_of_append hheap rfl, hcount]
      · rw [htasks, pcsOf_append, hpcs, pcsOf_cons_self]
        rfl
  | timeout hheap htasks =>
      refine .ended ?_ ?_ (.inr ⟨?_, Nat.zero_le 1⟩)
      · rw [registered_of_append hheap rfl, hcount]
      · rw [htasks, hpcs]
      · rw [status_of_append hheap, if_pos hnew]
        rfl
  | @registers st hst hpending hheap htasks =>
      have hparent : status s d.state = some .none := by rw [status, hst, Option.map_some, hpending]
      refine .waiting ?_ ?_ (by rw [htasks, hpcs]) rfl
      · have hcontinues : s.Continues s' d := .registers hst hpending hheap htasks
        rw [hcontinues.status_eq (lt_of_status hparent), hparent]
      · have hreg : registered s d.state = st.thenCallback := by
          rw [registered, hst]
          rfl
        let s₁ : System R V :=
          { s with heap := s.heap.set d.state { st with thenCallback := st.thenCallback ++ [d] } }
        rw [@registered_of_append R V s₁ s' _ hheap rfl,
          @registered_of_set R V s s₁ _ st _ hst rfl, if_pos rfl, List.count_append, ← hreg, hcount,
          List.count_singleton_self]

theorem System.Continues.filed {s s' : System R V} {d : Task} {derived : List Task}
    (hs : s.Continues s' d) (hfiled : Filed s derived) (hnew : d.promise = s.heap.length) :
    Filed s' (derived ++ [d]) where
  waiting := by
    intro q e he
    rcases hs.registered_eq q with heq | ⟨hq, heq⟩
    · rw [heq] at he
      exact ⟨(hfiled.waiting he).1, List.mem_append_left _ (hfiled.waiting he).2⟩
    · rw [heq] at he
      rcases List.mem_append.mp he with he | he
      · exact ⟨(hfiled.waiting he).1, List.mem_append_left _ (hfiled.waiting he).2⟩
      · obtain rfl := List.mem_singleton.mp he
        exact ⟨hq.symm, List.mem_append_right _ he⟩
  tasks := by
    intro t ht
    rcases hs.tasks_eq with heq | heq
    · rw [heq] at ht
      exact List.mem_append_left _ (hfiled.tasks ht)
    · rw [heq] at ht
      rcases List.mem_append.mp ht with ht | ht
      · exact List.mem_append_left _ (hfiled.tasks ht)
      · obtain rfl := List.mem_singleton.mp ht
        exact List.mem_append_right _ (List.mem_singleton_self d)
  lt := by
    intro e he
    rw [hs.length_eq]
    rcases List.mem_append.mp he with he | he
    · exact Nat.lt_succ_of_lt (hfiled.lt he)
    · rw [List.mem_singleton.mp he, hnew]
      exact Nat.lt_succ_self _

/-! ### Whole runs -/

omit [Inhabited R] [Inhabited V] in
/-- A step that makes no continuation and runs no callback. -/
theorem Accounted.frame {h : Recorded R V} {s' : System R V} (hacc : Accounted h)
    (hfiled : Filed s' h.derived)
    (hplace : ∀ {d : Task}, Place h.system (h.called.count d) d →
      Place s' (h.called.count d) d) :
    Accounted ⟨s', h.derived ++ [], h.called ++ []⟩ := by
  rw [List.append_nil, List.append_nil]
  exact ⟨hfiled, hacc.called, fun hd => hplace (hacc.place hd)⟩

omit [Inhabited R] [Inhabited V] in
/-- A step that leaves the states and the tasks alone. -/
theorem Accounted.of_eq {h : Recorded R V} {s' : System R V} (hacc : Accounted h)
    (hheap : s'.heap = h.system.heap) (htasks : s'.tasks = h.system.tasks) :
    Accounted ⟨s', h.derived ++ [], h.called ++ []⟩ := by
  have hstatus : ∀ q, status s' q = status h.system q := fun q => by rw [status, hheap, status]
  have hreg : ∀ q, registered s' q = registered h.system q := fun q => by
    rw [registered, hheap, registered]
  refine hacc.frame ?_ ?_
  · refine hacc.filed.frame ?_ ?_ (Nat.le_of_eq (by rw [hheap]))
    · intro q d hd
      rwa [← hreg]
    · intro t ht
      exact .inl ⟨t, htasks ▸ ht, rfl⟩
  · intro d hplace
    refine hplace.frame (by rw [hreg]) (by rw [htasks]) ?_ ?_
    · intro _ hparent
      rw [hstatus, hparent]
    · intro hended
      rwa [Ended, hstatus]

/-- `then` and `thenVoid` put the new continuation on the account. -/
theorem Accounted.continues {h : Recorded R V} {s' : System R V} {d : Task} (hacc : Accounted h)
    (hs : h.system.Continues s' d) (hnew : d.promise = h.system.heap.length) :
    Accounted ⟨s', h.derived ++ [d], h.called ++ []⟩ := by
  rw [List.append_nil]
  have habsent := hacc.filed.notMem hnew
  refine ⟨hs.filed hacc.filed hnew, ?_, ?_⟩
  · intro e he
    exact List.mem_append_left _ (hacc.called he)
  · intro e he
    rcases List.mem_append.mp he with he | he
    · refine (hacc.place he).continues hs ?_ (hacc.filed.lt he)
      rintro rfl
      exact habsent he
    · obtain rfl := List.mem_singleton.mp he
      have hcount : h.called.count e = 0 :=
        List.count_eq_zero_of_not_mem fun hmem => habsent (hacc.called hmem)
      rw [hcount]
      exact hs.place hacc.filed hnew

omit [Inhabited R] [Inhabited V] in
/-- The callbacks that run are those of tasks. -/
theorem Filed.calls_mem {s : System R V} {derived : List Task} (h : Filed s derived)
    {a : Action R V} {d : Task} (hd : d ∈ calls s a) : d ∈ derived := by
  cases a with
  | task i r v =>
      rw [calls] at hd
      split at hd
      · rename_i t htask
        obtain rfl := List.mem_singleton.mp hd
        exact h.tasks (List.mem_of_getElem? htask)
      · cases hd
  | setValue | setTimeout | get | wake | expire | continueWith => cases hd

/-- **Every step that times out no state with registered continuations keeps the account.** -/
theorem Accounted.step {h h' : Recorded R V} {a : Action R V} (hacc : Accounted h)
    (hspares : sparesRegistered h a = true) (hrec : recordStep h a = some h') : Accounted h' := by
  obtain ⟨s', hs, rfl⟩ := Option.map_eq_some_iff.mp hrec
  have hempty : ∀ p, timesOut h.system a = some p → registered h.system p = [] := by
    intro p hp
    rw [sparesRegistered, hp] at hspares
    exact List.isEmpty_iff.mp hspares
  cases a with
  | setValue p r v =>
      exact hacc.frame (System.setValue_filed hs hacc.filed)
        (System.setValue_place hs hacc.filed)
  | setTimeout p =>
      exact hacc.frame (System.setTimeout_filed hs hacc.filed)
        (System.setTimeout_place hs (hempty p rfl))
  | get p timed => exact hacc.of_eq (System.get_heap hs) (System.get_tasks hs)
  | wake i => exact hacc.of_eq (System.wake_heap hs) (System.wake_tasks hs)
  | expire i =>
      simp only [Future.step, System.expire, Option.bind_eq_bind, Option.bind_eq_some_iff] at hs
      obtain ⟨w, hw, hs⟩ := hs
      split_ifs at hs
      simp only [Option.bind_eq_some_iff] at hs
      obtain ⟨st, hst, hs⟩ := hs
      obtain rfl := Option.some.inj hs
      have hget := System.heap_of_acquire hst
      have hspared := hempty w.state (by rw [timesOut, hw]; rfl)
      refine hacc.frame (hacc.filed.timesOut hget rfl rfl rfl) ?_
      intro d hd
      exact hd.timesOut hget rfl rfl rfl rfl hspared
  | continueWith p kind =>
      exact hacc.continues (System.continues_of_continueWith hs) rfl
  | task i r v =>
      have hderived : h.derived ++ derives h.system (.task i r v) = h.derived :=
        List.append_nil _
      refine ⟨?_, ?_, ?_⟩
      · exact System.runTask_filed hs (hderived.symm ▸ hacc.filed)
      · intro d hd
        rw [hderived]
        rcases List.mem_append.mp hd with hd | hd
        · exact hacc.called hd
        · exact hacc.filed.calls_mem hd
      · intro d hd
        rw [hderived] at hd
        exact System.runTask_place hs hacc.filed hempty (hacc.place hd)

/-- The account of every run of such steps. -/
theorem accounted_of_reach {h : Recorded R V}
    (hreach : Reach recordStep sparesRegistered recordInit h) : Accounted h := by
  refine hreach.invariant Accounted ?_ fun hacc hspares hs => hacc.step hspares hs
  refine ⟨⟨?_, ?_, ?_⟩, ?_, ?_⟩
  · intro p d hd
    cases p <;> cases hd
  · intro t ht
    cases ht
  · intro d hd
    cases hd
  · intro d hd
    cases hd
  · intro d hd
    cases hd

omit [Inhabited R] [Inhabited V] in
/-- A continuation that is not waiting and has no task has ended. -/
theorem Place.ended_of_idle {s : System R V} {k : ℕ} {d : Task} (h : Place s k d)
    (htasks : s.tasks = []) (hparent : status s d.state ≠ some .none) : Ended s k d := by
  cases h with
  | waiting h₁ _ _ _ => exact absurd h₁ hparent
  | queued pc _ hpcs _ =>
      rw [htasks] at hpcs
      cases hpcs
  | ended _ _ hended => exact hended

/-- **No orphaned continuations.** In every run in which no step times out a state that has
continuations registered, every continuation whose parent is no longer pending has ended once
the tasks are through: its promise is done or timed out, its callback has run at most once, and
exactly once unless a timeout came first. -/
theorem no_orphans {h : Recorded R V}
    (hreach : Reach recordStep sparesRegistered recordInit h) : NoOrphans h := by
  intro htasks d hd hparent
  have hended := ((accounted_of_reach hreach).place hd).ended_of_idle htasks hparent
  rcases hended with ⟨hdone, hk⟩ | ⟨htimeout, hk⟩
  · exact ⟨.inl hdone, Nat.le_of_eq hk, fun _ _ _ => hk⟩
  · exact ⟨.inr htimeout, hk, fun _ _ hnot => absurd htimeout hnot⟩

end Runs

/-- The premise is met by a run of a chain of two, in which the first promise times out after
its continuation has been queued. -/
theorem no_orphans_chain :
    ∃ h : Recorded ℕ ℕ, Reach recordStep sparesRegistered recordInit h ∧
      (h.system.tasks = [] ∧ h.derived.length = 2 ∧ status h.system 2 = some .done) ∧
      NoOrphans h := by
  obtain ⟨h, hreach, hdone⟩ :=
    @Reach.exists_of_exec _ _ recordStep sparesRegistered (recordInit : Recorded ℕ ℕ)
      [.continueWith 0 .andThen, .continueWith 1 .thenVoid, .setValue 0 1 10, .task 0 0 0,
        .setTimeout 0, .task 0 0 0, .task 0 2 20, .task 0 0 0, .task 0 0 0, .task 0 0 0,
        .task 0 0 0, .task 0 0 0, .task 0 0 0]
      (fun h => h.system.tasks = [] ∧ h.derived.length = 2 ∧ status h.system 2 = some .done)
      inferInstance (by decide)
  exact ⟨h, hreach, hdone, no_orphans hreach⟩

/-- A promise with a continuation times out: no task is queued, and the promise that follows it
stays pending. -/
theorem setTimeout_orphans :
    ¬ ∀ h : Recorded ℕ ℕ, Reach recordStep always recordInit h → NoOrphans h := by
  intro hall
  obtain ⟨h, hreach, htasks, hderived, hparent, hpending⟩ :=
    @Reach.exists_of_exec _ _ recordStep always (recordInit : Recorded ℕ ℕ)
      [.continueWith 0 .andThen, .setTimeout 0]
      (fun h => h.system.tasks = [] ∧ h.derived = [⟨1, 0, .andThen⟩] ∧
        status h.system 0 = some .timeout ∧ status h.system 1 = some .none)
      inferInstance (by decide)
  have hmem : ⟨1, 0, .andThen⟩ ∈ h.derived := hderived ▸ List.mem_singleton_self _
  have hended := (hall h hreach htasks _ hmem (by rw [hparent]; decide)).ended
  rw [hpending] at hended
  rcases hended with hdone | htimeout
  · cases hdone
  · cases htimeout

end ArchNet.Future
