import ArchNet.Lts
import Mathlib.Data.List.Count
import Mathlib.Data.Int.Init
import Mathlib.Tactic.Ring

/-!
# The Worker Pool

A pool of threads, each with a channel of its own. `addTask` chooses a channel by the pool's
strategy; a thread takes the tasks of its channel one by one and starts a fiber for each. A
`ConsistentIOWorker` passes the same seed with each of its tasks, and the connections of a
client queue their sends and receives on one of these.

## Conventions

* Choosing the channel and pushing to it is one step. Under `Random` the number drawn is chosen
  by the run.
* The ready fibers of a thread start in the order in which they were made.
* A task carries its caller and its number in the order of submission; `pushed` and `started`
  are the histories of both events, each with the thread it happened on.

## Main results

* `affine_of_sameChannel`: **tasks that were pushed to one channel start in the order in which
  they were pushed.**
* `affine_of_hashConsistent`: a pool that hashes the seed keeps the tasks of each consistent
  worker on one channel, in every run.
* `affinity_iff`: of the global pool this holds in all runs **only for a worker that adds at most
  one task**, since its strategy is the default one, which does not read the seed.
-/

open Lts

namespace ArchNet.WorkerPool

/-- `WORKERPOOL_DEFAULT_THREAD_NUM`. -/
def workerpoolDefaultThreadNum : ℕ := 4

/-- `WorkStrategy`. -/
inductive WorkStrategy
  | rr
  | random
  | loadBalance
  | hashConsistent
  deriving DecidableEq, Repr

/-- Who adds a task: a `ConsistentIOWorker`, or a caller of the pool with a seed of its own. -/
inductive Caller
  | consistent (w : ℕ)
  | other (hashSeed : ℤ)
  deriving DecidableEq, Repr

/-- A task, by its caller and its number in the order of submission. -/
structure Task where
  caller : Caller
  number : ℕ
  deriving DecidableEq, Repr

/-- A thread: its channel and the fibers that it has made and not run yet. -/
structure Thread where
  chan : List Task
  fibers : List Task
  deriving DecidableEq, Repr

/-- `WorkerPool`, with the histories of pushes and starts. -/
structure Pool where
  strategy : WorkStrategy
  threadNum : ℕ
  nextIndex : ℤ
  threads : List Thread
  pushed : List (ℕ × Task)
  started : List (ℕ × Task)
  deriving DecidableEq, Repr

/-- The constructor of `IOWorkerPool`. -/
def ioWorkerPool (threadNum : ℕ) (strategy : WorkStrategy) : Pool :=
  ⟨strategy, threadNum, 0, List.replicate threadNum ⟨[], []⟩, [], []⟩

/-- The pool of `GlobalIOWorkerPool`. Its constructor passes the number of threads only, so the
strategy is the default argument of `IOWorkerPool`. -/
def globalIOWorkerPool : Pool := ioWorkerPool workerpoolDefaultThreadNum .random

namespace Pool

/-- The `LoadBalance` branch of `get_next_index`: the bound is never lowered, so the last channel
shorter than the first one is taken. -/
def leastLoaded (sizes : List ℕ) : ℕ :=
  (List.range' 1 (sizes.length - 1)).foldl
    (fun idx i => if sizes.getD i 0 < sizes.getD 0 0 then i else idx) 0

/-- `get_next_index`. -/
def getNextIndex (p : Pool) (hashSeed : ℤ) (draw : ℕ) : Option (ℤ × Pool) :=
  match p.strategy with
  | .rr =>
      some (p.nextIndex.tmod p.threadNum, { p with nextIndex := (p.nextIndex + 1).bmod (2 ^ 64) })
  | .random => if draw < p.threadNum then some (draw, p) else none
  | .loadBalance => some (leastLoaded (p.threads.map fun t => t.chan.length), p)
  -- the seed as a `size_t`, then the remainder
  | .hashConsistent => some (((hashSeed % 2 ^ 64).toNat % p.threadNum : ℕ), p)

/-- The push of a task to a channel. -/
def push (p : Pool) (i : ℕ) (caller : Caller) : Option Pool := do
  let th ← p.threads[i]?
  let t : Task := ⟨caller, p.pushed.length⟩
  return { p with
    threads := p.threads.set i { th with chan := th.chan ++ [t] }
    pushed := p.pushed ++ [(i, t)] }

/-- `addTask(func, hash_seed)`. -/
def addTask (p : Pool) (caller : Caller) (hashSeed : ℤ) (draw : ℕ) : Option Pool := do
  let (idx, p) ← p.getNextIndex hashSeed draw
  if idx < 0 then none else p.push idx.toNat caller

/-- The loop of the `i`-th thread takes a task from the channel and makes a fiber for it. -/
def pop (p : Pool) (i : ℕ) : Option Pool := do
  let th ← p.threads[i]?
  match th.chan with
  | [] => none
  | t :: rest =>
      return { p with threads := p.threads.set i ⟨rest, th.fibers ++ [t]⟩ }

/-- The next fiber of the `i`-th thread starts its task. -/
def start (p : Pool) (i : ℕ) : Option Pool := do
  let th ← p.threads[i]?
  match th.fibers with
  | [] => none
  | t :: rest =>
      return { p with
        threads := p.threads.set i { th with fibers := rest }
        started := p.started ++ [(i, t)] }

end Pool

/-- The steps of the pool. -/
inductive Action
  | addTask (caller : Caller) (draw : ℕ)
  | pop (i : ℕ)
  | start (i : ℕ)
  deriving DecidableEq, Repr

/-- The seed that goes with a task. A `ConsistentIOWorker` draws its own, up to `INT_MAX`, when it
is made, and passes it to the global pool with each task. -/
def hashSeed (seeds : ℕ → Fin (2 ^ 31)) : Caller → ℤ
  | .consistent w => (seeds w).val
  | .other seed => seed

/-- One step. -/
def step (seeds : ℕ → Fin (2 ^ 31)) (p : Pool) : Action → Option Pool
  | .addTask caller draw => p.addTask caller (hashSeed seeds caller) draw
  | .pop i => p.pop i
  | .start i => p.start i

/-- Who adds tasks in a run, in this order. -/
def submissions (as : List Action) : List Caller :=
  as.filterMap fun
    | .addTask caller _ => some caller
    | .pop _ | .start _ => none

/-- The events of a history that belong to tasks of one consistent worker. -/
def ofWorker (w : ℕ) (history : List (ℕ × Task)) : List (ℕ × Task) :=
  history.filter fun x => x.2.caller = .consistent w

/-- All the tasks of a worker were pushed to **one and the same channel**. -/
def SameChannel (p : Pool) (w : ℕ) : Prop :=
  ∀ x ∈ ofWorker w p.pushed, ∀ y ∈ ofWorker w p.pushed, x.1 = y.1

/-- The tasks of a worker have started **in the order of their submission**. -/
def InOrder (p : Pool) (w : ℕ) : Prop :=
  (ofWorker w p.started).map Prod.snd <+: (ofWorker w p.pushed).map Prod.snd

instance (p : Pool) (w : ℕ) : Decidable (InOrder p w) :=
  inferInstanceAs (Decidable (_ <+: _))

/-- **Worker affinity.** -/
structure Affine (p : Pool) (w : ℕ) : Prop where
  sameChannel : SameChannel p w
  inOrder : InOrder p w

/-! ### Channels are first in, first out -/

/-- The tasks of a history that went through one thread. -/
def onThread (i : ℕ) (history : List (ℕ × Task)) : List Task :=
  (history.filter fun x => x.1 = i).map Prod.snd

/-- The thread with an index; past the last one, an idle one. -/
def Pool.thread (p : Pool) (i : ℕ) : Thread := (p.threads[i]?).getD ⟨[], []⟩

/-- On each thread, what was pushed is what has started, followed by what waits. -/
def Fifo (p : Pool) : Prop :=
  ∀ i, onThread i p.started ++ (p.thread i).fibers ++ (p.thread i).chan = onThread i p.pushed

theorem onThread_append_self (i : ℕ) (history : List (ℕ × Task)) (t : Task) :
    onThread i (history ++ [(i, t)]) = onThread i history ++ [t] := by
  simp [onThread]

theorem onThread_append_ne {i j : ℕ} (h : j ≠ i) (history : List (ℕ × Task)) (t : Task) :
    onThread i (history ++ [(j, t)]) = onThread i history := by
  simp [onThread, h]

/-- The thread that a step has replaced. -/
theorem Pool.thread_set {p p' : Pool} {i : ℕ} {th th' : Thread} (hth : p.threads[i]? = some th)
    (hthreads : p'.threads = p.threads.set i th') (j : ℕ) :
    p'.thread j = if i = j then th' else p.thread j := by
  have hlt := (List.getElem?_eq_some_iff.mp hth).1
  rw [Pool.thread, hthreads, List.getElem?_set]
  split_ifs <;> rfl

theorem Pool.thread_eq {p : Pool} {i : ℕ} {th : Thread} (hth : p.threads[i]? = some th) :
    p.thread i = th := by
  rw [Pool.thread, hth, Option.getD_some]

/-- What no step changes, and `get_next_index` changes nothing but its counter. -/
structure SameButIndex (p p' : Pool) : Prop where
  strategy : p'.strategy = p.strategy
  threadNum : p'.threadNum = p.threadNum
  threads : p'.threads = p.threads
  pushed : p'.pushed = p.pushed
  started : p'.started = p.started

theorem Pool.getNextIndex_same {p p' : Pool} {seed idx : ℤ} {draw : ℕ}
    (h : p.getNextIndex seed draw = some (idx, p')) : SameButIndex p p' := by
  rw [getNextIndex] at h
  cases hstrategy : p.strategy with
  | rr =>
      rw [hstrategy] at h
      obtain ⟨-, rfl⟩ := Prod.ext_iff.mp (Option.some.inj h)
      exact ⟨hstrategy.symm, rfl, rfl, rfl, rfl⟩
  | random =>
      simp only [hstrategy, Option.ite_none_right_eq_some, Option.some.injEq, Prod.mk.injEq] at h
      obtain ⟨-, -, rfl⟩ := h
      exact ⟨rfl, rfl, rfl, rfl, rfl⟩
  | loadBalance | hashConsistent =>
      rw [hstrategy] at h
      obtain ⟨-, rfl⟩ := Prod.ext_iff.mp (Option.some.inj h)
      exact ⟨rfl, rfl, rfl, rfl, rfl⟩

/-- What `addTask` does: the next index, and a push to the channel it names. -/
theorem Pool.addTask_cases {p p' : Pool} {caller : Caller} {seed : ℤ} {draw : ℕ}
    (h : p.addTask caller seed draw = some p') :
    ∃ (idx : ℤ) (q : Pool) (th : Thread), p.getNextIndex seed draw = some (idx, q) ∧ 0 ≤ idx ∧
      SameButIndex p q ∧ p.threads[idx.toNat]? = some th ∧
      p' = { q with
        threads := p.threads.set idx.toNat
          { th with chan := th.chan ++ [⟨caller, p.pushed.length⟩] }
        pushed := p.pushed ++ [(idx.toNat, ⟨caller, p.pushed.length⟩)] } := by
  simp only [addTask, Option.bind_eq_bind, Option.bind_eq_some_iff] at h
  obtain ⟨⟨idx, q⟩, hindex, h⟩ := h
  have hsame := getNextIndex_same hindex
  split_ifs at h with hneg
  simp only [push, Option.bind_eq_bind, Option.bind_eq_some_iff] at h
  obtain ⟨th, hth, h⟩ := h
  obtain rfl := Option.some.inj h
  rw [hsame.threads] at hth
  refine ⟨idx, q, th, hindex, by omega, hsame, hth, ?_⟩
  rw [hsame.threads, hsame.pushed]

/-- A task goes to the channel that the next index names. -/
theorem Pool.exists_addTask {p q : Pool} {seed : ℤ} {draw i : ℕ} (caller : Caller)
    (hindex : p.getNextIndex seed draw = some ((i : ℤ), q)) (hi : i < p.threads.length) :
    ∃ p', p.addTask caller seed draw = some p' ∧
      p'.pushed = p.pushed ++ [(i, ⟨caller, p.pushed.length⟩)] := by
  have hsame := getNextIndex_same hindex
  have hget : q.threads[i]? = some p.threads[i] := by
    rw [hsame.threads]
    exact List.getElem?_eq_getElem hi
  have hadd : p.addTask caller seed draw = q.push i caller := by
    simp only [addTask, hindex, Option.bind_eq_bind, Option.bind_some, Int.toNat_natCast]
    exact if_neg (by omega)
  rw [hadd, push, hget]
  refine ⟨_, rfl, ?_⟩
  rw [hsame.pushed]

/-- What a thread's loop does. -/
theorem Pool.pop_cases {p p' : Pool} {i : ℕ} (h : p.pop i = some p') :
    ∃ (t : Task) (rest fibers : List Task), p.threads[i]? = some ⟨t :: rest, fibers⟩ ∧
      p' = { p with threads := p.threads.set i ⟨rest, fibers ++ [t]⟩ } := by
  simp only [pop, Option.bind_eq_bind, Option.bind_eq_some_iff] at h
  obtain ⟨⟨chan, fibers⟩, hth, h⟩ := h
  cases chan with
  | nil => cases h
  | cons t rest => exact ⟨t, rest, fibers, hth, (Option.some.inj h).symm⟩

/-- What the start of a fiber does. -/
theorem Pool.start_cases {p p' : Pool} {i : ℕ} (h : p.start i = some p') :
    ∃ (t : Task) (chan rest : List Task), p.threads[i]? = some ⟨chan, t :: rest⟩ ∧
      p' = { p with
        threads := p.threads.set i ⟨chan, rest⟩
        started := p.started ++ [(i, t)] } := by
  simp only [start, Option.bind_eq_bind, Option.bind_eq_some_iff] at h
  obtain ⟨⟨chan, fibers⟩, hth, h⟩ := h
  cases fibers with
  | nil => cases h
  | cons t rest => exact ⟨t, chan, rest, hth, (Option.some.inj h).symm⟩

section Runs

variable {seeds : ℕ → Fin (2 ^ 31)}

/-- A pool as its constructor has made it: the strategy, and a channel for each thread. -/
structure Made (strategy : WorkStrategy) (threadNum : ℕ) (p : Pool) : Prop where
  sameStrategy : p.strategy = strategy
  sameNum : p.threadNum = threadNum
  threads : p.threads.length = threadNum

/-- No step changes the strategy, and none makes or removes a thread. -/
theorem Made.step {strategy : WorkStrategy} {threadNum : ℕ} {p p' : Pool} {a : Action}
    (h : Made strategy threadNum p) (hs : step seeds p a = some p') :
    Made strategy threadNum p' := by
  cases a with
  | addTask caller draw =>
      obtain ⟨idx, q, th, -, -, hsame, -, rfl⟩ := Pool.addTask_cases hs
      exact ⟨hsame.strategy.trans h.sameStrategy, hsame.threadNum.trans h.sameNum,
        List.length_set.trans h.threads⟩
  | pop i =>
      obtain ⟨t, rest, fibers, -, rfl⟩ := Pool.pop_cases hs
      exact ⟨h.sameStrategy, h.sameNum, List.length_set.trans h.threads⟩
  | start i =>
      obtain ⟨t, chan, rest, -, rfl⟩ := Pool.start_cases hs
      exact ⟨h.sameStrategy, h.sameNum, List.length_set.trans h.threads⟩

theorem made_of_exec {strategy : WorkStrategy} {threadNum : ℕ} {as : List Action} {p : Pool}
    (h : exec (step seeds) (ioWorkerPool threadNum strategy) as = some p) :
    Made strategy threadNum p :=
  invariant_of_exec (Made strategy threadNum) ⟨rfl, rfl, List.length_replicate⟩
    (fun hmade hs => hmade.step hs) h

/-- **Every step keeps the order of each thread.** -/
theorem Fifo.step {p p' : Pool} {a : Action} (hfifo : Fifo p) (h : step seeds p a = some p') :
    Fifo p' := by
  intro j
  have hj := hfifo j
  cases a with
  | addTask caller draw =>
      obtain ⟨idx, q, th, -, -, hsame, hth, rfl⟩ := Pool.addTask_cases h
      rw [Pool.thread_set hth rfl]
      by_cases heq : idx.toNat = j
      · subst heq
        rw [if_pos rfl, onThread_append_self, ← hj, Pool.thread_eq hth, hsame.started]
        simp only [List.append_assoc]
      · rw [if_neg heq, onThread_append_ne heq, ← hj, hsame.started]
  | pop i =>
      obtain ⟨t, rest, fibers, hth, rfl⟩ := Pool.pop_cases h
      rw [Pool.thread_set hth rfl]
      by_cases heq : i = j
      · subst heq
        rw [if_pos rfl, ← hj, Pool.thread_eq hth]
        simp only [List.append_assoc, List.cons_append, List.nil_append]
      · rw [if_neg heq, ← hj]
  | start i =>
      obtain ⟨t, chan, rest, hth, rfl⟩ := Pool.start_cases h
      rw [Pool.thread_set hth rfl]
      by_cases heq : i = j
      · subst heq
        rw [if_pos rfl, onThread_append_self, ← hj, Pool.thread_eq hth]
        simp only [List.append_assoc, List.cons_append, List.nil_append]
      · rw [if_neg heq, onThread_append_ne heq, ← hj]

theorem fifo_ioWorkerPool (threadNum : ℕ) (strategy : WorkStrategy) :
    Fifo (ioWorkerPool threadNum strategy) := by
  intro i
  have hthread : (ioWorkerPool threadNum strategy).thread i = ⟨[], []⟩ := by
    rw [Pool.thread, ioWorkerPool, List.getElem?_replicate]
    split_ifs <;> rfl
  rw [hthread]
  rfl

theorem fifo_of_exec {threadNum : ℕ} {strategy : WorkStrategy} {as : List Action} {p : Pool}
    (h : exec (step seeds) (ioWorkerPool threadNum strategy) as = some p) : Fifo p :=
  invariant_of_exec Fifo (fifo_ioWorkerPool threadNum strategy) (fun hfifo hs => hfifo.step hs) h

/-- On each thread, what has started is the first part of what was pushed. -/
theorem Fifo.prefix_onThread {p : Pool} (h : Fifo p) (i : ℕ) :
    onThread i p.started <+: onThread i p.pushed := by
  rw [← h i, List.append_assoc]
  exact List.prefix_append _ _

/-- What has started was pushed, to the same thread. -/
theorem Fifo.mem_pushed {p : Pool} (h : Fifo p) {x : ℕ × Task} (hx : x ∈ p.started) :
    x ∈ p.pushed := by
  have hmem : x.2 ∈ onThread x.1 p.started :=
    List.mem_map.mpr ⟨x, List.mem_filter.mpr ⟨hx, decide_eq_true rfl⟩, rfl⟩
  obtain ⟨y, hy, hyx⟩ := List.mem_map.mp ((h.prefix_onThread x.1).subset hmem)
  obtain ⟨hpushed, hfst⟩ := List.mem_filter.mp hy
  have heq : y = x := Prod.ext (of_decide_eq_true hfst) hyx
  exact heq ▸ hpushed

/-- The tasks of a worker that all went through one thread, among those of that thread. -/
theorem ofWorker_eq_onThread {history : List (ℕ × Task)} {w i : ℕ}
    (h : ∀ x ∈ ofWorker w history, x.1 = i) :
    (ofWorker w history).map Prod.snd =
      (onThread i history).filter fun t => t.caller = .consistent w := by
  have hfilter : ofWorker w history =
      (history.filter fun x => x.1 = i).filter fun x => x.2.caller = .consistent w := by
    rw [List.filter_filter, ofWorker]
    refine List.filter_congr ?_
    intro x hx
    by_cases hw : x.2.caller = .consistent w
    · have hi := h x (List.mem_filter.mpr ⟨hx, decide_eq_true hw⟩)
      simp [hw, hi]
    · simp [hw]
  rw [hfilter, onThread, List.filter_map]
  rfl

/-- **One channel keeps the order**: tasks of a worker that were all pushed to one channel start
in the order of their submission. -/
theorem affine_of_sameChannel {p : Pool} {w : ℕ} (hfifo : Fifo p) (hsame : SameChannel p w) :
    Affine p w := by
  refine ⟨hsame, ?_⟩
  rw [InOrder]
  cases hpushed : ofWorker w p.pushed with
  | nil =>
      have hstarted : ofWorker w p.started = [] := by
        rw [ofWorker, List.filter_eq_nil_iff]
        intro x hx hw
        have hmem : x ∈ ofWorker w p.pushed := List.mem_filter.mpr ⟨hfifo.mem_pushed hx, hw⟩
        rw [hpushed] at hmem
        cases hmem
      simp only [hstarted, List.map_nil, List.nil_prefix]
  | cons x rest =>
      have hchannel : ∀ y ∈ ofWorker w p.pushed, y.1 = x.1 := by
        intro y hy
        exact hsame y hy x (hpushed ▸ List.mem_cons_self)
      have hchannel' : ∀ y ∈ ofWorker w p.started, y.1 = x.1 := by
        intro y hy
        obtain ⟨hy, hw⟩ := List.mem_filter.mp hy
        exact hchannel y (List.mem_filter.mpr ⟨hfifo.mem_pushed hy, hw⟩)
      rw [← hpushed, ofWorker_eq_onThread hchannel, ofWorker_eq_onThread hchannel']
      exact (hfifo.prefix_onThread x.1).filter _

/-! ### A pool that hashes the seed -/

/-- The tasks of each consistent worker are on the channel that its seed names. -/
structure Hashed (seeds : ℕ → Fin (2 ^ 31)) (p : Pool) : Prop where
  strategy : p.strategy = .hashConsistent
  channel : ∀ x ∈ p.pushed, ∀ w, x.2.caller = .consistent w →
    x.1 = (hashSeed seeds (.consistent w) % 2 ^ 64).toNat % p.threadNum

theorem Hashed.step {p p' : Pool} {a : Action} (hhashed : Hashed seeds p)
    (h : step seeds p a = some p') : Hashed seeds p' := by
  cases a with
  | addTask caller draw =>
      obtain ⟨idx, q, th, hindex, -, hsame, -, rfl⟩ := Pool.addTask_cases h
      refine ⟨hsame.strategy.trans hhashed.strategy, ?_⟩
      intro x hx w hw
      rcases List.mem_append.mp hx with hx | hx
      · rw [hhashed.channel x hx w hw, hsame.threadNum]
      · obtain rfl := List.mem_singleton.mp hx
        obtain rfl : caller = .consistent w := hw
        rw [Pool.getNextIndex, hhashed.strategy] at hindex
        obtain ⟨rfl, -⟩ := Prod.ext_iff.mp (Option.some.inj hindex)
        rw [hsame.threadNum]
        exact Int.toNat_natCast _
  | pop i =>
      obtain ⟨t, rest, fibers, -, rfl⟩ := Pool.pop_cases h
      exact ⟨hhashed.strategy, hhashed.channel⟩
  | start i =>
      obtain ⟨t, chan, rest, -, rfl⟩ := Pool.start_cases h
      exact ⟨hhashed.strategy, hhashed.channel⟩

/-- **A pool that hashes the seed has worker affinity**, in every run and for every worker. -/
theorem affine_of_hashConsistent {threadNum : ℕ} {as : List Action} {p : Pool}
    (h : exec (step seeds) (ioWorkerPool threadNum .hashConsistent) as = some p) (w : ℕ) :
    Affine p w := by
  have hhashed : Hashed seeds p := by
    refine invariant_of_exec (Hashed seeds) ⟨rfl, ?_⟩ (fun hinv hs => hinv.step hs) h
    intro x hx
    cases hx
  refine affine_of_sameChannel (fifo_of_exec h) ?_
  intro x hx y hy
  obtain ⟨hx, hxw⟩ := List.mem_filter.mp hx
  obtain ⟨hy, hyw⟩ := List.mem_filter.mp hy
  rw [hhashed.channel x hx w (of_decide_eq_true hxw),
    hhashed.channel y hy w (of_decide_eq_true hyw)]

/-! ### The global pool -/

/-- The pushes of a run are its submissions. -/
theorem pushed_callers {p p' : Pool} {as : List Action} (h : exec (step seeds) p as = some p') :
    p'.pushed.map (fun x => x.2.caller) =
      p.pushed.map (fun x => x.2.caller) ++ submissions as := by
  induction as generalizing p with
  | nil =>
      obtain rfl := Option.some.inj h
      exact (List.append_nil _).symm
  | cons a as ih =>
      obtain ⟨p₁, hp₁, hrest⟩ := Option.bind_eq_some_iff.mp h
      rw [ih hrest]
      cases a with
      | addTask caller draw =>
          obtain ⟨idx, q, th, -, -, -, -, rfl⟩ := Pool.addTask_cases hp₁
          simp [submissions]
      | pop i =>
          obtain ⟨t, rest, fibers, -, rfl⟩ := Pool.pop_cases hp₁
          rfl
      | start i =>
          obtain ⟨t, chan, rest, -, rfl⟩ := Pool.start_cases hp₁
          rfl

/-- The global pool as it is before each step: four threads, and the default strategy. -/
structure Random (p : Pool) : Prop where
  strategy : p.strategy = .random
  threadNum : p.threadNum = 4
  threads : p.threads.length = 4

/-- Under the default strategy a task can go to any channel. -/
theorem Random.addTask {p : Pool} (hrandom : Random p) (caller : Caller) {draw : ℕ}
    (hdraw : draw < 4) :
    ∃ p', step seeds p (.addTask caller draw) = some p' ∧ Random p' ∧
      p'.pushed = p.pushed ++ [(draw, ⟨caller, p.pushed.length⟩)] := by
  have hlt : draw < p.threads.length := hrandom.threads.symm ▸ hdraw
  have hindex : p.getNextIndex (hashSeed seeds caller) draw = some ((draw : ℤ), p) := by
    rw [Pool.getNextIndex, hrandom.strategy, hrandom.threadNum]
    exact if_pos hdraw
  obtain ⟨p', hp', hpushed⟩ := Pool.exists_addTask caller hindex hlt
  have hmade : Made .random 4 p' :=
    Made.step (a := .addTask caller draw)
      ⟨hrandom.strategy, hrandom.threadNum, hrandom.threads⟩ hp'
  exact ⟨p', hp', ⟨hmade.sameStrategy, hmade.sameNum, hmade.threads⟩, hpushed⟩

/-- Any submissions, with any draws, are the submissions of a run. -/
theorem Random.exists_run {p : Pool} (hrandom : Random p) (calls : List (Caller × ℕ))
    (hdraws : ∀ c ∈ calls, c.2 < 4) :
    ∃ p', exec (step seeds) p (calls.map fun c => .addTask c.1 c.2) = some p' ∧
      p'.pushed.map (fun x => (x.2.caller, x.1)) =
        p.pushed.map (fun x => (x.2.caller, x.1)) ++ calls := by
  induction calls generalizing p with
  | nil => exact ⟨p, rfl, (List.append_nil _).symm⟩
  | cons c calls ih =>
      obtain ⟨p₁, hp₁, hrandom₁, hpushed⟩ :=
        @Random.addTask seeds p hrandom c.1 c.2 (hdraws c List.mem_cons_self)
      obtain ⟨p', hp', heq⟩ := ih hrandom₁ fun c hc => hdraws c (List.mem_cons_of_mem _ hc)
      refine ⟨p', ?_, ?_⟩
      · rw [List.map_cons, exec, hp₁]
        exact hp'
      · rw [heq, hpushed]
        simp

theorem submissions_addTasks (calls : List (Caller × ℕ)) :
    submissions (calls.map fun c => .addTask c.1 c.2) = calls.map Prod.fst := by
  induction calls with
  | nil => rfl
  | cons c calls ih =>
      rw [List.map_cons, List.map_cons, ← ih]
      rfl

omit seeds in
/-- A caller that occurs twice. -/
theorem exists_two_of_count {callers : List Caller} {c : Caller} (h : 2 ≤ callers.count c) :
    ∃ l₁ l₂ l₃, callers = l₁ ++ c :: (l₂ ++ c :: l₃) := by
  obtain ⟨l₁, rest, rfl, hl₁⟩ :=
    List.eq_append_cons_of_mem (List.one_le_count_iff.mp (by omega : 1 ≤ callers.count c))
  rw [List.count_append, List.count_eq_zero_of_not_mem hl₁, List.count_cons_self] at h
  obtain ⟨l₂, l₃, rfl⟩ :=
    List.append_of_mem (List.one_le_count_iff.mp (by omega : 1 ≤ rest.count c))
  exact ⟨l₁, l₂, l₃, rfl⟩

/-- **Worker affinity of the global pool.** Whatever the other callers do, the tasks of a
consistent worker are certain to be pushed to one channel, and so to start in the order of their
submission, only if there is at most one of them. -/
theorem affinity_iff (seeds : ℕ → Fin (2 ^ 31)) (w : ℕ) (callers : List Caller) :
    (∀ (as : List Action) (p : Pool), submissions as = callers →
        exec (step seeds) globalIOWorkerPool as = some p → Affine p w) ↔
      callers.count (.consistent w) ≤ 1 := by
  constructor
  · intro haffine
    by_contra hcount
    obtain ⟨l₁, l₂, l₃, rfl⟩ :=
      exists_two_of_count (Nat.lt_of_not_le hcount : 2 ≤ callers.count (.consistent w))
    -- the first of the two tasks goes to the first channel, the second one to another
    let calls : List (Caller × ℕ) :=
      l₁.map (fun c => (c, 0)) ++ (.consistent w, 0) ::
        (l₂.map (fun c => (c, 0)) ++ (.consistent w, 1) :: l₃.map fun c => (c, 0))
    have hdraws : ∀ c ∈ calls, c.2 < 4 := by
      intro c hc
      simp only [calls, List.mem_append, List.mem_cons, List.mem_map] at hc
      rcases hc with ⟨c, -, rfl⟩ | rfl | ⟨c, -, rfl⟩ | rfl | ⟨c, -, rfl⟩ <;> simp
    have hrandom : Random globalIOWorkerPool := ⟨rfl, rfl, rfl⟩
    obtain ⟨p, hp, hpushed⟩ := @Random.exists_run seeds _ hrandom calls hdraws
    have hsubmissions : submissions (calls.map fun c => .addTask c.1 c.2) =
        l₁ ++ .consistent w :: (l₂ ++ .consistent w :: l₃) := by
      rw [submissions_addTasks]
      simp [calls, Function.comp_def]
    have hmem : ∀ i, (.consistent w, i) ∈ calls → ∃ x ∈ ofWorker w p.pushed, x.1 = i := by
      intro i hi
      have hi' : (.consistent w, i) ∈ p.pushed.map fun x => (x.2.caller, x.1) := hpushed ▸ hi
      obtain ⟨x, hx, heq⟩ := List.mem_map.mp hi'
      obtain ⟨hcaller, hfst⟩ := Prod.ext_iff.mp heq
      exact ⟨x, List.mem_filter.mpr ⟨hx, decide_eq_true hcaller⟩, hfst⟩
    obtain ⟨x, hx, hx0⟩ := hmem 0 (by simp [calls])
    obtain ⟨y, hy, hy1⟩ := hmem 1 (by simp [calls])
    have hsame := (haffine _ p hsubmissions hp).sameChannel x hx y hy
    omega
  · rintro hcount as p rfl hp
    refine affine_of_sameChannel (fifo_of_exec hp) ?_
    have hcallers : p.pushed.map (fun x => x.2.caller) = submissions as := pushed_callers hp
    have hlength : (ofWorker w p.pushed).length ≤ 1 := by
      rw [← hcallers, List.count, List.countP_map, List.countP_eq_length_filter] at hcount
      have hfilter : ofWorker w p.pushed = p.pushed.filter
          ((fun c => c == Caller.consistent w) ∘ fun x => x.2.caller) :=
        List.filter_congr fun _ _ => rfl
      rwa [hfilter]
    intro x hx y hy
    obtain ⟨i, hi, rfl⟩ := List.getElem_of_mem hx
    obtain ⟨j, hj, rfl⟩ := List.getElem_of_mem hy
    obtain rfl : i = j := by omega
    rfl

end Runs

/-- Two tasks of one worker go to two channels, and the second one starts before the first. -/
theorem affinity_lost :
    ¬ ∀ (seeds : ℕ → Fin (2 ^ 31)) (as : List Action) (p : Pool) (w : ℕ),
      exec (step seeds) globalIOWorkerPool as = some p → Affine p w := by
  intro hall
  have haffine := hall (fun _ => 7) [.addTask (.consistent 0) 0, .addTask (.consistent 0) 1,
    .pop 1, .start 1] _ 0 rfl
  exact absurd haffine.inOrder (by decide)

end ArchNet.WorkerPool
