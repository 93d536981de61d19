import ArchNet.WorkerPool

/-!
# Dispatch by Load

Under the strategy `LoadBalance` a task is meant for a thread with a shortest queue. The scan of
`get_next_index` keeps a candidate, but compares each queue with the first one: its bound is
never lowered. So it ends with the last queue that is shorter than the first one.

## Main results

* `isLast_foldl`: the loop invariant, for any condition on an index.
* `takesShortest_iff`: the index is that of a shortest queue **exactly if no queue behind all the
  shortest ones is shorter than the first one**, for any number of threads and any queues.
* `takesShortest_of_exec`: so it is in every state of a pool of at most two threads.
* `addTask_shortest_iff`: the task itself goes to a shortest queue under the same condition.
-/

open Lts

namespace ArchNet.WorkerPool

/-! ### Shortest queues -/

/-- The length of each thread's channel. -/
def Pool.sizes (p : Pool) : List ℕ := p.threads.map fun t => t.chan.length

/-- There is a `k`-th queue, and **none is shorter**. -/
def IsShortest (sizes : List ℕ) (k : ℕ) : Prop :=
  k < sizes.length ∧ ∀ i < sizes.length, sizes.getD k 0 ≤ sizes.getD i 0

/-- Behind each queue that is shorter than the first one, or in its place, there is a shortest
one: **no queue behind all the shortest ones is shorter than the first one**. -/
def ShortestLast (sizes : List ℕ) : Prop :=
  ∀ j < sizes.length, sizes.getD j 0 < sizes.getD 0 0 →
    ∃ k < sizes.length, j ≤ k ∧ IsShortest sizes k

instance (sizes : List ℕ) (k : ℕ) : Decidable (IsShortest sizes k) :=
  inferInstanceAs (Decidable (_ ∧ _))

instance (sizes : List ℕ) : Decidable (ShortestLast sizes) :=
  inferInstanceAs (Decidable (∀ j < sizes.length, _ → _))

/-- A pool of at least one thread, with as many channels as the constructor makes. -/
structure Staffed (p : Pool) : Prop where
  pos : 0 < p.threadNum
  threads : p.threads.length = p.threadNum

/-- **Dispatch by load**: the next index is that of a thread with a shortest queue. -/
def TakesShortest (p : Pool) (hashSeed : ℤ) (draw : ℕ) : Prop :=
  ∃ (k : ℕ) (p' : Pool), p.getNextIndex hashSeed draw = some ((k : ℤ), p') ∧
    k < p.threadNum ∧ IsShortest p.sizes k

/-! ### The scan -/

/-- The last of the indices `1, …, k` with a property, or `0` if none has it. -/
structure IsLast (P : ℕ → Prop) (k idx : ℕ) : Prop where
  le : idx ≤ k
  holds : idx ≠ 0 → P idx
  last : ∀ j, idx < j → j ≤ k → ¬ P j

/-- One round of the scan. -/
theorem IsLast.succ {P : ℕ → Prop} [DecidablePred P] {k idx : ℕ} (h : IsLast P k idx) :
    IsLast P (k + 1) (if P (k + 1) then k + 1 else idx) := by
  by_cases hP : P (k + 1)
  · rw [if_pos hP]
    refine ⟨le_rfl, fun _ => hP, ?_⟩
    intro j hlt hle
    omega
  · rw [if_neg hP]
    refine ⟨h.le.trans (Nat.le_succ k), h.holds, ?_⟩
    intro j hlt hle
    rcases Nat.le_succ_iff.mp hle with hle | rfl
    · exact h.last j hlt hle
    · exact hP

/-- **The loop invariant.** -/
theorem isLast_foldl (P : ℕ → Prop) [DecidablePred P] (k : ℕ) :
    IsLast P k ((List.range' 1 k).foldl (fun idx i => if P i then i else idx) 0) := by
  induction k with
  | zero =>
      refine ⟨le_rfl, fun h => absurd rfl h, ?_⟩
      intro j hlt hle
      omega
  | succ k ih =>
      rw [List.range'_1_concat, List.foldl_append, Nat.add_comm 1 k]
      exact ih.succ

/-- The scan ends with the last queue that is shorter than the first one. -/
theorem isLast_leastLoaded (sizes : List ℕ) :
    IsLast (fun i => sizes.getD i 0 < sizes.getD 0 0) (sizes.length - 1)
      (Pool.leastLoaded sizes) :=
  isLast_foldl _ _

-- the queue of three tasks is passed over for a longer one behind it
example : Pool.leastLoaded [5, 3, 4] = 2 := by decide

/-- The worker that is taken is one of the pool. -/
theorem leastLoaded_lt {sizes : List ℕ} (h : 0 < sizes.length) :
    Pool.leastLoaded sizes < sizes.length := by
  have hle := (isLast_leastLoaded sizes).le
  omega

/-- Its queue is a shortest one exactly if no queue behind all the shortest ones is shorter than
the first one. -/
theorem isShortest_leastLoaded_iff {sizes : List ℕ} (h : 0 < sizes.length) :
    IsShortest sizes (Pool.leastLoaded sizes) ↔ ShortestLast sizes := by
  have hscan := isLast_leastLoaded sizes
  have hlt := leastLoaded_lt h
  constructor
  · intro hshort j hj hbelow
    refine ⟨Pool.leastLoaded sizes, hlt, ?_, hshort⟩
    by_contra hbehind
    exact hscan.last j (by omega) (by omega) hbelow
  · intro hbehind
    by_cases hfirst : Pool.leastLoaded sizes = 0
    · refine ⟨hlt, ?_⟩
      intro i hi
      rw [hfirst]
      by_contra hbelow
      -- the first queue is not shorter than itself
      have hi0 : i ≠ 0 := by
        rintro rfl
        exact hbelow le_rfl
      exact hscan.last i (by omega) (by omega) (Nat.lt_of_not_le hbelow)
    · have hbelow := hscan.holds hfirst
      obtain ⟨k, hk, hle, hshort⟩ := hbehind _ hlt hbelow
      -- a shortest queue is shorter than the first one, so it is not behind the last of these
      have hkbelow : sizes.getD k 0 < sizes.getD 0 0 := (hshort.2 _ hlt).trans_lt hbelow
      have heq : k = Pool.leastLoaded sizes := by
        by_contra hne
        exact hscan.last k (by omega) (by omega) hkbelow
      exact heq ▸ hshort

/-! ### The pool -/

/-- `get_next_index` takes it. -/
theorem Pool.getNextIndex_loadBalance {p : Pool} (h : p.strategy = .loadBalance) (hashSeed : ℤ)
    (draw : ℕ) : p.getNextIndex hashSeed draw = some ((leastLoaded p.sizes : ℤ), p) := by
  rw [getNextIndex, h]
  rfl

/-- Every worker has a queue. -/
theorem Staffed.length_sizes {p : Pool} (h : Staffed p) : p.sizes.length = p.threadNum :=
  (List.length_map _).trans h.threads

/-- **Dispatch by load**, for every number of threads and all lengths of their queues. -/
theorem takesShortest_iff {p : Pool} (hstrategy : p.strategy = .loadBalance) (h : Staffed p)
    (hashSeed : ℤ) (draw : ℕ) : TakesShortest p hashSeed draw ↔ ShortestLast p.sizes := by
  have hpos : 0 < p.sizes.length := h.length_sizes.symm ▸ h.pos
  have hindex := Pool.getNextIndex_loadBalance hstrategy hashSeed draw
  rw [← isShortest_leastLoaded_iff hpos]
  constructor
  · rintro ⟨k, p', hk, -, hshort⟩
    rw [hindex] at hk
    have heq : Pool.leastLoaded p.sizes = k :=
      Int.ofNat_inj.mp (Prod.ext_iff.mp (Option.some.inj hk)).1
    exact heq ▸ hshort
  · intro hshort
    exact ⟨_, p, hindex, h.length_sizes ▸ hshort.1, hshort⟩

/-- Queues of 2, 1 and no tasks: the last one is the shortest. -/
theorem takesShortest_descending :
    TakesShortest ⟨.loadBalance, 3, 0, [⟨[⟨.other 5, 0⟩, ⟨.other 5, 2⟩], []⟩,
      ⟨[⟨.other 5, 1⟩], []⟩, ⟨[], []⟩], [], []⟩ 5 0 :=
  (takesShortest_iff rfl ⟨by decide, rfl⟩ 5 0).mpr (by decide)

/-- In a pool of three threads that starts empty, four tasks are added and the second thread takes
its one. The queues then hold 2, 0 and 1 tasks, and the next task goes to the third. -/
theorem longer_queue_taken :
    ¬ ∀ (threadNum : ℕ) (as : List Action) (p : Pool), 0 < threadNum →
      exec (step fun _ => 0) (ioWorkerPool threadNum .loadBalance) as = some p →
        TakesShortest p 0 0 := by
  intro hall
  obtain ⟨k, p', hk, -, hshort⟩ := hall 3 [.addTask (.other 0) 0, .addTask (.other 0) 0,
    .addTask (.other 0) 0, .addTask (.other 0) 0, .pop 1] _ (by decide) rfl
  obtain rfl : k = 2 := (Int.ofNat_inj.mp (Prod.ext_iff.mp (Option.some.inj hk)).1).symm
  exact absurd hshort (by decide)

/-- Where the task goes. -/
theorem addTask_shortest_iff {p : Pool} (hstrategy : p.strategy = .loadBalance) (h : Staffed p)
    (caller : Caller) (hashSeed : ℤ) (draw : ℕ) :
    (∃ (k : ℕ) (p' : Pool), p.addTask caller hashSeed draw = some p' ∧
        p'.pushed = p.pushed ++ [(k, ⟨caller, p.pushed.length⟩)] ∧ IsShortest p.sizes k) ↔
      ShortestLast p.sizes := by
  have hpos : 0 < p.sizes.length := h.length_sizes.symm ▸ h.pos
  have hlt : Pool.leastLoaded p.sizes < p.threads.length :=
    (leastLoaded_lt hpos).trans_eq (List.length_map _)
  obtain ⟨q, hq, hqpushed⟩ :=
    Pool.exists_addTask caller (Pool.getNextIndex_loadBalance hstrategy hashSeed draw) hlt
  rw [← isShortest_leastLoaded_iff hpos]
  constructor
  · rintro ⟨k, p', hp', hpushed, hshort⟩
    obtain rfl : q = p' := Option.some.inj (hq.symm.trans hp')
    have hlast := List.append_cancel_left (hqpushed.symm.trans hpushed)
    have heq : Pool.leastLoaded p.sizes = k := (Prod.ext_iff.mp (List.singleton_inj.mp hlast)).1
    exact heq ▸ hshort
  · intro hshort
    exact ⟨_, q, hq, hqpushed, hshort⟩

/-! ### Runs -/

/-- With at most two queues, one that is shorter than the first is the shortest. -/
theorem shortestLast_of_length_le {sizes : List ℕ} (h : sizes.length ≤ 2) :
    ShortestLast sizes := by
  intro j hj hbelow
  have hj1 : j = 1 := by
    by_contra hne
    obtain rfl : j = 0 := by omega
    exact lt_irrefl _ hbelow
  subst hj1
  refine ⟨1, hj, le_rfl, hj, ?_⟩
  intro i hi
  rcases Nat.lt_or_ge i 1 with hi0 | hi1
  · obtain rfl : i = 0 := by omega
    exact hbelow.le
  · obtain rfl : i = 1 := by omega
    exact le_rfl

section Runs

variable {seeds : ℕ → Fin (2 ^ 31)} {p : Pool}

/-- A pool that was made has its workers. -/
theorem Made.staffed {strategy : WorkStrategy} {threadNum : ℕ} (h : Made strategy threadNum p)
    (hpos : 0 < threadNum) : Staffed p :=
  ⟨h.sameNum.symm ▸ hpos, h.threads.trans h.sameNum.symm⟩

/-- **A pool of at most two threads** dispatches by load in every state of every run. -/
theorem takesShortest_of_exec {threadNum : ℕ} {as : List Action} (hpos : 0 < threadNum)
    (htwo : threadNum ≤ 2)
    (h : exec (step seeds) (ioWorkerPool threadNum .loadBalance) as = some p)
    (hashSeed : ℤ) (draw : ℕ) : TakesShortest p hashSeed draw := by
  have hmade := made_of_exec h
  have hstaffed := hmade.staffed hpos
  refine (takesShortest_iff hmade.sameStrategy hstaffed hashSeed draw).mpr
    (shortestLast_of_length_le ?_)
  rw [hstaffed.length_sizes, hmade.sameNum]
  exact htwo

end Runs

end ArchNet.WorkerPool
