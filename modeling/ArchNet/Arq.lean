import Mathlib.Logic.Relation
import Mathlib.Data.Set.Insert
import Mathlib.Data.List.Sort

/-!
# Automatic Repeat Request

One direction of a link over a network that may lose, repeat and reorder packets. The sender numbers
its items and keeps a number pending until it is acknowledged; the receiver keeps the items that
come early, and takes them in the order of their numbers. Nothing is said of times, windows or
buffers: any pending item may be sent at any time, and nothing has to be.

The network is the set of the packets ever sent. A packet in it may be received any number of times,
and a packet is lost by not being received.

* `State` — the two ends and the network; `TxStep`, `RxStep` — what either end may do.
* `Safe` — the invariant.

## Main results

* `safe_of_reachable`: **the invariant holds in every state reached.**
* `taken_prefix`: what the receiver has taken is a beginning of what the sender has numbered.
* `pending_or_received`: **no number is lost** — it is pending, or its item was received.
* `taken_append_eq_log`: with nothing pending, all has been taken or came early.
-/

namespace Arq

/-- A packet: an item with its number, or one of the two kinds of acknowledgement. -/
inductive Packet (α : Type*)
  | push (n : ℕ) (x : α)
  | ack (n : ℕ)
  | una (n : ℕ)

/-- The items in the order of their numbers, and the numbers that are not acknowledged. -/
structure Sender (α : Type*) where
  log : List α
  pending : Set ℕ

/-- The next number to be taken, the items that came early, and the items taken. -/
structure Receiver (α : Type*) where
  next : ℕ
  stash : Set (ℕ × α)
  taken : List α

/-- The two ends of one direction, and the packets ever sent. -/
structure State (α : Type*) where
  tx : Sender α
  rx : Receiver α
  net : Set (Packet α)

variable {α : Type*} {s t u : State α}

/-- The item of this number has come. -/
def Receiver.Received (r : Receiver α) (n : ℕ) : Prop := n < r.next ∨ ∃ x, (n, x) ∈ r.stash

/-- Nothing has been numbered or sent. -/
def State.start : State α where
  tx := ⟨[], ∅⟩
  rx := ⟨0, ∅, []⟩
  net := ∅

/-- A step of the sender. -/
inductive TxStep : State α → State α → Prop
  | number (s : State α) (x : α) :
      TxStep s { s with tx := ⟨s.tx.log ++ [x], insert s.tx.log.length s.tx.pending⟩ }
  | push (s : State α) (n : ℕ) (x : α) :
      n ∈ s.tx.pending → s.tx.log[n]? = some x →
        TxStep s { s with net := insert (.push n x) s.net }
  | release (s : State α) (n : ℕ) :
      (.ack n ∈ s.net ∨ ∃ m, n < m ∧ .una m ∈ s.net) →
        TxStep s { s with tx := { s.tx with pending := s.tx.pending \ {n} } }

/-- A step of the receiver. -/
inductive RxStep : State α → State α → Prop
  | accept (s : State α) (n : ℕ) (x : α) :
      .push n x ∈ s.net → s.rx.next ≤ n → (∀ y, (n, y) ∉ s.rx.stash) →
        RxStep s { s with rx := { s.rx with stash := insert (n, x) s.rx.stash } }
  | shift (s : State α) (x : α) :
      (s.rx.next, x) ∈ s.rx.stash →
        RxStep s { s with
          rx := ⟨s.rx.next + 1, s.rx.stash \ {(s.rx.next, x)}, s.rx.taken ++ [x]⟩ }
  | ack (s : State α) (n : ℕ) :
      s.rx.Received n → RxStep s { s with net := insert (.ack n) s.net }
  | una (s : State α) : RxStep s { s with net := insert (.una s.rx.next) s.net }

/-- A step of either end. -/
def Step (s t : State α) : Prop := TxStep s t ∨ RxStep s t

/-- Steps of the sender alone. -/
abbrev TxRun : State α → State α → Prop := Relation.ReflTransGen TxStep

/-- Steps of the receiver alone. -/
abbrev RxRun : State α → State α → Prop := Relation.ReflTransGen RxStep

/-- A state that the two ends reach. -/
def Reachable (s : State α) : Prop := Relation.ReflTransGen Step .start s

/-- The sender goes on from a state that is reached. -/
theorem Reachable.tx (h : Reachable s) (hrun : TxRun s t) : Reachable t :=
  Relation.ReflTransGen.trans h (Relation.ReflTransGen.mono (fun _ _ => Or.inl) _ _ hrun)

/-- So does the receiver. -/
theorem Reachable.rx (h : Reachable s) (hrun : RxRun s t) : Reachable t :=
  Relation.ReflTransGen.trans h (Relation.ReflTransGen.mono (fun _ _ => Or.inr) _ _ hrun)

/-! ### What the steps of one end leave alone -/

/-- The sender leaves the receiver alone. -/
theorem TxStep.rx_eq (h : TxStep s t) : t.rx = s.rx := by
  cases h <;> rfl

/-- A packet that the sender has sent stays in the network. -/
theorem TxStep.net_subset (h : TxStep s t) : s.net ⊆ t.net := by
  cases h with
  | push n x _ _ => exact Set.subset_insert _ _
  | number | release => exact subset_rfl

/-- The receiver leaves the sender alone. -/
theorem RxStep.tx_eq (h : RxStep s t) : t.tx = s.tx := by
  cases h <;> rfl

/-- An acknowledgement stays in the network. -/
theorem RxStep.net_subset (h : RxStep s t) : s.net ⊆ t.net := by
  cases h with
  | ack | una => exact Set.subset_insert _ _
  | accept | shift => exact subset_rfl

/-- A run of the sender leaves the receiver alone. -/
theorem TxRun.rx_eq (h : TxRun s t) : t.rx = s.rx := by
  induction h with
  | refl => rfl
  | tail _ hs ih => rw [hs.rx_eq, ih]

/-- It takes no packet out of the network. -/
theorem TxRun.net_subset (h : TxRun s t) : s.net ⊆ t.net := by
  induction h with
  | refl => exact subset_rfl
  | tail _ hs ih => exact ih.trans hs.net_subset

/-- A run of the receiver leaves the sender alone. -/
theorem RxRun.tx_eq (h : RxRun s t) : t.tx = s.tx := by
  induction h with
  | refl => rfl
  | tail _ hs ih => rw [hs.tx_eq, ih]

/-- It takes no packet out of the network. -/
theorem RxRun.net_subset (h : RxRun s t) : s.net ⊆ t.net := by
  induction h with
  | refl => exact subset_rfl
  | tail _ hs ih => exact ih.trans hs.net_subset

/-- What has been received stays received. -/
theorem RxStep.received (h : RxStep s t) {n : ℕ} (hn : s.rx.Received n) : t.rx.Received n := by
  cases h with
  | accept m x _ _ _ => exact hn.imp id fun ⟨y, hy⟩ => ⟨y, Set.mem_insert_of_mem _ hy⟩
  | shift x hx =>
      rcases hn with hlt | ⟨y, hy⟩
      · exact Or.inl (Nat.lt_succ_of_lt hlt)
      · by_cases hnext : n = s.rx.next
        · exact Or.inl (hnext ▸ Nat.lt_succ_self _)
        · refine Or.inr ⟨y, hy, ?_⟩
          intro heq
          exact hnext (congrArg Prod.fst heq)
  | ack | una => exact hn

/-- The same over a run of the receiver. -/
theorem RxRun.received (h : RxRun s t) {n : ℕ} (hn : s.rx.Received n) : t.rx.Received n := by
  induction h with
  | refl => exact hn
  | tail _ hs ih => exact hs.received ih

/-! ### The invariant -/

/-- The packets tell the truth, and every number is pending or received. -/
structure Safe (s : State α) : Prop where
  taken_eq : s.rx.taken = s.tx.log.take s.rx.next
  next_le : s.rx.next ≤ s.tx.log.length
  stash : ∀ n x, (n, x) ∈ s.rx.stash → s.rx.next ≤ n ∧ s.tx.log[n]? = some x
  push : ∀ n x, .push n x ∈ s.net → s.tx.log[n]? = some x
  ack : ∀ n, .ack n ∈ s.net → s.rx.Received n
  una : ∀ n, .una n ∈ s.net → n ≤ s.rx.next
  complete : ∀ n < s.tx.log.length, n ∈ s.tx.pending ∨ s.rx.Received n

/-- Nothing has been numbered, so nothing is wrong. -/
theorem safe_start : Safe (.start : State α) where
  taken_eq := rfl
  next_le := Nat.le_refl 0
  stash := fun _ _ h => h.elim
  push := fun _ _ h => h.elim
  ack := fun _ h => h.elim
  una := fun _ h => h.elim
  complete := fun _ h => absurd h (Nat.not_lt_zero _)

/-- An item keeps its number. -/
theorem getElem?_log_append {l : List α} {n : ℕ} {x y : α} (h : l[n]? = some x) :
    (l ++ [y])[n]? = some x := by
  rw [List.getElem?_append_left (List.getElem?_eq_some_iff.mp h).1, h]

/-- **A step of the sender keeps the invariant.** It releases what is acknowledged, which has come.
-/
theorem Safe.txStep (h : Safe s) (hs : TxStep s t) : Safe t := by
  cases hs with
  | number x =>
      refine ⟨?_, ?_, ?_, ?_, h.ack, h.una, ?_⟩
      · rw [h.taken_eq, List.take_append_of_le_length h.next_le]
      · rw [List.length_append]
        exact Nat.le_add_right_of_le h.next_le
      · exact fun n y hy => (h.stash n y hy).imp id getElem?_log_append
      · exact fun n y hy => getElem?_log_append (h.push n y hy)
      · intro n hn
        rw [List.length_append, List.length_singleton, Nat.lt_succ_iff_lt_or_eq] at hn
        rcases hn with hn | rfl
        · exact (h.complete n hn).imp (Set.mem_insert_of_mem _) id
        · exact Or.inl (Set.mem_insert _ _)
  | push n x _ hx =>
      refine ⟨h.taken_eq, h.next_le, h.stash, ?_, ?_, ?_, h.complete⟩
      · rintro m y (heq | hy)
        · cases heq
          exact hx
        · exact h.push m y hy
      · rintro m (heq | hm)
        · cases heq
        · exact h.ack m hm
      · rintro m (heq | hm)
        · cases heq
        · exact h.una m hm
  | release n hn =>
      -- a number is released only when its item is known to have come
      have hreceived : s.rx.Received n := by
        rcases hn with hack | ⟨m, hlt, huna⟩
        · exact h.ack n hack
        · exact Or.inl (lt_of_lt_of_le hlt (h.una m huna))
      refine ⟨h.taken_eq, h.next_le, h.stash, h.push, h.ack, h.una, ?_⟩
      intro m hm
      by_cases heq : m = n
      · exact Or.inr (heq ▸ hreceived)
      · exact (h.complete m hm).imp (fun hp => ⟨hp, heq⟩) id

/-- **A step of the receiver keeps the invariant.** It acknowledges what has come. -/
theorem Safe.rxStep (h : Safe s) (hs : RxStep s t) : Safe t := by
  have hreceived {n : ℕ} (hn : s.rx.Received n) : t.rx.Received n := hs.received hn
  cases hs with
  | accept n x hpush hle _ =>
      refine ⟨h.taken_eq, h.next_le, ?_, h.push, fun m hm => hreceived (h.ack m hm), h.una,
        fun m hm => (h.complete m hm).imp id hreceived⟩
      rintro m y (heq | hy)
      · cases heq
        exact ⟨hle, h.push n x hpush⟩
      · exact h.stash m y hy
  | shift x hx =>
      obtain ⟨-, hlog⟩ := h.stash _ x hx
      refine ⟨?_, (List.getElem?_eq_some_iff.mp hlog).1, ?_, h.push,
        fun m hm => hreceived (h.ack m hm), fun m hm => Nat.le_succ_of_le (h.una m hm),
        fun m hm => (h.complete m hm).imp id hreceived⟩
      · rw [h.taken_eq, List.take_add_one, hlog, Option.toList_some]
      · rintro m y ⟨hy, hne⟩
        obtain ⟨hle, hm⟩ := h.stash m y hy
        refine ⟨Nat.lt_of_le_of_ne hle ?_, hm⟩
        rintro rfl
        exact hne (by rw [Set.mem_singleton_iff, Option.some.inj (hm.symm.trans hlog)])
  | ack n hn =>
      refine ⟨h.taken_eq, h.next_le, h.stash, ?_, ?_, ?_, h.complete⟩
      · rintro m y (heq | hy)
        · cases heq
        · exact h.push m y hy
      · rintro m (heq | hm)
        · cases heq
          exact hn
        · exact h.ack m hm
      · rintro m (heq | hm)
        · cases heq
        · exact h.una m hm
  | una =>
      refine ⟨h.taken_eq, h.next_le, h.stash, ?_, ?_, ?_, h.complete⟩
      · rintro m y (heq | hy)
        · cases heq
        · exact h.push m y hy
      · rintro m (heq | hm)
        · cases heq
        · exact h.ack m hm
      · rintro m (heq | hm)
        · cases heq
          exact Nat.le_refl _
        · exact h.una m hm

/-- So does a run of the sender. -/
theorem Safe.txRun (h : Safe s) (hr : TxRun s t) : Safe t := by
  induction hr with
  | refl => exact h
  | tail _ hs ih => exact ih.txStep hs

/-- So does a run of the receiver. -/
theorem Safe.rxRun (h : Safe s) (hr : RxRun s t) : Safe t := by
  induction hr with
  | refl => exact h
  | tail _ hs ih => exact ih.rxStep hs

/-- **The invariant holds in every state reached.** -/
theorem safe_of_reachable (h : Reachable s) : Safe s := by
  induction h with
  | refl => exact safe_start
  | tail _ hs ih => exact hs.elim ih.txStep ih.rxStep

/-- What has been taken is a beginning of what was numbered. -/
theorem taken_prefix (h : Reachable s) : s.rx.taken <+: s.tx.log := by
  rw [(safe_of_reachable h).taken_eq]
  exact List.take_prefix _ _

/-- **No number is lost.** -/
theorem pending_or_received (h : Reachable s) {n : ℕ} (hn : n < s.tx.log.length) :
    n ∈ s.tx.pending ∨ s.rx.Received n :=
  (safe_of_reachable h).complete n hn

/-- With nothing pending, an item that has not been taken is in the stash. -/
theorem mem_stash (h : Reachable s) (hpending : s.tx.pending = ∅) {n : ℕ} (hnext : s.rx.next ≤ n)
    {x : α} (hx : s.tx.log[n]? = some x) : (n, x) ∈ s.rx.stash := by
  have hsafe := safe_of_reachable h
  rcases pending_or_received h (List.getElem?_eq_some_iff.mp hx).1 with hp | hlt | ⟨y, hy⟩
  · rw [hpending] at hp
    exact hp.elim
  · omega
  · have heq := hx.symm.trans (hsafe.stash n y hy).2
    exact Option.some.inj heq ▸ hy

/-- **All has been taken or has come**, if nothing is pending: what came early, in the order of its
numbers, is the rest of the log. -/
theorem taken_append_eq_log (h : Reachable s) (hpending : s.tx.pending = ∅) {l : List (ℕ × α)}
    (hsorted : l.Pairwise fun p q => p.1 < q.1) (hl : ∀ p, p ∈ l ↔ p ∈ s.rx.stash) :
    s.rx.taken ++ l.map Prod.snd = s.tx.log := by
  have hsafe := safe_of_reachable h
  have hrest : l = ((s.tx.log.drop s.rx.next).zipIdx s.rx.next).map Prod.swap := by
    refine hsorted.eq_of_mem_iff ?_ ?_
    · rw [List.pairwise_map]
      have hnumbers :
          (((s.tx.log.drop s.rx.next).zipIdx s.rx.next).map Prod.snd).Pairwise (· < ·) := by
        rw [List.zipIdx_map_snd]
        exact List.pairwise_lt_range'
      exact List.pairwise_map.mp hnumbers
    · rintro ⟨n, x⟩
      have hrest : (n, x) ∈ ((s.tx.log.drop s.rx.next).zipIdx s.rx.next).map Prod.swap ↔
          s.rx.next ≤ n ∧ s.tx.log[n]? = some x := by
        have hswap : (n, x) ∈ ((s.tx.log.drop s.rx.next).zipIdx s.rx.next).map Prod.swap ↔
            (x, n) ∈ (s.tx.log.drop s.rx.next).zipIdx s.rx.next :=
          List.mem_map_of_injective Prod.swap_injective (a := (x, n))
        rw [hswap, List.mk_mem_zipIdx_iff_le_and_getElem?_sub]
        refine and_congr_right fun hle => ?_
        rw [List.getElem?_drop, Nat.add_sub_cancel' hle]
      rw [hl, hrest]
      exact ⟨hsafe.stash n x, fun hx => mem_stash h hpending hx.1 hx.2⟩
  have hsnd : l.map Prod.snd = s.tx.log.drop s.rx.next := by
    rw [hrest, List.map_map]
    exact List.zipIdx_map_fst _ _
  rw [hsafe.taken_eq, hsnd, List.take_append_drop]

end Arq
