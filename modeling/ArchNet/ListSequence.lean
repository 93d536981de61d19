import ArchNet.IntrusiveList

/-!
# Intrusive Lists are Sequences

The lists of `utils/list.h` against sequences of nodes: what each call does to the sequences, and
that it does the same to the lists. The members of the lists are read off their rings.

## Main results

* `Represents.step`: a call keeps the lists **equal to their sequences**.
* `Represents.step_eq_none`: appending an empty list takes a member of a null pointer.
* `lists_refine_iff`: **the lists are sequences**, in every run that appends no empty list to one
  that is not empty.
-/

open Rings

namespace ArchNet.IntrusiveList

variable {ι α : Type*}

/-! ### Sequences -/

section Sequences

variable [DecidableEq ι]

/-- Two sequences after a split. -/
def setBoth (q : ι → List α) (i j : ι) (rest front : List α) : ι → List α :=
  Function.update (Function.update q i rest) j front

end Sequences

section Names

variable [DecidableEq ι] {q : ι → List α} {i j k : ι}

theorem setBoth_left (hij : i ≠ j) (l m : List α) : setBoth q i j l m i = l := by
  rw [setBoth, Function.update_of_ne hij, Function.update_self]

theorem setBoth_right (l m : List α) : setBoth q i j l m j = m := Function.update_self ..

theorem setBoth_of_ne (hi : k ≠ i) (hj : k ≠ j) (l m : List α) : setBoth q i j l m k = q k := by
  rw [setBoth, Function.update_of_ne hj, Function.update_of_ne hi]

end Names

/-- The lists **are the sequences**: the nodes of each are a ring that starts at its first node, no
node is in a list twice or in two lists, and a node in no list is single. -/
structure Represents (s : Lists ι α) (q : ι → List α) : Prop where
  ring : ∀ i, Ring s.links (q i)
  node : ∀ i, s.node i = (q i).head?
  nodup : ∀ i, (q i).Nodup
  disjoint : ∀ i j, i ≠ j → (q i).Disjoint (q j)
  alone : ∀ x, (∀ i, x ∉ q i) → Ring s.links [x]

section Changing

variable {s s' : Lists ι α} {q q' : ι → List α} {S : ι → Prop} {touched : List α}

/-- **Some lists change**, with nodes that are in no other: these are new rings, and nodes that they
lose are alone. -/
theorem Represents.change (h : Represents s q)
    (hframe : ∀ w : List α, w.Disjoint touched → Ring s.links w → Ring s'.links w)
    (hkept : ∀ k, ¬ S k → q' k = q k ∧ s'.node k = s.node k ∧ (q k).Disjoint touched)
    (hring : ∀ k, S k → Ring s'.links (q' k) ∧ (q' k).Nodup ∧ s'.node k = (q' k).head?)
    (hsub : ∀ k, S k → q k ⊆ touched ∧ q' k ⊆ touched)
    (hpair : ∀ a b, S a → S b → a ≠ b → (q' a).Disjoint (q' b))
    (halone : ∀ x ∈ touched, (∀ k, x ∉ q' k) → Ring s'.links [x]) : Represents s' q' where
  ring k := by
    by_cases hk : S k
    · exact (hring k hk).1
    · rw [(hkept k hk).1]
      exact hframe _ (hkept k hk).2.2 (h.ring k)
  node k := by
    by_cases hk : S k
    · exact (hring k hk).2.2
    · rw [(hkept k hk).1, (hkept k hk).2.1, h.node]
  nodup k := by
    by_cases hk : S k
    · exact (hring k hk).2.1
    · rw [(hkept k hk).1]
      exact h.nodup k
  disjoint a b hab := by
    have hout : ∀ k c, ¬ S k → S c → (q' k).Disjoint (q' c) := by
      intro k c hk hc
      rw [(hkept k hk).1]
      exact List.disjoint_of_subset_right (hsub c hc).2 (hkept k hk).2.2
    by_cases ha : S a
    · by_cases hb : S b
      · exact hpair a b ha hb hab
      · exact List.disjoint_symm (hout b a hb ha)
    · by_cases hb : S b
      · exact hout a b ha hb
      · rw [(hkept a ha).1, (hkept b hb).1]
        exact h.disjoint a b hab
  alone x hx := by
    by_cases hxt : x ∈ touched
    · exact halone x hxt hx
    · refine hframe [x] (List.singleton_disjoint.mpr hxt) (h.alone x fun k hxk => ?_)
      by_cases hk : S k
      · exact hxt ((hsub k hk).1 hxk)
      · exact hx k (by rwa [(hkept k hk).1])

end Changing

section Updating

variable [DecidableEq ι] {s : Lists ι α} {q : ι → List α} {i j : ι} {x : α} {l m touched : List α}
  {links : Links α}

/-- **One list changes**, with nodes that are in no other. -/
theorem Represents.set (h : Represents s q)
    (hframe : ∀ w : List α, w.Disjoint touched → Ring s.links w → Ring links w)
    (hring : Ring links l) (hl : l.Nodup) (hold : q i ⊆ touched) (hnew : l ⊆ touched)
    (hout : ∀ k, k ≠ i → (q k).Disjoint touched)
    (halone : ∀ x ∈ touched, x ∉ l → Ring links [x]) :
    Represents (s.set i links l.head?) (Function.update q i l) := by
  have hi : Function.update q i l i = l := Function.update_self ..
  refine h.change (S := (· = i)) hframe (fun k hk => ?_) ?_ ?_ ?_ fun x hxt hx => ?_
  · exact ⟨Function.update_of_ne hk .., Lists.node_set_of_ne hk .., hout k hk⟩
  · rintro k rfl
    rw [hi]
    exact ⟨hring, hl, Lists.node_set_self ..⟩
  · rintro k rfl
    rw [hi]
    exact ⟨hold, hnew⟩
  · rintro a b rfl rfl hab
    exact absurd rfl hab
  · exact halone x hxt (hi ▸ hx i)

/-- **Two lists share their nodes** in another way. -/
theorem Represents.both (h : Represents s q) (hij : i ≠ j)
    (hframe : ∀ w : List α, w.Disjoint (l ++ m) → Ring s.links w → Ring links w)
    (hl : Ring links l) (hm : Ring links m) (hperm : (l ++ m).Perm (q i ++ q j)) :
    Represents ((s.set i links l.head?).set j links m.head?) (setBoth q i j l m) := by
  have hnodup : (l ++ m).Nodup := hperm.nodup_iff.mpr
    (List.nodup_append'.mpr ⟨h.nodup i, h.nodup j, h.disjoint i j hij⟩)
  obtain ⟨hnl, hnm, hlm⟩ := List.nodup_append'.mp hnodup
  have hi : setBoth q i j l m i = l := setBoth_left hij l m
  have hj : setBoth q i j l m j = m := setBoth_right l m
  refine h.change (S := fun k => k = i ∨ k = j) hframe (fun k hk => ?_) ?_ ?_ ?_
    fun x hxt hx => ?_
  · obtain ⟨hki, hkj⟩ := not_or.mp hk
    refine ⟨setBoth_of_ne hki hkj l m, ?_, fun x hxk hx => ?_⟩
    · rw [Lists.node_set_of_ne hkj, Lists.node_set_of_ne hki]
    · exact (List.mem_append.mp (hperm.subset hx)).elim (h.disjoint k i hki hxk)
        (h.disjoint k j hkj hxk)
  · rintro k (rfl | rfl)
    · rw [hi, Lists.node_set_of_ne hij, Lists.node_set_self]
      exact ⟨hl, hnl, rfl⟩
    · rw [hj, Lists.node_set_self]
      exact ⟨hm, hnm, rfl⟩
  · rintro k (rfl | rfl)
    · rw [hi]
      exact ⟨fun x hx => hperm.symm.subset (List.mem_append_left _ hx),
        List.subset_append_left l m⟩
    · rw [hj]
      exact ⟨fun x hx => hperm.symm.subset (List.mem_append_right _ hx),
        List.subset_append_right l m⟩
  · rintro a b (rfl | rfl) (rfl | rfl) hab
    · exact absurd rfl hab
    · rwa [hi, hj]
    · rw [hi, hj]
      exact List.disjoint_symm hlm
    · exact absurd rfl hab
  · rcases List.mem_append.mp hxt with hxl | hxm
    · exact absurd hxl (hi ▸ hx i)
    · exact absurd hxm (hj ▸ hx j)

/-- A list takes a node that was in no list. -/
theorem Represents.take (h : Represents s q) (hx : ∀ k, x ∉ q k) (hperm : l.Perm (q i ++ [x]))
    (hring : Ring links l)
    (hframe : ∀ w : List α, w.Disjoint (q i ++ [x]) → Ring s.links w → Ring links w) :
    Represents (s.set i links l.head?) (Function.update q i l) := by
  have hnodup : (q i ++ [x]).Nodup := List.nodup_append'.mpr
    ⟨h.nodup i, List.nodup_singleton x, List.disjoint_singleton.mpr (hx i)⟩
  refine h.set hframe hring (hperm.nodup_iff.mpr hnodup) (List.subset_append_left _ _) hperm.subset
    (fun k hk => ?_) fun y hy hyl => absurd (hperm.mem_iff.mpr hy) hyl
  exact List.disjoint_append_right.mpr ⟨h.disjoint k i hk, List.disjoint_singleton.mpr (hx k)⟩

/-- Nothing is taken from an **empty list**. -/
theorem Represents.same (h : Represents s q) (hq : q i = []) :
    Represents (s.set i s.links none) (Function.update q i []) := by
  have hnode : s.node i = none := by rw [h.node, hq, List.head?_nil]
  rw [← hnode, s.set_self, ← hq, Function.update_eq_self]
  exact h

/-- A split that takes **nothing**. -/
theorem Represents.none_off (h : Represents s q) (hij : i ≠ j) (hj : q j = []) :
    Represents (s.setSplit i j (s.links, s.node i, none)) (setBoth q i j (q i) []) := by
  rw [h.node]
  exact h.both hij (fun w _ hw => hw) (h.ring i) (ring_nil _) (by rw [hj])

/-- A split that takes **all**. -/
theorem Represents.all_off (h : Represents s q) (hij : i ≠ j) (hj : q j = []) :
    Represents (s.setSplit i j (s.links, none, s.node i)) (setBoth q i j [] (q i)) := by
  rw [h.node]
  exact h.both hij (fun w _ hw => hw) (ring_nil _) (h.ring i) (by rw [hj, List.append_nil]; rfl)

end Updating

/-! ### What the members do -/

section Reading

variable {h : Links α} {u v l : List α} {x y n : α}

/-- A list that is not empty has a first and a last node. -/
theorem exists_ends (hl : l ≠ []) : ∃ x x', x ∈ l.head? ∧ x' ∈ l.getLast? :=
  ⟨l.head hl, l.getLast hl, List.head?_eq_some_head hl, List.getLast?_eq_some_getLast hl⟩

/-- Behind a node that is not the last comes the next one. -/
theorem next_eq (hr : Ring h (u ++ x :: y :: v)) : h.next x = y :=
  Ring.next_eq (Ring.rotate (v := x :: y :: v) hr)

/-- Only behind **the last node** comes the first. -/
theorem next_eq_first_iff (hr : Ring h (u ++ x :: v)) (hnodup : (u ++ x :: v).Nodup)
    (hn : n ∈ (u ++ x :: v).head?) : h.next x = n ↔ v = [] := by
  cases v with
  | nil =>
      have hlast : x ∈ (u ++ [x]).getLast? := List.getLast?_concat
      exact iff_of_true (hr.2 x hlast n hn).1 rfl
  | cons y v =>
      refine iff_of_false (fun heq => ?_) (List.cons_ne_nil y v)
      rw [List.append_cons] at hnodup hn
      rw [List.head?_append_of_ne_nil _ (List.append_ne_nil_of_right_ne_nil u (by simp))] at hn
      have hy : n = y := heq.symm.trans (next_eq hr)
      exact List.disjoint_of_nodup_append hnodup (List.mem_of_mem_head? hn)
        (hy ▸ List.mem_cons_self)

end Reading

section Members

variable [DecidableEq α] {h : Links α} {u v l t : List α} {x y x' y' n : α}

/-- A node is single **if no other is in its ring**. -/
theorem single_iff (hr : Ring h (x :: t)) (hnodup : (x :: t).Nodup) :
    single h x = true ↔ t = [] := by
  rw [single, Bool.or_eq_true, decide_eq_true_iff, decide_eq_true_iff]
  obtain ⟨hx, -⟩ := List.nodup_cons.mp hnodup
  cases t with
  | nil => exact iff_of_true (.inl (hr.prev_eq rfl rfl)) rfl
  | cons y t =>
      have hlast := List.getLast?_eq_some_getLast (List.cons_ne_nil y t)
      have hprev : h.prev x = (y :: t).getLast (List.cons_ne_nil y t) :=
        hr.prev_eq rfl (by rw [List.getLast?_cons_cons]; exact hlast)
      refine iff_of_false ?_ (List.cons_ne_nil y t)
      rw [hprev, hr.next_eq]
      rintro (heq | heq)
      · exact hx (heq ▸ List.getLast_mem _)
      · exact hx (heq ▸ List.mem_cons_self)

/-- A node alone is **inserted** between the last node of a ring and the first. -/
theorem insertBefore_eq (hr : Ring h l) (he : Ends l [y] x x' y y) (hy : Ring h [y]) :
    insertBefore h x y = (h.link x' y).link y x := by
  have hsingle : single h y = true := (single_iff hy (List.nodup_singleton y)).mpr rfl
  rw [insertBefore, insertBetween, if_pos hsingle, hr.prev_eq he.left_head he.left_last]
  simp only [Links.link, Links.setPrev, Links.setNext, Links.mk.injEq, and_true]
  exact Function.update_comm he.ne.2 ..

/-- A ring is inserted between the last node of another and its first. -/
theorem insertListBefore_eq (hu : Ring h u) (hv : Ring h v) (he : Ends u v x x' y y') :
    insertListBefore h x y = (h.link x' y).link y' x := by
  rw [insertListBefore, insertListBetween, hu.prev_eq he.left_head he.left_last,
    hv.prev_eq he.right_head he.right_last]
  rfl

/-- A ring is split in front of a node that is not the first. -/
theorem split_eq (hr : Ring h (u ++ v)) (he : Ends u v x x' y y') :
    split h x y = some ((h.link x' x).link y' y) := by
  have hlast : y' ∈ (u ++ v).getLast? := by
    rw [List.getLast?_append_of_ne_nil u he.ne_nil.2]
    exact he.right_last
  have hhead : x ∈ (u ++ v).head? := by
    rw [List.head?_append_of_ne_nil u he.ne_nil.1]
    exact he.left_head
  obtain ⟨-, -, huv, -⟩ := (ring_append he.ne_nil.1 he.ne_nil.2).mp hr
  have hsingle : ¬ single h x = true := by
    obtain ⟨rest, rfl⟩ := List.head?_eq_some_iff.mp he.left_head
    rw [single_iff hr he.nodup]
    exact fun hnil => he.ne_nil.2 (List.append_eq_nil_iff.mp hnil).2
  rw [split, if_neg (not_or.mpr ⟨he.ne.2.symm, hsingle⟩), hr.prev_eq hhead hlast,
    (huv x' he.left_last y he.right_head).2]
  rfl

/-- A node alone is **not removed**. -/
theorem removeFromList_single (hr : Ring h [x]) : removeFromList h x = (h, none) := by
  rw [removeFromList, if_pos ((single_iff hr (List.nodup_singleton x)).mpr rfl)]

/-- A node is removed from a ring of others. -/
theorem removeFromList_eq (hr : Ring h (x :: u)) (he : Ends u [x] y y' x x) :
    removeFromList h x = ((h.link y' y).link x x, some y) := by
  obtain ⟨t, rfl⟩ := List.head?_eq_some_iff.mp he.left_head
  have hnext : h.next x = y := hr.next_eq
  have hprev : h.prev x = y' := hr.prev_eq rfl (by rw [List.getLast?_cons_cons]; exact he.left_last)
  have hsingle : ¬ single h x = true := by
    rw [single_iff hr (List.nodup_append_comm.mp he.nodup)]
    exact List.cons_ne_nil y t
  have hy : (h.setPrev y y').prev x = y' := (Function.update_of_ne he.ne.2.symm ..).trans hprev
  have hx : (h.setPrev y y').next x = y := hnext
  have hx' : ((h.setPrev y y').setNext y' y).next x = y :=
    (Function.update_of_ne he.ne.1.symm ..).trans hnext
  rw [removeFromList, if_neg hsingle]
  dsimp only
  rw [hnext, hprev, hy, hx, hx']
  rfl

/-- The loop of `split_by_predicate` **finds the first node** that does not fit. -/
theorem firstNotFit_eq (pred : α → Bool) (v : List α) :
    ∀ (u : List α) (x : α) (fuel : ℕ), v.length < fuel → Ring h (u ++ x :: v) →
      (u ++ x :: v).Nodup → n ∈ (u ++ x :: v).head? →
      firstNotFit h pred n fuel x = some ((x :: v).dropWhile pred).head? := by
  induction v with
  | nil =>
      intro u x fuel hfuel hr hnodup hn
      cases fuel with
      | zero => exact absurd hfuel (Nat.lt_irrefl 0)
      | succ fuel =>
          by_cases hx : pred x = true
          · rw [firstNotFit, if_pos hx, if_pos ((next_eq_first_iff hr hnodup hn).mpr rfl),
              List.dropWhile_cons_of_pos hx]
            rfl
          · rw [firstNotFit, if_neg hx, List.dropWhile_cons_of_neg hx, List.head?_cons]
  | cons y v ih =>
      intro u x fuel hfuel hr hnodup hn
      cases fuel with
      | zero => exact absurd hfuel (Nat.not_lt_zero _)
      | succ fuel =>
          by_cases hx : pred x = true
          · have hmore : ¬ h.next x = n := fun heq =>
              List.cons_ne_nil y v ((next_eq_first_iff hr hnodup hn).mp heq)
            rw [firstNotFit, if_pos hx, if_neg hmore, next_eq hr, List.dropWhile_cons_of_pos hx]
            rw [List.append_cons] at hr hnodup hn
            exact ih (u ++ [x]) y fuel (Nat.lt_of_succ_lt_succ hfuel) hr hnodup hn
          · rw [firstNotFit, if_neg hx, List.dropWhile_cons_of_neg hx, List.head?_cons]

/-- An iterator **meets the nodes in their order**. -/
theorem traverse_eq (v : List α) :
    ∀ (u : List α) (x : α) (fuel : ℕ), v.length < fuel → Ring h (u ++ x :: v) →
      (u ++ x :: v).Nodup → n ∈ (u ++ x :: v).head? →
      traverse h n fuel x = some (x :: v) := by
  induction v with
  | nil =>
      intro u x fuel hfuel hr hnodup hn
      cases fuel with
      | zero => exact absurd hfuel (Nat.lt_irrefl 0)
      | succ fuel => rw [traverse, if_pos ((next_eq_first_iff hr hnodup hn).mpr rfl)]
  | cons y v ih =>
      intro u x fuel hfuel hr hnodup hn
      cases fuel with
      | zero => exact absurd hfuel (Nat.not_lt_zero _)
      | succ fuel =>
          have hmore : ¬ h.next x = n := fun heq =>
            List.cons_ne_nil y v ((next_eq_first_iff hr hnodup hn).mp heq)
          rw [traverse, if_neg hmore, next_eq hr]
          rw [List.append_cons] at hr hnodup hn
          rw [ih (u ++ [x]) y fuel (Nat.lt_of_succ_lt_succ hfuel) hr hnodup hn, Option.map_some]

end Members

/-! ### Calls -/

section Calls

variable [DecidableEq ι] [DecidableEq α]

/-- The call on **sequences**, and what it returns. -/
def act (q : ι → List α) : Op ι α → (ι → List α) × Option α
  | .pushBack i x => (Function.update q i (q i ++ [x]), none)
  | .pushFront i x => (Function.update q i (x :: q i), none)
  | .popFront i => (Function.update q i (q i).tail, (q i).head?)
  | .popBack i => (Function.update q i (q i).dropLast, (q i).getLast?)
  | .erase i x => (Function.update q i ((q i).erase x),
      ((q i).drop ((q i).idxOf x + 1) ++ (q i).take ((q i).idxOf x)).head?)
  | .concat i j => (setBoth q i j (q i ++ q j) [], none)
  | .splitInclusive i none j => (setBoth q i j (q i) [], none)
  | .splitInclusive i (some x) j =>
      (setBoth q i j ((q i).drop ((q i).idxOf x + 1)) ((q i).take ((q i).idxOf x + 1)), none)
  | .splitExclusive i none j => (setBoth q i j [] (q i), none)
  | .splitExclusive i (some x) j =>
      (setBoth q i j ((q i).drop ((q i).idxOf x)) ((q i).take ((q i).idxOf x)), none)
  | .splitByPredicate i pred j =>
      (setBoth q i j ((q i).dropWhile pred) ((q i).takeWhile pred), none)

/-- What a caller **may do**. -/
def Allowed (q : ι → List α) : Op ι α → Prop
  | .pushBack _ x => ∀ k, x ∉ q k
  | .pushFront _ x => ∀ k, x ∉ q k
  | .popFront _ => True
  | .popBack _ => True
  | .erase i x => x ∈ q i
  | .concat i j => i ≠ j
  | .splitInclusive i ptr j => i ≠ j ∧ q j = [] ∧ ∀ x ∈ ptr, x ∈ q i
  | .splitExclusive i ptr j => i ≠ j ∧ q j = [] ∧ ∀ x ∈ ptr, x ∈ q i
  | .splitByPredicate i _ j => i ≠ j ∧ q j = []

/-- **No empty list is appended** to one that is not empty. -/
def Fine (q : ι → List α) : Op ι α → Prop
  | .concat i j => q j = [] → q i = []
  | _ => True

/-- A run on sequences, and what its calls return. -/
def actRun (q : ι → List α) : List (Op ι α) → (ι → List α) × List (Option α)
  | [] => (q, [])
  | op :: ops => ((actRun (act q op).1 ops).1, (act q op).2 :: (actRun (act q op).1 ops).2)

/-- All calls of a run meet a condition. -/
def Along (P : (ι → List α) → Op ι α → Prop) (q : ι → List α) : List (Op ι α) → Prop
  | [] => True
  | op :: ops => P q op ∧ Along P (act q op).1 ops

end Calls

/-! ### What the calls do -/

section Rings

variable [DecidableEq α] {s : Lists ι α} {q : ι → List α} {i : ι} {x n : α} {u v : List α}

/-- Pushing in front is pushing behind, **but for the first node**. -/
theorem pushFront_eq (h : Links α) (node : Option α) (x : α) :
    pushFront h node x = ((pushBack h node x).1, some x) := by cases node <;> rfl

/-- The list points to its first node again. -/
theorem pushBack_snd (h : Links α) (l : List α) (x : α) :
    (pushBack h l.head? x).2 = (l ++ [x]).head? := by cases l <;> rfl

/-- **A node gets into the ring** of a list, behind the last node and in front of the first. -/
theorem Represents.insert (h : Represents s q) (hx : ∀ k, x ∉ q k) :
    Ring (pushBack s.links (s.node i) x).1 (q i ++ [x]) ∧
      ∀ w : List α, w.Disjoint (q i ++ [x]) → Ring s.links w →
        Ring (pushBack s.links (s.node i) x).1 w := by
  have halone := h.alone x hx
  have hring := h.ring i
  have hnodup : (q i ++ [x]).Nodup := List.nodup_append'.mpr
    ⟨h.nodup i, List.nodup_singleton x, List.disjoint_singleton.mpr (hx i)⟩
  rw [h.node]
  cases hq : q i with
  | nil => exact ⟨halone, fun w _ hw => hw⟩
  | cons n t =>
      rw [hq] at hring hnodup
      have hlast : (n :: t).getLast (by simp) ∈ (n :: t).getLast? := List.getLast?_eq_some_getLast _
      have he : Ends (n :: t) [x] n _ x x := ⟨hnodup, rfl, hlast, rfl, rfl⟩
      have hins : (pushBack s.links (n :: t).head? x).1 =
        insertBefore s.links n x := rfl
      rw [hins, insertBefore_eq hring he halone]
      exact ⟨he.join hring halone, fun w hw => he.frame (.inr rfl) (.inl rfl) hw⟩

/-- **A node gets out of the ring** of a list, and is alone. -/
theorem Represents.remove (h : Represents s q) (hq : q i = u ++ x :: v) :
    Ring (removeFromList s.links x).1 (u ++ v) ∧ Ring (removeFromList s.links x).1 [x] ∧
      (∀ w : List α, w.Disjoint (q i) → Ring s.links w → Ring (removeFromList s.links x).1 w) ∧
      (removeFromList s.links x).2 = (v ++ u).head? := by
  have hring : Ring s.links (x :: (v ++ u)) := by
    have hr := h.ring i
    rw [hq] at hr
    exact hr.rotate
  have hperm : (q i).Perm ((v ++ u) ++ [x]) := by
    rw [hq, List.append_assoc, List.append_cons]
    exact List.perm_append_comm
  by_cases hrest : v ++ u = []
  · obtain ⟨rfl, rfl⟩ := List.append_eq_nil_iff.mp hrest
    rw [removeFromList_single hring]
    exact ⟨ring_nil _, hring, fun w _ hw => hw, rfl⟩
  · obtain ⟨y, y', hy, hy'⟩ := exists_ends hrest
    have he : Ends (v ++ u) [x] y y' x x :=
      ⟨hperm.nodup_iff.mp (h.nodup i), hy, hy', rfl, rfl⟩
    rw [removeFromList_eq hring he]
    obtain ⟨hvu, halone⟩ := he.split (Ring.rotate (u := [x]) hring)
    refine ⟨hvu.rotate, halone, fun w hw hrw => ?_, hy.symm⟩
    exact he.frame (.inl rfl) (.inr rfl) (fun a haw ha => hw haw (hperm.mem_iff.mpr ha)) hrw

end Rings

section Steps

variable [DecidableEq ι] [DecidableEq α] {s : Lists ι α} {q : ι → List α} {i j : ι}
  {x y : α} {u v : List α} {ptr : Option α}

/-- A list loses a node. -/
theorem Represents.lose (h : Represents s q) (hq : q i = u ++ x :: v) :
    Represents (s.set i (removeFromList s.links x).1 (u ++ v).head?)
      (Function.update q i (u ++ v)) := by
  obtain ⟨hring, halone, hframe, -⟩ := h.remove hq
  have hperm : (q i).Perm (x :: (u ++ v)) := hq ▸ List.perm_middle
  have hnodup := (List.nodup_cons.mp (hperm.nodup_iff.mp (h.nodup i))).2
  refine h.set hframe hring hnodup (List.Subset.refl _) ?_ (fun k hk => h.disjoint k i hk)
    fun y hy hyl => ?_
  · exact fun y hy => hperm.mem_iff.mpr (List.mem_cons_of_mem x hy)
  · obtain rfl := (List.mem_cons.mp (hperm.mem_iff.mp hy)).resolve_right hyl
    exact halone

theorem idxOf_append_cons (hu : x ∉ u) : (u ++ x :: v).idxOf x = u.length := by
  rw [List.idxOf_append_of_notMem hu, List.idxOf_cons_self, Nat.add_zero]

/-- A call **does to the lists** what it does to the sequences. -/
def Does (s : Lists ι α) (q : ι → List α) (op : Op ι α) : Prop :=
  ∃ N s', (∀ fuel, N ≤ fuel → step fuel s op = some (s', (act q op).2)) ∧ Represents s' (act q op).1

/-- `push_back` does what it should. -/
theorem does_pushBack (h : Represents s q) (hx : ∀ k, x ∉ q k) : Does s q (.pushBack i x) := by
  refine ⟨0, _, fun fuel _ => rfl, ?_⟩
  obtain ⟨hring, hframe⟩ := h.insert (i := i) hx
  have hrep := h.take hx (.refl _) hring hframe
  rwa [← pushBack_snd s.links, ← h.node] at hrep

/-- `push_front` does what it should. -/
theorem does_pushFront (h : Represents s q) (hx : ∀ k, x ∉ q k) :
    Does s q (.pushFront i x) := by
  obtain ⟨hring, hframe⟩ := h.insert (i := i) hx
  have hrep := h.take hx (List.perm_append_singleton x (q i)).symm hring.rotate hframe
  refine ⟨0, _, fun fuel _ => ?_, hrep⟩
  rw [step, pushFront_eq]
  rfl

/-- `pop_front` does what it should. -/
theorem does_popFront (h : Represents s q) : Does s q (.popFront i) := by
  cases hq : q i with
  | nil =>
      have hrep := h.same hq
      refine ⟨0, s.set i s.links none, fun fuel _ => ?_, ?_⟩
      · rw [step, h.node, act, hq]
        rfl
      · rw [act, hq]
        exact hrep
  | cons n t =>
      obtain ⟨-, -, -, hnext⟩ := h.remove (u := []) hq
      have hrep := h.lose (u := []) hq
      have hstep : ∀ fuel, step fuel s (.popFront i) =
          some (s.set i (removeFromList s.links n).1 (removeFromList s.links n).2, some n) := by
        intro fuel
        rw [step, h.node, hq]
        rfl
      refine ⟨0, s.set i (removeFromList s.links n).1 t.head?, fun fuel _ => ?_, ?_⟩
      · rw [hstep, hnext, act, hq, List.append_nil, List.head?_cons]
      · rw [act, hq]
        exact hrep

/-- `pop_back` does what it should. -/
theorem does_popBack (h : Represents s q) : Does s q (.popBack i) := by
  by_cases hq : q i = []
  · have hrep := h.same hq
    refine ⟨0, s.set i s.links none, fun fuel _ => ?_, ?_⟩
    · rw [step, h.node, act, hq]
      rfl
    · rw [act, hq]
      exact hrep
  · obtain ⟨n, last, hn, hlast⟩ := exists_ends hq
    obtain ⟨init, hinit⟩ := List.getLast?_eq_some_iff.mp hlast
    have hprev : s.links.prev n = last := (h.ring i).prev_eq hn hlast
    have hrep := h.lose (v := []) hinit
    have hstep : ∀ fuel, step fuel s (.popBack i) =
        some (if last = n then s.set i s.links none
          else s.set i (removeFromList s.links last).1 (some n), some last) := by
      intro fuel
      rw [step, h.node, hn, popBack, hprev]
      by_cases heq : last = n
      · simp only [if_pos heq]
      · simp only [if_neg heq]
    refine ⟨0, s.set i (removeFromList s.links last).1 init.head?, fun fuel _ => ?_, ?_⟩
    · rw [hstep, act, hlast]
      cases init with
      | nil =>
          have hring := h.ring i
          rw [hinit] at hring hn
          rw [if_pos (Option.some.inj hn), removeFromList_single hring, List.head?_nil]
      | cons a init =>
          have hnodup := h.nodup i
          rw [hinit] at hnodup hn
          obtain rfl := Option.some.inj hn
          have hne : last ≠ a := fun heq => List.disjoint_of_nodup_append hnodup
            List.mem_cons_self (List.mem_singleton.mpr heq.symm)
          rw [if_neg hne, List.head?_cons]
    · rw [List.append_nil] at hrep
      rw [act, hinit, List.dropLast_concat]
      exact hrep

/-- `erase` does what it should. -/
theorem does_erase (h : Represents s q) (hx : x ∈ q i) : Does s q (.erase i x) := by
  obtain ⟨u, v, hq, hu⟩ := List.eq_append_cons_of_mem hx
  obtain ⟨-, -, -, hnext⟩ := h.remove hq
  have hrep := h.lose hq
  have hidx : (q i).idxOf x = u.length := by rw [hq, idxOf_append_cons hu]
  have herase : (q i).erase x = u ++ v := by
    rw [hq, List.erase_append_right _ hu, List.erase_cons_head]
  have hsplit : (q i).drop (u.length + 1) ++ (q i).take u.length = v ++ u := by
    rw [hq, List.take_left, List.append_cons, List.drop_left' (by simp)]
  have hhead : (if s.node i = some x then (v ++ u).head? else s.node i) = (u ++ v).head? := by
    rw [h.node, hq]
    cases u with
    | nil => rw [List.nil_append, List.head?_cons, if_pos rfl, List.append_nil]; rfl
    | cons n u =>
        refine if_neg fun heq => hu ?_
        rw [← Option.some.inj heq]
        exact List.mem_cons_self
  have hstep : ∀ fuel, step fuel s (.erase i x) =
      some (s.set i (removeFromList s.links x).1
        (if s.node i = some x then (removeFromList s.links x).2 else s.node i),
        (removeFromList s.links x).2) := fun fuel => rfl
  refine ⟨0, s.set i (removeFromList s.links x).1 (u ++ v).head?, fun fuel _ => ?_, ?_⟩
  · rw [hstep, act, hidx, hsplit, hnext, hhead]
  · rw [act, herase]
    exact hrep

/-- Appending a list does what it should, unless an empty one is appended to one that is not. -/
theorem does_concat (h : Represents s q) (hij : i ≠ j) (hfine : q j = [] → q i = []) :
    Does s q (.concat i j) := by
  by_cases hi : q i = []
  · have hnode : s.node i = none := by rw [h.node, hi, List.head?_nil]
    have hrep := h.both hij (l := q i ++ q j) (m := []) (fun w _ hw => hw)
      (by rw [hi]; exact h.ring j) (ring_nil _) (by rw [List.append_nil])
    refine ⟨0, _, fun fuel _ => ?_, hrep⟩
    rw [step, hnode, h.node, hi]
    rfl
  · have hj : q j ≠ [] := fun hj => hi (hfine hj)
    obtain ⟨n, n', hn, hn'⟩ := exists_ends hi
    obtain ⟨l, l', hl, hl'⟩ := exists_ends hj
    have hnodup : (q i ++ q j).Nodup :=
      List.nodup_append'.mpr ⟨h.nodup i, h.nodup j, h.disjoint i j hij⟩
    have he : Ends (q i) (q j) n n' l l' := ⟨hnodup, hn, hn', hl, hl'⟩
    have hrep := h.both hij (l := q i ++ q j) (m := [])
      (fun w hw => he.frame (.inr rfl) (.inl rfl) (by rwa [List.append_nil] at hw))
      (he.join (h.ring i) (h.ring j)) (ring_nil _) (by rw [List.append_nil])
    refine ⟨0, _, fun fuel _ => ?_, hrep⟩
    have hhead : (q i ++ q j).head? = some n := by rw [List.head?_append_of_ne_nil _ hi]; exact hn
    have hstep : step fuel s (.concat i j) =
        (pushBackList s.links (some n) (some l)).map fun r =>
          ((s.set i r.1 r.2).set j r.1 none, none) := by
      rw [← hn, ← hl, ← h.node, ← h.node]
      rfl
    rw [hstep, hhead, pushBackList, Option.map_some, Option.map_some,
      insertListBefore_eq (h.ring i) (h.ring j) he]
    rfl

/-- **A list is split** into a front part and the rest. -/
theorem Represents.cut (h : Represents s q) (hij : i ≠ j) (hj : q j = []) (hq : q i = u ++ v)
    (hx : x ∈ u.head?) (hy : y ∈ v.head?) :
    ∃ links, split s.links x y = some links ∧
      Represents ((s.set i links v.head?).set j links u.head?) (setBoth q i j v u) := by
  obtain ⟨-, x', -, hx'⟩ := exists_ends (List.ne_nil_of_mem (List.mem_of_mem_head? hx))
  obtain ⟨-, y', -, hy'⟩ := exists_ends (List.ne_nil_of_mem (List.mem_of_mem_head? hy))
  have hnodup := h.nodup i
  have hring := h.ring i
  rw [hq] at hnodup hring
  have he : Ends u v x x' y y' := ⟨hnodup, hx, hx', hy, hy'⟩
  obtain ⟨hu, hv⟩ := he.split hring
  refine ⟨_, split_eq hring he, h.both hij (fun w hw => ?_) hv hu ?_⟩
  · exact he.frame (.inl rfl) (.inr rfl) fun a haw ha =>
      hw haw (List.perm_append_comm.mem_iff.mp ha)
  · rw [hj, List.append_nil, hq]
    exact List.perm_append_comm

/-- `split_front_exclusive` splits off **what is in front** of a node. -/
theorem exists_exclusive (h : Represents s q) (hij : i ≠ j) (hj : q j = []) (hq : q i = u ++ v) :
    ∃ result, splitFrontExclusive s.links (s.node i) v.head? = some result ∧
      Represents (s.setSplit i j result) (setBoth q i j v u) := by
  by_cases hv : v = []
  · rw [hv, List.append_nil] at hq
    rw [hv, ← hq]
    exact ⟨_, rfl, h.all_off hij hj⟩
  · obtain ⟨y, -, hy, -⟩ := exists_ends hv
    by_cases hu : u = []
    · rw [hu, List.nil_append] at hq
      rw [hu, ← hq]
      refine ⟨_, ?_, h.none_off hij hj⟩
      rw [← hq] at hy
      rw [h.node, hy, splitFrontExclusive, if_pos rfl]
    · obtain ⟨x, -, hx, -⟩ := exists_ends hu
      obtain ⟨links, hsplit, hrep⟩ := h.cut hij hj hq hx hy
      refine ⟨(links, some y, some x), ?_, ?_⟩
      · have hnode : s.node i = some x := by rw [h.node, hq, List.head?_append_of_ne_nil _ hu, hx]
        have hne : y ≠ x := by
          have hnodup := h.nodup i
          rw [hq] at hnodup
          exact fun heq => List.disjoint_of_nodup_append hnodup (List.mem_of_mem_head? hx)
            (heq ▸ List.mem_of_mem_head? hy)
        rw [hnode, hy, splitFrontExclusive, if_neg hne, hsplit, Option.map_some]
      · rw [hx, hy] at hrep
        exact hrep

/-- `split_front_inclusive` splits off a node **and what is in front** of it. -/
theorem exists_inclusive (h : Represents s q) (hij : i ≠ j) (hj : q j = [])
    (hq : q i = u ++ x :: v) :
    ∃ result, splitFrontInclusive s.links (s.node i) (some x) = some result ∧
      Represents (s.setSplit i j result) (setBoth q i j v (u ++ [x])) := by
  have hnodup := h.nodup i
  have hring := h.ring i
  rw [hq] at hnodup hring
  obtain ⟨n, -, hn, -⟩ := exists_ends (l := u ++ x :: v) (by simp)
  have hnode : s.node i = some n := by rw [h.node, hq, hn]
  cases v with
  | nil =>
      rw [← hq]
      refine ⟨_, ?_, h.all_off hij hj⟩
      rw [hnode, splitFrontInclusive, if_pos ((next_eq_first_iff hring hnodup hn).mpr rfl)]
  | cons y v =>
      have hmore : ¬ s.links.next x = n := fun heq =>
        List.cons_ne_nil y v ((next_eq_first_iff hring hnodup hn).mp heq)
      have hnext : s.links.next x = y := next_eq hring
      have hne : u ++ [x] ≠ [] := List.append_ne_nil_of_right_ne_nil u (List.cons_ne_nil x [])
      rw [List.append_cons] at hq hn
      rw [List.head?_append_of_ne_nil _ hne] at hn
      obtain ⟨links, hsplit, hrep⟩ := h.cut hij hj hq hn (y := y) rfl
      refine ⟨(links, some y, some n), ?_, ?_⟩
      · rw [hnode, splitFrontInclusive, if_neg hmore, hnext, hsplit, Option.map_some]
      · rw [hn] at hrep
        exact hrep

/-- `split_front_exclusive` does what it should. -/
theorem does_splitExclusive (h : Represents s q) (hij : i ≠ j) (hj : q j = [])
    (hptr : ∀ x ∈ ptr, x ∈ q i) : Does s q (.splitExclusive i ptr j) := by
  cases ptr with
  | none =>
      have hrep := h.all_off hij hj
      exact ⟨0, _, fun fuel _ => rfl, hrep⟩
  | some x =>
      obtain ⟨u, v, hq, hu⟩ := List.eq_append_cons_of_mem (hptr x rfl)
      obtain ⟨result, hresult, hrep⟩ := exists_exclusive h hij hj hq
      refine ⟨0, s.setSplit i j result, fun fuel _ => ?_, ?_⟩
      · rw [List.head?_cons] at hresult
        rw [step, hresult, Option.map_some, act]
      · rw [act, hq, idxOf_append_cons hu, List.drop_left, List.take_left]
        exact hrep

/-- `split_front_inclusive` does what it should. -/
theorem does_splitInclusive (h : Represents s q) (hij : i ≠ j) (hj : q j = [])
    (hptr : ∀ x ∈ ptr, x ∈ q i) : Does s q (.splitInclusive i ptr j) := by
  cases ptr with
  | none =>
      have hrep := h.none_off hij hj
      refine ⟨0, _, fun fuel _ => ?_, hrep⟩
      rw [step]
      cases s.node i <;> rfl
  | some x =>
      obtain ⟨u, v, hq, hu⟩ := List.eq_append_cons_of_mem (hptr x rfl)
      obtain ⟨result, hresult, hrep⟩ := exists_inclusive h hij hj hq
      refine ⟨0, s.setSplit i j result, fun fuel _ => ?_, ?_⟩
      · rw [step, hresult, Option.map_some, act]
      · have hlen : (u ++ [x]).length = u.length + 1 := List.length_append
        rw [act, hq, idxOf_append_cons hu, List.append_cons, List.drop_left' hlen,
          List.take_left' hlen]
        exact hrep

/-- `split_by_predicate` does what it should. -/
theorem does_splitByPredicate (h : Represents s q) (hij : i ≠ j) (hj : q j = [])
    (pred : α → Bool) : Does s q (.splitByPredicate i pred j) := by
  have hsplit : q i = (q i).takeWhile pred ++ (q i).dropWhile pred :=
    List.takeWhile_append_dropWhile.symm
  cases hq : q i with
  | nil =>
      have hrep := h.none_off hij hj
      refine ⟨0, s.setSplit i j (s.links, s.node i, none), fun fuel _ => ?_, ?_⟩
      · rw [step, h.node, hq]
        rfl
      · rw [hq] at hrep
        rw [act, hq]
        exact hrep
  | cons n t =>
      obtain ⟨result, hresult, hrep⟩ := exists_exclusive h hij hj hsplit
      refine ⟨t.length + 1, s.setSplit i j result, fun fuel hfuel => ?_, hrep⟩
      have hring := h.ring i
      have hnodup := h.nodup i
      have hnode : s.node i = some n := by rw [h.node, hq, List.head?_cons]
      rw [hq] at hring hnodup hresult
      rw [hnode] at hresult
      have hfirst := firstNotFit_eq pred t [] n fuel hfuel hring hnodup rfl
      rw [step, hnode, splitByPredicate, hfirst, Option.bind_some, hresult, Option.map_some, act]

/-- **Every call** that is fine does to the lists what it does to the sequences. -/
theorem Represents.step (h : Represents s q) {op : Op ι α} (hop : Allowed q op)
    (hfine : Fine q op) : Does s q op := by
  cases op with
  | pushBack i x => exact does_pushBack h hop
  | pushFront i x => exact does_pushFront h hop
  | popFront i => exact does_popFront h
  | popBack i => exact does_popBack h
  | erase i x => exact does_erase h hop
  | concat i j => exact does_concat h hop hfine
  | splitInclusive i ptr j => exact does_splitInclusive h hop.1 hop.2.1 hop.2.2
  | splitExclusive i ptr j => exact does_splitExclusive h hop.1 hop.2.1 hop.2.2
  | splitByPredicate i pred j => exact does_splitByPredicate h hop.1 hop.2 pred

/-- A call that is not fine **takes a member of a null pointer**. -/
theorem Represents.step_eq_none (h : Represents s q) {op : Op ι α} (hfine : ¬ Fine q op)
    (fuel : ℕ) : IntrusiveList.step fuel s op = none := by
  cases op with
  | concat i j =>
      obtain ⟨hj, hi⟩ := Classical.not_imp.mp hfine
      obtain ⟨n, -, hn, -⟩ := exists_ends hi
      rw [IntrusiveList.step, h.node, h.node, hn, hj]
      rfl
  | _ => exact absurd trivial hfine

end Steps

/-! ### Runs of calls -/

section Reading

variable [DecidableEq α] {s : Lists ι α} {q : ι → List α}

/-- What an iterator over a list meets. -/
def Lists.traversal (s : Lists ι α) (fuel : ℕ) (i : ι) : Option (List α) :=
  match s.node i with
  | none => some []
  | some n => traverse s.links n fuel n

/-- A traversal meets the nodes in order. -/
theorem Represents.traversal_eq (h : Represents s q) (i : ι) {fuel : ℕ}
    (hfuel : (q i).length ≤ fuel) : s.traversal fuel i = some (q i) := by
  rw [Lists.traversal, h.node]
  cases hq : q i with
  | nil => rfl
  | cons n t =>
      have hring := h.ring i
      have hnodup := h.nodup i
      rw [hq] at hring hnodup hfuel
      exact traverse_eq t [] n fuel hfuel hring hnodup rfl

/-- The lists are the sequences, **for those who read them**: an iterator meets the nodes in their
order, and a node that is in no list, never pushed or removed again, is single. -/
def Refines (s : Lists ι α) (q : ι → List α) : Prop :=
  Represents s q ∧ (∀ i fuel, (q i).length ≤ fuel → s.traversal fuel i = some (q i)) ∧
    ∀ x, (∀ i, x ∉ q i) → s.links.prev x = x ∧ s.links.next x = x

theorem Represents.refines (h : Represents s q) : Refines s q := by
  refine ⟨h, fun i fuel hfuel => h.traversal_eq i hfuel, fun x hx => ?_⟩
  obtain ⟨hnext, hprev⟩ := ring_singleton.mp (h.alone x hx)
  exact ⟨hprev, hnext⟩

end Reading

/-- New lists are empty. -/
theorem represents_constructed : Represents (constructed : Lists ι α) fun _ => [] where
  ring _ := ring_nil _
  node _ := rfl
  nodup _ := List.nodup_nil
  disjoint _ _ _ := List.disjoint_nil_left _
  alone _ _ := ring_singleton.mpr ⟨rfl, rfl⟩

section Whole

variable [DecidableEq ι] [DecidableEq α]

/-- A run **does to the lists** what it does to the sequences. -/
def RunDoes (s : Lists ι α) (q : ι → List α) (ops : List (Op ι α)) : Prop :=
  ∃ N s', (∀ fuel, N ≤ fuel → run fuel s ops = some (s', (actRun q ops).2)) ∧
    Refines s' (actRun q ops).1

/-- The first call of a run, and the others. -/
theorem runDoes_cons {s s' : Lists ι α} {q : ι → List α} {op : Op ι α} {ops : List (Op ι α)} {N : ℕ}
    (hstep : ∀ fuel, N ≤ fuel → step fuel s op = some (s', (act q op).2)) :
    RunDoes s q (op :: ops) ↔ RunDoes s' (act q op).1 ops := by
  have hrun : ∀ fuel, N ≤ fuel → run fuel s (op :: ops) =
      (run fuel s' ops).map fun r => (r.1, (act q op).2 :: r.2) := by
    intro fuel hfuel
    rw [run, hstep fuel hfuel, Option.bind_some]
  constructor
  · rintro ⟨M, t, hall, href⟩
    refine ⟨max N M, t, fun fuel hfuel => ?_, href⟩
    have hsome := hall fuel ((le_max_right N M).trans hfuel)
    rw [hrun fuel ((le_max_left N M).trans hfuel), Option.map_eq_some_iff] at hsome
    obtain ⟨r, hr, heq⟩ := hsome
    obtain ⟨hfst, hsnd⟩ := Prod.mk.inj heq
    rw [hr, ← hfst, ← (List.cons.inj hsnd).2]
  · rintro ⟨M, t, hall, href⟩
    refine ⟨max N M, t, fun fuel hfuel => ?_, href⟩
    rw [hrun fuel ((le_max_left N M).trans hfuel), hall fuel ((le_max_right N M).trans hfuel),
      Option.map_some]
    rfl

/-- **A run, call by call**: each finds the lists as the sequences are. -/
theorem Represents.runDoes_iff (ops : List (Op ι α)) :
    ∀ (s : Lists ι α) (q : ι → List α), Represents s q → Along Allowed q ops →
      (RunDoes s q ops ↔ Along Fine q ops) := by
  induction ops with
  | nil => exact fun s q h _ => iff_of_true ⟨0, s, fun fuel _ => rfl, h.refines⟩ trivial
  | cons op ops ih =>
      intro s q h ⟨hop, hops⟩
      by_cases hfine : Fine q op
      · obtain ⟨N, s', hstep, hrep⟩ := h.step hop hfine
        rw [runDoes_cons hstep, ih s' _ hrep hops, Along, and_iff_right hfine]
      · refine iff_of_false ?_ fun halong => hfine halong.1
        rintro ⟨N, t, hall, -⟩
        have hnone := hall N le_rfl
        rw [run, h.step_eq_none hfine, Option.bind_none] at hnone
        exact absurd hnone.symm (Option.some_ne_none _)

/-- **The lists are sequences**: a run of calls does to the lists what it does to the sequences if
and only if it appends no empty list to one that is not empty. -/
theorem lists_refine_iff (ops : List (Op ι α)) (hops : Along Allowed (fun _ => []) ops) :
    (∃ N s, (∀ fuel, N ≤ fuel →
        run fuel constructed ops = some (s, (actRun (fun _ => []) ops).2)) ∧
      Refines s (actRun (fun _ => []) ops).1) ↔ Along Fine (fun _ => []) ops :=
  Represents.runDoes_iff ops constructed _ represents_constructed hops

end Whole

/-- Two nodes in a list, which is split and joined again **the other way round**. -/
theorem lists_refine_swapped :
    ∃ N s, (∀ fuel, N ≤ fuel → run fuel (constructed : Lists Bool ℕ)
        [.pushBack false 1, .pushBack false 2, .splitInclusive false (some 1) true,
          .concat false true] = some (s, [none, none, none, none])) ∧
      s.node false = some 2 ∧ s.traversal 2 false = some [2, 1] := by
  have hops : Along Allowed (fun _ : Bool => ([] : List ℕ))
      [.pushBack false 1, .pushBack false 2, .splitInclusive false (some 1) true,
        .concat false true] := by
    refine ⟨fun k => List.not_mem_nil, fun k => ?_, ⟨Bool.false_ne_true, rfl, ?_⟩,
      Bool.false_ne_true, trivial⟩
    · cases k
      · exact List.not_mem_cons_of_ne_of_not_mem (by decide) List.not_mem_nil
      · exact List.not_mem_nil
    · rintro x hx
      obtain rfl := Option.some.inj hx
      exact List.mem_cons_self
  obtain ⟨N, s, hrun, hrep, hread, -⟩ := (lists_refine_iff _ hops).mpr
    ⟨trivial, trivial, trivial, fun hnil => absurd hnil (List.cons_ne_nil 1 []), trivial⟩
  exact ⟨N, s, hrun, hrep.node false, hread false 2 le_rfl⟩

/-- A list that is **not empty** takes one that is. -/
theorem empty_appended :
    Along Allowed (fun _ : Bool => ([] : List ℕ)) [.pushBack false 1, .concat false true] ∧
      ∀ fuel, run fuel (constructed : Lists Bool ℕ) [.pushBack false 1, .concat false true] =
        none :=
  ⟨⟨fun _ => List.not_mem_nil, Bool.false_ne_true, trivial⟩, fun _ => rfl⟩

end ArchNet.IntrusiveList
