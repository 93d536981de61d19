import Mathlib.Data.List.Chain
import Mathlib.Data.List.Nodup
import Mathlib.Logic.Function.Basic

/-!
# Doubly Linked Rings

Nodes with two links, and lists of nodes that form a ring: each node is linked with the next one in
both directions, and the last with the first. A node alone is a ring by itself.

## Main results

* `Ring.rotate`: a ring may be read **from any of its nodes**.
* `Ring.join`, `Ring.split`: exchanging the ends of two links **joins two rings, and splits one**.
* `Ring.link_of_not_mem`: other rings stay as they are.
-/

namespace Rings

variable {α : Type*}

/-- The links of all nodes. -/
structure Links (α : Type*) where
  prev : α → α
  next : α → α

/-- Two nodes are **linked** in both directions. -/
def Linked (h : Links α) (x y : α) : Prop := h.next x = y ∧ h.prev y = x

/-- Each node of a list is linked with the next one. -/
def Seg (h : Links α) (l : List α) : Prop := l.IsChain (Linked h)

/-- The last node of a list is linked with the first one of another. -/
def Joins (h : Links α) (u v : List α) : Prop := ∀ x ∈ u.getLast?, ∀ y ∈ v.head?, Linked h x y

/-- A list of nodes that form a **ring**. -/
def Ring (h : Links α) (l : List α) : Prop := Seg h l ∧ Joins h l l

section Reading

variable {h : Links α} {x y : α} {u v w t : List α}

/-- The empty list is a ring. -/
theorem ring_nil (h : Links α) : Ring h [] := ⟨.nil, fun _ hx => absurd hx (by simp)⟩

/-- A node **alone**. -/
theorem ring_singleton : Ring h [x] ↔ Linked h x x :=
  ⟨fun hr => hr.2 x rfl x rfl, fun hl => ⟨.singleton x, fun a ha b hb => by
    obtain rfl := Option.some.inj ha
    obtain rfl := Option.some.inj hb
    exact hl⟩⟩

/-- The last part of a list is joined to what follows. -/
theorem joins_append_left (hv : v ≠ []) : Joins h (u ++ v) w ↔ Joins h v w := by
  rw [Joins, Joins, List.getLast?_append_of_ne_nil u hv]

/-- The first part of a list is joined to what comes before. -/
theorem joins_append_right (hu : u ≠ []) : Joins h w (u ++ v) ↔ Joins h w u := by
  rw [Joins, Joins, List.head?_append_of_ne_nil u hu]

/-- A ring in two parts. -/
theorem ring_append (hu : u ≠ []) (hv : v ≠ []) :
    Ring h (u ++ v) ↔ Seg h u ∧ Seg h v ∧ Joins h u v ∧ Joins h v u := by
  rw [Ring, Seg, List.isChain_append, joins_append_left hv, joins_append_right hu]
  exact ⟨fun ⟨⟨hsu, hsv, huv⟩, hvu⟩ => ⟨hsu, hsv, huv, hvu⟩,
    fun ⟨hsu, hsv, huv, hvu⟩ => ⟨⟨hsu, hsv, huv⟩, hvu⟩⟩

/-- A ring may be read **from any of its nodes**. -/
theorem Ring.rotate (hr : Ring h (u ++ v)) : Ring h (v ++ u) := by
  by_cases hu : u = []
  · rwa [hu, List.append_nil, ← List.nil_append v, ← hu]
  · by_cases hv : v = []
    · rwa [hv, List.nil_append, ← List.append_nil u, ← hv]
    · obtain ⟨hsu, hsv, huv, hvu⟩ := (ring_append hu hv).mp hr
      exact (ring_append hv hu).mpr ⟨hsv, hsu, hvu, huv⟩

/-- Behind the first node comes the next one, or itself. -/
theorem Ring.next_eq (hr : Ring h (x :: t)) : h.next x = t.headD x := by
  cases t with
  | nil => exact (ring_singleton.mp hr).1
  | cons y t => exact (List.isChain_cons_cons.mp hr.1).1.1

/-- In front of the first node is the **last** one. -/
theorem Ring.prev_eq (hr : Ring h u) (hx : x ∈ u.head?) (hy : y ∈ u.getLast?) : h.prev x = y :=
  (hr.2 y hy x hx).2

end Reading

/-! ### The ends of two lists -/

section Ends

variable {x y x' y' : α} {u v : List α}

/-- The first and the last nodes of two lists without a node in common. -/
structure Ends (u v : List α) (x x' y y' : α) : Prop where
  nodup : (u ++ v).Nodup
  left_head : x ∈ u.head?
  left_last : x' ∈ u.getLast?
  right_head : y ∈ v.head?
  right_last : y' ∈ v.getLast?

theorem Ends.symm (he : Ends u v x x' y y') : Ends v u y y' x x' :=
  ⟨List.nodup_append_comm.mp he.nodup, he.right_head, he.right_last, he.left_head, he.left_last⟩

/-- The last node is at no other place, nor is the first one. -/
theorem Ends.not_mem (he : Ends u v x x' y y') :
    x' ∉ u.dropLast ∧ y' ∉ u ∧ x ∉ u.tail ∧ y ∉ u := by
  obtain ⟨hnodup, hx, hx', hy, hy'⟩ := he
  have hu := (List.nodup_append.mp hnodup).1
  have hdisj := List.disjoint_of_nodup_append hnodup
  refine ⟨?_, fun hmem => hdisj hmem (List.mem_of_getLast? hy'), ?_,
    fun hmem => hdisj hmem (List.mem_of_mem_head? hy)⟩
  · obtain ⟨init, rfl⟩ := List.getLast?_eq_some_iff.mp hx'
    rw [List.dropLast_concat]
    exact fun hmem => List.disjoint_of_nodup_append hu hmem (List.mem_singleton_self x')
  · obtain ⟨rest, rfl⟩ := List.head?_eq_some_iff.mp hx
    exact (List.nodup_cons.mp hu).1

/-- The ends of two lists are different. -/
theorem Ends.ne (he : Ends u v x x' y y') : x' ≠ y' ∧ x ≠ y := by
  obtain ⟨-, hy', -, hy⟩ := he.not_mem
  exact ⟨fun heq => hy' (heq ▸ List.mem_of_getLast? he.left_last),
    fun heq => hy (heq ▸ List.mem_of_mem_head? he.left_head)⟩

/-- Lists that have ends are not empty. -/
theorem Ends.ne_nil (he : Ends u v x x' y y') : u ≠ [] ∧ v ≠ [] :=
  ⟨List.ne_nil_of_mem (List.mem_of_mem_head? he.left_head),
    List.ne_nil_of_mem (List.mem_of_mem_head? he.right_head)⟩

end Ends

/-! ### Linking -/

section Linking

variable [DecidableEq α] {h : Links α} {x y x' y' a b : α} {u v w t : List α}

/-- An assignment to a link. -/
def Links.setPrev (h : Links α) (x y : α) : Links α :=
  { h with prev := Function.update h.prev x y }

/-- An assignment to a link. -/
def Links.setNext (h : Links α) (x y : α) : Links α :=
  { h with next := Function.update h.next x y }

/-- Two nodes get linked. -/
def Links.link (h : Links α) (x y : α) : Links α := (h.setNext x y).setPrev y x

/-- `link` links its two nodes. -/
theorem linked_link (h : Links α) (x y : α) : Linked (h.link x y) x y :=
  ⟨Function.update_self .., Function.update_self ..⟩

/-- **Other links** stay as they are. -/
theorem Linked.link (hab : Linked h a b) (ha : a ≠ x) (hb : b ≠ y) : Linked (h.link x y) a b :=
  ⟨(Function.update_of_ne ha ..).trans hab.1, (Function.update_of_ne hb ..).trans hab.2⟩

/-- A link elsewhere leaves a segment as it is. -/
theorem Seg.link (hu : Seg h u) (hx : x ∉ u.dropLast) (hy : y ∉ u.tail) : Seg (h.link x y) u := by
  induction u with
  | nil => exact .nil
  | cons a u ih =>
      cases u with
      | nil => exact .singleton a
      | cons b u =>
          obtain ⟨hab, hrest⟩ := List.isChain_cons_cons.mp hu
          have ha : a ≠ x := fun heq => hx (heq ▸ List.mem_cons_self)
          have hb : b ≠ y := fun heq => hy (heq ▸ List.mem_cons_self)
          refine List.isChain_cons_cons.mpr ⟨hab.link ha hb, ih hrest ?_ ?_⟩
          · exact fun hmem => hx (List.mem_cons_of_mem a hmem)
          · exact fun hmem => hy (List.mem_cons_of_mem b hmem)

/-- **Other rings** stay as they are. -/
theorem Ring.link_of_not_mem (hw : Ring h w) (hx : x ∉ w) (hy : y ∉ w) : Ring (h.link x y) w := by
  refine ⟨hw.1.link (fun hmem => hx (List.dropLast_subset w hmem))
    (fun hmem => hy (List.mem_of_mem_tail hmem)), fun a ha b hb => (hw.2 a ha b hb).link ?_ ?_⟩
  · exact fun heq => hx (heq ▸ List.mem_of_getLast? ha)
  · exact fun heq => hy (heq ▸ List.mem_of_mem_head? hb)

/-- The inner links of both lists stay when **their ends** get linked in another way. -/
theorem Ends.seg (he : Ends u v x x' y y') (hs : Seg h u) (ha : a = x ∨ a = y)
    (hb : b = x ∨ b = y) : Seg ((h.link x' a).link y' b) u := by
  obtain ⟨hx', hy', hx, hy⟩ := he.not_mem
  have hhead : ∀ c, c = x ∨ c = y → c ∉ u.tail := by
    rintro c (rfl | rfl)
    · exact hx
    · exact fun hmem => hy (List.mem_of_mem_tail hmem)
  exact (hs.link hx' (hhead a ha)).link (fun hmem => hy' (List.dropLast_subset u hmem)) (hhead b hb)

/-- Two links of **different nodes** may be set in any order. -/
theorem link_comm (h : Links α) (hx : x ≠ x') (hy : y ≠ y') :
    (h.link x y).link x' y' = (h.link x' y').link x y := by
  simp only [Links.link, Links.setPrev, Links.setNext, Links.mk.injEq]
  exact ⟨Function.update_comm hy .., Function.update_comm hx ..⟩

/-- **Two rings are joined** when the last node of each is linked with the first of the other. -/
theorem Ends.join (he : Ends u v x x' y y') (hu : Ring h u) (hv : Ring h v) :
    Ring ((h.link x' y).link y' x) (u ++ v) := by
  obtain ⟨hlast, hhead⟩ := he.ne
  refine (ring_append he.ne_nil.1 he.ne_nil.2).mpr
    ⟨he.seg hu.1 (.inr rfl) (.inl rfl), ?_, fun a ha b hb => ?_, fun a ha b hb => ?_⟩
  · rw [link_comm h hlast hhead.symm]
    exact he.symm.seg hv.1 (.inr rfl) (.inl rfl)
  · obtain rfl := Option.mem_unique ha he.left_last
    obtain rfl := Option.mem_unique hb he.right_head
    exact (linked_link h a b).link hlast hhead.symm
  · obtain rfl := Option.mem_unique ha he.right_last
    obtain rfl := Option.mem_unique hb he.left_head
    exact linked_link ..

/-- **A ring is split** when the last node of each part is linked with its first. -/
theorem Ends.split (he : Ends u v x x' y y') (hr : Ring h (u ++ v)) :
    Ring ((h.link x' x).link y' y) u ∧ Ring ((h.link x' x).link y' y) v := by
  obtain ⟨hlast, hhead⟩ := he.ne
  obtain ⟨hsu, hsv, -, -⟩ := (ring_append he.ne_nil.1 he.ne_nil.2).mp hr
  refine ⟨⟨he.seg hsu (.inl rfl) (.inr rfl), fun a ha b hb => ?_⟩, ?_, fun a ha b hb => ?_⟩
  · obtain rfl := Option.mem_unique ha he.left_last
    obtain rfl := Option.mem_unique hb he.left_head
    exact (linked_link h a b).link hlast hhead
  · rw [link_comm h hlast hhead]
    exact he.symm.seg hsv (.inl rfl) (.inr rfl)
  · obtain rfl := Option.mem_unique ha he.right_last
    obtain rfl := Option.mem_unique hb he.right_head
    exact linked_link ..

/-- Rings **without a node of the two lists** stay as they are. -/
theorem Ends.frame (he : Ends u v x x' y y') (ha : a = x ∨ a = y) (hb : b = x ∨ b = y)
    (hdisj : w.Disjoint (u ++ v)) (hw : Ring h w) : Ring ((h.link x' a).link y' b) w := by
  have hx := List.mem_of_mem_head? he.left_head
  have hx' := List.mem_of_getLast? he.left_last
  have hy := List.mem_of_mem_head? he.right_head
  have hy' := List.mem_of_getLast? he.right_last
  have hnot : ∀ c ∈ u ++ v, c ∉ w := fun c hc hcw => hdisj hcw hc
  have hhead : ∀ c, c = x ∨ c = y → c ∉ w := by
    rintro c (rfl | rfl)
    · exact hnot c (List.mem_append_left v hx)
    · exact hnot c (List.mem_append_right u hy)
  exact (hw.link_of_not_mem (hnot x' (List.mem_append_left v hx')) (hhead a ha)).link_of_not_mem
    (hnot y' (List.mem_append_right u hy')) (hhead b hb)

end Linking

end Rings
