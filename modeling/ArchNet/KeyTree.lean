import Mathlib.Data.List.Infix
import Mathlib.Data.List.Nodup
import Mathlib.Data.List.Perm.Basic
import Mathlib.Data.Nat.Notation

/-!
# Trees with Keyed Children

Trees whose nodes hold a value and a table of children, each child under a key of its own.

* `descend t ks` — the subtree at the end of a list of keys, and `place new f ks t` — the tree
  after a walk along `ks` that makes the nodes it misses and changes the value at its end.
* `level order d t` and `breadthFirst order` — the subtrees at one depth and the breadth-first
  walk, for tables that are iterated in some order (`order`).

A walk is described by the values it leaves behind (`valueAt_place`). In every order the levels
hold the same subtrees (`mem_level`), no deeper than the tree is high (`length_lt_height`), and
any one of them comes first in some order (`exists_order`).
-/

/-- A node: its value and its table of children. -/
inductive KeyTree (κ ν : Type)
  | node (value : ν) (children : List (κ × KeyTree κ ν))

namespace KeyTree

variable {κ ν : Type}

def value : KeyTree κ ν → ν
  | .node v _ => v

def children : KeyTree κ ν → List (κ × KeyTree κ ν)
  | .node _ es => es

mutual

/-- The number of nodes on a longest branch. -/
def height : KeyTree κ ν → ℕ
  | .node _ es => heights es + 1

def heights : List (κ × KeyTree κ ν) → ℕ
  | [] => 0
  | e :: es => max (heightOf e) (heights es)

def heightOf : κ × KeyTree κ ν → ℕ
  | (_, t) => height t

end

/-- An entry is not as high as its node. -/
theorem height_lt_of_mem {t c : KeyTree κ ν} {k : κ} (h : (k, c) ∈ t.children) :
    c.height < t.height := by
  have hle : ∀ es : List (κ × KeyTree κ ν), (k, c) ∈ es → c.height ≤ heights es := by
    intro es hes
    induction es with
    | nil => cases hes
    | cons e es ih =>
        rw [heights]
        cases hes with
        | head => exact Nat.le_max_left ..
        | tail _ hes => exact Nat.le_trans (ih hes) (Nat.le_max_right ..)
  cases t with
  | node v es => exact Nat.lt_succ_of_le (hle es h)

/-! ### Walks -/

variable [DecidableEq κ] {k : κ} {ks ks' : List κ} {t s c : KeyTree κ ν} {new : κ → ν → ν}
  {f : ν → ν}

/-- The child under a key. -/
def child (t : KeyTree κ ν) (k : κ) : Option (KeyTree κ ν) := t.children.lookup k

/-- The subtree at the end of a list of keys. -/
def descend (t : KeyTree κ ν) : List κ → Option (KeyTree κ ν)
  | [] => some t
  | k :: ks => (t.child k).bind fun c => c.descend ks

/-- The value at the end of a list of keys. -/
def valueAt (t : KeyTree κ ν) (ks : List κ) : Option ν := (t.descend ks).map value

/-- A table with an entry put at its key, at the end for a new key. -/
def upsert (k : κ) (c : KeyTree κ ν) : List (κ × KeyTree κ ν) → List (κ × KeyTree κ ν)
  | [] => [(k, c)]
  | e :: es => if e.1 = k then (k, c) :: es else e :: upsert k c es

/-- The child under a key, or a new one. -/
def childOr (new : κ → ν → ν) (t : KeyTree κ ν) (k : κ) : KeyTree κ ν :=
  (t.child k).getD (.node (new k t.value) [])

/-- The tree after a walk that makes the nodes it misses and changes the value at its end. A new
value is made from the key and the value of the parent. -/
def place (new : κ → ν → ν) (f : ν → ν) : List κ → KeyTree κ ν → KeyTree κ ν
  | [], t => .node (f t.value) t.children
  | k :: ks, t => .node t.value (upsert k (place new f ks (t.childOr new k)) t.children)

/-- The value that a walk finds at its end. -/
def reached (new : κ → ν → ν) : List κ → KeyTree κ ν → ν
  | [], t => t.value
  | k :: ks, t => reached new ks (t.childOr new k)

/-- Keys one behind the other are followed one behind the other. -/
theorem descend_append : t.descend (ks ++ ks') = (t.descend ks).bind fun c => c.descend ks' := by
  induction ks generalizing t with
  | nil => rfl
  | cons k ks ih =>
      rw [List.cons_append, descend, descend]
      cases t.child k with
      | none => rfl
      | some c => exact ih

/-- A child found under a key is an entry of the children. -/
theorem mem_of_child (h : t.child k = some c) : (k, c) ∈ t.children := by
  obtain ⟨l₁, l₂, hl, -⟩ := List.lookup_eq_some_iff.mp h
  rw [hl]
  exact List.mem_append_right _ (List.mem_cons_self ..)

/-- **A node lies no deeper than its tree is high.** -/
theorem length_lt_height (h : t.descend ks = some s) : ks.length + s.height ≤ t.height := by
  induction ks generalizing t with
  | nil =>
      obtain rfl := Option.some.inj h
      exact Nat.le_of_eq (Nat.zero_add _)
  | cons k ks ih =>
      obtain ⟨c, hc, hs⟩ := Option.bind_eq_some_iff.mp h
      have hlt := height_lt_of_mem (mem_of_child hc)
      have hle := ih hs
      rw [List.length_cons]
      omega

/-- An entry that was put in is found under its key. -/
theorem lookup_upsert_self {es : List (κ × KeyTree κ ν)} : (upsert k c es).lookup k = some c := by
  induction es with
  | nil => exact List.lookup_cons_self
  | cons e es ih =>
      rw [upsert]
      split
      · exact List.lookup_cons_self
      · next h =>
          rw [List.lookup_cons, beq_false_of_ne (Ne.symm h)]
          exact ih

/-- Under another key what was there before is found. -/
theorem lookup_upsert_of_ne {es : List (κ × KeyTree κ ν)} {k' : κ} (h : k' ≠ k) :
    (upsert k c es).lookup k' = es.lookup k' := by
  induction es with
  | nil => rw [upsert, List.lookup_cons, beq_false_of_ne h]
  | cons e es ih =>
      rw [upsert]
      split
      · next he =>
          rw [List.lookup_cons, List.lookup_cons, he, beq_false_of_ne h]
      · rw [List.lookup_cons, List.lookup_cons, ih]

/-- The child on the way of the keys is the one in which the rest is placed. -/
theorem child_place_self : (place new f (k :: ks) t).child k =
    some (place new f ks (t.childOr new k)) := lookup_upsert_self

/-- The other children stay. -/
theorem child_place_of_ne {k' : κ} (h : k' ≠ k) :
    (place new f (k :: ks) t).child k' = t.child k' := lookup_upsert_of_ne h

/-- **A walk changes the value at its end**, makes the nodes on its way, and leaves all other
values alone. -/
theorem valueAt_place : (place new f ks t).valueAt ks' =
    if ks' = ks then some (f (reached new ks t))
    else if ks' <+: ks then some (reached new ks' t)
    else t.valueAt ks' := by
  induction ks generalizing t ks' with
  | nil =>
      cases ks' with
      | nil => rw [if_pos rfl]; rfl
      | cons k' ks' =>
          rw [if_neg (List.cons_ne_nil _ _), if_neg fun h => by cases List.prefix_nil.mp h]
          rfl
  | cons k ks ih =>
      cases ks' with
      | nil =>
          rw [if_neg (List.cons_ne_nil _ _).symm, if_pos (List.nil_prefix ..)]
          rfl
      | cons k' ks' =>
          by_cases hk : k' = k
          · rw [hk, valueAt, descend, child_place_self, Option.bind_some, ← valueAt, ih]
            simp only [List.cons_inj_right, List.prefix_cons_inj, reached]
            by_cases hprefix : ks' <+: ks
            · rw [if_pos hprefix, if_pos hprefix]
            · rw [if_neg hprefix, if_neg hprefix, valueAt, valueAt, descend, childOr]
              cases t.child k with
              | some c => rfl
              | none =>
                  cases ks' with
                  | nil => exact absurd (List.nil_prefix ..) hprefix
                  | cons k'' ks' => rfl
          · rw [if_neg fun h => hk (List.cons.inj h).1,
              if_neg fun h => hk (List.cons_prefix_cons.mp h).1, valueAt, descend,
              child_place_of_ne hk]
            rfl

/-- A walk over nodes that are there finds the value at the end. -/
theorem reached_of_valueAt {v : ν} (h : t.valueAt ks = some v) : reached new ks t = v := by
  induction ks generalizing t with
  | nil => exact Option.some.inj h
  | cons k ks ih =>
      rw [valueAt, descend] at h
      rw [reached, childOr]
      cases hc : t.child k with
      | none => rw [hc] at h; cases h
      | some c =>
          rw [hc, Option.bind_some] at h
          exact ih h

/-- A walk that makes the node at its end makes it from the last key and the value before it. -/
theorem reached_concat (h : t.valueAt (ks ++ [k]) = none) :
    reached new (ks ++ [k]) t = new k (reached new ks t) := by
  induction ks generalizing t with
  | nil =>
      rw [List.nil_append, valueAt, descend] at h
      rw [List.nil_append, reached, reached, reached, childOr]
      cases hc : t.child k with
      | none => rfl
      | some c => rw [hc] at h; cases h
  | cons k' ks ih =>
      rw [List.cons_append, valueAt, descend] at h
      rw [List.cons_append, reached, reached]
      refine ih ?_
      rw [childOr]
      cases hc : t.child k' with
      | some c => rw [hc] at h; exact h
      | none =>
          cases ks with
          | nil => rfl
          | cons _ _ => rfl

/-! ### Tables with distinct keys -/

/-- Every table has a key once. -/
def Distinct (t : KeyTree κ ν) : Prop :=
  ∀ ks s, t.descend ks = some s → (s.children.map Prod.fst).Nodup

/-- A tree is distinct if its own keys are and its children are. -/
theorem distinct_iff : t.Distinct ↔
    (t.children.map Prod.fst).Nodup ∧ ∀ k c, t.child k = some c → c.Distinct := by
  constructor
  · intro h
    refine ⟨h [] t rfl, fun k c hc ks s hs => h (k :: ks) s ?_⟩
    rw [descend, hc]
    exact hs
  · rintro ⟨hkeys, hchildren⟩ ks s hs
    cases ks with
    | nil =>
        obtain rfl := Option.some.inj hs
        exact hkeys
    | cons k ks =>
        obtain ⟨c, hc, hs⟩ := Option.bind_eq_some_iff.mp hs
        exact hchildren k c hc ks s hs

/-- The nodes of a distinct tree are distinct trees. -/
theorem Distinct.descend (h : t.Distinct) (hs : t.descend ks = some s) : s.Distinct := by
  intro ks' u hu
  refine h (ks ++ ks') u ?_
  rw [descend_append, hs]
  exact hu

theorem Distinct.leaf (v : ν) : (KeyTree.node v ([] : List (κ × KeyTree κ ν))).Distinct :=
  distinct_iff.mpr ⟨List.nodup_nil, fun _ _ hc => by cases hc⟩

/-- Putting an entry in adds no key but its own. -/
theorem mem_keys_upsert {es : List (κ × KeyTree κ ν)} {k' : κ}
    (h : k' ∈ (upsert k c es).map Prod.fst) : k' = k ∨ k' ∈ es.map Prod.fst := by
  induction es with
  | nil => exact .inl (List.mem_singleton.mp h)
  | cons e es ih =>
      rw [upsert] at h
      split at h
      · exact (List.mem_cons.mp h).imp_right (List.mem_cons_of_mem _)
      · rcases List.mem_cons.mp h with rfl | h
        · exact .inr (List.mem_cons_self ..)
        · exact (ih h).imp_right (List.mem_cons_of_mem _)

/-- Putting an entry in keeps the keys distinct. -/
theorem nodup_upsert {es : List (κ × KeyTree κ ν)} (h : (es.map Prod.fst).Nodup) :
    ((upsert k c es).map Prod.fst).Nodup := by
  induction es with
  | nil => exact List.nodup_singleton k
  | cons e es ih =>
      obtain ⟨he, hes⟩ := List.nodup_cons.mp h
      rw [upsert]
      split
      · next heq => exact List.nodup_cons.mpr ⟨heq ▸ he, hes⟩
      · next heq => exact List.nodup_cons.mpr ⟨fun hk => (mem_keys_upsert hk).elim heq he, ih hes⟩

/-- **A walk keeps the keys of every table apart.** -/
theorem Distinct.place (h : t.Distinct) : (KeyTree.place new f ks t).Distinct := by
  induction ks generalizing t with
  | nil =>
      obtain ⟨hkeys, hchildren⟩ := distinct_iff.mp h
      exact distinct_iff.mpr ⟨hkeys, hchildren⟩
  | cons k ks ih =>
      obtain ⟨hkeys, hchildren⟩ := distinct_iff.mp h
      have hchild : (t.childOr new k).Distinct := by
        rw [childOr]
        cases hc : t.child k with
        | none => exact .leaf _
        | some c => exact hchildren k c hc
      refine distinct_iff.mpr ⟨nodup_upsert hkeys, fun k' c hc => ?_⟩
      by_cases hk : k' = k
      · rw [hk, child_place_self] at hc
        obtain rfl := Option.some.inj hc
        exact ih hchild
      · rw [child_place_of_ne hk] at hc
        exact hchildren k' c hc

/-- In a table with distinct keys an entry is what its key leads to. -/
theorem Distinct.child_of_mem (h : t.Distinct) (hc : (k, c) ∈ t.children) :
    t.child k = some c := by
  obtain ⟨l₁, l₂, hl⟩ := List.append_of_mem hc
  refine List.lookup_eq_some_iff.mpr ⟨l₁, l₂, hl, fun e he => bne_iff_ne.mpr fun hk => ?_⟩
  have hkeys := (distinct_iff.mp h).1
  rw [hl, List.map_append, List.nodup_append] at hkeys
  exact hkeys.2.2 e.1 (List.mem_map_of_mem he) k (List.mem_cons_self ..) hk.symm

/-! ### Levels -/

/-- An order in which every table is iterated. -/
def IsOrder (order : KeyTree κ ν → List (κ × KeyTree κ ν)) : Prop :=
  ∀ t, (order t).Perm t.children

/-- The subtrees at one depth. -/
def level (order : KeyTree κ ν → List (κ × KeyTree κ ν)) : ℕ → KeyTree κ ν → List (KeyTree κ ν)
  | 0, t => [t]
  | d + 1, t => (order t).flatMap fun e => level order d e.2

/-- The subtrees of the trees in a queue, one level after the other. -/
def breadthFirst (order : KeyTree κ ν → List (κ × KeyTree κ ν)) :
    ℕ → List (KeyTree κ ν) → List (KeyTree κ ν)
  | 0, _ => []
  | fuel + 1, queue =>
      queue ++ breadthFirst order fuel (queue.flatMap fun t => (order t).map Prod.snd)

variable {order order' : KeyTree κ ν → List (κ × KeyTree κ ν)} {d n : ℕ}
  {queue : List (KeyTree κ ν)}

omit [DecidableEq κ] in
/-- **The breadth-first walk takes the levels in turn.** -/
theorem breadthFirst_eq : breadthFirst order n queue =
    (List.range n).flatMap fun d => queue.flatMap (level order d) := by
  induction n generalizing queue with
  | zero => rfl
  | succ n ih =>
      have hnext : ∀ d, (queue.flatMap fun t => (order t).map Prod.snd).flatMap (level order d) =
          queue.flatMap (level order (d + 1)) := by
        intro d
        rw [List.flatMap_assoc]
        refine List.flatMap_congr fun t _ => ?_
        rw [List.flatMap_map]
        rfl
      have hzero : queue.flatMap (level order 0) = queue := List.flatMap_singleton' queue
      rw [breadthFirst, ih, List.range_succ_eq_map, List.flatMap_cons, hzero, List.flatMap_map]
      simp only [hnext]

/-- **The subtrees at one depth**, in any order. -/
theorem mem_level (ht : t.Distinct) (ho : IsOrder order) :
    s ∈ level order d t ↔ ∃ ks, ks.length = d ∧ t.descend ks = some s := by
  induction d generalizing t with
  | zero =>
      constructor
      · intro h
        exact ⟨[], rfl, congrArg some (List.mem_singleton.mp h).symm⟩
      · rintro ⟨ks, hks, hs⟩
        obtain rfl := List.length_eq_zero_iff.mp hks
        exact List.mem_singleton.mpr (Option.some.inj hs).symm
  | succ d ih =>
      rw [level, List.mem_flatMap]
      constructor
      · rintro ⟨⟨k, c⟩, hc, hs⟩
        have hchild := ht.child_of_mem ((ho t).mem_iff.mp hc)
        obtain ⟨ks, hks, hs⟩ := (ih ((distinct_iff.mp ht).2 k c hchild)).mp hs
        refine ⟨k :: ks, congrArg Nat.succ hks, ?_⟩
        rw [descend, hchild]
        exact hs
      · rintro ⟨ks, hks, hs⟩
        cases ks with
        | nil => cases hks
        | cons k ks =>
            obtain ⟨c, hc, hs⟩ := Option.bind_eq_some_iff.mp hs
            exact ⟨(k, c), (ho t).mem_iff.mpr (mem_of_child hc),
              (ih ((distinct_iff.mp ht).2 k c hc)).mpr ⟨ks, Nat.succ.inj hks, hs⟩⟩

omit [DecidableEq κ] in
/-- A level depends on the order of the tables in the tree only. -/
theorem level_congr (ho : IsOrder order) (h : ∀ u, u.height ≤ t.height → order u = order' u) :
    level order d t = level order' d t := by
  induction d generalizing t with
  | zero => rfl
  | succ d ih =>
      rw [level, level, ← h t le_rfl]
      refine List.flatMap_congr fun e he => ih fun u hu => h u ?_
      exact Nat.le_trans hu (Nat.le_of_lt (height_lt_of_mem ((ho t).mem_iff.mp he)))

/-- **Any subtree is the first one of its level in some order.** -/
theorem exists_order (h : t.descend ks = some s) :
    ∃ order, IsOrder order ∧ (level order ks.length t).head? = some s := by
  classical
  induction ks generalizing t with
  | nil => exact ⟨children, fun _ => .refl _, h⟩
  | cons k ks ih =>
      obtain ⟨c, hc, hs⟩ := Option.bind_eq_some_iff.mp h
      obtain ⟨order, ho, hhead⟩ := ih hs
      obtain ⟨l₁, l₂, hl⟩ := List.append_of_mem (mem_of_child hc)
      let first : KeyTree κ ν → List (κ × KeyTree κ ν) :=
        fun u => if u = t then (k, c) :: (l₁ ++ l₂) else order u
      have hfirst : IsOrder first := by
        intro u
        by_cases hu : u = t
        · rw [show first u = _ from if_pos hu, hu, hl]
          exact List.perm_middle.symm
        · rw [show first u = _ from if_neg hu]
          exact ho u
      have hbelow : level order ks.length c = level first ks.length c := by
        refine level_congr ho fun u hu => (if_neg ?_).symm
        rintro rfl
        exact absurd (height_lt_of_mem (mem_of_child hc)) (Nat.not_lt.mpr hu)
      refine ⟨first, hfirst, ?_⟩
      rw [List.length_cons, level, show first t = _ from if_pos rfl, List.flatMap_cons, ← hbelow]
      rw [List.head?_append, hhead, Option.some_or]

/-- What is found first in a range is found at the least index at which something is. -/
theorem findSome?_range {β : Type} {f : ℕ → Option β} {b : β} :
    (List.range n).findSome? f = some b ↔ ∃ d < n, f d = some b ∧ ∀ d' < d, f d' = none := by
  induction n with
  | zero =>
      constructor
      · intro h
        cases h
      · rintro ⟨d, hd, -⟩
        exact absurd hd (Nat.not_lt_zero d)
  | succ n ih =>
      rw [List.range_succ, List.findSome?_append, List.findSome?_singleton, Option.or_eq_some_iff,
        ih, List.findSome?_eq_none_iff]
      constructor
      · rintro (⟨d, hd, hsome, hnone⟩ | ⟨hnone, hsome⟩)
        · exact ⟨d, Nat.lt_succ_of_lt hd, hsome, hnone⟩
        · exact ⟨n, Nat.lt_succ_self n, hsome, fun d hd => hnone d (List.mem_range.mpr hd)⟩
      · rintro ⟨d, hd, hsome, hnone⟩
        rcases Nat.lt_or_eq_of_le (Nat.le_of_lt_succ hd) with hlt | rfl
        · exact .inl ⟨d, hlt, hsome, hnone⟩
        · exact .inr ⟨fun d' hd' => hnone d' (List.mem_range.mp hd'), hsome⟩

omit [DecidableEq κ] in
/-- **What a breadth-first search finds first** is the first find at the least depth that has
one. -/
theorem find?_breadthFirst {p : KeyTree κ ν → Bool} :
    (breadthFirst order n [t]).find? p = some s ↔
      ∃ d < n, (level order d t).find? p = some s ∧
        ∀ d' < d, ∀ u ∈ level order d' t, p u = false := by
  rw [breadthFirst_eq, List.find?_flatMap, findSome?_range]
  simp only [List.flatMap_singleton, List.find?_eq_none, Bool.not_eq_true]

end KeyTree
