import Mathlib.Data.List.Basic
import Mathlib.Order.Lattice

/-!
# Ordered Maps

A container with one entry for each of its keys, in the order of the keys, as a `std::map`. The
entries are searched as the points of a ring: the next point from a key on is the entry at the
lower bound of the key, and behind the last entry the ring begins again.

## Main results

* `OrderedMap.mem_set`: an assignment changes the entry of one key.
* `OrderedMap.next_of_subset`: **a point is still the next one** in a ring that has it and no key
  that the first ring had not.
-/

/-- The entries in the order of their keys. -/
structure OrderedMap (κ ν : Type) [LinearOrder κ] where
  items : List (κ × ν)
  sorted : items.Pairwise fun e f => e.1 < f.1

namespace OrderedMap

variable {κ ν : Type} [LinearOrder κ]

/-- No entry. -/
def empty : OrderedMap κ ν := ⟨[], .nil⟩

/-- The entries after an assignment. -/
def setItems (k : κ) (v : ν) : List (κ × ν) → List (κ × ν)
  | [] => [(k, v)]
  | e :: l =>
      if k < e.1 then (k, v) :: e :: l
      else if k = e.1 then (k, v) :: l
      else e :: setItems k v l

/-- The entries after one is set. -/
theorem mem_setItems {k : κ} {v : ν} {l : List (κ × ν)} (h : l.Pairwise fun e f => e.1 < f.1)
    {e : κ × ν} : e ∈ setItems k v l ↔ e = (k, v) ∨ e.1 ≠ k ∧ e ∈ l := by
  induction l with
  | nil => simp [setItems]
  | cons f l ih =>
      obtain ⟨hf, hl⟩ := List.pairwise_cons.mp h
      rw [setItems]
      split_ifs with hlt heq
      · have hne : ∀ g ∈ f :: l, g.1 ≠ k := by
          intro g hg
          rcases List.mem_cons.mp hg with rfl | hg
          · exact hlt.ne'
          · exact (hlt.trans (hf g hg)).ne'
        rw [List.mem_cons]
        exact or_congr_right ⟨fun he => ⟨hne e he, he⟩, And.right⟩
      · subst heq
        rw [List.mem_cons, List.mem_cons]
        refine or_congr_right ⟨fun he => ⟨(hf e he).ne', .inr he⟩, ?_⟩
        rintro ⟨hne, rfl | he⟩
        · exact absurd rfl hne
        · exact he
      · rw [List.mem_cons, ih hl, List.mem_cons]
        constructor
        · rintro (rfl | rfl | ⟨hne, he⟩)
          · exact .inr ⟨Ne.symm heq, .inl rfl⟩
          · exact .inl rfl
          · exact .inr ⟨hne, .inr he⟩
        · rintro (rfl | ⟨hne, rfl | he⟩)
          · exact .inr (.inl rfl)
          · exact .inl rfl
          · exact .inr (.inr ⟨hne, he⟩)

/-- Setting an entry keeps the keys in order. -/
theorem sorted_setItems {k : κ} {v : ν} {l : List (κ × ν)}
    (h : l.Pairwise fun e f => e.1 < f.1) : (setItems k v l).Pairwise fun e f => e.1 < f.1 := by
  induction l with
  | nil => exact List.pairwise_singleton _ _
  | cons f l ih =>
      obtain ⟨hf, hl⟩ := List.pairwise_cons.mp h
      rw [setItems]
      split_ifs with hlt heq
      · refine List.pairwise_cons.mpr ⟨fun g hg => ?_, h⟩
        rcases List.mem_cons.mp hg with rfl | hg
        · exact hlt
        · exact hlt.trans (hf g hg)
      · exact List.pairwise_cons.mpr ⟨fun g hg => heq ▸ hf g hg, hl⟩
      · refine List.pairwise_cons.mpr ⟨fun g hg => ?_, ih hl⟩
        rcases (mem_setItems hl).mp hg with rfl | ⟨-, hg⟩
        · exact lt_of_le_of_ne (not_lt.mp hlt) (Ne.symm heq)
        · exact hf g hg

/-- `m[k] = v`. -/
def set (m : OrderedMap κ ν) (k : κ) (v : ν) : OrderedMap κ ν :=
  ⟨setItems k v m.items, sorted_setItems m.sorted⟩

/-- `lower_bound(k)`, if it is not `end()`. -/
def lowerBound (m : OrderedMap κ ν) (k : κ) : Option (κ × ν) := m.items.find? (k ≤ ·.1)

/-- `begin()`, if it is not `end()`. -/
def first (m : OrderedMap κ ν) : Option (κ × ν) := m.items.head?

/-- The next point of the ring from a key on. -/
def next (m : OrderedMap κ ν) (k : κ) : Option (κ × ν) := (m.lowerBound k).or m.first

variable {m m' : OrderedMap κ ν} {k : κ} {v : ν} {e : κ × ν}

/-- **An assignment changes the entry of one key.** -/
theorem mem_set : e ∈ (m.set k v).items ↔ e = (k, v) ∨ e.1 ≠ k ∧ e ∈ m.items :=
  mem_setItems m.sorted

/-- Assignments of one value change the entries of their keys. -/
theorem mem_foldl_set {ks : List κ} : e ∈ (ks.foldl (fun m k => m.set k v) m).items ↔
    e.1 ∈ ks ∧ e.2 = v ∨ e.1 ∉ ks ∧ e ∈ m.items := by
  induction ks generalizing m with
  | nil => simp
  | cons k ks ih =>
      rw [List.foldl_cons, ih, mem_set, List.mem_cons]
      by_cases hmem : e.1 ∈ ks
      · simp [hmem]
      · by_cases hk : e.1 = k
        · subst hk
          simp [hmem, Prod.ext_iff]
        · simp [hmem, hk, Prod.ext_iff]

/-- The first entry is the one with the least key. -/
theorem first_eq_some_iff : m.first = some e ↔ e ∈ m.items ∧ ∀ f ∈ m.items, e.1 ≤ f.1 := by
  obtain ⟨l, hl⟩ := m
  cases l with
  | nil => simp [first]
  | cons f l =>
      obtain ⟨hf, -⟩ := List.pairwise_cons.mp hl
      simp only [first, List.head?_cons, Option.some.injEq]
      constructor
      · rintro rfl
        refine ⟨List.mem_cons_self, fun g hg => ?_⟩
        rcases List.mem_cons.mp hg with rfl | hg
        · exact le_rfl
        · exact (hf g hg).le
      · rintro ⟨he, hle⟩
        rcases List.mem_cons.mp he with rfl | he
        · rfl
        · exact absurd (hf e he) (not_lt.mpr (hle f List.mem_cons_self))

/-- The lower bound is the first entry of those whose keys are not less. -/
theorem lowerBound_eq_some_iff : m.lowerBound k = some e ↔
    e ∈ m.items ∧ k ≤ e.1 ∧ ∀ f ∈ m.items, k ≤ f.1 → e.1 ≤ f.1 := by
  obtain ⟨l, hl⟩ := m
  have hhead : (⟨l, hl⟩ : OrderedMap κ ν).lowerBound k =
      (⟨l.filter (k ≤ ·.1), hl.filter _⟩ : OrderedMap κ ν).first := by
    rw [lowerBound, first, List.head?_filter]
  rw [hhead, first_eq_some_iff]
  simp only [List.mem_filter, decide_eq_true_eq]
  exact ⟨fun ⟨⟨he, hk⟩, hle⟩ => ⟨he, hk, fun f hf hkf => hle f ⟨hf, hkf⟩⟩,
    fun ⟨he, hk, hle⟩ => ⟨⟨he, hk⟩, fun f hf => hle f hf.1 hf.2⟩⟩

/-- There is no lower bound exactly if all keys are smaller. -/
theorem lowerBound_eq_none_iff : m.lowerBound k = none ↔ ∀ f ∈ m.items, f.1 < k := by
  simp [lowerBound]

/-- The next point is the lower bound, or the first entry where all keys are less. -/
theorem next_eq_some_iff : m.next k = some e ↔ m.lowerBound k = some e ∨
    (∀ f ∈ m.items, f.1 < k) ∧ m.first = some e := by
  rw [next, Option.or_eq_some_iff, lowerBound_eq_none_iff]

/-- The next entry is one of the map. -/
theorem mem_of_next (h : m.next k = some e) : e ∈ m.items := by
  rcases next_eq_some_iff.mp h with h | ⟨-, h⟩
  · exact (lowerBound_eq_some_iff.mp h).1
  · exact (first_eq_some_iff.mp h).1

/-- Only the empty map has no next entry. -/
theorem next_eq_none_iff : m.next k = none ↔ m.items = [] := by
  rw [next, Option.or_eq_none_iff, first, List.head?_eq_none_iff, lowerBound_eq_none_iff]
  constructor
  · exact And.right
  · intro h
    rw [h]
    exact ⟨fun f hf => absurd hf List.not_mem_nil, rfl⟩

/-- **A point is still the next one** in a ring that has it, and only keys of the first ring. -/
theorem next_of_subset (hkeys : ∀ f ∈ m'.items, ∃ g ∈ m.items, g.1 = f.1) (he : e ∈ m'.items)
    (h : m.next k = some e) : m'.next k = some e := by
  rw [next_eq_some_iff] at h ⊢
  rcases h with h | ⟨hbehind, h⟩
  · obtain ⟨-, hk, hle⟩ := lowerBound_eq_some_iff.mp h
    refine .inl (lowerBound_eq_some_iff.mpr ⟨he, hk, fun f hf hkf => ?_⟩)
    obtain ⟨g, hg, hgf⟩ := hkeys f hf
    exact hgf ▸ hle g hg (hgf.symm ▸ hkf)
  · obtain ⟨-, hle⟩ := first_eq_some_iff.mp h
    refine .inr ⟨fun f hf => ?_, first_eq_some_iff.mpr ⟨he, fun f hf => ?_⟩⟩
    · obtain ⟨g, hg, hgf⟩ := hkeys f hf
      exact hgf ▸ hbehind g hg
    · obtain ⟨g, hg, hgf⟩ := hkeys f hf
      exact hgf ▸ hle g hg

end OrderedMap
