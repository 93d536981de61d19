import Mathlib.Data.List.TakeWhile
import Mathlib.Order.Lattice

/-!
# Multimaps

An ordered container of entries in which a key may occur more than once. Keys are compared by
their image in a linear order, so that different keys may be equivalent; an entry is inserted
behind the equivalent ones.

## Main results

* `Multimap.items_emplace_perm`: an insertion adds one entry.
* `Multimap.contains_iff`: a key is found if an equivalent one is there.
-/

/-- The entries in the order of their keys' images. -/
structure Multimap (κ ν : Type) {ω : Type} [LinearOrder ω] (key : κ → ω) where
  items : List (κ × ν)
  sorted : items.Pairwise fun e f => key e.1 ≤ key f.1

namespace Multimap

variable {κ ν ω : Type} [LinearOrder ω] {key : κ → ω}

/-- No entry. -/
def empty (key : κ → ω) : Multimap κ ν key := ⟨[], .nil⟩

/-- An entry at the upper bound of its key. -/
theorem sorted_insert {l : List (κ × ν)} (h : l.Pairwise fun e f => key e.1 ≤ key f.1)
    (e : κ × ν) :
    (l.takeWhile (fun f => decide (key f.1 ≤ key e.1)) ++
      e :: l.dropWhile fun f => decide (key f.1 ≤ key e.1)).Pairwise
        fun e f => key e.1 ≤ key f.1 := by
  have hsplit := List.takeWhile_append_dropWhile
    (p := fun f : κ × ν => decide (key f.1 ≤ key e.1)) (l := l)
  have hall := h
  rw [← hsplit, List.pairwise_append] at hall
  obtain ⟨hfront, hback, hacross⟩ := hall
  have hbehind : ∀ f ∈ l.dropWhile fun f => decide (key f.1 ≤ key e.1), key e.1 ≤ key f.1 := by
    have hnot := List.head?_dropWhile_not (fun f : κ × ν => decide (key f.1 ≤ key e.1)) l
    cases hdrop : l.dropWhile fun f => decide (key f.1 ≤ key e.1) with
    | nil => simp
    | cons g rest =>
        rw [hdrop] at hnot hback
        rw [List.pairwise_cons] at hback
        have hg : key e.1 ≤ key g.1 := (not_le.mp (by simpa using hnot)).le
        intro f hf
        rcases List.mem_cons.mp hf with rfl | hf
        · exact hg
        · exact hg.trans (hback.1 f hf)
  refine List.pairwise_append.mpr ⟨hfront, List.pairwise_cons.mpr ⟨hbehind, hback⟩, ?_⟩
  intro f hf g hg
  rcases List.mem_cons.mp hg with rfl | hg
  · have hle := List.mem_takeWhile_imp hf
    exact of_decide_eq_true hle
  · exact hacross f hf g hg

/-- `emplace` and `insert`. -/
def emplace (m : Multimap κ ν key) (k : κ) (v : ν) : Multimap κ ν key where
  items := m.items.takeWhile (fun e => decide (key e.1 ≤ key k)) ++
    (k, v) :: m.items.dropWhile fun e => decide (key e.1 ≤ key k)
  sorted := sorted_insert m.sorted (k, v)

/-- `find(key) != end()`. -/
def contains (m : Multimap κ ν key) (k : κ) : Bool := m.items.any fun e => key e.1 = key k

variable {m : Multimap κ ν key} {k : κ} {v : ν}

/-- **An insertion adds one entry.** -/
theorem items_emplace_perm : (m.emplace k v).items.Perm ((k, v) :: m.items) := by
  have hperm := @List.perm_middle _ (k, v)
    (m.items.takeWhile fun e => decide (key e.1 ≤ key k))
    (m.items.dropWhile fun e => decide (key e.1 ≤ key k))
  rwa [List.takeWhile_append_dropWhile] at hperm

theorem contains_iff : m.contains k = true ↔ ∃ e ∈ m.items, key e.1 = key k := by
  simp [contains]

end Multimap
