import Mathlib.Data.List.Perm.Basic

/-!
# Hash Containers

An unordered container looks a key up by its hash value and then by an equality test. Both
are parameters here and nothing is assumed of them: what a container does with a test that
is no equality is read off the same definitions as what it does with one that is.

A table is the list of its entries in iteration order. The order is the container's own
affair: an insertion may leave the entries, the new one among them, in any order.

## Main results

* `mem_of_find?`, `hits_of_find?`: a look-up stops at an entry that passes both tests.
* `perm_eraseFound`: erasing what a look-up found takes exactly that entry away.
-/

namespace HashTable

variable {K V H : Type*} [DecidableEq H] (hash : K → H) (eq : K → K → Bool)

/-- The entry passes the two tests of a look-up for `k`. -/
def hits (k : K) (e : K × V) : Bool := hash e.1 == hash k && eq k e.1

/-- `find(k)`: the first entry that passes. -/
def find? (t : List (K × V)) (k : K) : Option (K × V) := t.find? (hits hash eq k)

/-- `erase(it)` for the entry that `find(k)` stopped at. -/
def eraseFound (t : List (K × V)) (k : K) : List (K × V) := t.eraseP (hits hash eq k)

variable {hash eq} {t : List (K × V)} {k : K} {e : K × V}

theorem hits_iff : hits hash eq k e = true ↔ hash e.1 = hash k ∧ eq k e.1 = true := by
  rw [hits, Bool.and_eq_true, beq_iff_eq]

theorem mem_of_find? (h : find? hash eq t k = some e) : e ∈ t :=
  List.mem_of_find?_eq_some h

theorem hits_of_find? (h : find? hash eq t k = some e) : hits hash eq k e = true :=
  List.find?_some h

theorem not_hits_of_find? (h : find? hash eq t k = none) (he : e ∈ t) :
    hits hash eq k e = false := by
  simpa using List.find?_eq_none.mp h e he

/-- Erasing what a look-up found takes exactly that entry away. -/
theorem perm_eraseFound (h : find? hash eq t k = some e) :
    t.Perm (e :: eraseFound hash eq t k) := by
  obtain ⟨-, as, bs, rfl, has⟩ := List.find?_eq_some_iff_append.mp h
  have hnot : ∀ x ∈ as, ¬ hits hash eq k x = true := by simpa using has
  rw [eraseFound, List.eraseP_append_right _ hnot,
    List.eraseP_cons_of_pos (hits_of_find? h)]
  exact List.perm_middle

/-- The table gets shorter. -/
theorem length_eraseFound (h : find? hash eq t k = some e) :
    (eraseFound hash eq t k).length + 1 = t.length :=
  (perm_eraseFound h).length_eq.symm

end HashTable
