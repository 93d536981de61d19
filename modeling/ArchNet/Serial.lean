import Mathlib.Data.List.Basic
import Mathlib.Algebra.Group.Int.Defs
import Mathlib.Algebra.Group.Nat.Defs

/-!
# Serial Numbers and Ordered Buffers

Numbers of a fixed width that wrap around are compared by their signed distance. As long as two
of them are less than half the circle apart, this is the order in which they were given out,
wherever the wrap falls between them.

* `dist a b` — the signed distance from `b` to `a`; `offset c a` — how far `a` is ahead of `c`.
* `insertBack` — the insertion into a buffer in ascending order that searches from the back, and
  leaves a buffer alone that has the entry already.

## Main results

* `dist_eq_offset`: the distance of two numbers is that of their offsets, from any base.
* `insertBack_eq_none_iff`, `insertBack_sorted`, `insertBack_perm`: **the insertion keeps the order
  and adds the entry**, exactly if there is none with its key.
-/

namespace Serial

/-- The signed distance from `b` to `a`. -/
def dist (a b : UInt32) : ℤ := ((a - b).toNat : ℤ).bmod (2 ^ 32)

/-- How far `a` is ahead of `c`, around the circle. -/
def offset (c a : UInt32) : ℕ := (a - c).toNat

/-- An offset is within the circle. -/
theorem offset_lt (c a : UInt32) : offset c a < 2 ^ 32 := (a - c).toNat_lt

/-- A number is not ahead of itself. -/
@[simp] theorem offset_self (c : UInt32) : offset c c = 0 := by
  rw [offset, UInt32.sub_self]
  rfl

/-- Offsets from one base tell numbers apart. -/
theorem offset_inj {c a b : UInt32} : offset c a = offset c b ↔ a = b := by
  rw [offset, offset, UInt32.toNat_inj, UInt32.sub_left_inj]

/-- An offset, in natural numbers. -/
theorem offset_eq (c a : UInt32) : offset c a = (2 ^ 32 - c.toNat + a.toNat) % 2 ^ 32 := by
  rw [offset, UInt32.toNat_sub]

/-- Numbers that are not behind the base, without the wrap. -/
theorem offset_of_le {c a : UInt32} (h : c.toNat ≤ a.toNat) : offset c a = a.toNat - c.toNat := by
  have ha := a.toNat_lt
  rw [offset_eq]
  omega

/-- The number that is `n` ahead. -/
@[simp] theorem offset_add (c n : UInt32) : offset c (c + n) = n.toNat := by
  have hsub : c + n - c = n := by grind
  rw [offset, hsub]

/-- The next number is one further ahead. -/
theorem offset_succ {c a : UInt32} (h : offset c a + 1 < 2 ^ 32) :
    offset c (a + 1) = offset c a + 1 := by
  have hsub : a + 1 - c = a - c + 1 := by grind
  rw [offset] at h
  rw [offset, offset, hsub, UInt32.toNat_add, UInt32.toNat_one]
  exact Nat.mod_eq_of_lt h

/-- From a base that has moved on, a number is ahead by as much less. -/
theorem offset_sub {c b a : UInt32} (h : offset c b ≤ offset c a) :
    offset b a = offset c a - offset c b := by
  have ha := a.toNat_lt
  have hb := b.toNat_lt
  have hc := c.toNat_lt
  simp only [offset_eq] at h ⊢
  omega

/-- **The distance of two numbers is that of their offsets.** -/
theorem dist_eq_offset (c a b : UInt32) :
    dist a b = ((offset c a : ℤ) - offset c b).bmod (2 ^ 32) := by
  have hsub : offset b a = (2 ^ 32 - offset c b + offset c a) % 2 ^ 32 := by
    have ha := a.toNat_lt
    have hb := b.toNat_lt
    have hc := c.toNat_lt
    simp only [offset_eq]
    omega
  have hb := offset_lt c b
  have hcast : ((offset b a : ℕ) : ℤ) = ((offset c a : ℤ) - offset c b) % (2 ^ 32 : ℕ) := by
    rw [hsub]
    omega
  have hdist : dist a b = (offset b a : ℤ).bmod (2 ^ 32) := rfl
  rw [hdist, hcast]
  exact Int.emod_bmod _ _

/-- Less than half the circle apart, the distance is the difference of the offsets. -/
theorem dist_of_offset {c a b : UInt32} (h : offset c a < offset c b + 2 ^ 31)
    (h' : offset c b ≤ offset c a + 2 ^ 31) : dist a b = (offset c a : ℤ) - offset c b := by
  rw [dist_eq_offset c]
  exact Int.bmod_eq_of_le_mul_two (by omega) (by omega)

/-- Numbers of half the range are in their order. -/
theorem dist_of_lt {a b : UInt32} (ha : a.toNat < 2 ^ 31) (hb : b.toNat < 2 ^ 31) :
    dist a b = (a.toNat : ℤ) - b.toNat := by
  have hzero : ∀ c : UInt32, offset 0 c = c.toNat := fun c => offset_of_le (Nat.zero_le _)
  rw [dist_of_offset (c := 0) (by rw [hzero, hzero]; omega) (by rw [hzero, hzero]; omega), hzero,
    hzero]

/-- A number ahead of the base by less than half the circle is at a distance that is not
negative. -/
theorem dist_nonneg_iff {a c : UInt32} : 0 ≤ dist a c ↔ offset c a < 2 ^ 31 := by
  have hlt := offset_lt c a
  rw [dist_eq_offset c, offset_self, Int.bmod_def]
  split <;> omega

/-- A distance that is not negative is the offset. -/
theorem offset_of_dist_nonneg {a c : UInt32} (h : 0 ≤ dist a c) : (offset c a : ℤ) = dist a c := by
  have hlt := dist_nonneg_iff.mp h
  have hself := offset_self c
  rw [dist_of_offset (c := c) (by omega) (by omega), hself]
  omega

/-- The distance the other way. -/
theorem dist_swap {a b : UInt32} (h : -2 ^ 31 < dist a b) : dist b a = -dist a b := by
  have hlt := offset_lt b a
  rw [dist_eq_offset b] at h ⊢
  rw [dist_eq_offset b a b, offset_self, Int.bmod_def, Int.bmod_def]
  rw [offset_self, Int.bmod_def] at h
  split <;> split <;> split at h <;> omega

/-! ### Ordered buffers -/

variable {α : Type*}

/-- Entries in ascending order with keys from `b` on and below `n` are `n - b` at most. -/
theorem length_le_of_sorted {key : α → ℕ} {l : List α} {b n : ℕ} (hb : b ≤ n)
    (hsorted : l.Pairwise fun s t => key s < key t) (hge : ∀ s ∈ l, b ≤ key s)
    (hlt : ∀ s ∈ l, key s < n) : b + l.length ≤ n := by
  induction l generalizing b with
  | nil => exact hb
  | cons s l ih =>
      obtain ⟨hhead, htail⟩ := List.pairwise_cons.mp hsorted
      have hs := hlt s List.mem_cons_self
      have hbs := hge s List.mem_cons_self
      have hrest := ih (b := key s + 1) hs htail hhead
        (fun t ht => hlt t (List.mem_cons_of_mem _ ht))
      rw [List.length_cons]
      omega

/-- The insertion into a descending list: behind the entries that are not `above`. -/
def insertFront (same above : α → Bool) (x : α) : List α → Option (List α)
  | [] => some [x]
  | s :: l =>
      if same s then none
      else if above s then some (x :: s :: l)
      else (insertFront same above x l).map (s :: ·)

/-- The insertion into an ascending list, searched from the back; `none` if the entry is there. -/
def insertBack (same above : α → Bool) (x : α) (l : List α) : Option (List α) :=
  (insertFront same above x l.reverse).map List.reverse

-- the equations of the insertions are made here, once for all the lemmas below
section
attribute [local simp] insertFront insertBack
end

variable {same above : α → Bool} {x : α} {key : α → ℕ} {l l' : List α}

/-- The two tests of an insertion agree with the order of the keys. -/
structure Agrees (same above : α → Bool) (key : α → ℕ) (x : α) (l : List α) : Prop where
  same_iff : ∀ s ∈ l, same s = true ↔ key s = key x
  above_iff : ∀ s ∈ l, above s = true ↔ key s < key x

/-- The tests agree on a part of the buffer. -/
theorem Agrees.tail {s : α} (h : Agrees same above key x (s :: l)) : Agrees same above key x l :=
  ⟨fun t ht => h.same_iff t (List.mem_cons_of_mem _ ht),
    fun t ht => h.above_iff t (List.mem_cons_of_mem _ ht)⟩

/-- They agree in either order. -/
theorem Agrees.reverse (h : Agrees same above key x l) : Agrees same above key x l.reverse :=
  ⟨fun t ht => h.same_iff t (List.mem_reverse.mp ht),
    fun t ht => h.above_iff t (List.mem_reverse.mp ht)⟩

/-- The key is new to a descending list exactly if the insertion succeeds. -/
theorem insertFront_eq_none_iff (h : Agrees same above key x l)
    (hsorted : l.Pairwise fun s t => key t < key s) :
    insertFront same above x l = none ↔ ∃ s ∈ l, key s = key x := by
  induction l with
  | nil => simp [insertFront]
  | cons s l ih =>
      have hs := h.same_iff s List.mem_cons_self
      have ha := h.above_iff s List.mem_cons_self
      obtain ⟨hhead, htail⟩ := List.pairwise_cons.mp hsorted
      rw [insertFront]
      by_cases hsame : same s = true
      · rw [if_pos hsame]
        exact iff_of_true rfl ⟨s, List.mem_cons_self, hs.mp hsame⟩
      · rw [if_neg hsame]
        by_cases habove : above s = true
        · rw [if_pos habove]
          refine iff_of_false (by simp) ?_
          rintro ⟨t, ht, heq⟩
          have hlt := ha.mp habove
          rcases List.mem_cons.mp ht with rfl | ht
          · omega
          · have := hhead t ht
            omega
        · rw [if_neg habove, Option.map_eq_none_iff, ih h.tail htail]
          constructor
          · rintro ⟨t, ht, heq⟩
            exact ⟨t, List.mem_cons_of_mem _ ht, heq⟩
          · rintro ⟨t, ht, heq⟩
            rcases List.mem_cons.mp ht with rfl | ht
            · exact absurd (hs.mpr heq) hsame
            · exact ⟨t, ht, heq⟩

/-- The insertion adds the entry, and loses none. -/
theorem insertFront_perm (hl : insertFront same above x l = some l') : l'.Perm (x :: l) := by
  induction l generalizing l' with
  | nil =>
      obtain rfl := Option.some.inj hl
      exact List.Perm.refl _
  | cons s l ih =>
      rw [insertFront] at hl
      split_ifs at hl with hsame habove
      · obtain rfl := Option.some.inj hl
        exact List.Perm.refl _
      · obtain ⟨m, hm, rfl⟩ := Option.map_eq_some_iff.mp hl
        exact ((ih hm).cons s).trans (List.Perm.swap x s l)

/-- It keeps the descending order. -/
theorem insertFront_sorted (h : Agrees same above key x l)
    (hsorted : l.Pairwise fun s t => key t < key s) (hl : insertFront same above x l = some l') :
    l'.Pairwise fun s t => key t < key s := by
  induction l generalizing l' with
  | nil =>
      obtain rfl := Option.some.inj hl
      exact List.pairwise_singleton _ _
  | cons s l ih =>
      have hs := h.same_iff s List.mem_cons_self
      have ha := h.above_iff s List.mem_cons_self
      obtain ⟨hhead, htail⟩ := List.pairwise_cons.mp hsorted
      rw [insertFront] at hl
      split_ifs at hl with hsame habove
      · obtain rfl := Option.some.inj hl
        refine List.pairwise_cons.mpr ⟨?_, hsorted⟩
        intro t ht
        have hlt := ha.mp habove
        rcases List.mem_cons.mp ht with rfl | ht
        · exact hlt
        · exact Nat.lt_trans (hhead t ht) hlt
      · obtain ⟨m, hm, rfl⟩ := Option.map_eq_some_iff.mp hl
        refine List.pairwise_cons.mpr ⟨?_, ih h.tail htail hm⟩
        intro t ht
        rcases List.mem_cons.mp ((insertFront_perm hm).subset ht) with rfl | ht
        · have hne : key s ≠ key t := fun heq => hsame (hs.mpr heq)
          have hge : ¬ key s < key t := fun hlt => habove (ha.mpr hlt)
          omega
        · exact hhead t ht

/-- Where an insertion fails, there is an entry that it took for the same. -/
theorem exists_same_of_insertFront_eq_none (hl : insertFront same above x l = none) :
    ∃ s ∈ l, same s = true := by
  induction l with
  | nil => cases hl
  | cons s l ih =>
      rw [insertFront] at hl
      split_ifs at hl with hsame
      · exact ⟨s, List.mem_cons_self, hsame⟩
      · obtain ⟨t, ht, hsame⟩ := ih (Option.map_eq_none_iff.mp hl)
        exact ⟨t, List.mem_cons_of_mem _ ht, hsame⟩

/-- A buffer that is left alone has an entry with the key. -/
theorem exists_same_of_insertBack_eq_none (hl : insertBack same above x l = none) :
    ∃ s ∈ l, same s = true := by
  obtain ⟨s, hs, hsame⟩ := exists_same_of_insertFront_eq_none (Option.map_eq_none_iff.mp hl)
  exact ⟨s, List.mem_reverse.mp hs, hsame⟩

/-- **The insertion fails** exactly where the key is there. -/
theorem insertBack_eq_none_iff (h : Agrees same above key x l)
    (hsorted : l.Pairwise fun s t => key s < key t) :
    insertBack same above x l = none ↔ ∃ s ∈ l, key s = key x := by
  rw [insertBack, Option.map_eq_none_iff,
    insertFront_eq_none_iff h.reverse (List.pairwise_reverse.mpr hsorted)]
  simp only [List.mem_reverse]

/-- **The insertion adds the entry.** -/
theorem insertBack_perm (hl : insertBack same above x l = some l') : l'.Perm (x :: l) := by
  obtain ⟨m, hm, rfl⟩ := Option.map_eq_some_iff.mp hl
  exact (List.reverse_perm m).trans ((insertFront_perm hm).trans ((List.reverse_perm l).cons x))

/-- **The insertion keeps the order.** -/
theorem insertBack_sorted (h : Agrees same above key x l)
    (hsorted : l.Pairwise fun s t => key s < key t) (hl : insertBack same above x l = some l') :
    l'.Pairwise fun s t => key s < key t := by
  obtain ⟨m, hm, rfl⟩ := Option.map_eq_some_iff.mp hl
  exact List.pairwise_reverse.mpr
    (insertFront_sorted h.reverse (List.pairwise_reverse.mpr hsorted) hm)

end Serial
