import Mathlib.Data.List.Basic
import Mathlib.Data.Set.Basic
import Mathlib.Order.Defs.LinearOrder

/-!
# Strict Weak Orderings

What a comparison has to be for a library to sort by it, and what is promised of the sorted list.
An element may be compared by a key first: elements with different keys by their weights, and
those with one key by another relation.

## Main results

* `layered_iff`: **when such a comparison is a strict weak ordering** that tells different keys
  apart.
* `stdSort_stableSort`: a sort that keeps what is promised, and the order of equivalent elements.
-/

namespace Sorting

variable {α κ ω : Type*}

/-- `lt` is a **strict weak ordering** of the elements of a set. -/
structure StrictWeakOn (S : Set α) (lt : α → α → Prop) : Prop where
  irrefl : ∀ a ∈ S, ¬ lt a a
  trans : ∀ a ∈ S, ∀ b ∈ S, ∀ c ∈ S, lt a b → lt b c → lt a c
  equiv : ∀ a ∈ S, ∀ b ∈ S, ∀ c ∈ S, ¬ lt a b → ¬ lt b a → ¬ lt b c → ¬ lt c b → ¬ lt a c

/-- Elements with different keys are **never equivalent**. -/
def SeparatesOn (S : Set α) (key : α → κ) (lt : α → α → Prop) : Prop :=
  ∀ a ∈ S, ∀ b ∈ S, key a ≠ key b → lt a b ∨ lt b a

section StrictWeak

variable {S : Set α} {lt : α → α → Prop} {a b c : α}

/-- A strict order goes one way only. -/
theorem StrictWeakOn.asymm (h : StrictWeakOn S lt) (ha : a ∈ S) (hb : b ∈ S) (hab : lt a b) :
    ¬ lt b a := fun hba => h.irrefl a ha (h.trans a ha b hb a ha hab hba)

/-- What is not below stays so. -/
theorem StrictWeakOn.not_trans (h : StrictWeakOn S lt) (ha : a ∈ S) (hb : b ∈ S) (hc : c ∈ S)
    (hab : ¬ lt a b) (hbc : ¬ lt b c) : ¬ lt a c := by
  intro hac
  by_cases hba : lt b a
  · exact hbc (h.trans b hb a ha c hc hba hac)
  · by_cases hcb : lt c b
    · exact hab (h.trans a ha c hc b hb hac hcb)
    · exact h.equiv a ha b hb c hc hab hba hbc hcb hac

/-- Where nothing is below anything, all are equivalent. -/
theorem StrictWeakOn.of_forall_not (h : ∀ a ∈ S, ∀ b ∈ S, ¬ lt a b) : StrictWeakOn S lt where
  irrefl a ha := h a ha a ha
  trans a ha b hb _ _ hab := absurd hab (h a ha b hb)
  equiv a ha _ _ c hc _ _ _ _ := h a ha c hc

end StrictWeak

/-! ### Comparison by weight between keys -/

section Layered

variable [LinearOrder ω] {S : Set α} {key : α → κ} {weight : α → ω} {r : α → α → Prop} {a b c : α}

/-- Elements with different keys are compared by weight, and those with one key by `r`. -/
def layered (key : α → κ) (weight : α → ω) (r : α → α → Prop) (a b : α) : Prop :=
  (key a ≠ key b ∧ weight a < weight b) ∨ (key a = key b ∧ r a b)

/-- Between keys the weight decides. -/
theorem layered_of_ne (h : key a ≠ key b) : layered key weight r a b ↔ weight a < weight b :=
  ⟨fun hlt => hlt.elim And.right fun heq => absurd heq.1 h, fun hlt => .inl ⟨h, hlt⟩⟩

/-- Within a key its own order decides. -/
theorem layered_of_eq (h : key a = key b) : layered key weight r a b ↔ r a b :=
  ⟨fun hlt => hlt.elim (fun hne => absurd h hne.1) And.right, fun hlt => .inr ⟨h, hlt⟩⟩

/-- The **condition**: different keys have different weights, `r` orders the elements of one key,
and where an element with another key lies between two of them, `r` agrees with the weights. -/
structure Layers (S : Set α) (key : α → κ) (weight : α → ω) (r : α → α → Prop) : Prop where
  weight_ne : ∀ a ∈ S, ∀ b ∈ S, key a ≠ key b → weight a ≠ weight b
  strictWeak : ∀ k, StrictWeakOn {a | a ∈ S ∧ key a = k} r
  between : ∀ a ∈ S, ∀ b ∈ S, ∀ c ∈ S, key a = key b → key c ≠ key a →
    weight a < weight c → weight c < weight b → r a b

/-- The weights of different keys compare one way or the other. -/
theorem Layers.lt_of_not_lt (h : Layers S key weight r) (ha : a ∈ S) (hb : b ∈ S)
    (hne : key a ≠ key b) (hnot : ¬ weight a < weight b) : weight b < weight a :=
  (lt_or_eq_of_le (not_lt.mp hnot)).resolve_right fun heq => h.weight_ne a ha b hb hne heq.symm

/-- The layers are ordered transitively. -/
theorem Layers.trans (h : Layers S key weight r) (ha : a ∈ S) (hb : b ∈ S) (hc : c ∈ S)
    (hab : layered key weight r a b) (hbc : layered key weight r b c) :
    layered key weight r a c := by
  by_cases hkab : key a = key b
  · rw [layered_of_eq hkab] at hab
    by_cases hkbc : key b = key c
    · rw [layered_of_eq hkbc] at hbc
      rw [layered_of_eq (hkab.trans hkbc)]
      exact (h.strictWeak (key a)).trans a ⟨ha, rfl⟩ b ⟨hb, hkab.symm⟩ c
        ⟨hc, (hkab.trans hkbc).symm⟩ hab hbc
    · -- an element below `a` would lie between `b` and `a`
      have hkac : key a ≠ key c := hkab ▸ hkbc
      rw [layered_of_ne hkbc] at hbc
      rw [layered_of_ne hkac]
      by_contra hnot
      have hca := h.lt_of_not_lt ha hc hkac hnot
      have hba := h.between b hb a ha c hc hkab.symm (Ne.symm hkbc) hbc hca
      exact (h.strictWeak (key a)).asymm ⟨ha, rfl⟩ ⟨hb, hkab.symm⟩ hab hba
  · rw [layered_of_ne hkab] at hab
    by_cases hkbc : key b = key c
    · have hkac : key a ≠ key c := hkbc ▸ hkab
      rw [layered_of_eq hkbc] at hbc
      rw [layered_of_ne hkac]
      by_contra hnot
      have hca := h.lt_of_not_lt ha hc hkac hnot
      have hcb := h.between c hc b hb a ha hkbc.symm hkac hca hab
      exact (h.strictWeak (key b)).asymm ⟨hb, rfl⟩ ⟨hc, hkbc.symm⟩ hbc hcb
    · rw [layered_of_ne hkbc] at hbc
      by_cases hkac : key a = key c
      · rw [layered_of_eq hkac]
        exact h.between a ha c hc b hb hkac (Ne.symm hkab) hab hbc
      · rw [layered_of_ne hkac]
        exact hab.trans hbc

/-- Elements of different keys are never equivalent. -/
theorem Layers.separates (h : Layers S key weight r) :
    SeparatesOn S key (layered key weight r) := by
  intro a ha b hb hne
  rw [layered_of_ne hne, layered_of_ne (Ne.symm hne)]
  exact lt_or_gt_of_ne (h.weight_ne a ha b hb hne)

/-- Equivalent elements have one key. -/
theorem SeparatesOn.key_eq {lt : α → α → Prop} (h : SeparatesOn S key lt) (ha : a ∈ S) (hb : b ∈ S)
    (hab : ¬ lt a b) (hba : ¬ lt b a) : key a = key b :=
  by_contra fun hne => (h a ha b hb hne).elim hab hba

/-- **Layers are ordered strictly and weakly.** -/
theorem Layers.strictWeakOn (h : Layers S key weight r) :
    StrictWeakOn S (layered key weight r) where
  irrefl a ha hlt := (h.strictWeak (key a)).irrefl a ⟨ha, rfl⟩ ((layered_of_eq rfl).mp hlt)
  trans _ ha _ hb _ hc := h.trans ha hb hc
  equiv a ha b hb c hc hab hba hbc hcb := by
    have hkab := h.separates.key_eq ha hb hab hba
    have hkbc := h.separates.key_eq hb hc hbc hcb
    rw [layered_of_eq hkab] at hab
    rw [layered_of_eq hkab.symm] at hba
    rw [layered_of_eq hkbc] at hbc
    rw [layered_of_eq hkbc.symm] at hcb
    rw [layered_of_eq (hkab.trans hkbc)]
    exact (h.strictWeak (key a)).equiv a ⟨ha, rfl⟩ b ⟨hb, hkab.symm⟩ c
      ⟨hc, (hkab.trans hkbc).symm⟩ hab hba hbc hcb

/-- **When the comparison is a strict weak ordering** that tells different keys apart. -/
theorem layered_iff : StrictWeakOn S (layered key weight r) ∧
    SeparatesOn S key (layered key weight r) ↔ Layers S key weight r := by
  constructor
  · rintro ⟨hweak, hsep⟩
    refine ⟨fun a ha b hb hne heq => ?_, fun k => ⟨?_, ?_, ?_⟩, ?_⟩
    · have hlt := hsep a ha b hb hne
      rw [layered_of_ne hne, layered_of_ne (Ne.symm hne), heq, or_self] at hlt
      exact lt_irrefl _ hlt
    · rintro a ⟨ha, -⟩ hlt
      exact hweak.irrefl a ha ((layered_of_eq rfl).mpr hlt)
    · rintro a ⟨ha, rfl⟩ b ⟨hb, hkb⟩ c ⟨hc, hkc⟩ hab hbc
      refine (layered_of_eq hkc.symm).mp (hweak.trans a ha b hb c hc ?_ ?_)
      · exact (layered_of_eq hkb.symm).mpr hab
      · exact (layered_of_eq (hkb.trans hkc.symm)).mpr hbc
    · rintro a ⟨ha, rfl⟩ b ⟨hb, hkb⟩ c ⟨hc, hkc⟩ hab hba hbc hcb hac
      refine hweak.equiv a ha b hb c hc ?_ ?_ ?_ ?_ ((layered_of_eq hkc.symm).mpr hac)
      · exact mt (layered_of_eq hkb.symm).mp hab
      · exact mt (layered_of_eq hkb).mp hba
      · exact mt (layered_of_eq (hkb.trans hkc.symm)).mp hbc
      · exact mt (layered_of_eq (hkc.trans hkb.symm)).mp hcb
    · intro a ha b hb c hc hkab hkca hac hcb
      refine (layered_of_eq hkab).mp (hweak.trans a ha c hc b hb ?_ ?_)
      · exact (layered_of_ne (Ne.symm hkca)).mpr hac
      · exact (layered_of_ne (hkab ▸ hkca)).mpr hcb
  · exact fun h => ⟨h.strictWeakOn, h.separates⟩

end Layered

/-! ### Sorting -/

/-- What is **promised of a sort**: for a strict weak ordering of the elements, the list is
permuted, and nothing stands behind what it is below. -/
structure StdSort (lt : α → α → Bool) (sort : List α → List α) : Prop where
  perm : ∀ l, StrictWeakOn {a | a ∈ l} (fun a b => lt a b = true) → (sort l).Perm l
  pairwise : ∀ l, StrictWeakOn {a | a ∈ l} (fun a b => lt a b = true) →
    (sort l).Pairwise fun a b => lt b a = false

section Stable

variable {lt : α → α → Bool} {l : List α}

/-- The merge sort of a list. -/
def stableSort (lt : α → α → Bool) (l : List α) : List α :=
  (l.attach.mergeSort fun a b => !lt b a).map Subtype.val

/-- The merge sort keeps what is promised. -/
theorem stdSort_stableSort : StdSort lt (stableSort lt) where
  perm l _ := by
    have hperm := (List.mergeSort_perm l.attach fun a b => !lt b a).map Subtype.val
    rwa [List.attach_map_subtype_val] at hperm
  pairwise l h := by
    rw [stableSort, List.pairwise_map]
    refine (List.pairwise_mergeSort ?_ ?_ l.attach).imp fun hab => by simpa using hab
    · intro a b c hab hbc
      have hba : ¬ lt b.1 a.1 = true := by simpa using hab
      have hcb : ¬ lt c.1 b.1 = true := by simpa using hbc
      simpa using h.not_trans c.2 b.2 a.2 hcb hba
    · intro a b
      have hasymm : lt b.1 a.1 = true → ¬ lt a.1 b.1 = true := h.asymm b.2 a.2
      cases hba : lt b.1 a.1 with
      | false => simp
      | true => simpa [hba] using hasymm hba

/-- **Equivalent elements stay** where they are. -/
theorem stableSort_eq_self (h : ∀ a ∈ l, ∀ b ∈ l, lt a b = false) : stableSort lt l = l := by
  rw [stableSort, List.mergeSort_of_pairwise, List.attach_map_subtype_val]
  refine List.pairwise_of_forall fun a b => ?_
  rw [h b.1 b.2 a.1 a.2]
  rfl

end Stable

end Sorting
