import Mathlib.Data.List.Basic

/-!
# Blocks of Lines

A block is a sequence of lines, each closed by a separator, and an empty line at its end. Blocks
of non-empty lines in which the separator's first symbol does not occur are self-delimiting: a
text starts with at most one block, and what stands behind it is determined.

## Main results

* `block_append_inj`: **two blocks at the start of one text are equal**, and so is what follows.
* `splitBlock_block`: a block is read back, line by line.
-/

namespace Lines

variable {α : Type*} {c : α} {sep : List α} {ls ls' : List (List α)} {a b x y : List α}

/-- The lines, each with its separator. -/
def terminated (sep : List α) (ls : List (List α)) : List α := ls.flatMap (· ++ sep)

/-- The lines and the empty line behind them. -/
def block (sep : List α) (ls : List (List α)) : List α := terminated sep ls ++ sep

/-- A line that a block may have. -/
structure IsLine (c : α) (l : List α) : Prop where
  ne_nil : l ≠ []
  not_mem : c ∉ l

theorem block_cons (l : List α) : block sep (l :: ls) = l ++ (sep ++ block sep ls) := by
  rw [block, terminated, List.flatMap_cons, List.append_assoc, List.append_assoc]
  rfl

/-- The first occurrence of a symbol splits a text in one way. -/
theorem append_cons_inj (hx : c ∉ x) (hy : c ∉ y) (h : x ++ c :: a = y ++ c :: b) :
    x = y ∧ a = b := by
  induction x generalizing y with
  | nil =>
      cases y with
      | nil => exact ⟨rfl, (List.cons.inj h).2⟩
      | cons d y => exact absurd (List.mem_cons.mpr (.inl (List.cons.inj h).1)) hy
  | cons d x ih =>
      cases y with
      | nil => exact absurd (List.mem_cons.mpr (.inl (List.cons.inj h).1.symm)) hx
      | cons e y =>
          obtain ⟨rfl, htail⟩ := List.cons.inj h
          rw [List.mem_cons, not_or] at hx hy
          obtain ⟨rfl, hab⟩ := ih hx.2 hy.2 htail
          exact ⟨rfl, hab⟩

/-- **Blocks are self-delimiting.** -/
theorem block_append_inj (hls : ∀ l ∈ ls, IsLine c l) (hls' : ∀ l ∈ ls', IsLine c l)
    (h : block (c :: sep) ls ++ a = block (c :: sep) ls' ++ b) : ls = ls' ∧ a = b := by
  have hempty : ∀ {l : List α} {rest rest' : List α}, IsLine c l →
      (c :: sep) ++ rest ≠ l ++ rest' := by
    intro l rest rest' hl heq
    cases l with
    | nil => exact hl.ne_nil rfl
    | cons d l => exact hl.not_mem (List.mem_cons.mpr (.inl (List.cons.inj heq).1))
  induction ls generalizing ls' with
  | nil =>
      cases ls' with
      | nil => exact ⟨rfl, List.append_cancel_left h⟩
      | cons l ls' =>
          rw [block_cons, List.append_assoc] at h
          exact absurd h (hempty (hls' l (List.mem_cons_self ..)))
  | cons l ls ih =>
      cases ls' with
      | nil =>
          rw [block_cons, List.append_assoc] at h
          exact absurd h.symm (hempty (hls l (List.mem_cons_self ..)))
      | cons l' ls' =>
          rw [block_cons, block_cons, List.append_assoc, List.append_assoc, List.append_assoc,
            List.append_assoc] at h
          obtain ⟨rfl, hrest⟩ := append_cons_inj (hls l (List.mem_cons_self ..)).not_mem
            (hls' l' (List.mem_cons_self ..)).not_mem h
          obtain ⟨rfl, hab⟩ := ih (fun l hl => hls l (List.mem_cons_of_mem _ hl))
            (fun l hl => hls' l (List.mem_cons_of_mem _ hl)) (List.append_cancel_left hrest)
          exact ⟨rfl, hab⟩

/-- A block is longer than it has lines. -/
theorem length_lt_block {α : Type} (c : α) (sep : List α) (ls : List (List α)) :
    ls.length < (block (c :: sep) ls).length := by
  induction ls with
  | nil => exact Nat.succ_pos _
  | cons l ls ih =>
      rw [block_cons, List.length_append, List.length_append, List.length_cons, List.length_cons]
      omega

/-! ### Reading a block -/

variable [DecidableEq α] {d : α} {l : List α}

/-- The text up to the first separator of two symbols, and what stands behind it. -/
def splitLine (c d : α) : List α → Option (List α × List α)
  | [] => none
  | [_] => none
  | x :: y :: l =>
      if x = c ∧ y = d then some ([], l)
      else (splitLine c d (y :: l)).map fun p => (x :: p.1, p.2)

/-- At most `n` lines up to an empty one, and what stands behind that. -/
def splitBlock (c d : α) : ℕ → List α → Option (List (List α) × List α)
  | 0, _ => none
  | n + 1, l =>
      (splitLine c d l).bind fun p =>
        if p.1 = [] then some ([], p.2)
        else (splitBlock c d n p.2).map fun q => (p.1 :: q.1, q.2)

/-- **A line is read back** up to its separator. -/
theorem splitLine_append (hl : c ∉ l) : splitLine c d (l ++ c :: d :: a) = some (l, a) := by
  induction l with
  | nil => rw [List.nil_append, splitLine, if_pos ⟨rfl, rfl⟩]
  | cons x l ih =>
      rw [List.mem_cons, not_or] at hl
      cases l with
      | nil =>
          rw [List.nil_append] at ih
          rw [List.cons_append, List.nil_append, splitLine, if_neg fun h => hl.1 h.1.symm, ih hl.2]
          rfl
      | cons y l =>
          have hrest := ih hl.2
          rw [List.cons_append] at hrest
          rw [List.cons_append, List.cons_append, splitLine, if_neg fun h => hl.1 h.1.symm, hrest]
          rfl

/-- **A block is read back.** -/
theorem splitBlock_block (hls : ∀ l ∈ ls, IsLine c l) {n : ℕ} (hn : ls.length < n) :
    splitBlock c d n (block [c, d] ls ++ a) = some (ls, a) := by
  induction ls generalizing n with
  | nil =>
      obtain ⟨n, rfl⟩ := Nat.exists_eq_succ_of_ne_zero (Nat.ne_of_gt hn)
      have hline := splitLine_append (d := d) (a := a) (List.not_mem_nil (a := c))
      rw [splitBlock, block, terminated, List.flatMap_nil, List.nil_append, List.cons_append,
        List.cons_append, List.nil_append]
      rw [List.nil_append] at hline
      rw [hline]
      rfl
  | cons l ls ih =>
      obtain ⟨n, rfl⟩ := Nat.exists_eq_succ_of_ne_zero (Nat.ne_of_gt (Nat.zero_lt_of_lt hn))
      have hl := hls l (List.mem_cons_self ..)
      have hrest := ih (fun l hl => hls l (List.mem_cons_of_mem _ hl)) (Nat.lt_of_succ_lt_succ hn)
      rw [splitBlock, block_cons, List.append_assoc, List.append_assoc, List.cons_append,
        List.cons_append, List.nil_append, splitLine_append hl.not_mem, Option.bind_some,
        if_neg hl.ne_nil, hrest]
      rfl

end Lines
