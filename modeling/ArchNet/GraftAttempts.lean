import ArchNet.GraftWalk
import ArchNet.MatchAnswers

/-!
# Attempts in a Grown Trie

What an attempt of `Trie::match` makes of an insertion: it ends at the node that the insertion
marks, it goes as before, or it is lost at a fork, where a fallback is attempted from then on.

## Conventions

All that is said of an attempt is said by the trie before the insertion, the node where the pattern
leaves it and the labels of the nodes that are made there (`TrieData.growth`).

## Main definitions

* `Forks`: an attempt comes to the first new node where it has another way on.
* `Ends`, `Captured`: an attempt ends at the node that is marked, and has not done so before.
* `Stands`: it goes as before all the same.

## Main results

* `Graft.captured`, `Graft.stands`, `Graft.lost`: the three things that can become of an attempt.
-/

open Bytes

namespace ArchNet.Routing

open Backtrack

variable {M : Type}

section Meaning

variable (env : Env) (t : TrieData M)

/-- **An attempt comes to a fork**: it comes to the node where the pattern has left the trie, with a
segment that the first new label accepts and for which there is a way on already. -/
def Forks (q : ℕ) (l : Label) (w : List Text) : Prop :=
  ∃ s, Arrives env t q s w ∧ l.accepts env s = true ∧ (t.findMatchedChild env q s).1 ≠ none

/-- **An attempt goes as before**, whether it comes to a fork or not. A new literal child is
preferred to the parameter child, and no endpoint is found behind it: that is nothing new only where
nothing was found and no fallback is allowed. A new parameter child is tried only where nothing is
found, and where a fallback is allowed. -/
def Stands (q : ℕ) (labels : List Label) (w : List Text) : Prop :=
  ∀ l ls, labels = l :: ls → Forks env t q l w →
    if l.isParam then t.maxFallbackDepth.toNat = 0 ∨ (descent env t w).1 ≠ none
    else t.maxFallbackDepth.toNat = 0 ∧ (descent env t w).1 = none

/-- The segments lead to the node where the pattern leaves the trie, and from there to the end of
the new nodes. -/
def Ends (q : ℕ) (labels : List Label) (w : List Text) : Prop :=
  ∃ u v, w = u ++ v ∧ Greedy t.findChild (t.getColonNode env) 0 u q ∧
    spurTaken env labels v = true

/-- **An attempt is captured**: it ends at the node of the pattern, which was no endpoint before. A
new parameter child captures no attempt that has another way on. -/
def Captured (q : ℕ) (labels : List Label) (w : List Text) : Prop :=
  Ends env t q labels w ∧ (labels = [] → (t.deref q).endpoint = false) ∧
    ∀ l ls, labels = l :: ls → l.isParam = true → ¬ Forks env t q l w

end Meaning

section Attempts

variable {env : Env} {t t' : TrieData M} {q e : ℕ} {labels ls : List Label} {l : Label}
  {marked : Option ℕ} {w : List Text}

/-- An attempt that does not come to the new link sees the links that were there. -/
theorem Graft.agreeOn_root (g : Graft t t' q labels marked) (ht : t.Ok)
    (hmet : ¬ ∃ s, Arrives env t q s w ∧ Sprouts env q labels q s) :
    AgreeOn t.findChild (t.getColonNode env) t'.findChild (t'.getColonNode env) 0 w := by
  obtain ⟨r, hr, -⟩ := ht.root
  exact g.agreeOn ht hr fun u s v hw hgreedy hsprouts => hmet ⟨s, ⟨u, v, hw, hgreedy⟩, hsprouts⟩

/-- **A captured attempt** ends at the node that is marked. -/
theorem Graft.captured (g : Graft t t' q labels (some e)) (ht : t.Ok) (ht' : t'.Ok)
    (hgrows : t.Grows t') (hend : (t'.deref e).endpoint = true)
    (h : Captured env t q labels w) : (descent env t' w).1 = some e := by
  obtain ⟨⟨u, v, rfl, hgreedy, htaken⟩, -, hparam⟩ := h
  cases labels with
  | nil =>
      cases v with
      | cons s v => cases htaken
      | nil =>
          rw [List.append_nil]
          have hagree := @Graft.agreeOn_root M env t t' q [] (some e) u g ht (by simp [Sprouts])
          obtain rfl := g.stay rfl e rfl
          exact descend_eq_some_iff.mpr ⟨hagree.greedy_iff.mpr hgreedy, hend⟩
  | cons l ls =>
      cases v with
      | nil => cases htaken
      | cons s v =>
          rw [spurTaken, Bool.and_eq_true] at htaken
          obtain ⟨hacc, hrest⟩ := htaken
          obtain ⟨hstuck, hforked⟩ := @Graft.descent_met M env t t' q ls l (some e) s u v g ht ht'
            hgrows (fun _ he => Option.some.inj he ▸ hend) hgreedy hacc
          by_cases hnext : (t.findMatchedChild env q s).1 = none
          · rw [(hstuck hnext).2, if_pos hrest]
          · have hliteral : ¬ l.isParam = true := fun hl =>
              hparam l ls rfl hl ⟨s, ⟨u, v, rfl, hgreedy⟩, hacc, hnext⟩
            rw [(hforked hnext).2, if_neg hliteral, if_pos hrest]

/-- **Where an attempt does not fork** and is not captured, it goes as before. -/
theorem Graft.unforked (g : Graft t t' q labels marked) (ht : t.Ok) (ht' : t'.Ok)
    (hgrows : t.Grows t') (hmarked : ∀ e, marked = some e → (t'.deref e).endpoint = true)
    (hno : ∀ l ls, labels = l :: ls → ¬ Forks env t q l w)
    (hnot : marked = none ∨ ¬ Captured env t q labels w) :
    descent env t' w = descent env t w := by
  have hends : Ends env t q labels w → (labels = [] → (t.deref q).endpoint = false) →
      marked = none := fun hends hnew =>
    hnot.resolve_right (not_not.mpr ⟨hends, hnew, fun l ls hl _ => hno l ls hl⟩)
  by_cases hmet : ∃ s, Arrives env t q s w ∧ Sprouts env q labels q s
  · obtain ⟨s, ⟨u, v, rfl, hgreedy⟩, -, l, ls, rfl, hacc⟩ := hmet
    have hnext : (t.findMatchedChild env q s).1 = none := by
      by_contra hnext
      exact hno l ls rfl ⟨s, ⟨u, v, rfl, hgreedy⟩, hacc, hnext⟩
    obtain ⟨hmiss, hsame⟩ := (@Graft.descent_met M env t t' q ls l marked s u v g ht ht' hgrows
      hmarked hgreedy hacc).1 hnext
    rw [hsame]
    refine Prod.ext ?_ rfl
    dsimp only
    rw [hmiss]
    split_ifs with hrest
    · refine hends ⟨u, s :: v, rfl, hgreedy, ?_⟩ fun hnil => absurd hnil (List.cons_ne_nil l ls)
      rw [spurTaken, hacc, hrest]
      rfl
    · rfl
  · refine g.descent_away ht hgrows (fun s harrives hsprouts => hmet ⟨s, harrives, hsprouts⟩) ?_
    rintro k hgreedy rfl
    by_cases hnil : labels = []
    · obtain rfl := g.stay hnil k rfl
      by_contra hend
      refine Option.some_ne_none k (hends ⟨w, [], (List.append_nil w).symm, hgreedy, ?_⟩
        fun _ => ?_)
      · rw [hnil, spurTaken]
      · exact Bool.eq_false_iff.mpr hend
    · obtain ⟨r, hr, -⟩ := ht.root
      obtain ⟨⟨m, hm⟩, -⟩ := greedy_node ht hr hgreedy
      exact absurd (g.new ht' hnil k rfl) (Nat.not_le.mpr (lt_of_node? hm))

/-- **At a fork** something is put on the stack. A new literal child hides what was found: behind it
there is an endpoint only for an attempt that is captured. -/
theorem Graft.forked (g : Graft t t' q (l :: ls) marked) (ht : t.Ok) (ht' : t'.Ok)
    (hgrows : t.Grows t') (hmarked : ∀ e, marked = some e → (t'.deref e).endpoint = true)
    (hnot : marked = none ∨ ¬ Captured env t q (l :: ls) w) (h : Forks env t q l w) :
    (descent env t' w).2 ≠ [] ∧
      (descent env t' w).1 = if l.isParam then (descent env t w).1 else none := by
  obtain ⟨s, ⟨u, v, rfl, hgreedy⟩, hacc, hnext⟩ := h
  obtain ⟨hpushed, hfound⟩ := (@Graft.descent_met M env t t' q ls l marked s u v g ht ht' hgrows
    hmarked hgreedy hacc).2 hnext
  refine ⟨hpushed, hfound.trans ?_⟩
  by_cases hparam : l.isParam = true
  · rw [if_pos hparam, if_pos hparam]
  · rw [if_neg hparam, if_neg hparam]
    split_ifs with hrest
    · refine hnot.resolve_right (not_not.mpr ⟨⟨u, s :: v, rfl, hgreedy, ?_⟩, ?_, ?_⟩)
      · rw [spurTaken, hacc, hrest]
        rfl
      · exact fun hnil => absurd hnil (List.cons_ne_nil l ls)
      · rintro l' ls' heq hl'
        obtain ⟨rfl, -⟩ := List.cons.inj heq
        exact absurd hl' hparam
    · rfl

/-- **An attempt that stands** finds what it found, and is settled if it was. -/
theorem Graft.stands (g : Graft t t' q labels marked) (ht : t.Ok) (ht' : t'.Ok)
    (hgrows : t.Grows t') (hmarked : ∀ e, marked = some e → (t'.deref e).endpoint = true)
    (hnot : marked = none ∨ ¬ Captured env t q labels w) (h : Stands env t q labels w) :
    (descent env t' w).1 = (descent env t w).1 ∧ (Settled env t' w ↔ Settled env t w) := by
  rw [settled_iff, settled_iff, hgrows.maxFallbackDepth]
  by_cases hfork : ∃ l ls, labels = l :: ls ∧ Forks env t q l w
  · obtain ⟨l, ls, rfl, hforks⟩ := hfork
    obtain ⟨-, hfound⟩ := g.forked ht ht' hgrows hmarked hnot hforks
    have hstill := h l ls rfl hforks
    cases l with
    | literal key =>
        have hlimit : t.maxFallbackDepth.toNat = 0 := hstill.1
        exact ⟨hfound.trans hstill.2.symm, iff_of_true (fun _ => .inl hlimit) fun _ => .inl hlimit⟩
    | param name regex =>
        have hsame : (descent env t' w).1 = (descent env t w).1 := hfound
        refine ⟨hsame, ?_⟩
        rw [hsame]
        rcases hstill with hlimit | hsome
        · exact iff_of_true (fun _ => .inl hlimit) fun _ => .inl hlimit
        · exact iff_of_true (fun hnone => absurd hnone hsome) fun hnone => absurd hnone hsome
  · have hsame := g.unforked ht ht' hgrows hmarked
      (fun l ls hl hforks => hfork ⟨l, ls, hl, hforks⟩) hnot
    rw [hsame]
    exact ⟨rfl, Iff.rfl⟩

/-- **An attempt that does not stand** is not settled any more, or it finds nothing where it found
a node and no fallback is allowed. -/
theorem Graft.lost (g : Graft t t' q labels marked) (ht : t.Ok) (ht' : t'.Ok)
    (hgrows : t.Grows t') (hmarked : ∀ e, marked = some e → (t'.deref e).endpoint = true)
    (hnot : marked = none ∨ ¬ Captured env t q labels w) (h : ¬ Stands env t q labels w) :
    ¬ Settled env t' w ∨ t.maxFallbackDepth.toNat = 0 ∧ (descent env t w).1 ≠ none ∧
      (descent env t' w).1 = none := by
  simp only [Stands, not_forall] at h
  obtain ⟨l, ls, rfl, hforks, hstill⟩ := h
  obtain ⟨hpushed, hfound⟩ := g.forked ht ht' hgrows hmarked hnot hforks
  rw [settled_iff, Classical.not_imp, not_or, hgrows.maxFallbackDepth]
  cases l with
  | literal key =>
      by_cases hlimit : t.maxFallbackDepth.toNat = 0
      · exact .inr ⟨hlimit, fun hnone => hstill ⟨hlimit, hnone⟩, hfound⟩
      · exact .inl ⟨hfound, hlimit, hpushed⟩
  | param name regex =>
      obtain ⟨hlimit, hnone⟩ := not_or.mp hstill
      exact .inl ⟨hfound.trans (not_not.mp hnone), hlimit, hpushed⟩

end Attempts

end ArchNet.Routing
