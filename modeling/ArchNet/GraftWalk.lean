import ArchNet.TrieGrowth
import ArchNet.RouteParams

/-!
# Walks in a Grown Trie

What the walks of `Trie::_match` see of an insertion. The nodes that were there have the links they
had, and the node where the pattern left the trie has one more: it leads to the spur, for the
segments that the first label accepts.

## Main definitions

* `Sprouts`: the node and the segment at which the new link is seen.
* `spurEntries`, `recordedWith`: what a walk records on the spur, and on its way to it.

## Main results

* `Graft.findChild_eq`, `Graft.find_sprout`: the links that a walk sees.
* `Graft.descent_away`: a walk that does not come to the new link goes as before.
* `Graft.namesOf_way`: what a walk in the grown trie records, said of the trie before.
-/

open Bytes

namespace ArchNet.Routing

open Backtrack

variable {M : Type}

/-- The new link is seen at this node with this segment. -/
def Sprouts (env : Env) (q : ℕ) (labels : List Label) (p : ℕ) (s : Text) : Prop :=
  p = q ∧ ∃ l ls, labels = l :: ls ∧ l.accepts env s = true

section Links

variable {env : Env} {t t' : TrieData M} {q p c : ℕ} {labels ls : List Label} {l : Label}
  {marked : Option ℕ} {n : Node M} {s : Text}

/-- What a node is called and what is registered at it stays. -/
theorem Graft.node (g : Graft t t' q labels marked) (hn : t.node? p = some n) :
    ∃ n', t'.node? p = some n' ∧ n'.name = n.name ∧ n'.regex = n.regex ∧
      n'.handlers = n.handlers ∧ n'.middlewares = n.middlewares := by
  by_cases hp : p ≠ q ∨ labels = []
  · obtain ⟨n', hn', hlike⟩ := g.old hn hp
    exact ⟨n', hn', hlike.name, hlike.regex, hlike.handlers, hlike.middlewares⟩
  · rw [not_or, not_not] at hp
    obtain ⟨l, ls, hls⟩ := List.exists_cons_of_ne_nil hp.2
    obtain ⟨m, n', c, d, hm, -, hn', hlike, -⟩ := g.sprout l ls hls
    rw [hp.1, hm] at hn
    obtain rfl := Option.some.inj hn
    obtain ⟨-, hname, hregex, hhandlers, hmiddlewares⟩ := link_like c m l
    exact ⟨n', hp.1 ▸ hn', hlike.name.trans hname, hlike.regex.trans hregex,
      hlike.handlers.trans hhandlers, hlike.middlewares.trans hmiddlewares⟩

theorem Graft.deref (g : Graft t t' q labels marked) (hn : t.node? p = some n) :
    (t'.deref p).name = (t.deref p).name ∧ (t'.deref p).regex = (t.deref p).regex ∧
      (t'.deref p).handlers = (t.deref p).handlers ∧
      (t'.deref p).middlewares = (t.deref p).middlewares := by
  obtain ⟨n', hn', h⟩ := g.node hn
  rw [deref_eq hn, deref_eq hn']
  exact h

/-- A node that was there is an endpoint if it was one, or if it is marked. -/
theorem Graft.endpoint_eq (g : Graft t t' q labels marked) (hgrows : t.Grows t')
    (hn : t.node? p = some n) (hmarked : marked = some p → (t.deref p).endpoint = true) :
    (t'.deref p).endpoint = (t.deref p).endpoint := by
  obtain ⟨n', hn', hgrow⟩ := hgrows.node hn
  rw [deref_eq hn] at hmarked ⊢
  rw [deref_eq hn', Bool.eq_iff_iff]
  refine ⟨fun hend => ?_, hgrow.endpoint⟩
  rcases g.endpoint hn' hend with hmark | ⟨m, hm, hmend⟩
  · exact hmarked hmark
  · obtain rfl := Option.some.inj (hn.symm.trans hm)
    exact hmend

/-- A parameter child that was there accepts what it did. -/
theorem Graft.filter_eq (g : Graft t t' q labels marked) (ht : t.Ok) (hn : t.node? p = some n) :
    n.colonChild.filter (fun c => (t'.deref c).regex = [] ||
        env.isStrMatchRegex s (t'.deref c).regex) =
      n.colonChild.filter fun c => (t.deref c).regex = [] ||
        env.isStrMatchRegex s (t.deref c).regex := by
  cases hcolon : n.colonChild with
  | none => rfl
  | some c =>
      obtain ⟨d, hd, -⟩ := (ht.linked hn).colon c hcolon
      rw [Option.filter_some, Option.filter_some, (g.deref hd).2.1]

/-- **A link that was there** is the only one that is seen, where the new one is not. -/
theorem Graft.findChild_eq (g : Graft t t' q labels marked) (ht : t.Ok) (hn : t.node? p = some n)
    (hnot : ¬ Sprouts env q labels p s) : t'.findChild p s = t.findChild p s ∧
      t'.getColonNode env p s = t.getColonNode env p s := by
  by_cases hp : p ≠ q ∨ labels = []
  · obtain ⟨n', hn', hlike⟩ := g.old hn hp
    rw [TrieData.findChild, TrieData.findChild, TrieData.getColonNode, TrieData.getColonNode,
      deref_eq hn, deref_eq hn', Node.findChild, Node.findChild, hlike.children, hlike.colonChild]
    exact ⟨rfl, g.filter_eq ht hn⟩
  · rw [not_or, not_not] at hp
    obtain ⟨l, ls, hls⟩ := List.exists_cons_of_ne_nil hp.2
    obtain ⟨m, n', c, d, hm, hfree, hn', hlike, -, hd, -, hregex, -⟩ := g.sprout l ls hls
    rw [hp.1] at hn ⊢
    obtain rfl := Option.some.inj (hm.symm.trans hn)
    have hrefused : l.accepts env s = false := by
      by_contra hacc
      exact hnot ⟨hp.1, l, ls, hls, (Bool.not_eq_false _).mp hacc⟩
    rw [TrieData.findChild, TrieData.findChild, TrieData.getColonNode, TrieData.getColonNode,
      deref_eq hm, deref_eq hn', Node.findChild, Node.findChild, hlike.children, hlike.colonChild]
    cases l with
    | literal key =>
        refine ⟨?_, g.filter_eq (n := m) ht hm⟩
        have hkey : sameName s key = false := hrefused
        rw [Label.link, List.find?_append]
        simp [hkey]
    | param name regex =>
        refine ⟨rfl, ?_⟩
        have hcolon : m.colonChild = none := Option.isNone_iff_eq_none.mp hfree
        rw [Label.link, Option.filter_some, deref_eq hd, hregex, hcolon]
        exact if_neg (Bool.eq_false_iff.mp hrefused)

/-- **The new link**: for the segments that its label accepts it leads to the spur, in front of a
parameter child or behind a literal one. -/
theorem Graft.find_sprout (g : Graft t t' q (l :: ls) marked) (ht : t.Ok)
    (hacc : l.accepts env s = true) : ∃ c, t.nodes.length ≤ c ∧ Spur t' marked c ls ∧
      (t'.deref c).name = l.name ∧
      ((∃ key, l = .literal key) ∧ t.findChild q s = none ∧ t'.findChild q s = some c ∧
          t'.getColonNode env q s = t.getColonNode env q s ∨
        (∃ name regex, l = .param name regex) ∧ t.getColonNode env q s = none ∧
          t'.findChild q s = t.findChild q s ∧ t'.getColonNode env q s = some c) := by
  obtain ⟨n, n', c, d, hn, hfree, hn', hlike, hle, hd, hname, hregex, hspur⟩ := g.sprout l ls rfl
  refine ⟨c, hle, hspur, by rw [deref_eq hd, hname], ?_⟩
  rw [TrieData.findChild, TrieData.findChild, TrieData.getColonNode, TrieData.getColonNode,
    deref_eq hn, deref_eq hn', Node.findChild, Node.findChild, hlike.children, hlike.colonChild]
  cases l with
  | literal key =>
      have hkey : sameName s key = true := hacc
      have hfind : n.children.find? (fun h => sameName s h.key) = none := by
        rw [List.find?_eq_none]
        intro h hmem
        have hnone := Node.findChild_eq_none_iff.mp (Option.isNone_iff_eq_none.mp hfree) h hmem
        rw [sameName, beq_iff_eq] at hkey
        rw [sameName, hkey]
        exact Bool.eq_false_iff.mp hnone
      refine .inl ⟨⟨key, rfl⟩, ?_, ?_, g.filter_eq (n := n) ht hn⟩
      · rw [hfind, Option.map_none]
      · rw [Label.link, List.find?_append, hfind, Option.none_or]
        simp [hkey]
  | param name regex =>
      have hcolon : n.colonChild = none := Option.isNone_iff_eq_none.mp hfree
      refine .inr ⟨⟨name, regex, rfl⟩, ?_, rfl, ?_⟩
      · rw [hcolon]
        rfl
      · rw [Label.link, Option.filter_some, deref_eq hd, hregex]
        exact if_pos hacc

end Links

/-! ### The spur -/

/-- What a walk records along nodes with these labels, one below the other. -/
def spurEntries (env : Env) : List Label → List Text → List (Text × Text)
  | l :: ls, s :: w => if l.accepts env s then (l.name, s) :: spurEntries env ls w else []
  | _, _ => []

/-- The segments lead to the end of nodes with these labels, one below the other. -/
def spurTaken (env : Env) : List Label → List Text → Bool
  | [], [] => true
  | l :: ls, s :: w => l.accepts env s && spurTaken env ls w
  | _, _ => false

section Spurs

variable {env : Env} {t : TrieData M} {p c K e : ℕ} {l : Label} {ls : List Label} {n : Node M}
  {s : Text} {w : List Text} {stack : List (ℕ × List Text)} {marked : Option ℕ}

/-- A child has a greater number. -/
theorem child_lt (ht : t.Ok) (h : Child t p c) : (∃ d, t.node? c = some d) ∧ p < c := by
  obtain ⟨d, hd, hparent⟩ := h.parent ht
  obtain ⟨p', hp', hlt⟩ := ht.parent hd (by rintro rfl; exact not_child_root ht h)
  obtain rfl := Option.some.inj (hparent.symm.trans hp')
  exact ⟨⟨d, hd⟩, hlt⟩

/-- A step of a walk leads to a node with a greater number. -/
theorem lt_of_next (ht : t.Ok)
    (hstep : (t.findChild p s).or (t.getColonNode env p s) = some c) :
    (∃ d, t.node? c = some d) ∧ p < c := by
  rw [← findMatchedChild_eq] at hstep
  exact child_lt ht (child_of_findMatchedChild hstep)

/-- The end of a spur leads nowhere. -/
theorem spur_end (env : Env) (s : Text) (h : Spur t marked p []) :
    t.findChild p s = none ∧ t.getColonNode env p s = none := by
  obtain ⟨⟨n, hn, hchildren, hcolon⟩, -⟩ := h
  rw [TrieData.findChild, TrieData.getColonNode, deref_eq hn, Node.findChild, hchildren, hcolon]
  exact ⟨rfl, rfl⟩

/-- The node that is marked is not in front of a spur, and behind its first link. -/
theorem Spur.le (ht : t.Ok) (h : Spur t (some e) p ls) : p ≤ e ∧ (ls ≠ [] → p < e) := by
  induction ls generalizing p with
  | nil => exact ⟨(h.2 e rfl).ge, fun hne => absurd rfl hne⟩
  | cons l ls ih =>
      obtain ⟨n, c, d, hn, hchildren, hcolon, hd, -, -, hrest⟩ := h
      have hchild : Child t p c := by
        rw [Child, deref_eq hn, hchildren, hcolon]
        cases l with
        | literal key => exact .inr (List.mem_singleton_self c)
        | param name regex => exact .inl rfl
      have hlt := (child_lt ht hchild).2.trans_le (ih hrest).1
      exact ⟨hlt.le, fun _ => hlt⟩

/-- **On a spur** there is one way on, and nothing to be passed by. -/
theorem spur_next (env : Env) (h : Spur t marked p (l :: ls)) :
    ∃ c, (t.deref c).name = l.name ∧ Spur t marked c ls ∧ ∀ s,
      (t.findChild p s).or (t.getColonNode env p s) = (if l.accepts env s then some c else none) ∧
      ∀ (w : List Text) stack,
        passBy (t.findChild p s) (t.getColonNode env p s) w stack = stack := by
  obtain ⟨n, c, d, hn, hchildren, hcolon, hd, hname, hregex, hrest⟩ := h
  refine ⟨c, by rw [deref_eq hd, hname], hrest, fun s => ?_⟩
  rw [TrieData.findChild, TrieData.getColonNode, deref_eq hn, Node.findChild, hchildren, hcolon]
  cases l with
  | literal key =>
      simp only [Label.link, Label.accepts, List.nil_append, List.find?_cons, List.find?_nil,
        Option.filter_none, Option.or_none]
      by_cases hkey : sameName s key = true
      · simp [hkey, passBy]
      · simp [hkey, passBy]
  | param name regex =>
      simp only [Label.link, List.find?_nil, Option.map_none, Option.none_or, Option.filter_some,
        deref_eq hd, hregex]
      exact ⟨rfl, fun w stack => by split <;> rfl⟩

/-- **On a spur** nothing is passed by, and nothing is found but the marked node at its end. -/
theorem descend_spur (ht : t.Ok) (h : Spur t marked p ls) (hp : K ≤ p)
    (hmarked : ∀ e, marked = some e → (t.deref e).endpoint = true)
    (honly : ∀ k, K ≤ k → (t.deref k).endpoint = true → marked = some k)
    (stack : List (ℕ × List Text)) :
    descend t.findChild (t.getColonNode env) (fun n => (t.deref n).endpoint) p w stack =
      (if spurTaken env ls w then marked else none, stack) := by
  induction w generalizing p ls with
  | nil =>
      rw [descend]
      refine Prod.ext ?_ rfl
      cases ls with
      | nil =>
          by_cases hend : (t.deref p).endpoint = true
          · exact (if_pos hend).trans (honly p hp hend).symm
          · have hnone : marked = none := Option.eq_none_iff_forall_ne_some.mpr fun e he =>
              hend (h.2 e he ▸ hmarked e he)
            exact (if_neg hend).trans hnone.symm
      | cons l ls =>
          refine if_neg fun hend => ?_
          have hlt := ((honly p hp hend ▸ h).le ht).2 (List.cons_ne_nil l ls)
          exact Nat.lt_irrefl p hlt
  | cons a w ih =>
      rw [descend_cons]
      cases ls with
      | nil =>
          rw [(spur_end env a h).1, (spur_end env a h).2]
          rfl
      | cons l ls =>
          obtain ⟨c, -, hrest, hnext⟩ := spur_next env h
          obtain ⟨hstep, hpass⟩ := hnext a
          rw [hpass, hstep, spurTaken]
          by_cases hacc : l.accepts env a = true
          · rw [if_pos hacc, hacc, Bool.true_and]
            rw [if_pos hacc] at hstep
            exact ih hrest (hp.trans (lt_of_next ht hstep).2.le)
          · rw [if_neg hacc, Bool.eq_false_iff.mpr hacc, Bool.false_and]
            rfl

/-- What a walk records on a spur. -/
theorem namesOf_spur (h : Spur t marked p ls) :
    namesOf t (way env t p w) w = spurEntries env ls w := by
  induction w generalizing p ls with
  | nil => cases ls <;> rfl
  | cons a w ih =>
      rw [way, findMatchedChild_eq]
      cases ls with
      | nil =>
          rw [(spur_end env a h).1, (spur_end env a h).2]
          rfl
      | cons l ls =>
          obtain ⟨c, hname, hrest, hnext⟩ := spur_next env h
          rw [(hnext a).1, spurEntries]
          split_ifs with hacc
          · rw [← ih hrest, ← hname]
            rfl
          · rfl

end Spurs

/-! ### The walks -/

/-- A walk comes to the node with the segment. -/
def Arrives (env : Env) (t : TrieData M) (q : ℕ) (s : Text) (w : List Text) : Prop :=
  ∃ u v, w = u ++ s :: v ∧ Greedy t.findChild (t.getColonNode env) 0 u q

/-- The walk goes to the spur: the node has no literal child for the segment. -/
def TrieData.turnsOff (env : Env) (t : TrieData M) (q : ℕ) (labels : List Label) (p : ℕ)
    (s : Text) : Bool :=
  p == q && labels.head?.any (·.accepts env s) && (t.findChild p s).isNone

/-- **What a walk would record** in a trie in which nodes with these labels hang below the node. -/
def recordedWith (env : Env) (t : TrieData M) (q : ℕ) (labels : List Label) :
    ℕ → List Text → List (Text × Text)
  | _, [] => []
  | p, s :: w =>
      if t.turnsOff env q labels p s then spurEntries env labels (s :: w)
      else
        match (t.findMatchedChild env p s).1 with
        | none => []
        | some c => ((t.deref c).name, s) :: recordedWith env t q labels c w

section Walks

variable {env : Env} {t t' : TrieData M} {q p k c : ℕ} {labels ls : List Label} {l : Label}
  {marked : Option ℕ} {n : Node M} {s : Text} {u v w : List Text} {stack : List (ℕ × List Text)}

/-- The nodes of a walk are there, with growing numbers. -/
theorem greedy_node (ht : t.Ok) (hn : t.node? p = some n)
    (h : Greedy t.findChild (t.getColonNode env) p w k) : (∃ m, t.node? k = some m) ∧ p ≤ k := by
  induction h generalizing n with
  | nil p => exact ⟨⟨n, hn⟩, Nat.le_refl _⟩
  | cons hstep _ ih =>
      obtain ⟨⟨d, hd⟩, hlt⟩ := lt_of_next ht hstep
      obtain ⟨hnode, hle⟩ := ih hd
      exact ⟨hnode, hlt.le.trans hle⟩

/-- A walk leaves the node it comes to behind. -/
theorem greedy_lt (ht : t.Ok)
    (h : Greedy t.findChild (t.getColonNode env) p (s :: w) k) : p < k := by
  cases h with
  | cons hstep hrest =>
      obtain ⟨⟨d, hd⟩, hlt⟩ := lt_of_next ht hstep
      exact hlt.trans_le (greedy_node ht hd hrest).2

/-- A walk that does not come to the new link sees the links that were there. -/
theorem Graft.agreeOn (g : Graft t t' q labels marked) (ht : t.Ok) (hn : t.node? p = some n)
    (haway : ∀ u s v, w = u ++ s :: v → Greedy t.findChild (t.getColonNode env) p u q →
      ¬ Sprouts env q labels q s) :
    AgreeOn t.findChild (t.getColonNode env) t'.findChild (t'.getColonNode env) p w := by
  intro u a v k hw hgreedy
  obtain ⟨⟨m, hm⟩, -⟩ := greedy_node ht hn hgreedy
  refine g.findChild_eq ht hm fun hsprouts => ?_
  obtain ⟨rfl, hlabel⟩ := hsprouts
  exact haway u a v hw hgreedy ⟨rfl, hlabel⟩

/-- **A walk that does not come to the new link** goes as before. -/
theorem Graft.descent_away (g : Graft t t' q labels marked) (ht : t.Ok) (hgrows : t.Grows t')
    (haway : ∀ s, Arrives env t q s w → ¬ Sprouts env q labels q s)
    (hmarked : ∀ k, Greedy t.findChild (t.getColonNode env) 0 w k → marked = some k →
      (t.deref k).endpoint = true) :
    descent env t' w = descent env t w := by
  obtain ⟨r, hr, -⟩ := ht.root
  refine descend_congr (g.agreeOn ht hr fun u s v hw hgreedy => haway s ⟨u, v, hw, hgreedy⟩) ?_
  intro k hk
  obtain ⟨⟨m, hm⟩, -⟩ := greedy_node ht hr hk
  exact g.endpoint_eq hgrows hm (hmarked k hk)

/-- **What a walk in the grown trie records**, said of the trie before. -/
theorem Graft.namesOf_way (g : Graft t t' q labels marked) (ht : t.Ok) (hn : t.node? p = some n)
    (env : Env) (w : List Text) :
    namesOf t' (way env t' p w) w = recordedWith env t q labels p w := by
  induction w generalizing p n with
  | nil => rfl
  | cons s w ih =>
      rw [way, recordedWith, findMatchedChild_eq]
      split_ifs with hturn
      · rw [TrieData.turnsOff, Bool.and_eq_true, Bool.and_eq_true, beq_iff_eq] at hturn
        obtain ⟨⟨rfl, hhead⟩, hnone⟩ := hturn
        cases labels with
        | nil => cases hhead
        | cons l ls =>
            have hacc : l.accepts env s = true := hhead
            obtain ⟨c, -, hspur, hname, hlinks⟩ := g.find_sprout ht hacc
            have hnext : (t'.findChild p s).or (t'.getColonNode env p s) = some c := by
              rcases hlinks with ⟨-, -, hchild, -⟩ | ⟨-, -, hchild, hcolon⟩
              · rw [hchild, Option.some_or]
              · rw [hchild, Option.isNone_iff_eq_none.mp hnone, Option.none_or, hcolon]
            rw [hnext, spurEntries, if_pos hacc, ← namesOf_spur hspur, ← hname]
            rfl
      · have hnext : (t'.findChild p s).or (t'.getColonNode env p s) =
            (t.findMatchedChild env p s).1 := by
          rw [findMatchedChild_eq]
          by_cases hsprouts : Sprouts env q labels p s
          · -- the literal child is preferred to the new link
            obtain ⟨rfl, l, ls, rfl, hacc⟩ := hsprouts
            obtain ⟨c, -, -, -, hlinks⟩ := g.find_sprout ht hacc
            have hsome : t.findChild p s ≠ none := by
              intro hnone
              exact hturn (by simp [TrieData.turnsOff, hacc, hnone])
            rcases hlinks with ⟨-, hnone, -⟩ | ⟨-, -, hchild, -⟩
            · exact absurd hnone hsome
            · obtain ⟨d, hd⟩ := Option.ne_none_iff_exists'.mp hsome
              rw [hchild, hd, Option.some_or, Option.some_or]
          · rw [(g.findChild_eq ht hn hsprouts).1, (g.findChild_eq ht hn hsprouts).2]
        rw [hnext]
        cases hstep : (t.findMatchedChild env p s).1 with
        | none => rfl
        | some c =>
            rw [findMatchedChild_eq] at hstep
            obtain ⟨⟨d, hd⟩, -⟩ := lt_of_next ht hstep
            dsimp only
            rw [← ih hd, ← (g.deref hd).1]
            rfl

/-- On its way to the node where the pattern leaves the trie a walk sees the links that were
there. -/
theorem Graft.agreeOn_way (g : Graft t t' q labels marked) (ht : t.Ok)
    (hgreedy : Greedy t.findChild (t.getColonNode env) 0 u q) :
    AgreeOn t.findChild (t.getColonNode env) t'.findChild (t'.getColonNode env) 0 u := by
  obtain ⟨r, hr, -⟩ := ht.root
  refine g.agreeOn ht hr fun u' a v' hu hback _ => ?_
  rw [hu] at hgreedy
  exact absurd (greedy_lt ht (hgreedy.split hback)) (Nat.lt_irrefl q)

/-- **Behind the node** a walk does not come back to it, and goes as before. -/
theorem Graft.descend_behind (g : Graft t t' q labels marked) (ht : t.Ok) (hgrows : t.Grows t')
    (hmarked : ∀ e, marked = some e → t.nodes.length ≤ e) (hn : t.node? c = some n) (hlt : q < c)
    (w : List Text) (stack : List (ℕ × List Text)) :
    descend t'.findChild (t'.getColonNode env) (fun n => (t'.deref n).endpoint) c w stack =
      descend t.findChild (t.getColonNode env) (fun n => (t.deref n).endpoint) c w stack := by
  refine descend_congr (g.agreeOn ht hn fun u a v _ hback _ => ?_) fun k hk => ?_
  · exact absurd (greedy_node ht hn hback).2 (Nat.not_le.mpr hlt)
  · obtain ⟨⟨m, hm⟩, -⟩ := greedy_node ht hn hk
    refine g.endpoint_eq hgrows hm fun hk => ?_
    exact absurd (hmarked k hk) (Nat.not_le.mpr (lt_of_node? hm))

/-- Of the new nodes only the one that is marked is an endpoint. -/
theorem Graft.marked_of_endpoint (g : Graft t t' q labels marked) (hnew : t.nodes.length ≤ k)
    (hend : (t'.deref k).endpoint = true) : marked = some k := by
  cases hn : t'.node? k with
  | none =>
      rw [TrieData.deref, hn] at hend
      cases hend
  | some n =>
      rw [deref_eq hn] at hend
      refine (g.endpoint hn hend).resolve_right ?_
      rintro ⟨m, hm, -⟩
      exact absurd hnew (Nat.not_le.mpr (lt_of_node? hm))

/-- The node that is marked is new if nodes are made. -/
theorem Graft.new (g : Graft t t' q labels marked) (ht' : t'.Ok) (hne : labels ≠ []) :
    ∀ e, marked = some e → t.nodes.length ≤ e := by
  rintro e rfl
  obtain ⟨l, ls, rfl⟩ := List.exists_cons_of_ne_nil hne
  obtain ⟨n, n', c, d, -, -, -, -, hle, -, -, -, hspur⟩ := g.sprout l ls rfl
  exact hle.trans (hspur.le ht').1

/-- **A walk that comes to the new link**: where it had no way on, it goes on along the spur; where
it had one, there is a second one now, to be fallen back to. The spur comes first if it hangs on a
literal child. -/
theorem Graft.descent_met (g : Graft t t' q (l :: ls) marked) (ht : t.Ok) (ht' : t'.Ok)
    (hgrows : t.Grows t') (hmarked : ∀ e, marked = some e → (t'.deref e).endpoint = true)
    (hgreedy : Greedy t.findChild (t.getColonNode env) 0 u q) (hacc : l.accepts env s = true) :
    ((t.findMatchedChild env q s).1 = none → (descent env t (u ++ s :: v)).1 = none ∧
      descent env t' (u ++ s :: v) =
        (if spurTaken env ls v then marked else none, (descent env t (u ++ s :: v)).2)) ∧
      ((t.findMatchedChild env q s).1 ≠ none → (descent env t' (u ++ s :: v)).2 ≠ [] ∧
        (descent env t' (u ++ s :: v)).1 = if l.isParam then (descent env t (u ++ s :: v)).1
          else if spurTaken env ls v then marked else none) := by
  obtain ⟨front, hfront⟩ := @Greedy.descend_both ℕ Text t.findChild (t.getColonNode env)
    (fun n => (t.deref n).endpoint) 0 t'.findChild (t'.getColonNode env)
    (fun n => (t'.deref n).endpoint) q u hgreedy (g.agreeOn_way ht hgreedy) (s :: v)
  rw [descent, descent, (hfront []).1, (hfront []).2, List.append_nil, descend_cons, descend_cons,
    findMatchedChild_eq]
  obtain ⟨c, hle, hspur, -, hlinks⟩ := g.find_sprout ht hacc
  have hfound := @descend_spur M env t' c t.nodes.length ls v marked ht' hspur hle hmarked
    fun k => g.marked_of_endpoint
  rcases hlinks with ⟨⟨key, rfl⟩, hnone, hchild, hcolon⟩ |
    ⟨⟨name, regex, rfl⟩, hnone, hchild, hcolon⟩
  · -- a literal child: the spur comes first
    rw [hchild, hcolon, hnone, Option.none_or, Option.some_or]
    dsimp only
    rw [hfound]
    cases t.getColonNode env q s with
    | none => exact ⟨fun _ => ⟨rfl, rfl⟩, fun h => absurd rfl h⟩
    | some d => exact ⟨fun h => absurd h (by simp), fun _ => ⟨List.cons_ne_nil _ _, rfl⟩⟩
  · -- a parameter child: the spur is kept for later where there is a literal child
    rw [hchild, hcolon, hnone, Option.or_none]
    cases hstep : t.findChild q s with
    | none =>
        rw [Option.none_or]
        dsimp only
        rw [hfound]
        exact ⟨fun _ => ⟨rfl, rfl⟩, fun h => absurd rfl h⟩
    | some c₀ =>
        obtain ⟨⟨d, hd⟩, hlt⟩ := @lt_of_next M env t q c₀ s ht (by rw [hstep, Option.some_or])
        rw [Option.some_or]
        dsimp only
        have hstack : ∀ stack, descend t.findChild (t.getColonNode env)
            (fun n => (t.deref n).endpoint) c₀ v stack = _ := fun stack => descend_stack
        rw [g.descend_behind ht hgrows (g.new ht' (List.cons_ne_nil _ _)) hd hlt,
          hstack (passBy (some c₀) (some c) v front), hstack (passBy (some c₀) none v front)]
        refine ⟨fun h => absurd h (by simp), fun _ => ⟨?_, rfl⟩⟩
        exact List.append_ne_nil_of_right_ne_nil _ (List.cons_ne_nil _ _)

end Walks

end ArchNet.Routing
